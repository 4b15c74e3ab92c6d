import NovelScript.Proofs.Bytes.Content

/-! # Windows of a buffer

Views are taken from a buffer, from other views and as the span of two of them. All of them lie in
the buffer, a part of a part is a part, and a span is the smallest view around both. Offsets count
exactly as long as the buffer ends in front of the last address: a sum that leaves the addresses is
told as that address, where no view of the buffer has anything. -/

namespace NovelScript

namespace View

variable {buffer : Buffer} {u v w : View} {offset length : Nat}

/-- The view is taken from the buffer by some steps, each of which gives a view. -/
inductive Taken (buffer : Buffer) : View → Prop
  | whole : Taken buffer (.whole buffer)
  | sub {v w : View} {offset length : Nat} (hv : Taken buffer v)
      (hsub : v.sub offset length = .ok w) : Taken buffer w
  | absolute {v w : View} {offset length : Nat} (hv : Taken buffer v)
      (habsolute : v.absolute offset length = .ok w) : Taken buffer w
  | spanTo {u v w : View} (hu : Taken buffer u) (hv : Taken buffer v)
      (hspan : u.spanTo v = some w) : Taken buffer w

/-- The view `u` has the view `v` inside. -/
structure Covers (u v : View) : Prop where
  buffer : v.buffer = u.buffer
  start : u.offset ≤ v.offset
  stop : v.stop ≤ u.stop

/-- A view is told by its buffer and its place. -/
theorem eq_of_place (hbuffer : v.buffer = w.buffer) (hoffset : v.offset = w.offset)
    (hlength : v.length = w.length) : v = w := by
  cases v
  cases w
  simp only [mk.injEq]
  exact ⟨hbuffer, hoffset, hlength⟩

/-- A view that lies in another one holds a stretch of its bytes. -/
theorem bytes_of_place (hbuffer : w.buffer = v.buffer) (hoffset : w.offset = v.offset + offset)
    (hlength : offset + w.length ≤ v.length) :
    w.bytes = (v.bytes.drop offset).take w.length := by
  simp only [bytes, stop, hbuffer, hoffset, Array.toList_extract, List.extract_eq_take_drop,
    List.drop_take, List.drop_drop, List.take_take]
  congr 1
  omega

/-! ## Parts -/

/-- An absolute part is there if it lies inside the view, and is where it was asked for. -/
theorem absolute_eq_ok_iff :
    v.absolute offset length = .ok w ↔
      (v.offset ≤ offset ∧ offset + length ≤ v.stop) ∧
        w.buffer = v.buffer ∧ w.offset = offset ∧ w.length = length := by
  unfold absolute
  split
  · rename_i hin
    constructor
    · rintro ⟨⟩
      exact ⟨hin, rfl, rfl, rfl⟩
    · rintro ⟨-, hbuffer, hoffset, hlength⟩
      exact congrArg _ (eq_of_place hbuffer.symm hoffset.symm hlength.symm)
  · rename_i hout
    constructor
    · rintro ⟨⟩
    · rintro ⟨hin, -⟩
      exact absurd hin hout

theorem exists_absolute_iff :
    (∃ w, v.absolute offset length = .ok w) ↔ v.offset ≤ offset ∧ offset + length ≤ v.stop := by
  constructor
  · rintro ⟨w, hw⟩
    exact (absolute_eq_ok_iff.mp hw).1
  · intro hin
    exact ⟨⟨v.buffer, offset, length, Nat.le_trans hin.2 v.inBounds⟩,
      absolute_eq_ok_iff.mpr ⟨hin, rfl, rfl, rfl⟩⟩

/-- A part is there if it is not longer than what is left of the view behind its start. -/
theorem sub_eq_ok_iff (hbuffer : v.buffer.data.size < maxAddress) :
    v.sub offset length = .ok w ↔
      offset + length ≤ v.length ∧
        w.buffer = v.buffer ∧ w.offset = v.offset + offset ∧ w.length = length := by
  have hbounds := v.inBounds
  rw [View.sub, absolute_eq_ok_iff]
  simp only [stop]
  constructor
  · rintro ⟨hin, hsame, hoffset, hlength⟩
    exact ⟨by omega, hsame, by omega, hlength⟩
  · rintro ⟨hin, hsame, hoffset, hlength⟩
    exact ⟨by omega, hsame, by omega, hlength⟩

theorem exists_sub_iff (hbuffer : v.buffer.data.size < maxAddress) :
    (∃ w, v.sub offset length = .ok w) ↔ offset + length ≤ v.length := by
  have hbounds := v.inBounds
  rw [View.sub, exists_absolute_iff]
  simp only [stop]
  omega

/-- A part of a part is a part. -/
theorem sub_sub {offset' length' : Nat} (hbuffer : v.buffer.data.size < maxAddress)
    (hw : v.sub offset length = .ok w) (hu : w.sub offset' length' = .ok u) :
    v.sub (offset + offset') length' = .ok u := by
  obtain ⟨hin, hsame, hoffset, hlength⟩ := (sub_eq_ok_iff hbuffer).mp hw
  obtain ⟨hin', hsame', hoffset', hlength'⟩ := (sub_eq_ok_iff (hsame ▸ hbuffer)).mp hu
  exact (sub_eq_ok_iff hbuffer).mpr ⟨by omega, hsame'.trans hsame, by omega, hlength'⟩

/-! ## Spans -/

theorem exists_spanTo (h : v.buffer = w.buffer) :
    ∃ u, v.spanTo w = some u ∧ u.buffer = v.buffer ∧ u.offset = min v.offset w.offset ∧
      u.stop = max v.stop w.stop := by
  refine ⟨_, dif_pos h, rfl, rfl, ?_⟩
  simp only [stop]
  omega

theorem buffer_of_spanTo (h : v.spanTo w = some u) : u.buffer = v.buffer := by
  unfold View.spanTo at h
  split at h
  · cases h
    rfl
  · cases h

/-- The span of two views has both inside, and whatever view has both inside has the span. -/
theorem covers_spanTo_iff (hspan : v.spanTo w = some u) (hbuffer : v.buffer = w.buffer)
    (x : View) : x.Covers u ↔ x.Covers v ∧ x.Covers w := by
  obtain ⟨u', hu', hsame, hoffset, hstop⟩ := exists_spanTo hbuffer
  obtain rfl : u = u' := Option.some.inj (hspan.symm.trans hu')
  constructor
  · rintro ⟨hx, hstart, hend⟩
    exact ⟨⟨hsame.symm.trans hx, by omega, by omega⟩,
      ⟨hbuffer.symm.trans (hsame.symm.trans hx), by omega, by omega⟩⟩
  · rintro ⟨⟨hv, hvstart, hvend⟩, ⟨hw, hwstart, hwend⟩⟩
    exact ⟨hsame.trans hv, by omega, by omega⟩

theorem Covers.refl (v : View) : v.Covers v := ⟨rfl, Nat.le_refl _, Nat.le_refl _⟩

theorem spanTo_comm (v w : View) : v.spanTo w = w.spanTo v := by
  by_cases h : v.buffer = w.buffer
  · obtain ⟨u, hu, hbuffer, hoffset, hstop⟩ := exists_spanTo h
    obtain ⟨u', hu', hbuffer', hoffset', hstop'⟩ := exists_spanTo h.symm
    have hsame : u.offset = u'.offset := by rw [hoffset, hoffset', Nat.min_comm]
    have hend : u.stop = u'.stop := by rw [hstop, hstop', Nat.max_comm]
    simp only [stop] at hend
    rw [hu, hu', eq_of_place (hbuffer.trans (h.trans hbuffer'.symm)) hsame (by omega)]
  · rw [View.spanTo, dif_neg h, View.spanTo, dif_neg (Ne.symm h)]

/-! ## All views of a buffer -/

theorem Taken.buffer_eq (h : Taken buffer v) : v.buffer = buffer := by
  induction h with
  | whole => rfl
  | sub _ hsub ih =>
    rw [View.sub] at hsub
    exact (absolute_eq_ok_iff.mp hsub).2.1.trans ih
  | absolute _ habsolute ih => exact (absolute_eq_ok_iff.mp habsolute).2.1.trans ih
  | spanTo _ _ hspan ih _ => exact (buffer_of_spanTo hspan).trans ih

/-- A view that is taken from a buffer lies in it. Its parts are those that do not go beyond its
length, they hold the bytes of their places, and their parts are its own; the absolute ones are
those between its start and its end. Two views of the buffer have a span, the same in either order,
that is inside of all views that have both inside. -/
theorem taken_views_compose (hbuffer : buffer.data.size < maxAddress) (hv : Taken buffer v) :
    (v.buffer = buffer ∧ v.offset + v.length ≤ buffer.data.size) ∧
    (∀ offset length, ((∃ w, v.sub offset length = .ok w) ↔ offset + length ≤ v.length) ∧
      ∀ w, v.sub offset length = .ok w → w.offset = v.offset + offset ∧ w.length = length ∧
        w.bytes = (v.bytes.drop offset).take length) ∧
    (∀ offset length offset' length' w u, v.sub offset length = .ok w →
      w.sub offset' length' = .ok u → v.sub (offset + offset') length' = .ok u) ∧
    (∀ offset length, (∃ w, v.absolute offset length = .ok w) ↔
      v.offset ≤ offset ∧ offset + length ≤ v.stop) ∧
    ∀ w, Taken buffer w → ∃ u, v.spanTo w = some u ∧ w.spanTo v = some u ∧
      u.Covers v ∧ u.Covers w ∧ ∀ x : View, x.Covers v → x.Covers w → x.Covers u := by
  have hsame := hv.buffer_eq
  have haddresses : v.buffer.data.size < maxAddress := hsame ▸ hbuffer
  refine ⟨⟨hsame, hsame ▸ v.inBounds⟩, fun offset length => ⟨exists_sub_iff haddresses, ?_⟩,
    fun _ _ _ _ _ _ hw hu => sub_sub haddresses hw hu, fun _ _ => exists_absolute_iff, ?_⟩
  · intro w hw
    obtain ⟨hin, hwbuffer, hoffset, rfl⟩ := (sub_eq_ok_iff haddresses).mp hw
    exact ⟨hoffset, rfl, bytes_of_place hwbuffer hoffset hin⟩
  · intro w hw
    have hboth : v.buffer = w.buffer := hsame.trans hw.buffer_eq.symm
    obtain ⟨u, hu, -⟩ := exists_spanTo hboth
    obtain ⟨hcoversv, hcoversw⟩ := (covers_spanTo_iff hu hboth u).mp (.refl u)
    refine ⟨u, hu, spanTo_comm v w ▸ hu, hcoversv, hcoversw, fun x hxv hxw => ?_⟩
    exact (covers_spanTo_iff hu hboth x).mpr ⟨hxv, hxw⟩

/-- Four of six bytes: a part of them, no part at the last address, not even an empty one, and the
span with the empty view at the end of the buffer. -/
theorem taken_views_compose_six_bytes :
    let buffer : Buffer := ⟨0, #[0, 1, 2, 3, 4, 5]⟩
    let v : View := ⟨buffer, 1, 4, by decide⟩
    let w : View := ⟨buffer, 6, 0, by decide⟩
    buffer.data.size < maxAddress ∧ Taken buffer v ∧ Taken buffer w ∧
      (∃ u, v.sub 2 2 = .ok u ∧ u.offset = 3 ∧ u.bytes = [3, 4]) ∧
      (¬ ∃ u, v.sub maxAddress 0 = .ok u) ∧
      ∃ u, v.spanTo w = some u ∧ w.spanTo v = some u ∧ u.offset = 1 ∧ u.length = 5 := by
  intro buffer v w
  have hbuffer : buffer.data.size < maxAddress := by decide
  have hsub : (whole buffer).sub 1 4 = .ok v := rfl
  have habsolute : (whole buffer).absolute 6 0 = .ok w := rfl
  have hv : Taken buffer v := .sub .whole hsub
  have hw : Taken buffer w := .absolute .whole habsolute
  obtain ⟨-, hparts, -, -, hspans⟩ := taken_views_compose hbuffer hv
  refine ⟨hbuffer, hv, hw, ?_, ?_, ?_⟩
  · obtain ⟨u, hu⟩ := (hparts 2 2).1.mpr (by decide)
    obtain ⟨hoffset, -, hbytes⟩ := (hparts 2 2).2 u hu
    exact ⟨u, hu, hoffset, hbytes⟩
  · exact fun hthere => absurd ((hparts maxAddress 0).1.mp hthere) (by decide)
  · obtain ⟨u, hvw, hwv, -⟩ := hspans w hw
    have hplace : v.spanTo w = some ⟨buffer, 1, 5, by decide⟩ := rfl
    obtain rfl := Option.some.inj (hvw.symm.trans hplace)
    exact ⟨_, hvw, hwv, rfl, rfl⟩

end View

end NovelScript
