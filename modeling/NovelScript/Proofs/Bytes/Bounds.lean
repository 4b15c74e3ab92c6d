import NovelScript.Proofs.Bytes.Windows

/-! # Bounds of cursors

Whatever is done with a cursor, and whether it succeeds or fails, the cursor stays in its view, in
front of a limit that does not go up. So reads find what the view holds at the position, and marks
can be read from wherever the cursor has gone since. -/

namespace NovelScript

namespace Cursor

/-- Position, limit and mark stand in the view. -/
structure Bounded (c : Cursor) : Prop where
  placed : c.Placed
  mark : ∀ m, c.mark = some m → c.view.offset ≤ m ∧ m ≤ c.view.stop

/-- A cursor in the same view under no higher limit, in bounds if the first one is. -/
structure Confined (c c' : Cursor) : Prop where
  view : c'.view = c.view
  limit : c'.limit ≤ c.limit
  bounded : c.Bounded → c'.Bounded

theorem Bounded.ofView (v : View) : (Cursor.ofView v).Bounded :=
  ⟨.ofView v, fun _ h => by cases h⟩

theorem Confined.refl (c : Cursor) : Confined c c := ⟨rfl, Nat.le_refl _, id⟩

theorem Confined.trans {c c' c'' : Cursor} (h : Confined c c') (h' : Confined c' c'') :
    Confined c c'' :=
  ⟨h'.view.trans h.view, Nat.le_trans h'.limit h.limit, fun hc => h'.bounded (h.bounded hc)⟩

/-- A cursor whose position alone is another. -/
theorem Confined.at {c : Cursor} {pos : Nat}
    (h : c.Bounded → c.view.offset ≤ pos ∧ pos ≤ c.limit) : Confined c { c with pos := pos } where
  view := rfl
  limit := Nat.le_refl _
  bounded := fun hc => ⟨⟨(h hc).1, (h hc).2, hc.placed.limit⟩, hc.mark⟩

theorem Confined.unmarked (c : Cursor) : Confined c { c with mark := none } where
  view := rfl
  limit := Nat.le_refl _
  bounded := fun hc =>
    ⟨⟨hc.placed.start, hc.placed.pos, hc.placed.limit⟩, fun _ h => by cases h⟩

end Cursor

namespace Reader

open Cursor

variable {α β : Type}

/-- Whatever a reader comes to, its cursor stays in bounds. -/
def Stays (r : Reader α) : Prop := ∀ c, Confined c (r.runOn c).2

theorem Stays.pure (a : α) : Stays (Pure.pure a : Reader α) := fun c => .refl c

theorem Stays.fail (fault : Fault) : Stays (Reader.fail fault : Reader α) := fun c => .refl c

theorem Stays.bind {x : Reader α} {f : α → Reader β} (hx : Stays x) (hf : ∀ a, Stays (f a)) :
    Stays (x >>= f) := by
  intro c
  have hfirst := hx c
  rw [runOn_bind]
  rcases hrun : x.runOn c with ⟨outcome, c'⟩
  rw [hrun] at hfirst
  cases outcome with
  | error fault => exact hfirst
  | ok a => exact hfirst.trans (hf a c')

theorem Stays.map {x : Reader α} {f : α → β} (hx : Stays x) : Stays (do return f (← x)) :=
  hx.bind fun a => .pure (f a)

theorem Stays.ite {p : Prop} [Decidable p] {x y : Reader α} (hx : Stays x) (hy : Stays y) :
    Stays (if p then x else y) := by
  split
  · exact hx
  · exact hy

theorem stays_pos : Stays pos := fun c => .refl c

theorem stays_peek (r : Reader α) : Stays (peek r) := fun c => .refl c

theorem stays_take (n : Nat) : Stays (take n) := by
  intro c
  simp only [runOn, take]
  split
  · rename_i hle
    exact .at fun hc => ⟨Nat.le_trans hc.placed.start (Nat.le_add_right _ _), hle⟩
  · exact .refl c

theorem stays_nat (width : Nat) : Stays (nat width) := (stays_take width).map

theorem stays_u8 : Stays u8 := (stays_nat 1).map

theorem stays_u16 : Stays u16 := (stays_nat 2).map

theorem stays_u32 : Stays u32 := (stays_nat 4).map

theorem stays_takeUntil (terminator : UInt8) : Stays (takeUntil terminator) := by
  intro c
  simp only [runOn, takeUntil]
  split
  · rename_i i hi
    refine .at fun hc => ?_
    have hlt : i < c.rest.length := by
      rw [List.idxOf?, List.findIdx?_eq_some_iff_getElem] at hi
      exact hi.1
    rw [length_rest hc.placed] at hlt
    have := hc.placed.start
    omega
  · refine .at fun hc => ?_
    have := hc.placed.start
    have := hc.placed.pos
    omega

theorem stays_expect (expected : Bytes) : Stays (expect expected) :=
  stays_pos.bind fun _ => (stays_take _).bind fun _ => .ite (.pure _) (.fail _)

theorem stays_nulls (count : Nat) : Stays (nulls count) :=
  stays_pos.bind fun _ => (stays_take _).bind fun _ => .ite (.pure _) (.fail _)

theorem stays_rewind (n : Nat) : Stays (rewind n) := by
  intro c
  simp only [runOn, rewind]
  split
  · refine .at fun hc => ?_
    have := hc.placed.pos
    omega
  · exact .refl c

theorem stays_setEnd : Stays setEnd := by
  intro c
  simp only [runOn, setEnd]
  split
  · rename_i hle
    refine ⟨rfl, hle, fun hc => ⟨⟨hc.placed.start, Nat.le_refl _, ?_⟩, hc.mark⟩⟩
    exact Nat.le_trans hle hc.placed.limit
  · exact .refl c

/-- The position stands in the view, and so does a mark there. -/
theorem stays_setMark : Stays setMark := by
  intro c
  simp only [runOn, setMark]
  split
  · exact .refl c
  · refine ⟨rfl, Nat.le_refl _, fun hc => ⟨⟨hc.placed.start, hc.placed.pos, hc.placed.limit⟩, ?_⟩⟩
    rintro m ⟨⟩
    exact ⟨hc.placed.start, Nat.le_trans hc.placed.pos hc.placed.limit⟩

theorem stays_clearMark : Stays clearMark := fun c => .unmarked c

theorem stays_takeFromMark : Stays takeFromMark := by
  intro c
  simp only [runOn, takeFromMark]
  split
  · exact .unmarked c
  · exact .refl c

end Reader

namespace Cursor

open Reader

/-- What can be done with a cursor. -/
inductive Step where
  | take (n : Nat)
  | u8 | u16 | s16 | u32 | s32
  | peekU8 | peekU32
  | takeUntil (terminator : UInt8)
  | expect (expected : Bytes)
  | nulls (count : Nat)
  | rewind (n : Nat)
  | setEnd
  | setMark | clearMark | takeFromMark

/-- The cursor after a step, whatever the step comes to. -/
def step (c : Cursor) : Step → Cursor
  | .take n => ((take n).runOn c).2
  | .u8 => (u8.runOn c).2
  | .u16 => (u16.runOn c).2
  | .s16 => (s16.runOn c).2
  | .u32 => (u32.runOn c).2
  | .s32 => (s32.runOn c).2
  | .peekU8 => ((peek u8).runOn c).2
  | .peekU32 => ((peek u32).runOn c).2
  | .takeUntil terminator => ((takeUntil terminator).runOn c).2
  | .expect expected => ((expect expected).runOn c).2
  | .nulls count => ((nulls count).runOn c).2
  | .rewind n => ((rewind n).runOn c).2
  | .setEnd => (setEnd.runOn c).2
  | .setMark => (setMark.runOn c).2
  | .clearMark => (clearMark.runOn c).2
  | .takeFromMark => (takeFromMark.runOn c).2

/-- The cursor after some steps. -/
def after (c : Cursor) (steps : List Step) : Cursor := steps.foldl step c

theorem confined_step (c : Cursor) (s : Step) : Confined c (c.step s) := by
  cases s with
  | take n => exact stays_take n c
  | u8 => exact stays_u8 c
  | u16 => exact stays_u16 c
  | s16 => exact stays_u16.map c
  | u32 => exact stays_u32 c
  | s32 => exact stays_u32.map c
  | peekU8 => exact stays_peek _ c
  | peekU32 => exact stays_peek _ c
  | takeUntil terminator => exact stays_takeUntil terminator c
  | expect expected => exact stays_expect expected c
  | nulls count => exact stays_nulls count c
  | rewind n => exact stays_rewind n c
  | setEnd => exact stays_setEnd c
  | setMark => exact stays_setMark c
  | clearMark => exact stays_clearMark c
  | takeFromMark => exact stays_takeFromMark c

theorem confined_after (c : Cursor) (steps : List Step) : Confined c (c.after steps) := by
  induction steps generalizing c with
  | nil => exact .refl c
  | cons s steps ih => exact (confined_step c s).trans (ih (c.step s))

/-! ## Reading in bounds -/

variable {α β : Type} {c : Cursor} {n : Nat}

/-- The `n` bytes of the view at the position. -/
def bytesAhead (c : Cursor) (n : Nat) : Bytes := (c.view.bytes.drop (c.pos - c.view.offset)).take n

/-- From here a reader reads `n` bytes: if they lie in front of the limit it gives what they mean and
moves past them, and otherwise it fails where it stands. -/
structure Fetches (c : Cursor) (n : Nat) (r : Reader α) (meaning : Bytes → α) : Prop where
  moves : c.pos + n ≤ c.limit →
    r.runOn c = (.ok (meaning (c.bytesAhead n)), { c with pos := c.pos + n })
  fails : c.limit < c.pos + n → ∃ fault, r.runOn c = (.error fault, c)

theorem runOn_take_of_lt (h : c.limit < c.pos + n) :
    (take n).runOn c = (.error (.bounds c.pos n c.limit), c) :=
  if_neg (Nat.not_le.mpr h)

/-- The bytes that are read are those of the view at the position. -/
theorem Bounded.runOn_take (hc : c.Bounded) (h : c.pos + n ≤ c.limit) :
    (take n).runOn c = (.ok (c.bytesAhead n), { c with pos := c.pos + n }) := by
  have hstart := hc.placed.start
  have hstop : c.pos + n ≤ c.view.stop := Nat.le_trans h hc.placed.limit
  have hplace : c.view.offset + (c.pos - c.view.offset) = c.pos := by omega
  have hin : c.pos - c.view.offset + n ≤ c.view.length := by
    simp only [View.stop] at hstop
    omega
  let part : View := ⟨c.view.buffer, c.pos, n, Nat.le_trans hstop c.view.inBounds⟩
  have hbytes : part.bytes = c.bytesAhead n := View.bytes_of_place rfl hplace.symm hin
  rw [runOn_take_of_le h, ← hbytes]
  rfl

theorem Fetches.take (hc : c.Bounded) (n : Nat) : c.Fetches n (take n) id where
  moves := hc.runOn_take
  fails := fun h => ⟨_, runOn_take_of_lt h⟩

theorem Fetches.map {r : Reader α} {meaning : Bytes → α} (h : c.Fetches n r meaning) (f : α → β) :
    c.Fetches n (do return f (← r)) (fun bytes => f (meaning bytes)) where
  moves := fun hle => by
    rw [runOn_bind_of_ok (h.moves hle)]
    rfl
  fails := fun hlt => by
    obtain ⟨fault, hfault⟩ := h.fails hlt
    exact ⟨fault, by rw [runOn_bind, hfault]⟩

theorem Fetches.nat (hc : c.Bounded) (width : Nat) : c.Fetches width (nat width) Bytes.toNatLE :=
  (Fetches.take hc width).map Bytes.toNatLE

theorem Bounded.runOn_setEnd (hc : c.Bounded) :
    setEnd.runOn c = (.ok (), { c with limit := c.pos, endForced := true }) :=
  if_pos hc.placed.pos

/-- From a mark that is set a view is read, which is empty if the position is in front of it. -/
theorem Bounded.runOn_takeFromMark (hc : c.Bounded) {m : Nat} (hm : c.mark = some m) :
    ∃ w, takeFromMark.runOn c = (.ok w, { c with mark := none }) ∧ w.buffer = c.view.buffer ∧
      w.offset = m ∧ w.length = c.pos - m ∧
      w.bytes = (c.view.bytes.drop (m - c.view.offset)).take (c.pos - m) := by
  obtain ⟨hstart, hstop⟩ := hc.mark m hm
  have hpos : c.pos ≤ c.view.stop := Nat.le_trans hc.placed.pos hc.placed.limit
  obtain ⟨w, hw⟩ := View.exists_absolute_iff.mpr
    (⟨hstart, by omega⟩ : c.view.offset ≤ m ∧ m + (c.pos - m) ≤ c.view.stop)
  obtain ⟨-, hbuffer, hoffset, hlength⟩ := View.absolute_eq_ok_iff.mp hw
  refine ⟨w, ?_, hbuffer, hoffset, hlength, ?_⟩
  · simp only [runOn, takeFromMark, hm, spanFrom, hw]
  · rw [← hlength]
    refine View.bytes_of_place hbuffer (by omega) ?_
    simp only [View.stop] at hstop hpos
    omega

/-- However a cursor over a view was used, it stands between the start of the view and its limit,
which lies in the view and never goes up. A read of so many bytes succeeds if they end in front of
the limit, and then gives the bytes of the view at the position and moves past them; if not, it
fails and leaves the cursor as it is. So does a read of an integer, and gives the number that the
bytes are with the lowest first. The end can be set, and a peek changes nothing. Reading from
the mark fails if there is none, and otherwise gives the bytes from the mark to the position, which
are none where the position has gone back behind the mark. -/
theorem bounds_after_steps (v : View) (steps : List Step) :
    let c := (Cursor.ofView v).after steps
    (c.view = v ∧ v.offset ≤ c.pos ∧ c.pos ≤ c.limit ∧ c.limit ≤ v.stop ∧
      ∀ more, (c.after more).limit ≤ c.limit) ∧
    (∀ n, (c.pos + n ≤ c.limit → ∃ part,
        (take n).runOn c = (.ok part, { c with pos := c.pos + n }) ∧
          part = (v.bytes.drop (c.pos - v.offset)).take n ∧ part.length = n) ∧
      (c.limit < c.pos + n → ∃ fault, (take n).runOn c = (.error fault, c))) ∧
    (c.Fetches 1 u8 (fun bytes => UInt8.ofNat bytes.toNatLE) ∧
      c.Fetches 2 u16 (fun bytes => UInt16.ofNat bytes.toNatLE) ∧
      c.Fetches 2 s16 (fun bytes => (UInt16.ofNat bytes.toNatLE).toInt16) ∧
      c.Fetches 4 u32 (fun bytes => UInt32.ofNat bytes.toNatLE) ∧
      c.Fetches 4 s32 (fun bytes => (UInt32.ofNat bytes.toNatLE).toInt32)) ∧
    setEnd.runOn c = (.ok (), { c with limit := c.pos, endForced := true }) ∧
    ((peek u8).runOn c = ((u8.runOn c).1, c) ∧ (peek u32).runOn c = ((u32.runOn c).1, c)) ∧
    ((c.mark = none → ∃ fault, takeFromMark.runOn c = (.error fault, c)) ∧
      ∀ m, c.mark = some m → ∃ w, takeFromMark.runOn c = (.ok w, { c with mark := none }) ∧
        w.offset = m ∧ w.bytes = (v.bytes.drop (m - v.offset)).take (c.pos - m) ∧
        (c.pos ≤ m → w.bytes = [])) := by
  intro c
  have hconfined := confined_after (Cursor.ofView v) steps
  have hview : c.view = v := hconfined.view
  have hc : c.Bounded := hconfined.bounded (.ofView v)
  have hu8 := (Fetches.nat hc 1).map UInt8.ofNat
  have hu16 := (Fetches.nat hc 2).map UInt16.ofNat
  have hu32 := (Fetches.nat hc 4).map UInt32.ofNat
  refine ⟨⟨hview, hview ▸ hc.placed.start, hc.placed.pos, hview ▸ hc.placed.limit,
      fun more => (confined_after c more).limit⟩, fun n => ⟨fun h => ?_, (Fetches.take hc n).fails⟩,
    ⟨hu8, hu16, hu16.map UInt16.toInt16, hu32, hu32.map UInt32.toInt32⟩, hc.runOn_setEnd,
    ⟨rfl, rfl⟩, fun hmark => ?_, fun m hmark => ?_⟩
  · refine ⟨_, hc.runOn_take h, by rw [bytesAhead, hview], ?_⟩
    have := hc.placed.start
    have := hc.placed.limit
    simp only [View.stop] at this
    simp only [bytesAhead, List.length_take, List.length_drop, View.length_bytes]
    omega
  · simp only [runOn, takeFromMark, hmark]
    exact ⟨_, rfl⟩
  · obtain ⟨w, hw, -, hoffset, -, hbytes⟩ := hc.runOn_takeFromMark hmark
    rw [hview] at hbytes
    refine ⟨w, hw, hoffset, hbytes, fun hback => ?_⟩
    rw [hbytes, Nat.sub_eq_zero_of_le hback, List.take_zero]

end Cursor

end NovelScript
