import Mathlib.Algebra.Group.Nat.Defs
import NovelScript.Proofs.Bytes.Progress

/-! # Reading known bytes

Where it is known which bytes a view holds, it is known what readers find there. What a reader has
found is there in turn. -/

namespace NovelScript

/-- The digits of a number are read as far as they were written. -/
theorem Bytes.toNatLE_ofNatLE (width n : Nat) : toNatLE (ofNatLE width n) = n % 256 ^ width := by
  induction width generalizing n with
  | zero => simp [ofNatLE, toNatLE, Nat.mod_one]
  | succ width ih =>
    have hdigit : (UInt8.ofNat (n % 256)).toNat = n % 256 := by simp
    rw [ofNatLE, toNatLE, ih, hdigit, Nat.pow_succ', Nat.mod_mul]

theorem Bytes.ofNatLE_inj {width m n : Nat} (hm : m < 256 ^ width) (hn : n < 256 ^ width)
    (h : ofNatLE width m = ofNatLE width n) : m = n := by
  have hvalue := congrArg toNatLE h
  rwa [toNatLE_ofNatLE, toNatLE_ofNatLE, Nat.mod_eq_of_lt hm, Nat.mod_eq_of_lt hn] at hvalue

/-- The digits that are read as a number are its digits. -/
theorem Bytes.ofNatLE_toNatLE (bytes : Bytes) : ofNatLE bytes.length (toNatLE bytes) = bytes := by
  induction bytes with
  | nil => rfl
  | cons b bytes ih =>
    have hlow : (b.toNat + 256 * toNatLE bytes) % 256 = b.toNat := by
      have hlt := b.toNat_lt
      omega
    have hhigh : (b.toNat + 256 * toNatLE bytes) / 256 = toNatLE bytes := by
      have hlt := b.toNat_lt
      omega
    rw [List.length_cons, toNatLE, ofNatLE, hlow, hhigh, ih, UInt8.ofNat_toNat]

theorem Bytes.toNatLE_lt (bytes : Bytes) : toNatLE bytes < 256 ^ bytes.length := by
  have hmod := toNatLE_ofNatLE bytes.length (toNatLE bytes)
  rw [ofNatLE_toNatLE] at hmod
  rw [hmod]
  exact Nat.mod_lt _ (Nat.pow_pos (by decide))

namespace View

variable {v : View} {start : Nat} {part : Bytes}

theorem length_bytes (v : View) : v.bytes.length = v.length := by
  have hbounds := v.inBounds
  simp only [bytes, stop, Array.length_toList, Array.size_extract]
  omega

theorem bytes_ofBytes (bytes : Bytes) : (ofBytes bytes).bytes = bytes := by
  simp [ofBytes, whole, View.bytes, stop]

/-- The view holds the bytes, `start` bytes behind its first one. -/
def Holds (v : View) (start : Nat) (part : Bytes) : Prop :=
  ∃ front back, v.bytes = front ++ part ++ back ∧ front.length = start

theorem holds_bytes (v : View) : v.Holds 0 v.bytes := ⟨[], [], by simp, rfl⟩

theorem Holds.left {a b : Bytes} (h : v.Holds start (a ++ b)) : v.Holds start a := by
  obtain ⟨front, back, hbytes, hlength⟩ := h
  exact ⟨front, b ++ back, by simpa using hbytes, hlength⟩

theorem Holds.right {a b : Bytes} (h : v.Holds start (a ++ b)) : v.Holds (start + a.length) b := by
  obtain ⟨front, back, hbytes, hlength⟩ := h
  exact ⟨front ++ a, back, by simpa using hbytes, by simp [hlength]⟩

theorem Holds.le_length (h : v.Holds start part) : start + part.length ≤ v.length := by
  obtain ⟨front, back, hbytes, hlength⟩ := h
  have htotal := congrArg List.length hbytes
  simp only [length_bytes, List.length_append] at htotal
  omega

/-- Whatever lies between two places of a view is held there. -/
theorem holds_between (v : View) {start count : Nat} (h : start + count ≤ v.length) :
    v.Holds start ((v.bytes.drop start).take count) ∧
      ((v.bytes.drop start).take count).length = count := by
  have hlength := v.length_bytes
  constructor
  · refine ⟨v.bytes.take start, v.bytes.drop (start + count), ?_, ?_⟩
    · rw [List.append_assoc, ← List.drop_drop, List.take_append_drop, List.take_append_drop]
    · rw [List.length_take]
      omega
  · rw [List.length_take, List.length_drop]
    omega

theorem holds_nil (h : start ≤ v.length) : v.Holds start [] := by
  have hnothing := (v.holds_between (show start + 0 ≤ v.length from h)).1
  rwa [List.take_zero] at hnothing

theorem Holds.eq_take (h : v.Holds start part) :
    part = (v.bytes.drop start).take part.length := by
  obtain ⟨front, back, hbytes, hlength⟩ := h
  rw [hbytes, List.append_assoc, List.drop_left' hlength, List.take_left]

/-- Parts that lie one behind the other are one part. -/
theorem Holds.append {a b : Bytes} (ha : v.Holds start a)
    (hb : v.Holds (start + a.length) b) : v.Holds start (a ++ b) := by
  have hle := hb.le_length
  have hinside : start + (a.length + b.length) ≤ v.length := by omega
  have hwhole := (v.holds_between hinside).1
  rwa [List.take_add, List.drop_drop, ← ha.eq_take, ← hb.eq_take] at hwhole

/-- A part as long as the view is all of it. -/
theorem Holds.eq_bytes (h : v.Holds 0 part) (hlength : part.length = v.length) :
    part = v.bytes := by
  rw [h.eq_take, hlength, ← v.length_bytes, List.drop_zero, List.take_length]

/-- The bytes of the buffer at the place of a part are the part. -/
theorem Holds.extract (h : v.Holds start part) :
    (v.buffer.data.extract (v.offset + start) (v.offset + start + part.length)).toList = part := by
  have hle := h.le_length
  obtain ⟨front, back, hbytes, hlength⟩ := h
  have hdrop : (v.bytes.drop start).take part.length = part := by
    simp [hbytes, ← hlength]
  have hsame : (v.buffer.data.extract (v.offset + start)
      (v.offset + start + part.length)).toList = (v.bytes.drop start).take part.length := by
    simp only [bytes, stop, Array.toList_extract, List.extract_eq_take_drop, List.drop_take,
      List.drop_drop, List.take_take]
    congr 1
    omega
  rw [hsame, hdrop]

/-- A part of a view is a view of its own. -/
theorem Holds.sub (h : v.Holds start part) (hbuffer : v.buffer.data.size ≤ maxAddress) :
    ∃ w, v.sub start part.length = .ok w ∧ w.bytes = part := by
  have hle := h.le_length
  have hbounds := v.inBounds
  have hoffset : min (v.offset + start) maxAddress = v.offset + start := by omega
  have hin : v.offset ≤ v.offset + start ∧ v.offset + start + part.length ≤ v.stop := by
    simp only [stop]
    omega
  refine ⟨⟨v.buffer, v.offset + start, part.length, Nat.le_trans hin.2 v.inBounds⟩, ?_, h.extract⟩
  rw [View.sub, hoffset, absolute, dif_pos hin]

/-- A view inside a view holds what the larger one holds at its place. -/
theorem holds_of_sub {count : Nat} {w : View} (h : v.sub start count = .ok w)
    (hbuffer : v.buffer.data.size ≤ maxAddress) (hstart : start ≤ v.length) :
    w.offset = v.offset + start ∧ v.Holds start w.bytes ∧ w.bytes.length = count := by
  have hbounds := v.inBounds
  have hoffset : min (v.offset + start) maxAddress = v.offset + start := by omega
  have hinside := h
  rw [View.sub, hoffset, absolute] at hinside
  split at hinside
  · rename_i hin
    have hle : start + count ≤ v.length := by
      have := hin.2
      simp only [stop] at this
      omega
    obtain ⟨hholds, hlength⟩ := v.holds_between hle
    obtain ⟨w', hsub, hbytes⟩ := hholds.sub hbuffer
    rw [hlength, h] at hsub
    cases hsub
    cases hinside
    exact ⟨rfl, hbytes ▸ hholds, hbytes ▸ hlength⟩
  · cases hinside

end View

/-- The cursor that stands `start` bytes behind the first byte of a view. -/
def Cursor.within (v : View) (start : Nat) : Cursor :=
  { Cursor.ofView v with pos := v.offset + start }

namespace Reader

variable {v : View} {start width : Nat}

theorem runOn_take_of_le {c : Cursor} {n : Nat} (h : c.pos + n ≤ c.limit) :
    (take n).runOn c =
      (.ok (c.view.buffer.data.extract c.pos (c.pos + n)).toList, { c with pos := c.pos + n }) :=
  if_pos h

theorem runOn_take {part : Bytes} (h : v.Holds start part) :
    (take part.length).runOn (.within v start) = (.ok part, .within v (start + part.length)) := by
  have hle := h.le_length
  have hlimit : (Cursor.within v start).pos + part.length ≤ (Cursor.within v start).limit := by
    simp only [Cursor.within, Cursor.ofView, View.stop]
    omega
  rw [runOn_take_of_le hlimit]
  simp only [Cursor.within, Cursor.ofView]
  rw [h.extract, Nat.add_assoc]

/-- A number that was written is read. -/
theorem runOn_nat {n : Nat} (h : v.Holds start (Bytes.ofNatLE width n)) (hn : n < 256 ^ width) :
    (nat width).runOn (.within v start) = (.ok n, .within v (start + width)) := by
  have htake := runOn_take h
  rw [Bytes.length_ofNatLE] at htake
  rw [nat, runOn_bind, htake]
  simp only [Bytes.toNatLE_ofNatLE, Nat.mod_eq_of_lt hn]
  rfl

theorem runOn_peek {α : Type} {r : Reader α} {c c' : Cursor} {a : α}
    (h : r.runOn c = (.ok a, c')) : (peek r).runOn c = (.ok a, c) := by
  have hvalue : (r.runOn c).1 = .ok a := congrArg Prod.fst h
  exact Prod.ext hvalue rfl

theorem runOn_mapFault {α : Type} {r : Reader α} {c c' : Cursor} {a : α}
    (h : r.runOn c = (.ok a, c')) (f : Fault → Fault) : (r.mapFault f).runOn c = (.ok a, c') := by
  simp only [runOn] at h
  simp only [runOn, mapFault, h]

/-- Numbers that were written one after the other are read. -/
theorem runOn_nats {ns : List Nat} (h : v.Holds start (ns.flatMap (Bytes.ofNatLE width)))
    (hns : ∀ n ∈ ns, n < 256 ^ width) :
    (nats width ns.length).runOn (.within v start) =
      (.ok ns, .within v (start + width * ns.length)) := by
  induction ns generalizing start with
  | nil => rfl
  | cons n ns ih =>
    rw [List.flatMap_cons] at h
    have hfirst := runOn_nat h.left (hns n List.mem_cons_self)
    have hrest := h.right
    rw [Bytes.length_ofNatLE] at hrest
    have hothers := ih hrest fun m hm => hns m (List.mem_cons_of_mem _ hm)
    have hend : start + width + width * ns.length = start + width * (n :: ns).length := by
      rw [List.length_cons, Nat.mul_succ]
      omega
    rw [hend] at hothers
    rw [List.length_cons, nats, runOn_bind, hfirst]
    simp only
    rw [runOn_bind, hothers]
    rfl

theorem runOn_expect {expected : Bytes} (h : v.Holds start expected) :
    (expect expected).runOn (.within v start) =
      (.ok (), .within v (start + expected.length)) := by
  have hpos : pos.runOn (.within v start) = (.ok (v.offset + start), .within v start) := rfl
  rw [expect, runOn_bind, hpos]
  simp only
  rw [runOn_bind, runOn_take h]
  simp only [if_true]
  rfl

/-! ## What was read is there -/

theorem holds_of_take {n : Nat} {part : Bytes} {c : Cursor}
    (h : (take n).runOn (.within v start) = (.ok part, c)) :
    v.Holds start part ∧ part.length = n ∧ c = .within v (start + n) := by
  have hle : start + n ≤ v.length := by
    simp only [runOn, take] at h
    split at h
    · rename_i hlimit
      simp only [Cursor.within, Cursor.ofView, View.stop] at hlimit
      omega
    · cases (Prod.mk.inj h).1
  obtain ⟨hholds, hlength⟩ := v.holds_between hle
  have hread := runOn_take hholds
  rw [hlength, h] at hread
  cases hread
  exact ⟨hholds, hlength, rfl⟩

theorem holds_of_nat {n : Nat} {c : Cursor}
    (h : (nat width).runOn (.within v start) = (.ok n, c)) :
    v.Holds start (Bytes.ofNatLE width n) ∧ n < 256 ^ width ∧ c = .within v (start + width) := by
  obtain ⟨part, c', htake, hpure⟩ := runOn_bind_ok h
  obtain ⟨hholds, hlength, rfl⟩ := holds_of_take htake
  cases hpure
  refine ⟨?_, ?_, rfl⟩
  · rw [← hlength, Bytes.ofNatLE_toNatLE]
    exact hholds
  · rw [← hlength]
    exact Bytes.toNatLE_lt part

theorem holds_of_nats {count : Nat} {ns : List Nat} {c : Cursor}
    (h : (nats width count).runOn (.within v start) = (.ok ns, c)) (hstart : start ≤ v.length) :
    ns.length = count ∧ v.Holds start (ns.flatMap (Bytes.ofNatLE width)) ∧
      ∀ n ∈ ns, n < 256 ^ width := by
  induction count generalizing start ns c with
  | zero =>
    cases h
    exact ⟨rfl, View.holds_nil hstart, fun n hn => by cases hn⟩
  | succ count ih =>
    obtain ⟨first, c', hfirst, h⟩ := runOn_bind_ok h
    obtain ⟨others, c'', hothers, hpure⟩ := runOn_bind_ok h
    obtain ⟨hholds, hlt, rfl⟩ := holds_of_nat hfirst
    have hnext := hholds.le_length
    rw [Bytes.length_ofNatLE] at hnext
    obtain ⟨hlength, hrest, hsmall⟩ := ih hothers hnext
    cases hpure
    refine ⟨congrArg (· + 1) hlength, ?_, ?_⟩
    · rw [List.flatMap_cons]
      refine hholds.append ?_
      rw [Bytes.length_ofNatLE]
      exact hrest
    · intro n hn
      rcases List.mem_cons.mp hn with rfl | hn
      · exact hlt
      · exact hsmall n hn

theorem runOn_seek {distance : Nat} (h : distance ≤ v.length) (c : Cursor) :
    (seek v distance).runOn c = (.ok (), .within v distance) := by
  have hlimit : (Cursor.ofView v).pos + distance ≤ (Cursor.ofView v).limit :=
    Nat.add_le_add_left h _
  have htake := runOn_take_of_le hlimit
  simp only [runOn] at htake
  simp only [runOn, seek, htake]
  rfl

theorem le_of_seek {distance : Nat} {c c' : Cursor}
    (h : (seek v distance).runOn c = (.ok (), c')) :
    distance ≤ v.length ∧ c' = .within v distance := by
  have hle : distance ≤ v.length := by
    simp only [runOn, seek, take] at h
    split at h
    · cases (Prod.mk.inj h).1
    · rename_i htake
      split at htake
      · rename_i hlimit
        simp only [Cursor.ofView, View.stop] at hlimit
        omega
      · cases (Prod.mk.inj htake).1
  have hseek := runOn_seek hle c
  rw [h] at hseek
  cases hseek
  exact ⟨hle, rfl⟩

end Reader

end NovelScript
