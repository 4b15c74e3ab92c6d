import NovelScript.Bytes.Cursor

/-! # Progress of readers

A reader that succeeds leaves the view and the limit of its cursor alone and moves the position
forward, never past the limit. How far it moves at least is counted, so that a reader put together
from others moves as far as they do together. -/

namespace NovelScript

theorem exceptBind_ok {ε α β : Type} (a : α) (f : α → Except ε β) : (Except.ok a >>= f) = f a := rfl

theorem exceptBind_eq_ok {ε α β : Type} {x : Except ε α} {f : α → Except ε β} {b : β}
    (h : (x >>= f) = .ok b) : ∃ a, x = .ok a ∧ f a = .ok b := by
  cases x with
  | error fault => cases h
  | ok a => exact ⟨a, rfl, h⟩

theorem ok_of_toOption {ε α : Type} {x : Except ε α} {a : α} (h : x.toOption = some a) :
    x = .ok a := by
  cases x with
  | error fault => cases h
  | ok b => exact congrArg Except.ok (Option.some.inj h)

/-- The fault of a computation that failed. -/
def faultOf? {α : Type} : Except Fault α → Option Fault
  | .error fault => some fault
  | .ok _ => none

theorem error_of_faultOf? {α : Type} {x : Except Fault α} {fault : Fault}
    (h : faultOf? x = some fault) : x = .error fault := by
  cases x with
  | error other => exact congrArg Except.error (Option.some.inj h)
  | ok a => cases h

theorem mem_of_lookup {κ β : Type} [BEq κ] [LawfulBEq κ] {key : κ} {value : β}
    {entries : List (κ × β)} (h : entries.lookup key = some value) : (key, value) ∈ entries := by
  obtain ⟨front, back, rfl, -⟩ := List.lookup_eq_some_iff.mp h
  simp

/-- A computation with a state that fails keeps what it did to the state. -/
theorem bind_apply {σ α β : Type} (x : ExceptT Fault (StateM σ) α)
    (f : α → ExceptT Fault (StateM σ) β) (s : σ) :
    (x >>= f) s =
      match x s with
      | (.ok a, s') => f a s'
      | (.error fault, s') => (.error fault, s') := by
  have hrun : (x >>= f) s = ExceptT.bindCont f (x s).1 (x s).2 := rfl
  rw [hrun]
  rcases x s with ⟨outcome, s'⟩
  cases outcome with
  | ok a => rfl
  | error fault => rfl

namespace Cursor

/-- The position stands inside the view, in front of a limit that lies inside it too. -/
structure Placed (c : Cursor) : Prop where
  start : c.view.offset ≤ c.pos
  pos : c.pos ≤ c.limit
  limit : c.limit ≤ c.view.stop

/-- A cursor `n` bytes or more further on, in the same view and under the same limit. -/
structure Ahead (n : Nat) (c c' : Cursor) : Prop where
  view : c'.view = c.view
  limit : c'.limit = c.limit
  forth : c.pos + n ≤ c'.pos
  inside : c'.pos ≤ c.limit

theorem Placed.ofView (v : View) : (Cursor.ofView v).Placed :=
  ⟨Nat.le_refl _, Nat.le_add_right _ _, Nat.le_refl _⟩

theorem Ahead.refl {c : Cursor} (hc : c.Placed) : Ahead 0 c c :=
  ⟨rfl, rfl, Nat.le_refl _, hc.pos⟩

theorem Ahead.placed {n : Nat} {c c' : Cursor} (h : Ahead n c c') (hc : c.Placed) : c'.Placed where
  start := by
    have := h.forth
    have := hc.start
    rw [h.view]
    omega
  pos := h.limit ▸ h.inside
  limit := by
    rw [h.limit, h.view]
    exact hc.limit

theorem Ahead.trans {m n : Nat} {c c' c'' : Cursor} (h : Ahead m c c') (h' : Ahead n c' c'') :
    Ahead (m + n) c c'' where
  view := h'.view.trans h.view
  limit := h'.limit.trans h.limit
  forth := by
    have := h.forth
    have := h'.forth
    omega
  inside := h.limit ▸ h'.inside

theorem Ahead.mono {m n : Nat} {c c' : Cursor} (h : Ahead m c c') (hle : n ≤ m) : Ahead n c c' :=
  { h with forth := Nat.le_trans (Nat.add_le_add_left hle _) h.forth }

theorem length_rest {c : Cursor} (hc : c.Placed) : c.rest.length = c.limit - c.pos := by
  have hlimit := hc.limit
  have hbounds := c.view.inBounds
  simp only [View.stop] at hlimit
  simp only [rest, Array.length_toList, Array.size_extract]
  omega

/-- The bytes from the position of one cursor to that of a later one form a view. -/
theorem spanFrom_ahead {n : Nat} {c c' : Cursor} (hc : c.Placed) (h : Ahead n c c') :
    ∃ v, c'.spanFrom c.pos = .ok v ∧ v.buffer = c.view.buffer ∧ v.offset = c.pos ∧
      v.stop = c'.pos := by
  have hforth := h.forth
  have hlimit := hc.limit
  have hinside := h.inside
  have hin : c.view.offset ≤ c.pos ∧ c.pos + (c'.pos - c.pos) ≤ c.view.stop :=
    ⟨hc.start, by omega⟩
  refine ⟨⟨c.view.buffer, c.pos, c'.pos - c.pos, Nat.le_trans hin.2 c.view.inBounds⟩,
    ?_, rfl, rfl, ?_⟩
  · rw [spanFrom, h.view, View.absolute, dif_pos hin]
  · simp only [View.stop]
    omega

end Cursor

namespace Reader

open Cursor

variable {α β : Type}

theorem runOn_bind (x : Reader α) (f : α → Reader β) (c : Cursor) :
    (x >>= f).runOn c =
      match x.runOn c with
      | (.ok a, c') => (f a).runOn c'
      | (.error fault, c') => (.error fault, c') := by
  simp only [runOn]
  rw [bind_apply]
  rcases x c with ⟨outcome, c'⟩
  cases outcome with
  | ok a => rfl
  | error fault => rfl

theorem runOn_bind_of_ok {x : Reader α} {c c' : Cursor} {a : α} (hx : x.runOn c = (.ok a, c'))
    (f : α → Reader β) : (x >>= f).runOn c = (f a).runOn c' := by
  rw [runOn_bind, hx]

/-- A reader that succeeds moves `n` bytes or more forward. -/
def Advances (n : Nat) (r : Reader α) : Prop :=
  ∀ c a c', c.Placed → r.runOn c = (.ok a, c') → Ahead n c c'

theorem Advances.mono {m n : Nat} {r : Reader α} (h : Advances m r) (hle : n ≤ m) :
    Advances n r :=
  fun c a c' hc hr => (h c a c' hc hr).mono hle

theorem Advances.pure (a : α) : Advances 0 (Pure.pure a : Reader α) := by
  intro c b c' hc h
  obtain ⟨_, rfl⟩ := Prod.mk.inj h
  exact .refl hc

theorem Advances.fail (n : Nat) (fault : Fault) : Advances n (Reader.fail fault : Reader α) := by
  intro c a c' _ h
  cases (Prod.mk.inj h).1

/-- A computation that succeeds succeeds step by step. -/
theorem runOn_bind_ok {x : Reader α} {f : α → Reader β} {c c'' : Cursor} {b : β}
    (h : (x >>= f).runOn c = (.ok b, c'')) :
    ∃ a c', x.runOn c = (.ok a, c') ∧ (f a).runOn c' = (.ok b, c'') := by
  rw [runOn_bind] at h
  rcases hrun : x.runOn c with ⟨outcome, c'⟩
  rw [hrun] at h
  cases outcome with
  | error fault => cases (Prod.mk.inj h).1
  | ok a => exact ⟨a, c', rfl, h⟩

theorem Advances.bind_add {m n : Nat} {x : Reader α} {f : α → Reader β} (hx : Advances m x)
    (hf : ∀ a, Advances n (f a)) : Advances (m + n) (x >>= f) := by
  intro c b c'' hc h
  obtain ⟨a, c', hrun, h⟩ := runOn_bind_ok h
  have hfirst := hx c a c' hc hrun
  exact hfirst.trans (hf a c' b c'' (hfirst.placed hc) h)

theorem Advances.bind {n : Nat} {x : Reader α} {f : α → Reader β} (hx : Advances n x)
    (hf : ∀ a, Advances 0 (f a)) : Advances n (x >>= f) :=
  hx.bind_add hf

theorem Advances.after {m n : Nat} {x : Reader α} {f : α → Reader β} (hx : Advances m x)
    (hf : ∀ a, Advances n (f a)) : Advances n (x >>= f) :=
  (hx.bind_add hf).mono (Nat.le_add_left n m)

/-- What follows a reader with a pure step moves as far as the reader. -/
theorem Advances.map {n : Nat} {x : Reader α} {f : α → β} (hx : Advances n x) :
    Advances n (do return f (← x)) :=
  hx.bind fun a => .pure (f a)

theorem Advances.ite {n : Nat} {p : Prop} [Decidable p] {x y : Reader α} (hx : p → Advances n x)
    (hy : ¬ p → Advances n y) : Advances n (if p then x else y) := by
  by_cases h : p
  · rw [if_pos h]
    exact hx h
  · rw [if_neg h]
    exact hy h

theorem advances_pos : Advances 0 pos := by
  intro c a c' hc h
  obtain ⟨_, rfl⟩ := Prod.mk.inj h
  exact .refl hc

theorem advances_lift (result : Except Fault α) : Advances 0 (lift result) := by
  intro c a c' hc h
  obtain ⟨_, rfl⟩ := Prod.mk.inj h
  exact .refl hc

theorem advances_take (n : Nat) : Advances n (take n) := by
  intro c a c' hc h
  simp only [runOn, take] at h
  split at h
  · obtain ⟨_, rfl⟩ := Prod.mk.inj h
    exact ⟨rfl, rfl, Nat.le_refl _, by assumption⟩
  · cases (Prod.mk.inj h).1

theorem advances_nat (width : Nat) : Advances width (nat width) :=
  (advances_take width).map

theorem advances_u8 : Advances 1 u8 := (advances_nat 1).map

theorem advances_u16 : Advances 2 u16 := (advances_nat 2).map

theorem advances_s16 : Advances 2 s16 := advances_u16.map

/-- The byte that can be read next is the first of those that remain. -/
theorem rest_of_peek {c c' : Cursor} {byte : UInt8} (hc : c.Placed)
    (h : (peek u8).runOn c = (.ok byte, c')) : ∃ rest, c.rest = byte :: rest := by
  have hu8 : u8.runOn c = (.ok byte, (u8.runOn c).2) := Prod.ext (Prod.mk.inj h).1 rfl
  obtain ⟨n, c₁, hnat, hn⟩ := runOn_bind_ok hu8
  obtain ⟨bytes, c₂, htake, hbytes⟩ := runOn_bind_ok hnat
  cases (Prod.mk.inj hn).1
  cases (Prod.mk.inj hbytes).1
  simp only [runOn, take] at htake
  split at htake
  · rename_i hle
    have hlimit := hc.limit
    have hbounds := c.view.inBounds
    simp only [View.stop] at hlimit
    have hlt : c.pos < c.view.buffer.data.size := by omega
    cases (Prod.mk.inj htake).1
    have hone : (c.view.buffer.data.extract c.pos (c.pos + 1)).toList =
        [c.view.buffer.data[c.pos]] := by
      simp [List.drop_eq_getElem_cons, hlt]
    have hsplit : c.rest = (c.view.buffer.data.extract c.pos (c.pos + 1)).toList ++
        (c.view.buffer.data.extract (c.pos + 1) c.limit).toList := by
      rw [Cursor.rest, ← Array.toList_append, Array.extract_append_extract,
        Nat.min_eq_left (by omega), Nat.max_eq_right hle]
    refine ⟨(c.view.buffer.data.extract (c.pos + 1) c.limit).toList, ?_⟩
    rw [hsplit, hone]
    simp [Bytes.toNatLE]
  · cases (Prod.mk.inj htake).1

theorem advances_takeUntil (terminator : UInt8) : Advances 1 (takeUntil terminator) := by
  intro c a c' hc h
  simp only [runOn, takeUntil] at h
  split at h
  case h_1 i hi =>
    obtain ⟨_, rfl⟩ := Prod.mk.inj h
    have hlt : i < c.rest.length := by
      rw [List.idxOf?, List.findIdx?_eq_some_iff_getElem] at hi
      exact hi.1
    rw [length_rest hc] at hlt
    exact ⟨rfl, rfl, by simp only; omega, by simp only; omega⟩
  · cases (Prod.mk.inj h).1

theorem advances_expect (expected : Bytes) : Advances 0 (expect expected) :=
  advances_pos.after fun _ => (advances_take _).after fun _ =>
    .ite (fun _ => .pure _) (fun _ => .fail _ _)

theorem advances_nulls (count : Nat) : Advances 0 (nulls count) :=
  advances_pos.after fun _ => (advances_take _).after fun _ =>
    .ite (fun _ => .pure _) (fun _ => .fail _ _)

end Reader

end NovelScript
