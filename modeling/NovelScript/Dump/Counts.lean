/-! # Counts

How often each of some things was seen. -/

namespace NovelScript

/-- The things seen so far, each with its number. -/
structure Counts (κ : Type) where
  entries : List (κ × Nat)
deriving DecidableEq, Repr

namespace Counts

variable {κ : Type} [DecidableEq κ]

/-- Nothing was seen yet. -/
def empty : Counts κ := ⟨[]⟩

/-- One more of a thing in a list of numbers. -/
def addTo (key : κ) : List (κ × Nat) → List (κ × Nat)
  | [] => [(key, 1)]
  | (other, n) :: rest => if key = other then (other, n + 1) :: rest else (other, n) :: addTo key rest

/-- One more of a thing. -/
def add (c : Counts κ) (key : κ) : Counts κ := ⟨addTo key c.entries⟩

/-- One more of each thing in a list. -/
def addAll (c : Counts κ) (keys : List κ) : Counts κ := keys.foldl add c

/-- How often a thing was seen. -/
def count (c : Counts κ) (key : κ) : Nat := (c.entries.lookup key).getD 0

/-- The things in ascending order. -/
def ordered (c : Counts κ) (le : κ → κ → Bool) : List (κ × Nat) :=
  c.entries.mergeSort fun a b => le a.1 b.1

/-- The things by ascending number, those of one number in ascending order. -/
def byNumber (c : Counts κ) (le : κ → κ → Bool) : List (κ × Nat) :=
  (c.ordered le).mergeSort fun a b => decide (a.2 ≤ b.2)

end Counts

end NovelScript
