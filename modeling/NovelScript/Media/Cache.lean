import NovelScript.Bytes.View

/-! # Byte caches

A cache keeps views by name as long as they fit a budget of bytes, and gives up those first that
were not used for the longest time. It tells this by a clock that moves on with each use. -/

namespace NovelScript

/-- A view that is cached, and the time at which it was put there or asked for last. -/
structure CachedView where
  view : View
  lastUsed : UInt64
deriving DecidableEq, Repr

/-- Cached views, each under a name of its own. The cache keeps account of the bytes that they
have, which may be no more than the budget. -/
structure ByteCache where
  budget : Nat
  entries : List (String × CachedView)
  clock : UInt64
  bytes : Nat
deriving DecidableEq, Repr

namespace ByteCache

/-- The cache without entries. -/
def empty (budget : Nat) : ByteCache := ⟨budget, [], 0, 0⟩

/-- The cache with its clock moved on. After the last time comes the first one again. -/
def tick (c : ByteCache) : ByteCache := { c with clock := c.clock + 1 }

/-- The cache with a name counted as used now. -/
def touch (c : ByteCache) (name : String) : ByteCache :=
  { c with entries := c.entries.map fun entry =>
      if entry.1 = name then (entry.1, { entry.2 with lastUsed := c.clock }) else entry }

/-- The view of a name, which counts as used. The clock moves on in any case. -/
def get? (c : ByteCache) (name : String) : Option View × ByteCache :=
  match c.entries.lookup name with
  | none => (none, c.tick)
  | some cached => (some cached.view, c.tick.touch name)

/-- The cache without what it has under a name. -/
def remove (c : ByteCache) (name : String) : ByteCache :=
  match c.entries.lookup name with
  | none => c
  | some cached =>
    { c with
      entries := c.entries.filter fun entry => entry.1 != name
      bytes := c.bytes - cached.view.length }

/-- The entry that was not used for the longest time. -/
def oldest? (c : ByteCache) : Option (String × CachedView) :=
  c.entries.minOn? fun entry => entry.2.lastUsed

theorem mem_of_oldest? {c : ByteCache} {entry : String × CachedView}
    (h : c.oldest? = some entry) : entry ∈ c.entries :=
  List.minOn?_mem h

theorem length_remove_lt {c : ByteCache} {entry : String × CachedView} (h : entry ∈ c.entries) :
    (c.remove entry.1).entries.length < c.entries.length := by
  unfold remove
  split
  · rename_i hlookup
    exact absurd (List.lookup_eq_none_iff.mp hlookup entry h) (by simp)
  · exact List.length_filter_lt_length_iff_exists.mpr ⟨entry, h, by simp⟩

/-- What is held and what is needed add up to a number of 64 bits. Views of different bytes do, since
their bytes lie in memory together; views that share their bytes could come to more. -/
def AddsUp (c : ByteCache) (needed : Nat) : Prop := c.bytes + needed ≤ maxAddress

/-- The cache without its oldest entries, as many as have to go for `needed` bytes to fit. The sum
is taken for one of 64 bits, as it is where it `AddsUp`. -/
def makeRoom (c : ByteCache) (needed : Nat) : ByteCache :=
  if c.budget < c.bytes + needed then
    match _holdest : c.oldest? with
    | none => c
    | some entry => (c.remove entry.1).makeRoom needed
  else c
termination_by c.entries.length
decreasing_by exact length_remove_lt (mem_of_oldest? ‹_›)

/-- The cache with a view under a name. A view that is larger than the budget is not kept, and
what was there under its name stays. -/
def insert (c : ByteCache) (name : String) (view : View) : ByteCache :=
  if c.budget < view.length then c
  else
    let roomy := (c.tick.remove name).makeRoom view.length
    { roomy with
      entries := (name, ⟨view, roomy.clock⟩) :: roomy.entries
      bytes := min (roomy.bytes + view.length) maxAddress }

end ByteCache

end NovelScript
