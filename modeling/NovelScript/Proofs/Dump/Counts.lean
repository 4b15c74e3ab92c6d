import Mathlib.Algebra.Ring.Nat
import Mathlib.Data.List.Nodup
import NovelScript.Dump
import NovelScript.Proofs.Bytes.Progress

/-! # What counts count

A thing is counted as often as it was added. In a table with a row and a column for each kind that
is a part of some counted pair, a row adds up to the pairs with its kind in front, and a column to
those with its kind behind. -/

namespace NovelScript

namespace Counts

variable {κ : Type} [DecidableEq κ]

theorem lookup_cons_ite (key seen : κ) (n : Nat) (entries : List (κ × Nat)) :
    ((seen, n) :: entries).lookup key = if key = seen then some n else entries.lookup key := by
  by_cases h : key = seen
  · subst h
    rw [List.lookup_cons_self, if_pos rfl]
  · have hne : (key == seen) = false := beq_false_of_ne h
    rw [List.lookup_cons, hne, if_neg h]

theorem lookup_addTo (key other : κ) (entries : List (κ × Nat)) :
    ((addTo key entries).lookup other).getD 0 =
      (entries.lookup other).getD 0 + if other = key then 1 else 0 := by
  induction entries with
  | nil =>
    rw [addTo, lookup_cons_ite]
    by_cases h : other = key <;> simp [h]
  | cons entry entries ih =>
    obtain ⟨seen, n⟩ := entry
    rw [addTo, lookup_cons_ite]
    by_cases hseen : key = seen
    · subst hseen
      rw [if_pos rfl, lookup_cons_ite]
      by_cases h : other = key <;> simp [h]
    · rw [if_neg hseen, lookup_cons_ite]
      by_cases h : other = seen
      · have hne : other ≠ key := fun hkey => hseen (hkey.symm.trans h)
        rw [if_pos h, if_pos h, if_neg hne]
        rfl
      · rw [if_neg h, if_neg h, ih]

/-- A thing was seen as often before, and as often as it was added. -/
theorem count_addAll [BEq κ] [LawfulBEq κ] (c : Counts κ) (keys : List κ) (key : κ) :
    (c.addAll keys).count key = c.count key + keys.count key := by
  induction keys generalizing c with
  | nil => rfl
  | cons first keys ih =>
    have hfirst : (c.add first).count key = c.count key + if key = first then 1 else 0 :=
      lookup_addTo first key c.entries
    rw [addAll, List.foldl_cons, ← addAll, ih, hfirst, List.count_cons]
    by_cases h : key = first
    · simp [h]
      omega
    · simp [h, Ne.symm h]

theorem addAll_append (c : Counts κ) (front back : List κ) :
    c.addAll (front ++ back) = (c.addAll front).addAll back :=
  List.foldl_append

theorem count_empty (key : κ) : (empty : Counts κ).count key = 0 := rfl

/-- Things that were seen are among the entries. -/
theorem exists_entry_of_count {c : Counts κ} {key : κ} (h : 0 < c.count key) :
    ∃ n, (key, n) ∈ c.entries := by
  unfold count at h
  cases hlookup : c.entries.lookup key with
  | none =>
    rw [hlookup] at h
    cases h
  | some n =>
    exact ⟨n, mem_of_lookup hlookup⟩

end Counts

/-! ## Sums of numbers -/

/-- The numbers of different things add up to how many there are of them all. -/
theorem sum_count_eq_countP {α : Type} [BEq α] [LawfulBEq α] {kinds : List α} (hkinds : kinds.Nodup)
    (items : List α) : (kinds.map items.count).sum = items.countP kinds.contains := by
  induction kinds with
  | nil => exact (List.countP_eq_zero.mpr fun _ _ => Bool.false_ne_true).symm
  | cons kind kinds ih =>
    obtain ⟨hnew, hrest⟩ := List.nodup_cons.mp hkinds
    rw [List.map_cons, List.sum_cons, ih hrest]
    clear ih
    induction items with
    | nil => rfl
    | cons item items ih =>
      rw [List.count_cons, List.countP_cons, List.countP_cons, ← ih]
      by_cases hkind : item = kind
      · subst hkind
        simp [hnew]
        omega
      · simp [hkind]
        omega

theorem countP_beq {α β : Type} [BEq β] (f : α → β) (items : List α) (b : β) :
    items.countP (fun a => f a == b) = (items.map f).count b := by
  rw [List.count, List.countP_map]
  rfl

namespace Dump

/-- The kinds with a row and a column in the table of what follows what. -/
def followTypes (d : Dump) : List (Option TokenType) :=
  (d.follows.entries.foldl (fun seen (pair, _) => (seen.insert pair.1).insert pair.2)
    ([] : List (Option TokenType))).mergeSort fun a b => decide (typeRank a ≤ typeRank b)

/-- The sum of the row of a kind. -/
def rowSum (d : Dump) (first : Option TokenType) : Nat :=
  (d.followTypes.map fun second => d.follows.count (first, second)).sum

/-- The sum of the column of a kind. -/
def columnSum (d : Dump) (second : Option TokenType) : Nat :=
  (d.followTypes.map fun first => d.follows.count (first, second)).sum

section

variable {α : Type} [BEq α] [LawfulBEq α] {entries : List ((α × α) × Nat)} {seen : List α}

theorem nodup_foldl_insert (h : seen.Nodup) :
    (entries.foldl (fun seen (pair, _) => (seen.insert pair.1).insert pair.2) seen).Nodup := by
  induction entries generalizing seen with
  | nil => exact h
  | cons entry entries ih => exact ih (h.insert.insert)

theorem mem_foldl_insert {a : α} :
    a ∈ entries.foldl (fun seen (pair, _) => (seen.insert pair.1).insert pair.2) seen ↔
      a ∈ seen ∨ ∃ entry ∈ entries, a = entry.1.1 ∨ a = entry.1.2 := by
  induction entries generalizing seen with
  | nil => simp
  | cons entry entries ih =>
    rw [List.foldl_cons, ih]
    simp only [List.mem_insert_iff, List.mem_cons, exists_eq_or_imp]
    grind

end

theorem nodup_followTypes (d : Dump) : d.followTypes.Nodup :=
  (List.mergeSort_perm _ _).nodup_iff.mpr (nodup_foldl_insert List.nodup_nil)

/-- Both kinds of a counted pair have a row and a column. -/
theorem mem_followTypes {d : Dump} {pair : Option TokenType × Option TokenType}
    (h : 0 < d.follows.count pair) : pair.1 ∈ d.followTypes ∧ pair.2 ∈ d.followTypes := by
  obtain ⟨n, hentry⟩ := Counts.exists_entry_of_count h
  unfold followTypes
  rw [List.mem_mergeSort, List.mem_mergeSort, mem_foldl_insert, mem_foldl_insert]
  exact ⟨.inr ⟨_, hentry, .inl rfl⟩, .inr ⟨_, hentry, .inr rfl⟩⟩

variable {d : Dump} {pairs : List (Option TokenType × Option TokenType)}
  (h : d.follows = Counts.empty.addAll pairs)
include h

theorem count_follows (pair : Option TokenType × Option TokenType) :
    d.follows.count pair = pairs.count pair := by
  rw [h, Counts.count_addAll, Counts.count_empty, Nat.zero_add]

/-- Different cells add up to the pairs that are counted in them. -/
theorem sum_cells {cell : Option TokenType → Option TokenType × Option TokenType}
    (hcell : Function.Injective cell) {counted : Option TokenType × Option TokenType → Bool}
    (hcounted : ∀ pair ∈ pairs, (∃ kind ∈ d.followTypes, cell kind = pair) ↔ counted pair = true) :
    (d.followTypes.map fun kind => d.follows.count (cell kind)).sum = pairs.countP counted := by
  have hsum := sum_count_eq_countP (d.nodup_followTypes.map hcell) pairs
  rw [List.map_map] at hsum
  simp only [count_follows h]
  refine Eq.trans hsum (List.countP_congr fun pair hpair => ?_)
  rw [List.contains_iff_mem, List.mem_map]
  exact hcounted pair hpair

/-- Both kinds of a pair have a row and a column. -/
theorem mem_followTypes_of_mem {pair : Option TokenType × Option TokenType} (hpair : pair ∈ pairs) :
    pair.1 ∈ d.followTypes ∧ pair.2 ∈ d.followTypes := by
  apply mem_followTypes
  rw [count_follows h]
  exact List.count_pos_iff.mpr hpair

/-- A row adds up to the pairs with its kind in front. -/
theorem rowSum_eq (first : Option TokenType) :
    d.rowSum first = (pairs.map Prod.fst).count first := by
  rw [← countP_beq]
  refine sum_cells h (fun _ _ heq => (Prod.mk.inj heq).2) fun pair hpair => ?_
  rw [beq_iff_eq]
  constructor
  · rintro ⟨second, -, rfl⟩
    rfl
  · rintro rfl
    exact ⟨pair.2, (mem_followTypes_of_mem h hpair).2, rfl⟩

/-- A column adds up to the pairs with its kind behind. -/
theorem columnSum_eq (second : Option TokenType) :
    d.columnSum second = (pairs.map Prod.snd).count second := by
  rw [← countP_beq]
  refine sum_cells h (fun _ _ heq => (Prod.mk.inj heq).1) fun pair hpair => ?_
  rw [beq_iff_eq]
  constructor
  · rintro ⟨first, -, rfl⟩
    rfl
  · rintro rfl
    exact ⟨pair.1, (mem_followTypes_of_mem h hpair).1, rfl⟩

end Dump

end NovelScript
