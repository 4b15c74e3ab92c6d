import NovelScript.Proofs.Script.Progress

/-! # Opcode tables

However a table was put together, reading an opcode finds what the listing of the table has for the
opcode's bytes, and the listing has each opcode once, in the order of their bytes. Both come from
what the table holds for one byte, and for a second byte in the sub-table under a first one. -/

namespace NovelScript

open Cursor Reader

/-- The cursor moved past some bytes. -/
def Cursor.past (c : Cursor) (count : Nat) : Cursor := { c with pos := c.pos + count }

namespace Reader

variable {c : Cursor}

theorem runOn_u8_nil (hc : c.Placed) (h : c.rest = []) :
    u8.runOn c = (.error (.bounds c.limit 1 c.limit), c) := by
  have hlength := length_rest hc
  have hpos := hc.pos
  rw [h, List.length_nil] at hlength
  have hend : c.pos = c.limit := by omega
  have htake : (take 1).runOn c = (.error (.bounds c.limit 1 c.limit), c) := by
    simp only [runOn, take, hend]
    rw [if_neg (by omega)]
  rw [u8, nat, runOn_bind, runOn_bind, htake]

/-- A byte that remains is read, and those behind it remain. -/
theorem runOn_u8_cons (hc : c.Placed) {byte : UInt8} {rest : Bytes} (h : c.rest = byte :: rest) :
    u8.runOn c = (.ok byte, c.past 1) ∧ (c.past 1).Placed ∧ (c.past 1).rest = rest := by
  have hlength := length_rest hc
  have hstart := hc.start
  have hlimit := hc.limit
  rw [h, List.length_cons] at hlength
  have hle : c.pos + 1 ≤ c.limit := by omega
  have hsplit : c.rest = (c.view.buffer.data.extract c.pos (c.pos + 1)).toList ++
      (c.past 1).rest := by
    rw [Cursor.rest, Cursor.rest, ← Array.toList_append]
    simp only [Cursor.past]
    rw [Array.extract_append_extract, Nat.min_eq_left (by omega), Nat.max_eq_right hle]
  have hone : (c.view.buffer.data.extract c.pos (c.pos + 1)).toList.length = 1 := by
    have hbounds := c.view.inBounds
    simp only [View.stop] at hlimit
    simp only [Array.length_toList, Array.size_extract]
    omega
  obtain ⟨found, hfound⟩ := List.length_eq_one_iff.mp hone
  rw [h, hfound] at hsplit
  obtain ⟨rfl, rfl⟩ := List.cons.inj hsplit
  have htake : (take 1).runOn c =
      (.ok (c.view.buffer.data.extract c.pos (c.pos + 1)).toList, c.past 1) := if_pos hle
  refine ⟨?_, ⟨Nat.le_add_right_of_le hstart, hle, hlimit⟩, rfl⟩
  have hvalue : UInt8.ofNat (Bytes.toNatLE [byte]) = byte := by
    simp [Bytes.toNatLE]
  rw [u8, nat, runOn_bind, runOn_bind, htake, hfound]
  exact Prod.ext (congrArg Except.ok hvalue) rfl

end Reader

namespace OpcodeTable

variable {α : Type} {t : OpcodeTable α} {entries : List (UInt8 × OpcodeEntry α)}
  {defs : List (OpcodeDef α)} {d : OpcodeDef α} {op group : UInt8}

/-! ## Ordered entries -/

/-- The bytes of a list of entries ascend. -/
def Sorted (entries : List (UInt8 × OpcodeEntry α)) : Prop :=
  entries.Pairwise fun a b => a.1 < b.1

/-- There is no sub-table among the entries. -/
def Leaves (entries : List (UInt8 × OpcodeEntry α)) : Prop :=
  ∀ entry ∈ entries, ∃ d, entry.2 = .leaf d

theorem mem_insertInto {e : OpcodeEntry α} {entry : UInt8 × OpcodeEntry α}
    (h : entry ∈ insertInto op e entries) : entry = (op, e) ∨ entry ∈ entries := by
  fun_induction insertInto op e entries <;> grind

theorem sorted_insertInto (h : Sorted entries) (op : UInt8) (e : OpcodeEntry α) :
    Sorted (insertInto op e entries) := by
  induction entries with
  | nil => exact List.pairwise_singleton _ _
  | cons first rest ih =>
    obtain ⟨other, f⟩ := first
    obtain ⟨hfirst, hrest⟩ := List.pairwise_cons.mp h
    rw [insertInto]
    split
    · rename_i hbelow
      refine List.pairwise_cons.mpr ⟨fun entry hentry => ?_, h⟩
      rcases List.mem_cons.mp hentry with rfl | hentry
      · exact hbelow
      · exact UInt8.lt_trans hbelow (hfirst entry hentry)
    · rename_i hnotBelow
      split
      · rename_i hsame
        subst hsame
        exact List.pairwise_cons.mpr ⟨hfirst, hrest⟩
      · rename_i hother
        refine List.pairwise_cons.mpr ⟨fun entry hentry => ?_, ih hrest⟩
        rcases mem_insertInto hentry with rfl | hentry
        · exact UInt8.lt_of_le_of_ne (UInt8.not_lt.mp hnotBelow) (Ne.symm hother)
        · exact hfirst entry hentry

theorem lookup_cons_ite (other byte : UInt8) (e : OpcodeEntry α)
    (rest : List (UInt8 × OpcodeEntry α)) :
    ((other, e) :: rest).lookup byte = if byte = other then some e else rest.lookup byte := by
  rw [List.lookup_cons]
  by_cases h : byte = other
  · rw [if_pos h, beq_iff_eq.mpr h]
  · rw [if_neg h, beq_false_of_ne h]

theorem lookup_insertInto (op byte : UInt8) (e : OpcodeEntry α)
    (entries : List (UInt8 × OpcodeEntry α)) :
    (insertInto op e entries).lookup byte = if byte = op then some e else entries.lookup byte := by
  induction entries with
  | nil => rw [insertInto, lookup_cons_ite]
  | cons first rest ih =>
    obtain ⟨other, f⟩ := first
    rw [insertInto]
    split
    · rw [lookup_cons_ite]
    · split
      · rename_i hsame
        rw [lookup_cons_ite, lookup_cons_ite, hsame]
        split <;> rfl
      · rename_i hother
        rw [lookup_cons_ite, lookup_cons_ite, ih]
        grind

/-- In ordered entries each of them is found by its byte. -/
theorem lookup_of_mem (hsorted : Sorted entries) {e : OpcodeEntry α} (h : (op, e) ∈ entries) :
    entries.lookup op = some e := by
  induction entries with
  | nil => cases h
  | cons first rest ih =>
    obtain ⟨hfirst, hrest⟩ := List.pairwise_cons.mp hsorted
    rcases List.mem_cons.mp h with rfl | h
    · exact List.lookup_cons_self
    · have hne : op ≠ first.1 := (UInt8.ne_of_lt (hfirst _ h)).symm
      rw [lookup_cons_ite, if_neg hne]
      exact ih hrest h

/-! ## What a table holds for the bytes of an opcode -/

/-- The definition that a table has for a byte. -/
def leaf? (t : OpcodeTable α) (op : UInt8) : Option (OpcodeDef α) :=
  match t.entry? op with
  | some (.leaf d) => some d
  | _ => none

/-- The definition that a table has for the bytes of an opcode. -/
def definition? (t : OpcodeTable α) (path : OpcodePath) : Option (OpcodeDef α) :=
  match path.group with
  | none => t.leaf? path.op
  | some group => (t.sub? group).bind (·.leaf? path.op)

theorem leaf?_eq_some : t.leaf? op = some d ↔ t.entry? op = some (.leaf d) := by
  unfold leaf?
  split
  · rename_i found hentry
    simp [hentry]
  · rename_i hentry
    simp only [reduceCtorEq, false_iff]
    exact hentry d

theorem sub?_eq_some {sub : OpcodeTable α} :
    t.sub? group = some sub ↔ t.entry? group = some (.sub sub.entries) := by
  unfold sub?
  split
  · rename_i found hentry
    cases sub
    simp [hentry]
  · rename_i hentry
    simp only [reduceCtorEq, false_iff]
    exact hentry sub.entries

theorem entry?_insert (t : OpcodeTable α) (op byte : UInt8) (e : OpcodeEntry α) :
    entry? (t.insert op e) byte = if byte = op then some e else t.entry? byte :=
  lookup_insertInto op byte e t.entries

/-- After definitions were put in, a byte has the last of those for it, or else what it had. -/
theorem leaf?_define (t : OpcodeTable α) (defs : List (OpcodeDef α)) (op : UInt8) :
    (t.define defs).leaf? op = (defs.filter (·.op == op)).getLast?.or (t.leaf? op) := by
  induction defs generalizing t with
  | nil => rfl
  | cons d defs ih =>
    have hfirst : (t.insert d.op (.leaf d)).leaf? op =
        if d.op = op then some d else t.leaf? op := by
      rw [leaf?, entry?_insert]
      by_cases h : d.op = op
      · simp [h]
      · simp [h, Ne.symm h, leaf?]
    change ((t.insert d.op (.leaf d)).define defs).leaf? op = _
    rw [ih, hfirst, List.filter_cons]
    by_cases h : d.op = op
    · rw [if_pos h, if_pos (beq_iff_eq.mpr h), List.getLast?_cons]
      cases (defs.filter (·.op == op)).getLast? <;> rfl
    · rw [if_neg h, if_neg (by simpa using h)]

theorem entry?_defineSub (t : OpcodeTable α) (group byte : UInt8) (defs : List (OpcodeDef α)) :
    entry? (t.defineSub group defs) byte =
      if byte = group then some (.sub (((t.sub? group).getD empty).define defs).entries)
      else t.entry? byte :=
  entry?_insert t group byte _

/-- After definitions were put into a group, an opcode of it has the last of those for it, or else
what it had. -/
theorem definition?_defineSub (t : OpcodeTable α) (group op : UInt8) (defs : List (OpcodeDef α)) :
    (t.defineSub group defs).definition? (.nested group op) =
      (defs.filter (·.op == op)).getLast?.or (t.definition? (.nested group op)) := by
  have hsub : (t.defineSub group defs).sub? group =
      some (((t.sub? group).getD empty).define defs) := by
    rw [sub?_eq_some, entry?_defineSub, if_pos rfl]
  have hbefore : ((t.sub? group).getD empty).leaf? op = (t.sub? group).bind (·.leaf? op) := by
    cases t.sub? group <;> rfl
  simp only [definition?, OpcodePath.nested, hsub, Option.bind_some, leaf?_define, hbefore]

/-! ## Tables by how they were put together -/

/-- A table that was put together from the empty one. A sub-table that is inserted as such has no
sub-tables in turn. -/
inductive Assembled : OpcodeTable α → Prop where
  | empty : Assembled empty
  | define {t : OpcodeTable α} (defs : List (OpcodeDef α)) : Assembled t → Assembled (t.define defs)
  | defineSub {t : OpcodeTable α} (group : UInt8) (defs : List (OpcodeDef α)) :
    Assembled t → Assembled (t.defineSub group defs)
  | insertSub {t sub : OpcodeTable α} (group : UInt8) :
    Assembled t → Assembled sub → Leaves sub.entries → Assembled (t.insertSub group sub)
  | select {t : OpcodeTable α} (ops : List UInt8) : Assembled t → Assembled (t.select ops)
  /-- A sub-table taken out of a table. -/
  | sub {t sub : OpcodeTable α} (group : UInt8) :
    Assembled t → t.sub? group = some sub → Assembled sub

/-- An entry is a definition, or a sub-table that is in order and has definitions only. -/
def Fit (e : OpcodeEntry α) : Prop :=
  ∀ entries, e = .sub entries → Sorted entries ∧ Leaves entries

/-- The entries of a table are in order, and sub-tables have definitions only. -/
structure Regular (t : OpcodeTable α) : Prop where
  sorted : Sorted t.entries
  fit : ∀ entry ∈ t.entries, Fit entry.2

theorem Fit.leaf (d : OpcodeDef α) : Fit (.leaf d) := by
  rintro entries ⟨⟩

theorem regular_empty : (empty : OpcodeTable α).Regular :=
  ⟨.nil, fun _ hentry => absurd hentry List.not_mem_nil⟩

theorem Regular.insert (h : t.Regular) {e : OpcodeEntry α} (he : Fit e) :
    (t.insert op e).Regular where
  sorted := sorted_insertInto h.sorted op e
  fit := by
    intro entry hentry
    rcases mem_insertInto hentry with rfl | hentry
    · exact he
    · exact h.fit entry hentry

theorem Regular.define (h : t.Regular) (defs : List (OpcodeDef α)) : (t.define defs).Regular := by
  induction defs generalizing t with
  | nil => exact h
  | cons d defs ih => exact ih (h.insert (.leaf d))

theorem leaves_empty : Leaves (empty : OpcodeTable α).entries :=
  fun _ hentry => absurd hentry List.not_mem_nil

theorem leaves_define (h : Leaves t.entries) (defs : List (OpcodeDef α)) :
    Leaves (t.define defs).entries := by
  induction defs generalizing t with
  | nil => exact h
  | cons d defs ih =>
    refine ih fun entry hentry => ?_
    rcases mem_insertInto hentry with rfl | hentry
    · exact ⟨d, rfl⟩
    · exact h entry hentry

/-- What is selected from a table are entries of it, in order. -/
theorem sorted_select_and_mem (t : OpcodeTable α) (ops : List UInt8) :
    Sorted (t.select ops).entries ∧ ∀ entry ∈ (t.select ops).entries, entry ∈ t.entries := by
  refine List.foldlRecOn ops _ (motive := fun (chosen : OpcodeTable α) =>
    Sorted chosen.entries ∧ ∀ entry ∈ chosen.entries, entry ∈ t.entries)
    ⟨.nil, fun _ hentry => absurd hentry List.not_mem_nil⟩ ?_
  rintro chosen ⟨hsorted, hmem⟩ op -
  cases hentry : t.entry? op with
  | none => exact ⟨hsorted, hmem⟩
  | some e =>
    refine ⟨sorted_insertInto hsorted op e, fun entry h => ?_⟩
    rcases mem_insertInto h with rfl | h
    · exact mem_of_lookup hentry
    · exact hmem entry h

theorem leaves_select (h : Leaves t.entries) (ops : List UInt8) :
    Leaves (t.select ops).entries :=
  fun entry hentry => h entry ((t.sorted_select_and_mem ops).2 entry hentry)

theorem Regular.sub (h : t.Regular) {sub : OpcodeTable α} (hsub : t.sub? group = some sub) :
    Sorted sub.entries ∧ Leaves sub.entries :=
  h.fit _ (mem_of_lookup (sub?_eq_some.mp hsub)) _ rfl

theorem Fit.sub (hsorted : Sorted entries) (hleaves : Leaves entries) : Fit (.sub entries) := by
  rintro _ ⟨⟩
  exact ⟨hsorted, hleaves⟩

theorem regular_of_leaves (hsorted : Sorted t.entries) (hleaves : Leaves t.entries) :
    t.Regular where
  sorted := hsorted
  fit := by
    intro entry hentry
    obtain ⟨d, hd⟩ := hleaves entry hentry
    rw [hd]
    exact .leaf d

theorem Regular.defineSub (h : t.Regular) (group : UInt8) (defs : List (OpcodeDef α)) :
    (t.defineSub group defs).Regular := by
  have hsub : Sorted ((t.sub? group).getD OpcodeTable.empty).entries ∧
      Leaves ((t.sub? group).getD OpcodeTable.empty).entries := by
    cases hfound : t.sub? group with
    | none => exact ⟨.nil, leaves_empty⟩
    | some sub => exact h.sub hfound
  exact h.insert (.sub ((regular_of_leaves hsub.1 hsub.2).define defs).sorted
    (leaves_define hsub.2 defs))

/-- However a table was put together, its entries are in order, and sub-tables have definitions
only. -/
theorem Assembled.regular (h : t.Assembled) : t.Regular := by
  induction h with
  | empty => exact regular_empty
  | define defs _ ih => exact ih.define defs
  | defineSub group defs _ ih => exact ih.defineSub group defs
  | insertSub group _ _ hleaves ih ihSub => exact ih.insert (.sub ihSub.sorted hleaves)
  | @select t ops _ ih =>
    obtain ⟨hsorted, hmem⟩ := t.sorted_select_and_mem ops
    exact ⟨hsorted, fun entry hentry => ih.fit entry (hmem entry hentry)⟩
  | sub group _ hsub ih =>
    obtain ⟨hsorted, hleaves⟩ := ih.sub hsub
    exact regular_of_leaves hsorted hleaves

/-! ## The listing -/

theorem definitionsOf_eq_flatMap (entries : List (UInt8 × OpcodeEntry α)) :
    definitionsOf entries = entries.flatMap fun entry => entry.2.definitions entry.1 := by
  induction entries with
  | nil => rfl
  | cons entry rest ih => rw [definitionsOf, ih, List.flatMap_cons]

/-- Where there are no sub-tables, the definitions are listed under their bytes. -/
theorem mem_definitionsOf_leaves (h : Leaves entries) {path : OpcodePath}
    (hmem : (path, d) ∈ definitionsOf entries) : (path.op, .leaf d) ∈ entries := by
  rw [definitionsOf_eq_flatMap] at hmem
  obtain ⟨⟨op, e⟩, hentry, hmem⟩ := List.mem_flatMap.mp hmem
  obtain ⟨d', rfl⟩ : ∃ d', e = .leaf d' := h _ hentry
  cases List.mem_singleton.mp hmem
  exact hentry

/-- The listing has what the table holds for the bytes of each opcode. -/
theorem mem_definitions_iff (h : t.Regular) {path : OpcodePath} :
    (path, d) ∈ t.definitions ↔ t.definition? path = some d := by
  constructor
  · intro hmem
    rw [definitions, definitionsOf_eq_flatMap] at hmem
    obtain ⟨⟨op, e⟩, hentry, hmem⟩ := List.mem_flatMap.mp hmem
    have hfound : t.entry? op = some e := lookup_of_mem h.sorted hentry
    cases e with
    | leaf d' =>
      cases List.mem_singleton.mp hmem
      exact leaf?_eq_some.mpr hfound
    | sub entries =>
      obtain ⟨⟨inner, d'⟩, hinner, heq⟩ := List.mem_map.mp hmem
      cases heq
      obtain ⟨hsorted, hleaves⟩ := h.fit _ hentry _ rfl
      have hsub : t.sub? op = some ⟨entries⟩ := sub?_eq_some.mpr hfound
      simp only [definition?, OpcodePath.nested, hsub, Option.bind_some]
      exact leaf?_eq_some.mpr (lookup_of_mem hsorted (mem_definitionsOf_leaves hleaves hinner))
  · intro hfound
    obtain ⟨group, op⟩ := path
    cases group with
    | none => exact mem_definitionsOf (mem_of_lookup (leaf?_eq_some.mp hfound))
    | some group =>
      obtain ⟨sub, hsub, hleaf⟩ := Option.bind_eq_some_iff.mp hfound
      exact mem_definitionsOf_sub (mem_of_lookup (leaf?_eq_some.mp hleaf))
        (mem_of_lookup (sub?_eq_some.mp hsub))

/-- The definitions under a byte are listed with that byte in front. -/
theorem bytes_of_mem_definitions {e : OpcodeEntry α} {path : OpcodePath}
    (h : (path, d) ∈ e.definitions op) : ∃ rest, path.bytes = op :: rest := by
  cases e with
  | leaf d' =>
    cases List.mem_singleton.mp h
    exact ⟨[], rfl⟩
  | sub entries =>
    obtain ⟨⟨inner, d'⟩, -, heq⟩ := List.mem_map.mp h
    cases heq
    exact ⟨[inner.op], rfl⟩

theorem pairwise_definitionsOf_leaves (hsorted : Sorted entries) (hleaves : Leaves entries) :
    (definitionsOf entries).Pairwise fun a b => a.1.op < b.1.op := by
  rw [definitionsOf_eq_flatMap, List.pairwise_flatMap]
  constructor
  · rintro ⟨op, e⟩ hentry
    obtain ⟨d, rfl⟩ : ∃ d, e = .leaf d := hleaves _ hentry
    exact List.pairwise_singleton _ _
  · refine hsorted.imp_of_mem ?_
    rintro ⟨op, e⟩ ⟨op', e'⟩ hentry hentry' hlt x hx y hy
    obtain ⟨d, rfl⟩ : ∃ d, e = .leaf d := hleaves _ hentry
    obtain ⟨d', rfl⟩ : ∃ d', e' = .leaf d' := hleaves _ hentry'
    cases List.mem_singleton.mp hx
    cases List.mem_singleton.mp hy
    exact hlt

/-- The listing is in the order of the opcodes' bytes. -/
theorem pairwise_definitions (h : t.Regular) :
    t.definitions.Pairwise fun a b => a.1.bytes < b.1.bytes := by
  rw [definitions, definitionsOf_eq_flatMap, List.pairwise_flatMap]
  constructor
  · rintro ⟨op, e⟩ hentry
    cases e with
    | leaf d => exact List.pairwise_singleton _ _
    | sub entries =>
      obtain ⟨hsorted, hleaves⟩ := h.fit _ hentry _ rfl
      refine List.pairwise_map.mpr ((pairwise_definitionsOf_leaves hsorted hleaves).imp ?_)
      intro a b hlt
      exact List.cons_lt_cons_self.mpr (List.Lex.rel hlt)
  · refine h.sorted.imp ?_
    rintro ⟨op, e⟩ ⟨op', e'⟩ hlt ⟨path, d⟩ hpath ⟨path', d'⟩ hpath'
    obtain ⟨rest, hbytes⟩ := bytes_of_mem_definitions hpath
    obtain ⟨rest', hbytes'⟩ := bytes_of_mem_definitions hpath'
    simp only [hbytes, hbytes']
    exact List.Lex.rel hlt

theorem nodup_paths (h : t.Regular) : (t.definitions.map (·.1)).Nodup := by
  refine List.pairwise_map.mpr ((pairwise_definitions h).imp ?_)
  rintro ⟨path, d⟩ ⟨path', d'⟩ hlt heq
  obtain rfl : path = path' := heq
  exact List.lt_irrefl _ hlt

/-! ## Reading an opcode -/

/-- What bytes come to when an opcode is read from them. -/
inductive Resolved (α : Type) where
  | found (path : OpcodePath) (d : OpcodeDef α)
  | unknown (path : OpcodePath)
  /-- They end inside the opcode. -/
  | short

/-- Looks at the first byte and, where it stands for a group, at the next. -/
def resolve (t : OpcodeTable α) : Bytes → Resolved α
  | [] => .short
  | first :: rest =>
    match t.entry? first with
    | none => .unknown (.direct first)
    | some (.leaf d) => .found (.direct first) d
    | some (.sub entries) =>
      match rest with
      | [] => .short
      | second :: _ =>
        match (⟨entries⟩ : OpcodeTable α).leaf? second with
        | some d => .found (.nested first second) d
        | none => .unknown (.nested first second)

/-- Reading an opcode resolves the bytes that remain and moves past those of the opcode. -/
theorem runOn_lookup (t : OpcodeTable α) {c : Cursor} (hc : c.Placed) :
    t.lookup.runOn c =
      match t.resolve c.rest with
      | .found path d => (.ok (path, d), c.past path.bytes.length)
      | .unknown path => (.error (.unknownOpcode path c.pos), c.past path.bytes.length)
      | .short => (.error (.bounds c.limit 1 c.limit), c.past c.rest.length) := by
  rw [lookup, runOn_bind_of_ok (show pos.runOn c = (.ok c.pos, c) from rfl)]
  cases hrest : c.rest with
  | nil =>
    rw [runOn_bind, runOn_u8_nil hc hrest]
    rfl
  | cons first rest =>
    obtain ⟨hfirst, hplaced, hnext⟩ := runOn_u8_cons hc hrest
    rw [runOn_bind_of_ok hfirst]
    cases hentry : t.entry? first with
    | none =>
      simp only [resolve, hentry]
      rfl
    | some e =>
      cases e with
      | leaf d =>
        simp only [resolve, hentry]
        rfl
      | sub entries =>
        cases rest with
        | nil =>
          simp only [resolve, hentry]
          rw [runOn_bind, runOn_u8_nil hplaced hnext]
          rfl
        | cons second rest =>
          obtain ⟨hsecond, -, -⟩ := runOn_u8_cons hplaced hnext
          simp only [resolve, hentry]
          rw [runOn_bind_of_ok hsecond]
          cases hinner : entries.lookup second with
          | none =>
            simp only [leaf?, entry?, hinner]
            rfl
          | some e =>
            cases e <;> simp only [leaf?, entry?, hinner] <;> rfl

/-- The bytes end where an opcode that they begin with has yet to go on. -/
def EndsInside (t : OpcodeTable α) (bytes : Bytes) : Prop :=
  bytes = [] ∨ ∃ group sub, bytes = [group] ∧ t.sub? group = some sub

/-- Bytes resolve to an opcode that they begin with, one that the table holds or one that is unknown, or
they end inside one. -/
theorem resolve_spec (t : OpcodeTable α) (bytes : Bytes) :
    match t.resolve bytes with
    | .found path d => t.definition? path = some d ∧ path.bytes <+: bytes
    | .unknown path => path.bytes <+: bytes
    | .short => t.EndsInside bytes := by
  cases bytes with
  | nil => exact .inl rfl
  | cons first rest =>
    cases hentry : t.entry? first with
    | none =>
      simp only [resolve, hentry]
      exact ⟨rest, rfl⟩
    | some e =>
      cases e with
      | leaf d =>
        simp only [resolve, hentry]
        exact ⟨leaf?_eq_some.mpr hentry, rest, rfl⟩
      | sub entries =>
        have hsub : t.sub? first = some ⟨entries⟩ := sub?_eq_some.mpr hentry
        cases rest with
        | nil =>
          simp only [resolve, hentry]
          exact .inr ⟨first, ⟨entries⟩, rfl, hsub⟩
        | cons second rest =>
          cases hleaf : (⟨entries⟩ : OpcodeTable α).leaf? second with
          | none =>
            simp only [resolve, hentry, hleaf]
            exact ⟨rest, rfl⟩
          | some d =>
            simp only [resolve, hentry, hleaf]
            exact ⟨Option.bind_eq_some_iff.mpr ⟨_, hsub, hleaf⟩, rest, rfl⟩

/-- Bytes resolve to what the table holds for an opcode if they begin with its bytes. -/
theorem resolve_eq_found_iff {bytes : Bytes} {path : OpcodePath} :
    t.resolve bytes = .found path d ↔ t.definition? path = some d ∧ path.bytes <+: bytes := by
  constructor
  · intro h
    have hspec := t.resolve_spec bytes
    rwa [h] at hspec
  · rintro ⟨hfound, rest, rfl⟩
    obtain ⟨group, op⟩ := path
    cases group with
    | none =>
      have hentry : t.entry? op = some (.leaf d) := leaf?_eq_some.mp hfound
      simp only [OpcodePath.bytes, Option.toList_none, List.nil_append, List.cons_append, resolve,
        hentry]
      rfl
    | some group =>
      obtain ⟨sub, hsub, hleaf⟩ := Option.bind_eq_some_iff.mp hfound
      simp only [OpcodePath.bytes, Option.toList_some, List.cons_append, List.nil_append, resolve,
        sub?_eq_some.mp hsub, hleaf]
      rfl

theorem resolve_eq_short_iff {bytes : Bytes} : t.resolve bytes = .short ↔ t.EndsInside bytes := by
  constructor
  · intro h
    have hspec := t.resolve_spec bytes
    rwa [h] at hspec
  · rintro (rfl | ⟨group, sub, rfl, hsub⟩)
    · rfl
    · simp only [resolve, sub?_eq_some.mp hsub]

theorem prefix_of_resolve_unknown {bytes : Bytes} {path : OpcodePath}
    (h : t.resolve bytes = .unknown path) : path.bytes <+: bytes := by
  have hspec := t.resolve_spec bytes
  rwa [h] at hspec

/-- What bytes resolve to depends on what the table holds for the first of them. -/
theorem resolve_congr {t' : OpcodeTable α} {first : UInt8} (h : t'.entry? first = t.entry? first)
    (rest : Bytes) : t'.resolve (first :: rest) = t.resolve (first :: rest) := by
  rw [resolve, resolve, h]

section
variable {c : Cursor} (hc : c.Placed)
include hc

theorem lookup_eq_ok_iff {path : OpcodePath} :
    (t.lookup.runOn c).1 = .ok (path, d) ↔ t.definition? path = some d ∧ path.bytes <+: c.rest := by
  rw [runOn_lookup t hc, ← resolve_eq_found_iff]
  cases t.resolve c.rest <;> simp

/-- An opcode that is found is passed. -/
theorem eq_past_of_lookup {path : OpcodePath} {c' : Cursor}
    (h : t.lookup.runOn c = (.ok (path, d), c')) : c' = c.past path.bytes.length := by
  rw [runOn_lookup t hc] at h
  split at h <;> cases h
  rfl

theorem lookup_of_endsInside (h : t.EndsInside c.rest) :
    (t.lookup.runOn c).1 = .error (.bounds c.limit 1 c.limit) := by
  rw [runOn_lookup t hc, resolve_eq_short_iff.mpr h]

/-- An opcode that is all there and is not found is unknown, and told at its place. -/
theorem lookup_of_not_endsInside
    (hmissing : ¬ ∃ path d, t.definition? path = some d ∧ path.bytes <+: c.rest)
    (h : ¬ t.EndsInside c.rest) : ∃ path, path.bytes <+: c.rest ∧
      (t.lookup.runOn c).1 = .error (.unknownOpcode path c.pos) := by
  rw [runOn_lookup t hc]
  cases hresolve : t.resolve c.rest with
  | found path d => exact absurd ⟨path, d, resolve_eq_found_iff.mp hresolve⟩ hmissing
  | unknown path => exact ⟨path, prefix_of_resolve_unknown hresolve, rfl⟩
  | short => exact absurd (resolve_eq_short_iff.mp hresolve) h

/-- Opcodes of other groups are read as before. -/
theorem lookup_defineSub_other {first : UInt8} {rest : Bytes} (hrest : c.rest = first :: rest)
    (hother : first ≠ group) (defs : List (OpcodeDef α)) :
    (t.defineSub group defs).lookup.runOn c = t.lookup.runOn c := by
  have hentry : entry? (t.defineSub group defs) first = t.entry? first := by
    rw [entry?_defineSub, if_neg hother]
  rw [runOn_lookup _ hc, runOn_lookup _ hc, hrest, resolve_congr hentry]

/-- An opcode of a group stands for what the group holds for its second byte. -/
theorem lookup_nested {sub : OpcodeTable α} (hsub : t.sub? group = some sub)
    (hbytes : [group, op] <+: c.rest) :
    (t.lookup.runOn c).1 = match t.definition? (.nested group op) with
      | some d => .ok (.nested group op, d)
      | none => .error (.unknownOpcode (.nested group op) c.pos) := by
  obtain ⟨rest, hrest⟩ := hbytes
  have hdefinition : t.definition? (.nested group op) = sub.leaf? op := by
    simp only [definition?, OpcodePath.nested, hsub, Option.bind_some]
  rw [runOn_lookup t hc, ← hrest, hdefinition]
  simp only [List.cons_append, List.nil_append, resolve, sub?_eq_some.mp hsub]
  cases sub.leaf? op <;> rfl

end

/-- Reading an opcode finds a definition if the listing has it for bytes that come next, and moves past
these bytes. Else it fails: at the end of the bytes if they end inside the opcode, and at the opcode
otherwise. The listing has each opcode once, in the order of their bytes. Putting definitions into a
group changes what opcodes of this group stand for, and no others: each of them stands for the last of
the definitions for it or, where there is none, for what it stood for before. -/
theorem lookup_agrees_with_listing (h : t.Assembled) :
    (∀ c : Cursor, c.Placed →
      (∀ path d, (t.lookup.runOn c).1 = .ok (path, d) ↔
        (path, d) ∈ t.definitions ∧ path.bytes <+: c.rest) ∧
      (∀ path d c', t.lookup.runOn c = (.ok (path, d), c') →
        c' = { c with pos := c.pos + path.bytes.length }) ∧
      ((¬ ∃ path d, (path, d) ∈ t.definitions ∧ path.bytes <+: c.rest) →
        (t.EndsInside c.rest → (t.lookup.runOn c).1 = .error (.bounds c.limit 1 c.limit)) ∧
        (¬ t.EndsInside c.rest → ∃ path, path.bytes <+: c.rest ∧
          (t.lookup.runOn c).1 = .error (.unknownOpcode path c.pos)))) ∧
    (t.definitions.map (·.1)).Nodup ∧
    (t.definitions.Pairwise fun a b => a.1.bytes < b.1.bytes) ∧
    ∀ group defs (c : Cursor), c.Placed →
      (∀ op, [group, op] <+: c.rest →
        ((t.defineSub group defs).lookup.runOn c).1 =
          match (defs.filter (·.op == op)).getLast?.or (t.definition? (.nested group op)) with
          | some d => .ok (.nested group op, d)
          | none => .error (.unknownOpcode (.nested group op) c.pos)) ∧
      ∀ first rest, c.rest = first :: rest → first ≠ group →
        (t.defineSub group defs).lookup.runOn c = t.lookup.runOn c := by
  have hregular := h.regular
  refine ⟨fun c hc => ⟨fun path d => ?_, fun path d c' hread => eq_past_of_lookup hc hread,
    fun hmissing => ⟨lookup_of_endsInside hc, fun hinside => ?_⟩⟩, nodup_paths hregular,
    pairwise_definitions hregular, fun group defs c hc => ⟨fun op hbytes => ?_,
    fun first rest hrest hother => lookup_defineSub_other hc hrest hother defs⟩⟩
  · rw [lookup_eq_ok_iff hc, mem_definitions_iff hregular]
  · simp only [mem_definitions_iff hregular] at hmissing
    exact lookup_of_not_endsInside hc hmissing hinside
  · have hsub : (t.defineSub group defs).sub? group =
        some (((t.sub? group).getD empty).define defs) := by
      rw [sub?_eq_some, entry?_defineSub, if_pos rfl]
    rw [lookup_nested hc hsub hbytes, definition?_defineSub]

/-! ## The tables of the titles -/

theorem Assembled.insertDefs (h : t.Assembled) (group : UInt8) (defs : List (OpcodeDef α)) :
    (t.insertSub group (.ofDefs defs)).Assembled :=
  h.insertSub group (Assembled.empty.define defs) (leaves_define leaves_empty defs)

theorem assembled_ever17 : Ever17.eventTable.Assembled :=
  ((((Assembled.empty.define _).insertDefs _ _).insertDefs _ _).insertDefs _ _).insertDefs _ _

theorem assembled_never7 : Never7.eventTable.Assembled := by
  have hshared : ((Ever17.eventTable.sub? 0x00).getD empty).Assembled ∧
      Leaves ((Ever17.eventTable.sub? 0x00).getD empty).entries := by
    cases hsub : Ever17.eventTable.sub? 0x00 with
    | none => exact ⟨.empty, leaves_empty⟩
    | some sub => exact ⟨.sub _ assembled_ever17 hsub, (assembled_ever17.regular.sub hsub).2⟩
  have hevents00 := (hshared.1.select Never7.shared00).define Never7.events00
  exact (((assembled_ever17.insertSub _ hevents00
    (leaves_define (leaves_select hshared.2 _) _)).defineSub _ _).defineSub _ _).defineSub _ _

/-- In the second title no opcode stands for two definitions, and where group `80` is defined anew a
second byte that is in both lists stands for the later definition. -/
theorem lookup_agrees_never7 :
    Never7.eventTable.Assembled ∧ (Never7.eventTable.definitions.map (·.1)).Nodup ∧
      ((Never7.eventTable.defineSub 0x80 Never7.events80).lookup.runOn
        (.ofView (.ofBytes [0x80, 0x12]))).1 =
        .ok (.nested 0x80 0x12, .plain 0x12 "unk" [.u16]) := by
  obtain ⟨-, hnodup, -, hredefined⟩ := lookup_agrees_with_listing assembled_never7
  have hc := Placed.ofView (.ofBytes [0x80, 0x12])
  refine ⟨assembled_never7, hnodup, ?_⟩
  rw [(hredefined 0x80 Never7.events80 _ hc).1 0x12 ⟨[], rfl⟩]
  rfl

end OpcodeTable

end NovelScript
