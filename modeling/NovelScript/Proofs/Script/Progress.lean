import NovelScript.Proofs.ActiveValue.Sources
import NovelScript.Proofs.Bytes.Progress
import NovelScript.Script.Operands

/-! # Progress of operand readers

Every field of an operand shape moves the cursor forward under its limit, except the one that ends
the chunk, which moves the limit to the cursor. An opcode takes a byte at least. -/

namespace NovelScript

open Cursor Reader

/-- Decoding takes the byte that ends a value at least. -/
theorem Symbol.length_decode {limit : Nat} {bytes : Bytes} {symbols : List Symbol} {rest : Bytes}
    (h : decode limit bytes = .ok (symbols, rest)) : rest.length < bytes.length := by
  obtain ⟨code, rfl, -⟩ := sources_of_decode h
  simp only [List.length_append, List.length_cons]
  omega

theorem ActiveValue.advances_read : Advances 1 ActiveValue.read := by
  intro c a c' hc h
  simp only [runOn, ActiveValue.read] at h
  split at h
  · cases (Prod.mk.inj h).1
  · rename_i symbols rest hdecode
    have hlength := Symbol.length_decode hdecode
    rw [length_rest hc] at hlength
    obtain ⟨_, rfl⟩ := Prod.mk.inj h
    exact ⟨rfl, rfl, by simp only; omega, by simp only; omega⟩

namespace TextCodec

/-- A run of text ends behind at least one byte, which ends it, and inside the bytes it is read
from. -/
theorem scan_bounds {codec : TextCodec} {start limit pos pos' : Nat} {text : String}
    {pending rest : Bytes} {result : String × UInt8}
    (h : codec.scan start limit pos text pending rest = (.ok result, pos')) :
    pos + 1 ≤ pos' ∧ pos' ≤ pos + rest.length := by
  fun_induction scan codec start limit pos text pending rest with
  | case1 => cases h
  | case2 pos text pending b rest =>
    have hpos : pos + 1 = pos' := (Prod.mk.inj h).2
    simp only [List.length_cons]
    omega
  | case3 => cases h
  | case4 => cases h
  | case5 => cases h
  | case6 => cases h
  | case7 _ _ _ _ _ _ _ _ _ _ _ _ _ ih =>
    have := ih h
    simp only [List.length_cons]
    omega
  | case8 _ _ _ _ _ _ _ ih =>
    have := ih h
    simp only [List.length_cons]
    omega

/-- A run that starts with a text byte has that byte in front of the one that ends it. -/
theorem scan_bounds_text {codec : TextCodec} {start limit pos pos' : Nat} {text : String}
    {pending rest : Bytes} {b : UInt8} {result : String × UInt8} (hb : isTextByte b = true)
    (h : codec.scan start limit pos text pending (b :: rest) = (.ok result, pos')) :
    pos + 2 ≤ pos' := by
  rw [scan.eq_def] at h
  simp only [hb, Bool.true_eq_false, if_false] at h
  split at h
  · split at h
    · cases h
    · split at h
      · cases h
      · split at h
        · cases h
        · split at h
          · cases h
          · have := (scan_bounds h).1
            omega
  · have := (scan_bounds h).1
    omega

theorem advances_read (codec : TextCodec) : Advances 1 codec.read := by
  intro c a c' hc h
  simp only [runOn, read] at h
  obtain ⟨houtcome, rfl⟩ := Prod.mk.inj h
  obtain ⟨hforth, hinside⟩ := scan_bounds (Prod.ext houtcome rfl)
  rw [length_rest hc] at hinside
  have hpos := hc.pos
  exact ⟨rfl, rfl, hforth, Nat.le_trans hinside (by omega)⟩

theorem advances_readUntil (codec : TextCodec) (terminator : UInt8) :
    Advances 1 (codec.readUntil terminator) :=
  codec.advances_read.bind fun _ =>
    .ite (fun _ => .pure _) (fun _ => advances_pos.after fun _ => .fail _ _)

/-- Open text is read up to the byte that ends it. -/
theorem readOpen_eq_ok {codec : TextCodec} {c c' : Cursor} {text : String}
    (h : codec.readOpen.runOn c = (.ok text, c')) :
    ∃ result after, codec.read.runOn c = (.ok result, after) ∧
      c' = { after with pos := after.pos - 1 } := by
  obtain ⟨result, after, hread, h⟩ := runOn_bind_ok h
  obtain ⟨_, c₂, hrewind, h⟩ := runOn_bind_ok h
  obtain ⟨_, rfl⟩ := Prod.mk.inj h
  refine ⟨result, after, hread, ?_⟩
  simp only [runOn, rewind] at hrewind
  split at hrewind
  · exact (Prod.mk.inj hrewind).2.symm
  · cases (Prod.mk.inj hrewind).1

theorem ahead_of_readOpen {n : Nat} {c c' after : Cursor}
    (hread : Ahead (n + 1) c after) (hafter : c' = { after with pos := after.pos - 1 }) :
    Ahead n c c' := by
  have hforth := hread.forth
  have hinside := hread.inside
  subst hafter
  exact ⟨hread.view, hread.limit, by simp only; omega, by simp only; omega⟩

theorem advances_readOpen (codec : TextCodec) : Advances 0 codec.readOpen := by
  intro c a c' hc h
  obtain ⟨result, after, hread, rfl⟩ := readOpen_eq_ok h
  exact ahead_of_readOpen (codec.advances_read c result after hc hread) rfl

end TextCodec

/-- An opcode has a byte at least. -/
theorem OpcodeTable.advances_lookup {α : Type} (t : OpcodeTable α) : Advances 1 t.lookup := by
  refine advances_pos.after fun offset => advances_u8.bind fun first => ?_
  split
  · exact .pure _
  · refine advances_u8.after fun second => ?_
    split
    · exact .pure _
    · exact .fail _ _
  · exact .fail _ _

theorem OpcodeTable.mem_definitionsOf {α : Type} {op : UInt8} {d : OpcodeDef α}
    {entries : List (UInt8 × OpcodeEntry α)} (h : (op, .leaf d) ∈ entries) :
    (.direct op, d) ∈ definitionsOf entries := by
  induction entries with
  | nil => cases h
  | cons entry rest ih =>
    rw [definitionsOf, List.mem_append]
    rcases List.mem_cons.mp h with rfl | h
    · exact .inl (List.mem_singleton.mpr rfl)
    · exact .inr (ih h)

theorem OpcodeTable.mem_definitionsOf_sub {α : Type} {group op : UInt8} {d : OpcodeDef α}
    {sub entries : List (UInt8 × OpcodeEntry α)} (hsub : (op, .leaf d) ∈ sub)
    (h : (group, .sub sub) ∈ entries) : (.nested group op, d) ∈ definitionsOf entries := by
  induction entries with
  | nil => cases h
  | cons entry rest ih =>
    rw [definitionsOf, List.mem_append]
    rcases List.mem_cons.mp h with rfl | h
    · rw [OpcodeEntry.definitions]
      exact .inl (List.mem_map.mpr ⟨_, mem_definitionsOf hsub, rfl⟩)
    · exact .inr (ih h)

/-- Looking up an opcode finds a definition of the table. -/
theorem OpcodeTable.mem_definitions_of_lookup {α : Type} {t : OpcodeTable α} {c c' : Cursor}
    {path : OpcodePath} {d : OpcodeDef α} (h : t.lookup.runOn c = (.ok (path, d), c')) :
    (path, d) ∈ t.definitions := by
  obtain ⟨offset, c₁, _, h⟩ := runOn_bind_ok h
  obtain ⟨first, c₂, _, h⟩ := runOn_bind_ok h
  split at h
  case h_1 d' hentry =>
    obtain ⟨heq, _⟩ := Prod.mk.inj h
    cases heq
    exact mem_definitionsOf (mem_of_lookup hentry)
  case h_2 entries hentry =>
    obtain ⟨second, c₃, _, h⟩ := runOn_bind_ok h
    split at h
    case h_1 d' hinner =>
      obtain ⟨heq, _⟩ := Prod.mk.inj h
      cases heq
      exact mem_definitionsOf_sub (mem_of_lookup hinner) (mem_of_lookup hentry)
    case h_2 => cases (Prod.mk.inj h).1
  case h_3 => cases (Prod.mk.inj h).1

namespace Script

theorem advances_readIndex (table : TableKind) (count : Nat) : Advances 2 (readIndex table count) :=
  advances_u16.bind fun _ => .ite (fun _ => .pure _) (fun _ => .fail _ _)

theorem advances_readFilename (s : Script) : Advances 2 s.readFilename :=
  ActiveValue.advances_read.after fun _ => ActiveValue.advances_read.after fun _ =>
    ActiveValue.advances_read.after fun _ => ActiveValue.advances_read.after fun _ =>
      (advances_readIndex _ _).bind fun _ => .pure _

theorem advances_readAscii (s : Script) (terminator : UInt8) : Advances 1 (s.readAscii terminator) :=
  advances_pos.after fun _ => (s.title.codec.advances_readUntil terminator).bind fun _ =>
    .ite (fun _ => .pure _) (fun _ => .fail _ _)

theorem advances_readChoiceEntry (s : Script) : Advances 1 s.readChoiceEntry := by
  have htext := s.title.codec.advances_readUntil candidateEnd
  refine advances_pos.after fun _ => advances_u8.bind fun kind => ?_
  refine .ite (fun _ => advances_u16.after fun _ => .pure _) fun _ => ?_
  refine .ite (fun _ => htext.after fun _ => .pure _) fun _ => ?_
  exact .ite (fun _ => ActiveValue.advances_read.after fun _ => htext.after fun _ => .pure _)
    fun _ => .fail _ _

theorem advances_readValues (count : Nat) : Advances 0 (readValues count) := by
  induction count with
  | zero => exact .pure _
  | succ count ih => exact ActiveValue.advances_read.after fun _ => ih.bind fun _ => .pure _

theorem advances_readZero : Advances 1 readZero :=
  advances_pos.after fun _ => ActiveValue.advances_read.bind fun _ =>
    (advances_lift _).bind fun _ => .ite (fun _ => .pure _) (fun _ => .fail _ _)

/-- Every field but the one that ends the chunk moves forward. -/
theorem advances_readField (s : Script) {field : Field} (hfield : field ≠ .stop) :
    Advances 0 (s.readField field) := by
  cases field with
  | value => exact ActiveValue.advances_read.after fun _ => .pure _
  | values count => exact advances_readValues count
  | zero => exact advances_readZero.after fun _ => .pure _
  | u8 => exact advances_u8.after fun _ => .pure _
  | u16 => exact advances_u16.after fun _ => .pure _
  | s16 => exact advances_s16.after fun _ => .pure _
  | bytes count => exact (advances_take count).after fun _ => .pure _
  | nulls count => exact (advances_nulls count).after fun _ => .pure _
  | constant expected => exact (advances_expect expected).after fun _ => .pure _
  | event => exact (advances_readIndex _ _).after fun _ => .pure _
  | eventData => exact (advances_readIndex _ _).after fun _ => .pure _
  | filename => exact s.advances_readFilename.after fun _ => .pure _
  | conversation => exact (advances_readIndex _ _).after fun _ => .pure _
  | string terminator => exact (advances_takeUntil terminator).after fun _ => .pure _
  | text terminator => exact (s.title.codec.advances_readUntil terminator).after fun _ => .pure _
  | textOpen => exact s.title.codec.advances_readOpen.after fun _ => .pure _
  | ascii terminator => exact (s.advances_readAscii terminator).after fun _ => .pure _
  | choiceEntry => exact s.advances_readChoiceEntry.after fun _ => .pure _
  | stop => exact absurd rfl hfield

/-- Where a cursor stands behind a shape: the limit is where it was, or a field has ended the chunk
at the position. -/
structure BehindShape (shape : List Field) (c c' : Cursor) : Prop where
  view : c'.view = c.view
  forth : c.pos ≤ c'.pos
  inside : c'.pos ≤ c'.limit
  limit : c'.limit ≤ c.limit
  ended : c'.limit = c.limit ∨ c'.pos = c'.limit ∧ .stop ∈ shape

theorem BehindShape.placed {shape : List Field} {c c' : Cursor} (h : BehindShape shape c c')
    (hc : c.Placed) : c'.Placed where
  start := h.view ▸ Nat.le_trans hc.start h.forth
  pos := h.inside
  limit := h.view ▸ Nat.le_trans h.limit hc.limit

theorem behindShape_readField (s : Script) {field : Field} {c c' : Cursor} (hc : c.Placed)
    {operands : List Operand} (h : (s.readField field).runOn c = (.ok operands, c')) :
    BehindShape [field] c c' := by
  by_cases hfield : field = .stop
  · subst hfield
    obtain ⟨_, c₁, hset, h⟩ := runOn_bind_ok h
    obtain ⟨_, rfl⟩ := Prod.mk.inj h
    simp only [runOn, setEnd, hc.pos, if_true] at hset
    obtain ⟨_, rfl⟩ := Prod.mk.inj hset
    exact ⟨rfl, Nat.le_refl _, Nat.le_refl _, hc.pos, .inr ⟨rfl, List.mem_cons_self⟩⟩
  · have hahead := s.advances_readField hfield c operands c' hc h
    exact ⟨hahead.view, hahead.forth, hahead.limit ▸ hahead.inside, Nat.le_of_eq hahead.limit,
      .inl hahead.limit⟩

/-- A shape that can be read moves forward up to the limit, or to the end that it sets. -/
theorem behindShape_readShape (s : Script) (shape : List Field) {c : Cursor} (hc : c.Placed)
    (h : (s.readShape shape c).fault = none) :
    BehindShape shape c (s.readShape shape c).cursor := by
  induction shape generalizing c with
  | nil => exact ⟨rfl, Nat.le_refl _, hc.pos, Nat.le_refl _, .inl rfl⟩
  | cons field shape ih =>
    rcases hfield : (s.readField field).runOn c with ⟨outcome, c₁⟩
    cases outcome with
    | error fault => simp [readShape, hfield] at h
    | ok operands =>
      have hfirst := s.behindShape_readField hc hfield
      simp only [readShape, hfield] at h ⊢
      have hrest := ih (hfirst.placed hc) h
      refine ⟨hrest.view.trans hfirst.view, Nat.le_trans hfirst.forth hrest.forth, hrest.inside,
        Nat.le_trans hrest.limit hfirst.limit, ?_⟩
      rcases hrest.ended with hsame | ⟨hstop, hmem⟩
      · rcases hfirst.ended with hsame' | ⟨hstop', hmem'⟩
        · exact .inl (hsame.trans hsame')
        · -- nothing can be read behind the end that the first field has set
          have hforth := hrest.forth
          have hinside := hrest.inside
          exact .inr ⟨by omega, List.mem_cons.mpr (.inl (List.mem_singleton.mp hmem'))⟩
      · exact .inr ⟨hstop, List.mem_cons_of_mem field hmem⟩

end Script

end NovelScript
