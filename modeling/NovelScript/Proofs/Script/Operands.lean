import NovelScript.Proofs.Script.Chunks
import NovelScript.Proofs.Script.Faults

/-! # Operands and actions

The shape of an opcode says which operands a token has, its action which operands are taken from the
token and where. The tables of both titles agree with themselves: what an action takes is there, and
of the kind that the action wants. References that were read lead into the tables of their file. -/

namespace NovelScript

/-! ## Kinds of operands -/

inductive OperandKind where
  | value
  | u8
  | u16
  | s16
  | bytes
  | event (data : Bool)
  | filename
  | conversation
  | string
  | text
  | ascii
  | choice
deriving DecidableEq, Repr

def Operand.kind : Operand → OperandKind
  | .value _ => .value
  | .u8 _ => .u8
  | .u16 _ => .u16
  | .s16 _ => .s16
  | .bytes _ => .bytes
  | .event target => .event target.data
  | .filename _ => .filename
  | .conversation _ => .conversation
  | .string _ => .string
  | .text _ => .text
  | .ascii _ => .ascii
  | .choice _ => .choice

/-- The kinds of the operands that one read of a shape gives. -/
def Field.kinds : Field → List OperandKind
  | .value | .zero => [.value]
  | .values count => .replicate count .value
  | .u8 => [.u8]
  | .u16 => [.u16]
  | .s16 => [.s16]
  | .bytes _ => [.bytes]
  | .nulls _ | .constant _ | .stop => []
  | .event => [.event false]
  | .eventData => [.event true]
  | .filename => [.filename]
  | .conversation => [.conversation]
  | .string _ => [.string]
  | .text _ | .textOpen => [.text]
  | .ascii _ => [.ascii]
  | .choiceEntry => [.choice]

/-- The kinds of the operands of an opcode. -/
def OpcodeDef.kinds {α : Type} (d : OpcodeDef α) : List OperandKind := d.shape.flatMap Field.kinds

/-- If the operand refers to a chunk or a filename, the file has it. -/
def Operand.InTables (s : Script) : Operand → Prop
  | .event target => target.index.toNat < s.events.length
  | .conversation index => index.toNat < s.convs.length
  | .filename target => target.index.toNat < s.filenames.length
  | _ => True

/-! ## Reading operands -/

/-- Whatever a reader reads has a property. -/
def Reader.Yields {α : Type} (Q : α → Prop) (r : Reader α) : Prop :=
  ∀ c a c', r.runOn c = (.ok a, c') → Q a

namespace Reader.Yields

variable {α β : Type} {Q : β → Prop}

theorem pure {b : β} (h : Q b) : Yields Q (Pure.pure b) := by
  rintro c a c' hrun
  obtain ⟨hb, -⟩ := Prod.mk.inj hrun
  exact Except.ok.inj hb ▸ h

theorem fail (fault : Fault) : Yields Q (Reader.fail fault) := by
  rintro c a c' hrun
  cases (Prod.mk.inj hrun).1

theorem bind {R : α → Prop} {x : Reader α} {f : α → Reader β} (hx : Yields R x)
    (hf : ∀ a, R a → Yields Q (f a)) : Yields Q (x >>= f) := by
  intro c b c' hrun
  obtain ⟨a, c₁, hfirst, hrest⟩ := runOn_bind_ok hrun
  exact hf a (hx c a c₁ hfirst) c₁ b c' hrest

/-- Of what is read first nothing needs to be known. -/
theorem after {x : Reader α} {f : α → Reader β} (hf : ∀ a, Yields Q (f a)) : Yields Q (x >>= f) :=
  bind (R := fun _ => True) (fun _ _ _ _ => trivial) fun a _ => hf a

end Reader.Yields

/-- Operands of the kinds that are asked for, whose references lead into the tables of the file. -/
structure OperandsOf (s : Script) (kinds : List OperandKind) (operands : List Operand) : Prop where
  kinds : operands.map Operand.kind = kinds
  inTables : ∀ operand ∈ operands, operand.InTables s

namespace OperandsOf

variable {s : Script}

theorem nil : OperandsOf s [] [] := ⟨rfl, fun _ h => by cases h⟩

theorem single {operand : Operand} {kind : OperandKind} (hkind : operand.kind = kind)
    (h : operand.InTables s) : OperandsOf s [kind] [operand] :=
  ⟨congrArg (· :: []) hkind, fun _ hmem => List.mem_singleton.mp hmem ▸ h⟩

theorem append {kinds kinds' : List OperandKind} {operands operands' : List Operand}
    (h : OperandsOf s kinds operands) (h' : OperandsOf s kinds' operands') :
    OperandsOf s (kinds ++ kinds') (operands ++ operands') where
  kinds := by rw [List.map_append, h.kinds, h'.kinds]
  inTables operand hmem := (List.mem_append.mp hmem).elim (h.inTables operand) (h'.inTables operand)

end OperandsOf

namespace Script

open Reader

theorem yields_readIndex (table : TableKind) (count : Nat) :
    (readIndex table count).Yields fun index => index.toNat < count := by
  refine .after fun index => ?_
  split
  · rename_i hlt
    exact .pure hlt
  · exact .fail _

theorem yields_readFilename (s : Script) :
    s.readFilename.Yields fun target => target.index.toNat < s.filenames.length :=
  .after fun _ => .after fun _ => .after fun _ => .after fun _ =>
    (yields_readIndex .filename s.filenames.length).bind fun _ hlt => .pure hlt

theorem yields_readValues (s : Script) (count : Nat) :
    (readValues count).Yields (OperandsOf s (.replicate count .value)) := by
  induction count with
  | zero => exact .pure .nil
  | succ count ih =>
    refine .after fun value => ih.bind fun others hothers => .pure ?_
    have hfirst : OperandsOf s [.value] [.value value] := .single rfl trivial
    exact hfirst.append hothers

/-- A field is read as operands of its kinds. -/
theorem yields_readField (s : Script) (field : Field) :
    (s.readField field).Yields (OperandsOf s field.kinds) := by
  cases field with
  | values count => exact yields_readValues s count
  | nulls count => exact .after fun _ => .pure .nil
  | constant expected => exact .after fun _ => .pure .nil
  | stop => exact .after fun _ => .pure .nil
  | event => exact (yields_readIndex _ _).bind fun _ hlt => .pure (.single rfl hlt)
  | eventData => exact (yields_readIndex _ _).bind fun _ hlt => .pure (.single rfl hlt)
  | conversation => exact (yields_readIndex _ _).bind fun _ hlt => .pure (.single rfl hlt)
  | filename => exact s.yields_readFilename.bind fun _ hlt => .pure (.single rfl hlt)
  | _ => exact .after fun _ => .pure (.single rfl trivial)

theorem operandsOf_readShape (s : Script) (shape : List Field) {c : Cursor}
    (h : (s.readShape shape c).fault = none) :
    OperandsOf s (shape.flatMap Field.kinds) (s.readShape shape c).operands := by
  induction shape generalizing c with
  | nil => exact .nil
  | cons field shape ih =>
    rcases hfield : (s.readField field).runOn c with ⟨outcome, c₁⟩
    cases outcome with
    | error fault => simp [readShape, hfield] at h
    | ok operands =>
      simp only [readShape, hfield] at h ⊢
      rw [List.flatMap_cons]
      exact (s.yields_readField field c operands c₁ hfield).append (ih h)

/-- A token that is read from a chunk: its definition is one of the table, and its operands are of
the kinds that the definition says. -/
structure ReadFrom {α : Type} (s : Script) (table : OpcodeTable α) (op : OpToken α) : Prop where
  definition : (op.path, op.definition) ∈ table.definitions
  operands : OperandsOf s op.definition.kinds op.operands

theorem readFrom_readOp {α : Type} {s : Script} {table : OpcodeTable α}
    {kind : OpToken α → TokenKind} {capture : Bool} {c after : Cursor} {t : Token}
    (h : (s.readOp table kind capture c).outcome = .ok (t, after)) :
    ∃ op, t.kind = kind op ∧ s.ReadFrom table op := by
  unfold readOp at h
  split at h
  · cases h
  · rename_i path definition behind hlookup
    simp only at h
    split at h
    · cases h
    · rename_i hfault
      split at h
      · cases h
      · cases h
        exact ⟨_, rfl, OpcodeTable.mem_definitions_of_lookup hlookup,
          s.operandsOf_readShape definition.shape hfault⟩

/-- The opcodes among the tokens of an event chunk are read from it. -/
theorem readFrom_of_mem_tokenizeEvent {s : Script} {known : DataChunks} {index : Nat}
    {capture : Bool} {t : Token} (h : t ∈ (s.tokenizeEvent known index capture).tokens) :
    (∃ op, t.kind = .event op ∧ s.ReadFrom s.title.eventTable op) ∨
      ∃ view, t.kind = .data view := by
  unfold tokenizeEvent at h
  split at h
  · cases h
  · split at h
    · obtain rfl := List.mem_singleton.mp h
      exact .inr ⟨_, rfl⟩
    · exact .inl (readTokens_forall
        (P := fun t => ∃ op, t.kind = .event op ∧ s.ReadFrom s.title.eventTable op)
        readFrom_readOp _ _ t h)

theorem readFrom_readConvToken {s : Script} {capture : Bool} {c after : Cursor} {t : Token}
    (h : (s.readConvToken capture c).outcome = .ok (t, after)) :
    (∃ op, t.kind = .conv op ∧ s.ReadFrom s.title.convTable op) ∨ ∃ text, t.kind = .text text := by
  unfold readConvToken at h
  simp only at h
  split at h
  · split at h
    · split at h
      · simp only [readTextRun] at h
        split at h
        · cases h
        · obtain ⟨raw, -, h⟩ := exceptBind_eq_ok h
          cases h
          exact .inr ⟨_, rfl⟩
      · cases h
    · cases h
  · exact .inl (readFrom_readOp h)

theorem readFrom_of_mem_tokenizeConvPlain {s : Script} {index : Nat} {capture : Bool} {t : Token}
    (h : t ∈ (s.tokenizeConvPlain index capture).tokens) :
    (∃ op, t.kind = .conv op ∧ s.ReadFrom s.title.convTable op) ∨ ∃ text, t.kind = .text text := by
  unfold tokenizeConvPlain at h
  split at h
  · cases h
  · exact readTokens_forall
      (P := fun t => (∃ op, t.kind = .conv op ∧ s.ReadFrom s.title.convTable op) ∨
        ∃ text, t.kind = .text text)
      readFrom_readConvToken _ _ t h

/-- A token of a conversation chunk is read from it or is a block of text. -/
theorem readFrom_of_mem_tokenizeConv {s : Script} {index : Nat} {capture : Bool} {t : Token}
    (h : t ∈ (s.tokenizeConv index capture).tokens) :
    t ∈ (s.tokenizeConvPlain index capture).tokens ∨ ∃ block, t.kind = .textblock block := by
  unfold tokenizeConv at h
  simp only at h
  split at h
  · exact .inl h
  · split at h
    · rename_i tokens hgroup
      exact Textblock.mem_group hgroup h
    · exact .inl h

/-! ## Entries of tables -/

theorem chunkAt_eq_ok {table : TableKind} {chunks : List View} {index : Nat}
    (h : index < chunks.length) : ∃ chunk, chunkAt table chunks index = .ok chunk := by
  simp [chunkAt, List.getElem?_eq_getElem h]

end Script

/-! ## What actions take -/

/-- What is taken from a token: the places of operands and the kinds that are wanted there. -/
abbrev Places := List (Nat × List OperandKind)

/-- The kinds of operands that stand for bytes. -/
def OperandKind.byteStrings : List OperandKind := [.string, .ascii, .bytes]

/-- The operands that playing an event token takes from it. -/
def EventAction.places : EventAction → Places
  | .condJump => [(0, [.u8]), (1, [.value])]
  | .loadRegister | .registerJump | .fade | .clearCharacter _ | .memoryWrite => [(0, [.value])]
  | .fileJump | .movie | .pushVoice => [(0, OperandKind.byteStrings)]
  | .returnableFileJump => [(1, OperandKind.byteStrings)]
  | .background => [(0, [.filename])]
  | .partialBackground =>
    [(0, [.filename]), (3, [.value]), (4, [.value]), (5, [.value]), (6, [.value])]
  | .scrollBackground => [(0, [.filename]), (1, [.value])]
  | .panZoom => [(0, [.value]), (1, [.value]), (2, [.value]), (3, [.value]), (4, [.value])]
  | .scrollPan => [(0, [.value]), (1, [.value])]
  | .drawCharacter _ => [(0, [.value]), (1, [.filename]), (2, [.value])]
  | .drawPair =>
    [(0, [.value]), (1, [.value]), (2, [.filename]), (3, [.filename]), (4, [.value]), (5, [.value])]
  | .drawTriple =>
    [(0, [.filename]), (1, [.filename]), (2, [.filename]), (3, [.value]), (4, [.value]),
      (5, [.value])]
  | .choiceStore false => [(0, [.value])]
  | .choiceStore true => [(0, [.value]), (1, [.value])]
  | .loadConversation => [(0, [.conversation])]
  | _ => []

/-- Whether playing an event token may go to the chunk that the token refers to. -/
def EventAction.jumps : EventAction → Bool
  | .jump | .returnableJump | .condJump | .registerJump => true
  | _ => false

/-- The operands that are taken from a conversation token, by playing it or by grouping text. -/
def ConvAction.places : ConvAction → Places
  | .choiceEntry => [(0, [.choice])]
  | .choiceOption => [(1, [.text])]
  | .voice => [(0, OperandKind.byteStrings)]
  | _ => []

/-- Whether operands of some kinds have at each place what is wanted there. -/
def Places.fit (places : Places) (kinds : List OperandKind) : Bool :=
  places.all fun place => (kinds[place.1]?).any place.2.contains

theorem eventTable_fits (title : Title) : ∀ entry ∈ title.eventTable.definitions,
    entry.2.action.places.fit entry.2.kinds = true ∧
      (entry.2.action.jumps = true → .event false ∈ entry.2.kinds) := by
  cases title <;> decide +kernel

theorem convTable_fits (title : Title) : ∀ entry ∈ title.convTable.definitions,
    entry.2.action.places.fit entry.2.kinds = true := by
  cases title <;> decide +kernel

namespace OpToken

variable {α : Type} {op : OpToken α} {index : Nat}

/-- The token has an operand of one of the kinds at the place. -/
def Holds (op : OpToken α) (index : Nat) (wanted : List OperandKind) : Prop :=
  ∃ operand, op.operand index = .ok operand ∧ operand.kind ∈ wanted

theorem holds_of_fit {s : Script} {table : OpcodeTable α} {places : Places}
    (hread : s.ReadFrom table op) (hfit : places.fit op.definition.kinds = true)
    {wanted : List OperandKind} (hplace : (index, wanted) ∈ places) : op.Holds index wanted := by
  have hthere := List.all_eq_true.mp hfit _ hplace
  rw [← hread.operands.kinds, List.getElem?_map] at hthere
  cases hoperand : op.operands[index]? with
  | none => simp [hoperand] at hthere
  | some operand =>
    refine ⟨operand, ?_, ?_⟩
    · simp only [OpToken.operand, hoperand]
    · simpa [hoperand] using hthere

theorem Holds.value (h : op.Holds index [.value]) : ∃ v, op.value index = .ok v := by
  obtain ⟨operand, hoperand, hkind⟩ := h
  cases operand with
  | value v => exact ⟨v, by rw [OpToken.value, hoperand]; rfl⟩
  | _ => simp [Operand.kind] at hkind

theorem Holds.u8 (h : op.Holds index [.u8]) : ∃ n, op.u8 index = .ok n := by
  obtain ⟨operand, hoperand, hkind⟩ := h
  cases operand with
  | u8 n => exact ⟨n, by rw [OpToken.u8, hoperand]; rfl⟩
  | _ => simp [Operand.kind] at hkind

theorem Holds.conversation (h : op.Holds index [.conversation]) :
    ∃ target, op.conversation index = .ok target := by
  obtain ⟨operand, hoperand, hkind⟩ := h
  cases operand with
  | conversation target => exact ⟨target, by rw [OpToken.conversation, hoperand]; rfl⟩
  | _ => simp [Operand.kind] at hkind

theorem Holds.filename (h : op.Holds index [.filename]) :
    ∃ target, op.filename index = .ok target := by
  obtain ⟨operand, hoperand, hkind⟩ := h
  cases operand with
  | filename target => exact ⟨target, by rw [OpToken.filename, hoperand]; rfl⟩
  | _ => simp [Operand.kind] at hkind

theorem Holds.bytes (h : op.Holds index OperandKind.byteStrings) :
    ∃ bytes, op.bytes index = .ok bytes := by
  obtain ⟨operand, hoperand, hkind⟩ := h
  cases operand with
  | string bytes => exact ⟨bytes, by rw [OpToken.bytes, hoperand]; rfl⟩
  | ascii bytes => exact ⟨bytes, by rw [OpToken.bytes, hoperand]; rfl⟩
  | bytes bytes => exact ⟨bytes, by rw [OpToken.bytes, hoperand]; rfl⟩
  | _ => simp [Operand.kind, OperandKind.byteStrings] at hkind

theorem Holds.text (h : op.Holds index [.text]) : ∃ text, op.text index = .ok text := by
  obtain ⟨operand, hoperand, hkind⟩ := h
  cases operand with
  | text text => exact ⟨text, by rw [OpToken.text, hoperand]; rfl⟩
  | _ => simp [Operand.kind] at hkind

theorem Holds.choice (h : op.Holds index [.choice]) : ∃ entry, op.choice index = .ok entry := by
  obtain ⟨operand, hoperand, hkind⟩ := h
  cases operand with
  | choice entry => exact ⟨entry, by rw [OpToken.choice, hoperand]; rfl⟩
  | _ => simp [Operand.kind] at hkind

/-- What is told when operands are taken from a token at the places. -/
structure Takes (P : Fault → Prop) (op : OpToken α) (places : Places) : Prop where
  value : ∀ index, (index, [.value]) ∈ places → Tells P (op.value index)
  u8 : ∀ index, (index, [.u8]) ∈ places → Tells P (op.u8 index)
  conversation : ∀ index, (index, [.conversation]) ∈ places → Tells P (op.conversation index)
  filename : ∀ index, (index, [.filename]) ∈ places → Tells P (op.filename index)
  bytes : ∀ index, (index, OperandKind.byteStrings) ∈ places → Tells P (op.bytes index)
  text : ∀ index, (index, [.text]) ∈ places → Tells P (op.text index)
  choice : ∀ index, (index, [.choice]) ∈ places → Tells P (op.choice index)

/-- Whatever a token consists of, nothing but its operands is at fault when they are taken. -/
theorem takes_ofOperands {P : Fault → Prop} (hP : ∀ fault, fault.isOfOperands = true → P fault)
    (op : OpToken α) (places : Places) : Takes P op places where
  value index _ := (op.ofOperands_value index).mono hP
  u8 index _ := (op.ofOperands_u8 index).mono hP
  conversation index _ := (op.ofOperands_conversation index).mono hP
  filename index _ := (op.ofOperands_filename index).mono hP
  bytes index _ := (op.ofOperands_bytes index).mono hP
  text index _ := (op.ofOperands_text index).mono hP
  choice index _ := (op.ofOperands_choice index).mono hP

/-- Operands that are there are taken without a fault. -/
theorem takes_of_holds {P : Fault → Prop} {places : Places}
    (h : ∀ index wanted, (index, wanted) ∈ places → op.Holds index wanted) : Takes P op places := by
  have htold {β : Type} {x : Except Fault β} (hx : ∃ b, x = .ok b) : Tells P x := by
    obtain ⟨b, rfl⟩ := hx
    trivial
  exact {
    value := fun index hplace => htold (h index _ hplace).value
    u8 := fun index hplace => htold (h index _ hplace).u8
    conversation := fun index hplace => htold (h index _ hplace).conversation
    filename := fun index hplace => htold (h index _ hplace).filename
    bytes := fun index hplace => htold (h index _ hplace).bytes
    text := fun index hplace => htold (h index _ hplace).text
    choice := fun index hplace => htold (h index _ hplace).choice }

/-- A code reference among the operands is a chunk to go to. -/
theorem jumpTarget?_isSome (h : .event false ∈ op.operands.map Operand.kind) :
    ∃ chunk, op.jumpTarget? = some chunk := by
  obtain ⟨operand, hmem, hkind⟩ := List.mem_map.mp h
  rw [← Option.isSome_iff_exists]
  unfold jumpTarget?
  rw [List.findSome?_isSome_iff]
  cases operand with
  | event target =>
    have hcode : target.data = false := by simpa [Operand.kind] using hkind
    exact ⟨_, hmem, by simp [hcode]⟩
  | _ => cases hkind

end OpToken

namespace Script

variable {s : Script}

/-- An event token that was read has the operands that its action takes. -/
theorem ReadFrom.holds_event {op : OpToken EventAction} (h : s.ReadFrom s.title.eventTable op)
    {index : Nat} {wanted : List OperandKind}
    (hplace : (index, wanted) ∈ op.definition.action.places) : op.Holds index wanted :=
  OpToken.holds_of_fit h (eventTable_fits s.title _ h.definition).1 hplace

/-- An event token that was read has a chunk to go to if its action goes there. -/
theorem ReadFrom.jumpTarget {op : OpToken EventAction} (h : s.ReadFrom s.title.eventTable op)
    (hjumps : op.definition.action.jumps = true) : ∃ chunk, op.jumpTarget? = some chunk := by
  apply OpToken.jumpTarget?_isSome
  rw [h.operands.kinds]
  exact (eventTable_fits s.title _ h.definition).2 hjumps

/-- A conversation token that was read has the operands that its action takes. -/
theorem ReadFrom.holds_conv {op : OpToken ConvAction} (h : s.ReadFrom s.title.convTable op)
    {index : Nat} {wanted : List OperandKind}
    (hplace : (index, wanted) ∈ op.definition.action.places) : op.Holds index wanted :=
  OpToken.holds_of_fit h (convTable_fits s.title _ h.definition) hplace

/-- The voice tokens of a conversation chunk name their clips. -/
theorem namesClip_of_mem_tokenizeConvPlain {index : Nat} {capture : Bool} {t : Token}
    (h : t ∈ (s.tokenizeConvPlain index capture).tokens) : t.NamesClip := by
  intro op hkind hvoice
  rcases readFrom_of_mem_tokenizeConvPlain h with ⟨op', hkind', hread⟩ | ⟨text, hkind'⟩
  · obtain rfl : op = op' := by
      rw [hkind] at hkind'
      exact TokenKind.conv.inj hkind'
    exact (hread.holds_conv (by rw [hvoice]; exact List.mem_cons_self)).bytes
  · rw [hkind] at hkind'
    cases hkind'

/-- A conversation is tokenized, or its bytes are at fault. -/
theorem ofData_tokenizeConv (s : Script) (index : Nat) (capture : Bool) :
    OfData (s.tokenizeConv index capture).result :=
  ofData_tokenizeConv_of_namesClip fun _ ht => namesClip_of_mem_tokenizeConvPlain ht

end Script

end NovelScript
