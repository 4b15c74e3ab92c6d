import NovelScript.Proofs.Script.Progress
import NovelScript.Script.Chunk

/-! # Faults of reading

A place is put around a fault by the player alone, when playback stops at a token. What comes of
reading a script file, of decoding its operands and of evaluating a value is never a fault with a
place around it, so that a player can tell by the outermost cause what has gone wrong. And it is a
fault of bytes and values: that an opcode lacks an operand is told only where one is asked for. -/

namespace NovelScript

/-- Whether the fault has a place around it. -/
def Fault.isPlaced : Fault → Bool
  | .at .. => true
  | _ => false

/-- A fault without a place around it is its own root. -/
theorem Fault.root_eq_self {fault : Fault} (h : fault.isPlaced = false) : fault.root = fault := by
  cases fault with
  | «at» place cause => cases h
  | _ => rfl

/-! ## Outcomes -/

/-- An outcome whose fault, if it is one, has a property. -/
def Tells (P : Fault → Prop) {α : Type} : Except Fault α → Prop
  | .ok _ => True
  | .error fault => P fault

namespace Tells

variable {P Q : Fault → Prop} {α β : Type}

theorem ok (a : α) : Tells P (.ok a) := trivial

theorem mono (hPQ : ∀ fault, P fault → Q fault) {x : Except Fault α} (hx : Tells P x) :
    Tells Q x := by
  cases x with
  | error fault => exact hPQ fault hx
  | ok a => trivial

theorem bind {x : Except Fault α} {f : α → Except Fault β} (hx : Tells P x)
    (hf : ∀ a, Tells P (f a)) : Tells P (x >>= f) := by
  cases x with
  | error fault => exact hx
  | ok a => exact hf a

theorem map {x : Except Fault α} {f : α → β} (hx : Tells P x) : Tells P (x.map f) := by
  cases x with
  | error fault => exact hx
  | ok a => trivial

theorem ite {p : Prop} [Decidable p] {x y : Except Fault α} (hx : Tells P x) (hy : Tells P y) :
    Tells P (if p then x else y) := by
  by_cases h : p
  · rwa [if_pos h]
  · rwa [if_neg h]

theorem mapM {f : α → Except Fault β} (hf : ∀ a, Tells P (f a)) (list : List α) :
    Tells P (list.mapM f) := by
  induction list with
  | nil => exact ok []
  | cons a rest ih =>
    rw [List.mapM_cons]
    exact (hf a).bind fun _ => ih.bind fun _ => ok _

theorem foldlM {f : β → α → Except Fault β} (hf : ∀ b a, Tells P (f b a)) (list : List α)
    (start : β) : Tells P (list.foldlM f start) := by
  induction list generalizing start with
  | nil => exact ok start
  | cons a rest ih =>
    rw [List.foldlM_cons]
    exact (hf start a).bind ih

end Tells

/-- A computation whose faults have a property, whatever state it starts from. -/
def AlwaysTells (P : Fault → Prop) {σ α : Type} (x : ExceptT Fault (StateM σ) α) : Prop :=
  ∀ s, Tells P (x s).1

namespace AlwaysTells

variable {P Q : Fault → Prop} {σ α β : Type}

theorem mono (hPQ : ∀ fault, P fault → Q fault) {x : ExceptT Fault (StateM σ) α}
    (hx : AlwaysTells P x) : AlwaysTells Q x :=
  fun s => (hx s).mono hPQ

theorem pure (a : α) : AlwaysTells P (Pure.pure a : ExceptT Fault (StateM σ) α) :=
  fun _ => trivial

theorem bind {x : ExceptT Fault (StateM σ) α} {f : α → ExceptT Fault (StateM σ) β}
    (hx : AlwaysTells P x) (hf : ∀ a, AlwaysTells P (f a)) : AlwaysTells P (x >>= f) := by
  intro s
  have hfirst := hx s
  rw [bind_apply]
  rcases hrun : x s with ⟨outcome, s'⟩
  rw [hrun] at hfirst
  cases outcome with
  | error fault => exact hfirst
  | ok a => exact hf a s'

theorem map {x : ExceptT Fault (StateM σ) α} {f : α → β} (hx : AlwaysTells P x) :
    AlwaysTells P (do return f (← x)) :=
  hx.bind fun _ => pure _

theorem ite {p : Prop} [Decidable p] {x y : ExceptT Fault (StateM σ) α} (hx : AlwaysTells P x)
    (hy : AlwaysTells P y) : AlwaysTells P (if p then x else y) := by
  by_cases h : p
  · rwa [if_pos h]
  · rwa [if_neg h]

/-- Going on behind either of two computations. -/
theorem joining {p : Prop} [Decidable p] {x y : ExceptT Fault (StateM σ) α}
    {f : α → ExceptT Fault (StateM σ) β} (hf : ∀ a, AlwaysTells P (f a))
    (hx : p → AlwaysTells P x) (hy : AlwaysTells P y) :
    AlwaysTells P (if p then x >>= f else y >>= f) := by
  by_cases h : p
  · rw [if_pos h]
    exact (hx h).bind hf
  · rw [if_neg h]
    exact hy.bind hf

end AlwaysTells

/-- Whether a fault comes of bytes or of values alone, and not of playback. -/
def Fault.isOfData : Fault → Bool
  | .bounds .. | .unknownOpcode .. | .invalidData .. | .undecodable .. | .malformedValue _
  | .evaluation _ | .reference .. | .container _ => true
  | _ => false

/-- Whether a fault says that a token lacks an operand that is taken from it, or a chunk to go
to. -/
def Fault.isOfOperands : Fault → Bool
  | .state (.noOperand ..) | .state (.operandKind ..) | .state (.noJumpTarget _) => true
  | _ => false

/-- An outcome that is no fault of playback. -/
abbrev OfData {α : Type} (x : Except Fault α) : Prop :=
  Tells (fun fault => fault.isOfData = true) x

/-- A computation that ends in no fault of playback. -/
abbrev AlwaysOfData {σ α : Type} (x : ExceptT Fault (StateM σ) α) : Prop :=
  AlwaysTells (fun fault => fault.isOfData = true) x

/-- An outcome that is no fault but one of operands. -/
abbrev OfOperands {α : Type} (x : Except Fault α) : Prop :=
  Tells (fun fault => fault.isOfOperands = true) x

/-- An outcome whose fault, if it is one, says nothing of a token: neither where it stands nor what
is wrong with its operands. -/
abbrev OffToken {α : Type} (x : Except Fault α) : Prop :=
  Tells (fun fault => fault.isPlaced = false ∧ fault.isOfOperands = false) x

/-- A computation whose faults say nothing of a token. -/
abbrev AlwaysOffToken {σ α : Type} (x : ExceptT Fault (StateM σ) α) : Prop :=
  AlwaysTells (fun fault => fault.isPlaced = false ∧ fault.isOfOperands = false) x

/-- An outcome that is no fault with a place around it. -/
def Unplaced {α : Type} : Except Fault α → Prop
  | .ok _ => True
  | .error fault => fault.isPlaced = false

/-- A computation that ends in no fault with a place around it, whatever state it starts from. -/
def NeverPlaced {σ α : Type} (x : ExceptT Fault (StateM σ) α) : Prop := ∀ s, Unplaced (x s).1

theorem OffToken.unplaced {α : Type} {x : Except Fault α} (h : OffToken x) : Unplaced x :=
  h.mono fun _ hfault => hfault.1

theorem Fault.isPlaced_of_isOfOperands {fault : Fault} (h : fault.isOfOperands = true) :
    fault.isPlaced = false := by
  cases fault with
  | «at» place cause => cases h
  | _ => rfl

theorem OfOperands.unplaced {α : Type} {x : Except Fault α} (h : OfOperands x) : Unplaced x :=
  h.mono fun _ => Fault.isPlaced_of_isOfOperands

theorem OfData.offToken {α : Type} {x : Except Fault α} (h : OfData x) : OffToken x :=
  h.mono fun fault hfault => by
    cases fault with
    | «at» place cause => cases hfault
    | state flaw => cases hfault
    | _ => exact ⟨rfl, rfl⟩

theorem AlwaysOfData.offToken {σ α : Type} {x : ExceptT Fault (StateM σ) α}
    (h : AlwaysOfData x) : AlwaysOffToken x :=
  fun s => OfData.offToken (h s)

theorem AlwaysOfData.neverPlaced {σ α : Type} {x : ExceptT Fault (StateM σ) α}
    (h : AlwaysOfData x) : NeverPlaced x :=
  fun s => OffToken.unplaced (h.offToken s)

/-! ## Evaluation -/

/-- A context that answers without a place. -/
class DataContext (σ : Type) [ValueContext σ] : Prop where
  readCell : ∀ (s : σ) address, OfData (ValueContext.readCell s address)
  writeCell : ∀ (s : σ) address value, OfData (ValueContext.writeCell s address value)
  draw : ∀ (s : σ) bound, OfData (ValueContext.draw s bound)

instance : DataContext NoState := ⟨fun _ _ => rfl, fun _ _ _ => rfl, fun _ _ => rfl⟩

theorem Arithmetic.ofData_apply (operation : Arithmetic) (a b : Int64) :
    OfData (operation.apply a b) := by
  cases operation with
  | div => exact .ite rfl trivial
  | mod => exact .ite rfl (.ite trivial trivial)
  | shl => exact .ite rfl (.ite trivial trivial)
  | shr => exact .ite rfl (.ite trivial trivial)
  | _ => trivial

section Evaluation

open Evaluation

variable {σ : Type} [ValueContext σ] [DataContext σ]

theorem Evaluation.ofData_readCell (address : Int64) :
    AlwaysOfData (readCell address : Evaluation σ Int64) :=
  fun s => DataContext.readCell s address

theorem Evaluation.ofData_writeCell (address value : Int64) :
    AlwaysOfData (writeCell address value : Evaluation σ Unit) := by
  intro s
  have hwrite := DataContext.writeCell s address value
  simp only [writeCell]
  cases hcell : ValueContext.writeCell s address value with
  | ok s' => trivial
  | error fault => rwa [hcell] at hwrite

theorem Evaluation.ofData_draw (bound : Int64) :
    AlwaysOfData (draw bound : Evaluation σ Int64) := by
  intro s
  have hdraw := DataContext.draw s bound
  simp only [draw]
  cases hdrawn : ValueContext.draw s bound with
  | ok result => trivial
  | error fault => rwa [hdrawn] at hdraw

theorem Element.ofData_eval (e : Element) : AlwaysOfData (e.eval : Evaluation σ Int64) := by
  induction e with
  | literal value => exact .pure _
  | operator op p => exact fun _ => rfl
  | unary op p x ih =>
    refine ih.bind fun a => .ite (ofData_readCell a) (.ite ?_ (.ite (ofData_draw a) ?_))
    · exact fun _ => Tells.ite trivial rfl
    · exact fun _ => rfl
  | binary op p x y ihx ihy =>
    refine ihx.bind fun a => ihy.bind fun b => ?_
    unfold applyBinary
    split
    · exact fun _ => Arithmetic.ofData_apply _ a b
    · exact fun _ => rfl
  | memop op p target address value => exact fun _ => rfl
  | missing => exact fun _ => rfl

theorem Element.ofData_updated (op : UInt8) (current : Int64) (value : Element) :
    AlwaysOfData (updated op current value : Evaluation σ Int64) := by
  refine .ite (.pure _) (.ite (.pure _) (value.ofData_eval.bind fun operand => ?_))
  split
  · exact .pure _
  · exact fun _ => Arithmetic.ofData_apply _ current operand
  · exact fun _ => rfl

theorem Element.ofData_evalTop (e : Element) :
    AlwaysOfData (e.evalTop : Evaluation σ ValueResult) := by
  cases e with
  | memop op p target address value =>
    refine .ite (fun _ => rfl) (address.ofData_eval.bind fun cell => ?_)
    refine (ofData_readCell cell).bind fun current => ?_
    refine (ofData_updated op current value).bind fun content => ?_
    exact (ofData_writeCell cell content).bind fun _ => .pure _
  | _ => exact (ofData_eval _).bind fun _ => .pure _

theorem ActiveValue.ofData_evalAll (elements : List Element) :
    AlwaysOfData (evalAll elements : Evaluation σ (List ValueResult)) := by
  induction elements with
  | nil => exact .pure _
  | cons e rest ih => exact e.ofData_evalTop.bind fun _ => ih.bind fun _ => .pure _

theorem ActiveValue.ofData_evaluate (v : ActiveValue) (expected : Option Nat) :
    AlwaysOfData (v.evaluate expected : Evaluation σ (List ValueResult)) := by
  cases expected with
  | none => exact ofData_evalAll _
  | some asked => exact .ite (ofData_evalAll _) fun _ => rfl

theorem ValueResult.ofData_toNumber (result : ValueResult) : OfData result.toNumber := by
  cases result with
  | number value => trivial
  | write address value => rfl

theorem ActiveValue.ofData_evaluateOne (v : ActiveValue) :
    AlwaysOfData (v.evaluateOne : Evaluation σ Int64) := by
  refine (v.ofData_evaluate _).bind fun results => ?_
  split
  · exact fun _ => ValueResult.ofData_toNumber _
  · exact fun _ => rfl

end Evaluation

theorem ActiveValue.ofData_constantValues (v : ActiveValue) : OfData v.constantValues :=
  (v.ofData_evaluate none (NoState.mk)).bind fun results =>
    .mapM ValueResult.ofData_toNumber results

/-! ## Readers -/

namespace Reader

variable {α : Type}

theorem ofData_pos : AlwaysOfData pos := fun _ => trivial

theorem ofData_take (n : Nat) : AlwaysOfData (take n) := by
  intro c
  simp only [take]
  split
  · trivial
  · rfl

theorem ofData_nat (width : Nat) : AlwaysOfData (nat width) := (ofData_take width).map

theorem ofData_u8 : AlwaysOfData u8 := (ofData_nat 1).map

theorem ofData_u16 : AlwaysOfData u16 := (ofData_nat 2).map

theorem ofData_peek {r : Reader α} (h : AlwaysOfData r) : AlwaysOfData (peek r) := fun c => h c

theorem ofData_takeUntil (terminator : UInt8) : AlwaysOfData (takeUntil terminator) := by
  intro c
  simp only [takeUntil]
  split
  · trivial
  · rfl

theorem ofData_expect (expected : Bytes) : AlwaysOfData (expect expected) :=
  ofData_pos.bind fun _ => (ofData_take _).bind fun _ => .ite (.pure _) fun _ => rfl

theorem ofData_nulls (count : Nat) : AlwaysOfData (nulls count) :=
  ofData_pos.bind fun _ => (ofData_take _).bind fun _ => .ite (.pure _) fun _ => rfl

theorem ofData_rewind (n : Nat) : AlwaysOfData (rewind n) := by
  intro c
  simp only [rewind]
  split
  · trivial
  · rfl

theorem ofData_setEnd : AlwaysOfData setEnd := by
  intro c
  simp only [setEnd]
  split
  · trivial
  · rfl

theorem ofData_seek (view : View) (offset : Nat) : AlwaysOfData (seek view offset) := by
  intro c
  have htake := ofData_take offset (Cursor.ofView view)
  simp only [seek]
  rcases hrun : take offset (Cursor.ofView view) with ⟨outcome, c'⟩
  rw [hrun] at htake
  cases outcome with
  | error fault => exact htake
  | ok bytes => trivial

theorem ofData_nats (width count : Nat) : AlwaysOfData (nats width count) := by
  induction count with
  | zero => exact .pure _
  | succ count ih => exact (ofData_nat width).bind fun _ => ih.bind fun _ => .pure _

end Reader

theorem View.ofData_absolute (v : View) (offset length : Nat) :
    OfData (v.absolute offset length) := by
  unfold absolute
  split
  · trivial
  · rfl

/-! ## Operands -/

theorem Symbol.ofData_consTo {s : Symbol} {result : Except Fault (List Symbol × Bytes)}
    (h : OfData result) : OfData (consTo s result) := by
  cases result with
  | error fault => exact h
  | ok read => trivial

theorem Symbol.ofData_shortage (limit width : Nat) (rest : Bytes) :
    (shortage limit width rest).isOfData = true := by
  unfold shortage
  split
  · rfl
  · rfl

theorem Symbol.ofData_decode (limit : Nat) (bytes : Bytes) : OfData (decode limit bytes) := by
  fun_induction decode limit bytes with
  | case1 => rfl
  | case2 => trivial
  | case3 => rfl
  | case4 _ _ _ _ _ ih => exact ofData_consTo ih
  | case5 _ _ _ _ _ _ ih => exact ofData_consTo ih
  | case6 _ _ _ _ _ _ _ ih => exact ofData_consTo ih
  | case7 _ _ _ _ _ _ _ _ ih => exact ofData_consTo ih
  | case8 _ _ _ _ _ _ _ _ _ _ ih => exact ofData_consTo ih
  | case9 => exact ofData_shortage _ _ _

namespace ActiveValue

theorem ofData_servePass (level : UInt8) (done : List Element) (span : Nat)
    (ahead : List Element) : OfData (servePass level done span ahead) := by
  fun_induction servePass level done span ahead with
  | case1 => trivial
  | case2 => trivial
  | case3 => rfl
  | case4 _ _ _ _ _ _ _ _ _ _ _ ih => exact ih
  | case5 _ _ _ _ _ _ _ _ _ _ _ _ _ ih => exact ih
  | case6 _ _ _ _ _ _ ih => exact ih

theorem ofData_reduceStretch (elements : List Element) (span : Nat) :
    OfData (reduceStretch elements span) :=
  .map (.foldlM (fun _ level => (ofData_servePass level _ _ _).bind fun _ => .ok _) levels _)

theorem ofData_reduce (elements : List Element) : OfData (reduce elements) := by
  unfold reduce
  refine .ite rfl ?_
  split
  · exact (ofData_reduceStretch _ _).bind fun _ => .ok _
  · refine (ofData_reduceStretch _ _).bind fun _ => (ofData_reduceStretch _ _).bind fun _ => ?_
    simp only
    split
    · rfl
    · exact .ite (.ok _) rfl

theorem ofData_read : AlwaysOfData read := by
  intro c
  have hdecode := Symbol.ofData_decode c.limit c.rest
  simp only [read]
  cases hsymbols : Symbol.decode c.limit c.rest with
  | error fault => rwa [hsymbols] at hdecode
  | ok decoded => exact ofData_reduce _

end ActiveValue

namespace TextCodec

theorem ofData_decodeShiftJis (bytes : Bytes) (offset : Nat) :
    OfData (decodeShiftJis bytes offset) := by
  unfold decodeShiftJis
  split
  · trivial
  · rfl

theorem ofData_scan (codec : TextCodec) (start limit pos : Nat) (text : String)
    (pending rest : Bytes) : OfData (codec.scan start limit pos text pending rest).1 := by
  fun_induction scan codec start limit pos text pending rest with
  | case1 => rfl
  | case2 => exact (ofData_decodeShiftJis _ _).map
  | case3 => rfl
  | case4 => rfl
  | case5 => rfl
  | case6 pos text pending b _ _ _ _ _ _ _ fault hfault =>
    have hpending := ofData_decodeShiftJis pending start
    rwa [hfault] at hpending
  | case7 _ _ _ _ _ _ _ _ _ _ _ _ _ ih => exact ih
  | case8 _ _ _ _ _ _ _ ih => exact ih

theorem ofData_read (codec : TextCodec) : AlwaysOfData codec.read :=
  fun _ => codec.ofData_scan _ _ _ _ _ _

theorem ofData_readUntil (codec : TextCodec) (terminator : UInt8) :
    AlwaysOfData (codec.readUntil terminator) :=
  codec.ofData_read.bind fun _ =>
    .ite (.pure _) (Reader.ofData_pos.bind fun _ => fun _ => rfl)

theorem ofData_readOpen (codec : TextCodec) : AlwaysOfData codec.readOpen :=
  codec.ofData_read.bind fun _ => (Reader.ofData_rewind 1).bind fun _ => .pure _

end TextCodec

theorem OpcodeTable.ofData_lookup {α : Type} (t : OpcodeTable α) : AlwaysOfData t.lookup := by
  refine Reader.ofData_pos.bind fun offset => Reader.ofData_u8.bind fun first => ?_
  split
  · exact .pure _
  · refine Reader.ofData_u8.bind fun second => ?_
    split
    · exact .pure _
    · exact fun _ => rfl
  · exact fun _ => rfl

namespace Script

open Reader

theorem ofData_readIndex (table : TableKind) (count : Nat) :
    AlwaysOfData (readIndex table count) :=
  ofData_u16.bind fun _ => .ite (.pure _) fun _ => rfl

theorem ofData_readFilename (s : Script) : AlwaysOfData s.readFilename :=
  ActiveValue.ofData_read.bind fun _ => ActiveValue.ofData_read.bind fun _ =>
    ActiveValue.ofData_read.bind fun _ => ActiveValue.ofData_read.bind fun _ =>
      (ofData_readIndex _ _).bind fun _ => .pure _

theorem ofData_readAscii (s : Script) (terminator : UInt8) :
    AlwaysOfData (s.readAscii terminator) :=
  ofData_pos.bind fun _ => (s.title.codec.ofData_readUntil terminator).bind fun _ =>
    .ite (.pure _) fun _ => rfl

theorem ofData_readChoiceEntry (s : Script) : AlwaysOfData s.readChoiceEntry := by
  have htext := s.title.codec.ofData_readUntil candidateEnd
  refine ofData_pos.bind fun _ => ofData_u8.bind fun kind => ?_
  refine .ite ofData_u16.map (.ite htext.map (.ite ?_ fun _ => rfl))
  exact ActiveValue.ofData_read.bind fun _ => htext.map

theorem ofData_readValues (count : Nat) : AlwaysOfData (readValues count) := by
  induction count with
  | zero => exact .pure _
  | succ count ih => exact ActiveValue.ofData_read.bind fun _ => ih.bind fun _ => .pure _

theorem ofData_readZero : AlwaysOfData readZero := by
  refine ofData_pos.bind fun _ => ActiveValue.ofData_read.bind fun value => ?_
  have hconstant : AlwaysOfData (Reader.lift value.constantValues) :=
    fun _ => value.ofData_constantValues
  exact hconstant.bind fun _ => .ite (.pure _) fun _ => rfl

theorem ofData_readField (s : Script) (field : Field) : AlwaysOfData (s.readField field) := by
  cases field with
  | value => exact ActiveValue.ofData_read.map
  | values count => exact ofData_readValues count
  | zero => exact ofData_readZero.map
  | u8 => exact ofData_u8.map
  | u16 => exact ofData_u16.map
  | s16 => exact ofData_u16.map.map
  | bytes count => exact (ofData_take count).map
  | nulls count => exact (ofData_nulls count).bind fun _ => .pure _
  | constant expected => exact (ofData_expect expected).bind fun _ => .pure _
  | event => exact (ofData_readIndex _ _).map
  | eventData => exact (ofData_readIndex _ _).map
  | filename => exact s.ofData_readFilename.map
  | conversation => exact (ofData_readIndex _ _).map
  | string terminator => exact (ofData_takeUntil terminator).map
  | text terminator => exact (s.title.codec.ofData_readUntil terminator).map
  | textOpen => exact s.title.codec.ofData_readOpen.map
  | ascii terminator => exact (s.ofData_readAscii terminator).map
  | choiceEntry => exact s.ofData_readChoiceEntry.map
  | stop => exact ofData_setEnd.bind fun _ => .pure _

theorem ofData_readShape (s : Script) (shape : List Field) (c : Cursor) :
    ∀ fault ∈ (s.readShape shape c).fault, fault.isOfData = true := by
  induction shape generalizing c with
  | nil => rintro fault ⟨⟩
  | cons field shape ih =>
    have hfield := s.ofData_readField field c
    intro fault hfault
    simp only [readShape, Reader.runOn] at hfault
    rcases hrun : s.readField field c with ⟨outcome, c'⟩
    rw [hrun] at hfield hfault
    cases outcome with
    | error cause =>
      cases hfault
      exact hfield
    | ok operands => exact ih c' fault hfault

/-! ## Chunks -/

theorem ofData_captured (capture : Bool) (start : Nat) (c : Cursor) :
    OfData (captured capture start c) :=
  .ite (c.view.ofData_absolute _ _).map (.ok _)

theorem ofData_readOp {α : Type} (s : Script) (table : OpcodeTable α)
    (kind : OpToken α → TokenKind) (capture : Bool) (c : Cursor) :
    OfData (s.readOp table kind capture c).outcome := by
  have hlookup := table.ofData_lookup c
  simp only [readOp, Reader.runOn]
  rcases hrun : table.lookup c with ⟨outcome, after⟩
  rw [hrun] at hlookup
  cases outcome with
  | error fault => exact hlookup
  | ok found =>
    obtain ⟨path, definition⟩ := found
    have hshape := s.ofData_readShape definition.shape after
    simp only
    cases hfault : (s.readShape definition.shape after).fault with
    | some fault => exact hshape fault hfault
    | none =>
      have hraw := ofData_captured capture c.pos (s.readShape definition.shape after).cursor
      simp only
      cases hcaptured : captured capture c.pos (s.readShape definition.shape after).cursor with
      | error fault => rwa [hcaptured] at hraw
      | ok raw => trivial

theorem ofData_readTextRun (s : Script) (capture : Bool) (c : Cursor) :
    OfData (s.readTextRun capture c) := by
  have htext := s.title.codec.ofData_readOpen c
  simp only [readTextRun, Reader.runOn]
  rcases hrun : s.title.codec.readOpen c with ⟨outcome, after⟩
  rw [hrun] at htext
  cases outcome with
  | error fault => exact htext
  | ok text => exact (ofData_captured _ _ _).bind fun _ => .ok _

theorem ofData_readConvToken (s : Script) (capture : Bool) (c : Cursor) :
    OfData (s.readConvToken capture c).outcome := by
  have hop := s.ofData_readOp s.title.convTable .conv capture c
  simp only [readConvToken]
  split
  · split
    · split
      · exact s.ofData_readTextRun capture c
      · rfl
    · rfl
  · exact hop

theorem ofData_readTokens {readToken : Cursor → TokenRead}
    (h : ∀ c, OfData (readToken c).outcome) (fuel : Nat) (c : Cursor) :
    ∀ fault ∈ (readTokens readToken fuel c).fault, fault.isOfData = true := by
  induction fuel generalizing c with
  | zero => rintro fault ⟨⟩
  | succ fuel ih =>
    have htoken := h c
    intro fault hfault
    simp only [readTokens] at hfault
    split at hfault
    · cases hfault
    · split at hfault
      · rename_i cause hcause
        cases hfault
        rwa [hcause] at htoken
      · exact ih _ fault hfault

theorem ofData_chunkAt (table : TableKind) (chunks : List View) (index : Nat) :
    OfData (chunkAt table chunks index) := by
  unfold chunkAt
  split
  · trivial
  · rfl

theorem ofData_filename (s : Script) (index : Nat) : OfData (s.filename index) :=
  (ofData_chunkAt _ _ _).map

end Script

theorem Tokenized.ofData_result {t : Tokenized} (h : ∀ fault ∈ t.fault, fault.isOfData = true) :
    OfData t.result := by
  unfold result
  split
  · trivial
  · rename_i fault hfault
    exact h fault hfault

theorem Script.ofData_tokenizeEvent (s : Script) (known : DataChunks) (index : Nat)
    (capture : Bool) : OfData (s.tokenizeEvent known index capture).result := by
  have hchunk := ofData_chunkAt .event s.events index
  refine Tokenized.ofData_result fun fault hfault => ?_
  simp only [tokenizeEvent, eventChunk] at hfault
  split at hfault
  · rename_i cause hcause
    cases hfault
    rwa [hcause] at hchunk
  · split at hfault
    · cases hfault
    · exact ofData_readTokens (fun _ => s.ofData_readOp _ _ _ _) _ _ fault hfault

/-! ## Operands of a token -/

namespace OpToken

variable {α : Type} (op : OpToken α) (index : Nat)

theorem ofOperands_operand : OfOperands (op.operand index) := by
  unfold operand
  split
  · trivial
  · rfl

theorem ofOperands_value : OfOperands (op.value index) := by
  refine (op.ofOperands_operand index).bind fun found => ?_
  split
  · trivial
  · rfl

theorem ofOperands_u8 : OfOperands (op.u8 index) := by
  refine (op.ofOperands_operand index).bind fun found => ?_
  split
  · trivial
  · rfl

theorem ofOperands_conversation : OfOperands (op.conversation index) := by
  refine (op.ofOperands_operand index).bind fun found => ?_
  split
  · trivial
  · rfl

theorem ofOperands_filename : OfOperands (op.filename index) := by
  refine (op.ofOperands_operand index).bind fun found => ?_
  split
  · trivial
  · rfl

theorem ofOperands_bytes : OfOperands (op.bytes index) := by
  refine (op.ofOperands_operand index).bind fun found => ?_
  split
  · trivial
  · trivial
  · trivial
  · rfl

theorem ofOperands_text : OfOperands (op.text index) := by
  refine (op.ofOperands_operand index).bind fun found => ?_
  split
  · trivial
  · rfl

theorem ofOperands_choice : OfOperands (op.choice index) := by
  refine (op.ofOperands_operand index).bind fun found => ?_
  split
  · trivial
  · rfl

end OpToken

/-! ## Blocks of text -/

/-- A voice token has the name of its clip as its first operand. -/
def Token.NamesClip (t : Token) : Prop :=
  ∀ op, t.kind = .conv op → op.definition.action = .voice → ∃ name, op.bytes 0 = .ok name

namespace Textblock

theorem ofData_clipOf {members : List Token} (h : ∀ t ∈ members, t.NamesClip)
    (found : Option Bytes) : OfData (clipOf found members) := by
  induction members generalizing found with
  | nil => trivial
  | cons t rest ih =>
    have hrest := ih fun t ht => h t (List.mem_cons_of_mem _ ht)
    simp only [clipOf]
    split
    · rename_i op hkind
      by_cases hvoice : op.definition.action = .voice
      · rw [if_pos hvoice]
        split
        · rfl
        · obtain ⟨name, hname⟩ := h t List.mem_cons_self op hkind hvoice
          rw [hname]
          exact hrest (some name)
      · rw [if_neg hvoice]
        exact hrest found
    · exact hrest found

theorem ofData_replacement (g : Grouping) (first : Token) (others : List Token)
    {lineTokens : List Token} (h : ∀ t ∈ lineTokens, t.NamesClip) :
    OfData (replacement g first others lineTokens) :=
  (ofData_clipOf h none).bind fun _ => .ite (.ok _) (.ok _)

theorem ofData_group (g : Grouping) {tokens : List Token} (h : ∀ t ∈ tokens, t.NamesClip) :
    OfData (group g tokens) := by
  fun_induction group g tokens with
  | case1 => trivial
  | case2 first rest _ _ ih =>
    have hrest : ∀ t ∈ rest, t.NamesClip := fun t ht => h t (List.mem_cons_of_mem _ ht)
    refine (ofData_replacement _ _ _ fun t ht => ?_).bind fun _ => (ih ?_).bind fun _ => .ok _
    · exact hrest t ((List.takeWhile_prefix _).subset ht)
    · exact fun t ht => hrest t ((List.dropWhile_suffix _).subset ht)
  | case3 first rest _ _ _ ih =>
    have hrest : ∀ t ∈ rest, t.NamesClip := fun t ht => h t (List.mem_cons_of_mem _ ht)
    refine (ofData_replacement _ _ _ fun t ht => ?_).bind fun _ => (ih ?_).bind fun _ => .ok _
    · rcases List.mem_cons.mp ht with rfl | ht
      · exact h t List.mem_cons_self
      · exact hrest t ((List.takeWhile_prefix _).subset ht)
    · exact fun t ht => hrest t ((List.dropWhile_suffix _).subset ht)
  | case4 first rest _ _ ih =>
    exact (ih fun t ht => h t (List.mem_cons_of_mem _ ht)).bind fun _ => .ok _

end Textblock

/-- A conversation whose voice tokens name their clips is tokenized, or its bytes are at fault. -/
theorem Script.ofData_tokenizeConv_of_namesClip {s : Script} {index : Nat} {capture : Bool}
    (h : ∀ t ∈ (s.tokenizeConvPlain index capture).tokens, t.NamesClip) :
    OfData (s.tokenizeConv index capture).result := by
  have hchunk := ofData_chunkAt .conversation s.convs index
  have hplain : ∀ fault ∈ (s.tokenizeConvPlain index capture).fault, fault.isOfData = true := by
    intro fault hfault
    simp only [tokenizeConvPlain, convChunk] at hfault
    split at hfault
    · rename_i cause hcause
      cases hfault
      rwa [hcause] at hchunk
    · exact ofData_readTokens (s.ofData_readConvToken capture) _ _ fault hfault
  refine Tokenized.ofData_result fun fault hfault => ?_
  simp only [tokenizeConv] at hfault
  split at hfault
  · exact hplain fault hfault
  · have hgroup := Textblock.ofData_group s.title.grouping h
    split at hfault
    · exact hplain fault hfault
    · rename_i cause hcause
      cases hfault
      rwa [hcause] at hgroup

/-! ## Script files -/

namespace Script

open Reader

theorem ofData_readOffsets (base : Nat) (limit : Option Nat) (heuristic : Bool) :
    AlwaysOfData (readOffsets base limit heuristic) := by
  have hrest (relative : Nat) : AlwaysOfData (do
      let stop := relative + base
      let start ← Reader.pos
      if stop < start then Reader.fail (.container (.tableEnd start stop))
      else
        let span := stop - start
        let dropped := if limit.isNone && heuristic && span % entrySize != 0 then 1 else 0
        Reader.nats entrySize (span / entrySize - dropped) : Reader (List Nat)) :=
    ofData_pos.bind fun _ => .ite (fun _ => rfl) (ofData_nats _ _)
  cases limit with
  | some limit => exact hrest limit
  | none => exact (ofData_peek (ofData_nat entrySize)).bind hrest

theorem ofData_chunksFrom (view : View) (stop index : Nat) (offsets : List Nat) :
    OfData (chunksFrom view stop index offsets) := by
  induction offsets generalizing index with
  | nil => trivial
  | cons start rest ih =>
    simp only [chunksFrom]
    exact .ite rfl ((view.ofData_absolute _ _).bind fun _ => (ih _).bind fun _ => .ok _)

theorem ofData_chunks (view : View) (offsets : List Nat) (stop : Nat) :
    AlwaysOfData (Reader.lift (chunks view offsets stop)) :=
  fun _ => ofData_chunksFrom view stop 0 offsets

theorem ofData_readTables (view : View) (options : ParseOptions)
    (convTable filenameTable : Nat) :
    AlwaysOfData (readTables view options convTable filenameTable) := by
  refine .ite (.pure _) ((ofData_seek _ _).bind fun _ => ?_)
  refine (ofData_readOffsets _ _ _).bind fun convOffsets => ?_
  refine .ite ((ofData_chunks _ _ _).bind fun _ => .pure _) ?_
  refine (ofData_seek _ _).bind fun _ => (ofData_readOffsets _ _ _).bind fun _ => ?_
  exact (ofData_chunks _ _ _).bind fun _ => (ofData_chunks _ _ _).bind fun _ => .pure _

/-- Whatever is wrong with a script file is told without a place. -/
theorem ofData_parse (view : View) (name : String) (title : Title) (options : ParseOptions) :
    OfData (parse view name title options) := by
  have hmagic : AlwaysOfData
      ((Reader.expect magic).mapFault fun _ => .container (.noMagic name)) := by
    intro c
    simp only [Reader.mapFault]
    split
    · rfl
    · trivial
  have hread : AlwaysOfData (read view name title options) := by
    refine hmagic.bind fun _ => ?_
    refine (ofData_nat _).bind fun _ => (ofData_nat _).bind fun _ => ?_
    refine .ite (fun _ => rfl) ((ofData_readOffsets _ _ _).bind fun _ => ?_)
    refine (ofData_chunks _ _ _).bind fun _ => ?_
    exact (ofData_readTables _ _ _ _).bind fun _ => .pure _
  exact hread _

end Script

end NovelScript
