import NovelScript.ActiveValue.Printer
import NovelScript.Bytes.View
import NovelScript.Opcode.Action

/-! # Tokens

What the chunks of a script decode to: opcodes with their operands, text, and blocks of text that
are shown together. -/

namespace NovelScript

/-- A reference to an event chunk, for its code or for its bytes. -/
structure EventRef where
  index : UInt16
  data : Bool
deriving DecidableEq, Repr

/-- A reference to a filename, with four values where any of them holds something. -/
structure FilenameRef where
  index : UInt16
  aux : Option (List ActiveValue)
deriving DecidableEq, Repr

/-- A part of a choice. -/
inductive ChoiceEntry where
  /-- Opens a choice. -/
  | question (id : UInt16)
  /-- A candidate; `display` decides whether it is offered. -/
  | candidate (display : Option ActiveValue) (text : String)
deriving DecidableEq, Repr

/-- An operand of an opcode. -/
inductive Operand where
  | value (value : ActiveValue)
  | u8 (value : UInt8)
  | u16 (value : UInt16)
  | s16 (value : Int16)
  | bytes (bytes : Bytes)
  | event (target : EventRef)
  | filename (target : FilenameRef)
  | conversation (index : UInt16)
  | string (bytes : Bytes)
  | text (text : String)
  | ascii (bytes : Bytes)
  | choice (entry : ChoiceEntry)
deriving DecidableEq, Repr

/-- Bytes as a list of numbers. -/
def numberList (bytes : Bytes) : String :=
  "[" ++ ", ".intercalate (bytes.map toString) ++ "]"

def EventRef.structureText (target : EventRef) : String :=
  "EsRef \x7b index: " ++ toString target.index ++ ", data: " ++ toString target.data ++ " \x7d"

def FilenameRef.structureText (target : FilenameRef) : String :=
  "FnRef \x7b index: " ++ toString target.index ++ ", aux: " ++
    (match target.aux with
      | none => "None"
      | some values =>
        "Some([" ++ ", ".intercalate (values.map ActiveValue.structureText) ++ "])") ++ " \x7d"

/-- A conversation reference with all its parts. -/
def conversationStructure (index : UInt16) : String :=
  "ConvRef \x7b index: " ++ toString index ++ " \x7d"

def ChoiceEntry.structureText : ChoiceEntry → String
  | .question id => "Question \x7b id: " ++ toString id ++ " \x7d"
  | .candidate display text =>
    "Option \x7b display: " ++
      (match display with
        | none => "None"
        | some value => "Some(" ++ value.structureText ++ ")") ++
      ", text: " ++ Text.quoted text ++ " \x7d"

/-- An operand with all its parts. -/
def Operand.structureText : Operand → String
  | .value v => "Av(" ++ v.structureText ++ ")"
  | .u8 n => "U8(" ++ toString n ++ ")"
  | .u16 n => "U16(" ++ toString n ++ ")"
  | .s16 n => "S16(" ++ toString n ++ ")"
  | .bytes bs => "Bytes(" ++ numberList bs ++ ")"
  | .event target => "Esr(" ++ target.structureText ++ ")"
  | .filename target => "Fnr(" ++ target.structureText ++ ")"
  | .conversation index => "Convr(" ++ conversationStructure index ++ ")"
  | .string bs => "CStr(" ++ numberList bs ++ ")"
  | .text t => "Text(" ++ Text.quoted t ++ ")"
  | .ascii bs => "Ascii(" ++ numberList bs ++ ")"
  | .choice entry => "Choice(" ++ entry.structureText ++ ")"

/-- An opcode with its operands. -/
structure OpToken (α : Type) where
  path : OpcodePath
  definition : OpcodeDef α
  operands : List Operand
deriving DecidableEq, Repr

namespace OpToken

variable {α : Type}

/-- The opcode bytes and the name. -/
def label (t : OpToken α) : String := t.path.text ++ " " ++ t.definition.name

/-- The operand at a place. -/
def operand (t : OpToken α) (index : Nat) : Except Fault Operand :=
  match t.operands[index]? with
  | some operand => .ok operand
  | none => .error (.state (.noOperand t.label index))

/-- The fault of an operand that is not of the kind asked for. -/
def wrongKind {β : Type} (t : OpToken α) (index : Nat) (wanted : String) (found : Operand) :
    Except Fault β :=
  .error (.state (.operandKind t.label index wanted found.structureText))

def value (t : OpToken α) (index : Nat) : Except Fault ActiveValue := do
  match ← t.operand index with
  | .value v => return v
  | other => t.wrongKind index "an active value" other

def u8 (t : OpToken α) (index : Nat) : Except Fault UInt8 := do
  match ← t.operand index with
  | .u8 v => return v
  | other => t.wrongKind index "a byte" other

def event (t : OpToken α) (index : Nat) : Except Fault EventRef := do
  match ← t.operand index with
  | .event target => return target
  | other => t.wrongKind index "an event-script reference" other

def conversation (t : OpToken α) (index : Nat) : Except Fault UInt16 := do
  match ← t.operand index with
  | .conversation target => return target
  | other => t.wrongKind index "a conversation reference" other

def filename (t : OpToken α) (index : Nat) : Except Fault FilenameRef := do
  match ← t.operand index with
  | .filename target => return target
  | other => t.wrongKind index "a filename reference" other

/-- The bytes of a string, a name or a fixed run. -/
def bytes (t : OpToken α) (index : Nat) : Except Fault Bytes := do
  match ← t.operand index with
  | .string bs | .ascii bs | .bytes bs => return bs
  | other => t.wrongKind index "a byte string" other

def text (t : OpToken α) (index : Nat) : Except Fault String := do
  match ← t.operand index with
  | .text t => return t
  | other => t.wrongKind index "text" other

def choice (t : OpToken α) (index : Nat) : Except Fault ChoiceEntry := do
  match ← t.operand index with
  | .choice entry => return entry
  | other => t.wrongKind index "a choice entry" other

/-- The event chunk that the first code reference among the operands names. -/
def jumpTarget? (t : OpToken α) : Option Nat :=
  t.operands.findSome? fun
    | .event target => if target.data then none else some target.index.toNat
    | _ => none

end OpToken

/-- Where the voice of a block of text comes from. -/
inductive VoiceSource where
  | none
  /-- A voice token inside the block names it. -/
  | clip (name : Bytes)
  /-- The event script has named it before the block is shown. -/
  | pushed
deriving DecidableEq, Repr

/-- Lines that are shown together. -/
structure Textblock where
  lines : List String
  voice : VoiceSource
deriving DecidableEq, Repr

/-- What a token is. -/
inductive TokenKind where
  | event (op : OpToken EventAction)
  | conv (op : OpToken ConvAction)
  | text (text : String)
  | textblock (block : Textblock)
  /-- A chunk that is only referred to for its bytes. -/
  | data (view : View)
deriving DecidableEq, Repr

/-- A token, the offset of its first byte, and its bytes where they were asked for. -/
structure Token where
  offset : Nat
  raw : Option View
  kind : TokenKind
deriving DecidableEq, Repr

/-- What statistics count as one kind of token. -/
inductive TokenType where
  | data
  | op (path : OpcodePath)
  | text
  | textblock
deriving DecidableEq, Repr

namespace TokenType

def label : TokenType → String
  | .data => "data"
  | .op path => path.text
  | .text => "text"
  | .textblock => "textblock"

/-- The place of a type in listings: data, the opcodes, text, blocks of text. -/
def rank : TokenType → Nat
  | .data => 0
  | .op path => 1 + path.rank
  | .text => 70000
  | .textblock => 70001

end TokenType

namespace Token

def type (t : Token) : TokenType :=
  match t.kind with
  | .event op => .op op.path
  | .conv op => .op op.path
  | .text _ => .text
  | .textblock _ => .textblock
  | .data _ => .data

/-- What a conversation token does. -/
def convAction? (t : Token) : Option ConvAction :=
  match t.kind with
  | .conv op => some op.definition.action
  | _ => none

/-- Whether a row of a listing ends after the token. -/
def breaks (t : Token) : Bool :=
  match t.kind with
  | .event op => op.definition.breaks
  | .conv op => op.definition.breaks
  | .text _ => false
  | .textblock _ | .data _ => true

/-- Whether the chunk ends with the token. -/
def endsChunk (t : Token) : Bool :=
  match t.kind with
  | .event op => op.definition.endsChunk
  | _ => false

/-- The lines that a token shows. -/
def textLines (t : Token) : List String :=
  match t.kind with
  | .text line => [line]
  | .textblock block => block.lines
  | .conv op => op.operands.filterMap fun
    | .text line => some line
    | .choice (.candidate _ line) => some line
    | _ => none
  | .event _ | .data _ => []

end Token

end NovelScript
