import NovelScript.Script.Chunk
import NovelScript.Text.Case
import NovelScript.Text.Utf8

/-! # Listed tokens

Tokens as a reader sees them, with references resolved through their script file, and the chunks
that a token leads to. -/

namespace NovelScript

/-- A step from one chunk to another as a token gives it. What is left open is taken from the
chunk that the token stands in. -/
structure Edge where
  source : Option (String × Nat)
  script : Option String
  chunk : Option Nat
deriving DecidableEq, Repr

namespace Edge

/-- A step to another chunk of the same file. -/
def toChunk (chunk : Nat) : Edge := ⟨none, none, some chunk⟩

/-- A step to the first chunk of another file. -/
def toScript (script : String) : Edge := ⟨none, some script, some 0⟩

end Edge

/-- The file that a jump to a script leads to. -/
def scriptFileName (name : Bytes) : String :=
  Text.lower (Text.ofUtf8Lossy name) ++ ".scr"

namespace Operand

/-- An operand with its references resolved. -/
def listed (s : Script) : Operand → String
  | .value v => v.text
  | .u8 n => toString n
  | .u16 n => toString n
  | .s16 n => toString n
  | .bytes bs => bs.hexList
  | .event target =>
    if target.data then
      "es" ++ toString target.index ++ "('" ++
        Text.escaped (match s.eventChunk target.index.toNat with
          | .ok chunk => chunk.bytes
          | .error _ => []) ++ "')"
    else "es" ++ toString target.index
  | .filename target =>
    "fn" ++ toString target.index ++ "('" ++
      Text.escaped (match s.filename target.index.toNat with
        | .ok name => name
        | .error _ => []) ++ "')" ++
      match target.aux with
      | none => ""
      | some values => " aux [" ++ ", ".intercalate (values.map ActiveValue.text) ++ "]"
  | .conversation index =>
    match s.convTextLines index.toNat with
    | .ok lines => "cs" ++ toString index ++ "(" ++ Text.quotedList lines ++ ")"
    | .error _ => "cs" ++ toString index ++ "(?)"
  | .string bs => "'" ++ Text.escaped bs ++ "'"
  | .ascii bs => "'" ++ Text.escaped bs ++ "'"
  | .text t => Text.quoted t
  | .choice (.question id) => "question " ++ toString id
  | .choice (.candidate (some display) t) => Text.quoted t ++ " if " ++ display.text
  | .choice (.candidate none t) => Text.quoted t

end Operand

/-- An opcode and its operands. -/
def OpToken.listed {α : Type} (s : Script) (t : OpToken α) : String :=
  match t.operands.map (·.listed s) with
  | [] => t.label
  | operands => t.label ++ ": " ++ ", ".intercalate operands

namespace Token

/-- A token as a reader sees it. -/
def listed (s : Script) (t : Token) : String :=
  match t.kind with
  | .event op => op.listed s
  | .conv op => op.listed s
  | .text line => "text " ++ Text.quoted line
  | .textblock block =>
    "textblock " ++ Text.quotedList block.lines ++
      match block.voice with
      | .none => ""
      | .clip name => " voice '" ++ Text.escaped name ++ "'"
      | .pushed => " voice <pushed>"
  | .data view => "data (" ++ toString view.length ++ " bytes)"

/-- The bytes of the event chunk that operands refer to first for its bytes. -/
def dataOf (s : Script) (operands : List Operand) : Bytes :=
  (operands.findSome? fun
    | .event target =>
      if target.data then (s.eventChunk target.index.toNat).toOption.map View.bytes else none
    | _ => none).getD []

/-- Pairs of bytes as numbers, lowest byte first. -/
def pairs : Bytes → List Nat
  | a :: b :: rest => (a.toNat + 256 * b.toNat) :: pairs rest
  | _ => []

/-- The name that stands for no script. -/
def debugName : Bytes := [0x64, 0x65, 0x62, 0x75, 0x67]

/-- The steps that an action adds to those of the code references. -/
def actionEdges (s : Script) (op : OpToken EventAction) : List Edge :=
  match op.definition.action with
  | .scriptLink =>
    let name := (dataOf s op.operands).trimNulls
    if name = [] ∨ name = debugName then [] else [.toScript (scriptFileName name)]
  | .jumpTable => (pairs (dataOf s op.operands)).map .toChunk
  | .fileJump | .returnableFileJump =>
    (op.operands.findSome? fun
      | .string name => some name
      | _ => none).toList.map fun name => .toScript (scriptFileName name)
  | _ => []

/-- The steps that a token leads to. -/
def edges (s : Script) (t : Token) : List Edge :=
  match t.kind with
  | .event op =>
    (op.operands.filterMap fun
      | .event target => if target.data then none else some (.toChunk target.index.toNat)
      | _ => none) ++ actionEdges s op
  | _ => []

end Token

end NovelScript
