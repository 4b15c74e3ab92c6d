import NovelScript.Bytes.Hex

/-! # Operand shapes

A shape is the list of reads that decode the operands of an opcode. -/

namespace NovelScript

/-- One read of an operand shape. -/
inductive Field where
  /-- An active value. -/
  | value
  | values (count : Nat)
  /-- An active value that has to be the constant zero. -/
  | zero
  | u8
  | u16
  | s16
  | bytes (count : Nat)
  | nulls (count : Nat)
  | constant (expected : Bytes)
  /-- A reference to an event chunk. -/
  | event
  /-- A reference to an event chunk that holds data and no code. -/
  | eventData
  | filename
  | conversation
  /-- Bytes up to a terminator. -/
  | string (terminator : UInt8)
  | text (terminator : UInt8)
  /-- Text whose terminator stays unread. -/
  | textOpen
  | ascii (terminator : UInt8)
  | choiceEntry
  /-- The chunk ends here. -/
  | stop
deriving DecidableEq, Repr

/-- The name of a read in listings. -/
def Field.label : Field → String
  | .value => "Av"
  | .values count => "AvN(" ++ toString count ++ ")"
  | .zero => "AvZero"
  | .u8 => "U8"
  | .u16 => "U16"
  | .s16 => "S16"
  | .bytes count => "Bytes(" ++ toString count ++ ")"
  | .nulls count => "Nulls(" ++ toString count ++ ")"
  | .constant expected => "Const([" ++ ", ".intercalate (expected.map toString) ++ "])"
  | .event => "Esr"
  | .eventData => "EsrData"
  | .filename => "Fnr"
  | .conversation => "Convr"
  | .string terminator => "CStr(" ++ toString terminator ++ ")"
  | .text terminator => "Text(" ++ toString terminator ++ ")"
  | .textOpen => "TextOpen"
  | .ascii terminator => "Ascii(" ++ toString terminator ++ ")"
  | .choiceEntry => "ChoiceEntry"
  | .stop => "End"

/-- An opcode: its name, the shape of its operands, what it does, and whether it ends a row of a
listing. -/
structure OpcodeDef (α : Type) where
  op : UInt8
  name : String
  shape : List Field
  action : α
  breaks : Bool
deriving DecidableEq, Repr

/-- Whether the chunk ends with the opcode. -/
def OpcodeDef.endsChunk {α : Type} (d : OpcodeDef α) : Bool :=
  d.shape.contains .stop

end NovelScript
