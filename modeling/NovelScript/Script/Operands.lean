import NovelScript.ActiveValue.Evaluation
import NovelScript.ActiveValue.Reduction
import NovelScript.Script

/-! # Reading operands

Operands are read from a chunk by the shape of their opcode. References are checked against the
tables of the script file. -/

namespace NovelScript

namespace Script

/-- Reads a reference into a table of `count` entries. -/
def readIndex (table : TableKind) (count : Nat) : Reader UInt16 := do
  let index ← Reader.u16
  if index.toNat < count then return index
  else Reader.fail (.reference table index.toNat count)

/-- Reads four values and the number of a filename. -/
def readFilename (s : Script) : Reader FilenameRef := do
  let a ← ActiveValue.read
  let b ← ActiveValue.read
  let c ← ActiveValue.read
  let d ← ActiveValue.read
  let values := [a, b, c, d]
  let aux := if values.all (·.isEmpty) then none else some values
  let index ← readIndex .filename s.filenames.length
  return ⟨index, aux⟩

/-- Reads text of ASCII characters only. -/
def readAscii (s : Script) (terminator : UInt8) : Reader Bytes := do
  let start ← Reader.pos
  let text ← s.title.codec.readUntil terminator
  if text.toList.all (·.toNat < 128) then
    return text.toList.map fun c => UInt8.ofNat c.toNat
  else Reader.fail (.invalidData start (.notAscii text))

/-- The byte that ends the text of a candidate. -/
def candidateEnd : UInt8 := 0x01

/-- Reads a part of a choice. -/
def readChoiceEntry (s : Script) : Reader ChoiceEntry := do
  let start ← Reader.pos
  let kind ← Reader.u8
  if kind = 0x00 then return .question (← Reader.u16)
  else if kind = 0x01 then return .candidate none (← s.title.codec.readUntil candidateEnd)
  else if kind = 0x02 then
    let display ← ActiveValue.read
    return .candidate (some display) (← s.title.codec.readUntil candidateEnd)
  else Reader.fail (.invalidData start (.choiceEntry kind))

/-- Reads `count` active values. -/
def readValues : (count : Nat) → Reader (List Operand)
  | 0 => pure []
  | count + 1 => do
    let value ← ActiveValue.read
    let others ← readValues count
    return .value value :: others

/-- Reads an active value that has to be the constant zero. -/
def readZero : Reader ActiveValue := do
  let start ← Reader.pos
  let value ← ActiveValue.read
  let numbers ← Reader.lift value.constantValues
  if numbers = [0] then return value
  else Reader.fail (.invalidData start (.notZero value.text))

/-- Reads the operands of one field. -/
def readField (s : Script) : Field → Reader (List Operand)
  | .value => return [.value (← ActiveValue.read)]
  | .values count => readValues count
  | .zero => return [.value (← readZero)]
  | .u8 => return [.u8 (← Reader.u8)]
  | .u16 => return [.u16 (← Reader.u16)]
  | .s16 => return [.s16 (← Reader.s16)]
  | .bytes count => return [.bytes (← Reader.take count)]
  | .nulls count => do
    Reader.nulls count
    return []
  | .constant expected => do
    Reader.expect expected
    return []
  | .event => return [.event ⟨← readIndex .event s.events.length, false⟩]
  | .eventData => return [.event ⟨← readIndex .event s.events.length, true⟩]
  | .filename => return [.filename (← s.readFilename)]
  | .conversation => return [.conversation (← readIndex .conversation s.convs.length)]
  | .string terminator => return [.string (← Reader.takeUntil terminator)]
  | .text terminator => return [.text (← s.title.codec.readUntil terminator)]
  | .textOpen => return [.text (← s.title.codec.readOpen)]
  | .ascii terminator => return [.ascii (← s.readAscii terminator)]
  | .choiceEntry => return [.choice (← s.readChoiceEntry)]
  | .stop => do
    Reader.setEnd
    return []

/-- What came of reading a shape: the operands of the fields that could be read, the fault of the
first that could not, and where the cursor stands. -/
structure ShapeRead where
  operands : List Operand
  fault : Option Fault
  cursor : Cursor

/-- Reads the operands of a shape, field by field. -/
def readShape (s : Script) : List Field → Cursor → ShapeRead
  | [], c => ⟨[], none, c⟩
  | field :: rest, c =>
    match (s.readField field).runOn c with
    | (.error fault, c) => ⟨[], some fault, c⟩
    | (.ok operands, c) =>
      let others := s.readShape rest c
      ⟨operands ++ others.operands, others.fault, others.cursor⟩

/-- The event chunks that operands refer to for their bytes. -/
def dataTargets (operands : List Operand) : List Nat :=
  operands.filterMap fun
    | .event target => if target.data then some target.index.toNat else none
    | _ => none

end Script

end NovelScript
