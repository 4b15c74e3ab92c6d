import NovelScript.Bytes.Cursor
import NovelScript.Text.ShiftJis

/-! # Script text

Text inside a chunk is a run of text bytes that ends at the first byte which is none. One of the
two codecs has escapes for a few characters that Shift_JIS lacks. -/

namespace NovelScript

/-- How the text of a script is encoded. -/
inductive TextCodec where
  /-- Shift_JIS with the escapes `87 4A`, `87 4B`, `87 4C`. -/
  | escaped
  /-- Shift_JIS and nothing else. -/
  | plain
deriving DecidableEq, Repr

/-- Whether a byte may stand inside a run of text. -/
def isTextByte (b : UInt8) : Bool :=
  0x20 ≤ b || b == 0x0A || b == 0x09

/-- The byte that opens an escape. -/
def escapeLead : UInt8 := 0x87

/-- The character that an escape stands for. -/
def escapedChar? (code : UInt8) : Option Char :=
  if code = 0x4A then some '\u00f6'
  else if code = 0x4B then some '\u00fc'
  else if code = 0x4C then some '\u2015'
  else none

/-- The text of a Shift_JIS byte string that stands at `offset`. -/
def decodeShiftJis (bytes : Bytes) (offset : Nat) : Except Fault String :=
  match Text.ShiftJis.decode? bytes with
  | some text => .ok text
  | none => .error (.undecodable offset (.shiftJis bytes))

namespace TextCodec

/-- Reads text from the bytes that remain at `pos`. `text` is decoded already, `pending` is not.
Gives the outcome, text and terminator, and the position after it. -/
def scan (codec : TextCodec) (start limit : Nat) :
    (pos : Nat) → (text : String) → (pending : Bytes) → (rest : Bytes) →
      Except Fault (String × UInt8) × Nat
  | pos, _, _, [] => (.error (.bounds pos 1 limit), pos)
  | pos, text, pending, b :: rest =>
    if isTextByte b = false then
      ((decodeShiftJis pending start).map fun tail => (text ++ tail, b), pos + 1)
    else if codec = .escaped ∧ b = escapeLead then
      match rest with
      | [] => (.error (.bounds (pos + 1) 1 limit), pos + 1)
      | code :: rest =>
        if isTextByte code = false then
          (.error (.undecodable pos (.brokenEscape code)), pos)
        else
          match escapedChar? code with
          | none => (.error (.undecodable pos (.unknownEscape code)), pos + 2)
          | some c =>
            match decodeShiftJis pending start with
            | .error fault => (.error fault, pos + 2)
            | .ok tail => scan codec start limit (pos + 2) ((text ++ tail).push c) [] rest
    else scan codec start limit (pos + 1) text (pending ++ [b]) rest

/-- Reads a run of text and the byte that ends it. -/
def read (codec : TextCodec) : Reader (String × UInt8) := fun c =>
  let (outcome, pos) := codec.scan c.pos c.limit c.pos "" [] c.rest
  (outcome, { c with pos := pos })

/-- Reads a run of text that has to end with `terminator`. -/
def readUntil (codec : TextCodec) (terminator : UInt8) : Reader String := do
  let (text, found) ← codec.read
  if found = terminator then return text
  else
    let after ← Reader.pos
    Reader.fail (.invalidData (after - 1) (.wrongTerminator text found terminator))

/-- Reads a run of text and leaves the byte that ends it. -/
def readOpen (codec : TextCodec) : Reader String := do
  let (text, _) ← codec.read
  Reader.rewind 1
  return text

end TextCodec

end NovelScript
