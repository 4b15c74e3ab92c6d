import NovelScript.Bytes.Hex

/-! # UTF-8

Text of byte strings: strictly, or with a replacement character for each longest stretch of bytes
that starts like a character and does not end like one. -/

namespace NovelScript.Text

/-- The bytes of a text. -/
def utf8 (text : String) : Bytes := text.toUTF8.toList

/-- The text of bytes that are well formed. -/
def ofUtf8? (bytes : Bytes) : Option String :=
  String.fromUTF8? ⟨bytes.toArray⟩

/-- The character that stands for bytes without one. -/
def replacementChar : Char := '\uFFFD'

/-- The bytes that may follow a lead byte: their least and their greatest value, and how many
bytes the character has after them. -/
def secondRange? (lead : UInt8) : Option (UInt8 × UInt8 × Nat) :=
  if lead < 0xC2 then none
  else if lead < 0xE0 then some (0x80, 0xBF, 0)
  else if lead = 0xE0 then some (0xA0, 0xBF, 1)
  else if lead = 0xED then some (0x80, 0x9F, 1)
  else if lead < 0xF0 then some (0x80, 0xBF, 1)
  else if lead = 0xF0 then some (0x90, 0xBF, 2)
  else if lead < 0xF4 then some (0x80, 0xBF, 2)
  else if lead = 0xF4 then some (0x80, 0x8F, 2)
  else none

def isContinuation (b : UInt8) : Bool := 0x80 ≤ b && b ≤ 0xBF

/-- The bits of a lead byte that belong to its character. -/
def leadBits (lead : UInt8) : Nat :=
  if lead < 0xE0 then (lead &&& 0x1F).toNat
  else if lead < 0xF0 then (lead &&& 0x0F).toNat
  else (lead &&& 0x07).toNat

/-- A character in the middle of its bytes: the bits so far and how many bytes are to come. -/
structure Unfinished where
  bits : Nat
  pending : Nat

/-- Text of bytes, each stretch without a character replaced. `open?` is the character in the
middle of which the bytes stand. -/
def lossyChars (open? : Option Unfinished) : Bytes → List Char
  | [] => if open?.isSome then [replacementChar] else []
  | b :: rest =>
    let fresh : List Char :=
      if b < 0x80 then Char.ofNat b.toNat :: lossyChars none rest
      else
        match secondRange? b, rest with
        | some (least, greatest, pending), second :: _ =>
          if least ≤ second ∧ second ≤ greatest then
            lossyChars (some ⟨leadBits b, pending + 1⟩) rest
          else replacementChar :: lossyChars none rest
        | _, _ => replacementChar :: lossyChars none rest
    match open? with
    | none => fresh
    | some ⟨bits, pending⟩ =>
      if isContinuation b then
        let bits := bits * 64 + (b &&& 0x3F).toNat
        if pending = 1 then Char.ofNat bits :: lossyChars none rest
        else lossyChars (some ⟨bits, pending - 1⟩) rest
      else replacementChar :: fresh

/-- Text of bytes, each stretch without a character replaced. -/
def ofUtf8Lossy (bytes : Bytes) : String :=
  String.ofList (lossyChars none bytes)

end NovelScript.Text
