/-! # Bytes and base sixteen

Byte strings and the ways the library writes bytes and numbers in lower-case base sixteen. -/

namespace NovelScript

/-- A byte string. -/
abbrev Bytes := List UInt8

/-- The digit of value `n` below sixteen. -/
def hexDigit (n : Nat) : Char :=
  if n < 10 then Char.ofNat (48 + n) else Char.ofNat (87 + n)

/-- The value of a base-sixteen digit of either case. -/
def hexValue? (c : Char) : Option Nat :=
  if '0' ≤ c ∧ c ≤ '9' then some (c.toNat - 48)
  else if 'a' ≤ c ∧ c ≤ 'f' then some (c.toNat - 87)
  else if 'A' ≤ c ∧ c ≤ 'F' then some (c.toNat - 55)
  else none

/-- The two digits of a byte. -/
def hexByteChars (b : UInt8) : List Char :=
  [hexDigit (b.toNat / 16), hexDigit (b.toNat % 16)]

/-- A byte as two digits. -/
def hexByte (b : UInt8) : String :=
  String.ofList (hexByteChars b)

/-- A byte as `0x` and two digits. -/
def hexByteMarked (b : UInt8) : String :=
  "0x" ++ hexByte b

/-- A number as `0x` and as many digits as it needs. -/
def hexNat (n : Nat) : String :=
  "0x" ++ String.ofList (Nat.toDigits 16 n)

namespace Bytes

/-- Two digits for each byte, with nothing between. -/
def hex (bytes : Bytes) : String :=
  String.ofList (bytes.flatMap hexByteChars)

/-- Two digits for each byte, with a blank between neighbours. -/
def hexSpaced (bytes : Bytes) : String :=
  " ".intercalate (bytes.map hexByte)

/-- Two digits for each byte, as a bracketed list. -/
def hexList (bytes : Bytes) : String :=
  "[" ++ ", ".intercalate (bytes.map hexByte) ++ "]"

private def ofHexChars? : List Char → Option Bytes
  | [] => some []
  | [_] => none
  | hi :: lo :: rest => do
    let h ← hexValue? hi
    let l ← hexValue? lo
    let tail ← ofHexChars? rest
    return UInt8.ofNat (h * 16 + l) :: tail

/-- Reads what `hex` writes. -/
def ofHex? (text : String) : Option Bytes :=
  ofHexChars? text.toList

/-- The bytes up to the last one that is not zero. -/
def trimNulls (bytes : Bytes) : Bytes :=
  (bytes.reverse.dropWhile (· == 0)).reverse

/-- The number whose base-256 digits are the bytes, lowest first. -/
def toNatLE : Bytes → Nat
  | [] => 0
  | b :: rest => b.toNat + 256 * toNatLE rest

/-- The lowest `width` base-256 digits of a number, lowest first. -/
def ofNatLE : (width : Nat) → Nat → Bytes
  | 0, _ => []
  | width + 1, n => UInt8.ofNat (n % 256) :: ofNatLE width (n / 256)

theorem length_ofNatLE (width n : Nat) : (ofNatLE width n).length = width := by
  induction width generalizing n with
  | zero => rfl
  | succ width ih => simp [ofNatLE, ih]

end Bytes

end NovelScript
