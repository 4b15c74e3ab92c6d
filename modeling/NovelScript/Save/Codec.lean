import NovelScript.Text.Utf8

/-! # Compact encoding

A codec writes values as bytes and reads them from the front of a byte string. Numbers take seven
bits a byte, lowest first; signed numbers are folded so that small ones stay short; options and
alternatives start with a tag, texts and lists with their length. -/

namespace NovelScript

/-- Both directions of an encoding. -/
structure Codec (α : Type) where
  encode : α → Bytes
  /-- The value at the front and the bytes behind it. -/
  decode : Bytes → Option (α × Bytes)

namespace Codec

variable {α β : Type}

/-- Seven bits a byte, lowest first, the top bit set on all bytes but the last. -/
def encodeNat (n : Nat) : Bytes :=
  if n < 128 then [UInt8.ofNat n]
  else UInt8.ofNat (n % 128 + 128) :: encodeNat (n / 128)

/-- Reads a number of at most `width` bytes; the last one possible is at most `greatest`. -/
def decodeNat (greatest : Nat) : (width : Nat) → Bytes → Option (Nat × Bytes)
  | 0, _ => none
  | _ + 1, [] => none
  | width + 1, b :: rest =>
    if b.toNat < 128 then
      if width = 0 ∧ greatest < b.toNat then none else some (b.toNat, rest)
    else
      match decodeNat greatest width rest with
      | some (n, rest) => some (b.toNat % 128 + 128 * n, rest)
      | none => none

/-- Numbers below `2 ^ 64`. -/
def nat64 : Codec Nat := ⟨encodeNat, decodeNat 1 10⟩

/-- Numbers below `2 ^ 32`. -/
def nat32 : Codec Nat := ⟨encodeNat, decodeNat 15 5⟩

/-- Numbers below `2 ^ 16`. -/
def nat16 : Codec Nat := ⟨encodeNat, decodeNat 3 3⟩

/-- One byte as it is. -/
def byte : Codec UInt8 where
  encode b := [b]
  decode
    | [] => none
    | b :: rest => some (b, rest)

/-- The values of another codec, taken forth and back; what cannot go forth does not read. -/
def mapping (c : Codec α) (forth : α → Option β) (back : β → α) : Codec β where
  encode b := c.encode (back b)
  decode bytes :=
    match c.decode bytes with
    | some (a, rest) => (forth a).map fun b => (b, rest)
    | none => none

def uint64 : Codec UInt64 := nat64.mapping (fun n => some (UInt64.ofNat n)) UInt64.toNat

def uint16 : Codec UInt16 := nat16.mapping (fun n => some (UInt16.ofNat n)) UInt16.toNat

/-- The fold of a signed number: even for the numbers from zero up, odd for the others. -/
def toFolded (n : Int64) : Nat :=
  if 0 ≤ n.toInt then 2 * n.toInt.toNat else 2 * (-(n.toInt + 1)).toNat + 1

/-- The number of a fold. -/
def ofFolded (n : Nat) : Int64 :=
  if n % 2 = 0 then Int64.ofInt (n / 2) else Int64.ofInt (-(n / 2 : Nat) - 1)

def int64 : Codec Int64 := nat64.mapping (fun n => some (ofFolded n)) toFolded

/-- Zero and one. -/
def bool : Codec Bool :=
  byte.mapping (fun b => if b = 0 then some false else if b = 1 then some true else none)
    fun b => if b then 1 else 0

/-- One value after the other. -/
def pair (first : Codec α) (second : Codec β) : Codec (α × β) where
  encode p := first.encode p.1 ++ second.encode p.2
  decode bytes := do
    let (a, rest) ← first.decode bytes
    let (b, rest) ← second.decode rest
    return ((a, b), rest)

/-- Zero, or one and a value. -/
def option (c : Codec α) : Codec (Option α) where
  encode
    | none => [0]
    | some a => 1 :: c.encode a
  decode
    | [] => none
    | tag :: rest =>
      if tag = 0 then some (none, rest)
      else if tag = 1 then (c.decode rest).map fun (a, rest) => (some a, rest)
      else none

/-- Reads `count` values. -/
def decodeMany (c : Codec α) : (count : Nat) → Bytes → Option (List α × Bytes)
  | 0, bytes => some ([], bytes)
  | count + 1, bytes => do
    let (a, rest) ← c.decode bytes
    let (others, rest) ← decodeMany c count rest
    return (a :: others, rest)

/-- The number of values and the values. -/
def list (c : Codec α) : Codec (List α) where
  encode values := encodeNat values.length ++ values.flatMap c.encode
  decode bytes := do
    let (count, rest) ← nat64.decode bytes
    decodeMany c count rest

/-- `count` bytes as they are. -/
def bytes (count : Nat) : Codec Bytes where
  encode values := values
  decode bytes := if bytes.length < count then none else some (bytes.take count, bytes.drop count)

/-- The number of bytes and the bytes of a text. -/
def text : Codec String where
  encode s := encodeNat (Text.utf8 s).length ++ Text.utf8 s
  decode bytes := do
    let (count, rest) ← nat64.decode bytes
    let (content, rest) ← (Codec.bytes count).decode rest
    let s ← Text.ofUtf8? content
    return (s, rest)

end Codec

end NovelScript
