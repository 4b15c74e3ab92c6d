import NovelScript.Bytes.Hex
import NovelScript.Text.ShiftJis.Rows

/-! # Shift_JIS

Decoding of Shift_JIS byte strings as the encoding standard for the web defines it: a string with
one byte that cannot be placed has no decoding at all. -/

namespace NovelScript.Text.ShiftJis

/-- Rank of a lead byte among the lead bytes `81`–`9F`, `E0`–`FC`. -/
def leadRank? (b : UInt8) : Option Nat :=
  if 0x81 ≤ b ∧ b ≤ 0x9F then some (b.toNat - 0x81)
  else if 0xE0 ≤ b ∧ b ≤ 0xFC then some (b.toNat - 0xC1)
  else none

/-- Rank of a trail byte among the trail bytes `40`–`7E`, `80`–`FC`. -/
def trailRank? (b : UInt8) : Option Nat :=
  if 0x40 ≤ b ∧ b ≤ 0x7E then some (b.toNat - 0x40)
  else if 0x80 ≤ b ∧ b ≤ 0xFC then some (b.toNat - 0x41)
  else none

/-- Trail bytes under one lead byte. -/
def rowLength : Nat := 188

/-- A stretch of consecutive places that hold consecutive characters. -/
structure Run where
  lead : Nat
  trail : Nat
  count : Nat
  first : Nat

/-- The place of the run's first character. -/
def Run.start (r : Run) : Nat :=
  (if r.lead ≤ 0x9F then r.lead - 0x81 else r.lead - 0xC1) * rowLength +
    (if r.trail ≤ 0x7E then r.trail - 0x40 else r.trail - 0x41)

/-- The regular stretches: digits, Latin, kana, Greek, Cyrillic, numerals, private use. -/
def runs : List Run :=
  [⟨0x82, 0x4F, 10, 0xFF10⟩, ⟨0x82, 0x60, 26, 0xFF21⟩, ⟨0x82, 0x81, 26, 0xFF41⟩,
   ⟨0x82, 0x9F, 83, 0x3041⟩, ⟨0x83, 0x40, 86, 0x30A1⟩,
   ⟨0x83, 0x9F, 17, 0x0391⟩, ⟨0x83, 0xB0, 7, 0x03A3⟩,
   ⟨0x83, 0xBF, 17, 0x03B1⟩, ⟨0x83, 0xD0, 7, 0x03C3⟩,
   ⟨0x84, 0x40, 6, 0x0410⟩, ⟨0x84, 0x46, 1, 0x0401⟩, ⟨0x84, 0x47, 26, 0x0416⟩,
   ⟨0x84, 0x70, 6, 0x0430⟩, ⟨0x84, 0x76, 1, 0x0451⟩, ⟨0x84, 0x77, 26, 0x0436⟩,
   ⟨0x87, 0x40, 20, 0x2460⟩, ⟨0x87, 0x54, 10, 0x2160⟩,
   ⟨0xEE, 0xEF, 10, 0x2170⟩, ⟨0xFA, 0x40, 10, 0x2170⟩, ⟨0xF0, 0x40, 1880, 0xE000⟩]

/-- The character of a run at a place. -/
def Run.char? (place : Nat) (r : Run) : Option Char :=
  if r.start ≤ place ∧ place < r.start + r.count then
    some (Char.ofNat (r.first + (place - r.start)))
  else none

/-- The character of a row at a trail's rank. -/
def rowChar? (lead : UInt8) (rank : Nat) : Option Char := do
  let row ← rows.lookup lead.toNat
  let c ← row.toList[rank]?
  if c = '\uFFFD' then none else some c

/-- The character of a lead and a trail byte. -/
def double? (lead trail : UInt8) : Option Char := do
  let l ← leadRank? lead
  let t ← trailRank? trail
  match runs.findSome? (Run.char? (l * rowLength + t)) with
  | some c => some c
  | none => rowChar? lead t

/-- The character of a byte that stands alone: `00`–`80` for themselves, `A1`–`DF` for the
half-width forms. -/
def single? (b : UInt8) : Option Char :=
  if b ≤ 0x80 then some (Char.ofNat b.toNat)
  else if 0xA1 ≤ b ∧ b ≤ 0xDF then some (Char.ofNat (0xFF61 + (b.toNat - 0xA1)))
  else none

/-- The characters of a byte string, `none` if any byte cannot be placed. -/
def decodeChars? : Bytes → Option (List Char)
  | [] => some []
  | [b] => (single? b).map ([·])
  | b :: next :: rest =>
    match single? b with
    | some c => (decodeChars? (next :: rest)).map (c :: ·)
    | none =>
      match double? b next with
      | some c => (decodeChars? rest).map (c :: ·)
      | none => none

/-- The text of a byte string, `none` if any byte cannot be placed. -/
def decode? (bytes : Bytes) : Option String :=
  (decodeChars? bytes).map String.ofList

end NovelScript.Text.ShiftJis
