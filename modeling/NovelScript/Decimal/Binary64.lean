/-! # Double precision

A finite number of double precision is a sign and a product of a natural number and a power of
two; this module takes its bits apart and rounds its exact value to decimal places. -/

namespace NovelScript

/-- The parts of a finite number: the value is `mantissa * 2 ^ exponent`, negated if `negative`. -/
structure Binary64 where
  negative : Bool
  mantissa : Nat
  exponent : Int
  /-- Whether the next smaller number is only half as far away as the next larger one. -/
  lowerHalf : Bool
deriving DecidableEq, Repr

namespace Binary64

/-- The parts of the number with the given bits. -/
def ofBits (bits : UInt64) : Binary64 :=
  let n := bits.toNat
  let hidden := Nat.pow 2 52
  let biased := n / hidden % 2048
  let fraction := n % hidden
  { negative := n / hidden / 2048 = 1
    mantissa := if biased = 0 then fraction else hidden + fraction
    exponent := (if biased = 0 then 1 else biased : Nat) - 1075
    lowerHalf := fraction = 0 ∧ 1 < biased }

/-- The quotient rounded to the nearest number, a half to the even one. -/
def roundHalfEven (num den : Nat) : Nat :=
  let q := num / den
  let r := num % den
  if den < 2 * r ∨ (2 * r = den ∧ q % 2 = 1) then q + 1 else q

/-- The number times `scale`, rounded to the nearest natural number, a half to the even one. The
sign is left out. -/
def scaledRound (x : Binary64) (scale : Nat) : Nat :=
  if 0 ≤ x.exponent then x.mantissa * scale * Nat.pow 2 x.exponent.toNat
  else roundHalfEven (x.mantissa * scale) (Nat.pow 2 (-x.exponent).toNat)

end Binary64

/-- A natural number as decimal text of at least `width` digits. -/
def paddedNat (width n : Nat) : String :=
  let digits := toString n
  "".pushn '0' (width - digits.length) ++ digits

/-- A number of double precision with two decimal places. -/
def twoPlaces (x : Float) : String :=
  let b := Binary64.ofBits x.toBits
  let hundredths := b.scaledRound 100
  (if b.negative then "-" else "") ++ toString (hundredths / 100) ++ "." ++
    paddedNat 2 (hundredths % 100)

end NovelScript
