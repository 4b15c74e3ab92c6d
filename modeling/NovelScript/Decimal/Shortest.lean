import NovelScript.Decimal.Binary64

/-! # Shortest decimals

The decimal with the fewest digits that reads back as a given number of double precision; of
several the one nearest to it. -/

namespace NovelScript

/-- The decimal `digits * 10 ^ exponent`. -/
structure Decimal where
  digits : Nat
  exponent : Int
deriving DecidableEq, Repr

namespace Binary64

/-- The number and the ends of the interval of reals that read back as it, all over one
denominator. -/
structure Interval where
  low : Nat
  value : Nat
  high : Nat
  den : Nat
  /-- Whether the ends belong to the interval. -/
  closed : Bool

/-- The interval of reals that round to a number. -/
def interval (x : Binary64) : Interval :=
  let shift := x.exponent - 2
  let up := Nat.pow 2 shift.toNat
  { low := (4 * x.mantissa - if x.lowerHalf then 1 else 2) * up
    value := 4 * x.mantissa * up
    high := (4 * x.mantissa + 2) * up
    den := Nat.pow 2 (-shift).toNat
    closed := x.mantissa % 2 = 0 }

/-- Whether the decimal lies in an interval. -/
def Interval.contains (i : Interval) (d : Decimal) : Bool :=
  let point := d.digits * Nat.pow 10 d.exponent.toNat * i.den
  let scale := Nat.pow 10 (-d.exponent).toNat
  if i.closed then i.low * scale ≤ point && point ≤ i.high * scale
  else i.low * scale < point && point < i.high * scale

/-- The least power of ten above the number, as its exponent, searched from `bound` down. -/
def Interval.magnitude (i : Interval) : (bound : Nat) → Int
  | 0 => -400
  | bound + 1 =>
    let e : Int := (bound : Int) - 400
    if i.den * Nat.pow 10 e.toNat ≤ i.value * Nat.pow 10 (-e).toNat then e + 1
    else i.magnitude bound

/-- The neighbours of the number among the decimals of `count` digits, as far as they lie in the
interval; the nearer first. -/
def Interval.neighbours (i : Interval) (magnitude : Int) (count : Nat) : List Decimal :=
  let e := magnitude - count
  let num := i.value * Nat.pow 10 (-e).toNat
  let den := i.den * Nat.pow 10 e.toNat
  let below : Decimal := ⟨num / den, e⟩
  let above : Decimal := ⟨num / den + 1, e⟩
  let ordered := if 2 * (num % den) ≤ den then [below, above] else [above, below]
  ordered.filter i.contains

/-- The shortest decimal that reads back as the number. -/
def shortest (x : Binary64) : Decimal :=
  if x.mantissa = 0 then ⟨0, 0⟩
  else
    let i := x.interval
    let magnitude := i.magnitude 800
    ((List.range 17).findSome? fun count => (i.neighbours magnitude (count + 1)).head?).getD ⟨0, 0⟩

end Binary64

namespace Decimal

/-- Drops zeros from the end of the digits; `fuel` bounds their number. -/
def strip : (fuel : Nat) → Decimal → Decimal
  | 0, d => d
  | fuel + 1, d =>
    if d.digits % 10 = 0 ∧ d.digits ≠ 0 then strip fuel ⟨d.digits / 10, d.exponent + 1⟩ else d

/-- A decimal as text: in positions between `1e-5` and `1e16`, otherwise with an exponent. A number
in positions always has a decimal point. -/
def text (d : Decimal) : String :=
  let d := d.strip 20
  let digits := toString d.digits
  let point := (digits.length : Int) + d.exponent
  if d.digits = 0 then "0.0"
  else if 0 ≤ d.exponent ∧ point ≤ 16 then digits.pushn '0' d.exponent.toNat ++ ".0"
  else if 0 < point ∧ point ≤ 16 then
    String.ofList (digits.toList.take point.toNat) ++ "." ++
      String.ofList (digits.toList.drop point.toNat)
  else if -5 < point ∧ point ≤ 0 then "0.".pushn '0' (-point).toNat ++ digits
  else
    let tail := String.ofList (digits.toList.drop 1)
    String.ofList (digits.toList.take 1) ++ (if tail.isEmpty then "" else "." ++ tail) ++ "e" ++
      toString (point - 1)

end Decimal

/-- A finite number of double precision as the shortest text that reads back. -/
def shortestText (bits : UInt64) : String :=
  let x := Binary64.ofBits bits
  (if x.negative then "-" else "") ++ x.shortest.text

end NovelScript
