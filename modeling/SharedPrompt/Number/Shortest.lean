import SharedPrompt.Number.Binary64

/-!
# The shortest decimal text of a binary64 number

The digits are the fewest that read back as the same number, and of those the nearest to it.
The layout puts a decimal point wherever the number has at most sixteen places before it or at
most five zeros after it; all else is written with an exponent.
-/

namespace SharedPrompt.Number

/-- A decimal `digits * 10 ^ exponent`. -/
structure Decimal where
  digits : Nat
  exponent : Int
  deriving Repr, DecidableEq, Inhabited

namespace Shortest

/-- Four times the magnitude and the two ends of the interval that rounds to it, all over one
common denominator. -/
structure Interval where
  low : Nat
  value : Nat
  high : Nat
  den : Nat
  closed : Bool

/-- The reals that round to `x`. Below a power of two the gap is half as wide; the ends belong
to the interval exactly when the mantissa is even. -/
def interval (x : Binary64) : Interval :=
  let (n, d) := if 0 ≤ x.exponent then (powTwo x.exponent.toNat, 1) else (1, powTwo (-x.exponent).toNat)
  let below := if x.mantissa = powTwo 52 ∧ x.exponent ≠ Binary64.minExponent then 1 else 2
  { low := (4 * x.mantissa - below) * n
    value := 4 * x.mantissa * n
    high := (4 * x.mantissa + 2) * n
    den := 4 * d
    closed := x.mantissa % 2 == 0 }

def Interval.holds (i : Interval) (num den : Nat) : Bool :=
  let a := i.low * den
  let b := num * i.den
  let c := i.high * den
  if i.closed then a ≤ b && b ≤ c else a < b && b < c

/-- The nearest point of the grid `10 ^ k` that reads back, if there is one. -/
def onGrid (i : Interval) (k : Int) : Option Decimal :=
  let (up, down) : Nat × Nat := if 0 ≤ k then (powTen k.toNat, 1) else (1, powTen (-k).toNat)
  let lower := i.value * down / (i.den * up)
  let fits (d : Nat) : Bool := i.holds (d * up) down
  let gapLow := i.value * down - lower * (i.den * up)
  let gapHigh := (lower + 1) * (i.den * up) - i.value * down
  match fits lower && lower != 0, fits (lower + 1) with
  | true, true =>
    if gapLow < gapHigh ∨ (gapLow = gapHigh ∧ lower % 2 = 0) then some ⟨lower, k⟩ else some ⟨lower + 1, k⟩
  | true, false => some ⟨lower, k⟩
  | false, true => some ⟨lower + 1, k⟩
  | false, false => none

/-- The place of the first digit: the least `p` with `num / den < 10 ^ p`, by search upward. -/
def placeFrom (num den : Nat) (p : Int) : Nat → Int
  | 0 => p
  | fuel + 1 =>
    let below := if 0 ≤ p then num < den * powTen p.toNat else num * powTen (-p).toNat < den
    if below then p else placeFrom num den (p + 1) fuel

/-- The coarsest grid with a hit, from `count` places on. -/
def search (i : Interval) (place : Int) (count : Nat) : Nat → Decimal
  | 0 => ⟨i.value / i.den, 0⟩
  | fuel + 1 =>
    match onGrid i (place - count) with
    | some d => d
    | none => search i place (count + 1) fuel

/-- Drops trailing zeros of the digits. -/
def trim (d : Decimal) : Nat → Decimal
  | 0 => d
  | fuel + 1 => if d.digits % 10 = 0 ∧ d.digits ≠ 0 then trim ⟨d.digits / 10, d.exponent + 1⟩ fuel else d

/-- The shortest decimal that reads back as the magnitude of `x`. -/
def decimal (x : Binary64) : Decimal :=
  if x.isZero then ⟨0, 0⟩
  else
    let i := interval x
    let guess : Int := ((Nat.log2 x.mantissa : Int) + x.exponent) * 3 / 10 - 2
    trim (search i (placeFrom i.value i.den guess 40) 1 18) 20

end Shortest

private def zeros (n : Nat) : String := String.ofList (List.replicate n '0')

/-- Places of the decimal point that are written positionally. -/
def positionalFrom : Int := -4
def positionalTo : Int := 16

/-- The text of a decimal: with a point and at least one digit on either side of it, or as one
digit, a fraction and an exponent. -/
def Decimal.text (d : Decimal) : String :=
  let ds := toString d.digits
  let count : Int := ds.length
  let point := count + d.exponent
  if d.digits = 0 then "0.0"
  else if 0 ≤ d.exponent ∧ point ≤ positionalTo then ds ++ zeros d.exponent.toNat ++ ".0"
  else if 0 < point ∧ point ≤ positionalTo then
    String.ofList (ds.toList.take point.toNat) ++ "." ++ String.ofList (ds.toList.drop point.toNat)
  else if positionalFrom ≤ point ∧ point ≤ 0 then "0." ++ zeros (-point).toNat ++ ds
  else
    let head := String.ofList (ds.toList.take 1)
    let tail := String.ofList (ds.toList.drop 1)
    head ++ (if tail.isEmpty then "" else "." ++ tail) ++ "e" ++ toString (point - 1)

/-- The shortest text that reads back as `x`. -/
def Binary64.text (x : Binary64) : String :=
  (if x.negative then "-" else "") ++ (Shortest.decimal x).text

end SharedPrompt.Number
