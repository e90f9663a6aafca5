import SharedPrompt.Number.Power

/-!
# Finite binary64 numbers

A finite number is kept as a sign and `mantissa * 2 ^ exponent`, in the one form that the
format stores: the mantissa has at most 53 bits, and fewer than 53 only at the least exponent.
All rounding is done on exact ratios of natural numbers, to the nearest, ties to even.
-/

namespace SharedPrompt.Number

/-- The value `± mantissa * 2 ^ exponent`. -/
structure Binary64 where
  negative : Bool
  mantissa : Nat
  exponent : Int
  deriving Repr, DecidableEq, Inhabited

namespace Binary64

def minExponent : Int := -1074
def maxExponent : Int := 971

def zero (negative : Bool) : Binary64 := ⟨negative, 0, minExponent⟩

def isZero (x : Binary64) : Bool := x.mantissa == 0

def negate (x : Binary64) : Binary64 := { x with negative := !x.negative }

/-- Numeric equality: the two zeros are equal, all else is equal to itself only. -/
def equal (x y : Binary64) : Bool := x == y || (x.isZero && y.isZero)

/-- `num / den` to the nearest natural number, a half to the even neighbour. -/
def divRound (num den : Nat) : Nat :=
  let q := num / den
  let r := num % den
  if 2 * r < den then q else if den < 2 * r then q + 1 else q + q % 2

/-- The exponent at which `num / den` has 53 bits, or the least exponent. -/
def scaleOf (num den : Nat) : Int :=
  let e : Int := (Nat.log2 num : Int) - Nat.log2 den - 52
  let reached :=
    if 0 ≤ e then den * powTwo (52 + e.toNat) ≤ num
    else den * powTwo 52 ≤ num * powTwo (-e).toNat
  max (if reached then e else e - 1) minExponent

/-- The nearest binary64 number to `num / den`; none when it is out of range. -/
def ofRatio (num den : Nat) : Option Binary64 :=
  if num = 0 ∨ den = 0 then some (zero false)
  else
    let e := scaleOf num den
    let m := if 0 ≤ e then divRound num (den * powTwo e.toNat) else divRound (num * powTwo (-e).toNat) den
    let (m, e) := if m = powTwo 53 then (powTwo 52, e + 1) else (m, e)
    if e ≤ maxExponent then some ⟨false, m, e⟩ else none

/-- The magnitude as a ratio of two natural numbers. -/
def ratio (x : Binary64) : Nat × Nat :=
  if 0 ≤ x.exponent then (x.mantissa * powTwo x.exponent.toNat, 1)
  else (x.mantissa, powTwo (-x.exponent).toNat)

/-- The nearest number to `10 ^ n`, for `n` at most 308. -/
def powerOfTen (n : Nat) : Option Binary64 := ofRatio (powTen n) 1

def timesPowerOfTen (x : Binary64) (n : Nat) : Option Binary64 := do
  let p ← powerOfTen n
  ofRatio (x.ratio.1 * p.ratio.1) (x.ratio.2 * p.ratio.2)

def overPowerOfTen (x : Binary64) (n : Nat) : Option Binary64 := do
  let p ← powerOfTen n
  ofRatio (x.ratio.1 * p.ratio.2) (x.ratio.2 * p.ratio.1)

/-- The largest power of ten in range. -/
def maxPowerOfTen : Nat := 308

/-- Divides by `10 ^ n` in rounded steps of at most `maxPowerOfTen` places. -/
def dividedByTens (x : Binary64) (n : Nat) : Nat → Option Binary64
  | 0 => some (zero false)
  | steps + 1 =>
    if n ≤ maxPowerOfTen then x.overPowerOfTen n
    else if x.isZero then some x
    else (x.overPowerOfTen maxPowerOfTen).bind fun y => dividedByTens y (n - maxPowerOfTen) steps

/-- Scales by a power of ten, rounding after every step. Three steps down leave nothing of a
number below `2 ^ 64`. -/
def scaleByTen (x : Binary64) (e : Int) : Option Binary64 :=
  if e < 0 then x.dividedByTens (-e).toNat 4
  else if e.toNat ≤ maxPowerOfTen then x.timesPowerOfTen e.toNat
  else if x.isZero then some x else none

/-- The nearest number to `digits * 10 ^ e`, rounded once. Far exponents are cut off first:
beyond 400 places nothing but zero and overflow is left. -/
def ofDecimal (digits : Nat) (e : Int) : Option Binary64 :=
  let places : Int := (Nat.log2 digits : Int) / 3 + 1
  if digits = 0 then some (zero false)
  else if 400 < e then none
  else if e + places < -400 then some (zero false)
  else if 0 ≤ e then ofRatio (digits * powTen e.toNat) 1
  else ofRatio digits (powTen (-e).toNat)

end Binary64

end SharedPrompt.Number
