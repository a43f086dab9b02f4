namespace FlowCompiler

/-! Finite double-precision numbers as exact values, with the correctly rounded
operations that reading a decimal text needs. A number is a sign and a magnitude
`significand · 2 ^ exponent / 2 ^ 1074`, so that every magnitude is an exact ratio of
natural numbers. -/

def twoTo (exponent : Nat) : Nat :=
  Nat.pow 2 exponent

def tenTo (exponent : Nat) : Nat :=
  Nat.pow 10 exponent

/-- A finite double-precision number. Magnitudes have one representation each: a
significand of 53 bits, or fewer bits only at the lowest exponent. -/
structure Double where
  negative : Bool
  significand : Nat
  exponent : Nat
  significand_lt : significand < twoTo 53
  exponent_le : exponent ≤ 2045
  normalized : exponent = 0 ∨ twoTo 52 ≤ significand
deriving DecidableEq

def roundHalfEven (numerator denominator : Nat) : Nat :=
  let quotient := numerator / denominator
  let remainder := numerator % denominator
  if 2 * remainder < denominator then quotient
  else if 2 * remainder = denominator then quotient + quotient % 2
  else quotient + 1

namespace Double

/-! Magnitudes are counted in units of the smallest positive one, `1 / unitsPerOne`. -/

def unitsPerOne : Nat :=
  twoTo 1074

def units (number : Double) : Nat :=
  number.significand * twoTo number.exponent

def ofParts? (negative : Bool) (significand exponent : Nat) : Option Double :=
  if parts : significand < twoTo 53 ∧ exponent ≤ 2045 ∧ (exponent = 0 ∨ twoTo 52 ≤ significand) then
    some ⟨negative, significand, exponent, parts.1, parts.2.1, parts.2.2⟩
  else none

def zero (negative : Bool) : Double :=
  ⟨negative, 0, 0, by decide, by decide, .inl rfl⟩

def two : Double :=
  ⟨false, twoTo 52, 1023, by decide, by decide, .inr (by decide)⟩

def isZero (number : Double) : Bool :=
  number.significand == 0

/-- The number nearest to `numerator / denominator`, a tie going to the even significand;
`none` when it is too large for a finite number. -/
def ofRatio? (negative : Bool) (numerator denominator : Nat) : Option Double :=
  let exponent := (numerator * unitsPerOne / denominator).log2 + 1 - 53
  let significand := roundHalfEven (numerator * unitsPerOne) (denominator * twoTo exponent)
  if significand = twoTo 53 then ofParts? negative (twoTo 52) (exponent + 1)
  else ofParts? negative significand exponent

def ofNat? (value : Nat) : Option Double :=
  ofRatio? false value 1

def mul? (left right : Double) : Option Double :=
  ofRatio? false (left.units * right.units) (unitsPerOne * unitsPerOne)

def div? (left right : Double) : Option Double :=
  ofRatio? false left.units right.units

def neg (number : Double) : Double :=
  { number with negative := !number.negative }

def powerOfTen? (exponent : Nat) : Option Double :=
  ofRatio? false (tenTo exponent) 1

/-! ## Decimal numerals -/

def maxTenExponent : Nat := 308

def divideRepeatedly (step : Double) : Nat → Double → Option Double
  | 0, number => some number
  | rounds + 1, number =>
      if number.isZero then some number
      else do divideRepeatedly step rounds (← number.div? step)

/-- Divide by `10 ^ exponent`: by `10 ^ 308` while the exponent is larger than that, then by
the power of ten that remains, each quotient rounded on its own. -/
def divideByTens (number : Double) (exponent : Nat) : Option Double := do
  let rounds := (exponent - 1) / maxTenExponent
  let scaled ← divideRepeatedly (← powerOfTen? maxTenExponent) rounds number
  scaled.div? (← powerOfTen? (exponent - maxTenExponent * rounds))

def multiplyByTens (number : Double) (exponent : Nat) : Option Double :=
  if exponent ≤ maxTenExponent then do
    number.mul? (← powerOfTen? exponent)
  else if number.isZero then some number
  else none

/-- The value of the numeral `significand · 10 ^ exponent`: the significand is rounded first
and then scaled with one more rounding, so the result may differ from the nearest number in
the last place. `none` when it is too large. -/
def ofDecimal? (negative : Bool) (significand : Nat) (exponent : Int) : Option Double := do
  let rounded ← ofNat? significand
  let magnitude ← match exponent with
    | .ofNat exponent => rounded.multiplyByTens exponent
    | .negSucc below => rounded.divideByTens (below + 1)
  return { magnitude with negative }

end Double

end FlowCompiler
