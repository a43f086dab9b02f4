import FlowCompiler.Number.Double

namespace FlowCompiler.Double

/-! The decimal text of a number: the fewest digits that determine it among all
finite numbers, and of the digit strings of that length the one closest to its value. -/

/-! ## Rounding interval -/

/-- Four times the distance from `number` down to the values that no longer round to it, in
units. Just above a power of two the numbers below lie twice as close. -/
def gapBelow (number : Double) : Nat :=
  if number.significand = twoTo 52 ∧ number.exponent ≠ 0 then twoTo number.exponent
  else 2 * twoTo number.exponent

def gapAbove (number : Double) : Nat :=
  2 * twoTo number.exponent

/-- Whether the magnitude `numerator / denominator` rounds to `number`. The ends of the
interval do so exactly when the significand is even. -/
def admits (number : Double) (numerator denominator : Nat) : Bool :=
  let value := 4 * unitsPerOne * numerator
  let lower := (4 * number.units - number.gapBelow) * denominator
  let upper := (4 * number.units + number.gapAbove) * denominator
  if number.significand % 2 = 0 then lower ≤ value && value ≤ upper
  else lower < value && value < upper

/-! ## Digits -/

structure Decimal where
  digits : Nat
  exponent : Int
deriving DecidableEq

def Decimal.ratio (decimal : Decimal) : Nat × Nat :=
  match decimal.exponent with
  | .ofNat exponent => (decimal.digits * tenTo exponent, 1)
  | .negSucc below => (decimal.digits, tenTo (below + 1))

def leadingExponent (number : Double) : Int :=
  ((Nat.toDigits 10 (number.units * tenTo 324 / unitsPerOne)).length : Int) - 325

def floorAt (number : Double) (exponent : Int) : Nat :=
  match exponent with
  | .ofNat exponent => number.units / (unitsPerOne * tenTo exponent)
  | .negSucc below => number.units * tenTo (below + 1) / unitsPerOne

/-- Which of the multiples `lower` and `lower + 1` of `10 ^ exponent` is closer to the
magnitude between them; a tie goes to the even one. -/
def closerOf (number : Double) (exponent : Int) (lower : Nat) : Nat :=
  let (middle, scale) := Decimal.ratio ⟨2 * lower + 1, exponent⟩
  let twice := 2 * number.units * scale
  let half := middle * unitsPerOne
  if twice < half then lower
  else if twice = half then lower + lower % 2
  else lower + 1

/-- The multiple of `10 ^ exponent` next to the magnitude that rounds to it, the closer one
if both neighbours do. -/
def nearestAt? (number : Double) (exponent : Int) : Option Decimal :=
  let lower := number.floorAt exponent
  let fits := fun digits =>
    let (numerator, denominator) := Decimal.ratio ⟨digits, exponent⟩
    number.admits numerator denominator
  match fits lower, fits (lower + 1) with
  | true, true => some ⟨number.closerOf exponent lower, exponent⟩
  | true, false => some ⟨lower, exponent⟩
  | false, true => some ⟨lower + 1, exponent⟩
  | false, false => none

/-- The shortest decimal of a positive number, tried with one digit, two digits, and so on;
seventeen digits always suffice. -/
def shortest (number : Double) : Decimal :=
  let leading := number.leadingExponent
  ((List.range 17).findSome? fun (places : Nat) => number.nearestAt? (leading - places)).getD
    ⟨number.units / unitsPerOne, 0⟩

def Decimal.significant (decimal : Decimal) : List Char × Int :=
  let digits := Nat.toDigits 10 decimal.digits
  let trimmed := (digits.reverse.dropWhile (· = '0')).reverse
  (trimmed, decimal.exponent + digits.length - 1)

/-! ## Layout -/

def isPositional (leading : Int) : Bool :=
  -5 ≤ leading && leading ≤ 15

def positional (digits : List Char) (leading : Int) : List Char :=
  match leading with
  | .ofNat leading =>
      let whole := digits.take (leading + 1)
      let fraction := digits.drop (leading + 1)
      whole ++ List.replicate (leading + 1 - whole.length) '0' ++ ['.'] ++
        (if fraction.isEmpty then ['0'] else fraction)
  | .negSucc below => ['0', '.'] ++ List.replicate below '0' ++ digits

def scientific (digits : List Char) (leading : Int) : List Char :=
  let mantissa := match digits with
    | [] => []
    | [digit] => [digit]
    | digit :: rest => digit :: '.' :: rest
  mantissa ++ ['e', if leading < 0 then '-' else '+'] ++ Nat.toDigits 10 leading.natAbs

/-- The decimal text of a number. It always has a point or an exponent mark, and zero keeps
its sign. -/
def toChars (number : Double) : List Char :=
  let sign := if number.negative then ['-'] else []
  if number.isZero then sign ++ ['0', '.', '0']
  else
    let (digits, leading) := number.shortest.significant
    sign ++ (if isPositional leading then positional digits leading else scientific digits leading)

end FlowCompiler.Double
