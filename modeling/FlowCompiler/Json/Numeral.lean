import FlowCompiler.Json.Basic
import FlowCompiler.Json.Fault
import FlowCompiler.Number.Shortest

namespace FlowCompiler.Json

/-! Numerals: the written form of numbers, and reading one back. -/

/-! ## Writing -/

def numberChars : Number → List Char
  | .natural value => Nat.toDigits 10 value.toNat
  | .negative value => '-' :: Nat.toDigits 10 value.magnitude
  | .double value => value.toChars

/-! ## Scanning -/

structure Numeral where
  negative : Bool
  whole : List Char
  fraction : Option (List Char)
  exponent : Option (Bool × List Char)

namespace Numeral

def digits (text : List Char) : List Char × List Char :=
  (text.takeWhile Char.isDigit, text.dropWhile Char.isDigit)

def missingDigit (atEnd : Fault) (text : List Char) : Fault :=
  if text.isEmpty then atEnd else .invalidNumber

def someDigits (atEnd : Fault) (text : List Char) : Except Fault (List Char × List Char) :=
  let (found, rest) := digits text
  if found.isEmpty then .error (missingDigit atEnd text) else .ok (found, rest)

def scanWhole (atEnd : Fault) (text : List Char) : Except Fault (List Char × List Char) := do
  let (found, rest) ← someDigits atEnd text
  if found.head? = some '0' ∧ found.length ≠ 1 then throw .invalidNumber
  return (found, rest)

def scanFraction (atEnd : Fault) (text : List Char) :
    Except Fault (Option (List Char) × List Char) :=
  match text with
  | '.' :: text => do
      let (found, rest) ← someDigits atEnd text
      return (some found, rest)
  | text => .ok (none, text)

def scanExponentDigits (atEnd : Fault) (text : List Char) :
    Except Fault (Option (Bool × List Char) × List Char) := do
  let (below, text) := match text with
    | '+' :: text => (false, text)
    | '-' :: text => (true, text)
    | text => (false, text)
  let (found, rest) ← someDigits atEnd text
  return (some (below, found), rest)

def scanExponent (atEnd : Fault) (text : List Char) :
    Except Fault (Option (Bool × List Char) × List Char) :=
  match text with
  | 'e' :: text => scanExponentDigits atEnd text
  | 'E' :: text => scanExponentDigits atEnd text
  | text => .ok (none, text)

def scan (atEnd : Fault) (text : List Char) : Except Fault (Numeral × List Char) := do
  let (negative, text) := match text with
    | '-' :: text => (true, text)
    | text => (false, text)
  let (whole, text) ← scanWhole atEnd text
  let (fraction, text) ← scanFraction atEnd text
  let (exponent, text) ← scanExponent atEnd text
  return (⟨negative, whole, fraction, exponent⟩, text)

/-! ## Value -/

def digitValue (digit : Char) : Nat :=
  digit.toNat - '0'.toNat

/-- Append digits to a significand as long as it stays below `limit`; also the number of
digits that were left over. -/
def absorb (limit significand : Nat) : List Char → Nat × Nat
  | [] => (significand, 0)
  | digit :: rest =>
      let next := significand * 10 + digitValue digit
      if next < limit then absorb limit next rest else (significand, rest.length + 1)

def writtenExponent? (digits : List Char) : Option Nat :=
  match absorb (twoTo 31) 0 digits with
  | (exponent, 0) => some exponent
  | _ => none

/-- The double that a numeral with a fraction, an exponent or too many digits denotes.
Digits beyond a 64-bit significand count only by their number in front of the point, and not
at all behind it. -/
def doubleValue (numeral : Numeral) : Except Fault Double :=
  let (whole, wholeLeft) := absorb (twoTo 64) 0 numeral.whole
  let fraction := numeral.fraction.getD []
  let (significand, fractionLeft) := absorb (twoTo 64) whole fraction
  let scale : Int := (wholeLeft : Int) - ((fraction.length - fractionLeft : Nat) : Int)
  let ofScale := fun (exponent : Int) =>
    match Double.ofDecimal? numeral.negative significand exponent with
    | some value => Except.ok value
    | none => .error .numberOutOfRange
  match numeral.exponent with
  | none => ofScale scale
  | some (below, digits) =>
      match writtenExponent? digits with
      | some exponent => ofScale (if below then scale - exponent else scale + exponent)
      | none =>
          if significand ≠ 0 ∧ ¬ below then .error .numberOutOfRange
          else .ok (.zero numeral.negative)

/-- A negated 64-bit natural number: a negative integer where it fits, and otherwise (also
for zero) a double. -/
def negated (numeral : Numeral) (magnitude : Nat) : Except Fault Number :=
  if fits : 0 < magnitude ∧ magnitude ≤ twoTo 63 then .ok (.negative ⟨magnitude, fits.1, fits.2⟩)
  else do return .double (← numeral.doubleValue)

def value (numeral : Numeral) : Except Fault Number :=
  match numeral.fraction, numeral.exponent, absorb (twoTo 64) 0 numeral.whole with
  | none, none, (magnitude, 0) =>
      if numeral.negative then numeral.negated magnitude
      else .ok (.natural (UInt64.ofNat magnitude))
  | _, _, _ => do return .double (← numeral.doubleValue)

def read (text : List Char) : Except Fault (Number × List Char) := do
  let (numeral, rest) ← scan .endInValue text
  return (← numeral.value, rest)

def skip (text : List Char) : Except Fault (List Char) := do
  let (_, rest) ← scan .invalidNumber text
  return rest

end Numeral

end FlowCompiler.Json
