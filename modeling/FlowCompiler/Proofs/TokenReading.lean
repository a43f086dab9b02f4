import FlowCompiler.Json.Reader
import FlowCompiler.Proofs.Unfolding
import Mathlib.Data.List.TakeWhile

namespace FlowCompiler.Json

/-! Tokens are read back as they were written: literals in front of any text, and numerals in front
of a text that cannot go on with them. -/

/-! ## Literals -/

namespace Literal

theorem hexDigit?_digitChar {value : Nat} (small : value < 16) :
    hexDigit? (Nat.digitChar value) = some value := by
  have all : ∀ digit < 16, hexDigit? (Nat.digitChar digit) = some digit := by decide
  exact all value small

/-- The escape of a character below the space is read as this character. -/
theorem hexQuad?_digitChars {code : Nat} (small : code < 0x20) :
    hexQuad? '0' '0' (Nat.digitChar (code / 16)) (Nat.digitChar (code % 16)) = some code := by
  have high : hexDigit? (Nat.digitChar (code / 16)) = some (code / 16) :=
    hexDigit?_digitChar (by omega)
  have low : hexDigit? (Nat.digitChar (code % 16)) = some (code % 16) :=
    hexDigit?_digitChar (by omega)
  have zero : hexDigit? '0' = some 0 := by decide
  simp only [hexQuad?, zero, high, low, Option.bind_eq_bind, Option.bind_some, Option.pure_def,
    Option.some.injEq]
  omega

/-- A character that needs no escape is read as it is. -/
theorem read_plain {character : Char} (quote : character ≠ '"') (backslash : character ≠ '\\')
    (visible : ¬ character.toNat < 0x20) (rest : List Char) :
    read (character :: rest) = (do
      let (text, after) ← read rest
      return (character :: text, after)) := by
  rw [read.eq_def]
  split
  case h_7 equal =>
    cases equal
    rw [if_neg visible]
  all_goals simp_all

theorem read_escape (character : Char) (rest : List Char) :
    read (escape character ++ rest) = (do
      let (text, after) ← read rest
      return (character :: text, after)) := by
  fun_cases escape character
  case case8 quote backslash _ _ _ _ _ control =>
    have high : isHighSurrogate character.toNat = false := by simp [isHighSurrogate]; omega
    have low : isLowSurrogate character.toNat = false := by simp [isLowSurrogate]; omega
    simp [read, hexQuad?_digitChars control, high, low, Char.ofNat_toNat]
  case case9 quote backslash _ _ _ _ _ visible =>
    exact read_plain quote backslash visible rest
  all_goals rfl

/-- A literal is read as its text, whatever follows it. -/
theorem read_escaped (text rest : List Char) :
    read (text.flatMap escape ++ '"' :: rest) = .ok (text, rest) := by
  induction text with
  | nil => rfl
  | cons character text induction =>
      rw [List.flatMap_cons, List.append_assoc, read_escape, induction]
      rfl

end Literal

/-! ## Numerals -/

namespace Numeral

def Stops (after : List Char) : Prop :=
  ∀ character ∈ after.head?, character.isDigit = false ∧ character ≠ '.' ∧ character ≠ 'e' ∧
    character ≠ 'E'

theorem Stops.nil : Stops [] := by
  simp [Stops]

variable {after text rest : List Char} {atEnd : Fault}

theorem Stops.not_digit (stops : Stops after) :
    after.takeWhile Char.isDigit = [] ∧ after.dropWhile Char.isDigit = after := by
  cases after with
  | nil => exact ⟨rfl, rfl⟩
  | cons first _ =>
      have digit : first.isDigit = false := (stops first rfl).1
      simp [digit]

theorem digits_append (stops : Stops after) (text : List Char) :
    digits (text ++ after) = ((digits text).1, (digits text).2 ++ after) := by
  induction text with
  | nil => simp [digits, stops.not_digit]
  | cons first text induction =>
      simp only [digits, Prod.mk.injEq] at induction
      cases digit : first.isDigit with
      | true => simp [digits, digit, induction]
      | false => simp [digits, digit]

variable {found : List Char}

theorem someDigits_append (stops : Stops after) (ok : someDigits atEnd text = .ok (found, rest)) :
    someDigits atEnd (text ++ after) = .ok (found, rest ++ after) := by
  simp only [someDigits] at ok
  simp only [someDigits, digits_append stops]
  split at ok
  · cases ok
  · next some =>
      cases ok
      rw [if_neg some]

theorem someDigits_nil : someDigits atEnd [] = .error atEnd := by
  simp [someDigits, digits, missingDigit]

theorem scanWhole_append (stops : Stops after) (ok : scanWhole atEnd text = .ok (found, rest)) :
    scanWhole atEnd (text ++ after) = .ok (found, rest ++ after) := by
  obtain ⟨⟨whole, left⟩, digits, checked⟩ := bind_eq_ok ok
  simp only at checked
  split at checked
  · cases checked
  · next single =>
      cases checked
      simp only [scanWhole, someDigits_append stops digits, bind, Except.bind, if_neg single]
      rfl

theorem scanFraction_append (stops : Stops after) {fraction : Option (List Char)}
    (ok : scanFraction atEnd text = .ok (fraction, rest)) :
    scanFraction atEnd (text ++ after) = .ok (fraction, rest ++ after) := by
  cases text with
  | nil =>
      cases ok
      rw [List.nil_append, scanFraction]
      · intro behind equal
        exact (stops '.' (by simp [equal])).2.1 rfl
  | cons first text =>
      rw [List.cons_append]
      by_cases point : first = '.'
      · subst point
        obtain ⟨⟨digits, left⟩, read, equal⟩ := bind_eq_ok ok
        cases equal
        simp only [scanFraction, someDigits_append stops read]
        rfl
      · rw [scanFraction] at ok ⊢
        · cases ok
          rfl
        · simp [point]
        · simp [point]

theorem scanExponentDigits_unsigned {first : Char} (plus : first ≠ '+') (minus : first ≠ '-')
    (text : List Char) :
    scanExponentDigits atEnd (first :: text) = (do
      let (found, rest) ← someDigits atEnd (first :: text)
      return (some (false, found), rest)) := by
  rw [scanExponentDigits]
  · simp [plus]
  · simp [minus]

theorem scanExponentDigits_append (stops : Stops after) {exponent : Option (Bool × List Char)}
    (ok : scanExponentDigits atEnd text = .ok (exponent, rest)) :
    scanExponentDigits atEnd (text ++ after) = .ok (exponent, rest ++ after) := by
  cases text with
  | nil =>
      obtain ⟨_, read, _⟩ := bind_eq_ok ok
      rw [someDigits_nil] at read
      cases read
  | cons first text =>
      rw [List.cons_append]
      by_cases sign : first = '+' ∨ first = '-'
      · obtain rfl | rfl := sign
        all_goals
          simp only [scanExponentDigits] at ok ⊢
          obtain ⟨⟨digits, left⟩, read, equal⟩ := bind_eq_ok ok
          cases equal
          rw [someDigits_append stops read]
          rfl
      · rw [not_or] at sign
        rw [scanExponentDigits_unsigned sign.1 sign.2] at ok
        obtain ⟨⟨digits, left⟩, read, equal⟩ := bind_eq_ok ok
        cases equal
        have read := someDigits_append stops read
        rw [List.cons_append] at read
        rw [scanExponentDigits_unsigned sign.1 sign.2, read]
        rfl

theorem scanExponent_append (stops : Stops after) {exponent : Option (Bool × List Char)}
    (ok : scanExponent atEnd text = .ok (exponent, rest)) :
    scanExponent atEnd (text ++ after) = .ok (exponent, rest ++ after) := by
  cases text with
  | nil =>
      cases ok
      rw [List.nil_append, scanExponent]
      · intro behind equal
        exact (stops 'e' (by simp [equal])).2.2.1 rfl
      · intro behind equal
        exact (stops 'E' (by simp [equal])).2.2.2 rfl
  | cons first text =>
      by_cases mark : first = 'e' ∨ first = 'E'
      · obtain rfl | rfl := mark
        all_goals exact scanExponentDigits_append stops ok
      · rw [not_or] at mark
        rw [List.cons_append]
        rw [scanExponent] at ok ⊢
        · cases ok
          rfl
        all_goals simp [mark]

/-- What is read behind the sign of a numeral. -/
theorem scanParts_append (stops : Stops after) {negative : Bool} {numeral : Numeral}
    (ok : (do
      let (whole, text) ← scanWhole atEnd text
      let (fraction, text) ← scanFraction atEnd text
      let (exponent, text) ← scanExponent atEnd text
      return (Numeral.mk negative whole fraction exponent, text)) = .ok (numeral, rest)) :
    (do
      let (whole, text) ← scanWhole atEnd (text ++ after)
      let (fraction, text) ← scanFraction atEnd text
      let (exponent, text) ← scanExponent atEnd text
      return (Numeral.mk negative whole fraction exponent, text)) =
        Except.ok (numeral, rest ++ after) := by
  obtain ⟨⟨whole, behindWhole⟩, readWhole, ok⟩ := bind_eq_ok ok
  obtain ⟨⟨fraction, behindFraction⟩, readFraction, ok⟩ := bind_eq_ok ok
  obtain ⟨⟨exponent, behindExponent⟩, readExponent, equal⟩ := bind_eq_ok ok
  cases equal
  simp only [scanWhole_append stops readWhole, scanFraction_append stops readFraction,
    scanExponent_append stops readExponent, bind, Except.bind]
  rfl

theorem scan_nil : scan atEnd [] = .error atEnd := by
  simp only [scan, scanWhole, someDigits_nil, bind, Except.bind]

theorem scan_unsigned {first : Char} (minus : first ≠ '-') (text : List Char) :
    scan atEnd (first :: text) = (do
      let (whole, text) ← scanWhole atEnd (first :: text)
      let (fraction, text) ← scanFraction atEnd text
      let (exponent, text) ← scanExponent atEnd text
      return (Numeral.mk false whole fraction exponent, text)) := by
  rw [scan]
  simp [minus]

/-- A numeral is taken apart in the same way in front of a text that cannot go on with it. -/
theorem scan_append (stops : Stops after) {numeral : Numeral}
    (ok : scan atEnd text = .ok (numeral, rest)) :
    scan atEnd (text ++ after) = .ok (numeral, rest ++ after) := by
  cases text with
  | nil =>
      rw [scan_nil] at ok
      cases ok
  | cons first text =>
      rw [List.cons_append]
      by_cases minus : first = '-'
      · subst minus
        exact scanParts_append stops ok
      · rw [scan_unsigned minus] at ok ⊢
        exact scanParts_append stops ok

/-- A numeral denotes the same number in front of a text that cannot go on with it. -/
theorem read_append (stops : Stops after) {number : Number} (ok : read text = .ok (number, [])) :
    read (text ++ after) = .ok (number, after) := by
  obtain ⟨⟨numeral, rest⟩, scanned, ok⟩ := bind_eq_ok ok
  obtain ⟨number, value, equal⟩ := bind_eq_ok ok
  cases equal
  simp only [read, scan_append stops scanned, bind, Except.bind, value]
  rfl

theorem exists_first_of_read {number : Number} (ok : read text = .ok (number, rest)) :
    ∃ first behind, text = first :: behind ∧ (first = '-' ∨ first.isDigit = true) := by
  obtain ⟨_, scanned, _⟩ := bind_eq_ok ok
  cases text with
  | nil =>
      rw [scan_nil] at scanned
      cases scanned
  | cons first behind =>
      refine ⟨first, behind, rfl, ?_⟩
      by_cases minus : first = '-'
      · exact .inl minus
      · rw [scan_unsigned minus] at scanned
        obtain ⟨_, read, _⟩ := bind_eq_ok scanned
        obtain ⟨_, read, _⟩ := bind_eq_ok read
        right
        by_contra digit
        simp [someDigits, digits, digit] at read

/-! ### Integers -/

theorem le_ofDigitChars (digits : List Char) (significand : Nat) :
    significand ≤ Nat.ofDigitChars 10 digits significand := by
  induction digits generalizing significand with
  | nil => exact Nat.le_refl _
  | cons digit rest induction =>
      rw [Nat.ofDigitChars_cons]
      have := induction (10 * significand + (digit.toNat - '0'.toNat))
      omega

/-- Digits are taken over as long as their value stays below the limit. -/
theorem absorb_eq {limit : Nat} {digits : List Char} {significand : Nat}
    (small : Nat.ofDigitChars 10 digits significand < limit) :
    absorb limit significand digits = (Nat.ofDigitChars 10 digits significand, 0) := by
  induction digits generalizing significand with
  | nil => rfl
  | cons digit rest induction =>
      rw [Nat.ofDigitChars_cons, Nat.mul_comm] at small ⊢
      have below := Nat.lt_of_le_of_lt (le_ofDigitChars _ _) small
      rw [absorb, digitValue, if_pos below, induction small]

theorem absorb_toDigits {limit value : Nat} (small : value < limit) :
    absorb limit 0 (Nat.toDigits 10 value) = (value, 0) := by
  have number : Nat.ofDigitChars 10 (Nat.toDigits 10 value) 0 = value :=
    Nat.ofDigitChars_ten_toDigits
  rw [absorb_eq (by rwa [number]), number]

/-- Only the number zero is written with a leading zero. -/
theorem head?_toDigits {value : Nat} (positive : 0 < value) :
    (Nat.toDigits 10 value).head? ≠ some '0' := by
  induction value using Nat.strongRecOn with
  | ind value induction =>
      by_cases single : value < 10
      · have all : ∀ digit < 10, 0 < digit → (Nat.toDigits 10 digit).head? ≠ some '0' := by decide
        exact all value single positive
      · rw [Nat.toDigits_of_base_le (by decide) (by omega), List.head?_append]
        have front := induction (value / 10) (by omega) (by omega)
        cases head : (Nat.toDigits 10 (value / 10)).head? with
        | none => exact absurd (List.head?_eq_none_iff.mp head) Nat.toDigits_ne_nil
        | some first => simpa [head] using front

theorem digits_toDigits (value : Nat) :
    digits (Nat.toDigits 10 value) = (Nat.toDigits 10 value, []) := by
  have all : ∀ digit ∈ Nat.toDigits 10 value, digit.isDigit = true := fun digit member =>
    Nat.isDigit_of_mem_toDigits (by decide) (by decide) member
  rw [digits, List.takeWhile_eq_self_iff.mpr all, List.dropWhile_eq_nil_iff.mpr all]

theorem scanWhole_toDigits (value : Nat) :
    scanWhole atEnd (Nat.toDigits 10 value) = .ok (Nat.toDigits 10 value, []) := by
  have found : someDigits atEnd (Nat.toDigits 10 value) = .ok (Nat.toDigits 10 value, []) := by
    simp [someDigits, digits_toDigits, Nat.toDigits_ne_nil]
  have leads : ¬ ((Nat.toDigits 10 value).head? = some '0' ∧
      (Nat.toDigits 10 value).length ≠ 1) := by
    cases value with
    | zero => decide
    | succ value => exact fun zero => head?_toDigits (Nat.succ_pos value) zero.1
  simp only [scanWhole, found, bind, Except.bind, if_neg leads]
  rfl

theorem scan_toDigits (value : Nat) :
    scan atEnd (Nat.toDigits 10 value) = .ok (⟨false, Nat.toDigits 10 value, none, none⟩, []) := by
  have whole : scanWhole atEnd (Nat.toDigits 10 value) = .ok (Nat.toDigits 10 value, []) :=
    scanWhole_toDigits value
  cases written : Nat.toDigits 10 value with
  | nil => exact absurd written Nat.toDigits_ne_nil
  | cons first rest =>
      have digit : first.isDigit = true :=
        Nat.isDigit_of_mem_toDigits (by decide) (by decide) (written ▸ List.mem_cons_self)
      have minus : first ≠ '-' := by
        intro equal
        simp [equal] at digit
      rw [written] at whole
      rw [scan_unsigned minus, whole]
      rfl

theorem scan_minus_toDigits (value : Nat) :
    scan atEnd ('-' :: Nat.toDigits 10 value) =
      .ok (⟨true, Nat.toDigits 10 value, none, none⟩, []) := by
  simp only [scan, scanWhole_toDigits, bind, Except.bind]
  rfl

theorem read_natural (value : UInt64) :
    read (Nat.toDigits 10 value.toNat) = .ok (.natural value, []) := by
  have small : value.toNat < twoTo 64 := value.toNat_lt
  simp only [read, scan_toDigits, Numeral.value, absorb_toDigits small, bind, Except.bind,
    Bool.false_eq_true, if_false, UInt64.ofNat_toNat]
  rfl

theorem negated_magnitude (numeral : Numeral) (value : NegativeInteger) :
    numeral.negated value.magnitude = .ok (.negative value) := by
  rw [negated, dif_pos (And.intro value.positive value.bounded)]

theorem read_negative (value : NegativeInteger) :
    read ('-' :: Nat.toDigits 10 value.magnitude) = .ok (.negative value, []) := by
  have larger : twoTo 63 < twoTo 64 := Nat.pow_lt_pow_right (by decide) (by decide)
  have small : value.magnitude < twoTo 64 := Nat.lt_of_le_of_lt value.bounded larger
  simp only [read, scan_minus_toDigits, Numeral.value, absorb_toDigits small, bind, Except.bind,
    if_true, negated_magnitude]
  rfl

end Numeral

end FlowCompiler.Json
