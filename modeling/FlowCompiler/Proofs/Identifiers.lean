import FlowCompiler.Flow.Kind
import FlowCompiler.Program.Primitive
import FlowCompiler.Text.Identifier

namespace FlowCompiler

/-! Identifiers. A derived identifier, with a fallback that is one, consists of ASCII letters,
digits and underscores and does not start with a digit, whatever the text is that it was
derived from. In particular it has no dot, so it is never the name of a primitive. -/

namespace Text

/-! ## Characters -/

def isIdentifierChar (character : Char) : Bool :=
  isWordChar character || character = '_'

def OnlyIdentifierChars (text : List Char) : Prop :=
  ∀ character ∈ text, isIdentifierChar character

instance (text : List Char) : Decidable (OnlyIdentifierChars text) :=
  List.decidableBAll _ text

theorem isIdentifierChar_of_isDigit {character : Char} (digit : character.isDigit) :
    isIdentifierChar character := by
  simp [isIdentifierChar, isWordChar, Char.isAlphanum, digit]

theorem onlyIdentifierChars_underscore : OnlyIdentifierChars "_".toList := by
  decide

theorem isUpper_iff {character : Char} :
    (character.val ≥ 'A'.val ∧ character.val ≤ 'Z'.val) ↔
      65 ≤ character.toNat ∧ character.toNat ≤ 90 :=
  and_congr UInt32.le_iff_toNat_le UInt32.le_iff_toNat_le

theorem isWordChar_iff {character : Char} : isWordChar character ↔
    (65 ≤ character.toNat ∧ character.toNat ≤ 90 ∨
      97 ≤ character.toNat ∧ character.toNat ≤ 122) ∨
      48 ≤ character.toNat ∧ character.toNat ≤ 57 := by
  have shape : isWordChar character =
      ((decide (character.val ≥ 'A'.val ∧ character.val ≤ 'Z'.val) ||
        (decide (character.val ≥ 'a'.val) && decide (character.val ≤ 'z'.val))) ||
        (decide (character.val ≥ '0'.val) && decide (character.val ≤ '9'.val))) := rfl
  rw [shape]
  simp only [Bool.or_eq_true, Bool.and_eq_true, decide_eq_true_eq, UInt32.le_iff_toNat_le,
    ge_iff_le]
  rfl

theorem toNat_toLower (character : Char) : character.toLower.toNat =
    if 65 ≤ character.toNat ∧ character.toNat ≤ 90 then character.toNat + 32
    else character.toNat := by
  by_cases upper : character.val ≥ 'A'.val ∧ character.val ≤ 'Z'.val
  · have shape : character.toLower.toNat = (character.toNat + 32) % 2 ^ 32 :=
      congrArg Char.toNat (dif_pos upper)
    have bounds := isUpper_iff.mp upper
    rw [if_pos bounds, shape]
    omega
  · rw [if_neg (mt isUpper_iff.mpr upper)]
    exact congrArg Char.toNat (dif_neg upper)

theorem isWordChar_toLower {character : Char} (word : isWordChar character) :
    isWordChar character.toLower := by
  rw [isWordChar_iff] at word ⊢
  rw [toNat_toLower]
  split <;> omega

theorem isWordChar_of_mem_wordsFrom {text : List Char} :
    ∀ {current : List Char} {word : List Char} {character : Char},
      (∀ present ∈ current, isWordChar present) → word ∈ wordsFrom current text →
        character ∈ word → isWordChar character := by
  induction text with
  | nil =>
      intro current word character known member inside
      rw [wordsFrom] at member
      split at member
      · cases member
      · rw [List.mem_singleton] at member
        subst member
        exact known character (List.mem_reverse.mp inside)
  | cons first rest induction =>
      intro current word character known member inside
      rw [wordsFrom] at member
      split at member
      case isTrue isWord =>
        refine induction ?_ member inside
        intro present among
        rcases List.mem_cons.mp among with equal | among
        · subst equal
          exact isWordChar_toLower isWord
        · exact known present among
      case isFalse =>
        split at member
        · exact induction (by simp) member inside
        · rcases List.mem_cons.mp member with equal | member
          · subst equal
            exact known character (List.mem_reverse.mp inside)
          · exact induction (by simp) member inside

theorem mem_intercalate {α : Type} {separator : List α} {value : α} :
    ∀ {lists : List (List α)}, value ∈ List.intercalate separator lists →
      value ∈ separator ∨ ∃ list ∈ lists, value ∈ list
  | [], member => by simp [List.intercalate] at member
  | [list], member => by
      simp only [List.intercalate, List.intersperse, List.flatten_cons, List.flatten_nil,
        List.append_nil] at member
      exact .inr ⟨list, List.mem_singleton_self _, member⟩
  | list :: next :: rest, member => by
      simp only [List.intercalate, List.intersperse, List.flatten_cons, List.mem_append]
        at member
      rcases member with member | member | member
      · exact .inr ⟨list, List.mem_cons_self, member⟩
      · exact .inl member
      · have tail : value ∈ List.intercalate separator (next :: rest) := by
          simpa [List.intercalate] using member
        rcases mem_intercalate tail with found | ⟨other, among, found⟩
        · exact .inl found
        · exact .inr ⟨other, List.mem_cons_of_mem _ among, found⟩

/-! ## Identifiers -/

structure IsIdentifierChars (text : List Char) : Prop where
  nonempty : text ≠ []
  leading : text.head?.any Char.isDigit = false
  known : OnlyIdentifierChars text

instance (text : List Char) : Decidable (IsIdentifierChars text) :=
  decidable_of_iff (text ≠ [] ∧ text.head?.any Char.isDigit = false ∧ OnlyIdentifierChars text)
    ⟨fun parts => ⟨parts.1, parts.2.1, parts.2.2⟩,
      fun proper => ⟨proper.nonempty, proper.leading, proper.known⟩⟩

def IsIdentifier (name : String) : Prop :=
  IsIdentifierChars name.toList

instance (name : String) : Decidable (IsIdentifier name) :=
  inferInstanceAs (Decidable (IsIdentifierChars name.toList))

theorem isIdentifierChars_identifierChars {text : List Char}
    (nonempty : identifierChars text ≠ []) : IsIdentifierChars (identifierChars text) := by
  have known : OnlyIdentifierChars (List.intercalate ['_'] (words text)) := by
    intro character member
    rcases mem_intercalate member with separator | ⟨word, isWord, inside⟩
    · rw [List.mem_singleton] at separator
      subst separator
      decide
    · have wordChar := isWordChar_of_mem_wordsFrom (by simp) isWord inside
      simp [isIdentifierChar, wordChar]
  cases joined : List.intercalate ['_'] (words text) with
  | nil => simp [identifierChars, joined] at nonempty
  | cons first rest =>
      have shape : identifierChars text =
          if first.isDigit then 'n' :: '_' :: first :: rest else first :: rest := by
        simp only [identifierChars, joined]
      rw [joined] at known
      rw [shape]
      by_cases digit : first.isDigit
      · rw [if_pos digit]
        refine ⟨by simp, rfl, fun character member => ?_⟩
        rcases List.mem_cons.mp member with equal | member
        · subst equal
          decide
        · rcases List.mem_cons.mp member with equal | member
          · subst equal
            decide
          · exact known character member
      · rw [if_neg digit]
        exact ⟨by simp, by simpa using digit, known⟩

theorem isIdentifier_identifierOr {fallback : String} (proper : IsIdentifier fallback)
    (text : String) : IsIdentifier (identifierOr fallback text) := by
  have shape : identifierOr fallback text =
      if (identifier text).isEmpty then fallback else identifier text := rfl
  rw [shape]
  by_cases empty : (identifier text).isEmpty
  · rw [if_pos empty]
    exact proper
  · rw [if_neg empty, IsIdentifier, identifier, String.toList_ofList]
    apply isIdentifierChars_identifierChars
    intro none
    simp [identifier, none] at empty

theorem IsIdentifier.append {name suffix : String} (proper : IsIdentifier name)
    (known : OnlyIdentifierChars suffix.toList) :
    IsIdentifier (name ++ suffix) := by
  have joined : (name ++ suffix).toList = name.toList ++ suffix.toList := String.toList_append
  refine ⟨?_, ?_, fun character member => ?_⟩
  · simp [proper.nonempty]
  · have leading := proper.leading
    have nonempty := proper.nonempty
    rw [joined]
    cases characters : name.toList with
    | nil => exact absurd characters nonempty
    | cons first rest =>
        rw [characters] at leading
        exact leading
  · rcases List.mem_append.mp (joined ▸ member) with member | member
    · exact proper.known character member
    · exact known character member

theorem isIdentifierChar_of_mem_toString {number : Nat} {character : Char}
    (member : character ∈ (toString number).toList) : isIdentifierChar character := by
  rw [Nat.toString_eq_repr, Nat.toList_repr] at member
  exact isIdentifierChar_of_isDigit
    (Nat.isDigit_of_mem_toDigits (by decide) (by decide) member)

end Text

theorem Primitive.isPrimitive_eq_false {name : String} (proper : Text.IsIdentifier name) :
    isPrimitive name = false := by
  rw [isPrimitive, ← Bool.not_eq_true, List.contains_iff_mem]
  intro dot
  have known := proper.known '.' dot
  revert known
  decide

theorem Kind.isIdentifier_stem (kind : Kind) : Text.IsIdentifier kind.stem := by
  cases kind <;> simp only [Kind.stem] <;> decide

end FlowCompiler
