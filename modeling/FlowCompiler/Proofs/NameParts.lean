import FlowCompiler.Lowering.Names
import FlowCompiler.Proofs.Identifiers

namespace FlowCompiler

/-! The parts of generated names between their underscores. The number of a visit is the last
numeral among the parts of the names of its steps and the first among the parts of the names
of its routines, whatever the title of its node is. So names of different visits differ. -/

namespace Text

/-! ## Parts -/

/-! Names are taken apart at their underscores. A name is wordy if none of its parts is a number. -/

def parts (name : String) : List (List Char) :=
  name.toList.splitOn '_'

def isNumeral (part : List Char) : Bool :=
  !part.isEmpty && part.all Char.isDigit

theorem parts_join (left right : String) :
    parts (left ++ "_" ++ right) = parts left ++ parts right := by
  simp only [parts, String.toList_append]
  rw [List.append_assoc]
  exact List.splitOn_append_cons_self _ _

theorem parts_eq_singleton {name : String} (joined : '_' ∉ name.toList) :
    parts name = [name.toList] :=
  List.splitOn_eq_singleton joined

theorem parts_toString (number : Nat) :
    parts (toString number) = [Nat.toDigits 10 number] := by
  rw [parts, Nat.toString_eq_repr, Nat.toList_repr]
  exact List.splitOn_eq_singleton Nat.underscore_not_in_toDigits

theorem isNumeral_toDigits (number : Nat) : isNumeral (Nat.toDigits 10 number) := by
  simp only [isNumeral, Bool.and_eq_true, Bool.not_eq_true', List.isEmpty_eq_false_iff,
    List.all_eq_true]
  exact ⟨Nat.toDigits_ne_nil, fun _ member =>
    Nat.isDigit_of_mem_toDigits (by decide) (by decide) member⟩

theorem toDigits_injective {left right : Nat}
    (equal : Nat.toDigits 10 left = Nat.toDigits 10 right) : left = right := by
  have numbers := congrArg (fun digits => Nat.ofDigitChars 10 digits 0) equal
  simpa using numbers

/-! ## Names without numerals -/

def Wordy (name : String) : Prop :=
  ∀ part ∈ parts name, isNumeral part = false

instance (name : String) : Decidable (Wordy name) :=
  inferInstanceAs (Decidable (∀ part ∈ parts name, isNumeral part = false))

/-! ## The numeral of a name -/

def lastNumeral? (name : String) : Option (List Char) :=
  (parts name).reverse.find? isNumeral

def firstNumeral? (name : String) : Option (List Char) :=
  (parts name).find? isNumeral

theorem firstNumeral?_of_wordy {name : String} (wordy : Wordy name) :
    firstNumeral? name = none := by
  rw [firstNumeral?, List.find?_eq_none]
  intro part member
  simp [wordy part member]

theorem lastNumeral?_of_wordy {name : String} (wordy : Wordy name) :
    lastNumeral? name = none := by
  rw [lastNumeral?, List.find?_eq_none]
  intro part member
  simp [wordy part (List.mem_reverse.mp member)]

theorem lastNumeral?_toString (stem : String) (number : Nat) :
    lastNumeral? (stem ++ "_" ++ toString number) = some (Nat.toDigits 10 number) := by
  rw [lastNumeral?, parts_join, parts_toString]
  simp [isNumeral_toDigits]

theorem lastNumeral?_join {name suffix : String} (wordy : Wordy suffix) :
    lastNumeral? (name ++ "_" ++ suffix) = lastNumeral? name := by
  have none := lastNumeral?_of_wordy wordy
  rw [lastNumeral?] at none ⊢
  rw [parts_join, List.reverse_append, List.find?_append, none, Option.none_or, lastNumeral?]

theorem firstNumeral?_join {stem : String} (wordy : Wordy stem) (number : Nat)
    (slug : String) :
    firstNumeral? (stem ++ "_" ++ toString number ++ "_" ++ slug) =
      some (Nat.toDigits 10 number) := by
  have none := firstNumeral?_of_wordy wordy
  rw [firstNumeral?] at none ⊢
  rw [parts_join, parts_join, List.find?_append, List.find?_append, none, parts_toString]
  simp [isNumeral_toDigits]

end Text

theorem Kind.wordy_stem (kind : Kind) : Text.Wordy kind.stem := by
  cases kind <;> simp only [Kind.stem] <;> decide

namespace Names

open Text

/-! ## Names of visits -/

def Proper (names : Names) : Prop :=
  ∃ node, names = ofNode names.number node

theorem proper_ofNode (number : Nat) (node : Node) : (ofNode number node).Proper :=
  ⟨node, rfl⟩

theorem result_ofNode (number : Nat) (node : Node) :
    (ofNode number node).result =
      identifierOr node.kind.stem node.title ++ "_" ++ toString number := rfl

theorem stem_ofNode (number : Nat) (node : Node) :
    (ofNode number node).stem = node.kind.stem := rfl

theorem Proper.exists_result {names : Names} (proper : names.Proper) :
    ∃ base, IsIdentifier base ∧ names.result = base ++ "_" ++ toString names.number := by
  rcases proper with ⟨node, made⟩
  refine ⟨identifierOr node.kind.stem node.title, ?_, ?_⟩
  · exact isIdentifier_identifierOr node.kind.isIdentifier_stem node.title
  · exact (congrArg result made).trans (result_ofNode names.number node)

theorem Proper.exists_stem {names : Names} (proper : names.Proper) :
    ∃ kind : Kind, names.stem = kind.stem := by
  rcases proper with ⟨node, made⟩
  exact ⟨node.kind, (congrArg stem made).trans (stem_ofNode names.number node)⟩

theorem lastNumeral?_result {names : Names} (proper : names.Proper) :
    lastNumeral? names.result = some (Nat.toDigits 10 names.number) := by
  rcases proper.exists_result with ⟨base, _, result⟩
  rw [result, lastNumeral?_toString]

theorem lastNumeral?_step {names : Names} (proper : names.Proper) {suffix : String}
    (wordy : Wordy suffix) :
    lastNumeral? (names.step suffix) = some (Nat.toDigits 10 names.number) := by
  rw [step, lastNumeral?_join wordy, lastNumeral?_result proper]

theorem firstNumeral?_routine {names : Names} (proper : names.Proper) (slug : String) :
    firstNumeral? (names.routine slug) = some (Nat.toDigits 10 names.number) := by
  rcases proper.exists_stem with ⟨kind, stem⟩
  rw [routine, stem, firstNumeral?_join kind.wordy_stem]

/-- The result variable and the names of steps, with suffixes that hold no numeral. -/
inductive Owns (names : Names) : String → Prop
  | result : Owns names names.result
  | step {suffix : String} (wordy : Wordy suffix) : Owns names (names.step suffix)

theorem Owns.lastNumeral? {names : Names} (proper : names.Proper) {name : String}
    (owns : names.Owns name) : lastNumeral? name = some (Nat.toDigits 10 names.number) := by
  cases owns with
  | result => exact lastNumeral?_result proper
  | step wordy => exact lastNumeral?_step proper wordy

/-- No name belongs to visits with different numbers. -/
theorem Owns.number_eq {left right : Names} (leftProper : left.Proper)
    (rightProper : right.Proper) {name : String} (leftOwns : left.Owns name)
    (rightOwns : right.Owns name) : left.number = right.number := by
  have equal := (leftOwns.lastNumeral? leftProper).symm.trans
    (rightOwns.lastNumeral? rightProper)
  exact toDigits_injective (Option.some.inj equal)

theorem Owns.not_wordy {names : Names} (proper : names.Proper) {name : String}
    (owns : names.Owns name) : ¬ Wordy name := by
  intro wordy
  have numeral := owns.lastNumeral? proper
  rw [lastNumeral?_of_wordy wordy] at numeral
  cases numeral

theorem step_injective (names : Names) {left right : String}
    (equal : names.step left = names.step right) : left = right := by
  simpa [step] using equal

theorem step_ne_result (names : Names) (suffix : String) : names.step suffix ≠ names.result := by
  intro equal
  have lengths := congrArg String.length equal
  rw [step, String.length_append, String.length_append] at lengths
  have underscore : "_".length = 1 := by decide
  omega

/-- A name of a step ends in a word, and a result in a numeral. -/
theorem step_ne_result_of_wordy {names other : Names} (otherProper : other.Proper)
    {suffix : String} (wordy : Wordy suffix) : names.step suffix ≠ other.result := by
  intro equal
  rcases otherProper.exists_result with ⟨base, _, result⟩
  have tails := congrArg (fun name => (parts name).getLast?) equal
  simp only [step, result, parts_join, parts_toString, List.getLast?_concat] at tails
  have nonempty : parts suffix ≠ [] := List.splitOn_ne_nil _ _
  rw [List.getLast?_append, List.getLast?_eq_some_getLast nonempty, Option.some_or] at tails
  have numeral := wordy _ (List.getLast_mem nonempty)
  rw [Option.some.inj tails, isNumeral_toDigits] at numeral
  cases numeral

theorem routine_injective (names : Names) {left right : String}
    (equal : names.routine left = names.routine right) : left = right := by
  simpa [routine] using equal

theorem number_eq_of_routine_eq {left right : Names} (leftProper : left.Proper)
    (rightProper : right.Proper) {leftSlug rightSlug : String}
    (equal : left.routine leftSlug = right.routine rightSlug) :
    left.number = right.number := by
  have numerals := firstNumeral?_routine leftProper leftSlug
  rw [equal, firstNumeral?_routine rightProper] at numerals
  exact (toDigits_injective (Option.some.inj numerals)).symm

theorem not_wordy_routine {names : Names} (proper : names.Proper) (slug : String) :
    ¬ Wordy (names.routine slug) := by
  intro wordy
  have numeral := firstNumeral?_routine proper slug
  rw [firstNumeral?_of_wordy wordy] at numeral
  cases numeral

/-! ## Names as identifiers -/

theorem isIdentifier_result {names : Names} (proper : names.Proper) :
    IsIdentifier names.result := by
  rcases proper.exists_result with ⟨base, baseProper, result⟩
  rw [result]
  refine (baseProper.append onlyIdentifierChars_underscore).append ?_
  intro character member
  exact isIdentifierChar_of_mem_toString member

theorem isIdentifier_step {names : Names} (proper : names.Proper) {suffix : String}
    (known : OnlyIdentifierChars suffix.toList) :
    IsIdentifier (names.step suffix) :=
  ((isIdentifier_result proper).append onlyIdentifierChars_underscore).append known

theorem isIdentifier_routine {names : Names} (proper : names.Proper) {slug : String}
    (known : OnlyIdentifierChars slug.toList) :
    IsIdentifier (names.routine slug) := by
  rcases proper.exists_stem with ⟨kind, stem⟩
  rw [routine, stem]
  have base := kind.isIdentifier_stem.append onlyIdentifierChars_underscore
  refine ((base.append ?_).append onlyIdentifierChars_underscore).append known
  intro character member
  exact isIdentifierChar_of_mem_toString member

end Names

end FlowCompiler
