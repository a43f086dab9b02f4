import FlowCompiler.Program.Tree
import FlowCompiler.Proofs.QuotedTexts

namespace FlowCompiler

/-! Texts on one line. Identifiers, numbers and literals have no control characters, and neither has
the compact text of any value. So the line of a step is one line if the words in it are. -/

open Expression

/-! ## Lines -/

namespace Text

def Visible (text : List Char) : Prop :=
  ∀ character ∈ text, ¬ character.toNat < 0x20

instance (text : List Char) : Decidable (Visible text) :=
  List.decidableBAll _ text

theorem visible_nil : Visible [] := by
  decide

@[simp] theorem visible_append {left right : List Char} :
    Visible (left ++ right) ↔ Visible left ∧ Visible right :=
  List.forall_mem_append

@[simp] theorem visible_cons {first : Char} {rest : List Char} :
    Visible (first :: rest) ↔ ¬ first.toNat < 0x20 ∧ Visible rest :=
  List.forall_mem_cons

theorem Visible.subset {part whole : List Char} (visible : Visible whole) (subset : part ⊆ whole) :
    Visible part :=
  fun character member => visible character (subset member)

def IsLine (text : String) : Prop :=
  Visible text.toList

instance (text : String) : Decidable (IsLine text) :=
  inferInstanceAs (Decidable (Visible text.toList))

@[simp] theorem isLine_append {left right : String} :
    IsLine (left ++ right) ↔ IsLine left ∧ IsLine right := by
  rw [IsLine, String.toList_append, visible_append, IsLine, IsLine]

theorem isLine_intercalate {separator : String} (apart : IsLine separator) :
    ∀ texts : List String, (∀ text ∈ texts, IsLine text) → IsLine (separator.intercalate texts)
  | [], _ => visible_nil
  | [only], lines => by
      rw [String.intercalate_singleton]
      exact lines only List.mem_cons_self
  | first :: second :: rest, lines => by
      obtain ⟨own, behind⟩ := List.forall_mem_cons.mp lines
      rw [String.intercalate_cons_cons, isLine_append, isLine_append]
      exact ⟨⟨own, apart⟩, isLine_intercalate apart (second :: rest) behind⟩

theorem isLine_sentence {tokens : List Token} (clean : Clean tokens) : IsLine (sentence tokens) :=
  visible_sentence clean

theorem isLine_of_isIdentifier {name : String} (proper : IsIdentifier name) : IsLine name := by
  rw [← sentence_signs name]
  exact isLine_sentence (clean_of_isIdentifier proper)

theorem isLine_toString (number : Nat) : IsLine (toString number) := by
  rw [← sentence_signs (toString number)]
  exact isLine_sentence (clean_toString number)

end Text

open Text

/-! ## Compact values -/

theorem visible_toDigits (number : Nat) : Visible (Nat.toDigits 10 number) := by
  have line := isLine_toString number
  rwa [IsLine, Nat.toString_eq_repr, Nat.toList_repr] at line

namespace Double

theorem visible_significant (decimal : Decimal) : Visible decimal.significant.1 := by
  refine (visible_toDigits decimal.digits).subset fun character member => ?_
  rw [Decimal.significant, List.mem_reverse] at member
  exact List.mem_reverse.mp ((List.dropWhile_sublist _).subset member)

theorem visible_replicate_zero (count : Nat) : Visible (List.replicate count '0') := by
  intro character member
  rw [List.eq_of_mem_replicate member]
  decide

theorem visible_positional {digits : List Char} (visible : Visible digits) (leading : Int) :
    Visible (positional digits leading) := by
  have point : Visible ['.'] ∧ Visible ['0'] ∧ Visible ['0', '.'] := by decide
  cases leading with
  | ofNat leading =>
      have whole := visible.subset (List.take_subset (leading + 1) digits)
      have fraction := visible.subset (List.drop_subset (leading + 1) digits)
      simp only [positional, visible_append]
      refine ⟨⟨⟨whole, visible_replicate_zero _⟩, point.1⟩, ?_⟩
      split
      · exact point.2.1
      · exact fraction
  | negSucc below =>
      simp only [positional, visible_append]
      exact ⟨⟨point.2.2, visible_replicate_zero _⟩, visible⟩

theorem visible_scientific {digits : List Char} (visible : Visible digits) (leading : Int) :
    Visible (scientific digits leading) := by
  have mark : Visible ['e', if leading < 0 then '-' else '+'] := by
    split <;> decide
  simp only [scientific, visible_append]
  refine ⟨⟨?_, mark⟩, visible_toDigits _⟩
  split
  · exact visible_nil
  · exact visible
  · simp only [visible_cons] at visible ⊢
    exact ⟨visible.1, by decide, visible.2⟩

theorem visible_toChars (number : Double) : Visible number.toChars := by
  have sign : Visible (if number.negative then ['-'] else []) := by
    split <;> decide
  have zero : Visible ['0', '.', '0'] := by decide
  rw [toChars]
  split
  · exact visible_append.mpr ⟨sign, zero⟩
  · refine visible_append.mpr ⟨sign, ?_⟩
    split
    · exact visible_positional (visible_significant _) _
    · exact visible_scientific (visible_significant _) _

end Double

namespace Json

theorem visible_numberChars (number : Number) : Visible (numberChars number) := by
  cases number with
  | natural value => exact visible_toDigits _
  | negative value => exact visible_cons.mpr ⟨by decide, visible_toDigits _⟩
  | double value => exact value.visible_toChars

theorem visible_write (text : List Char) : Visible (Literal.write text) :=
  fun _ => Literal.visible_of_mem_write

mutual
theorem visible_chars : ∀ (value : Json) (depth : Nat) {after : List Char}, Visible after →
    Visible (value.chars .compact depth after)
  | .null, _, _, behind | .bool true, _, _, behind | .bool false, _, _, behind => by
      simp only [chars, visible_cons]
      simpa using behind
  | .number value, _, _, behind => by
      rw [chars, visible_append]
      exact ⟨visible_numberChars value, behind⟩
  | .string text, _, _, behind => by
      rw [chars, visible_append]
      exact ⟨visible_write _, behind⟩
  | .array [], _, _, behind | .object [], _, _, behind => by
      simp only [chars, visible_cons]
      simpa using behind
  | .array (item :: rest), depth, _, behind => by
      rw [chars, visible_cons]
      exact ⟨by decide, visible_chars item _ (visible_charsItems rest depth behind)⟩
  | .object ((name, value) :: rest), depth, _, behind => by
      have inside := visible_chars value (depth + 1) (visible_charsMembers rest depth behind)
      rw [chars, visible_cons]
      exact ⟨by decide, visible_append.mpr ⟨visible_write _, visible_cons.mpr ⟨by decide, inside⟩⟩⟩

theorem visible_charsItems : ∀ (items : List Json) (depth : Nat) {after : List Char},
    Visible after → Visible (charsItems .compact depth after items)
  | [], _, _, behind => visible_cons.mpr ⟨by decide, behind⟩
  | item :: rest, depth, _, behind =>
      visible_cons.mpr ⟨by decide, visible_chars item _ (visible_charsItems rest depth behind)⟩

theorem visible_charsMembers : ∀ (members : List (String × Json)) (depth : Nat) {after : List Char},
    Visible after → Visible (charsMembers .compact depth after members)
  | [], _, _, behind => visible_cons.mpr ⟨by decide, behind⟩
  | (name, value) :: rest, depth, _, behind => by
      have inside := visible_chars value (depth + 1) (visible_charsMembers rest depth behind)
      rw [charsMembers, visible_cons]
      exact ⟨by decide, visible_append.mpr ⟨visible_write _, visible_cons.mpr ⟨by decide, inside⟩⟩⟩
end

/-- The compact text of a value stands on one line, whatever texts there are in the value. -/
theorem isLine_compact (value : Json) : IsLine value.compact := by
  rw [compact, IsLine, String.toList_ofList]
  exact visible_chars value 0 visible_nil

end Json

end FlowCompiler
