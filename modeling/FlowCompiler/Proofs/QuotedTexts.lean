import FlowCompiler.Proofs.TokenReading
import FlowCompiler.Proofs.Variables

namespace FlowCompiler

/-! Texts that are quoted in expressions. A literal is read as exactly the text that was quoted,
whatever follows it, so a text cannot end its literal early. An expression that is composed of code
and quoted texts falls into the same parts when it is scanned. -/

namespace Json.Literal

/-! ## Literals -/

def scan : List Char → Except Fault (List Char × List Char)
  | '"' :: rest => read rest
  | _ => .error .expectedValue

/-- A literal is read as its text, up to its end and no further. -/
theorem scan_write (text rest : List Char) : scan (write text ++ rest) = .ok (text, rest) := by
  rw [write, List.cons_append, List.append_assoc, List.singleton_append, scan]
  exact read_escaped text rest

theorem write_injective : Function.Injective write := by
  intro left right equal
  have scanned := scan_write right []
  rw [← equal, scan_write] at scanned
  cases scanned
  rfl

theorem visible_digitChar : ∀ digit < 16, ¬ (Nat.digitChar digit).toNat < 0x20 := by
  decide

theorem visible_of_mem_escape {character escaped : Char} (member : escaped ∈ escape character) :
    ¬ escaped.toNat < 0x20 := by
  revert escaped
  fun_cases escape character
  case case8 control _ _ _ _ _ _ _ =>
    have high := visible_digitChar (character.toNat / 16) (by omega)
    have low := visible_digitChar (character.toNat % 16) (by omega)
    simp only [List.forall_mem_cons]
    exact ⟨by decide, by decide, by decide, by decide, high, low, by simp⟩
  case case9 visible =>
    simpa using visible
  all_goals simp

theorem visible_of_mem_write {text : List Char} {character : Char}
    (member : character ∈ write text) : ¬ character.toNat < 0x20 := by
  have quote : ¬ '"'.toNat < 0x20 := by decide
  simp only [write, List.mem_cons, List.mem_append, List.mem_flatMap, List.not_mem_nil,
    or_false] at member
  rcases member with rfl | ⟨_, _, inside⟩ | rfl
  · exact quote
  · exact visible_of_mem_escape inside
  · exact quote

/-- What follows a literal is shorter than the text in which it was read. -/
theorem length_lt_of_read (text : List Char) {found rest : List Char}
    (ok : read text = .ok (found, rest)) : rest.length < text.length := by
  fun_induction read text generalizing found rest
  case case2 =>
    cases ok
    simp
  case case7 induction | case10 induction | case13 induction | case15 induction =>
    obtain ⟨⟨_, _⟩, inner, equal⟩ := bind_eq_ok ok
    cases equal
    have shorter := induction inner
    simp only [List.length_cons]
    omega
  all_goals cases ok

end Json.Literal

namespace Expression

open Json

/-! ## Scanning -/

inductive Token where
  /-- A character outside of literals. -/
  | sign (character : Char)
  | literal (text : String)
deriving DecidableEq

/-- The tokens in the characters of an expression: the literals with the texts that they denote,
and the signs around them. -/
def tokensFrom : List Char → Except Fault (List Token)
  | [] => .ok []
  | first :: rest =>
      if first = '"' then
        match _found : Literal.read rest with
        | .error fault => .error fault
        | .ok (text, after) => (tokensFrom after).map (.literal (String.ofList text) :: ·)
      else (tokensFrom rest).map (.sign first :: ·)
termination_by characters => characters.length
decreasing_by
  · exact Nat.lt_succ_of_lt (Literal.length_lt_of_read _ _found)
  · exact Nat.lt_succ_self _

def tokens (body : String) : Except Fault (List Token) :=
  tokensFrom body.toList

/-! ## Composing -/

namespace Token

def characters : Token → List Char
  | sign character => [character]
  | literal text => Literal.write text.toList

def signs (code : String) : List Token :=
  code.toList.map sign

end Token

def sentence (tokens : List Token) : String :=
  String.ofList (tokens.flatMap Token.characters)

@[simp] theorem sentence_append (left right : List Token) :
    sentence (left ++ right) = sentence left ++ sentence right := by
  rw [sentence, List.flatMap_append, String.ofList_append, sentence, sentence]

@[simp] theorem sentence_signs (code : String) : sentence (Token.signs code) = code := by
  rw [sentence, Token.signs, List.flatMap_map]
  simp [Token.characters]

@[simp] theorem sentence_cons_literal (text : String) (rest : List Token) :
    sentence (.literal text :: rest) = literal text ++ sentence rest := by
  rw [sentence, List.flatMap_cons, String.ofList_append, sentence]
  rfl

@[simp] theorem sentence_nil : sentence [] = "" := rfl

/-! ## Clean tokens -/

def isCleanSign (character : Char) : Bool :=
  character ≠ '"' && 0x20 ≤ character.toNat

def Clean (tokens : List Token) : Prop :=
  ∀ character, .sign character ∈ tokens → isCleanSign character

@[simp] theorem clean_append {left right : List Token} :
    Clean (left ++ right) ↔ Clean left ∧ Clean right := by
  simp only [Clean, List.mem_append, or_imp, forall_and]

@[simp] theorem clean_nil : Clean [] := by
  intro character member
  cases member

@[simp] theorem clean_cons_literal {text : String} {rest : List Token} :
    Clean (.literal text :: rest) ↔ Clean rest := by
  simp [Clean]

theorem clean_signs_iff {code : String} :
    Clean (Token.signs code) ↔ ∀ character ∈ code.toList, isCleanSign character := by
  simp [Clean, Token.signs]

instance (code : String) : Decidable (Clean (Token.signs code)) :=
  @decidable_of_iff _ _ clean_signs_iff.symm (List.decidableBAll _ code.toList)

@[simp] theorem signs_append (left right : String) :
    Token.signs (left ++ right) = Token.signs left ++ Token.signs right := by
  rw [Token.signs, String.toList_append, List.map_append, Token.signs, Token.signs]

theorem isCleanSign_of_isWordChar {character : Char} (word : Text.isWordChar character) :
    isCleanSign character := by
  rw [Text.isWordChar_iff] at word
  rw [isCleanSign, Bool.and_eq_true, decide_eq_true_eq, decide_eq_true_eq]
  constructor
  · rintro rfl
    exact absurd word (by decide)
  · omega

theorem clean_of_isIdentifier {name : String} (proper : Text.IsIdentifier name) :
    Clean (Token.signs name) := by
  refine clean_signs_iff.mpr fun character member => ?_
  have known : Text.isWordChar character ∨ character = '_' := by
    simpa [Text.isIdentifierChar] using proper.known character member
  rcases known with word | rfl
  · exact isCleanSign_of_isWordChar word
  · decide

theorem clean_toString (number : Nat) : Clean (Token.signs (toString number)) := by
  refine clean_signs_iff.mpr fun character member => ?_
  rw [Nat.toString_eq_repr, Nat.toList_repr] at member
  have digit : character.isDigit := Nat.isDigit_of_mem_toDigits (by decide) (by decide) member
  refine isCleanSign_of_isWordChar ?_
  rw [Text.isWordChar, Char.isAlphanum, digit, Bool.or_true]

/-- The tokens of an expression are those of which it was composed. -/
theorem tokensFrom_characters {tokens : List Token} (clean : Clean tokens) :
    tokensFrom (tokens.flatMap Token.characters) = .ok tokens := by
  induction tokens with
  | nil => rw [List.flatMap_nil, tokensFrom]
  | cons first rest induction =>
      have behind := induction fun character member =>
        clean character (List.mem_cons_of_mem _ member)
      cases first with
      | sign character =>
          have sign := clean character List.mem_cons_self
          have other : character ≠ '"' := by
            rintro rfl
            exact absurd sign (by decide)
          rw [List.flatMap_cons, Token.characters, List.singleton_append, tokensFrom,
            if_neg other, behind]
          rfl
      | literal text =>
          have read : Literal.read (text.toList.flatMap Literal.escape ++
              '"' :: rest.flatMap Token.characters) =
                .ok (text.toList, rest.flatMap Token.characters) :=
            Literal.read_escaped text.toList _
          rw [List.flatMap_cons, Token.characters, Literal.write, List.cons_append,
            List.append_assoc, List.singleton_append, tokensFrom, if_pos rfl]
          split
          · next fault failed =>
              rw [read] at failed
              cases failed
          · next found after succeeded =>
              rw [read] at succeeded
              cases succeeded
              rw [behind, String.ofList_toList]
              rfl

theorem tokens_sentence {parts : List Token} (clean : Clean parts) :
    tokens (sentence parts) = .ok parts := by
  rw [tokens, sentence, String.toList_ofList, tokensFrom_characters clean]

/-- An expression with clean signs stands on one line. -/
theorem visible_sentence {parts : List Token} (clean : Clean parts) :
    ∀ character ∈ (sentence parts).toList, ¬ character.toNat < 0x20 := by
  rw [sentence, String.toList_ofList]
  intro character member
  rcases List.mem_flatMap.mp member with ⟨token, among, inside⟩
  cases token with
  | sign own =>
      have sign := clean own among
      rw [List.mem_singleton.mp inside, Nat.not_lt]
      rw [isCleanSign, Bool.and_eq_true, decide_eq_true_eq, decide_eq_true_eq] at sign
      exact sign.2
  | literal text => exact Literal.visible_of_mem_write inside

end Expression

end FlowCompiler
