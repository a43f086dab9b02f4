import FlowCompiler.Program.Expression
import FlowCompiler.Proofs.Identifiers

namespace FlowCompiler

/-! The variables that an expression reads: the words that lead its paths, outside of string
literals, without keywords and the names of functions. -/

namespace Expression

open Text

/-! ## Scanning -/

def keywords : List String :=
  ["and", "or", "not", "true", "false", "null"]

inductive Reading where
  | gap
  /-- A word, with the letters so far. -/
  | word (letters : List Char)
  /-- What follows the first dot of a path that starts with this word. -/
  | path (root : List Char)
  | text
  /-- Behind a backslash in a string literal. -/
  | escape

def Reading.start (character : Char) : Reading :=
  if isIdentifierChar character && !character.isDigit then .word [character]
  else if character = '"' then .text
  else .gap

def wordVariables (letters : List Char) : List String :=
  if String.ofList letters ∈ keywords then [] else [String.ofList letters]

/-- The variables in the characters of an expression. A word or path in front of a parenthesis
names a function. -/
def variablesFrom : Reading → List Char → List String
  | .gap, [] | .text, [] | .escape, [] => []
  | .word letters, [] | .path letters, [] => wordVariables letters
  | .gap, character :: rest => variablesFrom (.start character) rest
  | .word letters, character :: rest =>
      if isIdentifierChar character then variablesFrom (.word (letters ++ [character])) rest
      else if character = '.' then variablesFrom (.path letters) rest
      else if character = '(' then variablesFrom .gap rest
      else wordVariables letters ++ variablesFrom (.start character) rest
  | .path root, character :: rest =>
      if isIdentifierChar character || character = '.' then variablesFrom (.path root) rest
      else if character = '(' then variablesFrom .gap rest
      else wordVariables root ++ variablesFrom (.start character) rest
  | .text, character :: rest =>
      if character = '"' then variablesFrom .gap rest
      else if character = '\\' then variablesFrom .escape rest
      else variablesFrom .text rest
  | .escape, _ :: rest => variablesFrom .text rest

def variablesIn (body : String) : List String :=
  variablesFrom .gap body.toList

def variablesOf (value : Json) : List String :=
  ((body? value).map variablesIn).getD []

example :
    variablesIn "text.match_regex(ask_1.body.text, \"a b\") and x_2 < 5" = ["ask_1", "x_2"] := by
  decide

/-! ## Names -/

theorem variablesFrom_word {more : List Char} (known : OnlyIdentifierChars more)
    (rest : List Char) : ∀ letters : List Char,
      variablesFrom (.word letters) (more ++ rest) =
        variablesFrom (.word (letters ++ more)) rest := by
  induction more with
  | nil => simp
  | cons first more induction =>
      intro letters
      rw [List.cons_append, variablesFrom, if_pos (known first List.mem_cons_self),
        induction fun character member => known character (List.mem_cons_of_mem _ member)]
      simp

theorem variablesFrom_name {name : String} (proper : IsIdentifier name) (rest : List Char) :
    variablesFrom .gap (name.toList ++ rest) = variablesFrom (.word name.toList) rest := by
  have leading := proper.leading
  have known := proper.known
  cases letters : name.toList with
  | nil => exact absurd letters proper.nonempty
  | cons first more =>
      rw [letters] at leading known
      have digit : first.isDigit = false := leading
      have start : Reading.start first = .word [first] := by
        rw [Reading.start, known first List.mem_cons_self, digit]
        rfl
      rw [List.cons_append, variablesFrom, start, variablesFrom_word
        fun character member => known character (List.mem_cons_of_mem _ member)]
      rfl

theorem wordVariables_toList {name : String} (other : name ∉ keywords) :
    wordVariables name.toList = [name] := by
  rw [wordVariables, String.ofList_toList, if_neg other]

/-! ## String literals -/

theorem variablesFrom_text {characters : List Char}
    (plain : ∀ character ∈ characters, character ≠ '"' ∧ character ≠ '\\') (rest : List Char) :
    variablesFrom .text (characters ++ rest) = variablesFrom .text rest := by
  induction characters with
  | nil => rfl
  | cons first more induction =>
      have ordinary := plain first List.mem_cons_self
      rw [List.cons_append, variablesFrom, if_neg ordinary.1, if_neg ordinary.2]
      exact induction fun character member => plain character (List.mem_cons_of_mem _ member)

theorem plain_digitChar : ∀ digit < 16,
    Nat.digitChar digit ≠ '"' ∧ Nat.digitChar digit ≠ '\\' := by
  decide

theorem variablesFrom_escape (character : Char) (rest : List Char) :
    variablesFrom .text (Json.Literal.escape character ++ rest) = variablesFrom .text rest := by
  unfold Json.Literal.escape
  split
  · rfl
  · rfl
  · rfl
  · rfl
  · rfl
  · rfl
  · rfl
  · rename_i quote backslash _ _ _ _ _
    by_cases control : character.toNat < 0x20
    · rw [if_pos control]
      have high := plain_digitChar (character.toNat / 16) (by omega)
      have low := plain_digitChar (character.toNat % 16) (by omega)
      refine (variablesFrom_text ?_ rest :
        variablesFrom .text (['0', '0', _, _] ++ rest) = variablesFrom .text rest)
      simp [high, low]
    · rw [if_neg control]
      refine variablesFrom_text ?_ rest
      intro other member
      rw [List.mem_singleton.mp member]
      exact ⟨quote, backslash⟩

/-- A literal holds no variables, whatever its text is. -/
theorem variablesFrom_literal (text : String) (rest : List Char) :
    variablesFrom .gap ((literal text).toList ++ rest) = variablesFrom .gap rest := by
  have inside : ∀ characters : List Char,
      variablesFrom .text (characters.flatMap Json.Literal.escape ++ '"' :: rest) =
        variablesFrom .gap rest := by
    intro characters
    induction characters with
    | nil => rfl
    | cons first more induction =>
        rw [List.flatMap_cons, List.append_assoc, variablesFrom_escape]
        exact induction
  rw [literal, String.toList_ofList, Json.Literal.write, List.cons_append, List.append_assoc]
  exact inside text.toList

/-! ## Values -/

theorem body?_evaluate (body : String) : body? (evaluate body) = some body := by
  have characters : ("$\x7b" ++ body ++ "\x7d").toList =
      '$' :: '\x7b' :: (body.toList ++ ['\x7d']) := by
    rw [String.toList_append, String.toList_append]
    rfl
  rw [evaluate, body?, characters, bodyChars?, List.getLast?_concat, if_pos rfl,
    List.dropLast_concat]
  simp

theorem variablesOf_evaluate (body : String) : variablesOf (evaluate body) = variablesIn body := by
  rw [variablesOf, body?_evaluate]
  rfl

theorem variablesOf_ofVariable {name : String} (proper : IsIdentifier name)
    (other : name ∉ keywords) : variablesOf (ofVariable name) = [name] := by
  rw [ofVariable, variablesOf_evaluate, variablesIn, ← List.append_nil name.toList,
    variablesFrom_name proper]
  exact wordVariables_toList other

end Expression

end FlowCompiler
