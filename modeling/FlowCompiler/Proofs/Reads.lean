import FlowCompiler.Lowering.Emission
import FlowCompiler.Proofs.NameParts
import FlowCompiler.Proofs.Variables

namespace FlowCompiler

/-! The variables in the expressions of single visits: the base address, the parts of the result
of the visit, and its counters and responses. -/

open Expression Lowering

/-! ## Names as variables -/

namespace Expression

structure IsVariable (name : String) : Prop where
  identifier : Text.IsIdentifier name
  free : name ∉ keywords

instance (name : String) : Decidable (IsVariable name) :=
  decidable_of_iff (Text.IsIdentifier name ∧ name ∉ keywords)
    ⟨fun parts => ⟨parts.1, parts.2⟩, fun isVariable => ⟨isVariable.1, isVariable.2⟩⟩

theorem IsVariable.variablesOf {name : String} (isVariable : IsVariable name) :
    variablesOf (ofVariable name) = [name] :=
  variablesOf_ofVariable isVariable.identifier isVariable.free

theorem IsVariable.variablesFrom {name : String} (isVariable : IsVariable name)
    (rest : List Char) :
    variablesFrom .gap (name.toList ++ rest) = variablesFrom (.word name.toList) rest :=
  variablesFrom_name isVariable.identifier rest

theorem IsVariable.wordVariables {name : String} (isVariable : IsVariable name) :
    wordVariables name.toList = [name] :=
  wordVariables_toList isVariable.free

end Expression

namespace Names

theorem Owns.not_mem_keywords {names : Names} (proper : names.Proper) {name : String}
    (owns : names.Owns name) : name ∉ keywords := by
  intro member
  have wordy : ∀ word ∈ keywords, Text.Wordy word := by decide
  exact owns.not_wordy proper (wordy name member)

theorem isVariable_result {names : Names} (proper : names.Proper) : IsVariable names.result :=
  ⟨names.isIdentifier_result proper, Owns.not_mem_keywords proper .result⟩

theorem isVariable_step {names : Names} (proper : names.Proper) {suffix : String}
    (wordy : Text.Wordy suffix)
    (known : Text.OnlyIdentifierChars suffix.toList) :
    IsVariable (names.step suffix) :=
  ⟨names.isIdentifier_step proper known, Owns.not_mem_keywords proper (.step wordy)⟩

end Names

/-! ## Addresses -/

theorem variablesFrom_apiBase (rest : List Char) :
    variablesFrom .gap (Registry.apiBase.toList ++ (" + ".toList ++ rest)) =
      Registry.apiBase :: variablesFrom .gap rest := rfl

theorem variablesOf_endpoint (path : String) :
    variablesOf (endpoint path) = [Registry.apiBase] := by
  rw [endpoint, variablesOf_evaluate, variablesIn, ← List.append_nil (String.toList _)]
  simp only [String.toList_append, List.append_assoc]
  rw [variablesFrom_apiBase, variablesFrom_literal]
  rfl

/-! ## Numbers -/

theorem variablesOf_increment {counter : String} (isVariable : IsVariable counter) :
    variablesOf (evaluate (counter ++ " + 1")) = [counter] := by
  have behind : ∀ letters, variablesFrom (.word letters) " + 1".toList =
      wordVariables letters := fun letters => List.append_nil _
  rw [variablesOf_evaluate, variablesIn, String.toList_append, isVariable.variablesFrom, behind,
    isVariable.wordVariables]

theorem variablesFrom_digits {digits : List Char} (isDigit : ∀ digit ∈ digits, digit.isDigit) :
    variablesFrom .gap digits = [] := by
  induction digits with
  | nil => rfl
  | cons first rest induction =>
      have known := isDigit first List.mem_cons_self
      have quote : first ≠ '"' := by
        intro equal
        subst equal
        cases known
      have start : Reading.start first = .gap := by
        rw [Reading.start, known, if_neg (by simp), if_neg quote]
      rw [variablesFrom, start]
      exact induction fun digit member => isDigit digit (List.mem_cons_of_mem _ member)

theorem variablesFrom_toString (number : Nat) :
    variablesFrom .gap (toString number).toList = [] := by
  apply variablesFrom_digits
  intro digit member
  rw [Nat.toString_eq_repr, Nat.toList_repr] at member
  exact Nat.isDigit_of_mem_toDigits (by decide) (by decide) member

section

variable {names : Names} (proper : names.Proper)

include proper

theorem Subflow.variablesOf_document :
    variablesOf (Subflow.document names) = [Registry.apiBase, Subflow.started names] := by
  have started : IsVariable (Subflow.started names) :=
    names.isVariable_step proper (by decide) (by decide)
  have joined : ∀ rest, variablesFrom .gap (" + ".toList ++ rest) =
      variablesFrom .gap rest := fun _ => rfl
  have behind : ∀ letters, variablesFrom (.word letters) ".body.execution_id".toList =
      wordVariables letters := fun _ => rfl
  rw [Subflow.document, variablesOf_evaluate, variablesIn, Subflow.execution]
  simp only [String.toList_append, List.append_assoc]
  rw [variablesFrom_apiBase, variablesFrom_literal, joined, started.variablesFrom, behind,
    started.wordVariables]

/-! ## Conditions of forks -/

theorem Fork.variablesFrom_received (rest : List Char) :
    variablesFrom .gap ((Fork.received names).toList ++ rest) =
      names.result :: variablesFrom .gap rest := by
  have result := names.isVariable_result proper
  have behind : ∀ letters, variablesFrom (.word letters)
      (".status == ".toList ++ ((literal "received").toList ++ rest)) =
        wordVariables letters ++ variablesFrom .gap rest := fun _ => rfl
  rw [Fork.received, String.toList_append, String.toList_append, List.append_assoc,
    List.append_assoc, result.variablesFrom, behind, result.wordVariables]
  rfl

/-- The condition of an exit reads nothing but the result of the visit. -/
theorem Fork.eq_result_of_mem_condition {test : ExitTest} {value : Json}
    (condition : Fork.condition? names test = some value) :
    ∀ name ∈ variablesOf value, name = names.result := by
  have result := names.isVariable_result proper
  cases test with
  | reply id =>
      cases condition
      have joined : ∀ rest, variablesFrom .gap (" and ".toList ++ rest) =
          variablesFrom .gap rest := fun _ => rfl
      have path : ∀ letters rest, variablesFrom (.word letters)
          (".body.reply_id == ".toList ++ rest) =
            wordVariables letters ++ variablesFrom .gap rest := fun _ _ => rfl
      rw [variablesOf_evaluate, variablesIn, ← List.append_nil (String.toList _)]
      simp only [String.toList_append, List.append_assoc]
      rw [Fork.variablesFrom_received proper, joined, result.variablesFrom, path,
        variablesFrom_literal, result.wordVariables]
      simp [variablesFrom]
  | text format =>
      cases format with
      | none =>
          cases condition
          rw [variablesOf_evaluate, variablesIn, ← List.append_nil (String.toList _),
            Fork.variablesFrom_received proper]
          simp [variablesFrom]
      | some format =>
          cases condition
          have joined : ∀ rest, variablesFrom .gap (" and text.match_regex(".toList ++ rest) =
              variablesFrom .gap rest := fun _ => rfl
          have path : ∀ letters rest, variablesFrom (.word letters)
              (".body.text, ".toList ++ rest) =
                wordVariables letters ++ variablesFrom .gap rest := fun _ _ => rfl
          have closing : variablesFrom .gap ")".toList = [] := rfl
          rw [variablesOf_evaluate, variablesIn]
          simp only [String.toList_append, List.append_assoc]
          rw [Fork.variablesFrom_received proper, joined, result.variablesFrom, path,
            variablesFrom_literal, result.wordVariables, closing]
          simp
  | verdict =>
      cases condition
      have behind : ∀ letters, variablesFrom (.word letters) " == true".toList =
          wordVariables letters := fun letters => List.append_nil _
      rw [variablesOf_evaluate, variablesIn, String.toList_append, result.variablesFrom, behind,
        result.wordVariables]
      simp
  | label name =>
      cases condition
      have behind : ∀ letters rest, variablesFrom (.word letters) (" == ".toList ++ rest) =
          wordVariables letters ++ variablesFrom .gap rest := fun _ _ => rfl
      rw [variablesOf_evaluate, variablesIn, ← List.append_nil (String.toList _)]
      simp only [String.toList_append, List.append_assoc]
      rw [result.variablesFrom, behind, variablesFrom_literal, result.wordVariables]
      simp [variablesFrom]
  | otherwise | aborted => cases condition

/-! ## Counters -/

theorem Fork.isVariable_attempts : IsVariable (Fork.attempts names) :=
  names.isVariable_step proper (by decide) (by decide)

theorem Subflow.isVariable_polls : IsVariable (Subflow.polls names) :=
  names.isVariable_step proper (by decide) (by decide)

theorem Fork.variablesOf_retry :
    variablesOf (evaluate (Fork.received names ++ " and " ++ Fork.attempts names ++ " < " ++
      toString Fork.maxPromptAttempts)) = [names.result, Fork.attempts names] := by
  have attempts := Fork.isVariable_attempts proper
  have joined : ∀ rest, variablesFrom .gap (" and ".toList ++ rest) =
      variablesFrom .gap rest := fun _ => rfl
  have behind : ∀ letters rest, variablesFrom (.word letters) (" < ".toList ++ rest) =
      wordVariables letters ++ variablesFrom .gap rest := fun _ _ => rfl
  rw [variablesOf_evaluate, variablesIn]
  simp only [String.toList_append, List.append_assoc]
  rw [Fork.variablesFrom_received proper, joined, attempts.variablesFrom, behind,
    attempts.wordVariables, variablesFrom_toString]
  rfl

/-! ## Subflows and loops -/

/-- Whether a subflow has settled is read off its status. -/
theorem Subflow.variablesOf_settled (state : String) :
    variablesOf (evaluate (names.step "status" ++ ".body.status" ++ " == " ++ literal state)) =
      [names.step "status"] := by
  have status : IsVariable (names.step "status") :=
    names.isVariable_step proper (by decide) (by decide)
  have path : ∀ letters rest, variablesFrom (.word letters)
      (".body.status".toList ++ (" == ".toList ++ rest)) =
        wordVariables letters ++ variablesFrom .gap rest := fun _ _ => rfl
  rw [variablesOf_evaluate, variablesIn, ← List.append_nil (String.toList _)]
  simp only [String.toList_append, List.append_assoc]
  rw [status.variablesFrom, path, variablesFrom_literal, status.wordVariables]
  rfl

theorem Subflow.variablesOf_exhausted (limit : Nat) :
    variablesOf (evaluate (Subflow.polls names ++ " >= " ++ toString limit)) =
      [Subflow.polls names] := by
  have polls := Subflow.isVariable_polls proper
  have behind : ∀ letters rest, variablesFrom (.word letters) (" >= ".toList ++ rest) =
      wordVariables letters ++ variablesFrom .gap rest := fun _ _ => rfl
  rw [variablesOf_evaluate, variablesIn]
  simp only [String.toList_append, List.append_assoc]
  rw [polls.variablesFrom, behind, polls.wordVariables, variablesFrom_toString]
  rfl

theorem Subflow.variablesOf_execution :
    variablesOf (evaluate (Subflow.execution names)) = [Subflow.started names] := by
  have started : IsVariable (Subflow.started names) :=
    names.isVariable_step proper (by decide) (by decide)
  have behind : ∀ letters, variablesFrom (.word letters) ".body.execution_id".toList =
      wordVariables letters := fun _ => rfl
  rw [variablesOf_evaluate, variablesIn, Subflow.execution, String.toList_append,
    started.variablesFrom, behind, started.wordVariables]

theorem LoopStart.variablesOf_guard :
    variablesOf (evaluate (Registry.loopIndex ++ " >= " ++ LoopStart.limitVariable names)) =
      [Registry.loopIndex, LoopStart.limitVariable names] := by
  have limit : IsVariable (LoopStart.limitVariable names) :=
    names.isVariable_step proper (by decide) (by decide)
  have front : ∀ rest, variablesFrom .gap
      ((Registry.loopIndex ++ " >= ").toList ++ rest) =
        Registry.loopIndex :: variablesFrom .gap rest := fun _ => rfl
  rw [variablesOf_evaluate, variablesIn, String.toList_append, front,
    ← List.append_nil (LoopStart.limitVariable names).toList, limit.variablesFrom]
  exact congrArg _ limit.wordVariables

end

end FlowCompiler
