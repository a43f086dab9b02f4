import FlowCompiler.Json.Basic
import FlowCompiler.Settings

namespace FlowCompiler

/-! Steps: the named instructions of a routine. -/

structure Call where
  target : String
  args : Table Json
  result : Option String
  retry : Option RetryPolicy
deriving DecidableEq

inductive LoopSource where
  | list (value : Json)
  | range (first last : UInt32)
deriving DecidableEq

structure LoopHead where
  value : String
  index : Option String
  source : LoopSource
deriving DecidableEq

mutual
inductive Step where
  | call (name : String) (call : Call)
  | assign (name : String) (bindings : List (String × Json))
  /-- The first case whose condition holds wins. -/
  | switch (name : String) (cases : List Case)
  | block (name : String) (steps : List Step)
  | loop (name : String) (head : LoopHead) (steps : List Step)
  | raise (name : String) (value : Json)
  | return (name : String) (value : Json)

inductive Case where
  /-- A case without a condition always holds. A case may jump to the step `next` after its
  own steps. -/
  | mk (condition : Option Json) (steps : List Step) (next : Option String)
end

namespace Case

def condition : Case → Option Json
  | .mk condition _ _ => condition

def steps : Case → List Step
  | .mk _ steps _ => steps

def next : Case → Option String
  | .mk _ _ next => next

end Case

namespace Step

def name : Step → String
  | .call name _ => name
  | .assign name _ => name
  | .switch name _ => name
  | .block name _ => name
  | .loop name _ _ => name
  | .raise name _ => name
  | .return name _ => name

def kindName : Step → String
  | .call .. => "call"
  | .assign .. => "assign"
  | .switch .. => "switch"
  | .block .. => "block"
  | .loop .. => "for"
  | .raise .. => "raise"
  | .return .. => "return"

def call? : Step → Option Call
  | .call _ invocation => some invocation
  | _ => none

def cases : Step → List Case
  | .switch _ cases => cases
  | _ => []

def children : Step → List Step
  | .block _ steps => steps
  | .switch _ cases => cases.flatMap Case.steps
  | .loop _ _ steps => steps
  | _ => []

mutual
def flatten : Step → List Step
  | .block name steps => .block name steps :: flattenSteps steps
  | .switch name cases => .switch name cases :: flattenCases cases
  | .loop name head steps => .loop name head steps :: flattenSteps steps
  | .call name invocation => [.call name invocation]
  | .assign name bindings => [.assign name bindings]
  | .raise name value => [.raise name value]
  | .return name value => [.return name value]

def flattenSteps : List Step → List Step
  | [] => []
  | step :: rest => flatten step ++ flattenSteps rest

def flattenCases : List Case → List Step
  | [] => []
  | .mk _ steps _ :: rest => flattenSteps steps ++ flattenCases rest
end

/-! ## Equality -/

mutual
def decideEq : (left right : Step) → Decidable (left = right)
  | .call name left, .call other right =>
      if equal : name = other ∧ left = right then isTrue (by simp [equal])
      else isFalse (by simpa using equal)
  | .assign name left, .assign other right =>
      if equal : name = other ∧ left = right then isTrue (by simp [equal])
      else isFalse (by simpa using equal)
  | .raise name left, .raise other right =>
      if equal : name = other ∧ left = right then isTrue (by simp [equal])
      else isFalse (by simpa using equal)
  | .return name left, .return other right =>
      if equal : name = other ∧ left = right then isTrue (by simp [equal])
      else isFalse (by simpa using equal)
  | .switch name left, .switch other right =>
      if same : name = other then
        match decideEqCases left right with
        | isTrue equal => isTrue (by simp [same, equal])
        | isFalse different => isFalse (by simp [different])
      else isFalse (by simp [same])
  | .block name left, .block other right =>
      if same : name = other then
        match decideEqSteps left right with
        | isTrue equal => isTrue (by simp [same, equal])
        | isFalse different => isFalse (by simp [different])
      else isFalse (by simp [same])
  | .loop name head left, .loop other head' right =>
      if same : name = other ∧ head = head' then
        match decideEqSteps left right with
        | isTrue equal => isTrue (by simp [same, equal])
        | isFalse different => isFalse (by simp [different])
      else isFalse (by simpa using fun names heads => absurd ⟨names, heads⟩ same)
  | .call .., .assign .. | .call .., .switch .. | .call .., .block .. | .call .., .loop ..
  | .call .., .raise .. | .call .., .return ..
  | .assign .., .call .. | .assign .., .switch .. | .assign .., .block .. | .assign .., .loop ..
  | .assign .., .raise .. | .assign .., .return ..
  | .switch .., .call .. | .switch .., .assign .. | .switch .., .block .. | .switch .., .loop ..
  | .switch .., .raise .. | .switch .., .return ..
  | .block .., .call .. | .block .., .assign .. | .block .., .switch .. | .block .., .loop ..
  | .block .., .raise .. | .block .., .return ..
  | .loop .., .call .. | .loop .., .assign .. | .loop .., .switch .. | .loop .., .block ..
  | .loop .., .raise .. | .loop .., .return ..
  | .raise .., .call .. | .raise .., .assign .. | .raise .., .switch .. | .raise .., .block ..
  | .raise .., .loop .. | .raise .., .return ..
  | .return .., .call .. | .return .., .assign .. | .return .., .switch ..
  | .return .., .block .. | .return .., .loop .. | .return .., .raise .. => isFalse (by simp)

def decideEqSteps : (left right : List Step) → Decidable (left = right)
  | [], [] => isTrue rfl
  | [], _ :: _ => isFalse (by simp)
  | _ :: _, [] => isFalse (by simp)
  | left :: lefts, right :: rights =>
      match decideEq left right, decideEqSteps lefts rights with
      | isTrue head, isTrue tail => isTrue (by simp [head, tail])
      | isFalse head, _ => isFalse (by simp [head])
      | _, isFalse tail => isFalse (by simp [tail])

def decideEqCases : (left right : List Case) → Decidable (left = right)
  | [], [] => isTrue rfl
  | [], _ :: _ => isFalse (by simp)
  | _ :: _, [] => isFalse (by simp)
  | .mk condition left next :: lefts, .mk condition' right next' :: rights =>
      if same : condition = condition' ∧ next = next' then
        match decideEqSteps left right, decideEqCases lefts rights with
        | isTrue head, isTrue tail => isTrue (by simp [same, head, tail])
        | isFalse head, _ => isFalse (by simp [head])
        | _, isFalse tail => isFalse (by simp [tail])
      else isFalse (by
        intro equal
        simp only [List.cons.injEq, Case.mk.injEq] at equal
        exact same ⟨equal.1.1, equal.1.2.2⟩)
end

instance : DecidableEq Step := decideEq

end Step

end FlowCompiler
