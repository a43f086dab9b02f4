import FlowCompiler.Lowering.Registry
import FlowCompiler.Program.Basic
import FlowCompiler.Program.Primitive
import FlowCompiler.Proofs.Variables
import Mathlib.Tactic.Tauto

namespace FlowCompiler

/-! The sites of a routine: its steps at any depth, each with the variables that are defined on
every path to it. These are the parameters, and what is written by earlier steps of the same list
and of the lists around it. -/

/-! ## Definitions in front of a step -/

namespace Step

def writes : Step → List String
  | .call _ invocation => invocation.result.toList
  | .assign _ bindings => bindings.map Prod.fst
  | .switch .. | .block .. | .loop .. | .raise .. | .return .. => []

def definedAfter (defined : List String) : List Step → List String
  | [] => defined
  | step :: rest => definedAfter (step.writes ++ defined) rest

end Step

def LoopHead.bound (head : LoopHead) : List String :=
  head.value :: head.index.toList

structure Site where
  defined : List String
  step : Step

namespace Step

mutual
def innerSites (defined : List String) : Step → List Site
  | .block _ steps => sites defined steps
  | .switch _ cases => caseSites defined cases
  | .loop _ head steps => sites (head.bound ++ defined) steps
  | .call .. | .assign .. | .raise .. | .return .. => []

def sites (defined : List String) : List Step → List Site
  | [] => []
  | step :: rest =>
      ⟨defined, step⟩ :: (innerSites defined step ++ sites (step.writes ++ defined) rest)

def caseSites (defined : List String) : List Case → List Site
  | [] => []
  | .mk _ steps _ :: rest => sites defined steps ++ caseSites defined rest
end

end Step

def Routine.sites (routine : Routine) : List Site :=
  Step.sites routine.params routine.steps

/-! ## Evaluated values -/

def Primitive.evaluatedKeys (target : String) : List String :=
  if target ∈ [httpGet, httpPost, httpDelete] then ["url"]
  else if target = awaitCallback then ["correlation_id"]
  else if target = log then ["text"]
  else []

namespace Step

def assigned : Step → List Json
  | .assign _ bindings => bindings.map Prod.snd
  | _ => []

/-- The expressions of a step that are made by the compiler alone: addresses, conditions and the
counters that are changed under them, sources of loops, what is returned, and the variables in
the error of an aborted subflow. -/
def expressions : Step → List Json
  | .call _ invocation =>
      (Primitive.evaluatedKeys invocation.target).filterMap invocation.args.get?
  | .switch _ cases => cases.flatMap fun branch =>
      branch.condition.toList ++ branch.steps.flatMap assigned
  | .loop _ head _ =>
      match head.source with
      | .list value => [value]
      | .range _ _ => []
  | .raise _ (.object members) =>
      ["execution_id", "polls"].filterMap fun key => Entries.get? key members
  | .return _ value => [value]
  | .raise .. | .assign .. | .block .. => []

end Step

/-! ## Sound sites -/

open Expression

/-- What a call may pass on as a variable: the variable itself, the number of iterations before
the running one, or a placeholder for a variable that is not set. -/
inductive Forwarded (placeholder : String → Json → Prop) (defined : List String) :
    String → Json → Prop
  | reference {name : String} (known : name ∈ defined) :
      Forwarded placeholder defined name (ofVariable name)
  | previous (known : Registry.loopItem ∈ defined) :
      Forwarded placeholder defined Registry.loopIndex (evaluate (Registry.loopItem ++ " - 1"))
  | placeholder {name : String} {value : Json} (given : placeholder name value)
      (unset : name ∉ defined) : Forwarded placeholder defined name value

structure Site.Sound (placeholder : String → Json → Prop) (site : Site) : Prop where
  reads : ∀ value ∈ site.step.expressions, ∀ name ∈ variablesOf value, name ∈ site.defined
  forwards : ∀ call ∈ site.step.call?, Primitive.isPrimitive call.target = false →
    ∀ entry ∈ call.args.entries, Forwarded placeholder site.defined entry.1 entry.2

namespace Step

def SoundAt (placeholder : String → Json → Prop) (defined : List String) (steps : List Step) :
    Prop :=
  ∀ site ∈ sites defined steps, site.Sound placeholder

section

variable {placeholder : String → Json → Prop} {defined : List String}

theorem mem_definedAfter {name : String} : ∀ {steps : List Step} {defined : List String},
    name ∈ definedAfter defined steps ↔ name ∈ defined ∨ name ∈ steps.flatMap writes
  | [], defined => by simp [definedAfter]
  | step :: rest, defined => by
      rw [definedAfter, mem_definedAfter, List.mem_append, List.flatMap_cons, List.mem_append]
      tauto

theorem subset_definedAfter (steps : List Step) : defined ⊆ definedAfter defined steps :=
  fun _ member => mem_definedAfter.mpr (.inl member)

theorem soundAt_nil : SoundAt placeholder defined [] := by
  intro site member
  cases member

theorem soundAt_cons {step : Step} {rest : List Step}
    (first : (⟨defined, step⟩ : Site).Sound placeholder)
    (inside : ∀ site ∈ innerSites defined step, site.Sound placeholder)
    (others : SoundAt placeholder (step.writes ++ defined) rest) :
    SoundAt placeholder defined (step :: rest) := by
  intro site member
  rcases List.mem_cons.mp member with equal | member
  · exact equal ▸ first
  · rcases List.mem_append.mp member with member | member
    · exact inside site member
    · exact others site member

theorem SoundAt.append {left right : List Step} (first : SoundAt placeholder defined left)
    (second : SoundAt placeholder (definedAfter defined left) right) :
    SoundAt placeholder defined (left ++ right) := by
  induction left generalizing defined with
  | nil => exact second
  | cons step rest induction =>
      have head := first ⟨defined, step⟩ List.mem_cons_self
      have inside : ∀ site ∈ innerSites defined step, site.Sound placeholder := fun site member =>
        first site (List.mem_cons_of_mem _ (List.mem_append_left _ member))
      have others : SoundAt placeholder (step.writes ++ defined) rest := fun site member =>
        first site (List.mem_cons_of_mem _ (List.mem_append_right _ member))
      exact soundAt_cons head inside (induction others second)

/-- Steps that neither call generated routines nor evaluate anything are sound. -/
theorem sound_of_silent {step : Step} (silent : step.expressions = [])
    (primitive : ∀ call ∈ step.call?, Primitive.isPrimitive call.target) :
    (⟨defined, step⟩ : Site).Sound placeholder := by
  refine ⟨fun value member => ?_, fun call called generated => ?_⟩
  · rw [silent] at member
    cases member
  · rw [primitive call called] at generated
    cases generated

theorem SoundAt.block {steps : List Step} (inside : SoundAt placeholder defined steps)
    (name : String) : SoundAt placeholder defined [.block name steps] := by
  refine soundAt_cons (sound_of_silent rfl ?_) inside soundAt_nil
  rintro call ⟨⟩

end

end Step

end FlowCompiler
