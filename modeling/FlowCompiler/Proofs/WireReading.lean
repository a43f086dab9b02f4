import FlowCompiler.Program.Wire
import FlowCompiler.Proofs.Jumps
import FlowCompiler.Proofs.TableEntries

namespace FlowCompiler

/-! Reading the wire format of programs. What is left out of it, because it is absent or empty, can
be told from what is there, so that a written program can be read back. Only a case without a
condition cannot be told from a case with the condition `true`. -/

/-! ## Explicit conditions -/

namespace Step

mutual
/-- The step with the condition `true` for every case that has none. -/
def explicit : Step → Step
  | .switch name cases => .switch name (explicitCases cases)
  | .block name steps => .block name (explicitSteps steps)
  | .loop name head steps => .loop name head (explicitSteps steps)
  | .call name invocation => .call name invocation
  | .assign name bindings => .assign name bindings
  | .raise name value => .raise name value
  | .return name value => .return name value

def explicitSteps : List Step → List Step
  | [] => []
  | step :: rest => explicit step :: explicitSteps rest

def explicitCases : List Case → List Case
  | [] => []
  | .mk condition steps next :: rest =>
      .mk (some (condition.getD (.bool true))) (explicitSteps steps) next :: explicitCases rest
end

end Step

def Routine.explicit (routine : Routine) : Routine :=
  { routine with steps := Step.explicitSteps routine.steps }

def Program.explicit (program : Program) : Program :=
  ⟨program.routines.map fun _ routine => routine.explicit⟩

/-! ## Parts of values -/

namespace Json

def natural? : Json → Option UInt64
  | .number (.natural value) => some value
  | _ => none

def double? : Json → Option Double
  | .number (.double value) => some value
  | _ => none

@[simp] theorem asText?_string (text : String) : (Json.string text).asText? = some text := rfl

@[simp] theorem natural?_ofUInt64 (value : UInt64) : (ofUInt64 value).natural? = some value := rfl

@[simp] theorem natural?_ofUInt32 (value : UInt32) :
    (ofUInt32 value).natural? = some value.toUInt64 := rfl

@[simp] theorem double?_ofDouble (value : Double) : (ofDouble value).double? = some value := rfl

end Json

/-! ## Calls and heads of loops -/

namespace RetryPolicy

def ofWire? (value : Json) : Option RetryPolicy := do
  let backoff ← value.member? "backoff"
  return {
    maxRetries := (← (← value.member? "max_retries").natural?).toUInt32
    initialDelaySecs := ← (← backoff.member? "initial_delay").natural?
    maxDelaySecs := ← (← backoff.member? "max_delay").natural?
    multiplier := ← (← backoff.member? "multiplier").double? }

@[simp] theorem ofWire?_wire (policy : RetryPolicy) : ofWire? policy.wire = some policy := by
  simp [ofWire?, wire, Json.member?]

end RetryPolicy

namespace Call

def argsOf : Option Json → Table Json
  | some (.object entries) => .ofList entries
  | _ => .empty

def ofMembers? (members : List (String × Json)) : Option Call := do
  return {
    target := ← (← Entries.get? "call" members).asText?
    args := argsOf (Entries.get? "args" members)
    result := (Entries.get? "result" members).bind Json.asText?
    retry := (Entries.get? "retry" members).bind RetryPolicy.ofWire? }

theorem argsOf_entries (args : Table Json) : argsOf (some (.object args.entries)) = args :=
  Table.eq_of_entries_eq (Table.entries_ofList args.distinct)

@[simp] theorem ofMembers?_wireMembers (call : Call) : ofMembers? call.wireMembers = some call := by
  obtain ⟨target, args, result, retry⟩ := call
  have present := argsOf_entries args
  cases empty : args.isEmpty with
  | true =>
      have none : args = .empty :=
        Table.eq_of_entries_eq (List.isEmpty_iff.mp empty)
      cases result <;> cases retry <;>
        simp [ofMembers?, wireMembers, optionalMember, Entries.get?, argsOf, none, Table.isEmpty,
          Table.empty]
  | false =>
      cases result <;> cases retry <;>
        simp [ofMembers?, wireMembers, optionalMember, Entries.get?, empty, present]

end Call

namespace LoopSource

def ofMembers? (members : List (String × Json)) : Option LoopSource :=
  match Entries.get? "in" members, Entries.get? "range" members with
  | some value, _ => some (.list value)
  | none, some (.array [first, last]) => do
      return .range (← first.natural?).toUInt32 (← last.natural?).toUInt32
  | _, _ => none

end LoopSource

namespace LoopHead

def ofMembers? (members : List (String × Json)) : Option LoopHead := do
  return {
    value := ← (← Entries.get? "value" members).asText?
    index := (Entries.get? "index" members).bind Json.asText?
    source := ← LoopSource.ofMembers? members }

@[simp] theorem ofMembers?_wireMembers (head : LoopHead) (steps : Json) :
    ofMembers? (head.wireMembers ++ [("steps", steps)]) = some head := by
  obtain ⟨value, index, source⟩ := head
  cases index <;> cases source <;>
    simp [ofMembers?, LoopSource.ofMembers?, wireMembers, optionalMember, Entries.get?]

end LoopHead

/-! ## Steps -/

namespace Step

mutual
def ofWire? : Json → Option Step
  | .object [(name, .object members)] => ofBody? name members
  | _ => none

def ofBody? (name : String) : List (String × Json) → Option Step
  | [] => none
  | (key, value) :: rest =>
      if key = "call" then (Call.ofMembers? ((key, value) :: rest)).map (.call name)
      else if key = "assign" then (bindingsOf? value).map (.assign name)
      else if key = "switch" then (casesOf? value).map (.switch name)
      else if key = "steps" then (stepsOf? value).map (.block name)
      else if key = "for" then loopOf? name value
      else if key = "raise" then some (.raise name value)
      else if key = "return" then some (.return name value)
      else none

def bindingsOf? : Json → Option (List (String × Json))
  | .array items => bindingsFrom? items
  | _ => none

def bindingsFrom? : List Json → Option (List (String × Json))
  | [] => some []
  | .object [binding] :: rest => (bindingsFrom? rest).map (binding :: ·)
  | _ => none

def stepsOf? : Json → Option (List Step)
  | .array items => stepsFrom? items
  | _ => none

def stepsFrom? : List Json → Option (List Step)
  | [] => some []
  | item :: rest => do return (← ofWire? item) :: (← stepsFrom? rest)

def stepsAmong? : List (String × Json) → Option (List Step)
  | [] => some []
  | (key, value) :: rest => if key = "steps" then stepsOf? value else stepsAmong? rest

def loopOf? (name : String) : Json → Option Step
  | .object members => do
      return .loop name (← LoopHead.ofMembers? members) (← stepsAmong? members)
  | _ => none

def casesOf? : Json → Option (List Case)
  | .array items => casesFrom? items
  | _ => none

def casesFrom? : List Json → Option (List Case)
  | [] => some []
  | item :: rest => do return (← caseOf? item) :: (← casesFrom? rest)

def caseOf? : Json → Option Case
  | .object members => do
      return .mk (some (← Entries.get? "condition" members)) (← stepsAmong? members)
        ((Entries.get? "next" members).bind Json.asText?)
  | _ => none
end

theorem bindingsFrom?_map (bindings : List (String × Json)) :
    bindingsFrom? (bindings.map fun binding => .object [binding]) = some bindings := by
  induction bindings with
  | nil => rfl
  | cons first rest induction => simp [bindingsFrom?, induction]

theorem stepsAmong?_head (head : LoopHead) (steps : Json) :
    stepsAmong? (head.wireMembers ++ [("steps", steps)]) = stepsOf? steps := by
  obtain ⟨value, index, source⟩ := head
  cases index <;> cases source <;>
    simp [LoopHead.wireMembers, optionalMember, stepsAmong?]

mutual
theorem ofWire?_wire : ∀ step : Step, ofWire? step.wire = some step.explicit
  | .call name invocation => by
      have read := Call.ofMembers?_wireMembers invocation
      obtain ⟨rest, members⟩ : ∃ rest, invocation.wireMembers =
          ("call", .string invocation.target) :: rest := ⟨_, rfl⟩
      rw [members] at read
      simp [wire, ofWire?, members, ofBody?, read, explicit]
  | .assign name bindings => by
      simp [wire, ofWire?, ofBody?, bindingsOf?, bindingsFrom?_map, explicit]
  | .switch name cases => by
      simp [wire, ofWire?, ofBody?, casesOf?, casesFrom?_wireCases cases, explicit]
  | .block name steps => by
      simp [wire, ofWire?, ofBody?, stepsOf?, stepsFrom?_wireSteps steps, explicit]
  | .loop name head steps => by
      simp [wire, ofWire?, ofBody?, loopOf?, stepsAmong?_head, stepsOf?,
        stepsFrom?_wireSteps steps, explicit]
  | .raise name value => by simp [wire, ofWire?, ofBody?, explicit]
  | .return name value => by simp [wire, ofWire?, ofBody?, explicit]

theorem stepsFrom?_wireSteps : ∀ steps : List Step,
    stepsFrom? (wireSteps steps) = some (explicitSteps steps)
  | [] => rfl
  | step :: rest => by
      simp [wireSteps, stepsFrom?, ofWire?_wire step, stepsFrom?_wireSteps rest, explicitSteps]

theorem casesFrom?_wireCases : ∀ cases : List Case,
    casesFrom? (wireCases cases) = some (explicitCases cases)
  | [] => rfl
  | .mk condition steps next :: rest => by
      have nested := stepsFrom?_wireSteps steps
      have behind := casesFrom?_wireCases rest
      cases steps with
      | nil =>
          cases next <;>
            simp [wireCases, casesFrom?, caseOf?, optionalMember, Entries.get?, stepsAmong?,
              behind, explicitCases, explicitSteps]
      | cons first others =>
          cases next <;>
            simp [wireCases, casesFrom?, caseOf?, optionalMember, Entries.get?, stepsAmong?,
              stepsOf?, nested, behind, explicitCases]
end

theorem isEmpty_explicitSteps (steps : List Step) :
    (explicitSteps steps).isEmpty = steps.isEmpty := by
  cases steps <;> rfl

mutual
/-- Conditions are written as if they were explicit. -/
theorem wire_explicit : ∀ step : Step, step.explicit.wire = step.wire
  | .switch name cases => by rw [explicit, wire, wire, wireCases_explicitCases cases]
  | .block name steps => by rw [explicit, wire, wire, wireSteps_explicitSteps steps]
  | .loop name head steps => by rw [explicit, wire, wire, wireSteps_explicitSteps steps]
  | .call .. => rfl
  | .assign .. => rfl
  | .raise .. => rfl
  | .return .. => rfl

theorem wireSteps_explicitSteps : ∀ steps : List Step,
    wireSteps (explicitSteps steps) = wireSteps steps
  | [] => rfl
  | step :: rest => by
      rw [explicitSteps, wireSteps, wireSteps, wire_explicit step, wireSteps_explicitSteps rest]

theorem wireCases_explicitCases : ∀ cases : List Case,
    wireCases (explicitCases cases) = wireCases cases
  | [] => rfl
  | .mk condition steps next :: rest => by
      rw [explicitCases, wireCases, wireCases, isEmpty_explicitSteps,
        wireSteps_explicitSteps steps, wireCases_explicitCases rest]
      rfl
end

end Step

/-! ## Programs -/

namespace Routine

def ofWire? (value : Json) : Option Routine :=
  match value.member? "params", value.member? "steps" with
  | some (.array params), some steps => do
      return { params := ← params.mapM Json.asText?, steps := ← Step.stepsOf? steps }
  | _, _ => none

theorem ofWire?_wire (routine : Routine) : ofWire? routine.wire = some routine.explicit := by
  have params : (routine.params.map Json.string).mapM Json.asText? = some routine.params := by
    induction routine.params with
    | nil => rfl
    | cons first rest induction => simp [induction]
  simp [ofWire?, wire, Json.member?, params, Step.stepsOf?, Step.stepsFrom?_wireSteps, explicit]

theorem wire_explicit (routine : Routine) : routine.explicit.wire = routine.wire := by
  rw [explicit, wire, wire, Step.wireSteps_explicitSteps]

end Routine

namespace Program

def entryOf? (member : String × Json) : Option (String × Routine) := do
  return (member.1, ← Routine.ofWire? member.2)

def ofWire? : Json → Option Program
  | .object members => do return ⟨.ofList (← members.mapM entryOf?)⟩
  | _ => none

theorem ofWire?_wire (program : Program) : ofWire? program.wire = some program.explicit := by
  have entries : (program.routines.map fun _ routine => routine.wire).entries.mapM entryOf? =
      some program.explicit.routines.entries := by
    simp only [explicit, Table.map]
    induction program.routines.entries with
    | nil => rfl
    | cons first rest induction => simp [entryOf?, Routine.ofWire?_wire, induction]
  have same : Table.ofList program.explicit.routines.entries = program.explicit.routines :=
    Table.eq_of_entries_eq (Table.entries_ofList program.explicit.routines.distinct)
  simp [ofWire?, wire, entries, same]

theorem wire_explicit (program : Program) : program.explicit.wire = program.wire := by
  simp [wire, explicit, Table.map, Routine.wire_explicit]

end Program

/-- The wire format of a program can be read back, up to the condition `true` for cases that have
none, and programs that differ in anything else have different wire formats. -/
theorem wire_loses_nothing (program : Program) :
    Program.ofWire? program.wire = some program.explicit ∧
      ∀ other : Program, program.wire = other.wire ↔ program.explicit = other.explicit := by
  refine ⟨program.ofWire?_wire, ?_⟩
  intro other
  constructor
  · intro same
    have read := program.ofWire?_wire
    rw [same, other.ofWire?_wire] at read
    exact (Option.some.inj read).symm
  · intro same
    rw [← program.wire_explicit, ← other.wire_explicit, same]

end FlowCompiler
