import FlowCompiler.Json.Printer
import FlowCompiler.Program.Basic

namespace FlowCompiler

/-! The wire format of programs: the value that the engine reads. A step is an object with
its name as the only member, and parts that are absent or empty are left out. -/

def optionalMember {α : Type} (name : String) (toJson : α → Json) :
    Option α → List (String × Json)
  | some value => [(name, toJson value)]
  | none => []

namespace RetryPolicy

def wire (policy : RetryPolicy) : Json :=
  .object [
    ("predicate", .string "$\x7bhttp.default_retry_predicate\x7d"),
    ("max_retries", .ofUInt32 policy.maxRetries),
    ("backoff", .object [
      ("initial_delay", .ofUInt64 policy.initialDelaySecs),
      ("max_delay", .ofUInt64 policy.maxDelaySecs),
      ("multiplier", .ofDouble policy.multiplier)])]

end RetryPolicy

namespace Call

def wireMembers (call : Call) : List (String × Json) :=
  [("call", .string call.target)] ++
    (if call.args.isEmpty then [] else [("args", .object call.args.entries)]) ++
    optionalMember "result" Json.string call.result ++
    optionalMember "retry" RetryPolicy.wire call.retry

end Call

namespace LoopHead

def wireMembers (head : LoopHead) : List (String × Json) :=
  [("value", .string head.value)] ++
    optionalMember "index" Json.string head.index ++
    match head.source with
    | .list value => [("in", value)]
    | .range first last => [("range", .array [.ofUInt32 first, .ofUInt32 last])]

end LoopHead

namespace Step

mutual
def wire : Step → Json
  | .call name invocation => .object [(name, .object invocation.wireMembers)]
  | .assign name bindings =>
      .object [(name, .object [("assign",
        .array (bindings.map fun binding => .object [binding]))])]
  | .switch name cases => .object [(name, .object [("switch", .array (wireCases cases))])]
  | .block name steps => .object [(name, .object [("steps", .array (wireSteps steps))])]
  | .loop name head steps =>
      .object [(name, .object [("for",
        .object (head.wireMembers ++ [("steps", .array (wireSteps steps))]))])]
  | .raise name value => .object [(name, .object [("raise", value)])]
  | .return name value => .object [(name, .object [("return", value)])]

def wireSteps : List Step → List Json
  | [] => []
  | step :: rest => wire step :: wireSteps rest

/-- The values of a list of cases. A case without a condition is written with the condition
`true`. -/
def wireCases : List Case → List Json
  | [] => []
  | .mk condition steps next :: rest =>
      .object ([("condition", condition.getD (.bool true))] ++
        (if steps.isEmpty then [] else [("steps", .array (wireSteps steps))]) ++
        optionalMember "next" Json.string next) :: wireCases rest
end

end Step

def Routine.wire (routine : Routine) : Json :=
  .object [
    ("params", .array (routine.params.map Json.string)),
    ("steps", .array (Step.wireSteps routine.steps))]

namespace Program

def wire (program : Program) : Json :=
  .object (program.routines.map fun _ routine => routine.wire).entries

def toText (program : Program) : String :=
  program.wire.pretty

end Program

end FlowCompiler
