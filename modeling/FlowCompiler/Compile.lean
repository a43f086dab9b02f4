import FlowCompiler.Branch
import FlowCompiler.Flow.Loader
import FlowCompiler.Lowering.Emission
import FlowCompiler.Lowering.Unfold
import FlowCompiler.Program.Verify

namespace FlowCompiler

/-! Compiling a flow into a program. The program is determined by the flow, the branch for
which the flow is made, and the settings. -/

inductive CompileError where
  | load (error : LoadError)
  | lookup (error : LookupError)
  | walk (error : WalkError)
  | program (error : ProgramError)
deriving DecidableEq

def CompileError.message : CompileError → String
  | .load error => error.message
  | .lookup error => "Branch lookup failed: " ++ error.message
  | .walk error => error.message
  | .program error => "Generated program is invalid: " ++ error.message

namespace Compile

open Expression Lowering

/-! ## The beginning of `main` -/

def setupName : String := "branch_setup"

def branchRegistry (flow : Flow) (branch : Branch) : Registry :=
  (Registry.empty.bind Registry.branchId (.string flow.branchId)).bind
    Registry.branchName (.string branch.name)

def setupRoutine (settings : Settings) (flow : Flow) (registry : Registry) : Routine where
  params := registry.params
  steps := [
    .call "read_api_base" {
      target := Primitive.getEnv
      args := .ofList [("name", .string settings.baseUrlEnv)]
      result := some Registry.apiBase
      retry := none },
    .call "log_start" {
      target := Primitive.log
      args := .ofList [
        ("text", evaluate (literal ("Flow '" ++ flow.title ++ "' started for branch ") ++ " + " ++
          Registry.branchName)),
        ("severity", .string "INFO")]
      result := none
      retry := none },
    .return "finish" (ofVariable Registry.apiBase)]

def setupStep (registry : Registry) : Step :=
  .call setupName {
    target := setupName
    args := registry.callArgs
    result := some Registry.apiBase
    retry := none }

/-- The nodes behind the trigger that bind a value, one for each edge. Routines may read their
values before they are bound. -/
def triggerChildren (graph : Graph) (trigger : Node) : List Node :=
  ((graph.outgoing trigger.id).filterMap fun edge => graph.node? edge.target).filter
    fun child => child.kind.producesResult

def reserveAll (source : NameSource) (registry : Registry) :
    List Node → NameSource × Registry
  | [] => (source, registry)
  | child :: rest =>
      let (names, source) := source.reserve child
      reserveAll source (registry.reserve names.result) rest

/-! ## The program -/

def emptyProgram : Program where
  routines := .ofList [(Program.mainName, {
    params := [Registry.state]
    steps := [.return "no_reachable_action" (.string "No reachable action")] })]

def assemble (settings : Settings) (flow : Flow) (branch : Branch) (children : List Node)
    (walk : Walk Node) : Program :=
  let branchRegistry := branchRegistry flow branch
  let (source, registry) :=
    reserveAll .start (branchRegistry.bindVariable Registry.apiBase) children
  let scope : Scope := ⟨registry, false⟩
  let (walk, _) := walk.name source
  let main : Routine := {
    params := [Registry.state]
    steps := [setupStep branchRegistry] ++ walk.steps settings scope ++
      [clearSession settings "clear_session", Walk.finishStep] }
  { routines := .ofList (
      (Program.mainName, main) ::
      (setupName, setupRoutine settings flow branchRegistry) ::
      walk.routines settings scope) }

/-- The program of a flow, not yet checked. The branch is looked up only if there is something
to run. -/
def build (settings : Settings) (lookup : BranchLookup) (flow : Flow) :
    Except CompileError Program :=
  match flow.trigger? with
  | none => .error (.load (.missingTrigger flow.flowId))
  | some trigger =>
      let graph := Graph.ofFlow flow
      match graph.next? trigger.id .nextStep with
      | none => .ok emptyProgram
      | some first => do
          let branch ← (lookup flow.branchId).mapError .lookup
          let walk ← (graph.unfold none graph.ids first).mapError .walk
          return assemble settings flow branch (triggerChildren graph trigger) walk

end Compile

def compile (settings : Settings) (lookup : BranchLookup) (flow : Flow) :
    Except CompileError Program := do
  let program ← Compile.build settings lookup flow
  program.verify.mapError .program
  return program

def compileText (lookup : BranchLookup) (text : String) : Except CompileError Program := do
  let flow ← (Flow.parse .empty text).mapError .load
  compile .standard lookup flow

end FlowCompiler
