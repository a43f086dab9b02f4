import FlowCompiler.Lowering.Actions
import FlowCompiler.Lowering.Forks
import FlowCompiler.Lowering.Loops
import FlowCompiler.Lowering.Subflows

namespace FlowCompiler

/-! The program of a walk. What follows an action, a subflow or a loop is put into the block
of that node; every exit and every loop body becomes a routine of its own. -/

structure Scope where
  registry : Registry
  insideLoop : Bool

namespace Scope

def terminalValue (scope : Scope) : Json :=
  .string (if scope.insideLoop then LoopStart.continueValue else "No reachable action")

def bindResult (scope : Scope) (names : Names) : Scope :=
  { scope with registry := scope.registry.bindVariable names.result }

def afterAction (scope : Scope) (names : Names) (action : Action) : Scope :=
  { scope with registry := action.registryAfter names scope.registry }

def enterRoutine (scope : Scope) : Scope :=
  { scope with registry := scope.registry.rebased }

def enterLoop (scope : Scope) : Scope :=
  ⟨LoopStart.bodyRegistry scope.registry, true⟩

end Scope

namespace Walk

def steps (settings : Settings) (scope : Scope) : Walk Visit → List Step
  | .done => []
  | .terminal visit => [.return visit.names.result scope.terminalValue]
  | .action visit act next =>
      [.block visit.names.result
        (act.steps settings visit.names scope.registry ++ act.binding visit.names ++
          steps settings (scope.afterAction visit.names act) next)]
  | .fork visit choice exits =>
      [.block visit.names.result
        (choice.steps settings visit.names scope.registry (exits.map Prod.fst))]
  | .subflow visit called exits next =>
      [.block visit.names.result
        (called.steps settings visit.names scope.registry (exits.map Prod.fst) ++
          steps settings (scope.bindResult visit.names) next)]
  | .loop visit start _ next =>
      [.block visit.names.result
        (start.steps settings visit.names scope.registry ++ steps settings scope next)]

def finishStep : Step :=
  .return "finish" (Expression.ofVariable Registry.state)

def stubStep (exit : Exit) : Step :=
  .return "no_further_steps" (.string ("No further steps defined for `" ++ exit.label ++ "`"))

def exitRoutine (settings : Settings) (scope : Scope) (walk : Walk Visit) : Routine where
  params := scope.enterRoutine.registry.params
  steps := walk.steps settings scope.enterRoutine ++ [finishStep]

def stubRoutine (scope : Scope) (exit : Exit) : Routine where
  params := scope.enterRoutine.registry.params
  steps := [stubStep exit]

def bodyRoutine (settings : Settings) (scope : Scope) (body : Walk Visit) : Routine where
  params := scope.enterLoop.registry.params
  steps := body.steps settings scope.enterLoop ++
    [.return "finish" (.string LoopStart.continueValue)]

mutual
/-- The routines that belong to a walk, those that a routine calls in front of it. -/
def routines (settings : Settings) (scope : Scope) : Walk Visit → List (String × Routine)
  | .done => []
  | .terminal _ => []
  | .action visit act next => routines settings (scope.afterAction visit.names act) next
  | .fork visit _ exits => exitRoutines settings visit.names (scope.bindResult visit.names) exits
  | .subflow visit _ exits next =>
      exitRoutines settings visit.names scope exits ++
        routines settings (scope.bindResult visit.names) next
  | .loop visit _ body next =>
      routines settings scope.enterLoop body ++
        [(LoopStart.bodyRoutine visit.names, bodyRoutine settings scope body)] ++
        routines settings scope next

def exitRoutines (settings : Settings) (names : Names) (scope : Scope) :
    List (Exit × Option (Walk Visit)) → List (String × Routine)
  | [] => []
  | (exit, none) :: rest =>
      (names.routine exit.slug, stubRoutine scope exit) ::
        exitRoutines settings names scope rest
  | (exit, some walk) :: rest =>
      routines settings scope.enterRoutine walk ++
        (names.routine exit.slug, exitRoutine settings scope walk) ::
          exitRoutines settings names scope rest
end

end Walk

end FlowCompiler
