import FlowCompiler.Program.Basic
import FlowCompiler.Program.Primitive

namespace FlowCompiler

/-! Checking that a program holds together: there is a `main` routine, step names are unique
within a routine, calls of routines and jumps lead somewhere. -/

inductive ProgramError where
  | danglingCall (routine target : String)
  | unknownJumpTarget (routine target : String)
  | duplicateStepName (routine step : String)
  | missingMain
deriving DecidableEq

def ProgramError.message : ProgramError → String
  | .danglingCall routine target =>
      "Routine '" ++ routine ++ "' calls '" ++ target ++
        "', which is not defined in the program"
  | .unknownJumpTarget routine target =>
      "Routine '" ++ routine ++ "' jumps to unknown step '" ++ target ++ "'"
  | .duplicateStepName routine step =>
      "Routine '" ++ routine ++ "' defines the step '" ++ step ++ "' more than once"
  | .missingMain => "Program has no 'main' routine"

namespace Step

def danglingTarget? (program : Program) (step : Step) : Option String :=
  match step.call? with
  | some invocation =>
      if Primitive.isPrimitive invocation.target || program.contains invocation.target then none
      else some invocation.target
  | none => none

def jumps (step : Step) : List String :=
  step.cases.filterMap Case.next

end Step

namespace Program

/-- The first step whose name is among `seen` or occurred before, or whose call leads nowhere. -/
def stepError? (program : Program) (routine : String) (seen : List String) :
    List Step → Option ProgramError
  | [] => none
  | step :: rest =>
      if step.name ∈ seen then some (.duplicateStepName routine step.name)
      else
        match step.danglingTarget? program with
        | some target => some (.danglingCall routine target)
        | none => stepError? program routine (step.name :: seen) rest

/-- The first jump of these steps that leads neither to one of them nor to a target of the
engine. -/
def jumpError? (routine : String) (steps : List Step) : Option ProgramError :=
  let names := steps.map Step.name
  let isUnknown := fun target => target ∉ Primitive.reservedJumps ∧ target ∉ names
  ((steps.flatMap Step.jumps).find? fun target => isUnknown target).map
    (.unknownJumpTarget routine)

def routineError? (program : Program) (name : String) (routine : Routine) :
    Option ProgramError :=
  (program.stepError? name [] routine.flatten).or (jumpError? name routine.flatten)

def verify (program : Program) : Except ProgramError Unit :=
  if program.main?.isNone then .error .missingMain
  else
    match program.routines.entries.findSome? fun entry =>
        program.routineError? entry.1 entry.2 with
    | some error => .error error
    | none => .ok ()

end Program

end FlowCompiler
