import FlowCompiler.Program.Step

namespace FlowCompiler

/-! Programs: named routines, of which `main` is where the engine starts. -/

structure Routine where
  params : List String
  steps : List Step
deriving DecidableEq

namespace Routine

def flatten (routine : Routine) : List Step :=
  Step.flattenSteps routine.steps

def stepCount (routine : Routine) : Nat :=
  routine.flatten.length

end Routine

structure Program where
  routines : Table Routine
deriving DecidableEq

namespace Program

def mainName : String := "main"

def main? (program : Program) : Option Routine :=
  program.routines.get? mainName

def contains (program : Program) (name : String) : Bool :=
  program.routines.contains name

def size (program : Program) : Nat :=
  program.routines.size

def isEmpty (program : Program) : Bool :=
  program.routines.isEmpty

def stepCount (program : Program) : Nat :=
  program.routines.values.foldr (fun routine count => routine.stepCount + count) 0

def shape (program : Program) : List (Nat × List String) :=
  program.routines.values.map fun routine =>
    (routine.params.length, routine.flatten.map Step.kindName)

end Program

end FlowCompiler
