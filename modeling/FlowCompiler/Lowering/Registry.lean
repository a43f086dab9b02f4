import FlowCompiler.Program.Expression
import FlowCompiler.Table

namespace FlowCompiler

/-! Registries: the variables that can be read at a point of a program, each with the value
that reads it there. Every generated routine has one parameter for each of them, and every
call of such a routine passes all of them on, so that a routine can read what the routines
that lead to it have computed. Variables are added or rebound, never removed. -/

structure Registry where
  bindings : Table Json
deriving DecidableEq

namespace Registry

/-! ## Fixed variables -/

def state : String := "tg"

def apiBase : String := "api_base"

def branchId : String := "branch_id"

def branchName : String := "branch_name"

def loopItem : String := "loop_item"

def loopIndex : String := "loop_index"

/-! ## Operations -/

def empty : Registry :=
  ⟨.empty⟩

def bind (registry : Registry) (name : String) (value : Json) : Registry :=
  ⟨registry.bindings.insert name value⟩

def bindVariable (registry : Registry) (name : String) : Registry :=
  registry.bind name (Expression.ofVariable name)

def contains (registry : Registry) (name : String) : Bool :=
  registry.bindings.contains name

def reserve (registry : Registry) (name : String) : Registry :=
  if registry.contains name then registry else registry.bind name .null

def get? (registry : Registry) (name : String) : Option Json :=
  registry.bindings.get? name

def reference (registry : Registry) (name : String) : Json :=
  (registry.get? name).getD (Expression.ofVariable name)

def names (registry : Registry) : List String :=
  registry.bindings.keys

def params (registry : Registry) : List String :=
  state :: registry.names

def callArgs (registry : Registry) : Table Json :=
  (Table.empty.insert state (Expression.ofVariable state)).insertAll registry.bindings.entries

/-! A routine is entered with every variable as a parameter, so inside it each is read by its own
name. -/

def rebased (registry : Registry) : Registry :=
  ⟨registry.bindings.map fun name _ => Expression.ofVariable name⟩

end Registry

end FlowCompiler
