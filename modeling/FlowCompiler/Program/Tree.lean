import FlowCompiler.Json.Printer
import FlowCompiler.Program.Basic
import FlowCompiler.Program.Expression

namespace FlowCompiler

/-! The tree view of a program: one line for every routine, step and switch case. -/

namespace Tree

def marker (last : Bool) : String :=
  if last then "└── " else "├── "

def indentation (last : Bool) : String :=
  if last then "    " else "│   "

/-- A value on one line: the body of an expression, and any other value as it is written. -/
def brief (value : Json) : String :=
  (Expression.body? value).getD value.compact

def summary : Step → String
  | .call _ call =>
      "call " ++ call.target ++
        match call.result with
        | some result => " -> " ++ result
        | none => ""
  | .assign _ bindings => "assign " ++ ", ".intercalate (bindings.map Prod.fst)
  | .switch .. => "switch"
  | .block .. => "block"
  | .loop _ head _ =>
      "for " ++ head.value ++ " in " ++
        match head.source with
        | .list value => brief value
        | .range first last =>
            "[" ++ toString first.toNat ++ "..=" ++ toString last.toNat ++ "]"
  | .raise _ value => "raise " ++ brief value
  | .return _ value => "return " ++ brief value

def caseSummary (condition : Option Json) (next : Option String) : String :=
  "when " ++
    (match condition with
      | some condition => brief condition
      | none => "otherwise") ++
    match next with
    | some next => " => next " ++ next
    | none => ""

mutual
def stepLines (indent : String) (last : Bool) (step : Step) : List String :=
  match step with
  | .block name steps =>
      (indent ++ marker last ++ name ++ ": " ++ summary (.block name steps)) ::
        stepsLines (indent ++ indentation last) steps
  | .switch name cases =>
      (indent ++ marker last ++ name ++ ": " ++ summary (.switch name cases)) ::
        casesLines (indent ++ indentation last) cases
  | .loop name head steps =>
      (indent ++ marker last ++ name ++ ": " ++ summary (.loop name head steps)) ::
        stepsLines (indent ++ indentation last) steps
  | step => [indent ++ marker last ++ step.name ++ ": " ++ summary step]

def stepsLines (indent : String) : List Step → List String
  | [] => []
  | step :: rest => stepLines indent rest.isEmpty step ++ stepsLines indent rest

def casesLines (indent : String) : List Case → List String
  | [] => []
  | .mk condition steps next :: rest =>
      (indent ++ marker rest.isEmpty ++ caseSummary condition next) ::
        (stepsLines (indent ++ indentation rest.isEmpty) steps ++ casesLines indent rest)
end

def routineLines (name : String) (routine : Routine) : List String :=
  (name ++ "(" ++ ", ".intercalate routine.params ++ ")") :: stepsLines "" routine.steps

end Tree

namespace Program

def treeLines (program : Program) : List String :=
  program.routines.entries.flatMap fun entry => Tree.routineLines entry.1 entry.2

def tree (program : Program) : String :=
  String.join (program.treeLines.map fun line => line ++ "\n")

end Program

end FlowCompiler
