import FlowCompiler.Flow.Kind
import FlowCompiler.Text.Identifier

namespace FlowCompiler

/-! Outlets: the places of a node where edges leave it. An edge names its outlet by a handle,
and the outlet decides which handles are its own. -/

inductive Outlet where
  /-- A fixed name, which the handle must equal. -/
  | named (name : String)
  /-- The id of a button or a list row, in which the handle must end. -/
  | option (id : String)
  /-- The label of a branch path, in whose key the handle must end. -/
  | label (label : String)
deriving DecidableEq

namespace Outlet

/-! ## Fixed names -/

def nextStep : Outlet := .named "next-step"

def yes : Outlet := .named "yes"

def no : Outlet := .named "no"

def noResponse : Outlet := .named "no-response"

def failure : Outlet := .named "failure"

/-! ## Handles -/

def key : Outlet → String
  | .named name => name
  | .option id => id
  | .label text => Text.labelKey text

def isSeparator (character : Char) : Bool :=
  !(character.isAlphanum || character = '_')

/-- Whether `handle` ends in `key`, and `key` starts at the beginning or behind a separator:
`1` is at the end of `option-1` in this sense, but not of `option-11` or `option-b_1`. -/
def endsIn (key handle : List Char) : Bool :=
  key.isSuffixOf handle &&
    (handle.take (handle.length - key.length)).getLast?.all isSeparator

def accepts (outlet : Outlet) (handle : String) : Bool :=
  match outlet with
  | .named name => handle = name
  | .option _ | .label _ => endsIn outlet.key.toList handle.toList

def slug (outlet : Outlet) : String :=
  Text.identifierOr "port" outlet.key

end Outlet

/-- The outlets through which a node leads on, in the order in which they are followed. A
trigger is followed only at the start of a flow, and an unsupported node ends the run, but its
next step still ties it to the rest of a loop body. -/
def Kind.outlets : Kind → List Outlet
  | .sendText message =>
      if message.waitForResponse then [.yes, .noResponse] else [.nextStep]
  | .sendButtons prompt => prompt.buttons.map (fun button => .option button.id) ++ [.noResponse]
  | .sendList prompt => prompt.rows.map (fun row => .option row.id) ++ [.noResponse]
  | .conditionalSplit _ => [.yes, .no]
  | .conditionalBranch choice => choice.paths.map fun path => .label path.label
  | .subflow _ => [.failure, .nextStep]
  | .trigger _ => []
  | _ => [.nextStep]

example : (Outlet.option "1").accepts "option-1" := by decide
example : ¬ (Outlet.option "1").accepts "option-11" := by decide
example : ¬ (Outlet.option "1").accepts "option-b_1" := by decide

end FlowCompiler
