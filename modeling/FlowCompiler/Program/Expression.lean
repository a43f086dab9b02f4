import FlowCompiler.Json.Basic
import FlowCompiler.Json.Literal

namespace FlowCompiler.Expression

/-! Run-time expressions. The engine evaluates a string value of the form `${…}`; every other
value stands for itself. -/

def evaluate (body : String) : Json :=
  .string ("$\x7b" ++ body ++ "\x7d")

def ofVariable (name : String) : Json :=
  evaluate name

def literal (text : String) : String :=
  String.ofList (Json.Literal.write text.toList)

def bodyChars? : List Char → Option (List Char)
  | '$' :: '\x7b' :: rest => if rest.getLast? = some '\x7d' then some rest.dropLast else none
  | _ => none

def body? : Json → Option String
  | .string text => (bodyChars? text.toList).map String.ofList
  | _ => none

end FlowCompiler.Expression
