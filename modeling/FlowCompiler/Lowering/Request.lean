import FlowCompiler.Lowering.Names
import FlowCompiler.Lowering.Registry
import FlowCompiler.Program.Basic
import FlowCompiler.Program.Primitive

namespace FlowCompiler.Lowering

/-! Steps that many kinds of nodes share: requests to the backend, and calls of generated
routines. -/

open Expression

def endpoint (path : String) : Json :=
  evaluate (Registry.apiBase ++ " + " ++ literal path)

def post (settings : Settings) (name path : String) (body : Json) (result : Option String) :
    Step :=
  .call name {
    target := Primitive.httpPost
    args := .ofList [("url", endpoint path), ("body", body)]
    result
    retry := some settings.httpRetry }

def clearSession (settings : Settings) (name : String) : Step :=
  post settings name "/v1/sessions/clear"
    (.object [("session_id", evaluate "tg.session_id")]) none

def dispatch (name routine : String) (names : Names) (registry : Registry) : Step :=
  .call name {
    target := routine
    args := registry.callArgs
    result := some (names.step "outcome")
    retry := none }

def assignResult (names : Names) (value : Json) : Step :=
  .assign (names.step "assign") [(names.result, value)]

/-! ## Messages -/

def messagesPath : String := "/v1/messages"

def messageBody (registry : Registry) (type : String) (content : List (String × Json)) : Json :=
  .object [
    ("branch_id", registry.reference Registry.branchId),
    ("session_id", evaluate "tg.session_id"),
    ("to", evaluate "tg.contact.phone"),
    ("type", .string type),
    ("content", .object content)]

end FlowCompiler.Lowering
