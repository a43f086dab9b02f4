import FlowCompiler.Lowering.Request

namespace FlowCompiler.Action

/-! The steps of actions, and the values that they bind for later nodes. -/

open Expression Lowering

def steps (settings : Settings) (names : Names) (registry : Registry) : Action → List Step
  | .message sent =>
      [post settings (names.step "send") messagesPath
        (messageBody registry "text" [("text", .string sent.message)])
        (some (names.step "response"))]
  | .delay pause =>
      [.call (names.step "sleep") {
        target := Primitive.sleep
        args := .ofList [("seconds", .ofUInt64 pause.seconds)]
        result := none
        retry := none }]
  | .saveFields save =>
      [post settings (names.step "save") "/v1/contacts/data"
        (.object [
          ("branch_id", registry.reference Registry.branchId),
          ("contact_id", evaluate "tg.contact.id"),
          ("collection", .string (save.collection.getD "contact")),
          ("fields", .object
            (Table.ofList (save.fields.map fun field => (field.key, field.value))).entries)])
        (some (names.step "response"))]
  | .saveVariable save =>
      [post settings (names.step "save") "/v1/contacts/variables"
        (.object [
          ("branch_id", registry.reference Registry.branchId),
          ("contact_id", evaluate "tg.contact.id"),
          ("name", .string save.variableName),
          ("value", save.value)])
        (some (names.step "response"))]
  | .apiCall request =>
      let headers := request.headers.map fun _ value => Json.string value
      [.call (names.step "request") {
        target := Primitive.httpRequest
        args := .ofList (
          [("method", .string request.method.name), ("url", .string request.url)] ++
          (if headers.isEmpty then [] else [("headers", .object headers.entries)]) ++
          (match request.body with
            | some body => [("body", body)]
            | none => []))
        result := some (names.step "response")
        retry := some settings.httpRetry }]
  | .webhook hook =>
      [.call (names.step "await") {
        target := Primitive.awaitCallback
        args := .ofList [
          ("source", .string (hook.source.getD "webhook")),
          ("timeout", .ofUInt64 (hook.timeoutSeconds.getD settings.webhookTimeoutSecs)),
          ("correlation_id",
            evaluate ("tg.session_id + " ++ literal (":" ++ names.result)))]
        result := some (names.step "event")
        retry := none }]
  | .alert notice =>
      [post settings (names.step "send") "/v1/alerts"
        (.object [
          ("branch_id", registry.reference Registry.branchId),
          ("branch_name", registry.reference Registry.branchName),
          ("session_id", evaluate "tg.session_id"),
          ("channel", .string notice.channel),
          ("recipients", .array (notice.recipients.map Json.string)),
          ("message", .string notice.message)])
        (some (names.step "response"))]
  | .utility request =>
      [post settings (names.step "run") ("/v1/utilities/" ++ request.function)
        (.object [
          ("branch_id", registry.reference Registry.branchId),
          ("session_id", evaluate "tg.session_id"),
          ("arguments", .object request.arguments.entries)])
        (some (names.step "response"))]

/-- The value that an action binds. A delay binds none, and a saved variable is its own
value; all others bind a part of the response. -/
def result? (names : Names) : Action → Option Json
  | .delay _ => none
  | .saveVariable save => some save.value
  | .webhook _ => some (evaluate (names.step "event" ++ ".body"))
  | .utility _ => some (evaluate (names.step "response" ++ ".body.result"))
  | .message _ | .saveFields _ | .apiCall _ | .alert _ =>
      some (evaluate (names.step "response" ++ ".body"))

def binding (names : Names) (action : Action) : List Step :=
  match action.result? names with
  | some value => [assignResult names value]
  | none => []

def registryAfter (names : Names) (registry : Registry) (action : Action) : Registry :=
  match action.result? names with
  | some _ => registry.bindVariable names.result
  | none => registry

end FlowCompiler.Action
