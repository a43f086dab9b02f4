import FlowCompiler.Lowering.Request

namespace FlowCompiler.Fork

/-! The steps of forks: ask a contact or the backend, then call the routine of the exit that
the answer chooses. -/

open Expression Lowering

/-- How often a prompt is sent at most, the first time included. -/
def maxPromptAttempts : Nat := 5

/-! ## Asking -/

def content : Fork → String × List (String × Json)
  | .text message => ("text", [("text", .string message.message)])
  | .buttons prompt =>
      ("buttons", [
        ("text", .string prompt.message),
        ("buttons", .array (prompt.buttons.map Button.toJson))])
  | .list prompt =>
      ("list", [
        ("text", .string prompt.message),
        ("button", .string (prompt.buttonLabel.getD "Options")),
        ("sections", .array (prompt.sections.map ListSection.toJson))])
  | .split _ | .branch _ => ("", [])

def timeout? : Fork → Option UInt64
  | .text message => message.timeoutSeconds
  | .buttons prompt => prompt.timeoutSeconds
  | .list prompt => prompt.timeoutSeconds
  | .split _ | .branch _ => none

def attempts (names : Names) : String :=
  names.step "attempts"

def promptSteps (settings : Settings) (names : Names) (registry : Registry) (fork : Fork) :
    List Step :=
  let (type, content) := fork.content
  (if fork.asksAgain then
    [.assign (names.step "init") [(attempts names, .ofUInt64 1)]]
  else []) ++ [
    post settings (names.step "send") messagesPath (messageBody registry type content)
      (some (names.step "sent")),
    .call (names.step "await") {
      target := Primitive.awaitCallback
      args := .ofList [
        ("source", .string "messaging"),
        ("timeout", .ofUInt64 (fork.timeout?.getD settings.responseTimeoutSecs)),
        ("correlation_id", evaluate "tg.session_id")]
      result := some names.result
      retry := none }]

def evaluationSteps (settings : Settings) (names : Names) (registry : Registry)
    (rules : List (String × Json)) : List Step :=
  [post settings (names.step "evaluate") "/v1/conditions/evaluate"
    (.object ([
      ("branch_id", registry.reference Registry.branchId),
      ("session_id", evaluate "tg.session_id"),
      ("contact", evaluate "tg.contact")] ++ rules))
    (some (names.step "response")),
  assignResult names (evaluate (names.step "response" ++ ".body.result"))]

def openingSteps (settings : Settings) (names : Names) (registry : Registry) (fork : Fork) :
    List Step :=
  match fork with
  | .split rules =>
      evaluationSteps settings names registry [
        ("conditions", .array (rules.conditions.map Condition.toJson)),
        ("logic", .string rules.logic.name)]
  | .branch choice =>
      evaluationSteps settings names registry [
        ("branches", .array (choice.paths.map BranchPath.toJson))]
  | prompt => prompt.promptSteps settings names registry

/-! ## Choosing -/

def received (names : Names) : String :=
  names.result ++ ".status == " ++ literal "received"

def condition? (names : Names) : ExitTest → Option Json
  | .reply id =>
      some (evaluate (received names ++ " and " ++ names.result ++ ".body.reply_id == " ++
        literal id))
  | .text none => some (evaluate (received names))
  | .text (some format) =>
      some (evaluate (received names ++ " and text.match_regex(" ++ names.result ++
        ".body.text, " ++ literal format.pattern ++ ")"))
  | .verdict => some (evaluate (names.result ++ " == true"))
  | .label name => some (evaluate (names.result ++ " == " ++ literal name))
  | .otherwise | .aborted => none

def exitCase (names : Names) (registry : Registry) (exit : Exit) : Case :=
  .mk (condition? names exit.test)
    [dispatch (names.step exit.dispatch) (names.routine exit.slug) names registry] none

def retryCase (names : Names) : Case :=
  .mk
    (some (evaluate (received names ++ " and " ++ attempts names ++ " < " ++
      toString maxPromptAttempts)))
    [.assign (names.step "retry") [(attempts names, evaluate (attempts names ++ " + 1"))]]
    (some (names.step "send"))

/-- The cases of the choice, one for each exit. A prompt that asks again does so before it
resorts to the exit for no response. -/
def cases (names : Names) (registry : Registry) (fork : Fork) (exits : List Exit) : List Case :=
  exits.flatMap fun exit =>
    (if fork.asksAgain ∧ exit.test = .otherwise then [retryCase names] else []) ++
      [exitCase names registry exit]

def steps (settings : Settings) (names : Names) (registry : Registry) (fork : Fork)
    (exits : List Exit) : List Step :=
  fork.openingSteps settings names registry ++
    [.switch (names.step "route")
      (fork.cases names (registry.bindVariable names.result) exits)]

end FlowCompiler.Fork
