import FlowCompiler.Lowering.Request

namespace FlowCompiler.Subflow

/-! The steps of subflows: start another flow, ask for its state until it has settled, and
take its result over. -/

open Expression Lowering

/-! ## Abortion -/

inductive Abort where
  | failed
  | timedOut
deriving DecidableEq

namespace Abort

def label : Abort → String
  | .failed => "failed"
  | .timedOut => "timeout"

def code : Abort → String
  | .failed => "SUBFLOW_FAILED"
  | .timedOut => "SUBFLOW_TIMEOUT"

end Abort

def started (names : Names) : String :=
  names.step "started"

def execution (names : Names) : String :=
  started names ++ ".body.execution_id"

def polls (names : Names) : String :=
  names.step "polls"

/-- The steps that end the run when the subflow has no result: hand over to the exit for this
case, or raise an error where there is none. -/
def abortSteps (settings : Settings) (names : Names) (registry : Registry) (subflow : Subflow)
    (exits : List Exit) (abort : Abort) : List Step :=
  match exits with
  | [] =>
      [.raise (names.step (abort.label ++ "_raise")) (.object [
        ("code", .string abort.code),
        ("flow_id", .string subflow.subflowId),
        ("execution_id", evaluate (execution names)),
        ("polls", ofVariable (polls names))])]
  | exit :: _ => [
      dispatch (names.step (abort.label ++ "_" ++ exit.dispatch)) (names.routine exit.slug) names
        registry,
      clearSession settings (names.step (abort.label ++ "_clear_session")),
      .return (names.step (abort.label ++ "_return")) (ofVariable (names.step "outcome"))]

/-! ## Polling -/

def document (names : Names) : Json :=
  evaluate (Registry.apiBase ++ " + " ++ literal "/v1/subflows/" ++ " + " ++ execution names)

def checkCases (settings : Settings) (names : Names) (registry : Registry) (subflow : Subflow)
    (exits : List Exit) : List Case :=
  let state := names.step "status" ++ ".body.status"
  let abortSteps := abortSteps settings names registry subflow exits
  [
    .mk (some (evaluate (state ++ " == " ++ literal "completed"))) [] (some (names.step "collect")),
    .mk (some (evaluate (state ++ " == " ++ literal "failed"))) (abortSteps .failed) none,
    .mk (some (evaluate (polls names ++ " >= " ++ toString settings.subflowMaxPolls.toNat)))
      (abortSteps .timedOut) none,
    .mk none [
      .assign (names.step "poll_count") [(polls names, evaluate (polls names ++ " + 1"))],
      .call (names.step "wait") {
        target := Primitive.sleep
        args := .ofList [("seconds", .ofUInt64 settings.subflowPollIntervalSecs)]
        result := none
        retry := none }]
      (some (names.step "poll"))]

def steps (settings : Settings) (names : Names) (registry : Registry) (subflow : Subflow)
    (exits : List Exit) : List Step :=
  let caller := names.step "caller"
  [
    .call (names.step "read_caller") {
      target := Primitive.getEnv
      args := .ofList [("name", .string settings.executionIdEnv)]
      result := some caller
      retry := none },
    post settings (names.step "start") "/v1/subflows/start"
      (.object [
        ("branch_id", registry.reference Registry.branchId),
        ("flow_id", .string subflow.subflowId),
        ("program", .string (subflow.subflowName.getD subflow.subflowId)),
        ("caller_execution_id", ofVariable caller),
        ("args", .object registry.callArgs.entries)])
      (some (started names)),
    .assign (names.step "poll_init") [(polls names, .ofUInt64 0)],
    .call (names.step "poll") {
      target := Primitive.httpGet
      args := .ofList [("url", document names)]
      result := some (names.step "status")
      retry := some settings.httpRetry },
    .switch (names.step "check") (subflow.checkCases settings names registry exits),
    .assign (names.step "collect")
      [(names.result, evaluate ("json.decode(" ++ names.step "status" ++ ".body.result)"))],
    .call (names.step "release") {
      target := Primitive.httpDelete
      args := .ofList [("url", document names)]
      result := none
      retry := some settings.httpRetry },
    clearSession settings (names.step "clear_session")]

end FlowCompiler.Subflow
