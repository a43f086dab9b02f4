import FlowCompiler.Flow.PayloadFormat
import FlowCompiler.Text.Blank

namespace FlowCompiler

/-! The kinds of nodes, each with its settings. -/

inductive Kind where
  | trigger (trigger : Trigger)
  | sendText (message : TextMessage)
  | sendButtons (prompt : ButtonPrompt)
  | sendList (prompt : ListPrompt)
  | delay (delay : Delay)
  | conditionalSplit (split : Split)
  | conditionalBranch (choice : BranchChoice)
  | saveData (save : SaveFields)
  | saveVariable (save : SaveVariable)
  | loopStart (loop : LoopStart)
  | loopEnd
  | apiCall (call : ApiCall)
  | webhook (webhook : Webhook)
  | subflow (subflow : Subflow)
  | alert (alert : Alert)
  | utilityFunction (call : UtilityCall)
  /-- A type of node that is not known; it ends the run. -/
  | unsupported (typeName : String)
deriving DecidableEq

namespace Kind

def typeNames : List String :=
  ["trigger", "sendText", "sendButtons", "sendList", "delay", "conditionalSplit",
    "conditionalBranch", "saveData", "saveVariable", "loopStart", "loopEnd", "apiCall",
    "webhook", "subflow", "alert", "utilityFunction"]

/-- Decode the settings of a node of the given type. A loop end has none, and a type that is
not known is kept by its name. -/
def decode (typeName : String) (data : Json) : Except DecodeError Kind :=
  match typeName with
  | "trigger" => .trigger <$> Trigger.decode data
  | "sendText" => .sendText <$> TextMessage.decode data
  | "sendButtons" => .sendButtons <$> ButtonPrompt.decode data
  | "sendList" => .sendList <$> ListPrompt.decode data
  | "delay" => .delay <$> Delay.decode data
  | "conditionalSplit" => .conditionalSplit <$> Split.decode data
  | "conditionalBranch" => .conditionalBranch <$> BranchChoice.decode data
  | "saveData" => .saveData <$> SaveFields.decode data
  | "saveVariable" => .saveVariable <$> SaveVariable.decode data
  | "loopStart" => .loopStart <$> LoopStart.decode data
  | "loopEnd" => .ok .loopEnd
  | "apiCall" => .apiCall <$> ApiCall.decode data
  | "webhook" => .webhook <$> Webhook.decode data
  | "subflow" => .subflow <$> Subflow.decode data
  | "alert" => .alert <$> Alert.decode data
  | "utilityFunction" => .utilityFunction <$> UtilityCall.decode data
  | other => .ok (.unsupported other)

def settings : Kind → Json
  | .trigger payload => payload.toJson
  | .sendText payload => payload.toJson
  | .sendButtons payload => payload.toJson
  | .sendList payload => payload.toJson
  | .delay payload => payload.toJson
  | .conditionalSplit payload => payload.toJson
  | .conditionalBranch payload => payload.toJson
  | .saveData payload => payload.toJson
  | .saveVariable payload => payload.toJson
  | .loopStart payload => payload.toJson
  | .loopEnd => .null
  | .apiCall payload => payload.toJson
  | .webhook payload => payload.toJson
  | .subflow payload => payload.toJson
  | .alert payload => payload.toJson
  | .utilityFunction payload => payload.toJson
  | .unsupported _ => .null

def typeName : Kind → String
  | .trigger _ => "trigger"
  | .sendText _ => "sendText"
  | .sendButtons _ => "sendButtons"
  | .sendList _ => "sendList"
  | .delay _ => "delay"
  | .conditionalSplit _ => "conditionalSplit"
  | .conditionalBranch _ => "conditionalBranch"
  | .saveData _ => "saveData"
  | .saveVariable _ => "saveVariable"
  | .loopStart _ => "loopStart"
  | .loopEnd => "loopEnd"
  | .apiCall _ => "apiCall"
  | .webhook _ => "webhook"
  | .subflow _ => "subflow"
  | .alert _ => "alert"
  | .utilityFunction _ => "utilityFunction"
  | .unsupported name => name

def stem : Kind → String
  | .trigger _ => "trigger"
  | .sendText _ => "text"
  | .sendButtons _ => "buttons"
  | .sendList _ => "list"
  | .delay _ => "delay"
  | .conditionalSplit _ => "split"
  | .conditionalBranch _ => "branch"
  | .saveData _ => "save"
  | .saveVariable _ => "variable"
  | .loopStart _ => "loop"
  | .loopEnd => "loop_end"
  | .apiCall _ => "api"
  | .webhook _ => "webhook"
  | .subflow _ => "subflow"
  | .alert _ => "alert"
  | .utilityFunction _ => "utility"
  | .unsupported _ => "node"

def producesResult : Kind → Bool
  | .trigger _ | .delay _ | .loopStart _ | .loopEnd | .unsupported _ => false
  | _ => true

def isTrigger : Kind → Bool
  | .trigger _ => true
  | _ => false

/-! ## Validity -/

inductive Defect where
  | noButtons
  | blankButtonId
  | noRows
  | blankRowId
  | noPaths
  | blankPathLabel
  | blankSubflowId
  | blankVariableName
deriving DecidableEq

def Defect.message : Defect → String
  | .noButtons => "a button prompt needs at least one button"
  | .blankButtonId => "every button needs a non-empty id"
  | .noRows => "a list prompt needs at least one row"
  | .blankRowId => "every list row needs a non-empty id"
  | .noPaths => "a conditional branch needs at least one path"
  | .blankPathLabel => "every branch path needs a label"
  | .blankSubflowId => "subflowId must not be empty"
  | .blankVariableName => "variableName must not be empty"

def choiceDefect? (names : List String) (none blank : Defect) : Option Defect :=
  if names.isEmpty then some none
  else if names.any Text.isBlankText then some blank
  else .none

def defect? : Kind → Option Defect
  | .sendButtons prompt => choiceDefect? (prompt.buttons.map Button.id) .noButtons .blankButtonId
  | .sendList prompt => choiceDefect? (prompt.rows.map ListRow.id) .noRows .blankRowId
  | .conditionalBranch choice =>
      choiceDefect? (choice.paths.map BranchPath.label) .noPaths .blankPathLabel
  | .subflow call =>
      if Text.isBlankText call.subflowId then some .blankSubflowId else none
  | .saveVariable save =>
      if Text.isBlankText save.variableName then some .blankVariableName else none
  | _ => none

end Kind

end FlowCompiler
