import FlowCompiler.Decode.Record
import FlowCompiler.Flow.Payload

namespace FlowCompiler

/-! The document format of node settings: how each structure is decoded, and the object that
it is written as. Written objects have all members in order of declaration, with defaults
filled in. -/

variable {σ : Type} [Source σ]

open Decode Decode.Record

/-! ## Enumerations -/

def ReplyFormat.names : List (String × ReplyFormat) :=
  [("number", .number), ("email", .email), ("phone", .phone)]

def ReplyFormat.name : ReplyFormat → String
  | .number => "number"
  | .email => "email"
  | .phone => "phone"

def DelayUnit.names : List (String × DelayUnit) :=
  [("seconds", .seconds), ("minutes", .minutes), ("hours", .hours), ("days", .days)]

def DelayUnit.name : DelayUnit → String
  | .seconds => "seconds"
  | .minutes => "minutes"
  | .hours => "hours"
  | .days => "days"

def ConditionLogic.names : List (String × ConditionLogic) :=
  [("and", .and), ("or", .or)]

def ConditionLogic.name : ConditionLogic → String
  | .and => "and"
  | .or => "or"

def HttpMethod.names : List (String × HttpMethod) :=
  [("GET", .get), ("POST", .post), ("PUT", .put), ("PATCH", .patch), ("DELETE", .delete)]

/-! ## Entry -/

namespace Trigger

def decode : Decoder σ Trigger :=
  decoder "TriggerData" (Trigger.mk <$> optional "event" text)

def toJson (trigger : Trigger) : Json :=
  .object [("event", .ofText? trigger.event)]

end Trigger

/-! ## Messages -/

namespace TextMessage

def decode : Decoder σ TextMessage :=
  decoder "SendTextData" (TextMessage.mk
    <$> required "message" text
    <*> defaulted "waitForResponse" bool false
    <*> optional "timeoutSeconds" uint64
    <*> optional "responseFormat" (variant ReplyFormat.names))

def toJson (message : TextMessage) : Json :=
  .object [
    ("message", .string message.message),
    ("waitForResponse", .bool message.waitForResponse),
    ("timeoutSeconds", .ofUInt64? message.timeoutSeconds),
    ("responseFormat", .ofText? (message.responseFormat.map ReplyFormat.name))]

end TextMessage

namespace Button

def decode : Decoder σ Button :=
  decoder "ButtonOption" (Button.mk <$> required "id" text <*> required "label" text)

def toJson (button : Button) : Json :=
  .object [("id", .string button.id), ("label", .string button.label)]

end Button

namespace ButtonPrompt

def decode : Decoder σ ButtonPrompt :=
  decoder "ButtonsData" (ButtonPrompt.mk
    <$> required "message" text
    <*> required "buttons" (list Button.decode)
    <*> optional "timeoutSeconds" uint64
    <*> defaulted "retryInvalid" bool false)

def toJson (prompt : ButtonPrompt) : Json :=
  .object [
    ("message", .string prompt.message),
    ("buttons", .array (prompt.buttons.map Button.toJson)),
    ("timeoutSeconds", .ofUInt64? prompt.timeoutSeconds),
    ("retryInvalid", .bool prompt.retryInvalid)]

end ButtonPrompt

namespace ListRow

def decode : Decoder σ ListRow :=
  decoder "ListRow" (ListRow.mk
    <$> required "id" text
    <*> required "title" text
    <*> optional "description" text)

def toJson (row : ListRow) : Json :=
  .object ([("id", .string row.id), ("title", .string row.title)] ++
    match row.description with
    | some description => [("description", .string description)]
    | none => [])

end ListRow

namespace ListSection

def decode : Decoder σ ListSection :=
  decoder "ListSection" (ListSection.mk
    <$> defaulted "title" text ""
    <*> required "rows" (list ListRow.decode))

def toJson (listed : ListSection) : Json :=
  .object [
    ("title", .string listed.title),
    ("rows", .array (listed.rows.map ListRow.toJson))]

end ListSection

namespace ListPrompt

def decode : Decoder σ ListPrompt :=
  decoder "ListData" (ListPrompt.mk
    <$> required "message" text
    <*> optional "buttonLabel" text
    <*> required "sections" (list ListSection.decode)
    <*> optional "timeoutSeconds" uint64
    <*> defaulted "retryInvalid" bool false)

def toJson (prompt : ListPrompt) : Json :=
  .object [
    ("message", .string prompt.message),
    ("buttonLabel", .ofText? prompt.buttonLabel),
    ("sections", .array (prompt.sections.map ListSection.toJson)),
    ("timeoutSeconds", .ofUInt64? prompt.timeoutSeconds),
    ("retryInvalid", .bool prompt.retryInvalid)]

end ListPrompt

/-! ## Waiting -/

namespace Delay

def decode : Decoder σ Delay :=
  decoder "DelayData" (Delay.mk
    <$> required "duration" uint64
    <*> defaulted "unit" (variant DelayUnit.names) .seconds)

def toJson (delay : Delay) : Json :=
  .object [("duration", .ofUInt64 delay.duration), ("unit", .string delay.unit.name)]

end Delay

namespace Webhook

def decode : Decoder σ Webhook :=
  decoder "WebhookData" (Webhook.mk
    <$> optional "source" text
    <*> optional "timeoutSeconds" uint64)

def toJson (webhook : Webhook) : Json :=
  .object [
    ("source", .ofText? webhook.source),
    ("timeoutSeconds", .ofUInt64? webhook.timeoutSeconds)]

end Webhook

/-! ## Decisions -/

namespace Condition

def decode : Decoder σ Condition :=
  decoder "Condition" (Condition.mk
    <$> required "field" text
    <*> required "operator" text
    <*> defaulted "value" whole .null)

def toJson (condition : Condition) : Json :=
  .object [
    ("field", .string condition.field),
    ("operator", .string condition.operator),
    ("value", condition.value)]

end Condition

namespace Split

def decode : Decoder σ Split :=
  decoder "SplitData" (Split.mk
    <$> defaulted "conditions" (list Condition.decode) []
    <*> defaulted "logic" (variant ConditionLogic.names) .and)

def toJson (split : Split) : Json :=
  .object [
    ("conditions", .array (split.conditions.map Condition.toJson)),
    ("logic", .string split.logic.name)]

end Split

namespace BranchPath

def decode : Decoder σ BranchPath :=
  decoder "BranchPath" (BranchPath.mk
    <$> required "label" text
    <*> defaulted "conditions" (list Condition.decode) []
    <*> defaulted "logic" (variant ConditionLogic.names) .and)

def toJson (path : BranchPath) : Json :=
  .object [
    ("label", .string path.label),
    ("conditions", .array (path.conditions.map Condition.toJson)),
    ("logic", .string path.logic.name)]

end BranchPath

namespace BranchChoice

def decode : Decoder σ BranchChoice :=
  decoder "BranchData" (BranchChoice.mk <$> required "branches" (list BranchPath.decode))

def toJson (choice : BranchChoice) : Json :=
  .object [("branches", .array (choice.paths.map BranchPath.toJson))]

end BranchChoice

/-! ## Data -/

namespace FieldValue

def decode : Decoder σ FieldValue :=
  decoder "FieldValue" (FieldValue.mk
    <$> required "key" text
    <*> defaulted "value" whole .null)

def toJson (field : FieldValue) : Json :=
  .object [("key", .string field.key), ("value", field.value)]

end FieldValue

namespace SaveFields

def decode : Decoder σ SaveFields :=
  decoder "SaveFieldsData" (SaveFields.mk
    <$> defaulted "fields" (list FieldValue.decode) []
    <*> optional "collection" text)

def toJson (save : SaveFields) : Json :=
  .object [
    ("fields", .array (save.fields.map FieldValue.toJson)),
    ("collection", .ofText? save.collection)]

end SaveFields

namespace SaveVariable

def decode : Decoder σ SaveVariable :=
  decoder "SaveVariableData" (SaveVariable.mk
    <$> required "variableName" text
    <*> defaulted "value" whole .null)

def toJson (save : SaveVariable) : Json :=
  .object [("variableName", .string save.variableName), ("value", save.value)]

end SaveVariable

/-! ## Loops -/

namespace LoopValue

/-- A count where a 32-bit number is read, a list expression where a text is. -/
def decode : Decoder σ LoopValue := fun document =>
  match uint32 document, text document with
  | .ok number, _ => .ok (.count number)
  | _, .ok expression => .ok (.list expression)
  | _, _ => .error (.noMatch "LoopValue")

def toJson : LoopValue → Json
  | .count number => .ofUInt32 number
  | .list expression => .string expression

end LoopValue

namespace LoopStart

def decode : Decoder σ LoopStart :=
  decoder "LoopStartData" (LoopStart.mk
    <$> required "loopValue" LoopValue.decode
    <*> optional "loopLimit" uint32)

def toJson (loop : LoopStart) : Json :=
  .object [
    ("loopValue", loop.loopValue.toJson),
    ("loopLimit", .ofUInt32? loop.loopLimit)]

end LoopStart

/-! ## Calls to other systems -/

namespace ApiCall

def decode : Decoder σ ApiCall :=
  decoder "ApiCallData" (ApiCall.mk
    <$> defaulted "method" (variant HttpMethod.names) .get
    <*> required "url" text
    <*> defaulted "headers" (table text) .empty
    <*> optional "body" whole)

def toJson (call : ApiCall) : Json :=
  .object [
    ("method", .string call.method.name),
    ("url", .string call.url),
    ("headers", .object (call.headers.map fun _ value => Json.string value).entries),
    ("body", call.body.getD .null)]

end ApiCall

namespace Subflow

def decode : Decoder σ Subflow :=
  decoder "SubflowData" (Subflow.mk
    <$> required "subflowId" text
    <*> optional "subflowName" text)

def toJson (subflow : Subflow) : Json :=
  .object [
    ("subflowId", .string subflow.subflowId),
    ("subflowName", .ofText? subflow.subflowName)]

end Subflow

namespace Alert

def decode : Decoder σ Alert :=
  decoder "AlertData" (Alert.mk
    <$> required "message" text
    <*> defaulted "recipients" (list text) []
    <*> defaulted "channel" text "email")

def toJson (alert : Alert) : Json :=
  .object [
    ("message", .string alert.message),
    ("recipients", .array (alert.recipients.map Json.string)),
    ("channel", .string alert.channel)]

end Alert

namespace UtilityCall

def decode : Decoder σ UtilityCall :=
  decoder "UtilityData" (UtilityCall.mk
    <$> required "function" text
    <*> defaulted "arguments" (table whole) .empty)

def toJson (call : UtilityCall) : Json :=
  .object [
    ("function", .string call.function),
    ("arguments", .object call.arguments.entries)]

end UtilityCall

end FlowCompiler
