import FlowCompiler.Flow.Kind
import FlowCompiler.Proofs.NormalRecords

namespace FlowCompiler

/-! Settings are written in a normal form, from which they are decoded again. For each structure
the normal form is declared member by member, and the fields of its decoder are put together in the
order in which the constructor takes them. -/

open Decode Decode.Record

/-! ## Parts -/

namespace Json

theorem ofText?_eq (value : Option String) : ofText? value = (value.map .string).getD .null := by
  cases value <;> rfl

theorem ofUInt64?_eq (value : Option UInt64) :
    ofUInt64? value = (value.map ofUInt64).getD .null := by
  cases value <;> rfl

theorem ofUInt32?_eq (value : Option UInt32) :
    ofUInt32? value = (value.map ofUInt32).getD .null := by
  cases value <;> rfl

theorem getD_null_eq (value : Option Json) : value.getD .null = (value.map id).getD .null := by
  rw [Option.map_id, id]

end Json

namespace Decode.Record

theorem normalizes_optionalText (name : String) :
    Normalizes (optional name text) [.optional name Normal.kept] (.Single name Json.ofText?) :=
  normalizes_optional normalizes_text name keepsNull_kept Json.ofText?_eq

theorem normalizes_optionalUInt64 (name : String) :
    Normalizes (optional name uint64) [.optional name Normal.kept] (.Single name Json.ofUInt64?) :=
  normalizes_optional normalizes_uint64 name keepsNull_kept Json.ofUInt64?_eq

theorem normalizes_optionalUInt32 (name : String) :
    Normalizes (optional name uint32) [.optional name Normal.kept] (.Single name Json.ofUInt32?) :=
  normalizes_optional normalizes_uint32 name keepsNull_kept Json.ofUInt32?_eq

end Decode.Record

theorem ReplyFormat.normalizes_names :
    Normalizes (variant names) (fun format => .string format.name) Normal.variant :=
  normalizes_variant (by decide)

theorem ReplyFormat.ofText?_eq (value : Option ReplyFormat) :
    Json.ofText? (value.map name) =
      (value.map fun format => .string format.name).getD .null := by
  cases value <;> rfl

theorem DelayUnit.normalizes_names :
    Normalizes (variant names) (fun unit => .string unit.name) Normal.variant :=
  normalizes_variant (by decide)

theorem ConditionLogic.normalizes_names :
    Normalizes (variant names) (fun logic => .string logic.name) Normal.variant :=
  normalizes_variant (by decide)

theorem HttpMethod.normalizes_names :
    Normalizes (variant names) (fun method => .string method.name) Normal.variant :=
  normalizes_variant (by decide)

theorem LoopValue.normalizes_decode : Normalizes LoopValue.decode toJson Normal.kept := by
  apply normalizes_kept
  intro document value decoded
  rw [LoopValue.decode] at decoded
  split at decoded
  · next number read =>
      cases decoded
      exact normalizes_uint32.writes document number read
  · next _ expression read _ =>
      cases decoded
      exact normalizes_text.writes document expression read
  · cases decoded

/-! ## Entry -/

namespace Trigger

def normal : Json → Json :=
  Normal.record [.optional "event" Normal.kept]

theorem normalizes_decode : Normalizes Trigger.decode toJson normal := by
  have fields := ((normalizes_optionalText "event").map Trigger.mk)
  refine normalizes_decoder fields (by decide) _ ?_
  -- the pattern follows how the value was put together, with the last field outermost
  rintro _ _ ⟨⟨⟩⟩
  rfl

end Trigger

/-! ## Messages -/

namespace TextMessage

def normal : Json → Json :=
  Normal.record [.required "message" Normal.kept,
    .defaulted "waitForResponse" (.bool false) Normal.kept, .optional "timeoutSeconds" Normal.kept,
    .optional "responseFormat" Normal.variant]

theorem normalizes_decode : Normalizes TextMessage.decode toJson normal := by
  have fields := ((normalizes_required normalizes_text "message").map TextMessage.mk)
    |>.seq (normalizes_defaulted normalizes_bool "waitForResponse" false rfl)
    |>.seq (normalizes_optionalUInt64 "timeoutSeconds")
    |>.seq (normalizes_optional ReplyFormat.normalizes_names "responseFormat"
      keepsNull_variant ReplyFormat.ofText?_eq)
  refine normalizes_decoder fields (by decide) _ ?_
  rintro _ _ ⟨⟨⟨⟨⟨⟩⟩, ⟨⟩⟩, ⟨⟩⟩, ⟨⟩⟩
  rfl

end TextMessage

namespace Button

def normal : Json → Json :=
  Normal.record [.required "id" Normal.kept, .required "label" Normal.kept]

theorem normalizes_decode : Normalizes Button.decode toJson normal := by
  have fields := ((normalizes_required normalizes_text "id").map Button.mk)
    |>.seq (normalizes_required normalizes_text "label")
  refine normalizes_decoder fields (by decide) _ ?_
  rintro _ _ ⟨⟨⟨⟩⟩, ⟨⟩⟩
  rfl

end Button

namespace ButtonPrompt

def normal : Json → Json :=
  Normal.record [.required "message" Normal.kept, .required "buttons" (Normal.list Button.normal),
    .optional "timeoutSeconds" Normal.kept, .defaulted "retryInvalid" (.bool false) Normal.kept]

theorem normalizes_decode : Normalizes ButtonPrompt.decode toJson normal := by
  have fields := ((normalizes_required normalizes_text "message").map ButtonPrompt.mk)
    |>.seq (normalizes_required Button.normalizes_decode.list "buttons")
    |>.seq (normalizes_optionalUInt64 "timeoutSeconds")
    |>.seq (normalizes_defaulted normalizes_bool "retryInvalid" false rfl)
  refine normalizes_decoder fields (by decide) _ ?_
  rintro _ _ ⟨⟨⟨⟨⟨⟩⟩, ⟨⟩⟩, ⟨⟩⟩, ⟨⟩⟩
  rfl

end ButtonPrompt

namespace ListRow

def normal : Json → Json :=
  Normal.record [.required "id" Normal.kept, .required "title" Normal.kept,
    .omitted "description" Normal.kept]

theorem normalizes_decode : Normalizes ListRow.decode toJson normal := by
  have fields := ((normalizes_required normalizes_text "id").map ListRow.mk)
    |>.seq (normalizes_required normalizes_text "title")
    |>.seq (normalizes_omitted normalizes_text "description" keepsNull_kept)
  refine normalizes_decoder fields (by decide) _ ?_
  rintro _ _ ⟨⟨⟨⟨⟩⟩, ⟨⟩⟩, ⟨⟩ | ⟨⟩⟩ <;> rfl

end ListRow

namespace ListSection

def normal : Json → Json :=
  Normal.record [.defaulted "title" (.string "") Normal.kept,
    .required "rows" (Normal.list ListRow.normal)]

theorem normalizes_decode : Normalizes ListSection.decode toJson normal := by
  have fields := ((normalizes_defaulted normalizes_text "title" "" rfl).map ListSection.mk)
    |>.seq (normalizes_required ListRow.normalizes_decode.list "rows")
  refine normalizes_decoder fields (by decide) _ ?_
  rintro _ _ ⟨⟨⟨⟩⟩, ⟨⟩⟩
  rfl

end ListSection

namespace ListPrompt

def normal : Json → Json :=
  Normal.record [.required "message" Normal.kept, .optional "buttonLabel" Normal.kept,
    .required "sections" (Normal.list ListSection.normal), .optional "timeoutSeconds" Normal.kept,
    .defaulted "retryInvalid" (.bool false) Normal.kept]

theorem normalizes_decode : Normalizes ListPrompt.decode toJson normal := by
  have fields := ((normalizes_required normalizes_text "message").map ListPrompt.mk)
    |>.seq (normalizes_optionalText "buttonLabel")
    |>.seq (normalizes_required ListSection.normalizes_decode.list "sections")
    |>.seq (normalizes_optionalUInt64 "timeoutSeconds")
    |>.seq (normalizes_defaulted normalizes_bool "retryInvalid" false rfl)
  refine normalizes_decoder fields (by decide) _ ?_
  rintro _ _ ⟨⟨⟨⟨⟨⟨⟩⟩, ⟨⟩⟩, ⟨⟩⟩, ⟨⟩⟩, ⟨⟩⟩
  rfl

end ListPrompt

/-! ## Waiting -/

namespace Delay

def normal : Json → Json :=
  Normal.record [.required "duration" Normal.kept,
    .defaulted "unit" (.string "seconds") Normal.variant]

theorem normalizes_decode : Normalizes Delay.decode toJson normal := by
  have fields := ((normalizes_required normalizes_uint64 "duration").map Delay.mk)
    |>.seq (normalizes_defaulted DelayUnit.normalizes_names "unit" .seconds rfl)
  refine normalizes_decoder fields (by decide) _ ?_
  rintro _ _ ⟨⟨⟨⟩⟩, ⟨⟩⟩
  rfl

end Delay

namespace Webhook

def normal : Json → Json :=
  Normal.record [.optional "source" Normal.kept, .optional "timeoutSeconds" Normal.kept]

theorem normalizes_decode : Normalizes Webhook.decode toJson normal := by
  have fields := ((normalizes_optionalText "source").map Webhook.mk)
    |>.seq (normalizes_optionalUInt64 "timeoutSeconds")
  refine normalizes_decoder fields (by decide) _ ?_
  rintro _ _ ⟨⟨⟨⟩⟩, ⟨⟩⟩
  rfl

end Webhook

/-! ## Decisions -/

namespace Condition

def normal : Json → Json :=
  Normal.record [.required "field" Normal.kept, .required "operator" Normal.kept,
    .defaulted "value" .null Normal.kept]

theorem normalizes_decode : Normalizes Condition.decode toJson normal := by
  have fields := ((normalizes_required normalizes_text "field").map Condition.mk)
    |>.seq (normalizes_required normalizes_text "operator")
    |>.seq (normalizes_defaulted normalizes_whole "value" .null rfl)
  refine normalizes_decoder fields (by decide) _ ?_
  rintro _ _ ⟨⟨⟨⟨⟩⟩, ⟨⟩⟩, ⟨⟩⟩
  rfl

end Condition

namespace Split

def normal : Json → Json :=
  Normal.record [.defaulted "conditions" (.array []) (Normal.list Condition.normal),
    .defaulted "logic" (.string "and") Normal.variant]

theorem normalizes_decode : Normalizes Split.decode toJson normal := by
  have fields :=
    ((normalizes_defaulted Condition.normalizes_decode.list "conditions" [] rfl).map Split.mk)
    |>.seq (normalizes_defaulted ConditionLogic.normalizes_names "logic" .and rfl)
  refine normalizes_decoder fields (by decide) _ ?_
  rintro _ _ ⟨⟨⟨⟩⟩, ⟨⟩⟩
  rfl

end Split

namespace BranchPath

def normal : Json → Json :=
  Normal.record [.required "label" Normal.kept,
    .defaulted "conditions" (.array []) (Normal.list Condition.normal),
    .defaulted "logic" (.string "and") Normal.variant]

theorem normalizes_decode : Normalizes BranchPath.decode toJson normal := by
  have fields := ((normalizes_required normalizes_text "label").map BranchPath.mk)
    |>.seq (normalizes_defaulted Condition.normalizes_decode.list "conditions" [] rfl)
    |>.seq (normalizes_defaulted ConditionLogic.normalizes_names "logic" .and rfl)
  refine normalizes_decoder fields (by decide) _ ?_
  rintro _ _ ⟨⟨⟨⟨⟩⟩, ⟨⟩⟩, ⟨⟩⟩
  rfl

end BranchPath

namespace BranchChoice

def normal : Json → Json :=
  Normal.record [.required "branches" (Normal.list BranchPath.normal)]

theorem normalizes_decode : Normalizes BranchChoice.decode toJson normal := by
  have fields :=
    ((normalizes_required BranchPath.normalizes_decode.list "branches").map BranchChoice.mk)
  refine normalizes_decoder fields (by decide) _ ?_
  rintro _ _ ⟨⟨⟩⟩
  rfl

end BranchChoice

/-! ## Data -/

namespace FieldValue

def normal : Json → Json :=
  Normal.record [.required "key" Normal.kept, .defaulted "value" .null Normal.kept]

theorem normalizes_decode : Normalizes FieldValue.decode toJson normal := by
  have fields := ((normalizes_required normalizes_text "key").map FieldValue.mk)
    |>.seq (normalizes_defaulted normalizes_whole "value" .null rfl)
  refine normalizes_decoder fields (by decide) _ ?_
  rintro _ _ ⟨⟨⟨⟩⟩, ⟨⟩⟩
  rfl

end FieldValue

namespace SaveFields

def normal : Json → Json :=
  Normal.record [.defaulted "fields" (.array []) (Normal.list FieldValue.normal),
    .optional "collection" Normal.kept]

theorem normalizes_decode : Normalizes SaveFields.decode toJson normal := by
  have fields :=
    ((normalizes_defaulted FieldValue.normalizes_decode.list "fields" [] rfl).map SaveFields.mk)
    |>.seq (normalizes_optionalText "collection")
  refine normalizes_decoder fields (by decide) _ ?_
  rintro _ _ ⟨⟨⟨⟩⟩, ⟨⟩⟩
  rfl

end SaveFields

namespace SaveVariable

def normal : Json → Json :=
  Normal.record [.required "variableName" Normal.kept, .defaulted "value" .null Normal.kept]

theorem normalizes_decode : Normalizes SaveVariable.decode toJson normal := by
  have fields := ((normalizes_required normalizes_text "variableName").map SaveVariable.mk)
    |>.seq (normalizes_defaulted normalizes_whole "value" .null rfl)
  refine normalizes_decoder fields (by decide) _ ?_
  rintro _ _ ⟨⟨⟨⟩⟩, ⟨⟩⟩
  rfl

end SaveVariable

/-! ## Loops -/

namespace LoopStart

def normal : Json → Json :=
  Normal.record [.required "loopValue" Normal.kept, .optional "loopLimit" Normal.kept]

theorem normalizes_decode : Normalizes LoopStart.decode toJson normal := by
  have fields := ((normalizes_required LoopValue.normalizes_decode "loopValue").map LoopStart.mk)
    |>.seq (normalizes_optionalUInt32 "loopLimit")
  refine normalizes_decoder fields (by decide) _ ?_
  rintro _ _ ⟨⟨⟨⟩⟩, ⟨⟩⟩
  rfl

end LoopStart

/-! ## Calls to other systems -/

namespace ApiCall

def normal : Json → Json :=
  Normal.record [.defaulted "method" (.string "GET") Normal.variant, .required "url" Normal.kept,
    .defaulted "headers" (.object []) Normal.table, .optional "body" Normal.kept]

theorem normalizes_decode : Normalizes ApiCall.decode toJson normal := by
  have fields :=
    ((normalizes_defaulted HttpMethod.normalizes_names "method" .get rfl).map ApiCall.mk)
    |>.seq (normalizes_required normalizes_text "url")
    |>.seq (normalizes_defaulted normalizes_text.table "headers" .empty rfl)
    |>.seq (normalizes_optional normalizes_whole "body" keepsNull_kept Json.getD_null_eq)
  refine normalizes_decoder fields (by decide) _ ?_
  rintro _ _ ⟨⟨⟨⟨⟨⟩⟩, ⟨⟩⟩, ⟨⟩⟩, ⟨⟩⟩
  rfl

end ApiCall

namespace Subflow

def normal : Json → Json :=
  Normal.record [.required "subflowId" Normal.kept, .optional "subflowName" Normal.kept]

theorem normalizes_decode : Normalizes Subflow.decode toJson normal := by
  have fields := ((normalizes_required normalizes_text "subflowId").map Subflow.mk)
    |>.seq (normalizes_optionalText "subflowName")
  refine normalizes_decoder fields (by decide) _ ?_
  rintro _ _ ⟨⟨⟨⟩⟩, ⟨⟩⟩
  rfl

end Subflow

namespace Alert

def normal : Json → Json :=
  Normal.record [.required "message" Normal.kept,
    .defaulted "recipients" (.array []) (Normal.list Normal.kept),
    .defaulted "channel" (.string "email") Normal.kept]

theorem normalizes_decode : Normalizes Alert.decode toJson normal := by
  have fields := ((normalizes_required normalizes_text "message").map Alert.mk)
    |>.seq (normalizes_defaulted normalizes_text.list "recipients" [] rfl)
    |>.seq (normalizes_defaulted normalizes_text "channel" "email" rfl)
  refine normalizes_decoder fields (by decide) _ ?_
  rintro _ _ ⟨⟨⟨⟨⟩⟩, ⟨⟩⟩, ⟨⟩⟩
  rfl

end Alert

namespace UtilityCall

def normal : Json → Json :=
  Normal.record [.required "function" Normal.kept,
    .defaulted "arguments" (.object []) Normal.table]

theorem normalizes_decode : Normalizes UtilityCall.decode toJson normal := by
  have fields := ((normalizes_required normalizes_text "function").map UtilityCall.mk)
    |>.seq (normalizes_defaulted normalizes_whole.table "arguments" .empty rfl)
  refine normalizes_decoder fields (by decide) _ ?_
  rintro _ _ ⟨⟨⟨⟩⟩, ⟨⟩⟩
  simp [toJson, Table.map]

end UtilityCall

/-! ## Kinds -/

namespace Kind

/-- The normal form of the settings of a node of the given type. Nothing is kept for a type that has
no settings. -/
def normal : String → Json → Json
  | "trigger" => Trigger.normal
  | "sendText" => TextMessage.normal
  | "sendButtons" => ButtonPrompt.normal
  | "sendList" => ListPrompt.normal
  | "delay" => Delay.normal
  | "conditionalSplit" => Split.normal
  | "conditionalBranch" => BranchChoice.normal
  | "saveData" => SaveFields.normal
  | "saveVariable" => SaveVariable.normal
  | "loopStart" => LoopStart.normal
  | "apiCall" => ApiCall.normal
  | "webhook" => Webhook.normal
  | "subflow" => Subflow.normal
  | "alert" => Alert.normal
  | "utilityFunction" => UtilityCall.normal
  | _ => fun _ => .null

variable {α : Type} {decoder : Decoder Json α} {write : α → Json} {form : Json → Json}

/-- Settings that are kept in a kind of node are written as they are without it. -/
theorem normalizes_kind (normalizes : Decode.Normalizes decoder write form) {kind : α → Kind}
    (same : ∀ payload, (kind payload).settings = write payload) :
    Decode.Normalizes (fun data => kind <$> decoder data) settings form where
  settles data result decoded := by
    obtain ⟨payload, read, rfl⟩ := map_eq_ok decoded
    exact congrArg (kind <$> ·) (normalizes.settles data payload read)
  writes data result decoded := by
    obtain ⟨payload, read, rfl⟩ := map_eq_ok decoded
    rw [same, normalizes.writes data payload read]

theorem normalizes_bare {kind : Kind} (bare : kind.settings = .null) :
    Decode.Normalizes (fun _ => .ok kind) settings fun _ => .null where
  settles _ _ decoded := decoded
  writes _ _ decoded := by
    cases decoded
    exact bare

theorem decode_of_not_mem {typeName : String} (unknown : typeName ∉ typeNames) :
    decode typeName = fun _ => .ok (.unsupported typeName) := by
  funext data
  unfold decode
  split <;> simp_all [typeNames]

theorem normal_of_not_mem {typeName : String} (unknown : typeName ∉ typeNames) :
    normal typeName = fun _ => .null := by
  unfold normal
  split <;> simp_all [typeNames]

theorem normalizes_decode (typeName : String) :
    Decode.Normalizes (decode typeName) settings (normal typeName) := by
  by_cases known : typeName ∈ typeNames
  · simp only [typeNames, List.mem_cons, List.not_mem_nil, or_false] at known
    rcases known with rfl | rfl | rfl | rfl | rfl | rfl | rfl | rfl | rfl | rfl | rfl | rfl |
      rfl | rfl | rfl | rfl
    · exact normalizes_kind Trigger.normalizes_decode fun _ => rfl
    · exact normalizes_kind TextMessage.normalizes_decode fun _ => rfl
    · exact normalizes_kind ButtonPrompt.normalizes_decode fun _ => rfl
    · exact normalizes_kind ListPrompt.normalizes_decode fun _ => rfl
    · exact normalizes_kind Delay.normalizes_decode fun _ => rfl
    · exact normalizes_kind Split.normalizes_decode fun _ => rfl
    · exact normalizes_kind BranchChoice.normalizes_decode fun _ => rfl
    · exact normalizes_kind SaveFields.normalizes_decode fun _ => rfl
    · exact normalizes_kind SaveVariable.normalizes_decode fun _ => rfl
    · exact normalizes_kind LoopStart.normalizes_decode fun _ => rfl
    · exact normalizes_bare rfl
    · exact normalizes_kind ApiCall.normalizes_decode fun _ => rfl
    · exact normalizes_kind Webhook.normalizes_decode fun _ => rfl
    · exact normalizes_kind Subflow.normalizes_decode fun _ => rfl
    · exact normalizes_kind Alert.normalizes_decode fun _ => rfl
    · exact normalizes_kind UtilityCall.normalizes_decode fun _ => rfl
  · rw [decode_of_not_mem known, normal_of_not_mem known]
    exact normalizes_bare rfl

end Kind

/-- Settings that can be decoded are written in a normal form: as an object with the members of
their type in order, without unknown ones, with defaults filled in. They are decoded again from
what is written, to an equal kind of node with the same defect, if any, and normalizing them once
more changes nothing. -/
theorem payloads_round_trip {typeName : String} {data : Json} {kind : Kind}
    (decoded : Kind.decode typeName data = .ok kind) :
    Kind.decode typeName kind.settings = .ok kind ∧
      (∀ again, Kind.decode typeName kind.settings = .ok again →
        again.defect? = kind.defect?) ∧
      kind.settings = Kind.normal typeName data ∧
      Kind.normal typeName (Kind.normal typeName data) = Kind.normal typeName data := by
  have normalizes := Kind.normalizes_decode typeName
  have restored := normalizes.decode_write decoded
  have normal := normalizes.writes data kind decoded
  refine ⟨restored, ?_, normal, ?_⟩
  · intro again read
    rw [restored] at read
    cases read
    rfl
  · rw [← normal, ← normalizes.writes kind.settings kind restored]

/-- A button prompt as an array, with an unknown member in one button and another button as an
array. -/
theorem payloads_round_trip_sample :
    Kind.decode "sendButtons" (.array [.string "Pick one", .array [
        .object [("id", .string "a"), ("color", .string "red"), ("label", .string "First")],
        .array [.string "b", .string "Second"]]]) =
      .ok (.sendButtons ⟨"Pick one", [⟨"a", "First"⟩, ⟨"b", "Second"⟩], none, false⟩) ∧
    Kind.decode "sendButtons" (.object [
        ("message", .string "Pick one"),
        ("buttons", .array [
          .object [("id", .string "a"), ("label", .string "First")],
          .object [("id", .string "b"), ("label", .string "Second")]]),
        ("timeoutSeconds", .null),
        ("retryInvalid", .bool false)]) =
      .ok (.sendButtons ⟨"Pick one", [⟨"a", "First"⟩, ⟨"b", "Second"⟩], none, false⟩) := by
  have decoded : Kind.decode "sendButtons" (.array [.string "Pick one", .array [
      .object [("id", .string "a"), ("color", .string "red"), ("label", .string "First")],
      .array [.string "b", .string "Second"]]]) =
    .ok (.sendButtons ⟨"Pick one", [⟨"a", "First"⟩, ⟨"b", "Second"⟩], none, false⟩) := rfl
  exact ⟨decoded, (payloads_round_trip decoded).1⟩

end FlowCompiler
