import FlowCompiler.Lowering.Role
import FlowCompiler.Proofs.DecodedValues
import FlowCompiler.Proofs.LoadedFlows

namespace FlowCompiler

/-! Values in settings. Designers write conditions, fields and arguments as values of any form,
which the compiled program has as they are. In a flow that was loaded, no object in them repeats a
name. -/

/-! ## Values that designers write -/

def Action.values : Action → List Json
  | .saveFields save => save.fields.map FieldValue.value
  | .saveVariable save => [save.value]
  | .apiCall call => call.body.toList
  | .utility call => call.arguments.values
  | .message _ | .delay _ | .webhook _ | .alert _ => []

def Fork.values : Fork → List Json
  | .split rules => rules.conditions.map Condition.value
  | .branch choice => choice.paths.flatMap fun path => path.conditions.map Condition.value
  | .text _ | .buttons _ | .list _ => []

def Role.values : Role → List Json
  | .action act => act.values
  | .fork choice => choice.values
  | .subflow _ | .loop _ | .terminal => []

def Node.Distinct (node : Node) : Prop :=
  ∀ value ∈ node.kind.role.values, value.Distinct

/-- The flow was loaded from an export in which no object repeats a name. -/
def Flow.Accepted (flow : Flow) : Prop :=
  ∃ aliases exported, (∀ node ∈ exported.nodes, node.data.Distinct) ∧
    Flow.ofExport aliases exported = .ok flow

/-! ## Decoding them -/

section

open Decode Decode.Record

variable {σ : Type} [Source σ] {good : σ → Prop}

theorem Condition.yields_decode (inherits : Inherited good) :
    Decode.Yields good Condition.decode fun condition => condition.value.Distinct :=
  yields_decoder inherits _
    (.seq (.seq (.map (yields_any _) fun _ _ _ _ _ distinct => distinct) (yields_any _))
      (yields_defaulted (yields_whole inherits) _ trivial))

theorem Split.yields_decode (inherits : Inherited good) :
    Decode.Yields good Split.decode fun split =>
      ∀ condition ∈ split.conditions, condition.value.Distinct :=
  yields_decoder inherits _
    (.seq (.map (yields_defaulted (.list inherits (Condition.yields_decode inherits)) _ (by simp))
      fun _ distinct _ _ => distinct) (yields_any _))

theorem BranchPath.yields_decode (inherits : Inherited good) :
    Decode.Yields good BranchPath.decode fun path =>
      ∀ condition ∈ path.conditions, condition.value.Distinct :=
  yields_decoder inherits _
    (.seq (.seq (.map (yields_any _) fun _ _ _ distinct _ _ => distinct)
      (yields_defaulted (.list inherits (Condition.yields_decode inherits)) _ (by simp)))
      (yields_any _))

theorem BranchChoice.yields_decode (inherits : Inherited good) :
    Decode.Yields good BranchChoice.decode fun choice =>
      ∀ path ∈ choice.paths, ∀ condition ∈ path.conditions, condition.value.Distinct :=
  yields_decoder inherits _
    (.map (yields_required (.list inherits (BranchPath.yields_decode inherits)) _)
      fun _ distinct => distinct)

theorem FieldValue.yields_decode (inherits : Inherited good) :
    Decode.Yields good FieldValue.decode fun field => field.value.Distinct :=
  yields_decoder inherits _
    (.seq (.map (yields_any _) fun _ _ _ distinct => distinct)
      (yields_defaulted (yields_whole inherits) _ trivial))

theorem SaveFields.yields_decode (inherits : Inherited good) :
    Decode.Yields good SaveFields.decode fun save =>
      ∀ field ∈ save.fields, field.value.Distinct :=
  yields_decoder inherits _
    (.seq (.map (yields_defaulted (.list inherits (FieldValue.yields_decode inherits)) _ (by simp))
      fun _ distinct _ _ => distinct) (yields_any _))

theorem SaveVariable.yields_decode (inherits : Inherited good) :
    Decode.Yields good SaveVariable.decode fun save => save.value.Distinct :=
  yields_decoder inherits _
    (.seq (.map (yields_any _) fun _ _ _ distinct => distinct)
      (yields_defaulted (yields_whole inherits) _ trivial))

theorem ApiCall.yields_decode (inherits : Inherited good) :
    Decode.Yields good ApiCall.decode fun call => ∀ body ∈ call.body, body.Distinct :=
  yields_decoder inherits _
    (.seq (.seq (.seq (.map (yields_any _) fun _ _ _ _ _ _ _ distinct => distinct) (yields_any _))
      (yields_any _)) (yields_optional (yields_whole inherits) _))

theorem UtilityCall.yields_decode (inherits : Inherited good) :
    Decode.Yields good UtilityCall.decode fun call =>
      ∀ entry ∈ call.arguments.entries, entry.2.Distinct :=
  yields_decoder inherits _
    (.seq (.map (yields_any _) fun _ _ _ distinct => distinct)
      (yields_defaulted (.table inherits (yields_whole inherits)) _ (by simp)))

theorem ExportedNode.yields_decode (inherits : Inherited good) :
    Decode.Yields good ExportedNode.decode fun node => node.data.Distinct :=
  yields_decoder inherits _
    (.seq (.seq (.map (yields_any _) fun _ _ _ _ _ distinct => distinct) (yields_any _))
      (yields_defaulted (yields_whole inherits) _ trivial))

theorem FlowExport.yields_decode (inherits : Inherited good) :
    Decode.Yields good FlowExport.decode fun exported =>
      ∀ node ∈ exported.nodes, node.data.Distinct :=
  yields_decoder inherits _
    (.seq (.seq (.seq (.seq (.seq (.map (yields_any _)
      fun _ _ _ _ _ _ _ _ _ distinct _ _ => distinct) (yields_any _)) (yields_any _))
      (yields_any _)) (yields_defaulted (.list inherits (ExportedNode.yields_decode inherits)) _
        (by simp))) (yields_any _))

end

/-! ## Loading them -/

theorem Kind.distinct_of_decode {typeName : String} {data : Json} {kind : Kind}
    (decoded : Kind.decode typeName data = .ok kind) (distinct : data.Distinct) :
    ∀ value ∈ kind.role.values, value.Distinct := by
  have sound := Decode.inherited_json
  unfold Kind.decode at decoded
  split at decoded
  case h_2 =>
    obtain ⟨message, _, rfl⟩ := map_eq_ok decoded
    rw [Kind.role]
    split <;> simp [Role.values, Action.values, Fork.values]
  case h_6 =>
    obtain ⟨rules, read, rfl⟩ := map_eq_ok decoded
    simpa [Kind.role, Role.values, Fork.values] using
      Split.yields_decode sound data rules distinct read
  case h_7 =>
    obtain ⟨choice, read, rfl⟩ := map_eq_ok decoded
    have conditions := BranchChoice.yields_decode sound data choice distinct read
    simp only [Kind.role, Role.values, Fork.values, List.mem_flatMap, List.mem_map]
    rintro _ ⟨path, onPath, condition, among, rfl⟩
    exact conditions path onPath condition among
  case h_8 =>
    obtain ⟨save, read, rfl⟩ := map_eq_ok decoded
    simpa [Kind.role, Role.values, Action.values] using
      SaveFields.yields_decode sound data save distinct read
  case h_9 =>
    obtain ⟨save, read, rfl⟩ := map_eq_ok decoded
    simpa [Kind.role, Role.values, Action.values] using
      SaveVariable.yields_decode sound data save distinct read
  case h_12 =>
    obtain ⟨call, read, rfl⟩ := map_eq_ok decoded
    simpa [Kind.role, Role.values, Action.values] using
      ApiCall.yields_decode sound data call distinct read
  case h_16 =>
    obtain ⟨call, read, rfl⟩ := map_eq_ok decoded
    have arguments := UtilityCall.yields_decode sound data call distinct read
    simp only [Kind.role, Role.values, Action.values, Table.values, List.mem_map]
    rintro _ ⟨entry, among, rfl⟩
    exact arguments entry among
  case h_11 | h_17 =>
    cases decoded
    simp [Kind.role, Role.values]
  all_goals
    obtain ⟨payload, _, rfl⟩ := map_eq_ok decoded
    simp [Kind.role, Role.values, Action.values, Fork.values]

namespace Loader

theorem distinct_of_node {aliases : Table String} {exported : ExportedNode} {node : Node}
    (made : Loader.node aliases exported = .ok node) (distinct : exported.data.Distinct) :
    node.Distinct := by
  have data : (data exported).Distinct := by
    rw [Loader.data]
    split
    · simp
    · exact distinct
  rw [Loader.node] at made
  split at made
  · next kind read =>
      cases made
      rw [Loader.kind] at read
      split at read
      · cases read
      · next decodedKind decoded =>
          split at read <;> cases read
          exact Kind.distinct_of_decode decoded data
  · cases made

theorem distinct_of_nodes {aliases : Table String} : ∀ (exported : List ExportedNode)
    (seen : List String) {nodes : List Node}, Loader.nodes aliases seen exported = .ok nodes →
      (∀ node ∈ exported, node.data.Distinct) → ∀ node ∈ nodes, node.Distinct
  | [], _, _, made, _ => by
      cases made
      simp
  | first :: rest, seen, _, made, distinct => by
      rw [List.forall_mem_cons] at distinct
      rw [Loader.nodes] at made
      split at made
      · cases made
      · obtain ⟨node, nodeMade, made⟩ := bind_eq_ok made
        obtain ⟨others, othersMade, equal⟩ := bind_eq_ok made
        cases equal
        rw [List.forall_mem_cons]
        exact ⟨distinct_of_node nodeMade distinct.1,
          distinct_of_nodes rest (first.id :: seen) othersMade distinct.2⟩

end Loader

namespace Flow

variable {flow : Flow}

theorem Accepted.distinct (accepted : flow.Accepted) : ∀ node ∈ flow.nodes, node.Distinct := by
  obtain ⟨aliases, exported, distinct, made⟩ := accepted
  obtain ⟨nodes, nodesMade, made⟩ := bind_eq_ok made
  obtain ⟨_, _, made⟩ := bind_eq_ok made
  obtain ⟨edges, _, equal⟩ := bind_eq_ok made
  cases equal
  exact Loader.distinct_of_nodes exported.nodes [] nodesMade distinct

/-- Every flow that is loaded from a text is accepted, whatever names are repeated in the text. -/
theorem accepted_of_parse {aliases : Table String} {text : String}
    (parsed : Flow.parse aliases text = .ok flow) : flow.Accepted := by
  rw [Flow.parse] at parsed
  split at parsed
  · next exported read =>
      refine ⟨aliases, exported, ?_, parsed⟩
      obtain ⟨value, decoded, rest⟩ := bind_eq_ok read
      have distinct := FlowExport.yields_decode Decode.inherited_draft _ value trivial decoded
      split at rest
      · cases rest
        exact distinct
      · cases rest
  · cases parsed

end Flow

end FlowCompiler
