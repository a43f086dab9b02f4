import FlowCompiler.Proofs.Checked
import FlowCompiler.Proofs.Retries
import FlowCompiler.Proofs.SettingsChanges
import FlowCompiler.Proofs.Shapes

namespace FlowCompiler

/-! What the settings and the texts of a flow decide, and what they do not. Flows that differ in the
titles of their nodes only have programs of the same shape, and flows with different settings have
programs with the same skeleton. -/

open Lowering

/-! ## Tables with related values -/

theorem Table.rel_get?_insertAll {α β : Type} {related : α → β → Prop}
    {entries : List (String × α)} {others : List (String × β)}
    (alike : List.Forall₂ (fun entry other => entry.1 = other.1 ∧ related entry.2 other.2)
      entries others) :
    ∀ {table : Table α} {again : Table β},
      (∀ key, Option.Rel related (table.get? key) (again.get? key)) →
        ∀ key, Option.Rel related ((table.insertAll entries).get? key)
          ((again.insertAll others).get? key) := by
  induction alike with
  | nil => exact fun known => known
  | @cons entry other _ _ first _ induction =>
      intro table again known
      apply induction
      intro key
      rw [get?_insert, get?_insert, first.1]
      split
      · exact .some first.2
      · exact known key

/-! ## Nodes with other titles -/

structure Node.Retitled (node other : Node) : Prop where
  id : other.id = node.id
  kind : other.kind = node.kind

namespace Flow

def withNodes (flow : Flow) (nodes : List Node) : Flow :=
  { flow with nodes }

structure Partners (flow : Flow) (nodes : List Node) (node other : Node) : Prop where
  known : (Graph.ofFlow flow).Knows node
  otherKnown : (Graph.ofFlow (flow.withNodes nodes)).Knows other
  retitled : node.Retitled other

variable {flow : Flow} {nodes : List Node}
  (retitled : List.Forall₂ Node.Retitled flow.nodes nodes)

include retitled

/-- The same ids belong to nodes that differ in their titles only. -/
theorem partners_node? (id : String) :
    Option.Rel (Partners flow nodes) ((Graph.ofFlow flow).node? id)
      ((Graph.ofFlow (flow.withNodes nodes)).node? id) := by
  have entries : List.Forall₂ (fun entry other : String × Node =>
        entry.1 = other.1 ∧ entry.2.Retitled other.2)
      (flow.nodes.map fun node => (node.id, node)) (nodes.map fun node => (node.id, node)) := by
    rw [List.forall₂_map_left_iff, List.forall₂_map_right_iff]
    exact retitled.imp fun _ _ nodes => ⟨nodes.id.symm, nodes⟩
  have nodes? : Option.Rel Node.Retitled ((Graph.ofFlow flow).node? id)
      ((Graph.ofFlow (flow.withNodes nodes)).node? id) :=
    Table.rel_get?_insertAll entries (fun _ => .none) id
  rcases none_or_some_of_rel nodes? with ⟨absent, alsoAbsent⟩ | ⟨node, other, found, again, titles⟩
  · rw [absent, alsoAbsent]
    exact .none
  · have known : (Graph.ofFlow flow).Knows node := by
      rw [Graph.Knows, Graph.keyed_ofFlow flow id node found]
      exact found
    have otherKnown : (Graph.ofFlow (flow.withNodes nodes)).Knows other := by
      rw [Graph.Knows, Graph.keyed_ofFlow (flow.withNodes nodes) id other again]
      exact again
    rw [found, again]
    exact .some ⟨known, otherKnown, titles⟩

theorem partners_next? (id : String) (outlet : Outlet) :
    Option.Rel (Partners flow nodes) ((Graph.ofFlow flow).next? id outlet)
      ((Graph.ofFlow (flow.withNodes nodes)).next? id outlet) := by
  have edges : (Graph.ofFlow (flow.withNodes nodes)).findEdge? id outlet =
      (Graph.ofFlow flow).findEdge? id outlet := rfl
  rw [Graph.next?, Graph.next?, edges]
  cases (Graph.ofFlow flow).findEdge? id outlet with
  | none => exact .none
  | some edge => exact partners_node? retitled edge.target

theorem mirrors_partners :
    Graph.Mirrors (Graph.ofFlow flow) (Graph.ofFlow (flow.withNodes nodes)) (fun id => id)
      (Partners flow nodes) := by
  constructor
  case known => exact fun partners => ⟨partners.known, partners.otherKnown⟩
  case kind => exact fun partners => partners.retitled.kind
  case id => exact fun partners => partners.retitled.id
  case injective =>
    intro first node second other partners again same
    rw [← partners.retitled.id, same, again.retitled.id]
  case next =>
    intro node other partners outlet _
    rw [partners.retitled.id]
    exact partners_next? retitled node.id outlet
  case failure =>
    intro node other partners _
    rw [partners.retitled.id]
    rfl

theorem pairs_partners : NameSource.Pairs (Partners flow nodes) Names.SameNumber :=
  ⟨fun _ _ => rfl, (mirrors_partners retitled).id_eq_iff⟩

theorem forall₂_triggerChildren {trigger other : Node} (same : trigger.Retitled other) :
    List.Forall₂ (Partners flow nodes)
      (Compile.triggerChildren (Graph.ofFlow flow) trigger)
      (Compile.triggerChildren (Graph.ofFlow (flow.withNodes nodes)) other) := by
  have edges : List.Forall₂ (fun edge partner : Edge => edge = partner)
      ((Graph.ofFlow flow).outgoing trigger.id)
      ((Graph.ofFlow (flow.withNodes nodes)).outgoing other.id) := by
    rw [same.id]
    exact List.forall₂_same.mpr fun _ _ => rfl
  refine List.rel_filter ?_ (List.rel_filterMap ?_ edges)
  · intro node partner partners
    change (node.kind.producesResult = true ↔ partner.kind.producesResult = true)
    rw [partners.retitled.kind]
  · rintro edge _ rfl
    exact partners_node? retitled edge.target

theorem rel_trigger? : Option.Rel Node.Retitled flow.trigger? (flow.withNodes nodes).trigger? :=
  rel_find? retitled fun _ _ same => by rw [same.kind]

end Flow

/-! ## Shapes of programs -/

namespace Compile

/-- At the beginning of a walk, the fixed variables are known, and those that are reserved: they
have the first numbers. -/
theorem counted_startScope {graph : Graph} {flow : Flow} {branch : Branch} {children : List Node}
    {walk : Walk Node} (childrenKnown : ∀ child ∈ children, graph.Knows child)
    (known : ∀ node ∈ walk.visits, graph.Knows node)
    (proper : (namedWalk flow branch children walk).Proper) :
    (startScope flow branch children).Counted (reservation flow branch children).1.last
      (namedWalk flow branch children walk).visits
      (3 + (reservation flow branch children).1.last) false := by
  have reserves : Reserves fixedVariables children (reservation flow branch children).1
      (startScope flow branch children).registry := reserves_reservation childrenKnown
  have wordy : ∀ name ∈ fixedVariables, Text.Wordy name := by decide
  have apart : ∀ name ∈ Registry.loopVariables, name ∉ fixedVariables := by decide
  constructor
  · rw [reserves.names, List.length_append, reserves.last]
    simp [fixedVariables, reservedVariables, reservedNames]
  · intro name member
    apply iff_of_false _ Bool.false_ne_true
    rw [reserves.names, List.mem_append, not_or]
    refine ⟨apart name member, fun reserved => ?_⟩
    rcases List.mem_map.mp reserved with ⟨names, among, equal⟩
    have owns : names.Owns names.result := .result
    exact owns.not_mem_loopVariables (proper_of_mem_reservedNames among) (equal ▸ member)
  · intro visit member
    have own := proper.names_of_mem member
    have owns : visit.names.Owns visit.names.result := .result
    rcases List.append_of_mem member with ⟨before, rest, split⟩
    have visits := congrArg Prod.fst (Walk.visits_name walk (reservation flow branch children).1)
    have takes := NameSource.takes_visitAll walk.visits before known (visits.symm.trans split)
    rw [reserves.names, List.mem_append,
      or_iff_right fun fixed => owns.not_wordy own (wordy _ fixed)]
    rcases takes with ⟨_, kept⟩ | ⟨_, above⟩
    · have among := reserves.mem_reservedNames kept
      apply iff_of_true (List.mem_map_of_mem among)
      rw [reserves.last]
      exact number_le_of_mem_reservedNames among
    · apply iff_of_false _ (Nat.not_le_of_lt above)
      intro reserved
      have bound := number_le_of_reserved own reserved
      rw [← reserves.last] at bound
      exact Nat.not_le_of_lt above bound

theorem shapes_allRoutines {related : Visit → Visit → Prop} (settings : Settings) (flow : Flow)
    (nodes : List Node) (branch : Branch) {scope other : Scope} {walk partner : Walk Visit}
    (alike : walk.Alike related partner)
    (routines : shapes (walk.routines settings scope) = shapes (partner.routines settings other)) :
    shapes (allRoutines settings flow branch scope walk) =
      shapes (allRoutines settings (flow.withNodes nodes) branch other partner) := by
  have main : (mainRoutine settings flow branch scope walk).shape =
      (mainRoutine settings (flow.withNodes nodes) branch other partner).shape := by
    rw [mainRoutine, mainRoutine, Routine.shape, Routine.shape]
    simp only [Step.kindsWithin_append, alike.kindsWithin_steps settings scope other]
    rfl
  rw [allRoutines, allRoutines, shapes_cons, shapes_cons, shapes_cons, shapes_cons, main, routines]
  rfl

/-- Walks of nodes that differ in their titles only are put together into programs of the same
shape. -/
theorem shape_assemble {flow : Flow} {nodes : List Node}
    (retitled : List.Forall₂ Node.Retitled flow.nodes nodes) (settings : Settings)
    (branch : Branch) {trigger other first second : Node} (same : trigger.Retitled other)
    {walk partner : Walk Node} (alike : walk.Alike (Flow.Partners flow nodes) partner)
    (connected : (Graph.ofFlow flow).next? trigger.id .nextStep = some first)
    (alsoConnected : (Graph.ofFlow (flow.withNodes nodes)).next? other.id .nextStep = some second)
    (unfolds : Graph.Unfolds (Graph.ofFlow flow) none (Graph.ofFlow flow).ids first walk)
    (alsoUnfolds : Graph.Unfolds (Graph.ofFlow (flow.withNodes nodes)) none
      (Graph.ofFlow (flow.withNodes nodes)).ids second partner) :
    (assemble settings (flow.withNodes nodes) branch
        (triggerChildren (Graph.ofFlow (flow.withNodes nodes)) other) partner).shape =
      (assemble settings flow branch (triggerChildren (Graph.ofFlow flow) trigger) walk).shape := by
  have left := assembled_of_unfolds settings branch connected unfolds
  have right := assembled_of_unfolds settings branch alsoConnected alsoUnfolds
  have pairs := Flow.pairs_partners retitled
  have children := Flow.forall₂_triggerChildren retitled same
  have sources := reserveAll_alike children pairs
    ((branchRegistry flow branch).bindVariable Registry.apiBase)
    ((branchRegistry (flow.withNodes nodes) branch).bindVariable Registry.apiBase)
    NameSource.alike_start
  have named : (namedWalk flow branch (triggerChildren (Graph.ofFlow flow) trigger) walk).Alike
      (Visit.Alike (Flow.Partners flow nodes) Names.SameNumber)
      (namedWalk (flow.withNodes nodes) branch
        (triggerChildren (Graph.ofFlow (flow.withNodes nodes)) other) partner) :=
    (alike.name pairs sources).1
  have keyed := Graph.keyed_ofFlow flow
  have alsoKeyed := Graph.keyed_ofFlow (flow.withNodes nodes)
  have leftCounted := counted_startScope left.known
    (unfolds.knows keyed (keyed.node?_of_next? connected)) left.proper
  have rightCounted := counted_startScope right.known
    (alsoUnfolds.knows alsoKeyed (alsoKeyed.node?_of_next? alsoConnected)) right.proper
  rw [show (reservation (flow.withNodes nodes) branch _).1.last = _ from sources.last.symm]
    at rightCounted
  have routines := named.shapes_routines settings left.proper right.proper leftCounted rightCounted
  rw [Program.shape_eq, Program.shape_eq, left.entries, right.entries]
  exact (shapes_allRoutines settings flow nodes branch named routines).symm

theorem shape_build {flow : Flow} {nodes : List Node}
    (retitled : List.Forall₂ Node.Retitled flow.nodes nodes) (settings : Settings)
    (lookup : BranchLookup) :
    (build settings lookup (flow.withNodes nodes)).map Program.shape =
      (build settings lookup flow).map Program.shape := by
  rcases none_or_some_of_rel (Flow.rel_trigger? retitled) with
    ⟨unstarted, alsoUnstarted⟩ | ⟨trigger, other, started, alsoStarted, same⟩
  · rw [build_of_unstarted unstarted, build_of_unstarted alsoUnstarted]
    rfl
  have next : Option.Rel (Flow.Partners flow nodes)
      ((Graph.ofFlow flow).next? trigger.id .nextStep)
      ((Graph.ofFlow (flow.withNodes nodes)).next? other.id .nextStep) := by
    rw [same.id]
    exact Flow.partners_next? retitled trigger.id .nextStep
  rcases none_or_some_of_rel next with
    ⟨unconnected, alsoUnconnected⟩ | ⟨first, second, connected, alsoConnected, partners⟩
  · rw [build_of_unconnected started unconnected,
      build_of_unconnected alsoStarted alsoUnconnected]
  cases found : lookup flow.branchId with
  | error failure =>
      rw [build_of_lookup_error started connected found,
        build_of_lookup_error alsoStarted alsoConnected found]
  | ok branch =>
      have mirrors := Flow.mirrors_partners retitled
      have walks := mirrors.unfold mirrors.matching_ids .none partners
      rw [build_of_connected started connected found,
        build_of_connected alsoStarted alsoConnected found]
      generalize unfolded : (Graph.ofFlow flow).unfold none _ first = result at walks ⊢
      generalize again : (Graph.ofFlow (flow.withNodes nodes)).unfold none _ second = mirrored
        at walks ⊢
      cases walks with
      | ok alike =>
          exact congrArg Except.ok (shape_assemble retitled settings branch same alike connected
            alsoConnected (Graph.unfolds_of_unfold _ _ _ _ _ unfolded)
            (Graph.unfolds_of_unfold _ _ _ _ _ again))
      | error failure =>
          rw [failure.rename_id]
          rfl

end Compile

/-! ## What settings and texts decide -/

/-- The settings, the answer to the lookup of the branch and the titles of nodes do not change what a
program is made of. For all settings and for all branches a flow fails with the same error, or
compiles to programs that differ only in the values of arguments, conditions and bindings, in the
bounds of loops and in the policies by which calls are repeated. In each of these programs exactly
the requests are repeated, by the policy of the settings. Other titles of nodes give other names, but
a program of the same shape. -/
theorem compiled_structure_independent (settings others : Settings) (lookup again : BranchLookup)
    (flow : Flow) :
    ((∃ branch, lookup flow.branchId = .ok branch) → (∃ branch, again flow.branchId = .ok branch) →
      (compile settings lookup flow).map Program.skeleton =
        (compile others again flow).map Program.skeleton) ∧
      (∀ program, compile settings lookup flow = .ok program →
        ∀ entry ∈ program.routines.entries, ∀ step ∈ entry.2.flatten, ∀ call ∈ step.call?,
          call.Repeats settings.httpRetry) ∧
      ∀ nodes, List.Forall₂ Node.Retitled flow.nodes nodes →
        (compile settings lookup (flow.withNodes nodes)).map Program.shape =
          (compile settings lookup flow).map Program.shape := by
  simp only [compile_eq_build]
  refine ⟨?_, ?_, ?_⟩
  · rintro ⟨branch, found⟩ ⟨other, alsoFound⟩
    exact Compile.skeleton_build settings others found alsoFound
  · intro program built entry member step inside call called
    have site : (entry.1, step) ∈ program.sites :=
      List.mem_flatMap.mpr ⟨entry, member, List.mem_map_of_mem inside⟩
    exact Compile.repeats_of_build built site called
  · intro nodes retitled
    exact Compile.shape_build retitled settings lookup

namespace Compile

def retitledNodes : List Node :=
  sampleFlow.nodes.map fun node => { node with title := node.title ++ " again" }

theorem retitled_sampleFlow : List.Forall₂ Node.Retitled sampleFlow.nodes retitledNodes := by
  rw [retitledNodes, List.forall₂_map_right_iff, List.forall₂_same]
  exact fun _ _ => ⟨rfl, rfl⟩

def patientSettings : Settings :=
  { Settings.standard with httpRetry := { RetryPolicy.standard with maxRetries := 9 } }

def otherLookup : BranchLookup := fun _ => .ok ⟨"South"⟩

theorem exists_ok_of_map_eq {ε α β : Type} {change : α → β} {result : Except ε α} {value : β}
    (succeeds : result.map change = .ok value) :
    ∃ original, result = .ok original ∧ change original = value := by
  cases result with
  | error error => cases succeeds
  | ok original => exact ⟨original, rfl, Except.ok.inj succeeds⟩

end Compile

theorem compiled_structure_independent_sample :
    ∃ program other retitled,
      compile .standard Compile.sampleLookup Compile.sampleFlow = .ok program ∧
      compile Compile.patientSettings Compile.otherLookup Compile.sampleFlow = .ok other ∧
      compile .standard Compile.sampleLookup
        (Compile.sampleFlow.withNodes Compile.retitledNodes) = .ok retitled ∧
      other.skeleton = program.skeleton ∧ retitled.shape = program.shape ∧
      ∀ entry ∈ program.routines.entries, ∀ step ∈ entry.2.flatten, ∀ call ∈ step.call?,
        call.Repeats .standard := by
  have independent := compiled_structure_independent .standard Compile.patientSettings
    Compile.sampleLookup Compile.otherLookup Compile.sampleFlow
  rcases Compile.exists_sampleProgram with ⟨program, compiled⟩
  have skeletons := independent.1 ⟨_, rfl⟩ ⟨_, rfl⟩
  have shapes := independent.2.2 Compile.retitledNodes Compile.retitled_sampleFlow
  rw [compiled] at skeletons shapes
  rcases Compile.exists_ok_of_map_eq skeletons.symm with ⟨other, alsoCompiled, sameSkeleton⟩
  rcases Compile.exists_ok_of_map_eq shapes with ⟨retitled, compiledAgain, sameShape⟩
  exact ⟨program, other, retitled, compiled, alsoCompiled, compiledAgain, sameSkeleton, sameShape,
    independent.2.1 program compiled⟩

end FlowCompiler
