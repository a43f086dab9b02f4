import FlowCompiler.Proofs.Acceptance
import FlowCompiler.Proofs.PortGraphs

namespace FlowCompiler

/-! Edits of a flow that change nothing for a program: what stands where in the list of nodes and
in the list of edges, the ids, and nodes and edges that are never used. -/

def Node.rename (rename : String → String) (node : Node) : Node :=
  { node with id := rename node.id }

/-! Where ids are renamed, the ends of an edge are renamed as well, and its own id is a new one. -/

structure Edge.Renamed (rename : String → String) (edge other : Edge) : Prop where
  source : other.source = rename edge.source
  target : other.target = rename edge.target
  handle : other.sourceHandle = edge.sourceHandle

namespace Flow

def renameIds (flow : Flow) (rename : String → String) (edges : List Edge) : Flow :=
  { flow with nodes := flow.nodes.map (Node.rename rename), edges }

/-- No outlet of a reached node finds the edge: nothing with its source is reached, or its handle
is accepted only by outlets that find an edge in front of it. -/
def Unused (flow : Flow) (front : List Edge) (edge : Edge) : Prop :=
  ∀ node, flow.Reached node → node.id = edge.source → ∀ outlet ∈ node.kind.outlets,
    outlet.accepts edge.sourceHandle →
      ∃ earlier ∈ front, earlier.source = edge.source ∧ outlet.accepts earlier.sourceHandle

inductive Edit (flow : Flow) : Flow → Prop
  | relabel (flowId organisationId : String) :
      Edit flow { flow with flowId, organisationId }
  | reorder {nodes : List Node} (same : nodes.Perm flow.nodes) : Edit flow { flow with nodes }
  /-- Edges with the same source stay in their order. -/
  | interleave {edges : List Edge}
      (same : ∀ source : String, (edges.filter fun edge => edge.source = source) =
        flow.edges.filter fun edge => edge.source = source) : Edit flow { flow with edges }
  /-- In a flow that can be loaded, different nodes have different ids again. -/
  | rename (rename : String → String) {edges : List Edge}
      (renamed : List.Forall₂ (Edge.Renamed rename) flow.edges edges) :
      Edit flow (flow.renameIds rename edges)
  /-- No edge leads to a node that has just been added. -/
  | addNode {front rest : List Node} (node : Node) (parts : flow.nodes = front ++ rest) :
      Edit flow { flow with nodes := front ++ node :: rest }
  | addEdge {front rest : List Edge} (edge : Edge) (parts : flow.edges = front ++ rest)
      (inside : ∀ trigger, flow.trigger? = some trigger → edge.source ≠ trigger.id)
      (unused : flow.Unused front edge) :
      Edit flow { flow with edges := front ++ edge :: rest }

/-! ## Nodes that stay as they are -/

section

variable {left right : Flow} (consistent : left.Consistent) (alsoConsistent : right.Consistent)
  (kept : ∀ node ∈ left.nodes, node ∈ right.nodes)

include consistent alsoConsistent kept

theorem node?_of_kept {id : String} {node : Node}
    (found : (Graph.ofFlow left).node? id = some node) :
    (Graph.ofFlow right).node? id = some node := by
  have member := consistent.node?_eq_some_iff.mp found
  exact alsoConsistent.node?_eq_some_iff.mpr ⟨kept node member.1, member.2⟩

theorem trigger?_of_kept {trigger : Node} (started : left.trigger? = some trigger) :
    right.trigger? = some trigger := by
  have member := consistent.trigger?_eq_some_iff.mp started
  exact alsoConsistent.trigger?_eq_some_iff.mpr ⟨kept trigger member.1, member.2⟩

theorem next?_of_kept {id : String} {outlet : Outlet}
    (edges : (Graph.ofFlow right).findEdge? id outlet = (Graph.ofFlow left).findEdge? id outlet) :
    (Graph.ofFlow right).next? id outlet = (Graph.ofFlow left).next? id outlet := by
  rw [Graph.next?, Graph.next?, edges]
  cases found : (Graph.ofFlow left).findEdge? id outlet with
  | none => rfl
  | some edge =>
      rcases consistent.target_of_mem_outgoing (List.mem_of_find?_eq_some found) with
        ⟨node, target⟩
      have again := node?_of_kept consistent alsoConsistent kept target
      exact again.trans target.symm

/-- The flows are the same from the trigger on, without a renaming. -/
theorem Renames.of_kept (title : right.title = left.title) (branch : right.branchId = left.branchId)
    (leaving : ∀ trigger, left.trigger? = some trigger →
      (Graph.ofFlow right).outgoing trigger.id = (Graph.ofFlow left).outgoing trigger.id)
    (edges : ∀ node, left.Reached node → ∀ outlet ∈ node.kind.outlets,
      (Graph.ofFlow right).findEdge? node.id outlet =
        (Graph.ofFlow left).findEdge? node.id outlet) :
    left.Renames (fun id => id) right := by
  have same : ∀ trigger other, left.trigger? = some trigger → right.trigger? = some other →
      other = trigger ∧
        (Graph.ofFlow right).outgoing other.id = (Graph.ofFlow left).outgoing trigger.id := by
    intro trigger other started otherStarted
    have again := trigger?_of_kept consistent alsoConsistent kept started
    cases again.symm.trans otherStarted
    exact ⟨rfl, leaving trigger started⟩
  constructor
  case title => exact title
  case branch => exact branch
  case node =>
    intro node reached
    exact ⟨node, node?_of_kept consistent alsoConsistent kept reached.knows, rfl, rfl⟩
  case injective => exact fun _ _ _ _ equal => equal
  case next =>
    intro node reached outlet among
    rw [next?_of_kept consistent alsoConsistent kept (edges node reached outlet among)]
  case first =>
    intro trigger other started otherStarted
    have triggers := same trigger other started otherStarted
    have found : (Graph.ofFlow right).findEdge? trigger.id .nextStep =
        (Graph.ofFlow left).findEdge? trigger.id .nextStep := by
      rw [Graph.findEdge?, Graph.findEdge?, leaving trigger started]
    rw [triggers.1, next?_of_kept consistent alsoConsistent kept found]
  case targets =>
    intro trigger other started otherStarted
    rw [(same trigger other started otherStarted).2]

end

theorem findEdge?_append_of_unused {flow : Flow} {front rest : List Edge} {edge : Edge}
    (parts : flow.edges = front ++ rest) (unused : flow.Unused front edge) {node : Node}
    (reached : flow.Reached node) {outlet : Outlet} (among : outlet ∈ node.kind.outlets) :
    { flow with edges := front ++ edge :: rest }.findEdge? node.id outlet =
      flow.findEdge? node.id outlet := by
  rw [findEdge?, findEdge?, parts]
  simp only [List.find?_append]
  by_cases taken : edge.source = node.id ∧ outlet.accepts edge.sourceHandle
  · rcases unused node reached taken.1.symm outlet among taken.2 with
      ⟨earlier, member, source, accepts⟩
    have found : (front.find? fun edge =>
        edge.source = node.id && outlet.accepts edge.sourceHandle).isSome := by
      rw [List.find?_isSome]
      exact ⟨earlier, member, by simp [source, taken.1, accepts]⟩
    rcases Option.isSome_iff_exists.mp found with ⟨first, equal⟩
    rw [equal]
    rfl
  · rw [List.find?_cons_of_neg (by simpa using taken)]

/-! ## Nodes with other ids -/

section

variable {flow : Flow} {rename : String → String} {edges : List Edge}
  (renamed : List.Forall₂ (Edge.Renamed rename) flow.edges edges)
  (consistent : flow.Consistent)
  (alsoConsistent : (flow.renameIds rename edges).Consistent)

include alsoConsistent

theorem injective_of_renamed {id other : String} (known : id ∈ flow.nodes.map Node.id)
    (otherKnown : other ∈ flow.nodes.map Node.id) (equal : rename id = rename other) :
    id = other := by
  have distinct : ((flow.nodes.map Node.id).map rename).Nodup := by
    have ids := alsoConsistent.distinct
    rw [renameIds, List.map_map] at ids
    rw [List.map_map]
    exact ids
  exact List.inj_on_of_nodup_map distinct known otherKnown equal

theorem node?_of_renamed {id : String} {node : Node} (consistent : flow.Consistent)
    (found : (Graph.ofFlow flow).node? id = some node) :
    (Graph.ofFlow (flow.renameIds rename edges)).node?
      (rename id) = some (node.rename rename) := by
  have member := consistent.node?_eq_some_iff.mp found
  refine alsoConsistent.node?_eq_some_iff.mpr ⟨List.mem_map_of_mem member.1, ?_⟩
  rw [← member.2]
  rfl

include renamed consistent

/-- The edges of a node and of its counterpart correspond one by one. -/
theorem forall₂_outgoing_of_renamed {id : String} (known : id ∈ flow.nodes.map Node.id) :
    List.Forall₂ (fun edge other => edge ∈ (Graph.ofFlow flow).outgoing id ∧
        edge.Renamed rename other)
      ((Graph.ofFlow flow).outgoing id)
      ((Graph.ofFlow (flow.renameIds rename edges)).outgoing
        (rename id)) := by
  refine (List.forall₂_and_left _ _).mpr ⟨fun edge member => member, ?_⟩
  rw [Graph.outgoing_ofFlow, Graph.outgoing_ofFlow]
  have inside : List.Forall₂ (fun edge other => edge ∈ flow.edges ∧ edge.Renamed rename other)
      flow.edges edges :=
    (List.forall₂_and_left _ _).mpr ⟨fun edge member => member, renamed⟩
  have filtered := List.rel_filter (p := fun edge : Edge => decide (edge.source = id))
    (q := fun edge : Edge => decide (edge.source = rename id)) ?_ inside
  · exact filtered.imp fun _ _ edges => edges.2
  · rintro edge other ⟨member, edges⟩
    simp only [decide_eq_true_eq]
    rw [edges.source]
    constructor
    · exact fun own => congrArg rename own
    · exact injective_of_renamed alsoConsistent (consistent.sources edge member) known

/-- The counterpart of what is behind an outlet is behind the outlet of the counterpart. -/
theorem next?_of_renamed {id : String} (known : id ∈ flow.nodes.map Node.id) (outlet : Outlet) :
    ((Graph.ofFlow (flow.renameIds rename edges)).next?
        (rename id) outlet).map Node.id =
      ((Graph.ofFlow flow).next? id outlet).map fun next => rename next.id := by
  have found := rel_find? (p := fun edge : Edge => outlet.accepts edge.sourceHandle)
    (q := fun edge : Edge => outlet.accepts edge.sourceHandle)
    (forall₂_outgoing_of_renamed renamed consistent alsoConsistent known)
    fun edge other edges => by rw [edges.2.handle]
  rw [Graph.next?, Graph.next?, Graph.findEdge?, Graph.findEdge?]
  rcases none_or_some_of_rel found with
    ⟨unconnected, alsoUnconnected⟩ | ⟨edge, other, connected, alsoConnected, member, edges⟩
  · rw [unconnected, alsoUnconnected]
    rfl
  · rcases consistent.target_of_mem_outgoing member with ⟨node, target⟩
    have counterpart := node?_of_renamed alsoConsistent consistent target
    rw [connected, alsoConnected]
    change ((Graph.ofFlow _).node? other.target).map _ = ((Graph.ofFlow flow).node? _).map _
    rw [target, edges.target, counterpart]
    rfl

theorem Renames.of_renamed :
    flow.Renames rename (flow.renameIds rename edges) := by
  have known : ∀ {node : Node}, (Graph.ofFlow flow).Knows node →
      node.id ∈ flow.nodes.map Node.id :=
    fun knows => List.mem_map_of_mem (consistent.node?_eq_some_iff.mp knows).1
  have triggers : ∀ {trigger other : Node}, flow.trigger? = some trigger →
      (flow.renameIds rename edges).trigger? = some other →
        other = trigger.rename rename ∧ trigger.id ∈ flow.nodes.map Node.id := by
    intro trigger other started otherStarted
    have member := consistent.trigger?_eq_some_iff.mp started
    have counterpart := alsoConsistent.trigger?_eq_some_iff.mpr
      ⟨List.mem_map_of_mem (f := Node.rename rename) member.1, member.2⟩
    cases counterpart.symm.trans otherStarted
    exact ⟨rfl, List.mem_map_of_mem member.1⟩
  constructor
  case title => rfl
  case branch => rfl
  case node =>
    intro node reached
    exact ⟨_, node?_of_renamed alsoConsistent consistent reached.knows, rfl, rfl⟩
  case injective =>
    intro node other reached otherReached
    exact injective_of_renamed alsoConsistent (known reached.knows) (known otherReached.knows)
  case next =>
    intro node reached outlet _
    exact next?_of_renamed renamed consistent alsoConsistent (known reached.knows) outlet
  case first =>
    intro trigger other started otherStarted
    have same := triggers started otherStarted
    rw [same.1]
    exact next?_of_renamed renamed consistent alsoConsistent same.2 .nextStep
  case targets =>
    intro trigger other started otherStarted
    have same := triggers started otherStarted
    have edges := forall₂_outgoing_of_renamed renamed consistent alsoConsistent same.2
    rw [same.1]
    rw [← List.forall₂_eq_eq_eq, List.forall₂_map_left_iff, List.forall₂_map_right_iff]
    exact (edges.imp fun _ _ edges => edges.2.target).flip

end

/-! ## Edits -/

/-- Behind an edit, the flow is the same from its trigger on. -/
theorem Edit.renames {left right : Flow} (edit : left.Edit right) (consistent : left.Consistent)
    (alsoConsistent : right.Consistent) : ∃ rename, left.Renames rename right := by
  cases edit with
  | relabel =>
      exact ⟨_, .of_kept consistent alsoConsistent (fun _ member => member) rfl rfl
        (fun _ _ => rfl) fun _ _ _ _ => rfl⟩
  | reorder same =>
      refine ⟨_, .of_kept consistent alsoConsistent (fun _ member => same.mem_iff.mpr member)
        rfl rfl ?_ ?_⟩
      · intro trigger _
        rw [Graph.outgoing_ofFlow, Graph.outgoing_ofFlow]
      · intro node _ outlet _
        rw [Graph.findEdge?_ofFlow, Graph.findEdge?_ofFlow]
        rfl
  | interleave same =>
      refine ⟨_, .of_kept consistent alsoConsistent (fun _ member => member) rfl rfl ?_ ?_⟩
      · intro trigger _
        rw [Graph.outgoing_ofFlow, Graph.outgoing_ofFlow]
        exact same trigger.id
      · intro node _ outlet _
        rw [Graph.findEdge?, Graph.findEdge?, Graph.outgoing_ofFlow, Graph.outgoing_ofFlow]
        exact congrArg (List.find? _) (same node.id)
  | rename rename renamed => exact ⟨rename, .of_renamed renamed consistent alsoConsistent⟩
  | @addNode front rest node parts =>
      refine ⟨_, .of_kept consistent alsoConsistent ?_ rfl rfl ?_ ?_⟩
      · intro other member
        rw [parts] at member
        exact ((List.sublist_cons_self node rest).append_left front).subset member
      · intro trigger _
        rw [Graph.outgoing_ofFlow, Graph.outgoing_ofFlow]
      · intro node _ outlet _
        rw [Graph.findEdge?_ofFlow, Graph.findEdge?_ofFlow]
        rfl
  | addEdge edge parts inside unused =>
      refine ⟨_, .of_kept consistent alsoConsistent (fun _ member => member) rfl rfl ?_ ?_⟩
      · intro trigger started
        rw [Graph.outgoing_ofFlow, Graph.outgoing_ofFlow, parts]
        simp [inside trigger started]
      · intro node reached outlet among
        rw [Graph.findEdge?_ofFlow, Graph.findEdge?_ofFlow]
        exact findEdge?_append_of_unused parts unused reached among

def Edited : Flow → Flow → Prop :=
  Relation.ReflTransGen fun left right => right.Loaded ∧ left.Edit right

end Flow

/-! ## Programs of edited flows -/

theorem compile_eq_of_renames (settings : Settings) (lookup : BranchLookup)
    {rename : String → String} {left right : Flow} (consistent : left.Consistent)
    (alsoConsistent : right.Consistent) (renames : left.Renames rename right) :
    compile settings lookup right =
      (compile settings lookup left).mapError (CompileError.rename rename) := by
  rw [compile_eq_build, compile_eq_build]
  exact Compile.build_eq_of_renames settings lookup consistent alsoConsistent renames

theorem CompileError.rename_rename (first second : String → String) (error : CompileError) :
    (error.rename first).rename second = error.rename (second ∘ first) := by
  cases error with
  | walk error => exact congrArg CompileError.walk (error.rename_rename first second)
  | load | lookup | program => rfl

theorem CompileError.rename_id (error : CompileError) : error.rename (fun id => id) = error := by
  cases error with
  | walk error => exact congrArg CompileError.walk error.rename_id
  | load | lookup | program => rfl

theorem Flow.Edited.compile_eq (settings : Settings) (lookup : BranchLookup) {left right : Flow}
    (loaded : left.Loaded) (edited : left.Edited right) :
    right.Loaded ∧ ∃ rename, compile settings lookup right =
      (compile settings lookup left).mapError (CompileError.rename rename) := by
  induction edited with
  | refl =>
      refine ⟨loaded, fun id => id, ?_⟩
      cases compile settings lookup left with
      | ok program => rfl
      | error error => exact congrArg Except.error error.rename_id.symm
  | tail _ edit induction =>
      rcases induction with ⟨between, first, earlier⟩
      rcases edit with ⟨alsoLoaded, edit⟩
      rcases edit.renames between.consistent alsoLoaded.consistent with ⟨rename, renames⟩
      have last := compile_eq_of_renames settings lookup between.consistent alsoLoaded.consistent
        renames
      refine ⟨alsoLoaded, rename ∘ first, ?_⟩
      rw [last, earlier]
      cases compile settings lookup left with
      | ok program => rfl
      | error error => exact congrArg Except.error (error.rename_rename first rename)

/-- Two flows with the same title and branch compile to the same program, or fail with the same
error but for ids of nodes, if what is reached from the trigger of one of them has its counterpart
in the other one: nodes with the same titles and kinds, behind the same outlets, and behind the
edges of the trigger in the same order. So it makes no difference in which order nodes stand, how
edges with different sources are mixed, which ids nodes, edges, the flow and its organisation have,
and which nodes and edges are there that are not used. -/
theorem compile_depends_on_reached (settings : Settings) (lookup : BranchLookup)
    {left right : Flow} (loaded : left.Loaded) (alsoLoaded : right.Loaded) :
    (∀ rename, left.Renames rename right → compile settings lookup right =
      (compile settings lookup left).mapError (CompileError.rename rename)) ∧
      (left.Edited right → ∃ rename, compile settings lookup right =
        (compile settings lookup left).mapError (CompileError.rename rename)) := by
  constructor
  · intro rename renames
    exact compile_eq_of_renames settings lookup loaded.consistent alsoLoaded.consistent renames
  · intro edited
    exact (edited.compile_eq settings lookup loaded).2

namespace Compile

def movedId (id : String) : String :=
  "node " ++ id

def movedEdge (edge : Edge) : Edge :=
  ⟨"edge " ++ edge.id, movedId edge.source, movedId edge.target, edge.sourceHandle⟩

def movedFlow : Flow :=
  sampleFlow.renameIds movedId (sampleFlow.edges.map movedEdge)

theorem ofExport_movedFlow :
    Flow.ofExport .empty { sampleExport with
      nodes := sampleExport.nodes.map fun node => { node with id := movedId node.id }
      edges := sampleExport.edges.map fun edge =>
        { edge with
          id := "edge " ++ edge.id
          source := movedId edge.source
          target := movedId edge.target } } = .ok movedFlow := by
  decide +kernel

theorem edit_movedFlow : sampleFlow.Edit movedFlow := by
  refine .rename movedId ?_
  rw [List.forall₂_map_right_iff, List.forall₂_same]
  exact fun edge _ => ⟨rfl, rfl, rfl⟩

end Compile

theorem compile_depends_on_reached_moved :
    (∃ rename, Compile.sampleFlow.Renames rename Compile.movedFlow ∧
      ∀ settings lookup, compile settings lookup Compile.movedFlow =
        (compile settings lookup Compile.sampleFlow).mapError (CompileError.rename rename)) ∧
      ∃ program, compile .standard Compile.sampleLookup Compile.sampleFlow = .ok program ∧
        compile .standard Compile.sampleLookup Compile.movedFlow = .ok program := by
  have loaded : Compile.sampleFlow.Loaded := ⟨_, _, Compile.ofExport_sampleExport⟩
  have alsoLoaded : Compile.movedFlow.Loaded := ⟨_, _, Compile.ofExport_movedFlow⟩
  have edit := Compile.edit_movedFlow
  constructor
  · rcases edit.renames loaded.consistent alsoLoaded.consistent with ⟨rename, renames⟩
    refine ⟨rename, renames, fun settings lookup => ?_⟩
    exact (compile_depends_on_reached settings lookup loaded alsoLoaded).1 rename renames
  · rcases Compile.exists_sampleProgram with ⟨program, compiled⟩
    rcases (compile_depends_on_reached .standard Compile.sampleLookup loaded alsoLoaded).2
      (.single ⟨alsoLoaded, edit⟩) with ⟨rename, same⟩
    rw [compiled] at same
    exact ⟨program, compiled, same⟩

end FlowCompiler
