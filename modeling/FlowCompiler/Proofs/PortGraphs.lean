import FlowCompiler.Proofs.AlikeNames
import FlowCompiler.Proofs.BodySearch
import FlowCompiler.Proofs.Checked
import FlowCompiler.Proofs.LoadedFlows

namespace FlowCompiler

/-! What a program depends on: the nodes that can be reached from the trigger, and how their outlets
are connected. The ids of nodes and edges, their order in the flow and everything that cannot be
reached make no difference. -/

open Lowering

/-! ## Reached nodes -/

namespace Flow

inductive Reached (flow : Flow) : Node → Prop
  | child {trigger node : Node} {edge : Edge} (started : flow.trigger? = some trigger)
      (leaves : edge ∈ (Graph.ofFlow flow).outgoing trigger.id)
      (found : (Graph.ofFlow flow).node? edge.target = some node) : Reached flow node
  | follow {node next : Node} (reached : Reached flow node)
      (follows : (Graph.ofFlow flow).Follows node next) : Reached flow next

theorem Reached.knows {flow : Flow} {node : Node} (reached : flow.Reached node) :
    (Graph.ofFlow flow).Knows node := by
  have keyed := Graph.keyed_ofFlow flow
  cases reached with
  | child _ _ found =>
      rw [Graph.Knows, keyed _ _ found]
      exact found
  | follow _ follows => exact keyed.knows_of_follows follows

theorem Reached.of_first {flow : Flow} {trigger first : Node} {outlet : Outlet}
    (started : flow.trigger? = some trigger)
    (connected : (Graph.ofFlow flow).next? trigger.id outlet = some first) :
    flow.Reached first := by
  rcases Option.bind_eq_some_iff.mp connected with ⟨edge, found, target⟩
  exact .child started (List.mem_of_find?_eq_some found) target

/-! From the trigger on, the flows are the same but for the ids of the nodes, which are renamed. -/

structure Renames (left : Flow) (rename : String → String) (right : Flow) : Prop where
  title : right.title = left.title
  branch : right.branchId = left.branchId
  /-- Every reached node has a counterpart with its title and its kind. -/
  node : ∀ node, left.Reached node → ∃ other,
    (Graph.ofFlow right).node? (rename node.id) = some other ∧ other.title = node.title ∧
      other.kind = node.kind
  injective : ∀ node other, left.Reached node → left.Reached other →
    rename node.id = rename other.id → node.id = other.id
  /-- The counterpart of what is behind an outlet is behind the outlet of the counterpart. -/
  next : ∀ node, left.Reached node → ∀ outlet ∈ node.kind.outlets,
    ((Graph.ofFlow right).next? (rename node.id) outlet).map Node.id =
      ((Graph.ofFlow left).next? node.id outlet).map fun next => rename next.id
  first : ∀ trigger other, left.trigger? = some trigger → right.trigger? = some other →
    ((Graph.ofFlow right).next? other.id .nextStep).map Node.id =
      ((Graph.ofFlow left).next? trigger.id .nextStep).map fun next => rename next.id
  /-- The edges of the triggers lead to counterparts, in order. -/
  targets : ∀ trigger other, left.trigger? = some trigger → right.trigger? = some other →
    ((Graph.ofFlow right).outgoing other.id).map Edge.target =
      ((Graph.ofFlow left).outgoing trigger.id).map fun edge => rename edge.target

def Counterparts (rename : String → String) (left right : Flow) (node other : Node) : Prop :=
  left.Reached node ∧ (Graph.ofFlow right).node? (rename node.id) = some other

end Flow

namespace Flow

theorem rel_counterparts {rename : String → String} {left right : Flow} {next other : Option Node}
    (reached : ∀ node ∈ next, left.Reached node)
    (known : ∀ node ∈ other, (Graph.ofFlow right).Knows node)
    (ids : other.map Node.id = next.map fun node => rename node.id) :
    Option.Rel (Counterparts rename left right) next other := by
  cases next with
  | none =>
      cases other with
      | none => exact .none
      | some partner => cases ids
  | some node =>
      cases other with
      | none => cases ids
      | some partner =>
          have same : partner.id = rename node.id := Option.some.inj ids
          have found : (Graph.ofFlow right).node? partner.id = some partner := known partner rfl
          rw [same] at found
          exact .some ⟨reached node rfl, found⟩

end Flow

namespace Flow.Renames

variable {rename : String → String} {left right : Flow} (renames : left.Renames rename right)

include renames

theorem kind_and_title {node other : Node} (related : Counterparts rename left right node other) :
    other.kind = node.kind ∧ other.title = node.title := by
  rcases renames.node node related.1 with ⟨partner, found, title, kind⟩
  rw [related.2] at found
  cases found
  exact ⟨kind, title⟩

theorem next_counterparts {node other : Node}
    (related : Counterparts rename left right node other) {outlet : Outlet}
    (among : outlet ∈ node.kind.outlets) :
    Option.Rel (Counterparts rename left right) ((Graph.ofFlow left).next? node.id outlet)
      ((Graph.ofFlow right).next? other.id outlet) := by
  have id : other.id = rename node.id := Graph.keyed_ofFlow right _ _ related.2
  apply rel_counterparts
  · intro next connected
    exact related.1.follow (Graph.follows_iff.mpr ⟨outlet, among, connected⟩)
  · intro next connected
    exact (Graph.keyed_ofFlow right).node?_of_next? connected
  · rw [id]
    exact renames.next node related.1 outlet among

theorem mirrors (leftConsistent : left.Consistent) (rightConsistent : right.Consistent) :
    Graph.Mirrors (Graph.ofFlow left) (Graph.ofFlow right) rename
      (Counterparts rename left right) := by
  have keyed := Graph.keyed_ofFlow right
  have ids : ∀ {node other : Node}, Counterparts rename left right node other →
      other.id = rename node.id := fun related => keyed _ _ related.2
  constructor
  case known =>
    intro node other related
    refine ⟨related.1.knows, ?_⟩
    rw [Graph.Knows, ids related]
    exact related.2
  case kind => exact fun related => (renames.kind_and_title related).1
  case id => exact ids
  case injective =>
    intro first node second other related again equal
    rw [ids related, ids again] at equal
    exact renames.injective first second related.1 again.1 equal
  case next => exact fun related outlet among => renames.next_counterparts related among
  case failure =>
    intro node other related among
    have connected := isSome_eq_of_rel (renames.next_counterparts related among)
    rw [leftConsistent.isSome_next?, rightConsistent.isSome_next?] at connected
    rw [Graph.subflowExits, Graph.subflowExits]
    exact congrArg (fun found : Bool => if found then [Exit.failure] else []) connected.symm

theorem pairs (leftConsistent : left.Consistent) (rightConsistent : right.Consistent) :
    NameSource.Pairs (Counterparts rename left right) Eq := by
  refine ⟨fun number related => ?_, fun related again =>
    (renames.mirrors leftConsistent rightConsistent).id_eq_iff related again⟩
  have same := renames.kind_and_title related
  rw [Names.ofNode, Names.ofNode, same.1, same.2]

/-- Children of the triggers are counterparts, one by one. -/
theorem forall₂_children (consistent : left.Consistent) {trigger other : Node}
    (started : left.trigger? = some trigger) (otherStarted : right.trigger? = some other) :
    List.Forall₂ (Counterparts rename left right)
      (Compile.triggerChildren (Graph.ofFlow left) trigger)
      (Compile.triggerChildren (Graph.ofFlow right) other) := by
  have targets := renames.targets trigger other started otherStarted
  have edges : List.Forall₂ (fun edge partner : Edge =>
      edge ∈ (Graph.ofFlow left).outgoing trigger.id ∧ rename edge.target = partner.target)
      ((Graph.ofFlow left).outgoing trigger.id) ((Graph.ofFlow right).outgoing other.id) := by
    refine (List.forall₂_and_left _ _).mpr ⟨fun edge member => member, ?_⟩
    have equal := List.forall₂_eq_eq_eq ▸ targets.symm
    rwa [List.forall₂_map_left_iff, List.forall₂_map_right_iff] at equal
  refine List.rel_filter ?_ (List.rel_filterMap ?_ edges)
  · intro node partner related
    change (node.kind.producesResult = true ↔ partner.kind.producesResult = true)
    rw [(renames.kind_and_title related).1]
  · rintro edge partner ⟨leaves, target⟩
    rcases consistent.target_of_mem_outgoing leaves with ⟨node, found⟩
    have reached : left.Reached node := .child started leaves found
    rcases renames.node node reached with ⟨counterpart, otherFound, _⟩
    have id : node.id = edge.target := Graph.keyed_ofFlow left _ _ found
    change Option.Rel _ ((Graph.ofFlow left).node? edge.target)
      ((Graph.ofFlow right).node? partner.target)
    rw [found, ← target, ← id, otherFound]
    exact .some ⟨reached, otherFound⟩

end Flow.Renames

/-! ## Compiling -/

def CompileError.rename (rename : String → String) : CompileError → CompileError
  | .walk error => .walk (error.rename rename)
  | .load error => .load error
  | .lookup error => .lookup error
  | .program error => .program error

namespace Compile

variable {rename : String → String} {left right : Flow}

/-- Walks of counterparts are put together into the same program. -/
theorem assemble_eq_of_alike {same : Node → Node → Prop} (pairs : NameSource.Pairs same Eq)
    (title : right.title = left.title) (branchId : right.branchId = left.branchId)
    (settings : Settings) (branch : Branch) {children others : List Node}
    (alike : List.Forall₂ same children others) {walk partner : Walk Node}
    (walks : walk.Alike same partner) :
    assemble settings left branch children walk = assemble settings right branch others partner := by
  have registry : branchRegistry right branch = branchRegistry left branch := by
    rw [branchRegistry, branchRegistry, branchId]
  have setup : setupRoutine settings right (branchRegistry left branch) =
      setupRoutine settings left (branchRegistry left branch) := by
    rw [setupRoutine, setupRoutine, title]
  let known := (branchRegistry left branch).bindVariable Registry.apiBase
  have sources := reserveAll_alike alike pairs known known NameSource.alike_start
  have reserved := reserveAll_registry_eq alike pairs known NameSource.alike_start
  have named := (walks.name pairs sources).1
  have names : ∀ visit other : Visit, visit.Alike same Eq other → visit.names = other.names :=
    fun _ _ visits => visits.names
  have scope : startScope right branch others = startScope left branch children := by
    rw [startScope, startScope, reservation, reservation, registry, reserved]
  rw [assemble_eq, assemble_eq, allRoutines, allRoutines, mainRoutine, mainRoutine, scope, registry,
    setup]
  simp only [namedWalk, reservation, registry]
  rw [named.steps_eq names settings, named.routines_eq names settings]

theorem build_eq_of_renames (settings : Settings) (lookup : BranchLookup)
    (consistent : left.Consistent) (alsoConsistent : right.Consistent)
    (renames : left.Renames rename right) :
    build settings lookup right =
      (build settings lookup left).mapError (CompileError.rename rename) := by
  have mirrors := renames.mirrors consistent alsoConsistent
  rcases consistent.exists_trigger with ⟨trigger, started⟩
  rcases alsoConsistent.exists_trigger with ⟨other, otherStarted⟩
  have first : Option.Rel (Flow.Counterparts rename left right)
      ((Graph.ofFlow left).next? trigger.id .nextStep)
      ((Graph.ofFlow right).next? other.id .nextStep) := by
    apply Flow.rel_counterparts
    · exact fun node connected => .of_first started connected
    · exact fun node connected => (Graph.keyed_ofFlow right).node?_of_next? connected
    · exact renames.first trigger other started otherStarted
  rcases none_or_some_of_rel first with
    ⟨unconnected, alsoUnconnected⟩ | ⟨node, partner, connected, alsoConnected, related⟩
  · rw [build_of_unconnected started unconnected,
      build_of_unconnected otherStarted alsoUnconnected]
    rfl
  · cases found : lookup left.branchId with
    | error failure =>
        have alsoFound := renames.branch ▸ found
        rw [build_of_lookup_error started connected found,
          build_of_lookup_error otherStarted alsoConnected alsoFound]
        rfl
    | ok branch =>
        have alsoFound := renames.branch ▸ found
        have walks := mirrors.unfold mirrors.matching_ids .none related
        rw [build_of_connected started connected found,
          build_of_connected otherStarted alsoConnected alsoFound]
        generalize (Graph.ofFlow left).unfold none _ node = result at walks ⊢
        generalize (Graph.ofFlow right).unfold none _ partner = other at walks ⊢
        cases walks with
        | ok walks =>
            have same := assemble_eq_of_alike (renames.pairs consistent alsoConsistent)
              renames.title renames.branch settings branch
              (renames.forall₂_children consistent started otherStarted) walks
            exact congrArg Except.ok same.symm
        | error failure => rfl

end Compile

end FlowCompiler
