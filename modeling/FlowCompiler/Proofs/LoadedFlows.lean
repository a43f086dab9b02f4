import FlowCompiler.Flow.Loader
import FlowCompiler.Proofs.Handles
import FlowCompiler.Proofs.Visits

namespace FlowCompiler

/-! Flows that are loaded: they have one trigger, no id belongs to two of their nodes, and their
edges connect nodes that are there. -/

def Flow.Loaded (flow : Flow) : Prop :=
  ∃ aliases exported, Flow.ofExport aliases exported = .ok flow

structure Flow.Consistent (flow : Flow) : Prop where
  distinct : (flow.nodes.map Node.id).Nodup
  single : (flow.nodes.countP fun node => node.kind.isTrigger) = 1
  sources : ∀ edge ∈ flow.edges, edge.source ∈ flow.nodes.map Node.id
  targets : ∀ edge ∈ flow.edges, edge.target ∈ flow.nodes.map Node.id

namespace Loader

theorem id_node {aliases : Table String} {exported : ExportedNode} {node : Node}
    (made : Loader.node aliases exported = .ok node) : node.id = exported.id := by
  rw [Loader.node] at made
  split at made
  · cases made
    rfl
  · cases made

/-- No id of a node is used before, and none is used twice. -/
theorem nodup_ids {aliases : Table String} : ∀ (exported : List ExportedNode) (seen : List String)
    {nodes : List Node}, Loader.nodes aliases seen exported = .ok nodes →
      (nodes.map Node.id).Nodup ∧ ∀ id ∈ nodes.map Node.id, id ∉ seen
  | [], seen, nodes, made => by
      cases made
      exact ⟨List.nodup_nil, by simp⟩
  | first :: rest, seen, nodes, made => by
      rw [Loader.nodes] at made
      by_cases used : first.id ∈ seen
      · rw [if_pos used] at made
        cases made
      · rw [if_neg used] at made
        rcases bind_eq_ok made with ⟨node, nodeMade, made⟩
        rcases bind_eq_ok made with ⟨others, othersMade, equal⟩
        cases equal
        have behind := nodup_ids rest (first.id :: seen) othersMade
        have id := id_node nodeMade
        rw [List.map_cons, id]
        constructor
        · refine List.nodup_cons.mpr ⟨?_, behind.1⟩
          exact fun again => behind.2 _ again List.mem_cons_self
        · intro other member
          rcases List.mem_cons.mp member with equal | member
          · exact equal ▸ used
          · exact fun earlier => behind.2 other member (List.mem_cons_of_mem _ earlier)

theorem countP_of_checkTriggers {flowId : String} {nodes : List Node}
    (checked : checkTriggers flowId nodes = .ok ()) :
    (nodes.countP fun node => node.kind.isTrigger) = 1 := by
  rw [checkTriggers] at checked
  split at checked
  · cases checked
  · assumption
  · cases checked

theorem ends_of_edges {ids : List String} : ∀ (exported : List ExportedEdge) (index : Nat)
    {edges : List Edge}, Loader.edges ids index exported = .ok edges →
      ∀ edge ∈ edges, edge.source ∈ ids ∧ edge.target ∈ ids
  | [], _, _, made => by
      cases made
      simp
  | first :: rest, index, edges, made => by
      rcases bind_eq_ok made with ⟨edge, edgeMade, made⟩
      rcases bind_eq_ok made with ⟨others, othersMade, equal⟩
      cases equal
      have behind := ends_of_edges rest (index + 1) othersMade
      rw [Loader.edge] at edgeMade
      split at edgeMade
      · cases edgeMade
      split at edgeMade
      · cases edgeMade
      cases edgeMade
      intro other member
      rcases List.mem_cons.mp member with equal | member
      · rw [equal]
        exact ⟨by simpa using ‹¬ first.source ∉ ids›, by simpa using ‹¬ first.target ∉ ids›⟩
      · exact behind other member

end Loader

namespace Flow

variable {flow : Flow}

theorem isTrigger_of_trigger? {node : Node} (started : flow.trigger? = some node) :
    node.kind.isTrigger := by
  rw [trigger?] at started
  simpa using List.find?_some started

theorem Loaded.consistent (loaded : flow.Loaded) : flow.Consistent := by
  rcases loaded with ⟨aliases, exported, made⟩
  rw [ofExport] at made
  rcases bind_eq_ok made with ⟨nodes, nodesMade, made⟩
  rcases bind_eq_ok made with ⟨_, checked, made⟩
  rcases bind_eq_ok made with ⟨edges, edgesMade, equal⟩
  cases equal
  have ends := Loader.ends_of_edges exported.edges 0 edgesMade
  exact ⟨(Loader.nodup_ids exported.nodes [] nodesMade).1, Loader.countP_of_checkTriggers checked,
    fun edge member => (ends edge member).1, fun edge member => (ends edge member).2⟩

namespace Consistent

variable (consistent : flow.Consistent)

include consistent

theorem exists_trigger : ∃ trigger, flow.trigger? = some trigger := by
  have triggers : 0 < flow.nodes.countP fun node => node.kind.isTrigger := by
    rw [consistent.single]
    exact Nat.one_pos
  rcases List.countP_pos_iff.mp triggers with ⟨trigger, member, isTrigger⟩
  exact Option.isSome_iff_exists.mp (List.find?_isSome.mpr ⟨trigger, member, isTrigger⟩)

theorem node?_eq_some_iff {id : String} {node : Node} :
    (Graph.ofFlow flow).node? id = some node ↔ node ∈ flow.nodes ∧ node.id = id := by
  have keys : Entries.keys (flow.nodes.map fun node => (node.id, node)) =
      flow.nodes.map Node.id := by
    simp [Entries.keys]
  rw [Graph.node?, Graph.ofFlow, Table.get?_eq_some_iff, Table.entries_ofList
    (keys ▸ consistent.distinct)]
  simp only [List.mem_map, Prod.mk.injEq]
  constructor
  · rintro ⟨other, member, same, rfl⟩
    exact ⟨member, same⟩
  · rintro ⟨member, same⟩
    exact ⟨node, member, same, rfl⟩

theorem exists_node {id : String} (known : id ∈ flow.nodes.map Node.id) :
    ∃ node, (Graph.ofFlow flow).node? id = some node := by
  rcases List.mem_map.mp known with ⟨node, member, same⟩
  exact ⟨node, consistent.node?_eq_some_iff.mpr ⟨member, same⟩⟩

theorem trigger?_eq_some_iff {node : Node} :
    flow.trigger? = some node ↔ node ∈ flow.nodes ∧ node.kind.isTrigger := by
  constructor
  · intro found
    exact ⟨List.mem_of_find?_eq_some found, isTrigger_of_trigger? found⟩
  · rintro ⟨member, isTrigger⟩
    rcases consistent.exists_trigger with ⟨trigger, found⟩
    have single := consistent.single
    rw [List.countP_eq_length_filter] at single
    rcases List.length_eq_one_iff.mp single with ⟨only, triggers⟩
    have first : node ∈ [only] := triggers ▸ List.mem_filter.mpr ⟨member, isTrigger⟩
    have second : trigger ∈ [only] := triggers ▸
      List.mem_filter.mpr ⟨List.mem_of_find?_eq_some found, isTrigger_of_trigger? found⟩
    rw [List.mem_singleton.mp first, ← List.mem_singleton.mp second]
    exact found

theorem target_of_mem_outgoing {id : String} {edge : Edge}
    (leaves : edge ∈ (Graph.ofFlow flow).outgoing id) :
    ∃ node, (Graph.ofFlow flow).node? edge.target = some node := by
  rw [Graph.outgoing_ofFlow] at leaves
  exact consistent.exists_node (consistent.targets edge (List.mem_filter.mp leaves).1)

/-- An edge leads to a node, so an outlet is connected if an edge leaves through it. -/
theorem isSome_next? (id : String) (outlet : Outlet) :
    ((Graph.ofFlow flow).next? id outlet).isSome =
      ((Graph.ofFlow flow).findEdge? id outlet).isSome := by
  rw [Graph.next?]
  cases found : (Graph.ofFlow flow).findEdge? id outlet with
  | none => rfl
  | some edge =>
      rcases consistent.target_of_mem_outgoing (List.mem_of_find?_eq_some found) with
        ⟨node, target⟩
      exact congrArg Option.isSome target

end Consistent

end Flow

end FlowCompiler
