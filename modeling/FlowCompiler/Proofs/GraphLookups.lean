import FlowCompiler.Proofs.Acceptance

namespace FlowCompiler

/-! What a graph finds, next to a search through the flow itself. Edges are found alike in every
flow. Of several nodes with one id, the graph finds the last one and the flow the first one, so
nodes are found alike where ids are distinct, as they are in every flow that is loaded. -/

/-! ## Lists with distinct keys -/

theorem find?_key_eq_some_iff {α : Type} {key : α → String} {values : List α}
    (distinct : (values.map key).Nodup) {query : String} {value : α} :
    values.find? (fun other => key other = query) = some value ↔
      value ∈ values ∧ key value = query := by
  constructor
  · intro found
    exact ⟨List.mem_of_find?_eq_some found, by simpa using List.find?_some found⟩
  · rintro ⟨member, own⟩
    have isSome : (values.find? fun other => key other = query).isSome :=
      List.find?_isSome.mpr ⟨value, member, by simpa using own⟩
    rcases Option.isSome_iff_exists.mp isSome with ⟨other, found⟩
    have same : key other = key value := by
      rw [own]
      simpa using List.find?_some found
    rw [found, List.inj_on_of_nodup_map distinct (List.mem_of_find?_eq_some found) member same]

/-- With distinct keys it makes no difference from which end a list is searched. -/
theorem find?_reverse_of_nodup {α : Type} {key : α → String} {values : List α}
    (distinct : (values.map key).Nodup) (query : String) :
    values.reverse.find? (fun other => key other = query) =
      values.find? fun other => key other = query := by
  have reversed : (values.reverse.map key).Nodup := by
    rw [List.map_reverse]
    exact List.nodup_reverse.mpr distinct
  refine Option.ext fun value => ?_
  rw [find?_key_eq_some_iff reversed, find?_key_eq_some_iff distinct, List.mem_reverse]

/-- Of all values that are stored under a key, a table has the last one. -/
theorem Table.get?_insertAll_map {α : Type} (key : α → String) (query : String)
    (values : List α) : ∀ table : Table α,
      (table.insertAll (values.map fun value => (key value, value))).get? query =
        (values.reverse.find? fun value => key value = query).or (table.get? query) := by
  induction values with
  | nil => exact fun _ => rfl
  | cons value rest induction =>
      intro table
      have step : table.insertAll ((value :: rest).map fun value => (key value, value)) =
          (table.insert (key value) value).insertAll
            (rest.map fun value => (key value, value)) := rfl
      rw [step, induction, Table.get?_insert, List.reverse_cons, List.find?_append, Option.or_assoc]
      by_cases own : key value = query
      · rw [if_pos own, List.find?_cons_of_pos (by simpa using own), Option.some_or]
      · rw [if_neg own, List.find?_cons_of_neg (by simpa using own), List.find?_nil,
          Option.none_or]

/-! ## Nodes -/

namespace Graph

/-- The graph of a flow finds the last node with an id. -/
theorem node?_ofFlow (flow : Flow) (id : String) :
    (ofFlow flow).node? id = flow.nodes.reverse.find? fun node => node.id = id := by
  rw [node?, ofFlow, Table.ofList, Table.get?_insertAll_map Node.id]
  exact Option.or_none

/-- Two notes have one id: the graph finds the second one, and the flow the first one. -/
example :
    let notes : List Node := [
      ⟨"note", "First", .sendText ⟨"Hello", false, none, none⟩⟩,
      ⟨"note", "Second", .sendText ⟨"Bye", false, none, none⟩⟩]
    let flow : Flow := ⟨"notes", "Notes", "shop", "north", notes, []⟩
    ((ofFlow flow).node? "note").map Node.title = some "Second" ∧
      (flow.node? "note").map Node.title = some "First" := by
  decide

theorem node?_eq_of_distinct {flow : Flow} (distinct : (flow.nodes.map Node.id).Nodup)
    (id : String) : (ofFlow flow).node? id = flow.node? id := by
  rw [node?_ofFlow, find?_reverse_of_nodup distinct, Flow.node?]

end Graph

/-! ## What is found -/

/-- The graph of a flow finds the edges that a search through the flow finds, in their order, also
where ids repeat or edges lead nowhere. If the flow was loaded, it finds the same nodes as well,
and an outlet leads to the node to which its edge leads. -/
theorem graph_lookups_agree (flow : Flow) :
    (∀ id outlet, (Graph.ofFlow flow).findEdge? id outlet = flow.findEdge? id outlet) ∧
    (∀ id, (Graph.ofFlow flow).outgoing id = flow.edges.filter fun edge => edge.source = id) ∧
    (flow.Loaded →
      (∀ id, (Graph.ofFlow flow).node? id = flow.node? id) ∧
      ∀ id outlet,
        (((Graph.ofFlow flow).next? id outlet).isSome ↔ (flow.findEdge? id outlet).isSome) ∧
        ∀ edge, flow.findEdge? id outlet = some edge →
          ∃ node ∈ flow.nodes, node.id = edge.target ∧
            (Graph.ofFlow flow).next? id outlet = some node) := by
  refine ⟨Graph.findEdge?_ofFlow flow, Graph.outgoing_ofFlow flow, fun loaded => ?_⟩
  have consistent := loaded.consistent
  refine ⟨Graph.node?_eq_of_distinct consistent.distinct, fun id outlet => ⟨?_, ?_⟩⟩
  · rw [consistent.isSome_next?, Graph.findEdge?_ofFlow]
  · intro edge found
    have among : edge ∈ flow.edges := List.mem_of_find?_eq_some found
    rcases consistent.exists_node (consistent.targets edge among) with ⟨node, target⟩
    rcases consistent.node?_eq_some_iff.mp target with ⟨member, same⟩
    refine ⟨node, member, same, ?_⟩
    rw [Graph.next?, Graph.findEdge?_ofFlow, found]
    exact target

/-- In the sample flow, the outlet for an answer leads to the subflow. -/
theorem graph_lookups_agree_sample :
    Compile.sampleFlow.Loaded ∧
      (∀ id, (Graph.ofFlow Compile.sampleFlow).node? id = Compile.sampleFlow.node? id) ∧
      ∃ node ∈ Compile.sampleFlow.nodes, node.id = "bill" ∧
        (Graph.ofFlow Compile.sampleFlow).next? "ask" (.option "yes") = some node := by
  have loaded : Compile.sampleFlow.Loaded := ⟨.empty, _, Compile.ofExport_sampleExport⟩
  have found := (graph_lookups_agree Compile.sampleFlow).2.2 loaded
  exact ⟨loaded, found.1, (found.2 "ask" (.option "yes")).2 ⟨"2", "ask", "bill", "option-yes"⟩
    (by decide)⟩

end FlowCompiler
