import FlowCompiler.Proofs.GraphLookups
import FlowCompiler.Proofs.Reservations
import FlowCompiler.Proofs.Trails

namespace FlowCompiler.Compile

/-! The origins of programs. A walk from which a program is made is an unfolding of the flow in
which every node has a role, and begins outside of loops. -/

open Lowering Step

variable {settings : Settings} {lookup : BranchLookup} {flow : Flow} {program : Program}
  {origin : Origin}

theorem eq_ok_of_toOption {ε α : Type} {result : Except ε α} {value : α}
    (succeeds : result.toOption = some value) : result = .ok value := by
  cases result with
  | error error => cases succeeds
  | ok other =>
      cases succeeds
      rfl

/-- The origin of a program is the unfolding of its flow, with names for the visits. -/
theorem exists_unfolded_of_origin (found : origin? lookup flow = some origin) :
    ∃ trigger first walk, flow.trigger? = some trigger ∧
      (Graph.ofFlow flow).next? trigger.id .nextStep = some first ∧
      Graph.Unfolds (Graph.ofFlow flow) none (Graph.ofFlow flow).ids first walk ∧
      origin.scope = startScope flow origin.branch
        (triggerChildren (Graph.ofFlow flow) trigger) ∧
      origin.walk = namedWalk flow origin.branch (triggerChildren (Graph.ofFlow flow) trigger)
        walk := by
  simp only [origin?, Option.bind_eq_bind, Option.bind_eq_some_iff] at found
  rcases found with ⟨trigger, started, first, connected, branch, _, walk, unfolded, equal⟩
  have unfolds := Graph.unfolds_of_unfold _ _ _ _ _ (eq_ok_of_toOption unfolded)
  cases equal
  exact ⟨trigger, first, walk, started, connected, unfolds, rfl, rfl⟩

theorem outside_origin (found : origin? lookup flow = some origin) :
    origin.scope.insideLoop = false := by
  rcases exists_unfolded_of_origin found with ⟨_, _, _, _, _, _, scope, _⟩
  rw [scope, startScope]

theorem inRoles_origin (found : origin? lookup flow = some origin) :
    origin.walk.InRoles Visit.node origin.scope.insideLoop := by
  rcases exists_unfolded_of_origin found with ⟨_, _, walk, _, _, unfolds, scope, named⟩
  rw [scope, named]
  exact Walk.inRoles_name walk unfolds.inRoles

theorem node_mem_of_origin (found : origin? lookup flow = some origin) {visit : Visit}
    (among : visit ∈ origin.walk.visits) : visit.node ∈ flow.nodes := by
  rcases exists_unfolded_of_origin found with ⟨_, _, walk, _, connected, unfolds, _, named⟩
  have keyed := Graph.keyed_ofFlow flow
  have known := unfolds.knows keyed (keyed.node?_of_next? connected)
  have node : visit.node ∈ walk.visits := by
    rw [← Walk.map_node_visits_name walk]
    exact List.mem_map_of_mem (named ▸ among)
  have stored := known visit.node node
  rw [Graph.Knows, Graph.node?_ofFlow] at stored
  exact List.mem_reverse.mp (List.mem_of_find?_eq_some stored)

/-- A program that has an origin is put together from it. -/
theorem proper_and_entries_of_origin (built : build settings lookup flow = .ok program)
    (found : origin? lookup flow = some origin) :
    origin.walk.Proper ∧ program.routines.entries =
      allRoutines settings flow origin.branch origin.scope origin.walk := by
  rcases exists_origin_of_build built with ⟨none, _⟩ | ⟨other, same, parts⟩
  · rw [none] at found
    cases found
  · rw [found] at same
    cases same
    exact parts

end FlowCompiler.Compile
