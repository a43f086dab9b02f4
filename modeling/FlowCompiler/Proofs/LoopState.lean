import FlowCompiler.Proofs.CallTree
import FlowCompiler.Proofs.Interference
import FlowCompiler.Proofs.ScopeSafety
import FlowCompiler.Proofs.Trails
import FlowCompiler.Proofs.VisitCalls

namespace FlowCompiler

/-! The state of loops. A routine is inside of a loop if it is the body of the loop or is called
from there, directly or through others. The variables of an iteration can be read exactly in such
routines, delays are passed over exactly there, and a run that ends there goes on with the next
iteration. -/

open Expression Lowering Step

/-! ## Routines inside of loops -/

namespace Program

def IsLoopBody (program : Program) (name : String) : Prop :=
  ∃ home label head steps, (home, .loop label head steps) ∈ program.sites ∧
    ∃ call ∈ callsWithin steps, call.target = name

/-- The routine is the body of a loop, or it is called from one, directly or through others. -/
def InLoop (program : Program) (name : String) : Prop :=
  ∃ body, program.IsLoopBody body ∧ Relation.ReflTransGen program.Calls body name

variable {program : Program} {home name : String}

theorem IsLoopBody.inLoop (body : program.IsLoopBody name) : program.InLoop name :=
  ⟨name, body, .refl⟩

theorem InLoop.calls (inside : program.InLoop home) (calls : program.Calls home name) :
    program.InLoop name := by
  rcases inside with ⟨body, isBody, reached⟩
  exact ⟨body, isBody, reached.tail calls⟩

end Program

/-! ## Scopes inside of loops -/

def Scope.Marked (scope : Scope) : Prop :=
  ∀ name ∈ Registry.loopVariables, name ∈ scope.registry.names ↔ scope.insideLoop

namespace Scope.Marked

variable {scope : Scope}

theorem bindResult (marked : scope.Marked) {names : Names} (proper : names.Proper) :
    (scope.bindResult names).Marked := by
  intro name among
  have owned : names.Owns names.result := .result
  have other : name ≠ names.result := fun equal =>
    owned.not_mem_loopVariables proper (equal ▸ among)
  refine (Table.mem_keys_insert.trans ?_).trans (marked name among)
  exact ⟨fun member => member.resolve_left other, .inr⟩

theorem enterRoutine (marked : scope.Marked) : scope.enterRoutine.Marked := by
  intro name among
  rw [Scope.enterRoutine, Registry.names_rebased]
  exact marked name among

theorem enterLoop (scope : Scope) : scope.enterLoop.Marked := by
  intro name among
  refine iff_of_true ?_ rfl
  rcases List.mem_pair.mp among with equal | equal
  · exact Table.mem_keys_insert.mpr (.inr (Table.mem_keys_insert.mpr (.inl equal)))
  · exact Table.mem_keys_insert.mpr (.inl equal)

theorem after (marked : scope.Marked) {leg : Leg} (proper : leg.visit.names.Proper) :
    (scope.after leg).Marked := by
  cases leg with
  | onward visit =>
      rw [Scope.after]
      split
      · exact marked.bindResult proper
      · exact marked
  | exit visit way => exact (marked.bindResult proper).enterRoutine
  | failure visit way => exact marked.enterRoutine
  | body visit => exact enterLoop scope

end Scope.Marked

theorem LoopStart.callsWithin_iteration (names : Names) (registry : Registry) (loop : LoopStart) :
    callsWithin (loop.iteration names registry) = [loop.iterationCall names registry] := by
  rw [iteration, bodyCall_eq]
  cases loop.loopValue <;> rfl

namespace Walk

variable {settings : Settings} {home : String} {scope : Scope} {walk rest : Walk Visit} {leg : Leg}

/-! ## Calls of visits -/

/-- A call in the own steps of a visit is one of a primitive, which passes no variable of an
iteration on outside of loops, or it hands over to a routine of the visit. -/
theorem primitive_or_dispatch (clear : scope.registry.Clear) (marked : scope.Marked) {call : Call}
    (member : call ∈ callsWithin (walk.ownSteps settings scope)) :
    Primitive.isPrimitive call.target ∧ (scope.insideLoop = false → call.Quiet) ∨
      call ∈ walk.dispatches scope := by
  cases walk with
  | done | terminal => cases member
  | action visit act next =>
      exact .inl ⟨Action.isPrimitive_of_mem member, fun _ => Action.quiet_of_mem member⟩
  | fork visit choice exits =>
      rw [ownSteps, Fork.steps, callsWithin_append] at member
      rcases List.mem_append.mp member with opening | route
      · exact .inl ⟨Fork.isPrimitive_of_mem_opening opening,
          fun _ => Fork.quiet_of_mem_opening opening⟩
      · rcases Fork.exists_exit_of_mem_route route with ⟨exit, among, equal⟩
        rcases List.mem_map.mp among with ⟨pair, inside, rfl⟩
        exact .inr (List.mem_map.mpr ⟨pair, inside, equal.symm⟩)
  | subflow visit called exits next =>
      rcases Subflow.ownCall_or_dispatch member with own | ⟨exit, among, equal⟩
      · refine .inl ⟨Subflow.isPrimitive_of_mem_ownCalls own, fun outside => ?_⟩
        refine Subflow.quiet_of_mem_ownCalls clear (fun name known among => ?_) own
        rw [marked name among, outside] at known
        cases known
      · rcases List.mem_map.mp among with ⟨pair, inside, rfl⟩
        exact .inr (List.mem_map.mpr ⟨pair, inside, equal.symm⟩)
  | loop visit start body next =>
      rw [ownSteps, LoopStart.callsWithin_steps] at member
      exact .inr member

theorem isPrimitive_room_eq_false (home : String) (proper : walk.Proper)
    (door : leg ∈ walk.doors) :
    Primitive.isPrimitive (leg.room home) = false := by
  rcases exists_ownRoutine_of_door .standard home ⟨.empty, false⟩ door with ⟨routine, own, _⟩
  exact isPrimitive_eq_false_of_mem_routines proper (ownRoutines_subset _ _ _ own)

theorem exists_call_of_door (settings : Settings) (home : String) (scope : Scope)
    (proper : walk.Proper) (door : leg ∈ walk.doors) :
    ∃ step ∈ flattenSteps (walk.ownSteps settings scope), step.calls (leg.room home) := by
  have generated := isPrimitive_room_eq_false home proper door
  have counted : 0 < callCount (leg.room home) (walk.ownSteps settings scope) := by
    cases walk with
    | done | terminal | action => cases door
    | fork visit choice exits =>
        rcases List.mem_map.mp door with ⟨exit, inside, rfl⟩
        rw [ownSteps, Fork.callCount_steps generated, List.count_pos_iff, List.map_map]
        exact List.mem_map_of_mem inside
    | subflow visit called exits next =>
        rcases List.mem_map.mp door with ⟨exit, inside, rfl⟩
        rw [ownSteps, Subflow.callCount_steps generated called proper.shaped.1]
        refine Nat.mul_pos Nat.two_pos (List.count_pos_iff.mpr ?_)
        rw [List.map_map]
        exact List.mem_map_of_mem inside
    | loop visit start body next =>
        rw [List.mem_singleton.mp door, ownSteps, LoopStart.callCount_steps, Leg.room,
          List.count_singleton_self]
        exact Nat.one_pos
  exact List.countP_pos_iff.mp counted

end Walk

/-! ## Walks in programs -/

/-- The routine is registered in the program, and has the variables of an iteration as parameters
exactly if the scope is inside of a loop; then the routine is inside of a loop as well. -/
structure Program.Hosts (program : Program) (home : String) (scope : Scope) : Prop where
  params : ∃ routine, (home, routine) ∈ program.routines.entries ∧
    ∀ name ∈ Registry.loopVariables, name ∈ routine.params ↔ scope.insideLoop
  reached : scope.insideLoop → program.InLoop home

namespace Program

variable {program : Program} {home : String} {scope other : Scope}

theorem hosts_outside {routine : Routine} (entry : (home, routine) ∈ program.routines.entries)
    (unknown : ∀ name ∈ routine.params, name ∉ Registry.loopVariables)
    (outside : scope.insideLoop = false) : program.Hosts home scope := by
  refine ⟨⟨routine, entry, fun name among => ?_⟩, fun inside => ?_⟩
  · exact iff_of_false (fun member => unknown name member among) (by simp [outside])
  · rw [outside] at inside
    cases inside

theorem Hosts.mem_params (hosts : program.Hosts home scope) {routine : Routine}
    (entry : (home, routine) ∈ program.routines.entries) :
    ∀ name ∈ Registry.loopVariables, name ∈ routine.params ↔ scope.insideLoop := by
  rcases hosts.params with ⟨known, member, params⟩
  have same := Table.get?_eq_some_iff.mpr member
  rw [Table.get?_eq_some_iff.mpr entry] at same
  exact Option.some.inj same ▸ params

/-- A routine hosts scopes inside of loops, or scopes outside of loops, but not both. -/
theorem Hosts.insideLoop_iff (hosts : program.Hosts home scope) (also : program.Hosts home other) :
    scope.insideLoop ↔ other.insideLoop := by
  rcases hosts.params with ⟨routine, entry, params⟩
  have among : Registry.loopItem ∈ Registry.loopVariables := List.mem_cons_self
  exact (params _ among).symm.trans (also.mem_params entry _ among)

end Program

structure Walk.Stands (settings : Settings) (program : Program) (home : String) (scope : Scope)
    (walk : Walk Visit) : Prop where
  proper : walk.Proper
  roles : walk.InRoles Visit.node scope.insideLoop
  marked : scope.Marked
  clear : scope.registry.Clear
  routines : walk.routines settings scope ⊆ program.routines.entries
  emitted : (walk.emissions settings home scope).map Emission.site ⊆ program.sites
  hosted : program.Hosts home scope

namespace Walk.Stands

variable {settings : Settings} {program : Program} {home : String} {scope : Scope}
  {walk rest part : Walk Visit} {leg : Leg} {legs : List Leg}

theorem own_site (stands : walk.Stands settings program home scope) {visit : Visit}
    (first : walk.first? = some visit) {step : Step}
    (inside : step ∈ flattenSteps (walk.ownSteps settings scope)) :
    (home, step) ∈ program.sites := by
  have emitted : (⟨home, some visit, step⟩ : Emission) ∈
      emit home visit (walk.ownSteps settings scope) := List.mem_map_of_mem inside
  exact stands.emitted (List.mem_map_of_mem (f := Emission.site)
    (emit_subset_emissions first emitted))

/-- The host of the iteration of a loop stands in the routine of the loop, -/
theorem host_site {visit : Visit} {start : LoopStart} {body next : Walk Visit}
    (stands : (loop visit start body next).Stands settings program home scope) :
    (home, Step.loop (visit.names.step "iterate") (start.head settings visit.names)
      (start.iteration visit.names scope.registry)) ∈ program.sites :=
  stands.own_site rfl (List.mem_cons_of_mem _ List.mem_cons_self)

/-- and it calls the body. -/
theorem isLoopBody {visit : Visit} {start : LoopStart} {body next : Walk Visit}
    (stands : (loop visit start body next).Stands settings program home scope) :
    program.IsLoopBody (LoopStart.bodyRoutine visit.names) := by
  refine ⟨home, _, _, _, stands.host_site, start.iterationCall visit.names scope.registry, ?_, rfl⟩
  rw [LoopStart.callsWithin_iteration]
  exact List.mem_singleton_self _

/-- Inside of a loop, the routine behind a door is inside of a loop as well. -/
theorem inLoop_door (stands : walk.Stands settings program home scope) (door : leg ∈ walk.doors)
    (inside : (scope.after leg).insideLoop) : program.InLoop (leg.room home) := by
  rcases exists_ownRoutine_of_door settings home scope door with ⟨routine, own, _⟩
  have entry := stands.routines (ownRoutines_subset _ _ _ own)
  rcases exists_call_of_door settings home scope stands.proper door with
    ⟨step, among, called⟩
  have calls : program.Calls home (leg.room home) :=
    ⟨List.mem_map_of_mem (f := Prod.fst) entry, step,
      List.mem_filter.mpr ⟨stands.own_site (first?_of_mem_doors door) among, called⟩⟩
  cases walk with
  | done | terminal | action => cases door
  | fork visit choice exits =>
      rcases List.mem_map.mp door with ⟨exit, _, rfl⟩
      exact (stands.hosted.reached inside).calls calls
  | subflow visit called exits next =>
      rcases List.mem_map.mp door with ⟨exit, _, rfl⟩
      exact (stands.hosted.reached inside).calls calls
  | loop visit start body next =>
      rw [List.mem_singleton.mp door]
      exact stands.isLoopBody.inLoop

theorem hosts_door (stands : walk.Stands settings program home scope) (door : leg ∈ walk.doors) :
    program.Hosts (leg.room home) (scope.after leg) := by
  rcases exists_ownRoutine_of_door settings home scope door with ⟨routine, own, params⟩
  have proper := stands.proper.names_of_mem (mem_visits_of_first? (first?_of_mem_doors door))
  refine ⟨⟨routine, stands.routines (ownRoutines_subset _ _ _ own), fun name among => ?_⟩,
    stands.inLoop_door door⟩
  rw [params, ← stands.marked.after proper name among]
  exact List.mem_cons.trans
    (or_iff_right (Registry.ne_state_of_mem_loopVariables name among))

theorem goes (stands : walk.Stands settings program home scope) (goes : Goes walk leg rest) :
    rest.Stands settings program (leg.room home) (scope.after leg) := by
  have place := goes.place stands.roles .here
  have proper := stands.proper.names_of_mem (mem_visits_of_first? goes.first?)
  refine ⟨place.proper stands.proper, goes.inRoles stands.roles, stands.marked.after proper,
    place.clear stands.proper stands.clear,
    List.Subset.trans place.routines_subset stands.routines,
    List.Subset.trans (List.map_subset _ (goes.emissions_subset stands.roles)) stands.emitted, ?_⟩
  rcases goes.door_or_onward with door | ⟨visit, rfl⟩
  · exact stands.hosts_door door
  · have same := scope.insideLoop_onward visit
    exact ⟨same ▸ stands.hosted.params, same ▸ stands.hosted.reached⟩

theorem trail (stands : walk.Stands settings program home scope)
    (trail : Trail walk legs part) :
    part.Stands settings program (roomBehind home legs) (scope.afterAll legs) := by
  induction trail generalizing home scope with
  | here => exact stands
  | onward first _ induction => exact induction (stands.goes first)

end Walk.Stands

end FlowCompiler
