import FlowCompiler.Proofs.Origins
import FlowCompiler.Proofs.VisitCalls

namespace FlowCompiler

/-! The parameters of routines. Every routine takes the variables that are bound along the path
that leads into it, in the order of the path, behind the ones that are known from the beginning.
What is bound beside the path, in other routines or in the bodies of loops, is no parameter. -/

open Lowering

/-! ## Variables of legs -/

def Leg.bound : Leg → List String
  | .onward visit | .exit visit _ =>
      if visit.node.kind.producesResult then [visit.names.result] else []
  | .failure .. => []
  | .body _ => Registry.loopVariables

def Leg.entersLoop : Leg → Bool
  | .body _ => true
  | .onward _ | .exit .. | .failure .. => false

namespace Leg

variable {leg : Leg} {name : String}

/-- A leg binds the variable of its visit, or the variables of an iteration. -/
theorem result_or_loop_of_mem_bound (member : name ∈ leg.bound) :
    name = leg.visit.names.result ∨ leg.entersLoop ∧ name ∈ Registry.loopVariables := by
  cases leg with
  | onward visit | exit visit =>
      rw [bound] at member
      split at member
      · exact .inl (List.mem_singleton.mp member)
      · cases member
  | failure => cases member
  | body => exact .inr ⟨rfl, member⟩

theorem nodup_bound (leg : Leg) : leg.bound.Nodup := by
  cases leg with
  | onward visit | exit visit =>
      rw [bound]
      split
      · exact List.nodup_singleton _
      · exact List.nodup_nil
  | failure => exact List.nodup_nil
  | body => exact (by decide : Registry.loopVariables.Nodup)

end Leg

/-! ## Names of registries -/

namespace Registry

/-- Names that are added one behind the other may as well be added together. -/
theorem names_of_added {registry middle after : Registry} {first second : List String}
    (left : middle.names = registry.names ++ registry.unknown first)
    (right : after.names = middle.names ++ middle.unknown second)
    (apart : first.Disjoint second) :
    after.names = registry.names ++ registry.unknown (first ++ second) := by
  have same : middle.unknown second = registry.unknown second := by
    apply List.filter_congr
    intro name member
    have other : name ∉ registry.unknown first := fun added =>
      apart (List.mem_filter.mp added).1 member
    simp [left, other]
  rw [right, left, same, unknown, unknown, unknown, List.filter_append, List.append_assoc]

end Registry

/-- The variables of an iteration are the last parameters of the body of a loop. -/
theorem LoopStart.names_bodyRegistry (registry : Registry) :
    (bodyRegistry registry).names =
      registry.names ++ registry.unknown Registry.loopVariables := by
  have item := registry.rebased.names_bindVariable Registry.loopItem
  have index := (registry.rebased.bindVariable Registry.loopItem).names_bindVariable
    Registry.loopIndex
  have both := Registry.names_of_added item index (List.disjoint_singleton.mpr (by decide))
  rw [Registry.unknown, Registry.names_rebased] at both
  exact both

theorem Scope.names_enterRoutine (scope : Scope) :
    scope.enterRoutine.registry.names = scope.registry.names :=
  scope.registry.names_rebased

/-! ## Paths into routines -/

namespace Walk

inductive Enters : Walk Visit → List Leg → Prop
  | door {walk : Walk Visit} {leg : Leg} (door : leg ∈ walk.doors) : Enters walk [leg]
  | behind {walk rest : Walk Visit} {leg : Leg} {path : List Leg} (first : Goes walk leg rest)
      (enters : Enters rest path) : Enters walk (leg :: path)

section

variable {settings : Settings} {home : String} {scope : Scope} {walk rest part : Walk Visit}
  {leg : Leg} {legs path : List Leg}

theorem Trail.enters (trail : Trail walk legs part) (door : leg ∈ part.doors) :
    Enters walk (legs ++ [leg]) := by
  induction trail with
  | here => exact .door door
  | onward first _ induction => exact .behind first (induction door)

/-- A path leads into every routine of a walk. -/
theorem exists_enters_of_mem_routines (roles : walk.InRoles Visit.node scope.insideLoop)
    {entry : String × Routine} (member : entry ∈ walk.routines settings scope) :
    ∃ path, walk.Enters path ∧ roomBehind home path = entry.1 := by
  rcases exists_place_of_mem_routines walk member with ⟨inner, part, place, own⟩
  rcases place.exists_trail roles with ⟨legs, trail, rfl⟩
  rcases exists_door_of_ownRoutine (roomBehind home legs) own with ⟨leg, door, room, _⟩
  refine ⟨legs ++ [leg], trail.enters door, ?_⟩
  rw [roomBehind, List.foldl_append]
  exact room

theorem Goes.routines_subset (goes : Goes walk leg rest)
    (roles : walk.InRoles Visit.node scope.insideLoop) :
    rest.routines settings (scope.after leg) ⊆ walk.routines settings scope :=
  (goes.place roles .here).routines_subset

/-- The routine at the end of a path takes the variables that are known behind the path. -/
theorem Enters.exists_routine (settings : Settings) (home : String) (enters : Enters walk path)
    (roles : walk.InRoles Visit.node scope.insideLoop) :
    ∃ routine, (roomBehind home path, routine) ∈ walk.routines settings scope ∧
      routine.params = (scope.afterAll path).registry.params := by
  induction enters generalizing home scope with
  | door door =>
      rcases exists_ownRoutine_of_door settings home scope door with ⟨routine, own, params⟩
      exact ⟨routine, ownRoutines_subset _ _ _ own, params⟩
  | behind first _ induction =>
      rcases induction _ (first.inRoles roles) with ⟨routine, member, params⟩
      exact ⟨routine, first.routines_subset roles member, params⟩

/-! ## Visits along a path -/

theorem Goes.visits_sublist (goes : Goes walk leg rest) :
    (leg.visit :: rest.visits).Sublist walk.visits := by
  cases goes with
  | action => exact List.Sublist.refl _
  | fork member => exact (visits_sublist_of_mem _ member).cons_cons _
  | failure member =>
      exact ((visits_sublist_of_mem _ member).trans (List.sublist_append_left _ _)).cons_cons _
  | subflow | loop => exact (List.sublist_append_right _ _).cons_cons _
  | body => exact (List.sublist_append_left _ _).cons_cons _

theorem Trail.visits_sublist {legs : List Leg} {part : Walk Visit} (trail : Trail walk legs part) :
    part.visits.Sublist walk.visits := by
  induction trail with
  | here => exact List.Sublist.refl _
  | onward first _ induction =>
      exact induction.trans ((List.sublist_cons_self _ _).trans first.visits_sublist)

theorem Enters.visits_sublist (enters : Enters walk path) :
    (path.map Leg.visit).Sublist walk.visits := by
  induction enters with
  | door door => exact List.singleton_sublist.mpr (mem_visits_of_first? (first?_of_mem_doors door))
  | behind first _ induction => exact (induction.cons_cons _).trans first.visits_sublist

theorem Goes.proper_rest (goes : Goes walk leg rest) (proper : walk.Proper) : rest.Proper := by
  cases goes with
  | action => exact proper.next_action
  | fork member => exact proper.behind_fork member
  | failure member => exact proper.behind_subflow member
  | subflow => exact proper.next_subflow
  | body => exact proper.body_loop
  | loop => exact proper.next_loop

theorem outside_of_entersLoop {inside : Bool} (door : leg ∈ walk.doors) (enters : leg.entersLoop)
    (roles : walk.InRoles Visit.node inside) : inside = false := by
  cases walk with
  | done | terminal | action => cases door
  | fork visit choice exits | subflow visit called exits next =>
      rcases List.mem_map.mp door with ⟨exit, _, rfl⟩
      cases enters
  | loop => exact roles.2.1

/-- Inside of a loop, a path does not enter another loop. -/
theorem Enters.not_entersLoop (enters : Enters walk path) (inside : scope.insideLoop)
    (roles : walk.InRoles Visit.node scope.insideLoop) :
    ∀ leg ∈ path, ¬ leg.entersLoop := by
  have closed : ∀ {walk : Walk Visit} {leg : Leg} {scope : Scope}, scope.insideLoop →
      walk.InRoles Visit.node scope.insideLoop → leg ∈ walk.doors → ¬ leg.entersLoop := by
    intro walk leg scope inside roles door enters
    have outside := outside_of_entersLoop door enters roles
    rw [inside] at outside
    cases outside
  induction enters generalizing scope with
  | door door =>
      intro leg member
      rw [List.mem_singleton.mp member]
      exact closed inside roles door
  | behind first _ induction =>
      intro leg member
      rcases List.mem_cons.mp member with equal | member
      · rw [equal]
        rcases first.door_or_onward with door | ⟨visit, onward⟩
        · exact closed inside roles door
        · rw [onward]
          exact Bool.false_ne_true
      · exact induction (scope.insideLoop_after inside _) (first.inRoles roles) leg member

/-! ## Variables along a path -/

/-- What is bound along a leg is not bound again behind it. -/
theorem Goes.disjoint_bound (first : Goes walk leg rest) (enters : Enters rest path)
    (proper : walk.Proper) (roles : walk.InRoles Visit.node scope.insideLoop) :
    leg.bound.Disjoint (path.flatMap Leg.bound) := by
  intro name bound later
  rcases List.mem_flatMap.mp later with ⟨other, among, again⟩
  have behind : other.visit ∈ rest.visits :=
    enters.visits_sublist.subset (List.mem_map_of_mem among)
  have own : leg.visit.names.Proper :=
    proper.names_of_mem (first.visits_sublist.subset List.mem_cons_self)
  have othersOwn : other.visit.names.Proper :=
    proper.names_of_mem (first.visits_sublist.subset (List.mem_cons_of_mem _ behind))
  have owns : leg.visit.names.Owns leg.visit.names.result := .result
  have othersOwns : other.visit.names.Owns other.visit.names.result := .result
  rcases Leg.result_or_loop_of_mem_bound bound with equal | ⟨entered, loop⟩ <;>
    rcases Leg.result_or_loop_of_mem_bound again with same | ⟨enteredAgain, loopAgain⟩
  · have numbers := ((first.visits_sublist.map _).nodup proper.distinct)
    have different := (List.nodup_cons.mp numbers).1
    have number := owns.number_eq own othersOwn (equal.symm.trans same ▸ othersOwns)
    exact different (List.mem_map.mpr ⟨other.visit, behind, number.symm⟩)
  · exact owns.not_mem_loopVariables own (equal ▸ loopAgain)
  · exact othersOwns.not_mem_loopVariables othersOwn (same ▸ loop)
  · have inside : (scope.after leg).insideLoop := by
      cases leg with
      | body => rfl
      | onward | exit | failure => cases entered
    exact enters.not_entersLoop inside (first.inRoles roles) other among enteredAgain

theorem Enters.nodup_bound (enters : Enters walk path) (proper : walk.Proper)
    (roles : walk.InRoles Visit.node scope.insideLoop) : (path.flatMap Leg.bound).Nodup := by
  induction enters generalizing scope with
  | door =>
      rw [List.flatMap_singleton]
      apply Leg.nodup_bound
  | behind first enters induction =>
      rw [List.flatMap_cons]
      apply List.Nodup.append (Leg.nodup_bound _)
      · exact induction (first.proper_rest proper) (first.inRoles roles)
      · exact first.disjoint_bound enters proper roles

theorem names_after_onward (scope : Scope) (visit : Visit) :
    (scope.after (.onward visit)).registry.names =
      scope.registry.names ++ scope.registry.unknown (Leg.onward visit).bound := by
  rw [Scope.after, Leg.bound]
  split
  · exact scope.registry.names_bindVariable _
  · exact (List.append_nil _).symm

/-- A walk is left through exits only at forks, which bind their variables. -/
theorem produces_of_exit {inside : Bool} {visit : Visit} {way : Exit}
    (door : Leg.exit visit way ∈ walk.doors) (roles : walk.InRoles Visit.node inside) :
    visit.node.kind.producesResult := by
  cases walk with
  | done | terminal | action => cases door
  | fork first choice exits =>
      rcases List.mem_map.mp door with ⟨exit, _, equal⟩
      cases equal
      rw [Kind.producesResult_eq_binds, show visit.node.kind.role = _ from roles.1]
      rfl
  | subflow first called exits next =>
      rcases List.mem_map.mp door with ⟨exit, _, equal⟩
      cases equal
  | loop first start body next => cases List.mem_singleton.mp door

theorem Enters.exit_bound (enters : Enters walk path)
    (roles : walk.InRoles Visit.node scope.insideLoop) {visit : Visit} {way : Exit}
    (member : Leg.exit visit way ∈ path) :
    visit.names.result ∈ (Leg.exit visit way).bound := by
  suffices produces : visit.node.kind.producesResult by
    rw [Leg.bound, if_pos produces]
    exact List.mem_singleton_self _
  induction enters generalizing scope with
  | door door =>
      rw [← List.mem_singleton.mp member] at door
      exact produces_of_exit door roles
  | behind first _ induction =>
      rcases List.mem_cons.mp member with equal | member
      · rcases first.door_or_onward with door | ⟨other, onward⟩
        · exact produces_of_exit (equal ▸ door) roles
        · rw [onward] at equal
          cases equal
      · exact induction (first.inRoles roles) member

theorem names_after_of_door (door : leg ∈ walk.doors)
    (roles : walk.InRoles Visit.node scope.insideLoop) :
    (scope.after leg).registry.names =
      scope.registry.names ++ scope.registry.unknown leg.bound := by
  cases walk with
  | done | terminal | action => cases door
  | fork visit choice exits =>
      rcases List.mem_map.mp door with ⟨exit, _, rfl⟩
      have produces := produces_of_exit door roles
      rw [Scope.after, Scope.names_enterRoutine, Leg.bound, if_pos produces]
      exact scope.registry.names_bindVariable _
  | subflow visit called exits next =>
      rcases List.mem_map.mp door with ⟨exit, _, rfl⟩
      rw [Scope.after, Scope.names_enterRoutine]
      exact (List.append_nil _).symm
  | loop visit start body next =>
      rw [List.mem_singleton.mp door]
      exact LoopStart.names_bodyRegistry scope.registry

theorem Goes.names_after (goes : Goes walk leg rest)
    (roles : walk.InRoles Visit.node scope.insideLoop) :
    (scope.after leg).registry.names =
      scope.registry.names ++ scope.registry.unknown leg.bound := by
  rcases goes.door_or_onward with door | ⟨visit, rfl⟩
  · exact names_after_of_door door roles
  · exact names_after_onward scope visit

/-- Behind a path its variables are known, and otherwise only what was known before. -/
theorem Enters.names_afterAll (enters : Enters walk path) (proper : walk.Proper)
    (roles : walk.InRoles Visit.node scope.insideLoop) :
    (scope.afterAll path).registry.names =
      scope.registry.names ++ scope.registry.unknown (path.flatMap Leg.bound) := by
  induction enters generalizing scope with
  | door door =>
      rw [List.flatMap_singleton]
      exact names_after_of_door door roles
  | behind first enters induction =>
      rw [List.flatMap_cons]
      apply Registry.names_of_added (first.names_after roles)
      · exact induction (first.proper_rest proper) (first.inRoles roles)
      · exact first.disjoint_bound enters proper roles

end

end Walk

/-! ## Parameters of programs -/

/-- The parameters of the routine at the end of the path are settled by the path, where these
variables are reserved. -/
structure Routine.SettledBy (walk : Walk Visit) (reserved : List String) (path : List Leg)
    (routine : Routine) : Prop where
  /-- The fixed variables, the reserved ones, then those of the path, in order. -/
  params : routine.params =
    [Registry.state, Registry.branchId, Registry.branchName, Registry.apiBase] ++ reserved ++
      (path.flatMap Leg.bound).filter (· ∉ reserved)
  /-- No variable is bound twice along the path. -/
  distinct : (path.flatMap Leg.bound).Nodup
  /-- A visit whose variable is a parameter, and not a reserved one, is a visit of the path. -/
  confined : ∀ visit ∈ walk.visits, visit.names.result ∈ routine.params →
    visit.names.result ∉ reserved →
      ∃ leg ∈ path, leg.visit = visit ∧ visit.names.result ∈ leg.bound
  /-- The routine of an exit of a fork takes the variable of the fork. -/
  exit : ∀ legs visit way, path = legs ++ [.exit visit way] →
    visit.names.result ∈ routine.params
  /-- The routine for an aborted subflow does not take the variable of the subflow. -/
  failure : ∀ legs visit way, path = legs ++ [.failure visit way] →
    visit.names.result ∈ routine.params → visit.names.result ∈ reserved

namespace Walk.Enters

variable {walk : Walk Visit} {path : List Leg} {name : String}

/-- A visit of the walk whose variable is bound along the path is the visit of that leg. -/
theorem exists_leg_of_bound (enters : walk.Enters path) (proper : walk.Proper) {visit : Visit}
    (member : visit ∈ walk.visits) (bound : visit.names.result ∈ path.flatMap Leg.bound) :
    ∃ leg ∈ path, leg.visit = visit ∧ visit.names.result ∈ leg.bound := by
  rcases List.mem_flatMap.mp bound with ⟨leg, among, bound⟩
  refine ⟨leg, among, ?_, bound⟩
  have legMember := enters.visits_sublist.subset (List.mem_map_of_mem (f := Leg.visit) among)
  have owns : visit.names.Owns visit.names.result := .result
  have legOwns : leg.visit.names.Owns leg.visit.names.result := .result
  rcases Leg.result_or_loop_of_mem_bound bound with equal | ⟨_, loop⟩
  · have number := legOwns.number_eq (proper.names_of_mem legMember) (proper.names_of_mem member)
      (equal ▸ owns)
    exact List.inj_on_of_nodup_map proper.distinct legMember member number
  · exact absurd loop (owns.not_mem_loopVariables (proper.names_of_mem member))

/-- Each visit of a path belongs to one of its legs only. -/
theorem eq_of_visit_eq (enters : walk.Enters path) (proper : walk.Proper) {leg other : Leg}
    (member : leg ∈ path) (among : other ∈ path) (same : leg.visit = other.visit) :
    leg = other := by
  have visits : (path.map Leg.visit).Nodup :=
    enters.visits_sublist.nodup (List.Nodup.of_map _ proper.distinct)
  exact List.inj_on_of_nodup_map visits member among same

end Walk.Enters

namespace Compile

def reservedChildren (flow : Flow) : List Node :=
  flow.trigger?.elim [] (triggerChildren (Graph.ofFlow flow))

structure SettledByPaths (lookup : BranchLookup) (flow : Flow) (program : Program) : Prop where
  /-- A path leads into every routine. -/
  entered : ∀ name ∈ program.routines.keys, name ≠ Program.mainName → name ≠ setupName →
    ∃ origin path, origin? lookup flow = some origin ∧ origin.walk.Enters path ∧
      roomBehind Program.mainName path = name
  /-- Every path leads into a routine, the parameters of which it settles. -/
  settled : ∀ origin path, origin? lookup flow = some origin → origin.walk.Enters path →
    ∃ routine, program.routines.get? (roomBehind Program.mainName path) = some routine ∧
      routine.SettledBy origin.walk (reservedVariables (reservedChildren flow)) path
  /-- Reserved variables belong to the first visits of the children of the trigger. -/
  reserved : ∀ origin before visit rest, origin? lookup flow = some origin →
    origin.walk.visits = before ++ visit :: rest →
      (visit.names.result ∈ reservedVariables (reservedChildren flow) ↔
        visit.node ∈ reservedChildren flow ∧ visit.node ∉ before.map Visit.node)

section

variable {settings : Settings} {lookup : BranchLookup} {flow : Flow} {program : Program}
  {origin : Origin}

/-- What an origin is made from, with the children for which variables are reserved. -/
theorem exists_reserved_of_origin (found : origin? lookup flow = some origin) :
    ∃ walk, origin.scope = startScope flow origin.branch (reservedChildren flow) ∧
      origin.walk = namedWalk flow origin.branch (reservedChildren flow) walk ∧
      (∀ child ∈ reservedChildren flow, (Graph.ofFlow flow).Knows child) ∧
      ∀ node ∈ walk.visits, (Graph.ofFlow flow).Knows node := by
  rcases exists_unfolded_of_origin found with
    ⟨trigger, first, walk, started, connected, unfolds, scope, named⟩
  have keyed := Graph.keyed_ofFlow flow
  have children : reservedChildren flow = triggerChildren (Graph.ofFlow flow) trigger := by
    rw [reservedChildren, started]
    rfl
  rw [children]
  exact ⟨walk, scope, named, fun _ => knows_of_mem_triggerChildren keyed,
    unfolds.knows keyed (keyed.node?_of_next? connected)⟩

theorem names_startScope (found : origin? lookup flow = some origin) :
    origin.scope.registry.names =
      fixedVariables ++ reservedVariables (reservedChildren flow) := by
  rcases exists_reserved_of_origin found with ⟨_, scope, _, known, _⟩
  rw [scope]
  exact (reserves_reservation known).names

theorem not_mem_fixedVariables {walk : Walk Visit} {path : List Leg} {name : String}
    (proper : walk.Proper) (enters : walk.Enters path) (bound : name ∈ path.flatMap Leg.bound) :
    name ∉ fixedVariables := by
  rcases List.mem_flatMap.mp bound with ⟨leg, among, bound⟩
  have member := enters.visits_sublist.subset (List.mem_map_of_mem (f := Leg.visit) among)
  have owns : leg.visit.names.Owns leg.visit.names.result := .result
  have wordy : ∀ name ∈ fixedVariables, Text.Wordy name := by decide
  have apart : ∀ name ∈ Registry.loopVariables, name ∉ fixedVariables := by decide
  rcases Leg.result_or_loop_of_mem_bound bound with equal | ⟨_, loop⟩
  · intro fixed
    exact owns.not_wordy (proper.names_of_mem member) (wordy _ (equal ▸ fixed))
  · exact apart name loop

/-- Behind the fixed and the reserved variables, a routine takes those of the path into it. -/
theorem exists_routine_of_enters (built : build settings lookup flow = .ok program)
    (found : origin? lookup flow = some origin) {path : List Leg}
    (enters : origin.walk.Enters path) :
    ∃ routine, program.routines.get? (roomBehind Program.mainName path) = some routine ∧
      routine.params =
        [Registry.state, Registry.branchId, Registry.branchName, Registry.apiBase] ++
          reservedVariables (reservedChildren flow) ++
            (path.flatMap Leg.bound).filter (· ∉ reservedVariables (reservedChildren flow)) := by
  rcases proper_and_entries_of_origin built found with ⟨proper, entries⟩
  have roles := inRoles_origin found
  rcases enters.exists_routine settings Program.mainName roles with ⟨routine, member, params⟩
  refine ⟨routine, ?_, ?_⟩
  · rw [Table.get?_eq_some_iff, entries]
    exact List.mem_cons_of_mem _ (List.mem_cons_of_mem _ member)
  · have unreserved : origin.scope.registry.unknown (path.flatMap Leg.bound) =
        (path.flatMap Leg.bound).filter (· ∉ reservedVariables (reservedChildren flow)) := by
      apply List.filter_congr
      intro name bound
      have free := not_mem_fixedVariables proper enters bound
      simp [names_startScope found, free]
    rw [params, Registry.params, enters.names_afterAll proper roles, unreserved,
      names_startScope found]
    rfl

theorem settledBy_of_enters (built : build settings lookup flow = .ok program)
    (found : origin? lookup flow = some origin) {path : List Leg}
    (enters : origin.walk.Enters path) :
    ∃ routine, program.routines.get? (roomBehind Program.mainName path) = some routine ∧
      routine.SettledBy origin.walk (reservedVariables (reservedChildren flow)) path := by
  have proper := (proper_and_entries_of_origin built found).1
  have roles := inRoles_origin found
  rcases exists_routine_of_enters built found enters with ⟨routine, registered, params⟩
  have confined : ∀ visit ∈ origin.walk.visits, visit.names.result ∈ routine.params →
      visit.names.result ∉ reservedVariables (reservedChildren flow) →
        ∃ leg ∈ path, leg.visit = visit ∧ visit.names.result ∈ leg.bound := by
    intro visit among param unkept
    have owns : visit.names.Owns visit.names.result := .result
    have wordy : ∀ name ∈ [Registry.state, Registry.branchId, Registry.branchName,
      Registry.apiBase], Text.Wordy name := by decide
    rw [params] at param
    rcases List.mem_append.mp param with param | param
    · rcases List.mem_append.mp param with fixed | kept
      · exact absurd (wordy _ fixed) (owns.not_wordy (proper.names_of_mem among))
      · exact absurd kept unkept
    · exact enters.exists_leg_of_bound proper among (List.mem_filter.mp param).1
  refine ⟨routine, registered, params, enters.nodup_bound proper roles, confined, ?_, ?_⟩
  · rintro legs visit way rfl
    have last : Leg.exit visit way ∈ legs ++ [.exit visit way] :=
      List.mem_append_right _ (List.mem_singleton_self _)
    have bound := List.mem_flatMap.mpr ⟨_, last, enters.exit_bound roles last⟩
    rw [params]
    by_cases kept : visit.names.result ∈ reservedVariables (reservedChildren flow)
    · exact List.mem_append_left _ (List.mem_append_right _ kept)
    · exact List.mem_append_right _ (List.mem_filter.mpr ⟨bound, by simpa using kept⟩)
  · rintro legs visit way rfl param
    have last : Leg.failure visit way ∈ legs ++ [.failure visit way] :=
      List.mem_append_right _ (List.mem_singleton_self _)
    have among : visit ∈ origin.walk.visits :=
      enters.visits_sublist.subset (List.mem_map_of_mem (f := Leg.visit) last)
    by_contra unkept
    rcases confined visit among param unkept with ⟨leg, member, same, bound⟩
    -- The leg of the visit is the last one, which binds nothing.
    rw [enters.eq_of_visit_eq proper member last same] at bound
    cases bound

/-- The names of a visit are reserved exactly for the first visit of a child of the trigger. -/
theorem reserved_iff_of_origin (found : origin? lookup flow = some origin)
    (proper : origin.walk.Proper) {before rest : List Visit} {visit : Visit}
    (split : origin.walk.visits = before ++ visit :: rest) :
    visit.names.result ∈ reservedVariables (reservedChildren flow) ↔
      visit.node ∈ reservedChildren flow ∧ visit.node ∉ before.map Visit.node := by
  rcases exists_reserved_of_origin found with ⟨walk, _, named, childrenKnown, known⟩
  have reserves : Reserves fixedVariables (reservedChildren flow)
    (reservation flow origin.branch (reservedChildren flow)).1 _ :=
      reserves_reservation childrenKnown
  have visits := congrArg Prod.fst (Walk.visits_name walk
    (reservation flow origin.branch (reservedChildren flow)).1)
  have visitKnown : (Graph.ofFlow flow).Knows visit.node := by
    apply known
    rw [← Walk.map_node_visits_name walk, ← namedWalk, ← named, split]
    exact List.mem_map_of_mem (List.mem_append_right _ List.mem_cons_self)
  have takes := NameSource.takes_visitAll walk.visits before known
    (visits.symm.trans ((congrArg Walk.visits named).symm.trans split))
  have isChild := reserves.mem_keys_iff childrenKnown visitKnown
  rcases takes with ⟨new, kept⟩ | ⟨used, above⟩
  · apply iff_of_true
    · exact List.mem_map_of_mem (reserves.mem_reservedNames kept)
    · exact ⟨isChild.mp (Table.mem_keys_iff_isSome.mpr (kept ▸ rfl)), new⟩
  · apply iff_of_false
    · intro reserved
      have member : visit ∈ origin.walk.visits :=
        split ▸ List.mem_append_right _ List.mem_cons_self
      have bound := number_le_of_reserved (proper.names_of_mem member) reserved
      rw [← reserves.last] at bound
      exact Nat.not_lt_of_le bound above
    · rintro ⟨child, new⟩
      exact used ⟨new, isChild.mpr child⟩

theorem settledByPaths_of_build (built : build settings lookup flow = .ok program) :
    SettledByPaths lookup flow program := by
  constructor
  · intro name known notMain notSetup
    rcases List.mem_map.mp known with ⟨entry, member, rfl⟩
    rcases exists_origin_of_build built with ⟨_, rfl⟩ | ⟨origin, found, _, entries⟩
    · rw [List.mem_singleton.mp member] at notMain
      exact absurd rfl notMain
    · rw [entries] at member
      rcases List.mem_cons.mp member with equal | member
      · exact absurd (congrArg Prod.fst equal) notMain
      rcases List.mem_cons.mp member with equal | member
      · exact absurd (congrArg Prod.fst equal) notSetup
      rcases Walk.exists_enters_of_mem_routines (inRoles_origin found) member with
        ⟨path, enters, room⟩
      exact ⟨origin, path, found, enters, room⟩
  · intro origin path found enters
    exact settledBy_of_enters built found enters
  · intro origin before visit rest found split
    exact reserved_iff_of_origin found (proper_and_entries_of_origin built found).1 split

end

end Compile

end FlowCompiler
