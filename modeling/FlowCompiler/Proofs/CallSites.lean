import FlowCompiler.Proofs.Emissions

namespace FlowCompiler

/-! How often the routines of a walk are called: once each, and once more where a subflow aborts,
since a subflow hands over to its exit for failure in two cases. -/

open Lowering Step

/-! ## Counting calls -/

namespace Step

def calls (target : String) (step : Step) : Bool :=
  step.call?.any fun call => call.target = target

theorem calls_iff {target : String} {step : Step} :
    step.calls target ↔ ∃ call, step.call? = some call ∧ call.target = target := by
  rw [calls, Option.any_eq_true]
  simp

def callCount (target : String) (steps : List Step) : Nat :=
  (flattenSteps steps).countP (calls target)

theorem callCount_append (target : String) (left right : List Step) :
    callCount target (left ++ right) = callCount target left + callCount target right := by
  rw [callCount, flattenSteps_append, List.countP_append, callCount, callCount]

theorem mem_callsWithin_of_calls {target : String} {steps : List Step} {step : Step}
    (inside : step ∈ flattenSteps steps) (called : step.calls target) :
    ∃ call ∈ callsWithin steps, call.target = target := by
  rcases calls_iff.mp called with ⟨call, isCall, equal⟩
  exact ⟨call, List.mem_filterMap.mpr ⟨step, inside, isCall⟩, equal⟩

theorem countP_calls (target : String) (steps : List Step) :
    steps.countP (calls target) = ((steps.filterMap call?).map Call.target).count target := by
  induction steps with
  | nil => rfl
  | cons step rest induction =>
      cases called : step.call? with
      | none => simp [called, calls, induction]
      | some call => simp [called, calls, induction, List.countP_cons, List.count_cons]

theorem callCount_eq_count (target : String) (steps : List Step) :
    callCount target steps = ((callsWithin steps).map Call.target).count target :=
  countP_calls target (flattenSteps steps)

/-- Calls of primitives are no calls of generated routines. -/
theorem callCount_eq_zero {target : String} (generated : Primitive.isPrimitive target = false)
    {steps : List Step}
    (primitive : ∀ call ∈ callsWithin steps, Primitive.isPrimitive call.target) :
    callCount target steps = 0 := by
  refine List.countP_eq_zero.mpr fun step inside called => ?_
  rcases mem_callsWithin_of_calls inside called with ⟨call, member, equal⟩
  rw [← equal, primitive call member] at generated
  cases generated

end Step

theorem Primitive.ne_of_generated {target : String} (generated : isPrimitive target = false)
    {primitive : String} (primitives : isPrimitive primitive) : primitive ≠ target := by
  intro equal
  rw [← equal, primitives] at generated
  cases generated

section

variable {settings : Settings} {names : Names} {registry : Registry} {target : String}

theorem Fork.countP_cases (fork : Fork) (exits : List Exit) :
    (flattenCases (fork.cases names registry exits)).countP (calls target) =
      (exits.map fun exit => names.routine exit.slug).count target := by
  induction exits with
  | nil => rfl
  | cons exit rest induction =>
      have retry : (flattenCases (if fork.asksAgain ∧ exit.test = .otherwise then
          [retryCase names] else [])).countP (calls target) = 0 := by
        by_cases again : fork.asksAgain ∧ exit.test = .otherwise
        · rw [if_pos again]
          rfl
        · rw [if_neg again]
          rfl
      have own : (flattenCases [exitCase names registry exit]).countP (calls target) =
          [names.routine exit.slug].count target := by
        simp [exitCase, flattenCases, flattenSteps, dispatch_eq, flatten, dispatchCall, calls, call?,
          List.countP_cons, List.count_cons]
      rw [cases_cons, flattenCases_append, flattenCases_append, List.countP_append, List.countP_append,
        retry, own, induction, Nat.zero_add, ← List.count_append]
      rfl

theorem Fork.callCount_steps (generated : Primitive.isPrimitive target = false) (fork : Fork)
    (exits : List Exit) :
    callCount target (fork.steps settings names registry exits) =
      (exits.map fun exit => names.routine exit.slug).count target := by
  rw [steps, callCount_append,
    callCount_eq_zero generated fun _ member => isPrimitive_of_mem_opening member, Nat.zero_add,
    ← fork.countP_cases]
  simp only [callCount, flattenSteps, flatten, List.append_nil]
  exact List.countP_cons_of_neg (by simp [calls, call?])

/-- A subflow calls its routine in both cases of its abortion. -/
theorem Subflow.callCount_steps (generated : Primitive.isPrimitive target = false)
    (subflow : Subflow) {exits : List Exit} (shape : exits = [] ∨ exits = [.failure]) :
    callCount target (subflow.steps settings names registry exits) =
      2 * (exits.map fun exit => names.routine exit.slug).count target := by
  rcases shape with rfl | rfl
  · refine callCount_eq_zero generated fun call member => ?_
    exact (exists_exit_of_mem member).resolve_right (by simp)
  · have targets : (callsWithin (subflow.steps settings names registry [.failure])).map
        Call.target = [Primitive.getEnv, Primitive.httpPost, Primitive.httpGet,
          names.routine Exit.failure.slug, Primitive.httpPost, names.routine Exit.failure.slug,
          Primitive.httpPost, Primitive.sleep, Primitive.httpDelete, Primitive.httpPost] := rfl
    have own : ([Exit.failure].map fun exit => names.routine exit.slug).count target =
        if names.routine Exit.failure.slug = target then 1 else 0 := by
      simp [List.count_cons]
    rw [callCount_eq_count, targets, own]
    simp only [List.count_cons, List.count_nil, beq_iff_eq, Primitive.ne_of_generated generated,
      Primitive.isPrimitive_getEnv, Primitive.isPrimitive_httpPost, Primitive.isPrimitive_httpGet,
      Primitive.isPrimitive_httpDelete, Primitive.isPrimitive_sleep, if_false, Nat.add_zero,
      Nat.zero_add]
    split <;> rfl

theorem LoopStart.callCount_steps (loop : LoopStart) :
    callCount target (loop.steps settings names registry) = [bodyRoutine names].count target := by
  rw [callCount_eq_count, callsWithin_steps]
  rfl

end

/-! ## Checks of subflows -/

/-! The step in which a subflow with an exit for failure is checked, by what it is made from. -/

structure FailureCheck where
  names : Names
  registry : Registry
  subflow : Subflow

namespace FailureCheck

def step (settings : Settings) (check : FailureCheck) : Step :=
  .switch (check.names.step "check")
    (check.subflow.checkCases settings check.names check.registry [.failure])

def routine (check : FailureCheck) : String :=
  check.names.routine Exit.failure.slug

def abortSteps (settings : Settings) (check : FailureCheck) (abort : Subflow.Abort) : List Step :=
  check.subflow.abortSteps settings check.names check.registry [.failure] abort

def handover (check : FailureCheck) (abort : Subflow.Abort) : Step :=
  dispatch (check.names.step (abort.label ++ "_" ++ Exit.failure.dispatch)) check.routine
    check.names check.registry

theorem handover_mem_abortSteps (settings : Settings) (check : FailureCheck)
    (abort : Subflow.Abort) : check.handover abort ∈ check.abortSteps settings abort :=
  List.mem_cons_self

theorem calls_handover (check : FailureCheck) (abort : Subflow.Abort) :
    (check.handover abort).calls check.routine :=
  decide_eq_true rfl

theorem handover_ne (check : FailureCheck) :
    check.handover .failed ≠ check.handover .timedOut := by
  intro equal
  have suffixes := check.names.step_injective (congrArg Step.name equal)
  exact absurd suffixes (by decide)

theorem handover_mem_flatten (settings : Settings) (check : FailureCheck) (abort : Subflow.Abort) :
    check.handover abort ∈ flatten (check.step settings) := by
  cases abort <;>
    simp [step, handover, routine, Subflow.checkCases, Subflow.abortSteps, flattenSteps,
      flattenCases, flatten, dispatch_eq, clearSession, post]

theorem step_mem_steps (settings : Settings) (check : FailureCheck) :
    check.step settings ∈
      flattenSteps (check.subflow.steps settings check.names check.registry [.failure]) := by
  simp [step, Subflow.steps, flattenSteps, flatten]

end FailureCheck

/-! ## Calls of emitted steps -/

def emittedCalls (target : String) (emissions : List Emission) : Nat :=
  emissions.countP fun emission => emission.step.calls target

theorem emittedCalls_append (target : String) (left right : List Emission) :
    emittedCalls target (left ++ right) = emittedCalls target left + emittedCalls target right :=
  List.countP_append

theorem emittedCalls_emit (target home : String) (visit : Visit) (steps : List Step) :
    emittedCalls target (emit home visit steps) = callCount target steps := by
  rw [emittedCalls, emit, List.countP_map]
  rfl

theorem emittedCalls_cons_of_silent {target : String} {emission : Emission}
    (silent : emission.step.call? = none) (rest : List Emission) :
    emittedCalls target (emission :: rest) = emittedCalls target rest :=
  List.countP_cons_of_neg (by simp [calls, silent])

namespace Walk

mutual
def failureRoutines : Walk Visit → List String
  | .done => []
  | .terminal _ => []
  | .action _ _ next => failureRoutines next
  | .fork _ _ exits => exitFailureRoutines exits
  | .subflow visit _ exits next =>
      (exits.map fun exit => visit.names.routine exit.1.slug) ++
        (exitFailureRoutines exits ++ failureRoutines next)
  | .loop _ _ body next => failureRoutines body ++ failureRoutines next

def exitFailureRoutines : List (Exit × Option (Walk Visit)) → List String
  | [] => []
  | (_, none) :: rest => exitFailureRoutines rest
  | (_, some walk) :: rest => failureRoutines walk ++ exitFailureRoutines rest
end

def routineNames (settings : Settings) (scope : Scope) (walk : Walk Visit) : List String :=
  (walk.routines settings scope).map Prod.fst

def exitRoutineNames (settings : Settings) (names : Names) (scope : Scope)
    (exits : List (Exit × Option (Walk Visit))) : List String :=
  (exitRoutines settings names scope exits).map Prod.fst

theorem map_routine_slug (names : Names) (exits : List (Exit × Option (Walk Visit))) :
    (exits.map Prod.fst).map (fun exit => names.routine exit.slug) =
      exits.map fun exit => names.routine exit.1.slug := by
  rw [List.map_map]
  rfl

mutual
/-- In a walk and its routines, every routine is called once, and once more if a subflow aborts
with it. -/
theorem emittedCalls_emissions (settings : Settings) {target : String}
    (generated : Primitive.isPrimitive target = false) :
    ∀ (home : String) (scope : Scope) (walk : Walk Visit), walk.Shaped →
      emittedCalls target (walk.emissions settings home scope) =
        (walk.routineNames settings scope).count target + walk.failureRoutines.count target
  | _, _, .done, _ => rfl
  | _, _, .terminal _, _ => rfl
  | home, scope, .action visit act next, shaped => by
      have behind := emittedCalls_emissions settings generated home
        (scope.afterAction visit.names act) next shaped
      have own : callCount target (act.steps settings visit.names scope.registry ++
          act.binding visit.names) = 0 :=
        callCount_eq_zero generated fun _ member => Action.isPrimitive_of_mem member
      rw [emissions, emittedCalls_cons_of_silent rfl, emittedCalls_append, emittedCalls_emit, own,
        Nat.zero_add]
      exact behind
  | home, scope, .fork visit choice exits, shaped => by
      have behind := emittedCalls_exitEmissions settings generated visit
        (scope.bindResult visit.names) exits shaped.2
      have own : callCount target (choice.steps settings visit.names scope.registry
          (exits.map Prod.fst)) = _ := choice.callCount_steps generated _
      rw [map_routine_slug] at own
      rw [emissions, emittedCalls_cons_of_silent rfl, emittedCalls_append, emittedCalls_emit, own,
        Nat.add_comm]
      exact behind
  | home, scope, .subflow visit called exits next, shaped => by
      have exitsBehind := emittedCalls_exitEmissions settings generated visit scope exits shaped.2.1
      have nextBehind := emittedCalls_emissions settings generated home
        (scope.bindResult visit.names) next shaped.2.2
      have own : callCount target (called.steps settings visit.names scope.registry
          (exits.map Prod.fst)) = _ := called.callCount_steps generated shaped.1
      rw [map_routine_slug] at own
      rw [emissions, emittedCalls_cons_of_silent rfl, emittedCalls_append, emittedCalls_append,
        emittedCalls_emit, own, routineNames, routines, failureRoutines, List.map_append]
      simp only [List.count_append]
      rw [exitRoutineNames] at exitsBehind
      rw [routineNames] at nextBehind
      omega
  | home, scope, .loop visit start body next, shaped => by
      have inside := emittedCalls_emissions settings generated
        (LoopStart.bodyRoutine visit.names) scope.enterLoop body shaped.1
      have nextBehind := emittedCalls_emissions settings generated home scope next shaped.2
      have own : callCount target (start.steps settings visit.names scope.registry) = _ :=
        start.callCount_steps
      rw [emissions, emittedCalls_cons_of_silent rfl, emittedCalls_append, emittedCalls_append,
        emittedCalls_cons_of_silent rfl, emittedCalls_emit, own, routineNames, routines,
        failureRoutines, List.map_append, List.map_append]
      simp only [List.count_append, List.map_cons, List.map_nil]
      rw [routineNames] at inside nextBehind
      omega

theorem emittedCalls_exitEmissions (settings : Settings) {target : String}
    (generated : Primitive.isPrimitive target = false) (visit : Visit) :
    ∀ (scope : Scope) (exits : List (Exit × Option (Walk Visit))), ShapedExits exits →
      emittedCalls target (exitEmissions settings visit scope exits) +
          (exits.map fun exit => visit.names.routine exit.1.slug).count target =
        (exitRoutineNames settings visit.names scope exits).count target +
          (exitFailureRoutines exits).count target
  | _, [], _ => rfl
  | scope, (exit, none) :: rest, shaped => by
      have others := emittedCalls_exitEmissions settings generated visit scope rest shaped
      rw [exitRoutineNames] at others
      rw [exitEmissions, emittedCalls_cons_of_silent rfl, exitRoutineNames, exitRoutines,
        exitFailureRoutines]
      simp only [List.map_cons, List.count_cons]
      omega
  | scope, (exit, some walk) :: rest, shaped => by
      have first := emittedCalls_emissions settings generated (visit.names.routine exit.slug)
        scope.enterRoutine walk shaped.1
      have others := emittedCalls_exitEmissions settings generated visit scope rest shaped.2
      rw [routineNames] at first
      rw [exitRoutineNames] at others
      rw [exitEmissions, emittedCalls_append, emittedCalls_cons_of_silent rfl, exitRoutineNames,
        exitRoutines, exitFailureRoutines]
      simp only [List.map_cons, List.map_append, List.count_cons, List.count_append]
      omega
end

mutual
theorem count_failureRoutines_le (settings : Settings) (target : String) :
    ∀ (scope : Scope) (walk : Walk Visit),
      walk.failureRoutines.count target ≤ (walk.routineNames settings scope).count target
  | _, .done => Nat.le_refl _
  | _, .terminal _ => Nat.le_refl _
  | scope, .action visit act next =>
      count_failureRoutines_le settings target (scope.afterAction visit.names act) next
  | scope, .fork visit choice exits => by
      have behind := count_exitFailureRoutines_le settings target visit.names
        (scope.bindResult visit.names) exits
      exact Nat.le_trans (Nat.le_add_left _ _) behind
  | scope, .subflow visit called exits next => by
      have exitsBehind := count_exitFailureRoutines_le settings target visit.names scope exits
      have nextBehind := count_failureRoutines_le settings target (scope.bindResult visit.names) next
      rw [exitRoutineNames] at exitsBehind
      rw [routineNames] at nextBehind
      rw [routineNames, routines, failureRoutines, List.map_append]
      simp only [List.count_append]
      omega
  | scope, .loop visit start body next => by
      have inside := count_failureRoutines_le settings target scope.enterLoop body
      have nextBehind := count_failureRoutines_le settings target scope next
      rw [routineNames] at inside nextBehind
      rw [routineNames, routines, failureRoutines, List.map_append, List.map_append]
      simp only [List.count_append]
      omega

theorem count_exitFailureRoutines_le (settings : Settings) (target : String) (names : Names) :
    ∀ (scope : Scope) (exits : List (Exit × Option (Walk Visit))),
      (exits.map fun exit => names.routine exit.1.slug).count target +
          (exitFailureRoutines exits).count target ≤
        (exitRoutineNames settings names scope exits).count target
  | _, [] => Nat.le_refl _
  | scope, (exit, none) :: rest => by
      have others := count_exitFailureRoutines_le settings target names scope rest
      rw [exitRoutineNames] at others
      rw [exitRoutineNames, exitRoutines, exitFailureRoutines]
      simp only [List.map_cons, List.count_cons]
      omega
  | scope, (exit, some walk) :: rest => by
      have first := count_failureRoutines_le settings target scope.enterRoutine walk
      have others := count_exitFailureRoutines_le settings target names scope rest
      rw [routineNames] at first
      rw [exitRoutineNames] at others
      rw [exitRoutineNames, exitRoutines, exitFailureRoutines]
      simp only [List.map_cons, List.map_append, List.count_cons, List.count_append]
      omega
end

end Walk

/-! ## Aborted subflows -/

/-- A subflow whose exit for failure has this routine is checked among these sites. -/
def AbortsInto (settings : Settings) (target : String) (sites : List (String × Step)) : Prop :=
  ∃ (home : String) (check : FailureCheck), check.routine = target ∧
    (home, check.step settings) ∈ sites

theorem AbortsInto.mono {settings : Settings} {target : String}
    {fewer sites : List (String × Step)} (aborts : AbortsInto settings target fewer)
    (subset : fewer ⊆ sites) : AbortsInto settings target sites := by
  rcases aborts with ⟨home, check, equal, among⟩
  exact ⟨home, check, equal, subset among⟩

namespace Walk

mutual
theorem abortsInto_of_mem_failureRoutines (settings : Settings) {target : String} :
    ∀ (home : String) (scope : Scope) (walk : Walk Visit), walk.Shaped →
      target ∈ walk.failureRoutines →
        AbortsInto settings target ((walk.emissions settings home scope).map Emission.site)
  | _, _, .done, _, member => by cases member
  | _, _, .terminal _, _, member => by cases member
  | home, scope, .action visit act next, shaped, member => by
      have behind := abortsInto_of_mem_failureRoutines settings home
        (scope.afterAction visit.names act) next shaped member
      rw [emissions, List.map_cons, List.map_append]
      exact behind.mono (List.subset_cons_of_subset _ (List.subset_append_right _ _))
  | home, scope, .fork visit choice exits, shaped, member => by
      have behind := abortsInto_of_mem_exitFailureRoutines settings visit
        (scope.bindResult visit.names) exits shaped.2 member
      rw [emissions, List.map_cons, List.map_append]
      exact behind.mono (List.subset_cons_of_subset _ (List.subset_append_right _ _))
  | home, scope, .subflow visit called exits next, shaped, member => by
      rw [emissions, List.map_cons, List.map_append, List.map_append]
      rcases List.mem_append.mp member with own | member
      · rcases shaped.1 with none | failure
        · rw [List.map_eq_nil_iff.mp none] at own
          cases own
        · rw [← map_routine_slug, failure] at own
          let check : FailureCheck := ⟨visit.names, scope.registry, called⟩
          refine ⟨home, check, (List.mem_singleton.mp own).symm, ?_⟩
          rw [failure, map_site_emit]
          have inside := List.mem_map_of_mem (f := Prod.mk home) (check.step_mem_steps settings)
          exact List.mem_cons_of_mem _ (List.mem_append_left _ inside)
      · rcases List.mem_append.mp member with member | member
        · have behind := abortsInto_of_mem_exitFailureRoutines settings visit scope exits shaped.2.1
            member
          exact behind.mono (List.subset_cons_of_subset _ (List.subset_append_of_subset_right _
            (List.subset_append_left _ _)))
        · have behind := abortsInto_of_mem_failureRoutines settings home
            (scope.bindResult visit.names) next shaped.2.2 member
          exact behind.mono (List.subset_cons_of_subset _ (List.subset_append_of_subset_right _
            (List.subset_append_right _ _)))
  | home, scope, .loop visit start body next, shaped, member => by
      rw [emissions, List.map_cons, List.map_append, List.map_append, List.map_cons]
      rcases List.mem_append.mp member with member | member
      · have inside := abortsInto_of_mem_failureRoutines settings
          (LoopStart.bodyRoutine visit.names) scope.enterLoop body shaped.1 member
        exact inside.mono (List.subset_cons_of_subset _ (List.subset_append_of_subset_right _
          (List.subset_append_left _ _)))
      · have behind := abortsInto_of_mem_failureRoutines settings home scope next shaped.2 member
        exact behind.mono (List.subset_cons_of_subset _ (List.subset_append_of_subset_right _
          (List.subset_append_of_subset_right _ (List.subset_cons_self _ _))))

theorem abortsInto_of_mem_exitFailureRoutines (settings : Settings) {target : String}
    (visit : Visit) :
    ∀ (scope : Scope) (exits : List (Exit × Option (Walk Visit))), ShapedExits exits →
      target ∈ exitFailureRoutines exits →
        AbortsInto settings target ((exitEmissions settings visit scope exits).map Emission.site)
  | _, [], _, member => by cases member
  | scope, (exit, none) :: rest, shaped, member => by
      have others := abortsInto_of_mem_exitFailureRoutines settings visit scope rest shaped member
      exact others.mono (List.subset_cons_self _ _)
  | scope, (exit, some walk) :: rest, shaped, member => by
      rw [exitEmissions, List.map_append, List.map_cons]
      rcases List.mem_append.mp member with member | member
      · have first := abortsInto_of_mem_failureRoutines settings (visit.names.routine exit.slug)
          scope.enterRoutine walk shaped.1 member
        exact first.mono (List.subset_append_left _ _)
      · have others := abortsInto_of_mem_exitFailureRoutines settings visit scope rest shaped.2
          member
        exact others.mono (List.subset_append_of_subset_right _ (List.subset_cons_self _ _))
end

end Walk

end FlowCompiler
