import FlowCompiler.Proofs.LoopState

namespace FlowCompiler

/-! What the steps of single visits do with the state of a loop: which of them bind the variables
of an iteration or pass them on, and which of them wait. -/

open Expression Lowering Step

def Step.isLoop : Step → Bool
  | .loop .. => true
  | _ => false

/-! ## Kinds of visits -/

namespace Visit

def isDelay (visit : Visit) : Bool :=
  match visit.node.kind with
  | .delay _ => true
  | _ => false

def isTerminal (visit : Visit) : Bool :=
  match visit.node.kind with
  | .trigger _ | .loopEnd | .unsupported _ => true
  | _ => false

def isSubflow (visit : Visit) : Bool :=
  match visit.node.kind with
  | .subflow _ => true
  | _ => false

end Visit

/-- The delays, the ends and the subflows among the roles. -/
theorem Visit.classes_eq (visit : Visit) :
    visit.isDelay = (match visit.node.kind.role with | .action act => act.isDelay | _ => false) ∧
    visit.isTerminal = (match visit.node.kind.role with | .terminal => true | _ => false) ∧
    visit.isSubflow = (match visit.node.kind.role with | .subflow _ => true | _ => false) := by
  rw [isDelay, isTerminal, isSubflow]
  cases visit.node.kind with
  | sendText message =>
      rw [Kind.role]
      cases message.waitForResponse <;> exact ⟨rfl, rfl, rfl⟩
  | _ => exact ⟨rfl, rfl, rfl⟩

theorem Visit.isSubflow_eq_false {visit : Visit} (delay : visit.isDelay) :
    visit.isSubflow = false := by
  rw [isSubflow]
  cases kind : visit.node.kind with
  | subflow => simp [isDelay, kind] at delay
  | _ => rfl

def Emission.isDelaySleep (emission : Emission) : Bool :=
  emission.visit.any Visit.isDelay && emission.step.calls Primitive.sleep

def delaySleeps (emissions : List Emission) : List (Option Visit) :=
  (emissions.filter Emission.isDelaySleep).map Emission.visit

theorem delaySleeps_append (left right : List Emission) :
    delaySleeps (left ++ right) = delaySleeps left ++ delaySleeps right := by
  rw [delaySleeps, List.filter_append, List.map_append, delaySleeps, delaySleeps]

theorem delaySleeps_cons_of_neg {emission : Emission} {visit : Visit}
    (own : emission.visit = some visit) (other : visit.isDelay = false) (rest : List Emission) :
    delaySleeps (emission :: rest) = delaySleeps rest := by
  rw [delaySleeps, List.filter_cons_of_neg (by simp [Emission.isDelaySleep, own, other]),
    delaySleeps]

theorem LoopStart.cases_of_mem_flattenSteps {settings : Settings} {names : Names}
    {registry : Registry} (loop : LoopStart) {step : Step}
    (inside : step ∈ flattenSteps (loop.steps settings names registry)) :
    step = .assign (names.step "setup") (loop.setup settings names) ∨
      step = .loop (names.step "iterate") (loop.head settings names)
        (loop.iteration names registry) ∨
      step = guardStep names ∨ step = loop.bodyCall names registry := by
  have flat : flattenSteps (loop.steps settings names registry) =
      .assign (names.step "setup") (loop.setup settings names) ::
        .loop (names.step "iterate") (loop.head settings names) (loop.iteration names registry) ::
          loop.iteration names registry := by
    rw [steps, iteration]
    cases loop.loopValue <;> rfl
  have hosted : loop.iteration names registry ⊆
      [guardStep names, loop.bodyCall names registry] := by
    rw [iteration]
    cases loop.loopValue with
    | list expression => exact List.Subset.refl _
    | count number => exact List.subset_cons_self _ _
  rw [flat] at inside
  rcases List.mem_cons.mp inside with equal | inside
  · exact .inl equal
  rcases List.mem_cons.mp inside with equal | inside
  · exact .inr (.inl equal)
  · exact .inr (.inr (List.mem_pair.mp (hosted inside)))

theorem LoopStart.bodyCall_mem_iteration (names : Names) (registry : Registry) (loop : LoopStart) :
    loop.bodyCall names registry ∈ loop.iteration names registry := by
  rw [iteration]
  cases loop.loopValue <;> simp

/-- A subflow waits in one step, in front of the next request for its state. -/
theorem Subflow.filter_sleeps {settings : Settings} {names : Names} {registry : Registry}
    (proper : names.Proper) (subflow : Subflow) (exits : List Exit) :
    (flattenSteps (subflow.steps settings names registry exits)).filter
        (calls Primitive.sleep) =
      [.call (names.step "wait") {
        target := Primitive.sleep
        args := .ofList [("seconds", .ofUInt64 settings.subflowPollIntervalSecs)]
        result := none
        retry := none }] := by
  have aborts : ∀ abort : Abort,
      (flattenSteps (subflow.abortSteps settings names registry exits abort)).filter
        (calls Primitive.sleep) = [] := by
    intro abort
    cases exits with
    | nil => rfl
    | cons exit rest =>
        have wordy : Text.Wordy Primitive.sleep := by decide
        have other : names.routine exit.slug ≠ Primitive.sleep :=
          fun equal => names.not_wordy_routine proper exit.slug (equal ▸ wordy)
        exact List.filter_cons_of_neg (by simpa [calls, call?] using other)
  have front : (flattenSteps (subflow.startSteps settings names registry)).filter
      (calls Primitive.sleep) = [] := rfl
  have back : (flattenSteps (settledSteps settings names)).filter
      (calls Primitive.sleep) = [] := rfl
  rw [steps_eq, List.append_cons, flattenSteps_append, flattenSteps_append, List.filter_append,
    List.filter_append, front, back]
  simp only [checkCases, flattenSteps, flatten, flattenCases, List.append_nil, List.nil_append,
    List.cons_append, List.filter_cons, List.filter_append, aborts]
  rfl

namespace Walk

variable {settings : Settings} {home : String} {scope : Scope} {part : Walk Visit} {step : Step}

/-! ## Own steps of visits -/

/-- Only the host of an iteration binds its variables. -/
theorem eq_loop_of_sets (proper : part.Proper)
    (inside : step ∈ flattenSteps (part.ownSteps settings scope)) {name : String}
    (isSet : name ∈ step.sets) (among : name ∈ Registry.loopVariables) :
    ∃ visit start body next, part = .loop visit start body next ∧
      step = .loop (visit.names.step "iterate") (start.head settings visit.names)
        (start.iteration visit.names scope.registry) := by
  have nested : name ∈ setsWithin (part.ownSteps settings scope) :=
    mem_setsWithin.mpr ⟨step, inside, isSet⟩
  have own : ∀ visit : Visit, visit ∈ part.visits → ¬ visit.names.Owns name :=
    fun visit member owns => owns.not_mem_loopVariables (proper.names_of_mem member) among
  cases part with
  | done => cases inside
  | terminal visit =>
      rw [List.mem_singleton.mp inside] at isSet
      cases isSet
  | action visit act next =>
      exact absurd (Action.owns_of_mem_setsWithin nested) (own visit List.mem_cons_self)
  | fork visit choice exits =>
      exact absurd (Fork.owns_of_mem_setsWithin nested) (own visit List.mem_cons_self)
  | subflow visit called exits next =>
      exact absurd (Subflow.owns_of_mem_setsWithin nested) (own visit List.mem_cons_self)
  | loop visit start body next =>
      refine ⟨visit, start, body, next, rfl, ?_⟩
      rcases start.cases_of_mem_flattenSteps inside with equal | equal | equal | equal
      · subst equal
        have written : name ∈ (start.steps settings visit.names scope.registry).flatMap writes :=
          List.mem_append_left _ isSet
        rcases LoopStart.owns_of_mem_writes written with ⟨suffix, wordy, result⟩
        exact absurd (result ▸ .step wordy) (own visit List.mem_cons_self)
      · exact equal
      · rw [equal] at isSet
        cases isSet
      · rw [equal] at isSet
        exact absurd (List.mem_singleton.mp isSet ▸ .step (by decide))
          (own visit List.mem_cons_self)

theorem eq_of_isLoop (inside : step ∈ flattenSteps (part.ownSteps settings scope))
    (isLoop : step.isLoop) :
    ∃ visit start body next, part = .loop visit start body next ∧
      step = .loop (visit.names.step "iterate") (start.head settings visit.names)
        (start.iteration visit.names scope.registry) := by
  have none : (flattenSteps (part.ownSteps settings scope)).filter Step.isLoop ≠ [] :=
    List.ne_nil_of_mem (List.mem_filter.mpr ⟨inside, isLoop⟩)
  cases part with
  | done | terminal => exact absurd rfl none
  | action visit act next =>
      refine absurd ?_ none
      cases act <;> rfl
  | fork visit choice exits =>
      have prompts : ∀ fork : Fork, (flattenSteps (fork.promptSteps settings visit.names
          scope.registry)).filter Step.isLoop = [] := by
        intro fork
        rw [Fork.promptSteps]
        cases fork.asksAgain <;> rfl
      have opening : (flattenSteps (choice.openingSteps settings visit.names
          scope.registry)).filter Step.isLoop = [] := by
        cases choice with
        | split | branch => rfl
        | text | buttons | list => exact prompts _
      refine absurd ?_ none
      rw [ownSteps, Fork.steps, flattenSteps_append, List.filter_append, opening]
      refine List.filter_eq_nil_iff.mpr fun other inside => ?_
      simp only [flattenSteps, flatten, List.append_nil] at inside
      rcases List.mem_cons.mp inside with equal | inside
      · rw [equal]
        exact Bool.false_ne_true
      rcases exists_case_of_mem_flattenCases inside with ⟨branch, isCase, inside⟩
      rcases Fork.retries_or_exists_exit isCase with ⟨_, retry⟩ | ⟨exit, _, own⟩
      · rw [retry] at inside
        rw [List.mem_singleton.mp inside]
        exact Bool.false_ne_true
      · rw [own] at inside
        rw [List.mem_singleton.mp inside]
        exact Bool.false_ne_true
  | subflow visit called exits next =>
      refine absurd ?_ none
      rw [ownSteps]
      cases exits.map Prod.fst <;> rfl
  | loop visit start body next =>
      refine ⟨visit, start, body, next, rfl, ?_⟩
      rcases start.cases_of_mem_flattenSteps inside with equal | equal | equal | equal
      · rw [equal] at isLoop
        cases isLoop
      · exact equal
      · rw [equal] at isLoop
        cases isLoop
      · rw [equal] at isLoop
        cases isLoop

/-- Outside of loops, only the call of a loop body passes variables of an iteration on. -/
theorem eq_bodyCall_of_forwards (proper : part.Proper) (clear : scope.registry.Clear)
    (marked : scope.Marked) (outside : scope.insideLoop = false)
    (inside : step ∈ flattenSteps (part.ownSteps settings scope)) {call : Call}
    (called : step.call? = some call) {name : String} (forwarded : name ∈ call.forwards)
    (among : name ∈ Registry.loopVariables) :
    ∃ visit start body next, part = .loop visit start body next ∧
      step = start.bodyCall visit.names scope.registry := by
  have unknown : ∀ {scope : Scope}, scope.Marked → scope.insideLoop = false →
      name ∉ scope.registry.params := by
    intro scope marked outside member
    rcases List.mem_cons.mp member with equal | member
    · exact Registry.ne_state_of_mem_loopVariables name among equal
    · rw [marked name among, outside] at member
      cases member
  rcases primitive_or_dispatch clear marked
    (List.mem_filterMap.mpr ⟨step, inside, called⟩) with ⟨_, quiet⟩ | dispatch
  · exact absurd among (quiet outside name forwarded)
  cases part with
  | done | terminal | action => cases dispatch
  | fork visit choice exits =>
      have own := proper.names_of_mem List.mem_cons_self
      rcases List.mem_map.mp dispatch with ⟨exit, _, rfl⟩
      rw [forwards_dispatchCall own (clear_bindResult clear own)] at forwarded
      exact absurd forwarded (unknown (marked.bindResult own) outside)
  | subflow visit called exits next =>
      rcases List.mem_map.mp dispatch with ⟨exit, _, rfl⟩
      rw [forwards_dispatchCall (proper.names_of_mem List.mem_cons_self) clear] at forwarded
      exact absurd forwarded (unknown marked outside)
  | loop visit start body next =>
      refine ⟨visit, start, body, next, rfl, ?_⟩
      rcases start.cases_of_mem_flattenSteps inside with equal | equal | equal | equal
      · rw [equal] at called
        cases called
      · rw [equal] at called
        cases called
      · rw [equal] at called
        cases called
      · exact equal

/-- The own steps of a visit wait only for a delay, or to ask for the state of a subflow again. -/
theorem waits_of_calls_sleep (proper : part.Proper)
    (roles : part.InRoles Visit.node scope.insideLoop) {visit : Visit}
    (first : part.first? = some visit)
    (inside : step ∈ flattenSteps (part.ownSteps settings scope))
    (sleeps : step.calls Primitive.sleep) :
    visit.isDelay ∧ scope.insideLoop = false ∨
      visit.isSubflow ∧ step.name = visit.names.step "wait" := by
  rcases mem_callsWithin_of_calls inside sleeps with ⟨call, member, target⟩
  have generated : ∀ leg : Leg, leg ∈ part.doors → leg.room "" ≠ Primitive.sleep := by
    intro leg door equal
    have routine := isPrimitive_room_eq_false "" proper door
    rw [equal, Primitive.isPrimitive_sleep] at routine
    cases routine
  cases part with
  | done => cases first
  | terminal => cases member
  | action other act next =>
      cases first
      left
      have primitive := List.mem_map_of_mem (f := Call.target) member
      rw [ownSteps, Action.targets_steps, List.mem_singleton, target] at primitive
      cases act with
      | delay pause =>
          refine ⟨?_, roles.2.1 rfl⟩
          rw [visit.classes_eq.1, roles.1]
          rfl
      | message | saveFields | saveVariable | alert | utility =>
          exact absurd (show Primitive.sleep = Primitive.httpPost from primitive) (by decide)
      | apiCall =>
          exact absurd (show Primitive.sleep = Primitive.httpRequest from primitive) (by decide)
      | webhook =>
          exact absurd (show Primitive.sleep = Primitive.awaitCallback from primitive) (by decide)
  | fork other choice exits =>
      cases first
      rw [ownSteps, Fork.steps, callsWithin_append] at member
      rcases List.mem_append.mp member with opening | route
      · have primitive := List.mem_map_of_mem (f := Call.target) opening
        rw [Fork.targets_openingSteps, target] at primitive
        have requests : choice.openingPrimitives ⊆
            [Primitive.httpPost, Primitive.awaitCallback] := by
          cases choice <;> simp [Fork.openingPrimitives]
        exact absurd (requests primitive) (by decide)
      · rcases Fork.exists_exit_of_mem_route route with ⟨exit, among, rfl⟩
        exact absurd target (generated _ (exit_mem_doors among))
  | subflow other called exits next =>
      cases first
      right
      refine ⟨by rw [visit.classes_eq.2.2, roles.1], ?_⟩
      have waits := List.mem_filter.mpr ⟨inside, sleeps⟩
      rw [ownSteps, Subflow.filter_sleeps (proper.names_of_mem List.mem_cons_self),
        List.mem_singleton] at waits
      rw [waits]
      rfl
  | loop other start body next =>
      rw [ownSteps, LoopStart.callsWithin_steps, List.mem_singleton] at member
      rw [member] at target
      exact absurd target (generated _ (body_mem_doors other start body next))

/-- A walk that begins with a node that ends the run consists of this node. -/
theorem eq_terminal (roles : part.InRoles Visit.node scope.insideLoop) {visit : Visit}
    (first : part.first? = some visit) (ends : visit.isTerminal) : part = .terminal visit := by
  rw [visit.classes_eq.2.1] at ends
  cases part with
  | done => cases first
  | terminal => exact congrArg Walk.terminal (Option.some.inj first)
  | action | fork | subflow | loop =>
      cases first
      rw [roles.1] at ends
      cases ends

/-! ## Delays -/

theorem delaySleeps_emit {visit : Visit} {own : List Step}
    (once : visit.isDelay → callCount Primitive.sleep own = 1) :
    delaySleeps (emit home visit own) = ([visit].filter Visit.isDelay).map some := by
  cases delay : visit.isDelay with
  | false =>
      have none : (emit home visit own).filter Emission.isDelaySleep = [] := by
        refine List.filter_eq_nil_iff.mpr fun emission member => ?_
        rcases List.mem_map.mp member with ⟨step, _, rfl⟩
        simp [Emission.isDelaySleep, delay]
      rw [delaySleeps, none, List.filter_cons_of_neg (by simp [delay])]
      rfl
  | true =>
      have waits : (emit home visit own).filter Emission.isDelaySleep =
          ((flattenSteps own).filter (calls Primitive.sleep)).map
            fun step => ⟨home, some visit, step⟩ := by
        rw [emit, List.filter_map]
        refine congrArg _ (List.filter_congr fun step _ => ?_)
        simp [Emission.isDelaySleep, delay]
      have single : ((flattenSteps own).filter (calls Primitive.sleep)).length = 1 := by
        rw [← List.countP_eq_length_filter]
        exact once delay
      rcases List.length_eq_one_iff.mp single with ⟨step, equal⟩
      rw [delaySleeps, waits, equal, List.filter_cons_of_pos delay]
      rfl

/-- Among what is emitted for a visit there is one wait for a delay if the visit is one of a delay,
and none otherwise. -/
theorem delaySleeps_visit {visit : Visit} {own inner : List Step} {rest : List Emission}
    {others : List Visit} (once : visit.isDelay → callCount Primitive.sleep own = 1)
    (behind : delaySleeps rest = (others.filter Visit.isDelay).map some) :
    delaySleeps (⟨home, some visit, .block visit.names.result inner⟩ ::
        (emit home visit own ++ rest)) = ((visit :: others).filter Visit.isDelay).map some := by
  have block : Emission.isDelaySleep ⟨home, some visit, .block visit.names.result inner⟩ = false :=
    Bool.and_false _
  have skipped := delaySleeps_append (emit home visit own) rest
  rw [delaySleeps_emit once, behind, ← List.map_append, ← List.filter_append] at skipped
  rw [delaySleeps, List.filter_cons_of_neg (by simp [block])]
  exact skipped

theorem isDelay_eq_false {visit : Visit} {role : Role} (plays : visit.node.kind.role = role)
    (other : ∀ act, role ≠ .action act) : visit.isDelay = false := by
  rw [visit.classes_eq.1, plays]
  cases role with
  | action act => exact absurd rfl (other act)
  | fork | subflow | loop | terminal => rfl

theorem callCount_sleep_delay {names : Names} {registry : Registry} {act : Action}
    (delay : act.isDelay) :
    callCount Primitive.sleep (act.steps settings names registry ++ act.binding names) = 1 := by
  cases act with
  | delay pause => rfl
  | _ => cases delay

mutual
/-- In the order of the visits, one wait is emitted for each delay. -/
theorem delaySleeps_emissions (settings : Settings) {inside : Bool} :
    ∀ (walk : Walk Visit) {home : String} {scope : Scope}, walk.InRoles Visit.node inside →
      delaySleeps (walk.emissions settings home scope) =
        (walk.visits.filter Visit.isDelay).map some
  | .done, _, _, _ => rfl
  | .terminal visit, home, scope, roles => by
      have other := isDelay_eq_false roles (by simp)
      rw [emissions, visits, delaySleeps_cons_of_neg rfl other,
        List.filter_cons_of_neg (by simp [other])]
      rfl
  | .action visit act next, home, scope, roles => by
      refine delaySleeps_visit (fun delay => callCount_sleep_delay ?_)
        (delaySleeps_emissions settings next roles.2.2)
      rw [visit.classes_eq.1, roles.1] at delay
      exact delay
  | .fork visit choice exits, home, scope, roles => by
      have other := isDelay_eq_false roles.1 (by simp)
      exact delaySleeps_visit (by simp [other])
        (delaySleeps_exitEmissions settings visit other exits roles.2)
  | .subflow visit called exits next, home, scope, roles => by
      have other := isDelay_eq_false roles.1 (by simp)
      refine delaySleeps_visit (by simp [other]) ?_
      rw [delaySleeps_append, delaySleeps_exitEmissions settings visit other exits roles.2.1,
        delaySleeps_emissions settings next roles.2.2, List.filter_append, List.map_append]
  | .loop visit start body next, home, scope, roles => by
      have other := isDelay_eq_false roles.1 (by simp)
      refine delaySleeps_visit (by simp [other]) ?_
      rw [delaySleeps_append, delaySleeps_cons_of_neg rfl other,
        delaySleeps_emissions settings body roles.2.2.1,
        delaySleeps_emissions settings next roles.2.2.2, List.filter_append, List.map_append]

theorem delaySleeps_exitEmissions (settings : Settings) {inside : Bool} (visit : Visit)
    (other : visit.isDelay = false) :
    ∀ (exits : List (Exit × Option (Walk Visit))) {scope : Scope},
      ExitsInRoles Visit.node inside exits →
        delaySleeps (exitEmissions settings visit scope exits) =
          ((exitVisits exits).filter Visit.isDelay).map some
  | [], _, _ => rfl
  | (exit, none) :: rest, scope, roles => by
      rw [exitEmissions, exitVisits, delaySleeps_cons_of_neg rfl other]
      exact delaySleeps_exitEmissions settings visit other rest roles
  | (exit, some walk) :: rest, scope, roles => by
      rw [exitEmissions, exitVisits, delaySleeps_append, delaySleeps_cons_of_neg rfl other,
        delaySleeps_emissions settings walk roles.1,
        delaySleeps_exitEmissions settings visit other rest roles.2, List.filter_append,
        List.map_append]
end

end Walk

end FlowCompiler
