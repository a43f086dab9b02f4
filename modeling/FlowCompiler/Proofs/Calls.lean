import FlowCompiler.Proofs.Places

namespace FlowCompiler

/-! The calls of a walk. A call in the steps of a walk is one of a primitive, or it dispatches
to a routine that belongs to the visit at some place of the walk. -/

namespace Step

def callsWithin (steps : List Step) : List Call :=
  (flattenSteps steps).filterMap call?

@[simp] theorem callsWithin_append (left right : List Step) :
    callsWithin (left ++ right) = callsWithin left ++ callsWithin right := by
  simp [callsWithin]

theorem callsWithin_block (name : String) (steps : List Step) :
    callsWithin [.block name steps] = callsWithin steps := by
  simp only [callsWithin, flattenSteps, flatten, List.append_nil]
  rfl

end Step

namespace Lowering

def dispatchCall (routine : String) (names : Names) (registry : Registry) : Call where
  target := routine
  args := registry.callArgs
  result := some (names.step "outcome")
  retry := none

theorem dispatch_eq (name routine : String) (names : Names) (registry : Registry) :
    dispatch name routine names registry = .call name (dispatchCall routine names registry) := rfl

end Lowering

open Lowering Step

/-! ## Calls of single visits -/

namespace Primitive

@[simp] theorem isPrimitive_httpGet : isPrimitive httpGet := by decide

@[simp] theorem isPrimitive_httpPost : isPrimitive httpPost := by decide

@[simp] theorem isPrimitive_httpDelete : isPrimitive httpDelete := by decide

@[simp] theorem isPrimitive_httpRequest : isPrimitive httpRequest := by decide

@[simp] theorem isPrimitive_sleep : isPrimitive sleep := by decide

@[simp] theorem isPrimitive_log : isPrimitive log := by decide

@[simp] theorem isPrimitive_getEnv : isPrimitive getEnv := by decide

@[simp] theorem isPrimitive_awaitCallback : isPrimitive awaitCallback := by decide

end Primitive

namespace Action

def primitive : Action → String
  | .delay _ => Primitive.sleep
  | .apiCall _ => Primitive.httpRequest
  | .webhook _ => Primitive.awaitCallback
  | .message _ | .saveFields _ | .saveVariable _ | .alert _ | .utility _ => Primitive.httpPost

theorem targets_steps (settings : Settings) (names : Names) (registry : Registry)
    (action : Action) :
    (callsWithin (action.steps settings names registry ++ action.binding names)).map
      Call.target = [action.primitive] := by
  cases action <;> rfl

theorem isPrimitive_of_mem {settings : Settings} {names : Names} {registry : Registry}
    {action : Action} {call : Call}
    (member : call ∈ callsWithin
      (action.steps settings names registry ++ action.binding names)) :
    Primitive.isPrimitive call.target := by
  have target := List.mem_map_of_mem (f := Call.target) member
  rw [targets_steps, List.mem_singleton] at target
  rw [target]
  cases action <;> simp [primitive]

end Action

namespace Fork

def openingPrimitives : Fork → List String
  | .split _ | .branch _ => [Primitive.httpPost]
  | .text _ | .buttons _ | .list _ => [Primitive.httpPost, Primitive.awaitCallback]

theorem targets_openingSteps (settings : Settings) (names : Names) (registry : Registry)
    (fork : Fork) :
    (callsWithin (fork.openingSteps settings names registry)).map Call.target =
      fork.openingPrimitives := by
  have prompt : ∀ fork : Fork,
      (callsWithin (fork.promptSteps settings names registry)).map Call.target =
        [Primitive.httpPost, Primitive.awaitCallback] := by
    intro fork
    rw [promptSteps]
    cases fork.asksAgain <;> rfl
  cases fork with
  | split | branch => rfl
  | text | buttons | list => exact prompt _

theorem isPrimitive_of_mem_opening {settings : Settings} {names : Names} {registry : Registry}
    {fork : Fork} {call : Call}
    (member : call ∈ callsWithin (fork.openingSteps settings names registry)) :
    Primitive.isPrimitive call.target := by
  have target := List.mem_map_of_mem (f := Call.target) member
  rw [targets_openingSteps] at target
  cases fork with
  | split | branch =>
      rw [List.mem_singleton.mp target]
      simp
  | text | buttons | list =>
      rcases List.mem_cons.mp target with equal | target
      · rw [equal]
        simp
      · rw [List.mem_singleton.mp target]
        simp

theorem exists_exit_of_mem_cases {names : Names} {registry : Registry} {fork : Fork}
    {exits : List Exit} {step : Step} {call : Call}
    (member : step ∈ flattenCases (fork.cases names registry exits))
    (called : step.call? = some call) :
    ∃ exit ∈ exits, call = dispatchCall (names.routine exit.slug) names registry := by
  rcases exists_case_of_mem_flattenCases member with ⟨branch, isCase, inside⟩
  rcases retries_or_exists_exit isCase with ⟨_, retry⟩ | ⟨exit, among, own⟩
  · rw [retry] at inside
    rw [List.mem_singleton.mp inside] at called
    cases called
  · rw [own] at inside
    rw [List.mem_singleton.mp inside] at called
    exact ⟨exit, among, (Option.some.inj called).symm⟩

theorem exists_exit_of_mem_route {names : Names} {registry : Registry} {fork : Fork}
    {exits : List Exit} {call : Call}
    (member : call ∈ callsWithin
      [.switch (names.step "route") (fork.cases names registry exits)]) :
    ∃ exit ∈ exits, call = dispatchCall (names.routine exit.slug) names registry := by
  rcases List.mem_filterMap.mp member with ⟨step, inside, called⟩
  simp only [flattenSteps, flatten, List.append_nil] at inside
  rcases List.mem_cons.mp inside with equal | inside
  · rw [equal] at called
    cases called
  · exact exists_exit_of_mem_cases inside called

theorem exists_exit_of_mem {settings : Settings} {names : Names} {registry : Registry}
    {fork : Fork} {exits : List Exit} {call : Call}
    (member : call ∈ callsWithin (fork.steps settings names registry exits)) :
    Primitive.isPrimitive call.target ∨ ∃ exit ∈ exits,
      call = dispatchCall (names.routine exit.slug) names
        (registry.bindVariable names.result) := by
  rw [steps, callsWithin_append] at member
  rcases List.mem_append.mp member with member | member
  · exact .inl (isPrimitive_of_mem_opening member)
  · exact .inr (exists_exit_of_mem_route member)

end Fork

theorem Subflow.exists_exit_of_mem {settings : Settings} {names : Names} {registry : Registry}
    {subflow : Subflow} {exits : List Exit} {call : Call}
    (member : call ∈ callsWithin (subflow.steps settings names registry exits)) :
    Primitive.isPrimitive call.target ∨ ∃ exit ∈ exits,
      call = dispatchCall (names.routine exit.slug) names registry := by
  cases exits with
  | nil =>
      left
      simp only [callsWithin, steps, checkCases, abortSteps, flattenSteps, flatten,
        flattenCases, List.append_nil, List.nil_append, List.cons_append, List.filterMap_cons,
        List.filterMap_nil, call?, post, clearSession, List.mem_cons, List.not_mem_nil,
        or_false] at member
      rcases member with rfl | rfl | rfl | rfl | rfl | rfl <;> simp
  | cons exit rest =>
      simp only [callsWithin, steps, checkCases, abortSteps, flattenSteps, flatten,
        flattenCases, List.append_nil, List.nil_append, List.cons_append, List.filterMap_cons,
        List.filterMap_nil, call?, post, clearSession, dispatch_eq, List.mem_cons,
        List.not_mem_nil, or_false] at member
      rcases member with rfl | rfl | rfl | equal | rfl | equal | rfl | rfl | rfl | rfl
      case inr.inr.inr.inl | inr.inr.inr.inr.inr.inl =>
        exact .inr ⟨exit, List.mem_cons_self, equal⟩
      all_goals
        left
        simp

namespace LoopStart

def iterationCall (names : Names) (registry : Registry) (loop : LoopStart) : Call where
  target := bodyRoutine names
  args := (registry.callArgs.insert Registry.loopItem
      (Expression.ofVariable Registry.loopItem)).insert Registry.loopIndex
    (match loop.loopValue with
      | .list _ => Expression.ofVariable Registry.loopIndex
      | .count _ => Expression.evaluate (Registry.loopItem ++ " - 1"))
  result := some (names.step "outcome")
  retry := none

theorem bodyCall_eq (names : Names) (registry : Registry) (loop : LoopStart) :
    loop.bodyCall names registry =
      .call (names.step "iteration") (loop.iterationCall names registry) := rfl

theorem callsWithin_steps (settings : Settings) (names : Names) (registry : Registry)
    (loop : LoopStart) :
    callsWithin (loop.steps settings names registry) = [loop.iterationCall names registry] := by
  rw [steps, iteration, bodyCall_eq]
  cases loop.loopValue <;> rfl

end LoopStart

/-! ## Calls of walks -/

namespace Walk

def dispatches (scope : Scope) : Walk Visit → List Call
  | .fork visit _ exits => exits.map fun exit =>
      dispatchCall (visit.names.routine exit.1.slug) visit.names
        (scope.bindResult visit.names).registry
  | .subflow visit _ exits _ => exits.map fun exit =>
      dispatchCall (visit.names.routine exit.1.slug) visit.names scope.registry
  | .loop visit start _ _ => [start.iterationCall visit.names scope.registry]
  | .done | .terminal _ | .action .. => []

/-- A call in the steps of a walk is one of a primitive, or it is made at a place of the walk. -/
theorem exists_place_of_call {settings : Settings} {call : Call} :
    ∀ (walk : Walk Visit) {scope : Scope}, call ∈ callsWithin (walk.steps settings scope) →
      Primitive.isPrimitive call.target ∨
        ∃ inner part, Place scope walk inner part ∧ call ∈ part.dispatches inner
  | .done, _, member => by cases member
  | .terminal _, _, member => by cases member
  | .action visit act next, scope, member => by
      rw [steps, callsWithin_block, callsWithin_append] at member
      rcases List.mem_append.mp member with member | member
      · exact .inl (Action.isPrimitive_of_mem member)
      · rcases exists_place_of_call next member with primitive | ⟨inner, part, place, own⟩
        · exact .inl primitive
        · exact .inr ⟨inner, part, .afterAction place, own⟩
  | .fork visit choice exits, scope, member => by
      rw [steps, callsWithin_block] at member
      rcases Fork.exists_exit_of_mem member with primitive | ⟨exit, among, equal⟩
      · exact .inl primitive
      · rcases List.mem_map.mp among with ⟨pair, inside, rfl⟩
        exact .inr ⟨scope, _, .here, List.mem_map.mpr ⟨pair, inside, equal.symm⟩⟩
  | .subflow visit called exits next, scope, member => by
      rw [steps, callsWithin_block, callsWithin_append] at member
      rcases List.mem_append.mp member with member | member
      · rcases Subflow.exists_exit_of_mem member with primitive | ⟨exit, among, equal⟩
        · exact .inl primitive
        · rcases List.mem_map.mp among with ⟨pair, inside, rfl⟩
          exact .inr ⟨scope, _, .here, List.mem_map.mpr ⟨pair, inside, equal.symm⟩⟩
      · rcases exists_place_of_call next member with primitive | ⟨inner, part, place, own⟩
        · exact .inl primitive
        · exact .inr ⟨inner, part, .afterSubflow place, own⟩
  | .loop visit start body next, scope, member => by
      rw [steps, callsWithin_block, callsWithin_append, LoopStart.callsWithin_steps] at member
      rcases List.mem_append.mp member with own | member
      · exact .inr ⟨scope, _, .here, own⟩
      · rcases exists_place_of_call next member with primitive | ⟨inner, part, place, own⟩
        · exact .inl primitive
        · exact .inr ⟨inner, part, .afterLoop place, own⟩

theorem fst_exitEntry (settings : Settings) (names : Names) (scope : Scope)
    (exit : Exit × Option (Walk Visit)) :
    (exitEntry settings names scope exit).1 = names.routine exit.1.slug := by
  rcases exit with ⟨exit, _ | walk⟩ <;> rfl

theorem params_exitEntry (settings : Settings) (names : Names) (scope : Scope)
    (exit : Exit × Option (Walk Visit)) :
    (exitEntry settings names scope exit).2.params = scope.enterRoutine.registry.params := by
  rcases exit with ⟨exit, _ | walk⟩ <;> rfl

/-- A routine that is dispatched to belongs to the same visit. -/
theorem exists_ownRoutine_of_dispatch (settings : Settings) {scope : Scope} {walk : Walk Visit}
    {call : Call} (dispatch : call ∈ walk.dispatches scope) :
    ∃ routine, (call.target, routine) ∈ walk.ownRoutines settings scope := by
  cases walk with
  | done | terminal | action => cases dispatch
  | fork visit choice exits =>
      rcases List.mem_map.mp dispatch with ⟨exit, inside, rfl⟩
      exact ⟨_, List.mem_map.mpr ⟨exit, inside, Prod.ext (fst_exitEntry ..) rfl⟩⟩
  | subflow visit called exits next =>
      rcases List.mem_map.mp dispatch with ⟨exit, inside, rfl⟩
      exact ⟨_, List.mem_map.mpr ⟨exit, inside, Prod.ext (fst_exitEntry ..) rfl⟩⟩
  | loop visit start body next =>
      rw [List.mem_singleton.mp dispatch]
      exact ⟨_, List.mem_singleton_self _⟩

/-! ## The steps of routines -/

inductive Closing : Walk Visit → Step → Prop
  | finish {walk : Walk Visit} : Closing walk finishStep
  | stub (exit : Exit) : Closing .done (stubStep exit)
  | resume {walk : Walk Visit} :
      Closing walk (.return "finish" (.string LoopStart.continueValue))

/-! What every routine of a walk is made of: the steps of a walk, emitted in the scope whose
variables are the parameters, and a last step that returns. -/

structure Composed (settings : Settings) (scope : Scope) (walk : Walk Visit) (last : Step)
    (routine : Routine) : Prop where
  params : routine.params = scope.registry.params
  steps : routine.steps = walk.steps settings scope ++ [last]
  closing : Closing walk last

inductive Entered (outer : Scope) : Scope → Prop
  | exit (names : Names) : Entered outer (outer.bindResult names).enterRoutine
  | failure : Entered outer outer.enterRoutine
  | loop : Entered outer outer.enterLoop

theorem exists_composed_of_exitEntry {settings : Settings} {names : Names} {scope : Scope}
    {exits : List (Exit × Option (Walk Visit))} {entry : String × Routine}
    (own : entry ∈ exits.map (exitEntry settings names scope)) :
    ∃ walk last, Composed settings scope.enterRoutine walk last entry.2 ∧
      (walk = .done ∨ ∃ exit, (exit, some walk) ∈ exits) := by
  rcases List.mem_map.mp own with ⟨⟨exit, _ | walk⟩, inside, rfl⟩
  · exact ⟨.done, stubStep exit, ⟨rfl, rfl, .stub exit⟩, .inl rfl⟩
  · exact ⟨walk, finishStep, ⟨rfl, rfl, .finish⟩, .inr ⟨exit, inside⟩⟩

/-- Every routine of a visit is composed of a walk behind the visit. -/
theorem exists_composed_of_ownRoutine {settings : Settings} {scope : Scope} {part : Walk Visit}
    {entry : String × Routine} (own : entry ∈ part.ownRoutines settings scope) :
    ∃ inner walk last, Composed settings inner walk last entry.2 ∧ Entered scope inner ∧
      (walk = .done ∨ Place scope part inner walk) := by
  cases part with
  | done | terminal | action => cases own
  | fork visit choice exits =>
      rcases exists_composed_of_exitEntry own with ⟨walk, last, composed, done | ⟨exit, inside⟩⟩
      · exact ⟨_, walk, last, composed, .exit visit.names, .inl done⟩
      · exact ⟨_, walk, last, composed, .exit visit.names, .inr (.behindFork inside .here)⟩
  | subflow visit called exits next =>
      rcases exists_composed_of_exitEntry own with ⟨walk, last, composed, done | ⟨exit, inside⟩⟩
      · exact ⟨_, walk, last, composed, .failure, .inl done⟩
      · exact ⟨_, walk, last, composed, .failure, .inr (.behindSubflow inside .here)⟩
  | loop visit start body next =>
      rw [List.mem_singleton.mp own]
      exact ⟨_, body, _, ⟨rfl, rfl, .resume⟩, .loop, .inr (.inLoop .here)⟩

/-- Every routine of a walk is composed of a walk at one of its places, or of no walk. -/
theorem exists_composed {settings : Settings} {scope : Scope} {walk : Walk Visit}
    {entry : String × Routine} (member : entry ∈ walk.routines settings scope) :
    ∃ outer part inner behind last, Place scope walk outer part ∧
      entry ∈ part.ownRoutines settings outer ∧ Entered outer inner ∧
      Composed settings inner behind last entry.2 ∧
      (behind = .done ∨ Place scope walk inner behind) := by
  rcases exists_place_of_mem_routines walk member with ⟨outer, part, place, own⟩
  rcases exists_composed_of_ownRoutine own with
    ⟨inner, behind, last, composed, entered, done | further⟩
  · exact ⟨outer, part, inner, behind, last, place, own, entered, composed, .inl done⟩
  · exact ⟨outer, part, inner, behind, last, place, own, entered, composed,
      .inr (place.trans further)⟩

theorem exists_place_of_call_routine {settings : Settings} {scope : Scope} {walk : Walk Visit}
    {entry : String × Routine} {call : Call} (member : entry ∈ walk.routines settings scope)
    (called : call ∈ callsWithin entry.2.steps) :
    Primitive.isPrimitive call.target ∨
      ∃ inner part, Place scope walk inner part ∧ call ∈ part.dispatches inner := by
  rcases exists_composed member with
    ⟨_, _, inner, behind, last, _, _, _, composed, done | place⟩
  · rw [composed.steps, done] at called
    cases composed.closing <;> cases called
  · have within : call ∈ callsWithin (behind.steps settings inner) := by
      rw [composed.steps, callsWithin_append] at called
      refine (List.mem_append.mp called).resolve_right fun own => ?_
      cases composed.closing <;> cases own
    rcases exists_place_of_call behind within with
      primitive | ⟨innermost, part, further, dispatch⟩
    · exact .inl primitive
    · exact .inr ⟨innermost, part, place.trans further, dispatch⟩

end Walk

end FlowCompiler
