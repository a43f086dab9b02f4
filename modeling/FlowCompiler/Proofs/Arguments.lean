import FlowCompiler.Proofs.Assembly
import FlowCompiler.Proofs.Checked
import FlowCompiler.Proofs.Registries

namespace FlowCompiler

/-! Arguments and parameters. A call of a generated routine passes one argument for every
parameter of the routine, in the order of the parameters. -/

open Lowering Step

theorem Table.keys_insert_cons {α β : Type} {first : String} {arguments : Table α}
    {bindings : Table β} (keys : arguments.keys = first :: bindings.keys) {name : String}
    (other : name ≠ first) (argument : α) (value : β) :
    (arguments.insert name argument).keys = first :: (bindings.insert name value).keys := by
  rw [keys_insert, keys_insert, keys]
  by_cases known : name ∈ bindings.keys
  · rw [if_pos known, if_pos (List.mem_cons_of_mem _ known)]
  · have absent : name ∉ first :: bindings.keys := by
      intro member
      rcases List.mem_cons.mp member with equal | member
      · exact other equal
      · exact known member
    rw [if_neg known, if_neg absent, List.cons_append]

/-! ## Calls that fit -/

/-- The call passes exactly the parameters of the routine, of which the first is the state and
which have different names. -/
structure Call.Fits (call : Call) (routine : Routine) : Prop where
  arguments : call.args.keys = routine.params
  state : routine.params.head? = some Registry.state
  distinct : routine.params.Nodup

theorem Registry.Clear.fits {registry : Registry} (clear : registry.Clear) {call : Call}
    (arguments : call.args = registry.callArgs) {routine : Routine}
    (params : routine.params = registry.params) : call.Fits routine := by
  refine ⟨?_, ?_, ?_⟩
  · rw [arguments, params, Registry.keys_callArgs clear]
  · rw [params]
    rfl
  · rw [params]
    exact Registry.nodup_params clear

theorem Registry.Clear.fits_iterationCall {registry : Registry} (clear : registry.Clear)
    (names : Names) (loop : LoopStart) {routine : Routine}
    (params : routine.params = (LoopStart.bodyRegistry registry).params) :
    (loop.iterationCall names registry).Fits routine := by
  have itemOther : Registry.loopItem ≠ Registry.state := by decide
  have indexOther : Registry.loopIndex ≠ Registry.state := by decide
  have bodyClear : (LoopStart.bodyRegistry registry).Clear :=
    (clear.rebased.bind itemOther _).bind indexOther _
  have keys : registry.callArgs.keys = Registry.state :: registry.rebased.names := by
    rw [Registry.keys_callArgs clear, Registry.names_rebased]
    rfl
  refine ⟨?_, ?_, ?_⟩
  · rw [params]
    exact Table.keys_insert_cons (Table.keys_insert_cons keys itemOther _ _) indexOther _ _
  · rw [params]
    rfl
  · rw [params]
    exact Registry.nodup_params bodyClear

theorem Names.Owns.ne_state {names : Names} (proper : names.Proper) {name : String}
    (owns : names.Owns name) : name ≠ Registry.state := by
  intro equal
  have wordy : Text.Wordy Registry.state := by decide
  exact owns.not_wordy proper (equal ▸ wordy)

namespace Walk

theorem clear_bindResult {scope : Scope} (clear : scope.registry.Clear) {names : Names}
    (proper : names.Proper) : (scope.bindResult names).registry.Clear :=
  clear.bind (Names.Owns.ne_state proper .result) _

/-- No variable at a place of a walk is the state. -/
theorem Place.clear {scope inner : Scope} {walk part : Walk Visit}
    (place : Place scope walk inner part) (proper : walk.Proper)
    (clear : scope.registry.Clear) : inner.registry.Clear := by
  induction place with
  | here => exact clear
  | @afterAction scope inner visit act next part place induction =>
      refine induction proper.next_action ?_
      rw [Scope.afterAction, Action.registryAfter]
      cases act.result? visit.names with
      | none => exact clear
      | some value => exact clear_bindResult clear proper.names
  | behindFork member _ induction =>
      exact induction (proper.behind_fork member)
        (clear_bindResult clear (proper.names_of_mem List.mem_cons_self)).rebased
  | behindSubflow member _ induction =>
      exact induction (proper.behind_subflow member) clear.rebased
  | afterSubflow _ induction =>
      exact induction proper.next_subflow
        (clear_bindResult clear (proper.names_of_mem List.mem_cons_self))
  | inLoop _ induction =>
      exact induction proper.body_loop
        ((clear.rebased.bind (by decide) _).bind (by decide) _)
  | afterLoop _ induction => exact induction proper.next_loop clear

/-- What a dispatch calls is a routine of the same visit, and the dispatch fits it. -/
theorem exists_fitting_of_dispatch (settings : Settings) {scope : Scope} {walk : Walk Visit}
    {call : Call} (proper : walk.Proper) (clear : scope.registry.Clear)
    (dispatch : call ∈ walk.dispatches scope) :
    ∃ routine, (call.target, routine) ∈ walk.ownRoutines settings scope ∧
      call.Fits routine := by
  cases walk with
  | done | terminal | action => cases dispatch
  | fork visit choice exits =>
      rcases List.mem_map.mp dispatch with ⟨exit, inside, rfl⟩
      have bound := clear_bindResult clear (proper.names_of_mem List.mem_cons_self)
      refine ⟨_, List.mem_map.mpr ⟨exit, inside, Prod.ext (fst_exitEntry ..) rfl⟩, ?_⟩
      exact bound.fits rfl ((params_exitEntry ..).trans (Registry.params_rebased _))
  | subflow visit called exits next =>
      rcases List.mem_map.mp dispatch with ⟨exit, inside, rfl⟩
      refine ⟨_, List.mem_map.mpr ⟨exit, inside, Prod.ext (fst_exitEntry ..) rfl⟩, ?_⟩
      exact clear.fits rfl ((params_exitEntry ..).trans (Registry.params_rebased _))
  | loop visit start body next =>
      rw [List.mem_singleton.mp dispatch]
      exact ⟨_, List.mem_singleton_self _, clear.fits_iterationCall visit.names start rfl⟩

end Walk

namespace Compile

/-! ## Programs -/

theorem clear_branchRegistry (flow : Flow) (branch : Branch) :
    (branchRegistry flow branch).Clear :=
  (Registry.clear_empty.bind (by decide) _).bind (by decide) _

theorem Assembled.clear {settings : Settings} {flow : Flow} {branch : Branch}
    {children : List Node} {walk : Walk Visit} {program : Program}
    (assembled : Assembled settings flow branch children walk program) :
    (startScope flow branch children).registry.Clear := by
  refine reserveAll_preserves Registry.Clear children
    (NameSource.valid_start (Graph.ofFlow flow)) assembled.known ?_
    ((clear_branchRegistry flow branch).bind (by decide) _)
  intro registry number child _ clear
  exact clear.bind (Names.Owns.ne_state (Names.proper_ofNode number child) .result) .null

theorem Assembled.exists_fitting_routine {settings : Settings} {flow : Flow} {branch : Branch}
    {children : List Node} {walk : Walk Visit} {program : Program}
    (assembled : Assembled settings flow branch children walk program)
    {entry : String × Routine} {call : Call} (member : entry ∈ program.routines.entries)
    (called : call ∈ callsWithin entry.2.steps) :
    Primitive.isPrimitive call.target ∨
      ∃ routine, program.routines.get? call.target = some routine ∧ call.Fits routine := by
  rcases assembled.exists_place_of_call member called with
    primitive | equal | ⟨inner, part, place, dispatch⟩
  · exact .inl primitive
  · subst equal
    refine .inr ⟨setupRoutine settings flow (branchRegistry flow branch), ?_, ?_⟩
    · exact assembled.get?_eq_some_iff.mpr (List.mem_cons_of_mem _ List.mem_cons_self)
    · exact (clear_branchRegistry flow branch).fits rfl rfl
  · rcases Walk.exists_fitting_of_dispatch settings (place.proper assembled.proper)
      (place.clear assembled.proper assembled.clear) dispatch with ⟨routine, own, fits⟩
    have known := place.routines_subset (part.ownRoutines_subset settings inner own)
    exact .inr ⟨routine, assembled.get?_eq_some_iff.mpr
      (List.mem_cons_of_mem _ (List.mem_cons_of_mem _ known)), fits⟩

end Compile

/-- Wherever a compiled program calls one of its routines, the arguments are exactly the
parameters of the routine, in order. -/
theorem compiled_calls_fit (settings : Settings) (lookup : BranchLookup) (flow : Flow)
    (program : Program) (compiled : compile settings lookup flow = .ok program) :
    ∀ entry ∈ program.routines.entries, ∀ step ∈ entry.2.flatten, ∀ call ∈ step.call?,
      Primitive.isPrimitive call.target = false →
        ∃ routine, program.routines.get? call.target = some routine ∧ call.Fits routine := by
  intro entry member step inside call called generated
  rw [compile_eq_build] at compiled
  rcases Compile.exists_assembled_of_build compiled with
    empty | ⟨_, branch, walk, _, _, assembled⟩
  · subst empty
    rw [List.mem_singleton.mp member] at inside
    rw [List.mem_singleton.mp inside] at called
    cases called
  · rcases assembled.exists_fitting_routine member
      (List.mem_filterMap.mpr ⟨step, inside, called⟩) with primitive | found
    · rw [primitive] at generated
      cases generated
    · exact found

theorem compiled_calls_fit_sample :
    ∃ program, compile .standard Compile.sampleLookup Compile.sampleFlow = .ok program ∧
      ∀ entry ∈ program.routines.entries, ∀ step ∈ entry.2.flatten, ∀ call ∈ step.call?,
        Primitive.isPrimitive call.target = false →
          ∃ routine, program.routines.get? call.target = some routine ∧ call.Fits routine := by
  rcases Compile.exists_sampleProgram with ⟨program, compiled⟩
  exact ⟨program, compiled, compiled_calls_fit .standard Compile.sampleLookup
    Compile.sampleFlow program compiled⟩

end FlowCompiler
