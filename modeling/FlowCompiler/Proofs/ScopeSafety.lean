import FlowCompiler.Proofs.Reservations
import FlowCompiler.Proofs.WalkSites

namespace FlowCompiler

/-! Scope safety: whatever a program reads is defined on every path to the read. A routine is
entered with a parameter for each of its variables, and only `main` passes placeholders on. -/

open Expression Lowering Step

variable {placeholder : String → Json → Prop} {defined : List String}

/-! ## Routines -/

theorem Registry.names_subset_rebased (registry : Registry) :
    registry.names ⊆ registry.rebased.names :=
  registry.names_rebased ▸ List.Subset.refl _

theorem Registry.names_subset_rebased_bind (registry : Registry) (name : String) (value : Json) :
    registry.names ⊆ (registry.bind name value).rebased.names :=
  List.Subset.trans (registry.names_subset_bind name value) (Registry.names_subset_rebased _)

theorem LoopStart.names_subset_bodyRegistry (registry : Registry) :
    registry.names ⊆ (bodyRegistry registry).names :=
  List.Subset.trans registry.names_subset_rebased
    (List.Subset.trans (Registry.names_subset_bind _ _ _) (Registry.names_subset_bind _ _ _))

namespace Walk

/-- Variables are added along a walk, never removed. -/
theorem Place.names_subset {scope inner : Scope} {walk part : Walk Visit}
    (place : Place scope walk inner part) : scope.registry.names ⊆ inner.registry.names := by
  induction place with
  | here => exact List.Subset.refl _
  | @afterAction scope inner visit act next part place induction =>
      refine List.Subset.trans ?_ induction
      rw [Scope.afterAction, Action.registryAfter]
      cases act.result? visit.names with
      | none => exact List.Subset.refl _
      | some value => exact scope.registry.names_subset_bind _ _
  | behindFork _ _ induction =>
      exact List.Subset.trans (Registry.names_subset_rebased_bind _ _ _) induction
  | behindSubflow _ _ induction =>
      exact List.Subset.trans (Registry.names_subset_rebased _) induction
  | afterSubflow _ induction =>
      exact List.Subset.trans (Registry.names_subset_bind _ _ _) induction
  | inLoop _ induction =>
      exact List.Subset.trans (LoopStart.names_subset_bodyRegistry _) induction
  | afterLoop _ induction => exact induction

/-- A routine is entered with all variables, each read by its own name. -/
theorem Entered.plain {outer inner : Scope} (entered : Entered outer inner) :
    inner.registry.Plain ∧ outer.registry.names ⊆ inner.registry.names := by
  cases entered with
  | exit names => exact ⟨Registry.plain_rebased _, Registry.names_subset_rebased_bind _ _ _⟩
  | failure => exact ⟨Registry.plain_rebased _, Registry.names_subset_rebased _⟩
  | loop =>
      exact ⟨((Registry.plain_rebased _).bindVariable _).bindVariable _,
        LoopStart.names_subset_bodyRegistry _⟩

theorem soundAt_return {name : String} {value : Json}
    (reads : ∀ read ∈ variablesOf value, read ∈ defined) :
    SoundAt placeholder defined [.return name value] := by
  refine soundAt_cons ⟨fun other member => ?_, by rintro call ⟨⟩⟩ (by simp [innerSites])
    soundAt_nil
  rw [List.mem_singleton.mp member]
  exact reads

theorem isVariable_state : IsVariable Registry.state := by
  decide

theorem Closing.soundAt {walk : Walk Visit} {last : Step} (closing : Closing walk last)
    (state : Registry.state ∈ defined) : SoundAt placeholder defined [last] := by
  cases closing with
  | finish =>
      refine soundAt_return fun read reads => ?_
      rw [isVariable_state.variablesOf, List.mem_singleton] at reads
      exact reads ▸ state
  | stub exit =>
      refine soundAt_return fun read reads => ?_
      have plain : variablesOf (.string ("No further steps defined for `" ++ exit.label ++ "`")) =
          [] := by
        rw [variablesOf, body?, String.toList_append, String.toList_append]
        rfl
      rw [plain] at reads
      cases reads
  | resume =>
      refine soundAt_return fun read reads => ?_
      cases reads

theorem sound_of_mem_routines (reserving : Reserving placeholder) {settings : Settings}
    {scope : Scope} {walk : Walk Visit} (proper : walk.Proper)
    (base : Registry.apiBase ∈ scope.registry.names) {entry : String × Routine}
    (member : entry ∈ walk.routines settings scope) :
    ∀ site ∈ entry.2.sites, site.Sound placeholder := by
  rcases exists_composed member with
    ⟨outer, _, inner, behind, last, place, _, entered, composed, inside⟩
  have behindProper : behind.Proper := by
    rcases inside with done | further
    · exact done ▸ proper_done
    · exact further.proper proper
  have plain := entered.plain
  have readable : inner.registry.Readable placeholder inner.registry.params :=
    plain.1.readable
  have known : Registry.apiBase ∈ inner.registry.params :=
    List.mem_cons_of_mem _ (plain.2 (place.names_subset base))
  rw [Routine.sites, composed.params, composed.steps]
  exact (soundAt_steps reserving settings behind behindProper readable known).append
    (composed.closing.soundAt (subset_definedAfter _ readable.state))

end Walk

namespace Compile

/-! ## Programs -/

/-- What `main` may pass on for a variable that no step has set: the id and the name of the
branch, and null for the variables that are reserved behind the trigger. -/
inductive Placeholder (lookup : BranchLookup) (flow : Flow) : String → Json → Prop
  | branchId : Placeholder lookup flow Registry.branchId (.string flow.branchId)
  | branchName {branch : Branch} (found : lookup flow.branchId = .ok branch) :
      Placeholder lookup flow Registry.branchName (.string branch.name)
  | reserved {trigger : Node} {name : String} (started : flow.trigger? = some trigger)
      (member : name ∈ reservedVariables (triggerChildren (Graph.ofFlow flow) trigger)) :
      Placeholder lookup flow name .null

variable {lookup : BranchLookup} {flow : Flow}

theorem reserving_placeholder (main : Prop) :
    Reserving fun name value => main ∧ Placeholder lookup flow name value := by
  have fixed : ∀ name value, Text.Wordy name → name ≠ Registry.branchId →
      name ≠ Registry.branchName → ¬ Placeholder lookup flow name value := by
    intro name value wordy notId notName given
    cases given with
    | branchId => exact notId rfl
    | branchName => exact notName rfl
    | reserved _ member =>
        rcases List.mem_map.mp member with ⟨names, kept, rfl⟩
        exact Names.Owns.not_wordy (proper_of_mem_reservedNames kept) .result wordy
  refine ⟨?_, ?_, ?_⟩
  · rintro names suffix value proper wordy ⟨_, given⟩
    have owned : ∀ name, Text.Wordy name → names.step suffix ≠ name := fun name isWordy equal =>
      Names.Owns.not_wordy proper (.step wordy) (equal ▸ isWordy)
    generalize written : names.step suffix = name at given
    cases given with
    | branchId => exact owned _ (by decide) written
    | branchName => exact owned _ (by decide) written
    | reserved _ member =>
        rcases List.mem_map.mp member with ⟨other, kept, rfl⟩
        exact Names.step_ne_result_of_wordy (proper_of_mem_reservedNames kept) wordy written
  · rintro value ⟨_, given⟩
    exact fixed _ value (by decide) (by decide) (by decide) given
  · rintro value ⟨_, given⟩
    exact fixed _ value (by decide) (by decide) (by decide) given

section

variable {settings : Settings} {trigger : Node} {branch : Branch} {walk : Walk Visit}
  {program : Program}

def MainPlaceholder (lookup : BranchLookup) (flow : Flow) (name : String) : String → Json → Prop :=
  fun variable_ value => name = Program.mainName ∧ Placeholder lookup flow variable_ value

/-- At its beginning, `main` passes the branch itself on. -/
theorem readable_branchRegistry (found : lookup flow.branchId = .ok branch) :
    (branchRegistry flow branch).Readable (MainPlaceholder lookup flow Program.mainName)
      [Registry.state] := by
  refine ⟨List.mem_singleton_self _, fun entry member => ?_⟩
  have unset : Registry.branchId ∉ [Registry.state] ∧ Registry.branchName ∉ [Registry.state] := by
    decide
  rcases List.mem_pair.mp member with equal | equal
  · rw [equal]
    exact .placeholder ⟨rfl, .branchId⟩ unset.1
  · rw [equal]
    exact .placeholder ⟨rfl, .branchName found⟩ unset.2

/-- The registry of the walk is readable behind the step that finds out the base address. -/
theorem readable_startScope (started : flow.trigger? = some trigger)
    (found : lookup flow.branchId = .ok branch)
    (known : ∀ child ∈ triggerChildren (Graph.ofFlow flow) trigger,
      (Graph.ofFlow flow).Knows child) :
    (startScope flow branch (triggerChildren (Graph.ofFlow flow) trigger)).registry.Readable
      (MainPlaceholder lookup flow Program.mainName) [Registry.apiBase, Registry.state] := by
  have base : ((branchRegistry flow branch).bindVariable Registry.apiBase).Readable
      (MainPlaceholder lookup flow Program.mainName) [Registry.apiBase, Registry.state] := by
    refine (readable_branchRegistry found).bindVariable (List.subset_cons_self _ _)
      List.mem_cons_self fun name member => ?_
    rcases List.mem_cons.mp member with equal | known
    · exact .inr (.inl equal)
    · exact .inl known
  refine ⟨base.state, fun entry member => ?_⟩
  rcases mem_reservation known member with fixed | ⟨reserved, null⟩
  · exact base.values entry fixed
  · rw [null]
    refine .placeholder ⟨rfl, .reserved started reserved⟩ fun written => ?_
    rcases List.mem_map.mp reserved with ⟨names, kept, equal⟩
    have wordy : ∀ name ∈ [Registry.apiBase, Registry.state], Text.Wordy name := by decide
    exact Names.Owns.not_wordy (proper_of_mem_reservedNames kept) .result
      (equal ▸ wordy _ written)

theorem apiBase_mem_startScope (children : List Node)
    (known : ∀ child ∈ children, (Graph.ofFlow flow).Knows child) :
    Registry.apiBase ∈ (startScope flow branch children).registry.names := by
  refine reserveAll_preserves (fun registry => Registry.apiBase ∈ registry.names) children
    (NameSource.valid_start (Graph.ofFlow flow)) known ?_
    (Table.mem_keys_insert.mpr (.inl rfl))
  intro registry number child _ present
  exact registry.names_subset_bind _ _ present

theorem sound_mainRoutine (started : flow.trigger? = some trigger)
    (found : lookup flow.branchId = .ok branch)
    (assembled : Assembled settings flow branch (triggerChildren (Graph.ofFlow flow) trigger) walk
      program) :
    ∀ site ∈ (mainRoutine settings flow branch
        (startScope flow branch (triggerChildren (Graph.ofFlow flow) trigger)) walk).sites,
      site.Sound (MainPlaceholder lookup flow Program.mainName) := by
  have readable := readable_startScope started found assembled.known
  have setup : SoundAt (MainPlaceholder lookup flow Program.mainName) [Registry.state]
      [setupStep (branchRegistry flow branch)] := by
    refine soundAt_cons ⟨fun value member => ?_, ?_⟩ (by simp [setupStep, innerSites]) soundAt_nil
    · cases member
    · rintro call ⟨⟩ _
      exact (readable_branchRegistry found).callArgs
  refine (setup.append (Walk.soundAt_steps (reserving_placeholder _) settings walk
    assembled.proper readable List.mem_cons_self)).append ?_
  have base : Registry.apiBase ∈ [setupStep (branchRegistry flow branch)].flatMap writes :=
    List.mem_singleton_self _
  refine soundAt_cons ((basic_post _ _ _ _ _).sound (mem_definedAfter.mpr (.inr ?_))
    (subset_definedAfter _ (List.mem_singleton_self _)))
    (by simp [clearSession, post, innerSites]) ?_
  · rw [List.flatMap_append]
    exact List.mem_append_left _ base
  · exact (@Walk.Closing.finish .done).soundAt
      (List.mem_append_right _ (subset_definedAfter _ (List.mem_singleton_self _)))

theorem sound_setupRoutine (settings : Settings) (flow : Flow) (branch : Branch) :
    ∀ site ∈ (setupRoutine settings flow (branchRegistry flow branch)).sites,
      site.Sound placeholder := by
  have base : IsVariable Registry.apiBase := by decide
  refine soundAt_cons (sound_of_silent rfl ?_) (by simp [innerSites]) ?_
  · rintro call ⟨⟩
    exact Primitive.isPrimitive_getEnv
  refine soundAt_cons ⟨fun value member read reads => ?_, ?_⟩ (by simp [innerSites]) ?_
  · have joined : variablesFrom .gap (" + ".toList ++ Registry.branchName.toList) =
        [Registry.branchName] := rfl
    rw [List.mem_singleton.mp member, variablesOf_evaluate, variablesIn, String.toList_append,
      String.toList_append, List.append_assoc, variablesFrom_literal, joined,
      List.mem_singleton] at reads
    rw [reads]
    exact List.mem_append_right [_, _, _] List.mem_cons_self
  · rintro call ⟨⟩ generated
    rw [Primitive.isPrimitive_log] at generated
    cases generated
  refine Walk.soundAt_return fun read reads => ?_
  rw [base.variablesOf, List.mem_singleton] at reads
  rw [reads]
  exact List.mem_cons_self

end

end Compile

/-- Scope safety: in a compiled program, every variable that the compiler has put into an
expression or passes on to a routine is defined on every path there. Only in `main` do calls pass
placeholders on, for variables that no step in front of the call has set. -/
theorem compiled_reads_defined (settings : Settings) (lookup : BranchLookup) (flow : Flow)
    (program : Program) (compiled : compile settings lookup flow = .ok program) :
    ∀ entry ∈ program.routines.entries, ∀ site ∈ entry.2.sites,
      site.Sound (Compile.MainPlaceholder lookup flow entry.1) := by
  intro entry member
  rw [compile_eq_build] at compiled
  rcases Compile.exists_assembled_of_build compiled with
    empty | ⟨trigger, branch, walk, started, found, assembled⟩
  · subst empty
    rw [List.mem_singleton.mp member]
    exact Walk.soundAt_return fun read reads => by cases reads
  · rw [assembled.entries] at member
    rcases List.mem_cons.mp member with equal | member
    · subst equal
      exact Compile.sound_mainRoutine started found assembled
    · rcases List.mem_cons.mp member with equal | member
      · subst equal
        exact Compile.sound_setupRoutine settings flow branch
      · exact Walk.sound_of_mem_routines (Compile.reserving_placeholder _) assembled.proper
          (Compile.apiBase_mem_startScope _ assembled.known) member

theorem compiled_reads_defined_sample :
    ∃ program, compile .standard Compile.sampleLookup Compile.sampleFlow = .ok program ∧
      ∀ entry ∈ program.routines.entries, ∀ site ∈ entry.2.sites,
        site.Sound
          (Compile.MainPlaceholder Compile.sampleLookup Compile.sampleFlow entry.1) := by
  rcases Compile.exists_sampleProgram with ⟨program, compiled⟩
  exact ⟨program, compiled, compiled_reads_defined .standard Compile.sampleLookup
    Compile.sampleFlow program compiled⟩

end FlowCompiler
