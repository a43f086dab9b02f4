import FlowCompiler.Proofs.SubflowSites

namespace FlowCompiler

/-! The sites of loops are sound, and with them those of whole walks. -/

open Expression Lowering Step

variable {placeholder : String → Json → Prop} {defined : List String} {names : Names}

/-! ## Loops -/

theorem LoopStart.writes_steps (settings : Settings) (names : Names) (registry : Registry)
    (loop : LoopStart) :
    (loop.steps settings names registry).flatMap writes =
      (loop.setup settings names).map Prod.fst := by
  simp [steps, writes]

theorem LoopStart.owns_of_mem_writes {settings : Settings} {registry : Registry}
    {loop : LoopStart} {name : String}
    (member : name ∈ (loop.steps settings names registry).flatMap writes) :
    ∃ suffix, Text.Wordy suffix ∧ name = names.step suffix := by
  rw [writes_steps, setup, List.map_cons] at member
  rcases List.mem_cons.mp member with equal | member
  · exact ⟨"limit", by decide, equal⟩
  · cases value : loop.loopValue with
    | list expression =>
        rw [value] at member
        exact ⟨"values", by decide, List.mem_singleton.mp member⟩
    | count number =>
        rw [value] at member
        cases member

/-- What a loop passes to its body is defined in an iteration. -/
theorem LoopStart.forwarded_iterationCall {registry : Registry} (loop : LoopStart)
    (readable : registry.Readable placeholder defined)
    (item : Registry.loopItem ∈ defined)
    (index : ∀ expression, loop.loopValue = .list expression → Registry.loopIndex ∈ defined) :
    ∀ entry ∈ (loop.iterationCall names registry).args.entries,
      Forwarded placeholder defined entry.1 entry.2 := by
  intro entry member
  rcases Table.eq_or_mem_of_mem_insert member with equal | member
  · cases value : loop.loopValue with
    | list expression =>
        rw [value] at equal
        rw [equal]
        exact .reference (index expression value)
    | count number =>
        rw [value] at equal
        rw [equal]
        exact .previous item
  · rcases Table.eq_or_mem_of_mem_insert member with equal | member
    · rw [equal]
      exact .reference item
    · exact readable.callArgs entry member

theorem LoopStart.sound_iterationCall (proper : names.Proper) {registry : Registry}
    (loop : LoopStart) (readable : registry.Readable placeholder defined)
    (item : Registry.loopItem ∈ defined)
    (index : ∀ expression, loop.loopValue = .list expression → Registry.loopIndex ∈ defined) :
    (⟨defined, loop.bodyCall names registry⟩ : Site).Sound placeholder := by
  have silent : (loop.bodyCall names registry).expressions = [] := by
    have target : Primitive.evaluatedKeys (loop.iterationCall names registry).target = [] :=
      Primitive.evaluatedKeys_routine proper "body"
    rw [bodyCall_eq, expressions, target]
    rfl
  refine ⟨fun value member => ?_, ?_⟩
  · rw [silent] at member
    cases member
  · rintro call ⟨⟩ _
    exact loop.forwarded_iterationCall readable item index

def LoopStart.iterated (settings : Settings) (names : Names) (loop : LoopStart)
    (defined : List String) : List String :=
  (loop.head settings names).bound ++ ((loop.setup settings names).map Prod.fst ++ defined)

theorem LoopStart.bound_head (settings : Settings) (names : Names) (loop : LoopStart) :
    (loop.head settings names).bound =
      match loop.loopValue with
      | .list _ => [Registry.loopItem, Registry.loopIndex]
      | .count _ => [Registry.loopItem] := by
  rw [head]
  cases loop.loopValue <;> rfl

theorem LoopStart.readable_iterated (reserving : Reserving placeholder) (proper : names.Proper)
    {registry : Registry} (readable : registry.Readable placeholder defined)
    (settings : Settings) (loop : LoopStart) :
    registry.Readable placeholder (loop.iterated settings names defined) := by
  refine readable.mono (fun _ known => List.mem_append_right _ (List.mem_append_right _ known))
    fun name member => ?_
  rcases List.mem_append.mp member with bound | member
  · right
    intro value
    rw [bound_head] at bound
    cases source : loop.loopValue with
    | list expression =>
        rw [source] at bound
        rcases List.mem_pair.mp bound with equal | equal
        · exact equal ▸ reserving.loopItem value
        · exact equal ▸ reserving.loopIndex value
    | count number =>
        rw [source] at bound
        exact List.mem_singleton.mp bound ▸ reserving.loopItem value
  · rcases List.mem_append.mp member with written | known
    · rw [← writes_steps settings names registry] at written
      rcases owns_of_mem_writes written with ⟨suffix, wordy, equal⟩
      exact .inr fun value => equal ▸ reserving.step names suffix value proper wordy
    · exact .inl known

theorem LoopStart.soundAt_guard (proper : names.Proper)
    (index : Registry.loopIndex ∈ defined) (limit : limitVariable names ∈ defined)
    {rest : List Step} (others : SoundAt placeholder defined rest) :
    SoundAt placeholder defined (guardStep names :: rest) := by
  refine soundAt_switch ?_ ?_ ?_ others
  · intro branch member value condition read reads
    rw [List.mem_singleton.mp member] at condition
    cases condition
    rw [variablesOf_guard proper] at reads
    rcases List.mem_pair.mp reads with equal | equal
    · exact equal ▸ index
    · exact equal ▸ limit
  · intro branch member value counter
    rw [List.mem_singleton.mp member] at counter
    cases counter
  · intro branch member
    rw [List.mem_singleton.mp member]
    exact soundAt_nil

theorem LoopStart.soundAt_iteration (reserving : Reserving placeholder) (proper : names.Proper)
    {registry : Registry} (readable : registry.Readable placeholder defined)
    (settings : Settings) (loop : LoopStart) :
    SoundAt placeholder (loop.iterated settings names defined)
      (loop.iteration names registry) := by
  have bodyReadable := loop.readable_iterated reserving proper readable settings
  have limit : limitVariable names ∈ loop.iterated settings names defined :=
    List.mem_append_right _ (List.mem_append_left _ List.mem_cons_self)
  have item : Registry.loopItem ∈ loop.iterated settings names defined := by
    refine List.mem_append_left _ ?_
    rw [bound_head]
    cases loop.loopValue <;> exact List.mem_cons_self
  have index : ∀ expression, loop.loopValue = .list expression →
      Registry.loopIndex ∈ loop.iterated settings names defined := by
    intro expression value
    refine List.mem_append_left _ ?_
    rw [bound_head, value]
    exact List.mem_cons_of_mem _ List.mem_cons_self
  have body : SoundAt placeholder (loop.iterated settings names defined)
      [loop.bodyCall names registry] :=
    soundAt_cons (loop.sound_iterationCall proper bodyReadable item index)
      (by simp [bodyCall, innerSites]) soundAt_nil
  rw [iteration]
  cases value : loop.loopValue with
  | list expression => exact soundAt_guard proper (index expression value) limit body
  | count number => exact body

theorem LoopStart.soundAt_steps (reserving : Reserving placeholder) (proper : names.Proper)
    {registry : Registry} (readable : registry.Readable placeholder defined)
    (settings : Settings) (loop : LoopStart) :
    SoundAt placeholder defined (loop.steps settings names registry) := by
  refine soundAt_cons (sound_of_silent rfl (by rintro call ⟨⟩)) (by simp [innerSites]) ?_
  refine soundAt_cons ⟨fun value member read reads => ?_, by rintro call ⟨⟩⟩
    (loop.soundAt_iteration reserving proper readable settings) soundAt_nil
  have list : IsVariable (listVariable names) :=
    names.isVariable_step proper (by decide) (by decide)
  refine List.mem_append_left _ ?_
  rw [expressions, head] at member
  rw [writes, setup]
  cases source : loop.loopValue with
  | list expression =>
      rw [source] at member
      rw [List.mem_singleton.mp member, list.variablesOf, List.mem_singleton] at reads
      rw [reads]
      exact List.mem_cons_of_mem _ List.mem_cons_self
  | count number =>
      rw [source] at member
      cases member

/-! ## Walks -/

namespace Walk

theorem variablesOf_terminalValue (scope : Scope) : variablesOf scope.terminalValue = [] := by
  rw [Scope.terminalValue]
  cases scope.insideLoop <;> rfl

theorem readable_afterAction (reserving : Reserving placeholder) (proper : names.Proper)
    {scope : Scope} (readable : scope.registry.Readable placeholder defined)
    (settings : Settings) (act : Action) :
    (scope.afterAction names act).registry.Readable placeholder
      (definedAfter defined
        (act.steps settings names scope.registry ++ act.binding names)) := by
  have fresh : ∀ name ∈ definedAfter defined
      (act.steps settings names scope.registry ++ act.binding names),
        name ∈ defined ∨ name = names.result ∨ ∀ value, ¬ placeholder name value :=
    fresh_of_owns reserving proper fun name member => Action.owns_of_mem_writes member
  cases act with
  | delay pause => exact readable.mono (subset_definedAfter _) fun name known => .inl known
  | message | saveFields | saveVariable | apiCall | webhook | alert | utility =>
      exact readable.bindVariable (subset_definedAfter _) List.mem_cons_self fresh

/-- The sites of a walk are sound where the registry of its scope is readable. -/
theorem soundAt_steps (reserving : Reserving placeholder) (settings : Settings) :
    ∀ (walk : Walk Visit) {scope : Scope} {defined : List String}, walk.Proper →
      scope.registry.Readable placeholder defined → Registry.apiBase ∈ defined →
        SoundAt placeholder defined (walk.steps settings scope)
  | .done, _, _, _, _, _ => soundAt_nil
  | .terminal visit, scope, defined, _, _, _ => by
      refine soundAt_cons ⟨fun value member read reads => ?_, by rintro call ⟨⟩⟩
        (by simp [innerSites]) soundAt_nil
      rw [List.mem_singleton.mp member, variablesOf_terminalValue] at reads
      cases reads
  | .action visit act next, scope, defined, proper, readable, base => by
      refine SoundAt.block (SoundAt.append ?_ ?_) _
      · exact act.soundAt_steps settings visit.names scope.registry base readable.state
      · exact soundAt_steps reserving settings next proper.next_action
          (readable_afterAction reserving proper.names readable settings act)
          (subset_definedAfter _ base)
  | .fork visit choice exits, scope, defined, proper, readable, base =>
      (choice.soundAt_steps reserving (proper.names_of_mem List.mem_cons_self) readable base
        settings _).block _
  | .subflow visit called exits next, scope, defined, proper, readable, base => by
      have names := proper.names_of_mem List.mem_cons_self
      refine SoundAt.block (SoundAt.append ?_ ?_) _
      · exact called.soundAt_steps reserving names readable base settings _
      · refine soundAt_steps reserving settings next proper.next_subflow ?_
          (subset_definedAfter _ base)
        refine readable.bindVariable (subset_definedAfter _) ?_ ?_
        · rw [mem_definedAfter, Subflow.writes_steps]
          exact .inr (by simp)
        · exact fresh_of_owns reserving names fun name member => Subflow.owns_of_mem_writes member
  | .loop visit start body next, scope, defined, proper, readable, base => by
      have names := proper.names_of_mem List.mem_cons_self
      refine SoundAt.block (SoundAt.append ?_ ?_) _
      · exact start.soundAt_steps reserving names readable settings
      · refine soundAt_steps reserving settings next proper.next_loop ?_
          (subset_definedAfter _ base)
        refine readable.mono (subset_definedAfter _) fun name member => ?_
        rcases mem_definedAfter.mp member with known | written
        · exact .inl known
        · rcases LoopStart.owns_of_mem_writes written with ⟨suffix, wordy, equal⟩
          exact .inr fun value => equal ▸ reserving.step visit.names suffix value names wordy

end Walk

end FlowCompiler
