import FlowCompiler.Proofs.ReadableScopes

namespace FlowCompiler

/-! The sites of actions and forks are sound: what the steps of a visit read is defined in front of
them, if the registry of its scope is readable there. -/

open Expression Lowering Step

variable {placeholder : String → Json → Prop} {defined : List String} {names : Names}

/-! ## Actions -/

theorem Action.isPlain_steps (settings : Settings) (names : Names) (registry : Registry)
    (action : Action) :
    (action.steps settings names registry ++ action.binding names).all isPlain := by
  cases action <;> rfl

theorem Step.basic_await {name : String} {call : Call}
    (target : call.target = Primitive.awaitCallback) {value : Json}
    (correlation : call.args.get? "correlation_id" = some value)
    (reads : variablesOf value = [Registry.state]) : (Step.call name call).Basic := by
  refine ⟨?_, fun other member variable_ read => ?_⟩
  · rintro invocation ⟨⟩
    rw [target]
    exact Primitive.isPrimitive_awaitCallback
  · have keys : Primitive.evaluatedKeys call.target = ["correlation_id"] := by
      rw [target]
      decide
    rw [expressions, keys, List.filterMap_cons, correlation] at member
    rw [List.mem_singleton.mp member, reads, List.mem_singleton] at read
    exact .inr read

theorem Action.basic_of_mem {settings : Settings} {registry : Registry} {action : Action}
    {step : Step} (member : step ∈ action.steps settings names registry ++ action.binding names) :
    step.Basic := by
  have primitive : ∀ call ∈ step.call?, Primitive.isPrimitive call.target := by
    intro call called
    exact isPrimitive_of_mem (List.mem_filterMap.mpr ⟨step, subset_flattenSteps _ member, called⟩)
  cases action with
  | delay pause =>
      rw [List.mem_singleton.mp member] at primitive ⊢
      exact basic_of_silent rfl primitive
  | apiCall request =>
      rcases List.mem_pair.mp member with equal | equal
      · rw [equal] at primitive ⊢
        exact basic_of_silent rfl primitive
      · rw [equal]
        exact basic_assign _ _
  | webhook hook =>
      rcases List.mem_pair.mp member with equal | equal
      · rw [equal]
        refine basic_await rfl rfl ?_
        have front : ∀ rest, variablesFrom .gap ("tg.session_id + ".toList ++ rest) =
            Registry.state :: variablesFrom .gap rest := fun _ => rfl
        rw [variablesOf_evaluate, variablesIn, String.toList_append,
          ← List.append_nil (literal _).toList, front, variablesFrom_literal]
        rfl
      · rw [equal]
        exact basic_assign _ _
  | message | saveFields | saveVariable | alert | utility =>
      rcases List.mem_pair.mp member with equal | equal
      · rw [equal]
        exact basic_post _ _ _ _ _
      · rw [equal]
        exact basic_assign _ _

theorem Action.soundAt_steps (settings : Settings) (names : Names) (registry : Registry)
    (action : Action) (base : Registry.apiBase ∈ defined) (state : Registry.state ∈ defined) :
    SoundAt placeholder defined
      (action.steps settings names registry ++ action.binding names) :=
  soundAt_of_basic (action.isPlain_steps settings names registry)
    (fun _ member => basic_of_mem member) base state

theorem Action.owns_of_mem_writes {settings : Settings} {registry : Registry} {action : Action}
    {name : String}
    (member : name ∈
      (action.steps settings names registry ++ action.binding names).flatMap writes) :
    names.Owns name := by
  have written : (action.steps settings names registry ++ action.binding names).flatMap writes =
      [] ∨ ∃ suffix, Text.Wordy suffix ∧
        (action.steps settings names registry ++ action.binding names).flatMap writes =
          [names.step suffix, names.result] := by
    cases action with
    | delay => exact .inl rfl
    | webhook => exact .inr ⟨"event", by decide, rfl⟩
    | message | saveFields | saveVariable | apiCall | alert | utility =>
        exact .inr ⟨"response", by decide, rfl⟩
  rcases written with none | ⟨suffix, wordy, equal⟩
  · rw [none] at member
    cases member
  · rw [equal] at member
    rcases List.mem_pair.mp member with equal | equal
    · exact equal ▸ .step wordy
    · exact equal ▸ .result

/-! ## Dispatches -/

theorem Primitive.evaluatedKeys_routine (proper : names.Proper) (slug : String) :
    evaluatedKeys (names.routine slug) = [] := by
  have other : ∀ target, Text.Wordy target → names.routine slug ≠ target :=
    fun target wordy equal => names.not_wordy_routine proper slug (equal ▸ wordy)
  rw [evaluatedKeys, if_neg, if_neg (other _ (by decide)), if_neg (other _ (by decide))]
  intro member
  have wordy : ∀ target ∈ [httpGet, httpPost, httpDelete], Text.Wordy target := by decide
  exact other _ (wordy _ member) rfl

theorem sound_dispatch (proper : names.Proper) {registry : Registry}
    (readable : registry.Readable placeholder defined) (name slug : String) :
    (⟨defined, dispatch name (names.routine slug) names registry⟩ : Site).Sound placeholder := by
  have silent : (dispatch name (names.routine slug) names registry).expressions = [] := by
    rw [dispatch_eq, expressions, dispatchCall, Primitive.evaluatedKeys_routine proper]
    rfl
  refine ⟨fun value member => ?_, ?_⟩
  · rw [silent] at member
    cases member
  · rintro call ⟨⟩ _
    exact readable.callArgs

/-! ## Forks -/

theorem Fork.basic_of_mem_opening {settings : Settings} {registry : Registry} {fork : Fork}
    {step : Step} (member : step ∈ fork.openingSteps settings names registry) : step.Basic := by
  have prompt : ∀ fork : Fork, step ∈ fork.promptSteps settings names registry → step.Basic := by
    intro fork member
    rw [promptSteps] at member
    rcases List.mem_append.mp member with member | member
    · cases again : fork.asksAgain with
      | true =>
          rw [again] at member
          rw [List.mem_singleton.mp member]
          exact basic_assign _ _
      | false =>
          rw [again] at member
          cases member
    · rcases List.mem_pair.mp member with equal | equal
      · rw [equal]
        exact basic_post _ _ _ _ _
      · rw [equal]
        exact basic_await rfl rfl rfl
  cases fork with
  | split | branch =>
      rcases List.mem_pair.mp member with equal | equal
      · rw [equal]
        exact basic_post _ _ _ _ _
      · rw [equal]
        exact basic_assign _ _
  | text | buttons | list => exact prompt _ member

/-- Behind its opening steps, a fork has written nothing but names of its visit, the result and
the number of attempts among them. -/
theorem Fork.writes_openingSteps (settings : Settings) (names : Names) (registry : Registry)
    (fork : Fork) :
    (fork.openingSteps settings names registry).flatMap writes =
      match fork with
      | .split _ | .branch _ => [names.step "response", names.result]
      | prompt => (if prompt.asksAgain then [attempts names] else []) ++
          [names.step "sent", names.result] := by
  have prompt : ∀ fork : Fork, (fork.promptSteps settings names registry).flatMap writes =
      (if fork.asksAgain then [attempts names] else []) ++ [names.step "sent", names.result] := by
    intro fork
    rw [promptSteps]
    cases fork.asksAgain <;> rfl
  cases fork with
  | split | branch => rfl
  | text | buttons | list => exact prompt _

theorem Fork.result_mem_writes {settings : Settings} {names : Names} {registry : Registry}
    (fork : Fork) : names.result ∈ (fork.openingSteps settings names registry).flatMap writes := by
  rw [writes_openingSteps]
  cases fork <;> simp

theorem Fork.attempts_mem_writes {settings : Settings} {names : Names} {registry : Registry}
    {fork : Fork} (again : fork.asksAgain) :
    attempts names ∈ (fork.openingSteps settings names registry).flatMap writes := by
  rw [writes_openingSteps]
  cases fork with
  | split | branch => cases again
  | text | buttons | list => simp [again]

theorem Fork.owns_of_mem_writes {settings : Settings} {names : Names} {registry : Registry}
    {fork : Fork} {name : String}
    (member : name ∈ (fork.openingSteps settings names registry).flatMap writes) :
    names.Owns name := by
  have prompt : ∀ again : Bool, name ∈ (if again then [attempts names] else []) ++
      [names.step "sent", names.result] → names.Owns name := by
    intro again member
    rcases List.mem_append.mp member with member | member
    · cases again with
      | true =>
          rw [List.mem_singleton.mp member]
          exact .step (by decide)
      | false => cases member
    · rcases List.mem_pair.mp member with equal | equal
      · exact equal ▸ .step (by decide)
      · exact equal ▸ .result
  rw [writes_openingSteps] at member
  cases fork with
  | split | branch =>
      rcases List.mem_pair.mp member with equal | equal
      · exact equal ▸ .step (by decide)
      · exact equal ▸ .result
  | text | buttons | list => exact prompt _ member

theorem Step.mem_caseSites {site : Site} : ∀ {cases : List Case},
    site ∈ caseSites defined cases → ∃ branch ∈ cases, site ∈ sites defined branch.steps
  | .mk condition steps next :: rest, member => by
      rcases List.mem_append.mp member with member | member
      · exact ⟨_, List.mem_cons_self, member⟩
      · rcases mem_caseSites member with ⟨branch, among, inside⟩
        exact ⟨branch, List.mem_cons_of_mem _ among, inside⟩

/-- A switch is sound if what its cases test and count is defined, and their steps are sound. -/
theorem Step.soundAt_switch {name : String} {cases : List Case}
    (conditions : ∀ branch ∈ cases, ∀ value ∈ branch.condition, ∀ read ∈ variablesOf value,
      read ∈ defined)
    (counters : ∀ branch ∈ cases, ∀ value ∈ branch.steps.flatMap assigned,
      ∀ read ∈ variablesOf value, read ∈ defined)
    (inside : ∀ branch ∈ cases, SoundAt placeholder defined branch.steps)
    {rest : List Step} (others : SoundAt placeholder defined rest) :
    SoundAt placeholder defined (.switch name cases :: rest) := by
  refine soundAt_cons ⟨fun value member => ?_, ?_⟩ (fun site member => ?_) others
  · rcases List.mem_flatMap.mp member with ⟨branch, among, member⟩
    rcases List.mem_append.mp member with member | member
    · exact conditions branch among value (Option.mem_toList.mp member)
    · exact counters branch among value member
  · rintro call ⟨⟩
  · rcases mem_caseSites member with ⟨branch, among, within⟩
    exact inside branch among site within

theorem Fork.soundAt_choice (proper : names.Proper) {registry : Registry}
    (readable : registry.Readable placeholder defined) {fork : Fork}
    (result : names.result ∈ defined)
    (counted : fork.asksAgain → attempts names ∈ defined) (name : String) (exits : List Exit) :
    SoundAt placeholder defined [.switch name (fork.cases names registry exits)] := by
  refine soundAt_switch ?_ ?_ ?_ soundAt_nil
  · intro branch member value condition read reads
    rcases retries_or_exists_exit member with ⟨again, equal⟩ | ⟨exit, _, equal⟩
    · subst equal
      cases condition
      rw [variablesOf_retry proper] at reads
      rcases List.mem_pair.mp reads with equal | equal
      · exact equal ▸ result
      · exact equal ▸ counted again
    · subst equal
      rw [eq_result_of_mem_condition proper condition read reads]
      exact result
  · intro branch member value counter read reads
    rcases retries_or_exists_exit member with ⟨again, equal⟩ | ⟨exit, _, equal⟩
    · subst equal
      rw [List.mem_singleton.mp counter, variablesOf_increment (isVariable_attempts proper),
        List.mem_singleton] at reads
      exact reads ▸ counted again
    · subst equal
      cases counter
  · intro branch member
    rcases retries_or_exists_exit member with ⟨again, equal⟩ | ⟨exit, _, equal⟩
    · subst equal
      refine soundAt_cons (sound_of_silent rfl ?_) (by simp [innerSites]) soundAt_nil
      rintro call ⟨⟩
    · subst equal
      exact soundAt_cons (sound_dispatch proper readable _ exit.slug)
        (by simp [dispatch, innerSites]) soundAt_nil

/-- Behind steps that write names of one visit, no name but its result may be one that a
placeholder stood for. -/
theorem fresh_of_owns (reserving : Reserving placeholder) (proper : names.Proper)
    {steps : List Step} (owned : ∀ name ∈ steps.flatMap writes, names.Owns name) :
    ∀ name ∈ definedAfter defined steps,
      name ∈ defined ∨ name = names.result ∨ ∀ value, ¬ placeholder name value := by
  intro name member
  rcases mem_definedAfter.mp member with known | written
  · exact .inl known
  · cases owned name written with
    | result => exact .inr (.inl rfl)
    | step wordy => exact .inr (.inr fun value => reserving.step names _ value proper wordy)

theorem Fork.soundAt_steps (reserving : Reserving placeholder) (proper : names.Proper)
    {registry : Registry} (readable : registry.Readable placeholder defined)
    (base : Registry.apiBase ∈ defined) (settings : Settings) (fork : Fork) (exits : List Exit) :
    SoundAt placeholder defined (fork.steps settings names registry exits) := by
  rw [steps]
  refine (soundAt_of_basic (fork.isPlain_openingSteps settings names registry)
    (fun step member => basic_of_mem_opening member) base readable.state).append ?_
  have result : names.result ∈
      definedAfter defined (fork.openingSteps settings names registry) :=
    mem_definedAfter.mpr (.inr fork.result_mem_writes)
  refine soundAt_choice proper ?_ result
    (fun again => mem_definedAfter.mpr (.inr (attempts_mem_writes again))) _ exits
  exact readable.bindVariable (subset_definedAfter _) result
    (fresh_of_owns reserving proper fun name member => owns_of_mem_writes member)

end FlowCompiler
