import FlowCompiler.Proofs.VisitSites

namespace FlowCompiler

/-! The sites of subflows are sound. The counter of polls is set in front of the loop through the
requests for the state, and the result only behind it. -/

open Expression Lowering Step

variable {placeholder : String → Json → Prop} {defined : List String} {names : Names}

theorem Subflow.soundAt_abortSteps (proper : names.Proper)
    {registry : Registry} (readable : registry.Readable placeholder defined)
    (base : Registry.apiBase ∈ defined) (started : Subflow.started names ∈ defined)
    (polls : Subflow.polls names ∈ defined) (settings : Settings) (subflow : Subflow)
    (exits : List Exit) (abort : Abort) :
    SoundAt placeholder defined (subflow.abortSteps settings names registry exits abort) := by
  cases exits with
  | nil =>
      refine soundAt_cons ⟨fun value member read reads => ?_, ?_⟩ (by simp [innerSites])
        soundAt_nil
      · rcases List.mem_pair.mp member with equal | equal
        · rw [equal, variablesOf_execution proper, List.mem_singleton] at reads
          exact reads ▸ started
        · rw [equal, (isVariable_polls proper).variablesOf, List.mem_singleton] at reads
          exact reads ▸ polls
      · rintro call ⟨⟩
  | cons exit rest =>
      have outcome : IsVariable (names.step "outcome") :=
        names.isVariable_step proper (by decide) (by decide)
      refine soundAt_cons (sound_dispatch proper readable _ exit.slug)
        (by simp [dispatch, innerSites]) ?_
      refine soundAt_cons ((basic_post _ _ _ _ _).sound (List.mem_append_right _ base)
        (List.mem_append_right _ readable.state)) (by simp [clearSession, post, innerSites]) ?_
      refine soundAt_cons ⟨fun value member read reads => ?_, ?_⟩ (by simp [innerSites])
        soundAt_nil
      · rw [List.mem_singleton.mp member, outcome.variablesOf, List.mem_singleton] at reads
        rw [reads]
        exact List.mem_append_right _ (List.mem_append_left _ List.mem_cons_self)
      · rintro call ⟨⟩

/-- A request for the state of a subflow reads the base address and the response to its start. -/
theorem Subflow.sound_document (proper : names.Proper) (base : Registry.apiBase ∈ defined)
    (started : Subflow.started names ∈ defined) {name : String} {call : Call}
    (primitive : Primitive.isPrimitive call.target)
    (evaluated : (Step.call name call).expressions = [document names]) :
    (⟨defined, .call name call⟩ : Site).Sound placeholder := by
  refine ⟨fun value member read reads => ?_, ?_⟩
  · rw [evaluated] at member
    rw [List.mem_singleton.mp member, variablesOf_document proper] at reads
    rcases List.mem_pair.mp reads with equal | equal
    · exact equal ▸ base
    · exact equal ▸ started
  · rintro other ⟨⟩ generated
    rw [primitive] at generated
    cases generated

def Subflow.startSteps (settings : Settings) (names : Names) (registry : Registry)
    (subflow : Subflow) : List Step := [
  .call (names.step "read_caller") {
    target := Primitive.getEnv
    args := .ofList [("name", .string settings.executionIdEnv)]
    result := some (names.step "caller")
    retry := none },
  post settings (names.step "start") "/v1/subflows/start"
    (.object [
      ("branch_id", registry.reference Registry.branchId),
      ("flow_id", .string subflow.subflowId),
      ("program", .string (subflow.subflowName.getD subflow.subflowId)),
      ("caller_execution_id", ofVariable (names.step "caller")),
      ("args", .object registry.callArgs.entries)])
    (some (started names)),
  .assign (names.step "poll_init") [(polls names, .ofUInt64 0)],
  .call (names.step "poll") {
    target := Primitive.httpGet
    args := .ofList [("url", document names)]
    result := some (names.step "status")
    retry := some settings.httpRetry }]

def Subflow.settledSteps (settings : Settings) (names : Names) : List Step := [
  .assign (names.step "collect")
    [(names.result, evaluate ("json.decode(" ++ names.step "status" ++ ".body.result)"))],
  .call (names.step "release") {
    target := Primitive.httpDelete
    args := .ofList [("url", document names)]
    result := none
    retry := some settings.httpRetry },
  clearSession settings (names.step "clear_session")]

theorem Subflow.steps_eq (settings : Settings) (names : Names) (registry : Registry)
    (subflow : Subflow) (exits : List Exit) :
    subflow.steps settings names registry exits =
      subflow.startSteps settings names registry ++
        .switch (names.step "check") (subflow.checkCases settings names registry exits) ::
          settledSteps settings names := rfl

def Subflow.checked (names : Names) (defined : List String) : List String :=
  names.step "status" :: polls names :: started names :: names.step "caller" :: defined

theorem Subflow.definedAfter_startSteps (settings : Settings) (names : Names)
    (registry : Registry) (subflow : Subflow) :
    definedAfter defined (subflow.startSteps settings names registry) =
      checked names defined := rfl

theorem Subflow.subset_checked (names : Names) : defined ⊆ checked names defined :=
  fun _ member => List.mem_append_right [_, _, _, _] member

theorem Subflow.soundAt_startSteps (proper : names.Proper) {registry : Registry}
    (state : Registry.state ∈ defined) (base : Registry.apiBase ∈ defined) (settings : Settings)
    (subflow : Subflow) :
    SoundAt placeholder defined (subflow.startSteps settings names registry) := by
  refine soundAt_cons (sound_of_silent rfl ?_) (by simp [innerSites]) ?_
  · rintro call ⟨⟩
    exact Primitive.isPrimitive_getEnv
  refine soundAt_cons ((basic_post _ _ _ _ _).sound (List.mem_append_right _ base)
    (List.mem_append_right _ state)) (by simp [post, innerSites]) ?_
  refine soundAt_cons (sound_of_silent rfl (by rintro call ⟨⟩)) (by simp [innerSites]) ?_
  refine soundAt_cons (sound_document proper ?_ ?_ Primitive.isPrimitive_httpGet rfl)
    (by simp [innerSites]) soundAt_nil
  · exact List.mem_append_right [_, _, _] base
  · exact List.mem_cons_of_mem _ List.mem_cons_self

theorem Subflow.soundAt_settledSteps (proper : names.Proper) (state : Registry.state ∈ defined)
    (base : Registry.apiBase ∈ defined) (started : Subflow.started names ∈ defined)
    (settings : Settings) : SoundAt placeholder defined (settledSteps settings names) := by
  refine soundAt_cons (sound_of_silent rfl (by rintro call ⟨⟩)) (by simp [innerSites]) ?_
  refine soundAt_cons (sound_document proper (List.mem_append_right _ base)
    (List.mem_append_right _ started) Primitive.isPrimitive_httpDelete rfl)
    (by simp [innerSites]) ?_
  exact soundAt_cons ((basic_post _ _ _ _ _).sound (List.mem_append_right [_] base)
    (List.mem_append_right [_] state)) (by simp [clearSession, post, innerSites]) soundAt_nil

theorem Subflow.assigned_abortSteps (settings : Settings) (names : Names) (registry : Registry)
    (subflow : Subflow) (exits : List Exit) (abort : Abort) :
    (subflow.abortSteps settings names registry exits abort).flatMap assigned = [] := by
  cases exits <;> rfl

theorem Subflow.soundAt_check (proper : names.Proper) {registry : Registry}
    (readable : registry.Readable placeholder defined) (base : Registry.apiBase ∈ defined)
    (started : Subflow.started names ∈ defined) (polls : Subflow.polls names ∈ defined)
    (status : names.step "status" ∈ defined) (settings : Settings) (subflow : Subflow)
    (exits : List Exit) (name : String) {rest : List Step}
    (others : SoundAt placeholder defined rest) :
    SoundAt placeholder defined
      (.switch name (subflow.checkCases settings names registry exits) :: rest) := by
  refine soundAt_switch ?_ ?_ ?_ others
  · intro branch member value condition read reads
    simp only [checkCases, List.mem_cons, List.not_mem_nil, or_false] at member
    rcases member with rfl | rfl | rfl | rfl
    · cases condition
      rw [variablesOf_settled proper, List.mem_singleton] at reads
      exact reads ▸ status
    · cases condition
      rw [variablesOf_settled proper, List.mem_singleton] at reads
      exact reads ▸ status
    · cases condition
      rw [variablesOf_exhausted proper, List.mem_singleton] at reads
      exact reads ▸ polls
    · cases condition
  · intro branch member value counter read reads
    simp only [checkCases, List.mem_cons, List.not_mem_nil, or_false] at member
    rcases member with rfl | rfl | rfl | rfl
    · cases counter
    · rw [Case.steps, assigned_abortSteps] at counter
      cases counter
    · rw [Case.steps, assigned_abortSteps] at counter
      cases counter
    · rw [List.mem_singleton.mp counter, variablesOf_increment (isVariable_polls proper),
        List.mem_singleton] at reads
      exact reads ▸ polls
  · intro branch member
    simp only [checkCases, List.mem_cons, List.not_mem_nil, or_false] at member
    rcases member with rfl | rfl | rfl | rfl
    · exact soundAt_nil
    · exact soundAt_abortSteps proper readable base started polls settings subflow exits .failed
    · exact soundAt_abortSteps proper readable base started polls settings subflow exits .timedOut
    · refine soundAt_cons (sound_of_silent rfl (by rintro call ⟨⟩)) (by simp [innerSites]) ?_
      refine soundAt_cons (sound_of_silent rfl ?_) (by simp [innerSites]) soundAt_nil
      rintro call ⟨⟩
      exact Primitive.isPrimitive_sleep

theorem Subflow.soundAt_steps (reserving : Reserving placeholder) (proper : names.Proper)
    {registry : Registry} (readable : registry.Readable placeholder defined)
    (base : Registry.apiBase ∈ defined) (settings : Settings) (subflow : Subflow)
    (exits : List Exit) :
    SoundAt placeholder defined (subflow.steps settings names registry exits) := by
  have checkedReadable : registry.Readable placeholder (checked names defined) := by
    refine readable.mono (subset_checked names) fun name member => ?_
    have written : ∀ suffix, Text.Wordy suffix →
        name = names.step suffix → name ∈ defined ∨ ∀ value, ¬ placeholder name value := by
      intro suffix wordy equal
      exact .inr fun value => equal ▸ reserving.step names suffix value proper wordy
    rcases List.mem_append.mp (show name ∈ [_, _, _, _] ++ defined from member) with
      member | known
    · simp only [List.mem_cons, List.not_mem_nil, or_false] at member
      rcases member with equal | equal | equal | equal
      · exact written "status" (by decide) equal
      · exact written "polls" (by decide) equal
      · exact written "started" (by decide) equal
      · exact written "caller" (by decide) equal
    · exact .inl known
  have started : Subflow.started names ∈ checked names defined :=
    List.mem_append_right [_, _] List.mem_cons_self
  rw [steps_eq]
  refine (soundAt_startSteps proper readable.state base settings subflow).append ?_
  rw [definedAfter_startSteps]
  refine soundAt_check proper checkedReadable (subset_checked names base) started
    (List.mem_cons_of_mem _ List.mem_cons_self) List.mem_cons_self settings subflow exits _ ?_
  exact soundAt_settledSteps proper (subset_checked names readable.state)
    (subset_checked names base) started settings

/-- The variables that a subflow writes belong to its visit, and its result is one of them. -/
theorem Subflow.writes_steps (settings : Settings) (names : Names) (registry : Registry)
    (subflow : Subflow) (exits : List Exit) :
    (subflow.steps settings names registry exits).flatMap writes =
      [names.step "caller", started names, polls names, names.step "status", names.result] := rfl

theorem Subflow.owns_of_mem_writes {settings : Settings} {registry : Registry}
    {subflow : Subflow} {exits : List Exit} {name : String}
    (member : name ∈ (subflow.steps settings names registry exits).flatMap writes) :
    names.Owns name := by
  rw [writes_steps] at member
  simp only [List.mem_cons, List.not_mem_nil, or_false] at member
  rcases member with rfl | rfl | rfl | rfl | rfl
  · exact .step (by decide)
  · exact .step (by decide)
  · exact .step (by decide)
  · exact .step (by decide)
  · exact .result

end FlowCompiler
