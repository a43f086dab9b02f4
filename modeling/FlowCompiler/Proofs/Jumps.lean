import FlowCompiler.Lowering.Emission
import FlowCompiler.Program.Verify
import FlowCompiler.Proofs.StepNames

namespace FlowCompiler

/-! The jumps of switches. In the steps of a walk every jump leads to a step of the list in which
the switch itself stands, except that an iteration is left by a switch in the list of its loop. -/

structure StepList where
  /-- Whether these are the steps of a loop. -/
  iterated : Bool
  steps : List Step

/-- A `break` leaves a loop whose own list holds the switch, and every other jump leads to a step
of the same list. -/
def StepList.JumpsInside (list : StepList) : Prop :=
  ∀ step ∈ list.steps, ∀ target ∈ step.jumps,
    (target = "break" → list.iterated) ∧
      (target ≠ "break" → target ∈ list.steps.map Step.name)

namespace Step

/-! ## Nested lists -/

mutual
def innerLists : Step → List StepList
  | .block _ steps => ⟨false, steps⟩ :: listsWithin steps
  | .switch _ cases => caseLists cases
  | .loop _ _ steps => ⟨true, steps⟩ :: listsWithin steps
  | .call .. | .assign .. | .raise .. | .return .. => []

def listsWithin : List Step → List StepList
  | [] => []
  | step :: rest => innerLists step ++ listsWithin rest

def caseLists : List Case → List StepList
  | [] => []
  | .mk _ steps _ :: rest => ⟨false, steps⟩ :: (listsWithin steps ++ caseLists rest)
end

def allLists (steps : List Step) : List StepList :=
  ⟨false, steps⟩ :: listsWithin steps

theorem listsWithin_append (left right : List Step) :
    listsWithin (left ++ right) = listsWithin left ++ listsWithin right := by
  induction left with
  | nil => simp [listsWithin]
  | cons step rest induction => simp [listsWithin, induction]

mutual
/-- Every step nested in a step stands in one of the nested lists. -/
theorem mem_list_of_mem_flatten : ∀ (outer : Step) {step : Step}, step ∈ flatten outer →
    step = outer ∨ ∃ list ∈ innerLists outer, step ∈ list.steps
  | .block name steps, step, member => by
      rcases List.mem_cons.mp member with equal | member
      · exact .inl equal
      · exact .inr (mem_list_of_mem_flattenSteps false steps member)
  | .switch name cases, step, member => by
      rcases List.mem_cons.mp member with equal | member
      · exact .inl equal
      · exact .inr (mem_list_of_mem_flattenCases cases member)
  | .loop name head steps, step, member => by
      rcases List.mem_cons.mp member with equal | member
      · exact .inl equal
      · exact .inr (mem_list_of_mem_flattenSteps true steps member)
  | .call .., _, member => .inl (List.mem_singleton.mp member)
  | .assign .., _, member => .inl (List.mem_singleton.mp member)
  | .raise .., _, member => .inl (List.mem_singleton.mp member)
  | .return .., _, member => .inl (List.mem_singleton.mp member)

theorem mem_list_of_mem_flattenSteps (iterated : Bool) :
    ∀ (steps : List Step) {step : Step}, step ∈ flattenSteps steps →
      ∃ list ∈ (⟨iterated, steps⟩ :: listsWithin steps : List StepList), step ∈ list.steps
  | [], _, member => by cases member
  | first :: rest, step, member => by
      rcases List.mem_append.mp member with member | member
      · rcases mem_list_of_mem_flatten first member with equal | ⟨list, inner, among⟩
        · exact ⟨⟨iterated, first :: rest⟩, List.mem_cons_self, equal ▸ List.mem_cons_self⟩
        · exact ⟨list, List.mem_cons_of_mem _ (List.mem_append_left _ inner), among⟩
      · rcases mem_list_of_mem_flattenSteps iterated rest member with ⟨list, inner, among⟩
        rcases List.mem_cons.mp inner with equal | inner
        · subst equal
          exact ⟨⟨iterated, first :: rest⟩, List.mem_cons_self, List.mem_cons_of_mem _ among⟩
        · exact ⟨list, List.mem_cons_of_mem _ (List.mem_append_right _ inner), among⟩

theorem mem_list_of_mem_flattenCases : ∀ (cases : List Case) {step : Step},
    step ∈ flattenCases cases → ∃ list ∈ caseLists cases, step ∈ list.steps
  | [], _, member => by cases member
  | .mk condition steps next :: rest, step, member => by
      rcases List.mem_append.mp member with member | member
      · rcases mem_list_of_mem_flattenSteps false steps member with ⟨list, inner, among⟩
        rcases List.mem_cons.mp inner with equal | inner
        · exact ⟨list, equal ▸ List.mem_cons_self, among⟩
        · exact ⟨list, List.mem_cons_of_mem _ (List.mem_append_left _ inner), among⟩
      · rcases mem_list_of_mem_flattenCases rest member with ⟨list, inner, among⟩
        exact ⟨list, List.mem_cons_of_mem _ (List.mem_append_right _ inner), among⟩
end

theorem mem_caseLists_cons {condition : Option Json} {steps : List Step} {next : Option String}
    {rest : List Case} {list : StepList} :
    list ∈ caseLists (.mk condition steps next :: rest) ↔
      list ∈ (⟨false, steps⟩ :: listsWithin steps : List StepList) ∨ list ∈ caseLists rest := by
  rw [caseLists, List.mem_cons, List.mem_append, List.mem_cons, or_assoc]

/-- The steps of a case, and what is nested in them, are nested in its switch. -/
theorem caseLists_subset_of_mem {branch : Case} : ∀ {cases : List Case}, branch ∈ cases →
    (⟨false, branch.steps⟩ :: listsWithin branch.steps) ⊆ caseLists cases
  | .mk condition steps next :: rest, member => by
      rcases List.mem_cons.mp member with equal | member
      · rw [equal]
        exact List.cons_subset_cons _ (List.subset_append_left _ _)
      · exact List.subset_cons_of_subset _
          (List.subset_append_of_subset_right _ (caseLists_subset_of_mem member))

theorem innerLists_subset_of_mem {step : Step} : ∀ {list : List Step}, step ∈ list →
    innerLists step ⊆ listsWithin list
  | first :: rest, member => by
      rcases List.mem_cons.mp member with equal | member
      · exact equal ▸ List.subset_append_left _ _
      · exact List.subset_append_of_subset_right _ (innerLists_subset_of_mem member)

mutual
/-- The lists nested in a nested list are nested in the outer step. -/
theorem listsWithin_subset_innerLists : ∀ (outer : Step) {list : StepList},
    list ∈ innerLists outer → listsWithin list.steps ⊆ innerLists outer
  | .block _ steps, _, member =>
      List.subset_cons_of_subset _ (listsWithin_subset_of_mem false steps member)
  | .switch _ cases, _, member => listsWithin_subset_caseLists cases member
  | .loop _ _ steps, _, member =>
      List.subset_cons_of_subset _ (listsWithin_subset_of_mem true steps member)

theorem listsWithin_subset_of_mem (iterated : Bool) : ∀ (steps : List Step) {list : StepList},
    list ∈ (⟨iterated, steps⟩ :: listsWithin steps : List StepList) →
      listsWithin list.steps ⊆ listsWithin steps
  | [], _, member => by
      rw [List.mem_singleton.mp member]
      exact List.Subset.refl _
  | first :: rest, _, member => by
      rcases List.mem_cons.mp member with equal | member
      · exact equal ▸ List.Subset.refl _
      · rcases List.mem_append.mp member with member | member
        · exact List.subset_append_of_subset_left _ (listsWithin_subset_innerLists first member)
        · exact List.subset_append_of_subset_right _
            (listsWithin_subset_of_mem iterated rest (List.mem_cons_of_mem _ member))

theorem listsWithin_subset_caseLists : ∀ (cases : List Case) {list : StepList},
    list ∈ caseLists cases → listsWithin list.steps ⊆ caseLists cases
  | .mk _ steps _ :: rest, list, member => by
      rcases mem_caseLists_cons.mp member with member | member
      · exact List.subset_cons_of_subset _ (List.subset_append_of_subset_left _
          (listsWithin_subset_of_mem false steps member))
      · exact List.subset_cons_of_subset _ (List.subset_append_of_subset_right _
          (listsWithin_subset_caseLists rest member))
end

theorem mem_flatten_self (step : Step) : step ∈ flatten step := by
  cases step <;> exact List.mem_cons_self

theorem subset_flattenSteps : ∀ steps : List Step, steps ⊆ flattenSteps steps
  | [] => List.Subset.refl _
  | first :: rest => by
      intro step member
      rcases List.mem_cons.mp member with equal | member
      · exact List.mem_append_left _ (equal ▸ mem_flatten_self step)
      · exact List.mem_append_right _ (subset_flattenSteps rest member)

mutual
/-- The lists nested in a step hold none but steps that are nested in it. -/
theorem subset_flatten_of_mem : ∀ (outer : Step) {list : StepList}, list ∈ innerLists outer →
    list.steps ⊆ flatten outer
  | .block _ steps, _, member =>
      List.subset_cons_of_subset _ (subset_flattenSteps_of_mem false steps member)
  | .switch _ cases, _, member =>
      List.subset_cons_of_subset _ (subset_flattenCases_of_mem cases member)
  | .loop _ _ steps, _, member =>
      List.subset_cons_of_subset _ (subset_flattenSteps_of_mem true steps member)

theorem subset_flattenSteps_of_mem (iterated : Bool) : ∀ (steps : List Step) {list : StepList},
    list ∈ (⟨iterated, steps⟩ :: listsWithin steps : List StepList) →
      list.steps ⊆ flattenSteps steps
  | [], _, member => by
      rw [List.mem_singleton.mp member]
      exact List.Subset.refl _
  | first :: rest, _, member => by
      rcases List.mem_cons.mp member with equal | member
      · rw [equal]
        exact subset_flattenSteps (first :: rest)
      · rcases List.mem_append.mp member with member | member
        · exact List.subset_append_of_subset_left _ (subset_flatten_of_mem first member)
        · exact List.subset_append_of_subset_right _
            (subset_flattenSteps_of_mem iterated rest (List.mem_cons_of_mem _ member))

theorem subset_flattenCases_of_mem : ∀ (cases : List Case) {list : StepList},
    list ∈ caseLists cases → list.steps ⊆ flattenCases cases
  | .mk _ steps _ :: rest, list, member => by
      rcases mem_caseLists_cons.mp member with member | member
      · exact List.subset_append_of_subset_left _ (subset_flattenSteps_of_mem false steps member)
      · exact List.subset_append_of_subset_right _ (subset_flattenCases_of_mem rest member)
end

mutual
/-- What is nested in a nested step is nested in the outer one. -/
theorem flatten_sublist_of_mem : ∀ (outer : Step) {step : Step}, step ∈ flatten outer →
    (flatten step).Sublist (flatten outer)
  | .block _ steps, _, member => by
      rcases List.mem_cons.mp member with equal | member
      · exact equal ▸ List.Sublist.refl _
      · exact (flatten_sublist_of_mem_steps steps member).cons _
  | .switch _ cases, _, member => by
      rcases List.mem_cons.mp member with equal | member
      · exact equal ▸ List.Sublist.refl _
      · exact (flatten_sublist_of_mem_cases cases member).cons _
  | .loop _ _ steps, _, member => by
      rcases List.mem_cons.mp member with equal | member
      · exact equal ▸ List.Sublist.refl _
      · exact (flatten_sublist_of_mem_steps steps member).cons _
  | .call .., _, member => List.mem_singleton.mp member ▸ List.Sublist.refl _
  | .assign .., _, member => List.mem_singleton.mp member ▸ List.Sublist.refl _
  | .raise .., _, member => List.mem_singleton.mp member ▸ List.Sublist.refl _
  | .return .., _, member => List.mem_singleton.mp member ▸ List.Sublist.refl _

theorem flatten_sublist_of_mem_steps : ∀ (steps : List Step) {step : Step},
    step ∈ flattenSteps steps → (flatten step).Sublist (flattenSteps steps)
  | [], _, member => by cases member
  | first :: rest, _, member => by
      rcases List.mem_append.mp member with member | member
      · exact (flatten_sublist_of_mem first member).trans (List.sublist_append_left _ _)
      · exact (flatten_sublist_of_mem_steps rest member).trans (List.sublist_append_right _ _)

theorem flatten_sublist_of_mem_cases : ∀ (cases : List Case) {step : Step},
    step ∈ flattenCases cases → (flatten step).Sublist (flattenCases cases)
  | [], _, member => by cases member
  | .mk _ steps _ :: rest, _, member => by
      rcases List.mem_append.mp member with member | member
      · exact (flatten_sublist_of_mem_steps steps member).trans (List.sublist_append_left _ _)
      · exact (flatten_sublist_of_mem_cases rest member).trans (List.sublist_append_right _ _)
end

theorem flattenSteps_subset_of_case {branch : Case} : ∀ {cases : List Case},
    branch ∈ cases → flattenSteps branch.steps ⊆ flattenCases cases
  | .mk condition steps next :: rest, member => by
      rcases List.mem_cons.mp member with equal | member
      · rw [equal]
        exact List.subset_append_left _ _
      · exact List.subset_append_of_subset_right _ (flattenSteps_subset_of_case member)

@[simp] theorem flattenSteps_singleton (step : Step) : flattenSteps [step] = flatten step := by
  simp [flattenSteps]

theorem flatten_subset_flattenSteps {step : Step} : ∀ {steps : List Step}, step ∈ steps →
    flatten step ⊆ flattenSteps steps
  | first :: rest, member => by
      rcases List.mem_cons.mp member with equal | member
      · exact equal ▸ List.subset_append_left _ _
      · exact List.subset_append_of_subset_right _ (flatten_subset_flattenSteps member)

/-! ## Local jumps -/

def JumpsLocal (steps : List Step) : Prop :=
  ∀ list ∈ allLists steps, list.JumpsInside

def isPlain : Step → Bool
  | .call .. | .assign .. | .raise .. | .return .. => true
  | .switch .. | .block .. | .loop .. => false

theorem jumps_eq_nil_of_isPlain {step : Step} (plain : step.isPlain) : step.jumps = [] := by
  cases step <;> first | rfl | cases plain

theorem jumps_of_all_isPlain {steps : List Step} (plain : steps.all isPlain) :
    ∀ step ∈ steps, step.jumps = [] :=
  fun step member => jumps_eq_nil_of_isPlain (List.all_eq_true.mp plain step member)

theorem listsWithin_eq_nil_of_isPlain {steps : List Step} (plain : steps.all isPlain) :
    listsWithin steps = [] := by
  induction steps with
  | nil => rfl
  | cons step rest induction =>
      rw [List.all_cons, Bool.and_eq_true] at plain
      have none : innerLists step = [] := by
        cases step <;> first | rfl | cases plain.1
      rw [listsWithin, none, induction plain.2]
      rfl

theorem jumpsLocal_of_isPlain {steps : List Step} (plain : steps.all isPlain) :
    JumpsLocal steps := by
  intro list member step among target jump
  rw [allLists, listsWithin_eq_nil_of_isPlain plain, List.mem_singleton] at member
  subst member
  rw [jumps_eq_nil_of_isPlain (List.all_eq_true.mp plain step among)] at jump
  cases jump

theorem JumpsLocal.append {left right : List Step} (leftLocal : JumpsLocal left)
    (rightLocal : JumpsLocal right) : JumpsLocal (left ++ right) := by
  intro list member
  rw [allLists, listsWithin_append] at member
  rcases List.mem_cons.mp member with equal | member
  · subst equal
    intro step among target jump
    rw [List.map_append]
    rcases List.mem_append.mp among with among | among
    · have inside := leftLocal ⟨false, left⟩ List.mem_cons_self step among target jump
      exact ⟨inside.1, fun other => List.mem_append_left _ (inside.2 other)⟩
    · have inside := rightLocal ⟨false, right⟩ List.mem_cons_self step among target jump
      exact ⟨inside.1, fun other => List.mem_append_right _ (inside.2 other)⟩
  · rcases List.mem_append.mp member with member | member
    · exact leftLocal list (List.mem_cons_of_mem _ member)
    · exact rightLocal list (List.mem_cons_of_mem _ member)

theorem JumpsLocal.block {steps : List Step} (inside : JumpsLocal steps) (name : String) :
    JumpsLocal [.block name steps] := by
  intro list member
  simp only [allLists, listsWithin, innerLists, List.append_nil] at member
  rcases List.mem_cons.mp member with equal | member
  · subst equal
    intro step among target jump
    rw [List.mem_singleton.mp among] at jump
    cases jump
  · exact inside list member

/-- The jumps in a nested list, which are not those of an iteration, are local there. -/
theorem JumpsLocal.of_mem {list steps : List Step} {step : Step} (inside : JumpsLocal list)
    (member : step ∈ list) (nested : ⟨false, steps⟩ ∈ innerLists step) : JumpsLocal steps := by
  have subset := innerLists_subset_of_mem member
  intro inner among
  refine inside inner (List.mem_cons_of_mem _ ?_)
  rcases List.mem_cons.mp among with equal | among
  · exact equal ▸ subset nested
  · exact subset (listsWithin_subset_innerLists step nested among)

/-- A switch between plain steps, with plain steps in its cases. -/
theorem jumpsLocal_switch {front rest : List Step} {name : String} {cases : List Case}
    (frontPlain : front.all isPlain) (restPlain : rest.all isPlain)
    (casesPlain : ∀ branch ∈ cases, branch.steps.all isPlain)
    (targets : ∀ branch ∈ cases, ∀ target ∈ branch.next,
      target ≠ "break" ∧ target ∈ (front ++ rest).map Step.name) :
    JumpsLocal (front ++ [.switch name cases] ++ rest) := by
  have nested : ∀ list ∈ caseLists cases, list.steps.all isPlain := by
    clear targets
    induction cases with
    | nil => simp [caseLists]
    | cons first others induction =>
        rcases first with ⟨condition, steps, next⟩
        have plain : steps.all isPlain := casesPlain _ List.mem_cons_self
        intro list member
        rw [caseLists, listsWithin_eq_nil_of_isPlain plain, List.nil_append] at member
        rcases List.mem_cons.mp member with equal | member
        · rw [equal]
          exact plain
        · exact induction (fun branch among => casesPlain branch (List.mem_cons_of_mem _ among))
            list member
  intro list member
  simp only [allLists, listsWithin_append, listsWithin, listsWithin_eq_nil_of_isPlain frontPlain,
    listsWithin_eq_nil_of_isPlain restPlain, innerLists, List.append_nil, List.nil_append]
    at member
  intro step among target jump
  rcases List.mem_cons.mp member with equal | member
  · subst equal
    have plain : ∀ step ∈ front ++ rest, step.jumps = [] := by
      intro step among
      rcases List.mem_append.mp among with among | among
      · exact jumps_eq_nil_of_isPlain (List.all_eq_true.mp frontPlain step among)
      · exact jumps_eq_nil_of_isPlain (List.all_eq_true.mp restPlain step among)
    have own : step = .switch name cases ∨ step ∈ front ++ rest := by
      simp only [List.mem_append, List.mem_singleton] at among ⊢
      tauto
    rcases own with equal | other
    · subst equal
      rcases List.mem_filterMap.mp jump with ⟨branch, isCase, next⟩
      have inside := targets branch isCase target next
      refine ⟨fun equal => absurd equal inside.1, fun _ => ?_⟩
      have named := inside.2
      simp only [List.map_append, List.mem_append] at named ⊢
      tauto
    · rw [plain step other] at jump
      cases jump
  · rw [jumps_eq_nil_of_isPlain (List.all_eq_true.mp (nested list member) step among)] at jump
    cases jump

end Step

open Step

/-! ## Jumps of walks -/

theorem Names.step_ne_of_no_underscore (names : Names) (suffix : String) {name : String}
    (plain : '_' ∉ name.toList) : names.step suffix ≠ name := by
  intro equal
  refine plain (equal ▸ ?_)
  rw [step, String.toList_append, String.toList_append]
  exact List.mem_append_left _ (List.mem_append_right _ (by decide))

theorem Names.step_ne_break (names : Names) (suffix : String) : names.step suffix ≠ "break" :=
  names.step_ne_of_no_underscore suffix (by decide)

theorem Action.jumpsLocal_steps (settings : Settings) (names : Names) (registry : Registry)
    (action : Action) :
    JumpsLocal (action.steps settings names registry ++ action.binding names) := by
  apply jumpsLocal_of_isPlain
  cases action <;> rfl

theorem Fork.isPlain_openingSteps (settings : Settings) (names : Names) (registry : Registry)
    (fork : Fork) : (fork.openingSteps settings names registry).all isPlain := by
  have prompt : ∀ fork : Fork, (fork.promptSteps settings names registry).all isPlain := by
    intro fork
    rw [promptSteps]
    cases fork.asksAgain <;> rfl
  cases fork with
  | split | branch => rfl
  | text | buttons | list => exact prompt _

theorem Fork.send_mem_names {settings : Settings} {names : Names} {registry : Registry}
    {fork : Fork} (again : fork.asksAgain) :
    names.step "send" ∈ (fork.openingSteps settings names registry).map Step.name := by
  have prompt : ∀ fork : Fork, names.step "send" ∈
      (fork.promptSteps settings names registry).map Step.name := by
    intro fork
    rw [promptSteps, List.map_append]
    exact List.mem_append_right _ List.mem_cons_self
  cases fork with
  | split | branch => cases again
  | text | buttons | list => exact prompt _

theorem Fork.jumpsLocal_steps (settings : Settings) (names : Names) (registry : Registry)
    (fork : Fork) (exits : List Exit) :
    JumpsLocal (fork.steps settings names registry exits) := by
  have branches : ∀ branch ∈ fork.cases names (registry.bindVariable names.result) exits,
      branch.steps.all isPlain ∧
        (branch.next = none ∨ fork.asksAgain ∧ branch.next = some (names.step "send")) := by
    intro branch member
    rcases List.mem_flatMap.mp member with ⟨exit, _, member⟩
    rcases List.mem_append.mp member with member | member
    · by_cases again : fork.asksAgain ∧ exit.test = .otherwise
      · rw [if_pos again] at member
        rw [List.mem_singleton.mp member]
        exact ⟨rfl, .inr ⟨again.1, rfl⟩⟩
      · rw [if_neg again] at member
        cases member
    · rw [List.mem_singleton.mp member]
      exact ⟨rfl, .inl rfl⟩
  rw [steps, ← List.append_nil (_ ++ _)]
  refine jumpsLocal_switch (fork.isPlain_openingSteps settings names registry) rfl
    (fun branch member => (branches branch member).1) ?_
  intro branch member target jump
  rcases (branches branch member).2 with none | ⟨again, send⟩
  · rw [none] at jump
    cases jump
  · rw [send] at jump
    cases jump
    rw [List.append_nil]
    exact ⟨names.step_ne_break "send", fork.send_mem_names again⟩

theorem Subflow.isPlain_abortSteps {settings : Settings} {names : Names} {registry : Registry}
    {called : Subflow} {exits : List Exit} {abort : Abort} :
    (called.abortSteps settings names registry exits abort).all isPlain := by
  cases exits <;> rfl

theorem Subflow.isPlain_of_mem_checkCases {settings : Settings} {names : Names}
    {registry : Registry} {called : Subflow} {exits : List Exit} {branch : Case}
    (member : branch ∈ called.checkCases settings names registry exits) :
    branch.steps.all isPlain := by
  simp only [checkCases, List.mem_cons, List.not_mem_nil, or_false] at member
  rcases member with rfl | rfl | rfl | rfl
  · rfl
  · exact isPlain_abortSteps
  · exact isPlain_abortSteps
  · rfl

theorem Subflow.jumpsLocal_steps (settings : Settings) (names : Names) (registry : Registry)
    (subflow : Subflow) (exits : List Exit) :
    JumpsLocal (subflow.steps settings names registry exits) := by
  refine @jumpsLocal_switch [_, _, _, _] [_, _, _] _ _ rfl rfl
    (fun branch member => isPlain_of_mem_checkCases member) ?_
  intro branch member target jump
  simp only [checkCases, List.mem_cons, List.not_mem_nil, or_false] at member
  rcases member with rfl | rfl | rfl | rfl
  · cases jump
    exact ⟨names.step_ne_break _, by simp [Step.name]⟩
  · cases jump
  · cases jump
  · cases jump
    exact ⟨names.step_ne_break _, by simp [Step.name]⟩

theorem LoopStart.jumpsLocal_steps (settings : Settings) (names : Names) (registry : Registry)
    (loop : LoopStart) : JumpsLocal (loop.steps settings names registry) := by
  have lists : allLists (loop.steps settings names registry) =
      ⟨false, loop.steps settings names registry⟩ :: ⟨true, loop.iteration names registry⟩ ::
        listsWithin (loop.iteration names registry) := by
    simp [allLists, listsWithin, innerLists, steps]
  intro list member step among target jump
  rw [lists] at member
  rcases List.mem_cons.mp member with equal | member
  · subst equal
    rcases List.mem_pair.mp among with equal | equal <;>
    · subst equal
      cases jump
  · rw [iteration] at member
    cases value : loop.loopValue with
    | list expression =>
        simp only [value] at member
        rcases List.mem_pair.mp member with equal | equal
        · subst equal
          rcases List.mem_pair.mp among with equal | equal
          · subst equal
            rw [List.mem_singleton.mp jump]
            exact ⟨fun _ => rfl, fun other => absurd rfl other⟩
          · subst equal
            cases jump
        · subst equal
          cases among
    | count number =>
        simp only [value] at member
        rw [List.mem_singleton.mp member] at among
        rw [List.mem_singleton.mp among] at jump
        cases jump

namespace Walk

/-- All jumps in the steps of a walk are local. -/
theorem jumpsLocal_steps (settings : Settings) : ∀ (walk : Walk Visit) (scope : Scope),
    JumpsLocal (walk.steps settings scope)
  | .done, _ => jumpsLocal_of_isPlain rfl
  | .terminal _, _ => jumpsLocal_of_isPlain rfl
  | .action visit act next, scope =>
      ((act.jumpsLocal_steps settings visit.names scope.registry).append
        (jumpsLocal_steps settings next _)).block _
  | .fork visit choice exits, scope =>
      (choice.jumpsLocal_steps settings visit.names scope.registry (exits.map Prod.fst)).block _
  | .subflow visit called exits next, scope =>
      ((called.jumpsLocal_steps settings visit.names scope.registry (exits.map Prod.fst)).append
        (jumpsLocal_steps settings next _)).block _
  | .loop visit start _ next, scope =>
      ((start.jumpsLocal_steps settings visit.names scope.registry).append
        (jumpsLocal_steps settings next scope)).block _

end Walk

end FlowCompiler
