import FlowCompiler.Proofs.Frames

namespace FlowCompiler

/-! The counters of prompts and subflows. Among the steps that are emitted for a visit, only those
that count set them. -/

open Lowering Step

/-! ## Plain steps -/

namespace Step

theorem flattenSteps_eq_of_isPlain : ∀ {steps : List Step}, steps.all isPlain →
    flattenSteps steps = steps
  | [], _ => by simp [flattenSteps]
  | step :: rest, plain => by
      rw [List.all_cons, Bool.and_eq_true] at plain
      have own : flatten step = [step] := by
        cases step <;> first | rfl | cases plain.1
      rw [flattenSteps, own, flattenSteps_eq_of_isPlain plain.2]
      rfl

theorem isPlain_of_mem_flattenSteps {steps : List Step} {step : Step} (plain : steps.all isPlain)
    (inside : step ∈ flattenSteps steps) : step.isPlain := by
  rw [flattenSteps_eq_of_isPlain plain] at inside
  exact List.all_eq_true.mp plain step inside

def HasPlainCases (step : Step) : Prop :=
  ∀ branch ∈ step.cases, branch.steps.all isPlain

theorem isPlain_or_eq_of_mem_flattenSteps {front rest : List Step} {name : String}
    {cases : List Case} {step : Step} (frontPlain : front.all isPlain) (restPlain : rest.all isPlain)
    (casesPlain : HasPlainCases (.switch name cases))
    (inside : step ∈ flattenSteps (front ++ [.switch name cases] ++ rest)) :
    step.isPlain ∨ step = .switch name cases := by
  rw [flattenSteps_append, flattenSteps_append, flattenSteps_singleton] at inside
  rcases List.mem_append.mp inside with inside | inside
  · rcases List.mem_append.mp inside with inside | inside
    · exact .inl (isPlain_of_mem_flattenSteps frontPlain inside)
    · rcases List.mem_cons.mp inside with equal | inside
      · exact .inr equal
      · rcases exists_case_of_mem_flattenCases inside with ⟨branch, isCase, nested⟩
        exact .inl (isPlain_of_mem_flattenSteps (casesPlain branch isCase) nested)
  · exact .inl (isPlain_of_mem_flattenSteps restPlain inside)

end Step

/-! ## Counters -/

structure Names.CountsWith (names : Names) (step : Step) : Prop where
  attempts : Fork.attempts names ∈ step.sets →
    step.name = names.step "init" ∨ step.name = names.step "retry"
  polls : Subflow.polls names ∈ step.sets →
    step.name = names.step "poll_init" ∨ step.name = names.step "poll_count"

section

variable {settings : Settings} {names : Names} {registry : Registry} {step : Step}

theorem Names.step_ne {left right : String} (names : Names) (different : left ≠ right) :
    names.step left ≠ names.step right :=
  fun equal => different (names.step_injective equal)

theorem Names.step_not_mem {suffix : String} {others : List String} (names : Names)
    (absent : suffix ∉ others) : names.step suffix ∉ others.map names.step := by
  intro member
  rcases List.mem_map.mp member with ⟨other, among, equal⟩
  exact absent (names.step_injective equal ▸ among)

/-- Variables of other suffixes are no counters. -/
theorem Names.countsWith_of_sets (others : List String) (sets : step.sets = others.map names.step)
    (attempts : "attempts" ∉ others) (polls : "polls" ∉ others) : names.CountsWith step :=
  ⟨fun member => absurd (sets ▸ member) (names.step_not_mem attempts),
    fun member => absurd (sets ▸ member) (names.step_not_mem polls)⟩

theorem Names.countsWith_of_result (sets : step.sets = [names.result]) : names.CountsWith step := by
  constructor <;>
  · intro member
    rw [sets] at member
    exact absurd (List.mem_singleton.mp member) (names.step_ne_result _)

theorem Names.countsWith_of_attempts (sets : step.sets = [Fork.attempts names])
    (counts : step.name = names.step "init" ∨ step.name = names.step "retry") :
    names.CountsWith step := by
  refine ⟨fun _ => counts, fun member => ?_⟩
  rw [sets] at member
  exact absurd (List.mem_singleton.mp member) (names.step_ne (by decide))

theorem Names.countsWith_of_polls (sets : step.sets = [Subflow.polls names])
    (counts : step.name = names.step "poll_init" ∨ step.name = names.step "poll_count") :
    names.CountsWith step := by
  refine ⟨fun member => ?_, fun _ => counts⟩
  rw [sets] at member
  exact absurd (List.mem_singleton.mp member) (names.step_ne (by decide))

theorem Names.countsWith_of_silent (silent : step.sets = []) : names.CountsWith step :=
  names.countsWith_of_sets [] silent List.not_mem_nil List.not_mem_nil

theorem Action.countsWith_of_mem {act : Action}
    (inside : step ∈ flattenSteps (act.steps settings names registry ++ act.binding names)) :
    names.CountsWith step := by
  cases act with
  | delay pause =>
      rw [List.mem_singleton.mp inside]
      exact names.countsWith_of_silent rfl
  | webhook hook =>
      rcases List.mem_pair.mp inside with equal | equal
      · rw [equal]
        exact names.countsWith_of_sets ["event"] rfl (by decide) (by decide)
      · rw [equal]
        exact names.countsWith_of_result rfl
  | message | saveFields | saveVariable | apiCall | alert | utility =>
      rcases List.mem_pair.mp inside with equal | equal
      · rw [equal]
        exact names.countsWith_of_sets ["response"] rfl (by decide) (by decide)
      · rw [equal]
        exact names.countsWith_of_result rfl

theorem Fork.countsWith_of_mem_opening {choice : Fork}
    (inside : step ∈ choice.openingSteps settings names registry) : names.CountsWith step := by
  have prompt : ∀ choice : Fork, step ∈ choice.promptSteps settings names registry →
      names.CountsWith step := by
    intro choice inside
    rcases List.mem_append.mp inside with inside | inside
    · split at inside
      · rw [List.mem_singleton.mp inside]
        exact names.countsWith_of_attempts rfl (.inl rfl)
      · cases inside
    · rcases List.mem_pair.mp inside with equal | equal
      · rw [equal]
        exact names.countsWith_of_sets ["sent"] rfl (by decide) (by decide)
      · rw [equal]
        exact names.countsWith_of_result rfl
  cases choice with
  | split | branch =>
      rcases List.mem_pair.mp inside with equal | equal
      · rw [equal]
        exact names.countsWith_of_sets ["response"] rfl (by decide) (by decide)
      · rw [equal]
        exact names.countsWith_of_result rfl
  | text | buttons | list => exact prompt _ inside

theorem Fork.countsWith_of_mem {choice : Fork} {exits : List Exit}
    (inside : step ∈ flattenSteps (choice.steps settings names registry exits)) :
    names.CountsWith step := by
  rw [steps, flattenSteps_append,
    flattenSteps_eq_of_isPlain (choice.isPlain_openingSteps settings names registry)] at inside
  rcases List.mem_append.mp inside with inside | inside
  · exact countsWith_of_mem_opening inside
  · rw [flattenSteps_singleton] at inside
    rcases List.mem_cons.mp inside with equal | inside
    · rw [equal]
      exact names.countsWith_of_silent rfl
    · rcases exists_case_of_mem_flattenCases inside with ⟨branch, isCase, inside⟩
      rcases retries_or_exists_exit isCase with ⟨_, retry⟩ | ⟨exit, _, own⟩
      · rw [retry] at inside
        rw [List.mem_singleton.mp inside]
        exact names.countsWith_of_attempts rfl (.inr rfl)
      · rw [own] at inside
        rw [List.mem_singleton.mp inside]
        exact names.countsWith_of_sets ["outcome"] rfl (by decide) (by decide)

theorem Subflow.countsWith_of_mem_abort {called : Subflow} {exits : List Exit} {abort : Abort}
    (inside : step ∈ flattenSteps (called.abortSteps settings names registry exits abort)) :
    names.CountsWith step := by
  cases exits with
  | nil =>
      rw [List.mem_singleton.mp inside]
      exact names.countsWith_of_silent rfl
  | cons exit rest =>
      have cases : step ∈ called.abortSteps settings names registry (exit :: rest) abort := inside
      simp only [abortSteps, List.mem_cons, List.not_mem_nil, or_false] at cases
      rcases cases with rfl | rfl | rfl
      · exact names.countsWith_of_sets ["outcome"] rfl (by decide) (by decide)
      · exact names.countsWith_of_silent rfl
      · exact names.countsWith_of_silent rfl

theorem Subflow.mem_cases_or_mem_steps {called : Subflow} {exits : List Exit}
    (inside : step ∈ flattenSteps (called.steps settings names registry exits)) :
    step ∈ flattenCases (called.checkCases settings names registry exits) ∨
      step ∈ called.steps settings names registry exits := by
  simp only [steps, flattenSteps, flatten, List.mem_append, List.mem_cons, List.not_mem_nil,
    or_false, clearSession, post] at inside ⊢
  tauto

theorem Subflow.countsWith_of_mem {called : Subflow} {exits : List Exit}
    (inside : step ∈ flattenSteps (called.steps settings names registry exits)) :
    names.CountsWith step := by
  rcases mem_cases_or_mem_steps inside with inside | inside
  · rcases exists_case_of_mem_flattenCases inside with ⟨branch, isCase, inside⟩
    simp only [checkCases, List.mem_cons, List.not_mem_nil, or_false] at isCase
    rcases isCase with rfl | rfl | rfl | rfl
    · cases inside
    · exact countsWith_of_mem_abort inside
    · exact countsWith_of_mem_abort inside
    · rcases List.mem_pair.mp inside with rfl | rfl
      · exact names.countsWith_of_polls rfl (.inr rfl)
      · exact names.countsWith_of_silent rfl
  · simp only [steps, List.mem_cons, List.not_mem_nil, or_false] at inside
    rcases inside with rfl | rfl | rfl | rfl | rfl | rfl | rfl | rfl
    · exact names.countsWith_of_sets ["caller"] rfl (by decide) (by decide)
    · exact names.countsWith_of_sets ["started"] rfl (by decide) (by decide)
    · exact names.countsWith_of_polls rfl (.inl rfl)
    · exact names.countsWith_of_sets ["status"] rfl (by decide) (by decide)
    · exact names.countsWith_of_silent rfl
    · exact names.countsWith_of_result rfl
    · exact names.countsWith_of_silent rfl
    · exact names.countsWith_of_silent rfl

theorem LoopStart.mem_or_mem_iteration {start : LoopStart}
    (inside : step ∈ flattenSteps (start.steps settings names registry)) :
    step ∈ start.steps settings names registry ∨ step ∈ start.iteration names registry := by
  have flat : flattenSteps (start.iteration names registry) = start.iteration names registry := by
    rw [iteration]
    cases start.loopValue <;> rfl
  simp only [steps, flattenSteps, flatten, flat, List.mem_append, List.mem_cons, List.not_mem_nil,
    or_false] at inside ⊢
  tauto

theorem LoopStart.eq_or_eq_of_mem_iteration {start : LoopStart}
    (member : step ∈ start.iteration names registry) :
    step = start.bodyCall names registry ∨ step = guardStep names := by
  rw [iteration] at member
  cases value : start.loopValue with
  | list expression =>
      rw [value] at member
      exact (List.mem_pair.mp member).symm
  | count number =>
      rw [value] at member
      exact .inl (List.mem_singleton.mp member)

theorem LoopStart.countsWith_of_mem {start : LoopStart} (proper : names.Proper)
    (inside : step ∈ flattenSteps (start.steps settings names registry)) :
    names.CountsWith step := by
  rcases mem_or_mem_iteration inside with inside | inside
  · rcases List.mem_pair.mp inside with rfl | rfl
    · cases value : start.loopValue with
      | list expression =>
          exact names.countsWith_of_sets ["limit", "values"] (by simp [sets, writes, setup, value,
            limitVariable, listVariable]) (by decide) (by decide)
      | count number =>
          exact names.countsWith_of_sets ["limit"] (by simp [sets, writes, setup, value,
            limitVariable]) (by decide) (by decide)
    · -- The variables of an iteration have no number, in contrast to those of a visit.
      have counterless : ∀ suffix, Text.Wordy suffix → names.step suffix ∉
          (start.head settings names).bound := by
        intro suffix wordy member
        have shared : names.step suffix = Registry.loopItem ∨
            names.step suffix = Registry.loopIndex := by
          rw [head] at member
          cases value : start.loopValue with
          | list expression =>
              rw [value] at member
              exact List.mem_pair.mp member
          | count number =>
              rw [value] at member
              exact .inl (List.mem_singleton.mp member)
        have owns : names.Owns (names.step suffix) := .step wordy
        rcases shared with equal | equal <;>
        · refine owns.not_wordy proper ?_
          rw [equal]
          decide
      exact ⟨fun member => absurd member (counterless "attempts" (by decide)),
        fun member => absurd member (counterless "polls" (by decide))⟩
  · rcases eq_or_eq_of_mem_iteration inside with rfl | rfl
    · exact names.countsWith_of_sets ["outcome"] rfl (by decide) (by decide)
    · exact names.countsWith_of_silent rfl

theorem Walk.EmittedFor.countsWith (proper : names.Proper)
    (emitted : EmittedFor settings names step) : names.CountsWith step := by
  cases emitted with
  | terminal | block => exact names.countsWith_of_silent rfl
  | closing closing => cases closing <;> exact names.countsWith_of_silent rfl
  | action inside => exact Action.countsWith_of_mem inside
  | fork inside => exact Fork.countsWith_of_mem inside
  | subflow inside => exact Subflow.countsWith_of_mem inside
  | loop inside => exact LoopStart.countsWith_of_mem proper inside

end

end FlowCompiler
