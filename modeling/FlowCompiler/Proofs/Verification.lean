import FlowCompiler.Program.Verify
import Mathlib.Data.List.Nodup

namespace FlowCompiler

/-! What it means that a program passes its check. -/

def Step.Links (program : Program) (step : Step) : Prop :=
  ∀ invocation ∈ step.call?,
    Primitive.isPrimitive invocation.target ∨ program.contains invocation.target

/-- The steps of a routine have different names, their calls lead to routines of the program, and
their jumps to steps of the routine or to targets of the engine. -/
structure Routine.HoldsTogether (program : Program) (routine : Routine) : Prop where
  distinct : (routine.flatten.map Step.name).Nodup
  links : ∀ step ∈ routine.flatten, step.Links program
  jumps : ∀ step ∈ routine.flatten, ∀ target ∈ step.jumps,
    target ∈ Primitive.reservedJumps ∨ target ∈ routine.flatten.map Step.name

structure Program.HoldsTogether (program : Program) : Prop where
  main : program.contains Program.mainName
  routines : ∀ entry ∈ program.routines.entries, entry.2.HoldsTogether program

namespace Program

theorem danglingTarget?_eq_none_iff {program : Program} {step : Step} :
    step.danglingTarget? program = none ↔ step.Links program := by
  rw [Step.danglingTarget?, Step.Links]
  cases step.call? with
  | none => simp
  | some invocation =>
      simp only [Option.mem_def, Option.some.injEq, forall_eq', ← Bool.or_eq_true]
      cases Primitive.isPrimitive invocation.target || program.contains invocation.target <;> simp

theorem stepError?_eq_none_iff {program : Program} {routine : String} (steps : List Step) :
    ∀ {seen : List String}, program.stepError? routine seen steps = none ↔
      (steps.map Step.name).Nodup ∧ (∀ step ∈ steps, step.name ∉ seen) ∧
        ∀ step ∈ steps, step.Links program := by
  induction steps with
  | nil => simp [stepError?]
  | cons step rest induction =>
      intro seen
      rw [stepError?, List.map_cons, List.nodup_cons]
      by_cases repeated : step.name ∈ seen
      · rw [if_pos repeated]
        constructor
        · intro none
          cases none
        · rintro ⟨_, fresh, _⟩
          exact absurd repeated (fresh step List.mem_cons_self)
      · rw [if_neg repeated]
        cases dangling : step.danglingTarget? program with
        | some target =>
            have broken : ¬ step.Links program := by
              intro links
              rw [danglingTarget?_eq_none_iff.mpr links] at dangling
              cases dangling
            constructor
            · intro none
              cases none
            · rintro ⟨_, _, links⟩
              exact absurd (links step List.mem_cons_self) broken
        | none =>
            have links := danglingTarget?_eq_none_iff.mp dangling
            simp only [induction, List.mem_cons, List.mem_map]
            constructor
            · rintro ⟨distinct, fresh, others⟩
              refine ⟨⟨?_, distinct⟩, ?_, ?_⟩
              · rintro ⟨other, member, equal⟩
                exact fresh other member (.inl equal)
              · rintro other (equal | member) present
                · exact repeated (equal ▸ present)
                · exact fresh other member (.inr present)
              · rintro other (equal | member)
                · exact equal ▸ links
                · exact others other member
            · rintro ⟨⟨apart, distinct⟩, fresh, all⟩
              refine ⟨distinct, ?_, fun other member => all other (.inr member)⟩
              rintro other member (equal | present)
              · exact apart ⟨other, member, equal⟩
              · exact fresh other (.inr member) present

theorem jumpError?_eq_none_iff {routine : String} {steps : List Step} :
    jumpError? routine steps = none ↔ ∀ step ∈ steps, ∀ target ∈ step.jumps,
      target ∈ Primitive.reservedJumps ∨ target ∈ steps.map Step.name := by
  rw [jumpError?, Option.map_eq_none_iff, List.find?_eq_none]
  constructor
  · intro known step member target jump
    have found := known target (List.mem_flatMap.mpr ⟨step, member, jump⟩)
    by_contra unknown
    exact found (by simpa using not_or.mp unknown)
  · intro known target jump
    rcases List.mem_flatMap.mp jump with ⟨step, member, jump⟩
    rcases known step member target jump with reserved | named
    · simp [reserved]
    · intro unknown
      exact (of_decide_eq_true unknown).2 named

theorem routineError?_eq_none_iff {program : Program} {name : String} {routine : Routine} :
    program.routineError? name routine = none ↔ routine.HoldsTogether program := by
  rw [routineError?, Option.or_eq_none_iff, stepError?_eq_none_iff, jumpError?_eq_none_iff]
  constructor
  · rintro ⟨⟨distinct, _, links⟩, jumps⟩
    exact ⟨distinct, links, jumps⟩
  · intro holds
    exact ⟨⟨holds.distinct, by simp, holds.links⟩, holds.jumps⟩

theorem verify_eq_ok_iff {program : Program} :
    program.verify = .ok () ↔ program.HoldsTogether := by
  have main : program.main?.isNone ↔ ¬ program.contains mainName := by
    rw [main?, contains, Table.contains]
    cases program.routines.get? mainName <;> simp
  rw [verify]
  by_cases missing : program.main?.isNone
  · rw [if_pos missing]
    constructor
    · intro passed
      cases passed
    · intro holds
      exact absurd holds.main (main.mp missing)
  · rw [if_neg missing]
    have present : program.contains mainName := by
      by_contra absent
      exact missing (main.mpr absent)
    cases defect : program.routines.entries.findSome? fun entry =>
        program.routineError? entry.1 entry.2 with
    | none =>
        rw [List.findSome?_eq_none_iff] at defect
        constructor
        · intro _
          exact ⟨present, fun entry member =>
            routineError?_eq_none_iff.mp (defect entry member)⟩
        · intro _
          rfl
    | some error =>
        constructor
        · intro passed
          cases passed
        · intro holds
          rcases List.exists_of_findSome?_eq_some defect with ⟨entry, member, broken⟩
          rw [routineError?_eq_none_iff.mpr (holds.routines entry member)] at broken
          cases broken

end Program

end FlowCompiler
