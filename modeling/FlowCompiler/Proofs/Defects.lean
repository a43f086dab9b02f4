import FlowCompiler.Proofs.Jumps
import FlowCompiler.Proofs.Verification
import Mathlib.Data.List.Induction
import Mathlib.Logic.Relation

namespace FlowCompiler

/-! The first defect of a program. The check reports a missing `main` before everything else, then
the first routine that does not hold together; of that routine it reports the first step whose
name is taken or whose call leads nowhere, and a jump only where all steps are in order. -/

/-- A property that the empty list has and a list lacks is lost at one of its items. -/
theorem exists_first_of_not {α : Type} (good : List α → Prop) (empty : good []) {list : List α}
    (fails : ¬ good list) :
    ∃ before item after, list = before ++ item :: after ∧ good before ∧
      ¬ good (before ++ [item]) := by
  induction list using List.reverseRecOn with
  | nil => exact absurd empty fails
  | append_singleton front last induction =>
      by_cases sound : good front
      · exact ⟨front, last, [], rfl, sound, fails⟩
      · obtain ⟨before, item, after, equal, sound, broken⟩ := induction sound
        exact ⟨before, item, after ++ [last], by simp [equal], sound, broken⟩

theorem exists_first_failing {α : Type} {good : α → Prop} {list : List α}
    (fails : ¬ ∀ item ∈ list, good item) :
    ∃ before item after, list = before ++ item :: after ∧ (∀ item ∈ before, good item) ∧
      ¬ good item := by
  obtain ⟨before, item, after, place, sound, broken⟩ :=
    exists_first_of_not (fun items => ∀ item ∈ items, good item) (by simp) fails
  refine ⟨before, item, after, place, sound, ?_⟩
  intro last
  apply broken
  intro other member
  cases List.mem_append.mp member with
  | inl member => exact sound other member
  | inr member => exact List.mem_singleton.mp member ▸ last

/-- Where the names of the items are not all different, or not all items are good, one item is the
first whose name is taken or that is not good. -/
theorem exists_first_taken_or_failing {α : Type} (name : α → String) {good : α → Prop}
    {list : List α} (fails : ¬ ((list.map name).Nodup ∧ ∀ item ∈ list, good item)) :
    ∃ before item after, list = before ++ item :: after ∧
      ((before.map name).Nodup ∧ ∀ item ∈ before, good item) ∧
      (name item ∈ before.map name ∨ ¬ good item) := by
  obtain ⟨before, item, after, place, sound, broken⟩ :=
    exists_first_of_not (fun items => (items.map name).Nodup ∧ ∀ item ∈ items, good item)
      (by simp) fails
  refine ⟨before, item, after, place, sound, ?_⟩
  by_contra fresh
  rw [not_or, not_not] at fresh
  apply broken
  constructor
  · rw [List.map_append, List.map_singleton, List.nodup_append]
    refine ⟨sound.1, by simp, ?_⟩
    intro earlier member last equal same
    rw [List.mem_singleton] at equal
    exact fresh.1 (equal ▸ same ▸ member)
  · intro other member
    cases List.mem_append.mp member with
    | inl member => exact sound.2 other member
    | inr member => exact List.mem_singleton.mp member ▸ fresh.2

/-! ## The steps of a routine -/

namespace Step

def Holds (outer inner : Step) : Prop :=
  inner ∈ outer.children

theorem flattenCases_eq (cases : List Case) :
    flattenCases cases = flattenSteps (cases.flatMap Case.steps) := by
  induction cases with
  | nil => rfl
  | cons first rest induction =>
      cases first with
      | mk condition steps next =>
          rw [flattenCases, induction, List.flatMap_cons, flattenSteps_append]
          rfl

/-- A step comes before what is nested in it. -/
theorem flatten_eq (step : Step) : step.flatten = step :: flattenSteps step.children := by
  cases step with
  | switch name cases => rw [flatten, flattenCases_eq, children]
  | block | loop | call | assign | raise | «return» => rfl

mutual
theorem holds_of_mem_flatten : ∀ (outer : Step) {inner : Step}, inner ∈ outer.flatten →
    Relation.ReflTransGen Holds outer inner
  | .block name steps, inner, member => by
      cases List.mem_cons.mp member with
      | inl equal => exact equal ▸ .refl
      | inr member =>
          obtain ⟨top, among, holds⟩ := holds_of_mem_flattenSteps steps member
          exact .head among holds
  | .switch name cases, inner, member => by
      cases List.mem_cons.mp member with
      | inl equal => exact equal ▸ .refl
      | inr member =>
          obtain ⟨top, among, holds⟩ := holds_of_mem_flattenCases cases member
          exact .head among holds
  | .loop name head steps, inner, member => by
      cases List.mem_cons.mp member with
      | inl equal => exact equal ▸ .refl
      | inr member =>
          obtain ⟨top, among, holds⟩ := holds_of_mem_flattenSteps steps member
          exact .head among holds
  | .call .., _, member => List.mem_singleton.mp member ▸ .refl
  | .assign .., _, member => List.mem_singleton.mp member ▸ .refl
  | .raise .., _, member => List.mem_singleton.mp member ▸ .refl
  | .return .., _, member => List.mem_singleton.mp member ▸ .refl

theorem holds_of_mem_flattenSteps : ∀ (steps : List Step) {inner : Step},
    inner ∈ flattenSteps steps → ∃ top ∈ steps, Relation.ReflTransGen Holds top inner
  | first :: rest, inner, member => by
      cases List.mem_append.mp member with
      | inl member => exact ⟨first, by simp, holds_of_mem_flatten first member⟩
      | inr member =>
          obtain ⟨top, among, holds⟩ := holds_of_mem_flattenSteps rest member
          exact ⟨top, by simp [among], holds⟩

theorem holds_of_mem_flattenCases : ∀ (cases : List Case) {inner : Step},
    inner ∈ flattenCases cases →
      ∃ top ∈ cases.flatMap Case.steps, Relation.ReflTransGen Holds top inner
  | .mk condition steps next :: rest, inner, member => by
      rw [List.flatMap_cons]
      cases List.mem_append.mp member with
      | inl member =>
          obtain ⟨top, among, holds⟩ := holds_of_mem_flattenSteps steps member
          exact ⟨top, List.mem_append_left _ among, holds⟩
      | inr member =>
          obtain ⟨top, among, holds⟩ := holds_of_mem_flattenCases rest member
          exact ⟨top, List.mem_append_right _ among, holds⟩
end

theorem mem_flatten_of_holds {outer inner : Step}
    (holds : Relation.ReflTransGen Holds outer inner) : inner ∈ outer.flatten := by
  induction holds using Relation.ReflTransGen.head_induction_on with
  | refl => exact mem_flatten_self inner
  | head child _ induction =>
      rw [flatten_eq]
      exact List.mem_cons_of_mem _ (flatten_subset_flattenSteps child induction)

end Step

namespace Routine

def Contains (routine : Routine) (step : Step) : Prop :=
  ∃ top ∈ routine.steps, Relation.ReflTransGen Step.Holds top step

theorem mem_flatten_iff {routine : Routine} {step : Step} :
    step ∈ routine.flatten ↔ routine.Contains step := by
  constructor
  · exact Step.holds_of_mem_flattenSteps routine.steps
  · intro contains
    obtain ⟨top, among, holds⟩ := contains
    exact Step.flatten_subset_flattenSteps among (Step.mem_flatten_of_holds holds)

def Knows (routine : Routine) (target : String) : Prop :=
  target ∈ Primitive.reservedJumps ∨ target ∈ routine.flatten.map Step.name

def jumps (routine : Routine) : List String :=
  routine.flatten.flatMap Step.jumps

end Routine

/-! ## First defects -/

namespace Program

structure Accepts (program : Program) (steps : List Step) : Prop where
  distinct : (steps.map Step.name).Nodup
  links : ∀ step ∈ steps, step.Links program

end Program

/-- The defect of a routine called `name` that is met first: steps come before jumps, and both are
met depth first. -/
inductive Routine.FirstDefect (program : Program) (name : String) (routine : Routine) :
    ProgramError → Prop where
  | repeated {before after : List Step} {step : Step}
      (place : routine.flatten = before ++ step :: after) (accepted : program.Accepts before)
      (taken : step.name ∈ before.map Step.name) :
      FirstDefect program name routine (.duplicateStepName name step.name)
  | dangling {before after : List Step} {step : Step} {invocation : Call}
      (place : routine.flatten = before ++ step :: after) (accepted : program.Accepts before)
      (fresh : step.name ∉ before.map Step.name) (calls : step.call? = some invocation)
      (routineCall : ¬ Primitive.isPrimitive invocation.target)
      (absent : ¬ program.contains invocation.target) :
      FirstDefect program name routine (.danglingCall name invocation.target)
  | lost {before after : List String} {target : String}
      (accepted : program.Accepts routine.flatten)
      (place : routine.jumps = before ++ target :: after)
      (known : ∀ earlier ∈ before, routine.Knows earlier) (unknown : ¬ routine.Knows target) :
      FirstDefect program name routine (.unknownJumpTarget name target)

inductive Program.FirstDefect (program : Program) : ProgramError → Prop where
  | missing (absent : ¬ program.contains mainName) : FirstDefect program .missingMain
  | routine {before after : List (String × Routine)} {name : String} {routine : Routine}
      {error : ProgramError} (main : program.contains mainName)
      (place : program.routines.entries = before ++ (name, routine) :: after)
      (sound : ∀ entry ∈ before, entry.2.HoldsTogether program)
      (defect : routine.FirstDefect program name error) : FirstDefect program error

/-! ## What is reported -/

namespace Program

variable {program : Program} {name : String} {routine : Routine}

/-- Steps that are accepted only add their names to those that are taken. -/
theorem stepError?_append {before : List Step} (accepted : program.Accepts before)
    (rest : List Step) : ∀ {seen : List String}, (∀ step ∈ before, step.name ∉ seen) →
      program.stepError? name seen (before ++ rest) =
        program.stepError? name ((before.map Step.name).reverse ++ seen) rest := by
  induction before with
  | nil => simp
  | cons first others induction =>
      intro seen fresh
      have distinct := List.nodup_cons.mp accepted.distinct
      have links := danglingTarget?_eq_none_iff.mpr (accepted.links first (by simp))
      have others : program.Accepts others :=
        ⟨distinct.2, fun step member => accepted.links step (by simp [member])⟩
      rw [List.cons_append, stepError?, if_neg (fresh first (by simp)), links]
      simp only [List.map_cons, List.reverse_cons, List.append_assoc, List.singleton_append]
      apply induction others
      intro step member taken
      cases List.mem_cons.mp taken with
      | inl equal => exact distinct.1 (equal ▸ List.mem_map_of_mem member)
      | inr taken => exact fresh step (by simp [member]) taken

/-- A list that is not accepted has a first step that is at fault. -/
theorem exists_fault_of_not_accepts {steps : List Step} (refused : ¬ program.Accepts steps) :
    ∃ before step after, steps = before ++ step :: after ∧ program.Accepts before ∧
      (step.name ∈ before.map Step.name ∨ ¬ step.Links program) := by
  have fails : ¬ ((steps.map Step.name).Nodup ∧ ∀ step ∈ steps, step.Links program) :=
    fun sound => refused ⟨sound.1, sound.2⟩
  obtain ⟨before, step, after, place, accepted, fault⟩ :=
    exists_first_taken_or_failing Step.name fails
  exact ⟨before, step, after, place, ⟨accepted.1, accepted.2⟩, fault⟩

theorem stepError?_of_accepts (accepted : program.Accepts routine.flatten) :
    program.stepError? name [] routine.flatten = none :=
  (stepError?_eq_none_iff _).mpr ⟨accepted.distinct, by simp, accepted.links⟩

theorem routineError?_of_firstDefect {error : ProgramError}
    (defect : routine.FirstDefect program name error) :
    program.routineError? name routine = some error := by
  rw [routineError?]
  cases defect with
  | repeated place accepted taken =>
      rw [place, stepError?_append accepted _ (by simp), stepError?, if_pos (by simpa using taken)]
      rfl
  | @dangling before after step invocation place accepted fresh calls routineCall absent =>
      have target : step.danglingTarget? program = some invocation.target := by
        simp [Step.danglingTarget?, calls, routineCall, absent]
      rw [place, stepError?_append accepted _ (by simp), stepError?, if_neg (by simpa using fresh),
        target]
      rfl
  | @lost before after target accepted place known unknown =>
      rw [stepError?_of_accepts accepted, Option.none_or, jumpError?]
      have found : (routine.flatten.flatMap Step.jumps).find? (fun target =>
          decide (target ∉ Primitive.reservedJumps ∧ target ∉ routine.flatten.map Step.name)) =
            some target := by
        rw [List.find?_eq_some_iff_append]
        refine ⟨decide_eq_true (not_or.mp unknown), before, after, place, ?_⟩
        intro earlier member
        simpa [Routine.Knows] using known earlier member
      simp only [found, Option.map_some]

theorem exists_firstDefect_of_routine (broken : ¬ routine.HoldsTogether program) (name : String) :
    ∃ error, routine.FirstDefect program name error := by
  by_cases accepted : program.Accepts routine.flatten
  · have jumps : ¬ ∀ target ∈ routine.jumps, routine.Knows target := by
      intro known
      apply broken
      refine ⟨accepted.distinct, accepted.links, ?_⟩
      intro step member target jump
      exact known target (List.mem_flatMap.mpr ⟨step, member, jump⟩)
    obtain ⟨before, target, after, place, known, unknown⟩ := exists_first_failing jumps
    exact ⟨_, .lost accepted place known unknown⟩
  · obtain ⟨before, step, after, place, accepted, fault⟩ := exists_fault_of_not_accepts accepted
    by_cases taken : step.name ∈ before.map Step.name
    · exact ⟨_, .repeated place accepted taken⟩
    · have dangling := fault.resolve_left taken
      rw [Step.Links] at dangling
      simp only [Option.mem_def, not_forall, not_or] at dangling
      obtain ⟨invocation, calls, routineCall, absent⟩ := dangling
      exact ⟨_, .dangling place accepted taken calls routineCall absent⟩

theorem verify_of_firstDefect {error : ProgramError} (defect : program.FirstDefect error) :
    program.verify = .error error := by
  rw [verify]
  have main : program.main?.isNone = !program.contains mainName := by
    rw [main?, contains, Table.contains]
    cases program.routines.get? mainName <;> rfl
  cases defect with
  | missing absent => simp [main, absent]
  | @routine before after name routine error present place sound defect =>
      have found : program.routines.entries.findSome? (fun entry =>
          program.routineError? entry.1 entry.2) = some error := by
        rw [List.findSome?_eq_some_iff]
        exact ⟨before, (name, routine), after, place, routineError?_of_firstDefect defect,
          fun entry member => routineError?_eq_none_iff.mpr (sound entry member)⟩
      simp [main, present, found]

theorem exists_firstDefect (broken : ¬ program.HoldsTogether) :
    ∃ error, program.FirstDefect error := by
  by_cases main : program.contains mainName
  · have routines : ¬ ∀ entry ∈ program.routines.entries, entry.2.HoldsTogether program :=
      fun sound => broken ⟨main, sound⟩
    obtain ⟨before, ⟨name, routine⟩, after, place, sound, defective⟩ :=
      exists_first_failing routines
    obtain ⟨error, defect⟩ := exists_firstDefect_of_routine defective name
    exact ⟨error, .routine main place sound defect⟩
  · exact ⟨_, .missing main⟩

end Program

/-- A program passes its check exactly if it holds together, with every step at every depth in view,
and a program that does not pass is reported with its first defect. -/
theorem verify_finds_first_defect (program : Program) :
    (program.verify = .ok () ↔ program.HoldsTogether) ∧
      (∀ error, program.verify = .error error ↔ program.FirstDefect error) ∧
      ∀ (routine : Routine) (step : Step), step ∈ routine.flatten ↔ routine.Contains step := by
  refine ⟨Program.verify_eq_ok_iff, ?_, fun _ _ => Routine.mem_flatten_iff⟩
  intro error
  constructor
  · intro failed
    have broken : ¬ program.HoldsTogether := by
      intro holds
      rw [Program.verify_eq_ok_iff.mpr holds] at failed
      cases failed
    obtain ⟨first, defect⟩ := Program.exists_firstDefect broken
    rw [Program.verify_of_firstDefect defect] at failed
    cases failed
    exact defect
  · exact Program.verify_of_firstDefect

end FlowCompiler
