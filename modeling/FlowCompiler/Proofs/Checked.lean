import FlowCompiler.Proofs.Assembly
import FlowCompiler.Proofs.Jumps
import FlowCompiler.Proofs.Verification

namespace FlowCompiler

/-! No program that is built fails its check: the check is a net that never catches anything. -/

open Step

namespace Walk

section

variable {settings : Settings} {scope : Scope} {walk : Walk Visit} {entry : String × Routine}

theorem nodup_names_of_mem_routines (proper : walk.Proper)
    (member : entry ∈ walk.routines settings scope) :
    (entry.2.flatten.map Step.name).Nodup := by
  rcases exists_composed member with
    ⟨_, _, inner, behind, last, _, _, _, composed, inside⟩
  have behindProper : behind.Proper := by
    rcases inside with done | place
    · exact done ▸ proper_done
    · exact place.proper proper
  have closing : namesWithin [last] = ["finish"] ∨ namesWithin [last] = ["no_further_steps"] := by
    cases composed.closing with
    | finish | resume => exact .inl rfl
    | stub exit => exact .inr rfl
  rw [Routine.flatten, composed.steps]
  refine @nodup_namesWithin settings inner behind behindProper [] [last] ?_ ?_ <;>
  · rcases closing with equal | equal <;> rw [equal] <;> decide

theorem jumpsLocal_of_mem_routines (member : entry ∈ walk.routines settings scope) :
    JumpsLocal entry.2.steps := by
  rcases exists_composed member with ⟨_, _, inner, behind, last, _, _, _, composed, _⟩
  have closing : JumpsLocal [last] := by
    cases composed.closing <;> exact jumpsLocal_of_isPlain rfl
  rw [composed.steps]
  exact (jumpsLocal_steps settings behind inner).append closing

end

end Walk

/-- Local jumps lead to steps of the routine, or leave a loop. -/
theorem Step.JumpsLocal.jumps_known {steps : List Step} (inside : JumpsLocal steps) :
    ∀ step ∈ flattenSteps steps, ∀ target ∈ step.jumps,
      target ∈ Primitive.reservedJumps ∨ target ∈ (flattenSteps steps).map Step.name := by
  intro step member target jump
  rcases mem_list_of_mem_flattenSteps false steps member with ⟨list, isList, among⟩
  have rules := inside list isList step among target jump
  by_cases leaves : target = "break"
  · subst leaves
    exact .inl (by decide)
  · rcases List.mem_map.mp (rules.2 leaves) with ⟨other, otherAmong, named⟩
    exact .inr (List.mem_map.mpr
      ⟨other, subset_flattenSteps_of_mem false steps isList otherAmong, named⟩)

namespace Compile

/-! ## Built programs -/

open Lowering

section

variable {settings : Settings} {flow : Flow} {branch : Branch} {children : List Node}
  {scope : Scope} {walk : Walk Visit} {program : Program}

theorem Assembled.contains_of_mem (assembled : Assembled settings flow branch children walk program)
    {entry : String × Routine}
    (member : entry ∈ allRoutines settings flow branch (startScope flow branch children) walk) :
    program.contains entry.1 := by
  rw [Program.contains, Table.contains_iff, Table.keys, assembled.entries]
  exact List.mem_map_of_mem member

theorem nodup_names_mainRoutine (proper : walk.Proper) :
    ((mainRoutine settings flow branch scope walk).flatten.map Step.name).Nodup := by
  have fixed : namesWithin [setupStep (branchRegistry flow branch)] ++
      namesWithin [clearSession settings "clear_session", Walk.finishStep] =
        [setupName, "clear_session", "finish"] := rfl
  refine Walk.nodup_namesWithin proper ?_ ?_ <;>
  · rw [fixed]
    decide

theorem nodup_names_setupRoutine (registry : Registry) :
    ((setupRoutine settings flow registry).flatten.map Step.name).Nodup := by
  have names : (setupRoutine settings flow registry).flatten.map Step.name =
      ["read_api_base", "log_start", "finish"] := rfl
  rw [names]
  decide

/-- What a program calls is a primitive or one of its routines. -/
theorem Assembled.links (assembled : Assembled settings flow branch children walk program)
    {entry : String × Routine} (member : entry ∈ program.routines.entries) :
    ∀ step ∈ entry.2.flatten, step.Links program := by
  intro step inside call called
  rcases assembled.exists_place_of_call member (List.mem_filterMap.mpr ⟨step, inside, called⟩)
    with primitive | equal | ⟨inner, part, place, dispatch⟩
  · exact .inl primitive
  · subst equal
    exact .inr (assembled.contains_of_mem (List.mem_cons_of_mem _ List.mem_cons_self))
  · rcases Walk.exists_ownRoutine_of_dispatch settings dispatch with ⟨routine, own⟩
    have known := place.routines_subset (part.ownRoutines_subset settings inner own)
    exact .inr (assembled.contains_of_mem
      (List.mem_cons_of_mem _ (List.mem_cons_of_mem _ known)))

theorem jumpsLocal_mainRoutine :
    JumpsLocal (mainRoutine settings flow branch scope walk).steps :=
  ((jumpsLocal_of_isPlain rfl).append (walk.jumpsLocal_steps settings scope)).append
    (jumpsLocal_of_isPlain rfl)

theorem Assembled.jumpsLocal (assembled : Assembled settings flow branch children walk program) :
    ∀ entry ∈ program.routines.entries, JumpsLocal entry.2.steps := by
  intro entry member
  rw [assembled.entries] at member
  rcases List.mem_cons.mp member with equal | member
  · subst equal
    exact jumpsLocal_mainRoutine
  · rcases List.mem_cons.mp member with equal | member
    · subst equal
      exact jumpsLocal_of_isPlain rfl
    · exact Walk.jumpsLocal_of_mem_routines member

theorem Assembled.holdsTogether (assembled : Assembled settings flow branch children walk program) :
    program.HoldsTogether := by
  refine ⟨assembled.contains_of_mem List.mem_cons_self, fun entry member => ?_⟩
  refine ⟨?_, assembled.links member, (assembled.jumpsLocal entry member).jumps_known⟩
  rw [assembled.entries] at member
  rcases List.mem_cons.mp member with equal | member
  · subst equal
    exact nodup_names_mainRoutine assembled.proper
  · rcases List.mem_cons.mp member with equal | member
    · subst equal
      exact nodup_names_setupRoutine _
    · exact Walk.nodup_names_of_mem_routines assembled.proper member

end

theorem holdsTogether_emptyProgram : emptyProgram.HoldsTogether := by
  refine ⟨by decide, fun entry member => ?_⟩
  rw [List.mem_singleton.mp member]
  refine ⟨List.nodup_singleton _, fun step inside call called => ?_,
    fun step inside target jump => ?_⟩
  · rw [List.mem_singleton.mp inside] at called
    cases called
  · rw [List.mem_singleton.mp inside] at jump
    cases jump

theorem jumpsLocal_emptyProgram :
    ∀ entry ∈ emptyProgram.routines.entries, JumpsLocal entry.2.steps := by
  intro entry member
  rw [List.mem_singleton.mp member]
  exact jumpsLocal_of_isPlain rfl

section

variable {settings : Settings} {lookup : BranchLookup} {flow : Flow} {program : Program}

theorem holdsTogether_of_build (built : build settings lookup flow = .ok program) :
    program.HoldsTogether := by
  rcases exists_assembled_of_build built with empty | ⟨_, branch, walk, _, _, assembled⟩
  · exact empty ▸ holdsTogether_emptyProgram
  · exact assembled.holdsTogether

theorem jumpsLocal_of_build (built : build settings lookup flow = .ok program) :
    ∀ entry ∈ program.routines.entries, JumpsLocal entry.2.steps := by
  rcases exists_assembled_of_build built with empty | ⟨_, branch, walk, _, _, assembled⟩
  · exact empty ▸ jumpsLocal_emptyProgram
  · exact assembled.jumpsLocal

end

/-- Building fails before there is a program that could be defective. -/
theorem build_ne_program_error (settings : Settings) (lookup : BranchLookup) (flow : Flow)
    (error : ProgramError) : build settings lookup flow ≠ .error (.program error) := by
  intro failed
  rw [build] at failed
  cases started : flow.trigger? with
  | none =>
      rw [started] at failed
      cases failed
  | some trigger =>
      rw [started] at failed
      cases connected : (Graph.ofFlow flow).next? trigger.id .nextStep with
      | none =>
          simp only [connected] at failed
          cases failed
      | some first =>
          simp only [connected] at failed
          cases found : lookup flow.branchId with
          | error error =>
              rw [found] at failed
              cases failed
          | ok branch =>
              rw [found] at failed
              cases walked : (Graph.ofFlow flow).unfold none (Graph.ofFlow flow).ids first with
              | error error =>
                  rw [walked] at failed
                  cases failed
              | ok walk =>
                  rw [walked] at failed
                  cases failed

end Compile

/-- Checking changes nothing. -/
theorem compile_eq_build (settings : Settings) (lookup : BranchLookup) (flow : Flow) :
    compile settings lookup flow = Compile.build settings lookup flow := by
  rw [compile]
  cases built : Compile.build settings lookup flow with
  | error error => rfl
  | ok program =>
      have passed := Program.verify_eq_ok_iff.mpr (Compile.holdsTogether_of_build built)
      change (program.verify.mapError CompileError.program >>= fun _ => .ok program) =
        .ok program
      rw [passed]
      rfl

/-- Whatever flow is compiled, its program is never refused by the check. It holds together, and
every jump stays in the list of its switch, or leaves the loop in whose list the switch stands. -/
theorem compile_never_defective (settings : Settings) (lookup : BranchLookup) (flow : Flow) :
    (∀ error, compile settings lookup flow ≠ .error (.program error)) ∧
      ∀ program, Compile.build settings lookup flow = .ok program →
        program.HoldsTogether ∧
          ∀ entry ∈ program.routines.entries, JumpsLocal entry.2.steps := by
  constructor
  · intro error
    rw [compile_eq_build]
    exact Compile.build_ne_program_error settings lookup flow error
  · intro program built
    exact ⟨Compile.holdsTogether_of_build built, Compile.jumpsLocal_of_build built⟩

theorem compile_never_defective_sample :
    ∃ program, Compile.build .standard Compile.sampleLookup Compile.sampleFlow = .ok program ∧
      program.HoldsTogether ∧ ∀ entry ∈ program.routines.entries, JumpsLocal entry.2.steps := by
  rcases Compile.exists_sampleProgram with ⟨program, compiled⟩
  rw [compile_eq_build] at compiled
  exact ⟨program, compiled,
    (compile_never_defective .standard Compile.sampleLookup Compile.sampleFlow).2 program compiled⟩

end FlowCompiler
