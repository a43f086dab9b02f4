import FlowCompiler.Proofs.Aborts

namespace FlowCompiler

/-! Compiled programs are orderly: what stands behind the call of a routine, or behind a block that
may abort a subflow, only cleans up and returns. -/

open Expression Lowering Step

/-! ## Steps of visits -/

namespace Step

def isOperation : Step → Bool
  | .call _ made => Primitive.isPrimitive made.target
  | .assign .. | .raise .. => true
  | .return .. | .switch .. | .block .. | .loop .. => false

@[simp] theorem isOperation_call (name : String) (made : Call) :
    isOperation (.call name made) = Primitive.isPrimitive made.target := rfl

@[simp] theorem isOperation_assign (name : String) (values : List (String × Json)) :
    isOperation (.assign name values) := rfl

section

variable {program : Program} {steps : List Step}

theorem Calm.of_isOperation {step : Step} (operation : step.isOperation) : Calm program step := by
  cases step with
  | call | assign | raise => exact .single operation fun names abort equal => by cases equal
  | «return» | switch | block | loop => cases operation

theorem calm_of_all_isOperation (operations : steps.all isOperation) :
    ∀ step ∈ steps, Calm program step :=
  fun step member => .of_isOperation (List.all_eq_true.mp operations step member)

theorem Calm.return_string {name text : String} (plain : text.toList.head? ≠ some '$') :
    Calm program (.return name (.string text)) := by
  refine .single rfl fun names abort equal => ?_
  have value : Json.string text = ofVariable (names.step "outcome") := (Step.return.inj equal).2
  rw [Json.string.inj value] at plain
  simp at plain

theorem Calm.return_finish {value : Json} : Calm program (.return "finish" value) := by
  refine .single rfl fun names abort equal => ?_
  have named : "finish" = names.step (abort.label ++ "_return") := (Step.return.inj equal).1
  exact names.step_ne_of_no_underscore _ (by decide) named.symm

end

theorem calm_setupRoutine {program : Program} (settings : Settings) (flow : Flow)
    (registry : Registry) :
    ∀ step ∈ (Compile.setupRoutine settings flow registry).steps, Calm program step := by
  intro step member
  simp only [Compile.setupRoutine, List.mem_cons, List.not_mem_nil, or_false] at member
  rcases member with rfl | rfl | rfl
  · exact .of_isOperation Primitive.isPrimitive_getEnv
  · exact .of_isOperation Primitive.isPrimitive_log
  · exact .return_finish

end Step

theorem Action.isOperation_steps (settings : Settings) (names : Names) (registry : Registry)
    (action : Action) :
    (action.steps settings names registry ++ action.binding names).all isOperation := by
  cases action <;> simp [steps, binding, result?, post, assignResult]

namespace Fork

theorem isOperation_openingSteps (settings : Settings) (names : Names) (registry : Registry)
    (fork : Fork) : (fork.openingSteps settings names registry).all isOperation := by
  have prompt : ∀ fork : Fork, (fork.promptSteps settings names registry).all isOperation := by
    intro fork
    cases again : fork.asksAgain <;> simp [promptSteps, again, post]
  cases fork with
  | split | branch => simp [openingSteps, evaluationSteps, post, assignResult]
  | text | buttons | list => exact prompt _

/-- The choice of an exit stands at the end of a fork. -/
theorem orderly_steps (settings : Settings) (program : Program) (names : Names)
    (registry : Registry) (fork : Fork) (exits : List Exit) :
    Orderly settings program (fork.steps settings names registry exits) := by
  have dispatching : ∀ branch ∈ fork.cases names (registry.bindVariable names.result) exits,
      ¬ branch.Calm program →
        branch.next = none ∧ ∃ name made, branch.steps = [.call name made] := by
    intro branch isCase notCalm
    rcases retries_or_exists_exit isCase with ⟨_, retry⟩ | ⟨exit, _, own⟩
    · refine absurd (calm_of_all_isOperation ?_) notCalm
      rw [retry]
      rfl
    · rw [own]
      exact ⟨rfl, _, _, rfl⟩
  have nothing : ∀ step ∈ ([] : List Step), Trailing settings step := List.forall_mem_nil _
  refine .append_calm (calm_of_all_isOperation (fork.isOperation_openingSteps _ _ _))
    (.switch (fun branch isCase notCalm => ?_)
      (fun branch isCase notCalm => .inr ⟨(dispatching branch isCase notCalm).1, nothing⟩)
      (.trailing nothing))
  rcases (dispatching branch isCase notCalm).2 with ⟨name, made, equal⟩
  rw [equal]
  exact .call nothing

end Fork

namespace Subflow

/-- With an exit for failure, a subflow that is aborted returns behind the call of its routine. -/
theorem abortSteps_eq (settings : Settings) (names : Names) (registry : Registry)
    (subflow : Subflow) (exit : Exit) (exits : List Exit) (abort : Abort) :
    subflow.abortSteps settings names registry (exit :: exits) abort =
      [dispatch (names.step (abort.label ++ "_" ++ exit.dispatch)) (names.routine exit.slug) names
          registry,
        clearSession settings (names.step (abort.label ++ "_clear_session")),
        abortReturn names abort] := rfl

/-- Where a subflow is aborted, the run stops: it raises an error, or it cleans up and returns
behind the call of the routine for this case. -/
theorem orderly_abortSteps (settings : Settings) (program : Program) (names : Names)
    (registry : Registry) (subflow : Subflow) (exits : List Exit) (abort : Abort) :
    Orderly settings program (subflow.abortSteps settings names registry exits abort) ∧
      Stops (subflow.abortSteps settings names registry exits abort) := by
  have straight : ∀ step ∈ subflow.abortSteps settings names registry exits abort,
      step.jumps = [] := jumps_of_all_isPlain isPlain_abortSteps
  cases exits with
  | nil =>
      exact ⟨.calm (.of_isOperation rfl) (.trailing (List.forall_mem_nil _)),
        straight, [], _, rfl, .inl ⟨_, _, rfl⟩⟩
  | cons exit rest =>
      rw [abortSteps_eq] at straight ⊢
      refine ⟨.call fun step member => ?_, straight, [_, _], _, rfl, .inr ⟨_, _, rfl⟩⟩
      rcases List.mem_pair.mp member with rfl | rfl
      · exact .abortClear names abort
      · exact .abortReturn names abort

theorem orderly_steps {settings : Settings} {program : Program} {names : Names}
    {registry : Registry} {subflow : Subflow} {exits : List Exit} {rest : List Step}
    (orderly : Orderly settings program rest) :
    Orderly settings program (subflow.steps settings names registry exits ++ rest) := by
  have aborting : ∀ branch ∈ subflow.checkCases settings names registry exits,
      ¬ branch.Calm program → ∃ abort,
        branch.steps = subflow.abortSteps settings names registry exits abort := by
    intro branch isCase notCalm
    simp only [checkCases, List.mem_cons, List.not_mem_nil, or_false] at isCase
    rcases isCase with rfl | rfl | rfl | rfl
    · exact absurd (calm_of_all_isOperation rfl) notCalm
    · exact ⟨.failed, rfl⟩
    · exact ⟨.timedOut, rfl⟩
    · exact absurd (calm_of_all_isOperation (by simp [Case.steps])) notCalm
  refine @Orderly.append_calm _ _ [_, _, _, _] _ (calm_of_all_isOperation (by simp [post]))
    (.switch (fun branch isCase notCalm => ?_) (fun branch isCase notCalm => .inl ?_)
      (@Orderly.append_calm _ _ [_, _, _] _
        (calm_of_all_isOperation (by simp [post, clearSession])) orderly))
  all_goals
    rcases aborting branch isCase notCalm with ⟨abort, equal⟩
    rw [equal]
  · exact (subflow.orderly_abortSteps settings program names registry exits abort).1
  · exact (subflow.orderly_abortSteps settings program names registry exits abort).2

end Subflow

/-! ## Routines -/

/-- The steps of a walk are orderly: each is a block, and nothing stands behind a block. -/
theorem Walk.orderly_steps (settings : Settings) (program : Program) :
    ∀ (walk : Walk Visit) (scope : Scope), Orderly settings program (walk.steps settings scope)
  | .done, _ => .trailing (List.forall_mem_nil _)
  | .terminal visit, scope => by
      refine .calm (.return_string ?_) (.trailing (List.forall_mem_nil _))
      cases scope.insideLoop <;> decide
  | .action visit act next, scope =>
      .block (.append_calm (calm_of_all_isOperation (act.isOperation_steps _ _ _))
        (orderly_steps settings program next _)) (List.forall_mem_nil _)
  | .fork visit choice exits, scope =>
      .block (choice.orderly_steps settings program _ _ _) (List.forall_mem_nil _)
  | .subflow visit called exits next, scope =>
      .block (Subflow.orderly_steps (orderly_steps settings program next _))
        (List.forall_mem_nil _)
  | .loop visit start _ next, scope =>
      .block (.calm (.of_isOperation rfl) (.calm (.loop _ _ _)
        (orderly_steps settings program next _))) (List.forall_mem_nil _)

namespace Compile

variable {settings : Settings} {lookup : BranchLookup} {flow : Flow} {program : Program}

theorem Frame.orderly {walk : Walk Visit} {front back : List Step}
    (frame : Frame settings program walk front back) (scope : Scope) :
    Orderly settings program (front ++ walk.steps settings scope ++ back) := by
  cases frame with
  | main registry prepared =>
      refine .calm (.call prepared (calm_setupRoutine settings _ registry))
        ((walk.orderly_steps settings program scope).append_trailing fun step member => ?_)
      rcases List.mem_pair.mp member with rfl | rfl
      · exact .clear
      · exact .finish _
  | setup flow registry => exact orderly_of_calm (calm_setupRoutine settings flow registry)
  | routine closing =>
      cases closing with
      | finish | resume =>
          refine (walk.orderly_steps settings program scope).append_trailing fun step member => ?_
          rw [List.mem_singleton.mp member]
          exact .finish _
      | stub exit =>
          refine orderly_of_calm fun step member => ?_
          rw [List.mem_singleton.mp member]
          exact .return_string (by simp [String.toList_append])
  | empty =>
      refine orderly_of_calm fun step member => ?_
      rw [List.mem_singleton.mp member]
      exact .return_string (by decide)

theorem orderly_of_build (built : build settings lookup flow = .ok program) {name : String}
    {routine : Routine} (found : program.routines.get? name = some routine) :
    Orderly settings program routine.steps ∧ JumpsLocal routine.steps := by
  have member : (name, routine) ∈ program.routines.entries := Table.get?_eq_some_iff.mp found
  rcases exists_framed built member with ⟨scope, part, framed⟩
  rcases framed.steps with ⟨front, back, frame, equal⟩
  exact ⟨equal ▸ frame.orderly scope, jumpsLocal_of_build built _ member⟩

end Compile

/-- A subflow that is aborted outside of all loops ends the run: nothing is run any more but steps
that clean up and return. Within a loop it ends only the iteration, as this holds of the routine of
a loop body, too. -/
theorem aborts_outside_loops_final {settings : Settings} {lookup : BranchLookup} {flow : Flow}
    {program : Program} (compiled : compile settings lookup flow = .ok program) {name : String}
    {routine : Routine} (found : program.routines.get? name = some routine) {World : Type}
    (engine : Engine World) (fuel : Nat) (args : Table Json) (world : World) :
    Final settings (engine.runRoutine program fuel name routine args world).events := by
  rw [compile_eq_build] at compiled
  rcases Compile.orderly_of_build compiled found with ⟨orderly, jumpsLocal⟩
  exact Engine.final_run (fun _ _ isRoutine => Compile.orderly_of_build compiled isRoutine) fuel
    orderly jumpsLocal (List.suffix_refl _)

/-! ## Samples -/

def Engine.scripted (holding : List Json) : Engine Unit where
  evaluate _ value := some (if value ∈ holding then .bool true else value)
  perform world _ _ := (some .null, world)

def Subflow.failedState (names : Names) : Json :=
  evaluate (names.step "status" ++ ".body.status == " ++ literal "failed")

def Event.returns? (event : Event) : Option (String × Json) :=
  match event.step with
  | .return name value => some (name, value)
  | _ => none

theorem Event.eq_of_returns? {event : Event} {name : String} {value : Json}
    (returns : event.returns? = some (name, value)) : event.step = .return name value := by
  rw [returns?] at returns
  split at returns
  case h_1 _ _ _ equal =>
    cases returns
    exact equal
  case h_2 => cases returns

def namesBehind (name : String) (events : List Event) : List String :=
  ((events.map fun event => event.step.name).dropWhile (· ≠ name)).drop 1

theorem Compile.exists_main_of_any (settings : Settings) (lookup : BranchLookup) (flow : Flow)
    {p : Program → Routine → Bool}
    (holds : (compile settings lookup flow).toOption.any fun program =>
      (program.routines.get? "main").any (p program)) :
    ∃ program routine, compile settings lookup flow = .ok program ∧
      program.routines.get? "main" = some routine ∧ p program routine := by
  rcases (Option.any_eq_true _ _).mp holds with ⟨program, isOk, holds⟩
  rcases (Option.any_eq_true _ _).mp holds with ⟨routine, found, holds⟩
  cases compiled : compile settings lookup flow with
  | error error =>
      rw [compiled] at isOk
      cases isOk
  | ok other =>
      rw [compiled] at isOk
      cases isOk
      exact ⟨program, routine, rfl, found, holds⟩

/-- The subflow of the sample flow fails. The routine it is in was called by the main routine, which
then ends the session. -/
theorem aborts_outside_loops_final_sample :
    let ask : Names := ⟨1, "ask_1_send_1", "buttons"⟩
    let bill : Names := ⟨2, "bill_2", "subflow"⟩
    let holding := (Fork.condition? ask (.reply "yes")).toList ++ [Subflow.failedState bill]
    ∃ program routine,
      compile .standard Compile.sampleLookup Compile.sampleFlow = .ok program ∧
      program.routines.get? "main" = some routine ∧
        let events :=
          ((Engine.scripted holding).runRoutine program 20 "main" routine .empty ()).events
        Final .standard events ∧ (∃ event ∈ events, event.Aborts) ∧
          namesBehind (bill.step "failed_return") events = ["clear_session", "finish"] := by
  intro ask bill holding
  rcases Compile.exists_main_of_any .standard Compile.sampleLookup Compile.sampleFlow
    (p := fun program routine =>
      let events := ((Engine.scripted holding).runRoutine program 20 "main" routine .empty ()).events
      (events.map fun event => (event.iterating, event.returns?)).contains
          (false, some (bill.step "failed_return", ofVariable (bill.step "outcome"))) ∧
        namesBehind (bill.step "failed_return") events = ["clear_session", "finish"])
    (by decide +kernel) with ⟨program, routine, compiled, found, holds⟩
  rcases of_decide_eq_true holds with ⟨aborts, behind⟩
  refine ⟨program, routine, compiled, found, aborts_outside_loops_final compiled found _ _ _ _, ?_,
    behind⟩
  rcases List.mem_map.mp (List.contains_iff_mem.mp aborts) with ⟨event, member, equal⟩
  exact ⟨event, member, congrArg Prod.fst equal, bill, .failed,
    Event.eq_of_returns? (congrArg Prod.snd equal)⟩

def Compile.repeatingFlow : Flow where
  flowId := "repeat"
  title := "Repeat"
  organisationId := "shop"
  branchId := "north"
  nodes := [
    ⟨"start", "Start", .trigger ⟨none⟩⟩,
    ⟨"each", "Each", .loopStart ⟨.count 2, none⟩⟩,
    ⟨"note", "Note", .sendText ⟨"Hello", false, none, none⟩⟩,
    ⟨"bill", "Bill", .subflow ⟨"billing", none⟩⟩,
    ⟨"late", "Late", .alert ⟨"Late", [], "mail"⟩⟩,
    ⟨"done", "Done", .loopEnd⟩,
    ⟨"bye", "Bye", .sendText ⟨"Bye", false, none, none⟩⟩]
  edges := [
    ⟨"1", "start", "each", "next-step"⟩,
    ⟨"2", "each", "note", "next-step"⟩,
    ⟨"3", "note", "bill", "next-step"⟩,
    ⟨"4", "bill", "done", "next-step"⟩,
    ⟨"5", "bill", "late", "failure"⟩,
    ⟨"6", "done", "bye", "next-step"⟩]

/-- Behind a subflow that was aborted in an iteration, the next iteration is run, and then the nodes
behind the loop. -/
theorem aborts_in_loops_not_final :
    let bill : Names := ⟨3, "bill_3", "subflow"⟩
    ∃ program routine, compile .standard Compile.sampleLookup Compile.repeatingFlow = .ok program ∧
      program.routines.get? "main" = some routine ∧
        let events := ((Engine.scripted [Subflow.failedState bill]).runRoutine program 20 "main"
          routine .empty ()).events
        "note_2_send" ∈ namesBehind (bill.step "failed_return") events ∧
          "bye_5_send" ∈ namesBehind (bill.step "failed_return") events ∧
          ¬ events.Pairwise fun event later =>
            event.step = Subflow.abortReturn bill .failed → Trailing .standard later.step := by
  intro bill
  let facts (event : Event) : Option (String × Json) × Bool := (event.returns?, event.step.isSingle)
  let aborts : Option (String × Json) :=
    some (bill.step "failed_return", ofVariable (bill.step "outcome"))
  rcases Compile.exists_main_of_any .standard Compile.sampleLookup Compile.repeatingFlow
    (p := fun program routine =>
      let events := ((Engine.scripted [Subflow.failedState bill]).runRoutine program 20 "main"
        routine .empty ()).events
      "note_2_send" ∈ namesBehind (bill.step "failed_return") events ∧
        "bye_5_send" ∈ namesBehind (bill.step "failed_return") events ∧
        [(aborts, true), (none, false)].Sublist (events.map facts))
    (by decide +kernel) with ⟨program, routine, compiled, found, holds⟩
  rcases of_decide_eq_true holds with ⟨note, bye, behind⟩
  refine ⟨program, routine, compiled, found, note, bye, fun final => ?_⟩
  -- Trailing steps hold no other steps, but a block stands behind the abort.
  have single : List.Pairwise (fun first later => first.1 = aborts → later.2 = true)
      (List.map facts _) :=
    List.pairwise_map.mpr (final.imp fun trailing returns =>
      Engine.isSingle_of_trailing (trailing (Event.eq_of_returns? returns)))
  cases List.rel_of_pairwise_cons (single.sublist behind) List.mem_cons_self rfl

end FlowCompiler
