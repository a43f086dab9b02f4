import FlowCompiler.Proofs.Checked
import FlowCompiler.Proofs.Course
import Mathlib.Data.List.Forall2

namespace FlowCompiler

/-! Programs do what their flows say. The steps of every walk have its outline once their calls
are linked to the routines of the program, and the walk of a program has the course of the
flow. -/

open Lowering Step

/-! ## Single visits -/

section

variable {resolve : String → Option (List Control)} {settings : Settings} {names : Names}
  {registry : Registry}

theorem Ending.ofName_eq_own (proper : names.Proper) {name : String} (owns : names.Owns name) :
    ofName name = .own := by
  have finish : name ≠ "finish" := fun equal =>
    owns.not_wordy proper (equal ▸ by decide)
  have stub : name ≠ "no_further_steps" := fun equal =>
    owns.not_wordy proper (equal ▸ by decide)
  rw [ofName, if_neg finish, if_neg stub]

theorem Step.control?_post {name path : String} {body : Json} {result : Option String} :
    control? resolve (post settings name path body result) =
      some (.operation Primitive.httpPost) :=
  control?_primitive Primitive.isPrimitive_httpPost

theorem Action.stepsControl?_steps (action : Action) :
    stepsControl? resolve (action.steps settings names registry ++ action.binding names) =
      some action.control := by
  cases action with
  | delay pause => exact stepsControl?_cons (control?_primitive Primitive.isPrimitive_sleep) rfl
  | apiCall request =>
      exact stepsControl?_cons (control?_primitive Primitive.isPrimitive_httpRequest) rfl
  | webhook hook =>
      exact stepsControl?_cons (control?_primitive Primitive.isPrimitive_awaitCallback) rfl
  | _ => exact stepsControl?_cons control?_post rfl

structure Exit.Linked (resolve : String → Option (List Control)) (names : Names) (exit : Exit)
    (branch : Outlet × List Control) : Prop where
  outlet : exit.outlet = branch.1
  generated : Primitive.isPrimitive (names.routine exit.slug) = false
  resolved : resolve (names.routine exit.slug) = some branch.2

theorem Exit.Linked.control?_dispatch {exit : Exit} {branch : Outlet × List Control}
    (linked : exit.Linked resolve names branch) {name : String} :
    control? resolve (Lowering.dispatch name (names.routine exit.slug) names registry) =
      some (.routine branch.2) :=
  control?_routine linked.generated linked.resolved

namespace Fork

theorem stepsControl?_openingSteps (fork : Fork) :
    stepsControl? resolve (fork.openingSteps settings names registry) =
      some fork.openingControl := by
  have prompt : ∀ fork : Fork, stepsControl? resolve (fork.promptSteps settings names registry) =
      some (Control.prompt fork.asksAgain) := by
    intro fork
    rw [promptSteps, Control.prompt]
    cases fork.asksAgain with
    | true =>
        exact stepsControl?_cons rfl (stepsControl?_cons control?_post
          (stepsControl?_cons (control?_primitive Primitive.isPrimitive_awaitCallback) rfl))
    | false =>
        exact stepsControl?_cons control?_post
          (stepsControl?_cons (control?_primitive Primitive.isPrimitive_awaitCallback) rfl)
  cases fork with
  | split | branch => exact stepsControl?_cons control?_post rfl
  | text | buttons | list => exact prompt _

theorem yes_ne_noResponse : Outlet.yes ≠ .noResponse := by
  decide

/-- A fork that asks again has one exit without a test, the one for no response. -/
theorem otherwise_iff_noResponse {fork : Fork} (again : fork.asksAgain) {exit : Exit}
    (member : exit ∈ fork.exits) : exit.test = .otherwise ↔ exit.outlet = .noResponse := by
  have last : Exit.noResponse.test = .otherwise ↔ Exit.noResponse.outlet = .noResponse :=
    iff_of_true rfl rfl
  cases fork with
  | text message =>
      rcases List.mem_cons.mp member with equal | member
      · rw [equal]
        exact iff_of_false (by simp [Exit.anyReply]) yes_ne_noResponse
      · rw [List.mem_singleton.mp member]
        exact last
  | buttons prompt =>
      rcases List.mem_append.mp member with member | member
      · rcases List.mem_mapIdx.mp member with ⟨index, bound, rfl⟩
        exact iff_of_false (by simp [Exit.option]) (by simp [Exit.option, Outlet.noResponse])
      · rw [List.mem_singleton.mp member]
        exact last
  | list prompt =>
      rcases List.mem_append.mp member with member | member
      · rcases List.mem_mapIdx.mp member with ⟨index, bound, rfl⟩
        exact iff_of_false (by simp [Exit.option]) (by simp [Exit.option, Outlet.noResponse])
      · rw [List.mem_singleton.mp member]
        exact last
  | split | branch => cases again

theorem casesControl?_cases {fork : Fork} {exits : List Exit}
    {branches : List (Outlet × List Control)}
    (linked : List.Forall₂ (Exit.Linked resolve names) exits branches)
    (last : fork.asksAgain → ∀ exit ∈ exits, exit.test = .otherwise ↔ exit.outlet = .noResponse) :
    casesControl? resolve (fork.cases names registry exits) =
      some (Control.cases fork.asksAgain branches) := by
  -- One exit yields one case, or two: the retry of a fork that asks again stands in front of the
  -- exit without a test, which the outlet for no response tells.
  induction linked with
  | nil => rfl
  | @cons exit branch exits branches first others induction =>
      have tail := induction fun again other member =>
        last again other (List.mem_cons_of_mem _ member)
      have called : stepsControl? resolve [dispatch (names.step exit.dispatch)
          (names.routine exit.slug) names registry] = some [.routine branch.2] :=
        stepsControl?_cons first.control?_dispatch rfl
      have split : fork.cases names registry (exit :: exits) =
          (if fork.asksAgain ∧ exit.test = .otherwise then [retryCase names] else []) ++
            exitCase names registry exit :: fork.cases names registry exits := by
        simp [cases]
      have joined : Control.cases fork.asksAgain (branch :: branches) =
          (if fork.asksAgain ∧ branch.1 = .noResponse then [[.assign]] else []) ++
            [.routine branch.2] :: Control.cases fork.asksAgain branches := by
        simp [Control.cases]
      have same : (fork.asksAgain ∧ branch.1 = .noResponse) ↔
          (fork.asksAgain ∧ exit.test = .otherwise) := by
        rw [← first.outlet]
        exact and_congr_right fun again => (last again exit List.mem_cons_self).symm
      rw [split, joined]
      by_cases again : fork.asksAgain ∧ exit.test = .otherwise
      · rw [if_pos again, if_pos (same.mpr again)]
        exact casesControl?_cons rfl (casesControl?_cons called tail)
      · rw [if_neg again, if_neg (mt same.mp again)]
        exact casesControl?_cons called tail

theorem stepsControl?_steps {fork : Fork} {branches : List (Outlet × List Control)}
    (linked : List.Forall₂ (Exit.Linked resolve names) fork.exits branches) :
    stepsControl? resolve (fork.steps settings names registry fork.exits) =
      some (fork.openingControl ++ [.choice (Control.cases fork.asksAgain branches)]) := by
  refine stepsControl?_append fork.stepsControl?_openingSteps (stepsControl?_cons ?_ rfl)
  rw [control?, casesControl?_cases linked
    fun again _ member => otherwise_iff_noResponse again member]
  rfl

end Fork

namespace Subflow

theorem wordy_return (abort : Abort) : Text.Wordy (abort.label ++ "_return") := by
  cases abort <;> decide

theorem stepsControl?_abortSteps {subflow : Subflow} {exits : List Exit}
    {branches : List (Outlet × List Control)} (proper : names.Proper)
    (linked : List.Forall₂ (Exit.Linked resolve names) exits branches) (abort : Abort) :
    stepsControl? resolve (subflow.abortSteps settings names registry exits abort) =
      some (Control.abort branches) := by
  cases linked with
  | nil => rfl
  | cons first _ =>
      have returned : control? resolve (.return (names.step (abort.label ++ "_return"))
          (Expression.ofVariable (names.step "outcome"))) = some (.return .own) := by
        rw [control?, Ending.ofName_eq_own proper (.step (wordy_return abort))]
      exact stepsControl?_cons first.control?_dispatch
        (stepsControl?_cons control?_post (stepsControl?_cons returned rfl))

theorem stepsControl?_steps {subflow : Subflow} {exits : List Exit}
    {branches : List (Outlet × List Control)} (proper : names.Proper)
    (linked : List.Forall₂ (Exit.Linked resolve names) exits branches) :
    stepsControl? resolve (subflow.steps settings names registry exits) =
      some (Control.subflow branches) := by
  have cases : casesControl? resolve (subflow.checkCases settings names registry exits) =
      some [[], Control.abort branches, Control.abort branches,
        [.assign, .operation Primitive.sleep]] :=
    casesControl?_cons rfl
      (casesControl?_cons (stepsControl?_abortSteps proper linked .failed)
        (casesControl?_cons (stepsControl?_abortSteps proper linked .timedOut)
          (casesControl?_cons
            (stepsControl?_cons rfl
              (stepsControl?_cons (control?_primitive Primitive.isPrimitive_sleep) rfl)) rfl)))
  have checked : control? resolve
      (.switch (names.step "check") (subflow.checkCases settings names registry exits)) =
        some (.choice [[], Control.abort branches, Control.abort branches,
          [.assign, .operation Primitive.sleep]]) := by
    rw [control?, cases]
    rfl
  exact stepsControl?_cons (control?_primitive Primitive.isPrimitive_getEnv)
    (stepsControl?_cons control?_post (stepsControl?_cons rfl
      (stepsControl?_cons (control?_primitive Primitive.isPrimitive_httpGet)
        (stepsControl?_cons checked (stepsControl?_cons rfl
          (stepsControl?_cons (control?_primitive Primitive.isPrimitive_httpDelete)
            (stepsControl?_cons control?_post rfl)))))))

end Subflow

theorem LoopStart.stepsControl?_steps {start : LoopStart} {inside : List Control}
    (generated : Primitive.isPrimitive (bodyRoutine names) = false)
    (resolved : resolve (bodyRoutine names) = some inside) :
    stepsControl? resolve (start.steps settings names registry) =
      some (Control.loop start.isGuarded inside) := by
  have called : control? resolve (start.bodyCall names registry) = some (.routine inside) :=
    control?_routine generated resolved
  have iterated : stepsControl? resolve (start.iteration names registry) =
      some ((if start.isGuarded then [.choice [[]]] else []) ++ [.routine inside]) := by
    rw [iteration, isGuarded]
    cases start.loopValue with
    | list expression => exact stepsControl?_cons rfl (stepsControl?_cons called rfl)
    | count number => exact stepsControl?_cons called rfl
  refine stepsControl?_cons rfl (stepsControl?_cons ?_ rfl)
  rw [control?, iterated]
  rfl

end

theorem ProperExits.tail {exit : Exit} {rest : List Exit} (proper : ProperExits (exit :: rest)) :
    ProperExits rest :=
  ⟨proper.distinct.of_cons, fun slug member => proper.known slug (List.mem_cons_of_mem _ member)⟩

/-! ## Walks -/

namespace Walk

/-! ### Names -/

mutual
theorem outline_name : ∀ (walk : Walk Node) (source : NameSource),
    (walk.name source).1.outline Visit.node = walk.outline id
  | .done, _ => rfl
  | .terminal _, _ => rfl
  | .action node act next, source => by
      have rest := outline_name next (source.visit node).2
      simp only [name, outline, rest]
      rfl
  | .fork node choice exits, source => by
      have behind := branches_nameExits exits (source.visit node).2
      simp only [name, outline, behind]
      rfl
  | .subflow node called exits next, source => by
      have behind := branches_nameExits exits (source.visit node).2
      have rest := outline_name next (nameExits (source.visit node).2 exits).2
      simp only [name, outline, behind, rest]
      rfl
  | .loop node start body next, source => by
      have inside := outline_name body (source.visit node).2
      have rest := outline_name next (body.name (source.visit node).2).2
      simp only [name, outline, inside, rest]
      rfl

theorem branches_nameExits : ∀ (exits : List (Exit × Option (Walk Node))) (source : NameSource),
    branches Visit.node (nameExits source exits).1 = branches id exits
  | [], _ => rfl
  | (_, none) :: rest, source => by
      have others := branches_nameExits rest source
      simp only [nameExits, branches, others]
  | (_, some walk) :: rest, source => by
      have first := outline_name walk source
      have others := branches_nameExits rest (walk.name source).2
      simp only [nameExits, branches, first, others]
end

theorem Proper.withoutNumber_result {walk : Walk Visit} (proper : walk.Proper) {visit : Visit}
    (member : visit ∈ walk.visits) :
    Text.withoutNumber visit.names.result = visit.node.heading := by
  rw [proper.made visit member]
  exact Text.withoutNumber_append _ _

/-! ### Linked steps -/

def Holds (program : Program) (entries : List (String × Routine)) : Prop :=
  ∀ entry ∈ entries, program.routines.get? entry.1 = some entry.2

section

variable {program : Program} {settings : Settings}

theorem control?_of_mem {entries : List (String × Routine)} (holds : Holds program entries)
    {name : String} {routine : Routine} (member : (name, routine) ∈ entries) {depth : Nat}
    (deep : 0 < depth) {inside : List Control}
    (known : stepsControl? (program.control? (depth - 1)) routine.steps = some inside) :
    program.control? depth name = some inside := by
  cases depth with
  | zero => cases deep
  | succ depth =>
      rw [Program.control?, holds _ member]
      exact known

theorem stepsControl?_finish {resolve : String → Option (List Control)} {steps : List Step}
    {value : Json} {inside : List Control} (known : stepsControl? resolve steps = some inside) :
    stepsControl? resolve (steps ++ [.return "finish" value]) =
      some (inside ++ [.return .finish]) :=
  stepsControl?_append known rfl

mutual
/-- The steps of a walk have its outline, if the program has all its routines and calls are
unfolded deep enough for them. -/
theorem stepsControl?_steps : ∀ (walk : Walk Visit) {scope : Scope} {depth : Nat}, walk.Proper →
    Holds program (walk.routines settings scope) →
    (walk.routines settings scope).length ≤ depth →
      stepsControl? (program.control? depth) (walk.steps settings scope) =
        some (walk.outline Visit.node)
  -- One level of depth is lost at each call of a routine, and a routine is in the list behind
  -- those it calls, so what is left suffices for the shorter list.
  | .done, _, _, _, _, _ => rfl
  | .terminal visit, scope, _, proper, _, _ => by
      have own := Ending.ofName_eq_own (proper.names_of_mem List.mem_cons_self) .result
      refine stepsControl?_cons ?_ rfl
      rw [control?, own]
  | .action visit act next, scope, _, proper, holds, deep => by
      have rest := stepsControl?_steps next proper.next_action holds deep
      exact stepsControl?_block (proper.withoutNumber_result List.mem_cons_self)
        (stepsControl?_append act.stepsControl?_steps rest)
  | .fork visit choice exits, scope, _, proper, holds, deep => by
      have own : visit.names.Proper := proper.names_of_mem List.mem_cons_self
      have shape : exits.map Prod.fst = choice.exits := proper.shaped.1
      have linked := linked_exits exits own (shape ▸ choice.properExits)
        (fun _ _ member => proper.behind_fork member) holds deep
      rw [shape] at linked
      rw [steps, shape]
      exact stepsControl?_block (proper.withoutNumber_result List.mem_cons_self)
        (Fork.stepsControl?_steps linked)
  | .subflow visit called exits next, scope, depth, proper, holds, deep => by
      have own : visit.names.Proper := proper.names_of_mem List.mem_cons_self
      rw [routines, List.length_append] at deep
      have linked := linked_exits exits own (properExits_of_subflow proper.shaped.1)
        (fun _ _ member => proper.behind_subflow member)
        (fun entry member => holds entry (List.mem_append_left _ member)) (show _ ≤ depth by omega)
      have rest := stepsControl?_steps next proper.next_subflow
        (fun entry member => holds entry (List.mem_append_right _ member))
        (show _ ≤ depth by omega)
      exact stepsControl?_block (proper.withoutNumber_result List.mem_cons_self)
        (stepsControl?_append (Subflow.stepsControl?_steps own linked) rest)
  | .loop visit start body next, scope, depth, proper, holds, deep => by
      have own : visit.names.Proper := proper.names_of_mem List.mem_cons_self
      have identifier : Primitive.isPrimitive (LoopStart.bodyRoutine visit.names) = false :=
        Primitive.isPrimitive_eq_false (Names.isIdentifier_routine own (by decide))
      simp only [routines, List.length_append, List.length_singleton] at deep
      have inside := stepsControl?_steps body proper.body_loop
        (fun entry member =>
          holds entry (List.mem_append_left _ (List.mem_append_left _ member)))
        (show _ ≤ depth - 1 by omega)
      have resolved := control?_of_mem holds
        (List.mem_append_left _ (List.mem_append_right _ List.mem_cons_self))
        (show 0 < depth by omega) (stepsControl?_finish inside)
      have rest := stepsControl?_steps next proper.next_loop
        (fun entry member => holds entry (List.mem_append_right _ member))
        (show _ ≤ depth by omega)
      exact stepsControl?_block (proper.withoutNumber_result List.mem_cons_self)
        (stepsControl?_append (LoopStart.stepsControl?_steps identifier resolved) rest)

/-- The calls behind the exits of a node lead to the branches of the outline. -/
theorem linked_exits : ∀ (exits : List (Exit × Option (Walk Visit))) {names : Names}
    {scope : Scope} {depth : Nat}, names.Proper → ProperExits (exits.map Prod.fst) →
    (∀ exit walk, (exit, some walk) ∈ exits → walk.Proper) →
    Holds program (exitRoutines settings names scope exits) →
    (exitRoutines settings names scope exits).length ≤ depth →
      List.Forall₂ (Exit.Linked (program.control? depth) names) (exits.map Prod.fst)
        (branches Visit.node exits)
  | [], _, _, _, _, _, _, _, _ => .nil
  | (exit, none) :: rest, names, scope, depth, own, exitsProper, proper, holds, deep => by
      have generated := exitsProper.isPrimitive_eq_false own List.mem_cons_self
      have resolved : program.control? depth (names.routine exit.slug) = some [.return .stub] :=
        control?_of_mem holds List.mem_cons_self (Nat.zero_lt_of_lt deep) rfl
      have others := linked_exits rest own exitsProper.tail
        (fun exit walk member => proper exit walk (List.mem_cons_of_mem _ member))
        (fun entry member => holds entry (List.mem_cons_of_mem _ member))
        (Nat.le_of_succ_le deep)
      exact .cons ⟨rfl, generated, resolved⟩ others
  | (exit, some walk) :: rest, names, scope, depth, own, exitsProper, proper, holds, deep => by
      have generated := exitsProper.isPrimitive_eq_false own List.mem_cons_self
      simp only [exitRoutines, List.length_append, List.length_cons] at deep
      have inside := stepsControl?_steps walk (proper exit walk List.mem_cons_self)
        (fun entry member => holds entry (List.mem_append_left _ member))
        (show _ ≤ depth - 1 by omega)
      have resolved := control?_of_mem holds
        (List.mem_append_right _ List.mem_cons_self) (show 0 < depth by omega)
        (stepsControl?_finish inside)
      have others := linked_exits rest own exitsProper.tail
        (fun exit walk member => proper exit walk (List.mem_cons_of_mem _ member))
        (fun entry member => holds entry
          (List.mem_append_right _ (List.mem_cons_of_mem _ member)))
        (show _ ≤ depth by omega)
      exact .cons ⟨rfl, generated, resolved⟩ others
end

end

end Walk

/-! ## Programs -/

namespace Compile

def mainControl (course : List Control) : List Control :=
  [.routine [.operation Primitive.getEnv, .operation Primitive.log, .return .finish]] ++ course ++
    [.operation Primitive.httpPost, .return .finish]

theorem Assembled.control?_main {settings : Settings} {flow : Flow} {branch : Branch}
    {children : List Node} {walk : Walk Visit} {program : Program}
    (assembled : Assembled settings flow branch children walk program) {depth : Nat}
    (deep : program.size ≤ depth) :
    program.control? depth Program.mainName = some (mainControl (walk.outline Visit.node)) := by
  have holds : Walk.Holds program
      (allRoutines settings flow branch (startScope flow branch children) walk) :=
    fun _ member => assembled.get?_eq_some_iff.mpr member
  have size : program.size =
      (walk.routines settings (startScope flow branch children)).length + 2 := by
    rw [Program.size, Table.size, assembled.entries]
    rfl
  have prepared : program.control? (depth - 1) setupName =
      some [.operation Primitive.getEnv, .operation Primitive.log, .return .finish] :=
    Walk.control?_of_mem holds (List.mem_cons_of_mem _ List.mem_cons_self)
      (show 0 < depth - 1 by omega)
      (stepsControl?_cons (control?_primitive Primitive.isPrimitive_getEnv)
        (stepsControl?_cons (control?_primitive Primitive.isPrimitive_log) rfl))
  have generated : Primitive.isPrimitive setupName = false := by decide
  have setup : stepsControl? (program.control? (depth - 1))
      [setupStep (branchRegistry flow branch)] = some [.routine _] :=
    stepsControl?_cons (control?_routine generated prepared) rfl
  have course := Walk.stepsControl?_steps walk assembled.proper
    (fun entry member =>
      holds entry (List.mem_cons_of_mem _ (List.mem_cons_of_mem _ member)))
    (show _ ≤ depth - 1 by omega)
  exact Walk.control?_of_mem holds List.mem_cons_self (show 0 < depth by omega)
    (stepsControl?_append (stepsControl?_append setup course)
      (stepsControl?_cons control?_post rfl))

end Compile

/-- A compiled program does what its flow says: `main`, with the calls of routines unfolded, has
the course of the graph behind the trigger. -/
theorem compiled_control (settings : Settings) (lookup : BranchLookup) (flow : Flow)
    (program : Program) (compiled : compile settings lookup flow = .ok program)
    (trigger first : Node) (started : flow.trigger? = some trigger)
    (connected : (Graph.ofFlow flow).next? trigger.id .nextStep = some first) :
    ∃ course,
      (∀ depth, (Graph.ofFlow flow).ids.length < depth →
        (Graph.ofFlow flow).course? depth none first = some course) ∧
      ∀ depth, program.size ≤ depth →
        program.control? depth Program.mainName = some (Compile.mainControl course) := by
  rw [compile_eq_build] at compiled
  rcases Compile.exists_unfolded_of_connected started connected compiled with
    ⟨branch, walk, _, unfolds, equal⟩
  refine ⟨walk.outline id, fun _ deep => unfolds.course?_eq deep, fun depth deep => ?_⟩
  subst equal
  have assembled := Compile.assembled_of_unfolds settings branch connected unfolds
  rw [assembled.control?_main deep, Compile.namedWalk, Walk.outline_name]

theorem compiled_control_sample :
    ∃ program trigger first course,
      compile .standard Compile.sampleLookup Compile.sampleFlow = .ok program ∧
      Compile.sampleFlow.trigger? = some trigger ∧
      (Graph.ofFlow Compile.sampleFlow).next? trigger.id .nextStep = some first ∧
      (∀ depth, (Graph.ofFlow Compile.sampleFlow).ids.length < depth →
        (Graph.ofFlow Compile.sampleFlow).course? depth none first = some course) ∧
      ∀ depth, program.size ≤ depth →
        program.control? depth Program.mainName = some (Compile.mainControl course) := by
  rcases Compile.exists_sampleProgram with ⟨program, compiled⟩
  have started : Compile.sampleFlow.trigger? = some ⟨"start", "Start", .trigger ⟨none⟩⟩ := rfl
  have connected : (Graph.ofFlow Compile.sampleFlow).next? "start" .nextStep =
      Compile.sampleFlow.node? "ask" := by decide +kernel
  rcases compiled_control .standard Compile.sampleLookup Compile.sampleFlow program compiled _ _
    started connected with ⟨course, drawn, done⟩
  exact ⟨program, _, _, course, compiled, started, connected, drawn, done⟩

end FlowCompiler
