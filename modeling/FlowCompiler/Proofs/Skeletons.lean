import FlowCompiler.Proofs.Calls
import FlowCompiler.Proofs.Registries

namespace FlowCompiler

/-! Skeletons of steps: what is left of them without the values that they compute with. The steps
of a visit have the same skeletons for all settings, wherever the same variables can be read. -/

open Expression Lowering

/-! ## Tables without their values -/

def Table.blank (table : Table Json) : Table Json :=
  table.map fun _ _ => .null

namespace Table

theorem blank_eq_of_keys_eq {left right : Table Json} (same : left.keys = right.keys) :
    left.blank = right.blank := by
  have entries : ∀ table : Table Json,
      table.blank.entries = table.keys.map fun name => (name, Json.null) := by
    intro table
    simp [blank, map, keys, Entries.keys]
  apply eq_of_entries_eq
  rw [entries, entries, same]

/-- The names of a table do not depend on the values that are stored. -/
theorem keys_insertAll_eq {left right : Table Json} {entries others : List (String × Json)}
    (same : left.keys = right.keys) (names : Entries.keys entries = Entries.keys others) :
    (left.insertAll entries).keys = (right.insertAll others).keys := by
  induction entries generalizing left right others with
  | nil =>
      cases others with
      | nil => exact same
      | cons => cases names
  | cons entry rest induction =>
      cases others with
      | nil => cases names
      | cons other behind =>
          have parts := List.cons.inj names
          apply induction _ parts.2
          rw [keys_insert, keys_insert, same, parts.1]

end Table

/-! ## Skeletons -/

def Call.skeleton (call : Call) : Call :=
  { call with
    args := call.args.blank
    retry := call.retry.map fun _ => .standard }

def LoopSource.skeleton : LoopSource → LoopSource
  | .list value => .list value
  | .range first _ => .range first 0

def LoopHead.skeleton (head : LoopHead) : LoopHead :=
  { head with source := head.source.skeleton }

namespace Step

mutual
/-- The step without its values: without those of arguments, conditions and bindings, the bounds of
loops and the policies of retries. What is returned or raised is kept. -/
def skeleton : Step → Step
  | .call name invocation => .call name invocation.skeleton
  | .assign name bindings => .assign name (bindings.map fun binding => (binding.1, .null))
  | .switch name cases => .switch name (caseSkeletons cases)
  | .block name steps => .block name (skeletons steps)
  | .loop name head steps => .loop name head.skeleton (skeletons steps)
  | .raise name value => .raise name value
  | .return name value => .return name value

def skeletons : List Step → List Step
  | [] => []
  | step :: rest => step.skeleton :: skeletons rest

def caseSkeletons : List Case → List Case
  | [] => []
  | .mk condition steps next :: rest =>
      .mk (condition.map fun _ => .null) (skeletons steps) next :: caseSkeletons rest
end

theorem skeletons_append (left right : List Step) :
    skeletons (left ++ right) = skeletons left ++ skeletons right := by
  induction left with
  | nil => rfl
  | cons step rest induction => exact congrArg (List.cons _) induction

theorem skeletons_block (name : String) (steps : List Step) :
    skeletons [.block name steps] = [.block name (skeletons steps)] := rfl

theorem caseSkeletons_append (left right : List Case) :
    caseSkeletons (left ++ right) = caseSkeletons left ++ caseSkeletons right := by
  induction left with
  | nil => rfl
  | cons first rest induction =>
      cases first
      exact congrArg (List.cons _) induction

end Step

open Step

def Routine.skeleton (routine : Routine) : Routine :=
  { routine with steps := skeletons routine.steps }

def Program.skeleton (program : Program) : Program :=
  ⟨program.routines.map fun _ routine => routine.skeleton⟩

/-! ## Registries with the same variables -/

namespace Registry

variable {registry other : Registry} (same : registry.names = other.names)

include same

theorem names_bind_eq (name : String) (value replaced : Json) :
    (registry.bind name value).names = (other.bind name replaced).names := by
  rw [names_bind, names_bind, unknown, unknown, same]

theorem names_reserve_eq (name : String) :
    (registry.reserve name).names = (other.reserve name).names := by
  rw [names_reserve, names_reserve, unknown, unknown, same]

theorem names_rebased_eq : registry.rebased.names = other.rebased.names := by
  rw [names_rebased, names_rebased, same]

theorem keys_callArgs_eq : registry.callArgs.keys = other.callArgs.keys :=
  Table.keys_insertAll_eq rfl same

end Registry

/-! ## Steps of visits -/

section

variable {registry other : Registry} (same : registry.names = other.names)
  (settings others : Settings) (names : Names)

theorem Action.skeletons_steps (act : Action) :
    skeletons (act.steps settings names registry) =
      skeletons (act.steps others names other) := by
  cases act <;> rfl

theorem Fork.skeletons_openingSteps (choice : Fork) :
    skeletons (choice.openingSteps settings names registry) =
      skeletons (choice.openingSteps others names other) := by
  have prompt : ∀ choice : Fork, skeletons (choice.promptSteps settings names registry) =
      skeletons (choice.promptSteps others names other) := by
    intro choice
    rw [promptSteps, promptSteps]
    cases choice.asksAgain <;> rfl
  cases choice with
  | split | branch => rfl
  | text | buttons | list => exact prompt _

include same

theorem skeleton_dispatch (name routine : String) :
    (dispatch name routine names registry).skeleton =
      (dispatch name routine names other).skeleton := by
  have args := Table.blank_eq_of_keys_eq (Registry.keys_callArgs_eq same)
  simp only [dispatch, skeleton, Call.skeleton, args]

theorem Fork.caseSkeletons_cases (choice : Fork) (exits : List Exit) :
    caseSkeletons (choice.cases names registry exits) =
      caseSkeletons (choice.cases names other exits) := by
  induction exits with
  | nil => rfl
  | cons exit rest induction =>
      have own : caseSkeletons [exitCase names registry exit] =
          caseSkeletons [exitCase names other exit] := by
        simp only [exitCase, caseSkeletons, skeletons, skeleton_dispatch same]
      rw [cases, cases] at induction ⊢
      simp only [List.flatMap_cons, caseSkeletons_append, induction, own]

theorem Fork.skeletons_steps (choice : Fork) (exits : List Exit) :
    skeletons (choice.steps settings names registry exits) =
      skeletons (choice.steps others names other exits) := by
  have opening : skeletons (choice.openingSteps settings names registry) =
      skeletons (choice.openingSteps others names other) :=
    choice.skeletons_openingSteps settings others names
  have behind := Registry.names_bind_eq same names.result (ofVariable names.result)
    (ofVariable names.result)
  rw [steps, steps, skeletons_append, skeletons_append, opening]
  simp only [skeletons, skeleton, Registry.bindVariable,
    choice.caseSkeletons_cases behind names exits]

theorem Subflow.skeletons_abortSteps (called : Subflow) (exits : List Exit) (abort : Abort) :
    skeletons (called.abortSteps settings names registry exits abort) =
      skeletons (called.abortSteps others names other exits abort) := by
  cases exits with
  | nil => rfl
  | cons exit rest =>
      rw [abortSteps, abortSteps, skeletons, skeletons, skeleton_dispatch same]
      rfl

theorem Subflow.skeletons_steps (called : Subflow) (exits : List Exit) :
    skeletons (called.steps settings names registry exits) =
      skeletons (called.steps others names other exits) := by
  have check : caseSkeletons (called.checkCases settings names registry exits) =
      caseSkeletons (called.checkCases others names other exits) := by
    simp only [checkCases, caseSkeletons, called.skeletons_abortSteps same settings others]
    rfl
  rw [steps, steps]
  simp only [skeletons, skeleton, check]
  rfl

theorem LoopStart.skeleton_bodyCall (start : LoopStart) :
    (start.bodyCall names registry).skeleton = (start.bodyCall names other).skeleton := by
  have args := Registry.keys_callArgs_eq same
  rw [bodyCall_eq, bodyCall_eq, skeleton, skeleton]
  apply congrArg
  have keys : (start.iterationCall names registry).args.keys =
      (start.iterationCall names other).args.keys := by
    simp only [iterationCall, Table.keys_insert, args]
  rw [Call.skeleton, Call.skeleton, Table.blank_eq_of_keys_eq keys]
  rfl

theorem LoopStart.skeletons_steps (start : LoopStart) :
    skeletons (start.steps settings names registry) =
      skeletons (start.steps others names other) := by
  have body := start.skeleton_bodyCall same names
  rw [steps, steps, setup, setup, head, head, iteration, iteration]
  cases start.loopValue <;> simp only [skeletons, skeleton, body] <;> rfl

end

/-! ## Steps and routines of walks -/

structure Scope.SameNames (scope other : Scope) : Prop where
  names : scope.registry.names = other.registry.names
  inside : scope.insideLoop = other.insideLoop

namespace Scope.SameNames

variable {scope other : Scope} (same : scope.SameNames other)

include same

theorem bindResult (names : Names) :
    (scope.bindResult names).SameNames (other.bindResult names) :=
  ⟨Registry.names_bind_eq same.names names.result _ _, same.inside⟩

theorem afterAction (names : Names) (act : Action) :
    (scope.afterAction names act).SameNames (other.afterAction names act) := by
  refine ⟨?_, same.inside⟩
  rw [Scope.afterAction, Scope.afterAction, Action.registryAfter, Action.registryAfter]
  cases act.result? names with
  | none => exact same.names
  | some _ => exact Registry.names_bind_eq same.names names.result _ _

theorem enterRoutine : scope.enterRoutine.SameNames other.enterRoutine :=
  ⟨Registry.names_rebased_eq same.names, same.inside⟩

theorem enterLoop : scope.enterLoop.SameNames other.enterLoop := by
  have item := Registry.names_bind_eq (Registry.names_rebased_eq same.names) Registry.loopItem
    (ofVariable Registry.loopItem) (ofVariable Registry.loopItem)
  exact ⟨Registry.names_bind_eq item Registry.loopIndex _ _, rfl⟩

theorem params : scope.registry.params = other.registry.params :=
  congrArg (List.cons Registry.state) same.names

end Scope.SameNames

def entrySkeletons (entries : List (String × Routine)) : List (String × Routine) :=
  entries.map fun entry => (entry.1, entry.2.skeleton)

theorem entrySkeletons_append (left right : List (String × Routine)) :
    entrySkeletons (left ++ right) = entrySkeletons left ++ entrySkeletons right :=
  List.map_append

theorem entrySkeletons_cons (name : String) (routine : Routine) (rest : List (String × Routine)) :
    entrySkeletons ((name, routine) :: rest) = (name, routine.skeleton) :: entrySkeletons rest :=
  rfl

namespace Walk

section

variable (settings others : Settings)

theorem skeletons_steps : ∀ (walk : Walk Visit) {scope other : Scope}, scope.SameNames other →
    skeletons (walk.steps settings scope) = skeletons (walk.steps others other)
  | .done, _, _, _ => rfl
  | .terminal visit, _, _, same => by
      rw [steps, steps, Scope.terminalValue, Scope.terminalValue, same.inside]
  | .action visit act next, scope, other, same => by
      have own : skeletons (act.steps settings visit.names scope.registry) =
          skeletons (act.steps others visit.names other.registry) :=
        act.skeletons_steps settings others visit.names
      have behind := skeletons_steps next (same.afterAction visit.names act)
      rw [steps, steps, skeletons_block, skeletons_block, skeletons_append, skeletons_append,
        skeletons_append, skeletons_append, own, behind]
  | .fork visit choice exits, _, _, same => by
      have own := choice.skeletons_steps same.names settings others visit.names
        (exits.map Prod.fst)
      rw [steps, steps, skeletons_block, skeletons_block, own]
  | .subflow visit called exits next, _, _, same => by
      have own := called.skeletons_steps same.names settings others visit.names
        (exits.map Prod.fst)
      have behind := skeletons_steps next (same.bindResult visit.names)
      rw [steps, steps, skeletons_block, skeletons_block, skeletons_append, skeletons_append, own,
        behind]
  | .loop visit start _ next, _, _, same => by
      have own := start.skeletons_steps same.names settings others visit.names
      have behind := skeletons_steps next same
      rw [steps, steps, skeletons_block, skeletons_block, skeletons_append, skeletons_append, own,
        behind]

theorem skeleton_bodyRoutine (body : Walk Visit) {scope other : Scope}
    (same : scope.SameNames other) :
    (bodyRoutine settings scope body).skeleton = (bodyRoutine others other body).skeleton := by
  rw [bodyRoutine, bodyRoutine, Routine.skeleton, Routine.skeleton, same.enterLoop.params,
    skeletons_append, skeletons_append, skeletons_steps settings others body same.enterLoop]

theorem skeleton_exitRoutine (walk : Walk Visit) {scope other : Scope}
    (same : scope.SameNames other) :
    (exitRoutine settings scope walk).skeleton = (exitRoutine others other walk).skeleton := by
  rw [exitRoutine, exitRoutine, Routine.skeleton, Routine.skeleton, same.enterRoutine.params,
    skeletons_append, skeletons_append, skeletons_steps settings others walk same.enterRoutine]

mutual
theorem skeletons_routines : ∀ (walk : Walk Visit) {scope other : Scope}, scope.SameNames other →
    entrySkeletons (walk.routines settings scope) = entrySkeletons (walk.routines others other)
  | .done, _, _, _ => rfl
  | .terminal _, _, _, _ => rfl
  | .action visit act next, _, _, same => by
      rw [routines, routines, skeletons_routines next (same.afterAction visit.names act)]
  | .fork visit _ exits, _, _, same => by
      rw [routines, routines,
        skeletons_exitRoutines visit.names exits (same.bindResult visit.names)]
  | .subflow visit _ exits next, _, _, same => by
      rw [routines, routines, entrySkeletons_append, entrySkeletons_append,
        skeletons_exitRoutines visit.names exits same,
        skeletons_routines next (same.bindResult visit.names)]
  | .loop _ _ body next, _, _, same => by
      simp only [routines, entrySkeletons_append, entrySkeletons_cons,
        skeletons_routines body same.enterLoop, skeletons_routines next same,
        body.skeleton_bodyRoutine settings others same]

theorem skeletons_exitRoutines (names : Names) : ∀ (exits : List (Exit × Option (Walk Visit)))
    {scope other : Scope}, scope.SameNames other →
      entrySkeletons (exitRoutines settings names scope exits) =
        entrySkeletons (exitRoutines others names other exits)
  | [], _, _, _ => rfl
  | (_, none) :: rest, _, _, same => by
      rw [exitRoutines, exitRoutines, entrySkeletons_cons, entrySkeletons_cons, stubRoutine,
        stubRoutine, same.enterRoutine.params, skeletons_exitRoutines names rest same]
  | (_, some walk) :: rest, _, _, same => by
      rw [exitRoutines, exitRoutines, entrySkeletons_append, entrySkeletons_append,
        entrySkeletons_cons, entrySkeletons_cons, skeletons_routines walk same.enterRoutine,
        walk.skeleton_exitRoutine settings others same, skeletons_exitRoutines names rest same]
end

end

end Walk

end FlowCompiler
