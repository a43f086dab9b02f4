import FlowCompiler.Proofs.AlikeNames
import FlowCompiler.Proofs.Parameters

namespace FlowCompiler

/-! Shapes of routines: the number of their parameters and the kinds of their steps. They depend on
the numbers of visits, but not on their names: the names of two visits are never the same, so that
a variable is known in a scope exactly if its counterpart is known in the scope of the other walk. -/

open Lowering Step

/-! ## Kinds of steps -/

namespace Step

def kindsWithin (steps : List Step) : List String :=
  (flattenSteps steps).map kindName

theorem kindsWithin_append (left right : List Step) :
    kindsWithin (left ++ right) = kindsWithin left ++ kindsWithin right := by
  rw [kindsWithin, flattenSteps_append, List.map_append, kindsWithin, kindsWithin]

theorem kindsWithin_block (name : String) (steps : List Step) :
    kindsWithin [.block name steps] = "block" :: kindsWithin steps := by
  simp only [kindsWithin, flattenSteps, flatten, List.append_nil, List.map_cons, kindName]

end Step

section

variable (settings : Settings) (names : Names) (registry : Registry)

def Action.kinds : Action → List String
  | .delay _ => ["call"]
  | _ => ["call", "assign"]

theorem Action.kindsWithin_steps (act : Action) :
    kindsWithin (act.steps settings names registry ++ act.binding names) = act.kinds := by
  cases act <;> rfl

namespace Fork

def openingKinds : Fork → List String
  | .split _ | .branch _ => ["call", "assign"]
  | prompt => (if prompt.asksAgain then ["assign"] else []) ++ ["call", "call"]

def exitKinds (fork : Fork) (exit : Exit) : List String :=
  (if fork.asksAgain ∧ exit.test = .otherwise then ["assign"] else []) ++ ["call"]

def kinds (fork : Fork) (exits : List Exit) : List String :=
  fork.openingKinds ++ "switch" :: exits.flatMap fork.exitKinds

theorem kindsWithin_openingSteps (choice : Fork) :
    kindsWithin (choice.openingSteps settings names registry) = choice.openingKinds := by
  have prompt : ∀ choice : Fork, kindsWithin (choice.promptSteps settings names registry) =
      (if choice.asksAgain then ["assign"] else []) ++ ["call", "call"] := by
    intro choice
    rw [promptSteps]
    cases choice.asksAgain <;> rfl
  cases choice with
  | split | branch => rfl
  | text | buttons | list => exact prompt _

theorem map_kindName_cases (choice : Fork) (exits : List Exit) :
    (flattenCases (choice.cases names registry exits)).map kindName =
      exits.flatMap choice.exitKinds := by
  induction exits with
  | nil => rfl
  | cons exit rest induction =>
      rw [cases_cons, flattenCases_append, List.map_append, induction, List.flatMap_cons]
      apply congrArg (· ++ _)
      rw [exitKinds]
      split <;> rfl

theorem kindsWithin_steps (choice : Fork) (exits : List Exit) :
    kindsWithin (choice.steps settings names registry exits) = choice.kinds exits := by
  rw [steps, kindsWithin_append, kindsWithin_openingSteps, kinds,
    ← choice.map_kindName_cases names (registry.bindVariable names.result)]
  simp only [kindsWithin, flattenSteps, flatten, List.append_nil, List.map_cons, kindName]

end Fork

namespace Subflow

def abortKinds : List Exit → List String
  | [] => ["raise"]
  | _ :: _ => ["call", "call", "return"]

def kinds (exits : List Exit) : List String :=
  ["call", "call", "assign", "call", "switch"] ++ abortKinds exits ++ abortKinds exits ++
    ["assign", "call", "assign", "call", "call"]

theorem kindsWithin_steps (called : Subflow) (exits : List Exit) :
    kindsWithin (called.steps settings names registry exits) = kinds exits := by
  cases exits <;> rfl

end Subflow

namespace LoopStart

def kinds (start : LoopStart) : List String :=
  match start.loopValue with
  | .list _ => ["assign", "for", "switch", "call"]
  | .count _ => ["assign", "for", "call"]

theorem kindsWithin_steps (start : LoopStart) :
    kindsWithin (start.steps settings names registry) = start.kinds := by
  rw [steps, iteration, kinds]
  cases start.loopValue <;> rfl

end LoopStart

end

namespace Walk

/-- The kinds of steps depend on neither the names of the visits nor the scope. -/
theorem Alike.kindsWithin_steps {related : Visit → Visit → Prop} (settings : Settings)
    {walk partner : Walk Visit} : walk.Alike related partner → ∀ scope other : Scope,
      kindsWithin (walk.steps settings scope) = kindsWithin (partner.steps settings other)
  | .done, _, _ => rfl
  | .terminal _, _, _ => rfl
  | .action _ rest, _, _ => by
      simp only [steps, kindsWithin_block, kindsWithin_append _ (steps ..),
        Action.kindsWithin_steps]
      rw [rest.kindsWithin_steps]
  | .fork _ behind, _, _ => by
      rw [steps, steps, kindsWithin_block, kindsWithin_block, Fork.kindsWithin_steps,
        Fork.kindsWithin_steps, behind.map_fst]
  | .subflow _ behind rest, _, _ => by
      rw [steps, steps, kindsWithin_block, kindsWithin_block, kindsWithin_append,
        kindsWithin_append, Subflow.kindsWithin_steps, Subflow.kindsWithin_steps, behind.map_fst,
        rest.kindsWithin_steps]
  | .loop _ _ rest, _, _ => by
      rw [steps, steps, kindsWithin_block, kindsWithin_block, kindsWithin_append,
        kindsWithin_append, LoopStart.kindsWithin_steps, LoopStart.kindsWithin_steps,
        rest.kindsWithin_steps]

end Walk

/-! ## Numbers of variables -/

/-- How many variables are added for the result of a visit with this number: none if it is among
those for which variables are reserved. -/
def added (last number : Nat) : Nat :=
  if number ≤ last then 0 else 1

/-- How many variables can be read in a scope, and which of them belong to iterations and to these
visits: those of visits with numbers up to the last one that is reserved. -/
structure Scope.Counted (last : Nat) (visits : List Visit) (size : Nat) (looped : Bool)
    (scope : Scope) : Prop where
  size : scope.registry.names.length = size
  loops : ∀ name ∈ Registry.loopVariables, (name ∈ scope.registry.names ↔ looped)
  known : ∀ visit ∈ visits,
    (visit.names.result ∈ scope.registry.names ↔ visit.names.number ≤ last)

theorem Walk.Proper.result_ne {walk : Walk Visit} (proper : walk.Proper) {visit : Visit}
    {rest : List Visit} (split : walk.visits = visit :: rest) {other : Visit}
    (member : other ∈ rest) : other.names.result ≠ visit.names.result := by
  intro equal
  have distinct := proper.distinct
  rw [split, List.map_cons] at distinct
  have own := proper.names_of_mem (split ▸ List.mem_cons_self)
  have otherOwn := proper.names_of_mem (split ▸ List.mem_cons_of_mem _ member)
  have number := Names.Owns.result.number_eq otherOwn own (equal ▸ .result)
  exact (List.nodup_cons.mp distinct).1 (number ▸ List.mem_map_of_mem member)

namespace Scope.Counted

variable {last size : Nat} {visits fewer rest : List Visit} {looped : Bool} {scope : Scope}
  {walk : Walk Visit} {visit : Visit}

theorem mono (counted : scope.Counted last visits size looped) (subset : fewer ⊆ visits) :
    scope.Counted last fewer size looped :=
  ⟨counted.size, counted.loops, fun visit member => counted.known visit (subset member)⟩

theorem enterRoutine (counted : scope.Counted last visits size looped) :
    scope.enterRoutine.Counted last visits size looped := by
  constructor <;> rw [scope.names_enterRoutine]
  · exact counted.size
  · exact counted.loops
  · exact counted.known

theorem enterLoop (counted : scope.Counted last visits size looped)
    (own : ∀ visit ∈ visits, visit.names.Proper) :
    scope.enterLoop.Counted last visits (size + if looped then 0 else 2) true := by
  have names : scope.enterLoop.registry.names =
      scope.registry.names ++ scope.registry.unknown Registry.loopVariables :=
    LoopStart.names_bodyRegistry scope.registry
  have unknown : (scope.registry.unknown Registry.loopVariables).length =
      if looped then 0 else 2 := by
    rw [Registry.unknown]
    cases looped with
    | true =>
        rw [List.filter_eq_nil_iff.mpr (by simpa using counted.loops)]
        rfl
    | false =>
        rw [List.filter_eq_self.mpr (by simpa using counted.loops)]
        rfl
  constructor
  · rw [names, List.length_append, counted.size, unknown]
  · intro name member
    rw [names, List.mem_append, Registry.unknown, List.mem_filter]
    by_cases known : name ∈ scope.registry.names <;> simp [known, member]
  · intro visit member
    have unlooped : visit.names.result ∉ scope.registry.unknown Registry.loopVariables :=
      fun added => Names.Owns.result.not_mem_loopVariables (own visit member)
        (List.mem_filter.mp added).1
    rw [names, List.mem_append, or_iff_left unlooped]
    exact counted.known visit member

theorem bindResult (counted : scope.Counted last walk.visits size looped) (proper : walk.Proper)
    (split : walk.visits = visit :: rest) {number : Nat} (same : visit.names.number = number) :
    (scope.bindResult visit.names).Counted last rest (size + added last number) looped := by
  subst same
  have first : visit ∈ walk.visits := split ▸ List.mem_cons_self
  have names : (scope.bindResult visit.names).registry.names =
      scope.registry.names ++ scope.registry.unknown [visit.names.result] :=
    scope.registry.names_bindVariable _
  have bound : ∀ name, name ≠ visit.names.result →
      (name ∈ (scope.bindResult visit.names).registry.names ↔ name ∈ scope.registry.names) := by
    intro name other
    rw [names, List.mem_append, or_iff_left]
    exact fun added => other (List.mem_singleton.mp (List.mem_filter.mp added).1)
  constructor
  · have known := counted.known visit first
    rw [names, List.length_append, counted.size, Registry.unknown, List.filter_singleton, added]
    by_cases reserved : visit.names.number ≤ last
    · simp [known.mpr reserved, reserved]
    · simp [mt known.mp reserved, reserved]
  · intro name member
    rw [bound name]
    · exact counted.loops name member
    · intro equal
      have owns : visit.names.Owns visit.names.result := .result
      exact owns.not_mem_loopVariables (proper.names_of_mem first) (equal ▸ member)
  · intro other member
    rw [bound _ (proper.result_ne split member)]
    exact counted.known other (split ▸ List.mem_cons_of_mem _ member)

theorem afterAction (counted : scope.Counted last walk.visits size looped) (proper : walk.Proper)
    (split : walk.visits = visit :: rest) {number : Nat} (same : visit.names.number = number)
    (act : Action) :
    (scope.afterAction visit.names act).Counted last rest
      (size + if act.isDelay then 0 else added last number) looped := by
  cases act with
  | delay => exact counted.mono (split ▸ List.subset_cons_self _ _)
  | _ => exact counted.bindResult proper split same

theorem length_params (counted : scope.Counted last visits size looped) :
    scope.registry.params.length = size + 1 := by
  rw [Registry.params, List.length_cons, counted.size]

end Scope.Counted

/-! ## Shapes -/

def Routine.shape (routine : Routine) : Nat × List String :=
  (routine.params.length, kindsWithin routine.steps)

def shapes (entries : List (String × Routine)) : List (Nat × List String) :=
  entries.map fun entry => entry.2.shape

theorem Program.shape_eq (program : Program) : program.shape = shapes program.routines.entries := by
  rw [Program.shape, Table.values, List.map_map]
  rfl

theorem shapes_append (left right : List (String × Routine)) :
    shapes (left ++ right) = shapes left ++ shapes right :=
  List.map_append

theorem shapes_cons (name : String) (routine : Routine) (rest : List (String × Routine)) :
    shapes ((name, routine) :: rest) = routine.shape :: shapes rest :=
  rfl

def Names.SameNumber (names other : Names) : Prop :=
  names.number = other.number

namespace Walk

section

variable {same : Node → Node → Prop} (settings : Settings) {last : Nat}

theorem Alike.shape_exitRoutine {walk partner : Walk Visit}
    (alike : walk.Alike (Visit.Alike same Names.SameNumber) partner) {scope other : Scope}
    {size : Nat} {looped : Bool} {visits others : List Visit}
    (left : scope.Counted last visits size looped)
    (right : other.Counted last others size looped) :
    (exitRoutine settings scope walk).shape = (exitRoutine settings other partner).shape := by
  rw [exitRoutine, exitRoutine, Routine.shape, Routine.shape, left.enterRoutine.length_params,
    right.enterRoutine.length_params]
  simp only [kindsWithin_append,
    alike.kindsWithin_steps settings scope.enterRoutine other.enterRoutine]

theorem Alike.shape_bodyRoutine {walk partner : Walk Visit}
    (alike : walk.Alike (Visit.Alike same Names.SameNumber) partner) {scope other : Scope}
    {size : Nat} {looped : Bool} {visits others : List Visit}
    (left : scope.enterLoop.Counted last visits size looped)
    (right : other.enterLoop.Counted last others size looped) :
    (bodyRoutine settings scope walk).shape = (bodyRoutine settings other partner).shape := by
  rw [bodyRoutine, bodyRoutine, Routine.shape, Routine.shape, left.length_params,
    right.length_params]
  simp only [kindsWithin_append, alike.kindsWithin_steps settings scope.enterLoop other.enterLoop]

theorem shape_stubRoutine {scope other : Scope} {size : Nat} {looped : Bool}
    {visits others : List Visit} (left : scope.Counted last visits size looped)
    (right : other.Counted last others size looped) (exit : Exit) :
    (stubRoutine scope exit).shape = (stubRoutine other exit).shape := by
  rw [stubRoutine, stubRoutine, Routine.shape, Routine.shape, left.enterRoutine.length_params,
    right.enterRoutine.length_params]

mutual
theorem Alike.shapes_routines {walk partner : Walk Visit} :
    walk.Alike (Visit.Alike same Names.SameNumber) partner →
    ∀ {scope other : Scope} {size : Nat} {looped : Bool}, walk.Proper → partner.Proper →
      scope.Counted last walk.visits size looped → other.Counted last partner.visits size looped →
        shapes (walk.routines settings scope) = shapes (partner.routines settings other)
  | .done, _, _, _, _, _, _, _, _ => rfl
  | .terminal _, _, _, _, _, _, _, _, _ => rfl
  | .action visits rest, _, _, _, _, proper, also, left, right => by
      rw [routines, routines]
      exact rest.shapes_routines proper.next_action also.next_action
        (left.afterAction proper rfl visits.names _) (right.afterAction also rfl rfl _)
  | .fork visits behind, _, _, _, _, proper, also, left, right => by
      rw [routines, routines]
      exact behind.shapes_exitRoutines (fun _ _ => proper.behind_fork) (fun _ _ => also.behind_fork)
        (left.bindResult proper rfl visits.names) (right.bindResult also rfl rfl)
  | .subflow visits behind rest, _, _, _, _, proper, also, left, right => by
      rw [routines, routines, shapes_append, shapes_append]
      apply congrArg₂
      · exact behind.shapes_exitRoutines (fun _ _ => proper.behind_subflow)
          (fun _ _ => also.behind_subflow)
          (left.mono (List.subset_cons_of_subset _ (List.subset_append_left _ _)))
          (right.mono (List.subset_cons_of_subset _ (List.subset_append_left _ _)))
      · exact rest.shapes_routines proper.next_subflow also.next_subflow
          ((left.bindResult proper rfl visits.names).mono (List.subset_append_right _ _))
          ((right.bindResult also rfl rfl).mono (List.subset_append_right _ _))
  | .loop _ entered rest, _, _, _, _, proper, also, left, right => by
      have inside := (left.enterLoop fun _ => proper.names_of_mem).mono
        (List.subset_cons_of_subset _ (List.subset_append_left _ _))
      have alsoInside := (right.enterLoop fun _ => also.names_of_mem).mono
        (List.subset_cons_of_subset _ (List.subset_append_left _ _))
      have body := entered.shapes_routines proper.body_loop also.body_loop inside alsoInside
      have following := rest.shapes_routines proper.next_loop also.next_loop
        (left.mono (List.subset_cons_of_subset _ (List.subset_append_right _ _)))
        (right.mono (List.subset_cons_of_subset _ (List.subset_append_right _ _)))
      simp only [routines, shapes_append, shapes_cons, body, following,
        entered.shape_bodyRoutine settings inside alsoInside]

theorem AlikeExits.shapes_exitRoutines {exits partners : List (Exit × Option (Walk Visit))} :
    AlikeExits (Visit.Alike same Names.SameNumber) exits partners →
    ∀ {names others : Names} {scope other : Scope} {size : Nat} {looped : Bool},
      (∀ exit walk, (exit, some walk) ∈ exits → walk.Proper) →
      (∀ exit walk, (exit, some walk) ∈ partners → walk.Proper) →
      scope.Counted last (exitVisits exits) size looped →
      other.Counted last (exitVisits partners) size looped →
        shapes (exitRoutines settings names scope exits) =
          shapes (exitRoutines settings others other partners)
  | .nil, _, _, _, _, _, _, _, _, _, _ => rfl
  | .connected first behind, _, _, _, _, _, _, proper, also, left, right => by
      have own := first.shapes_routines (proper _ _ List.mem_cons_self)
        (also _ _ List.mem_cons_self)
        (left.enterRoutine.mono (List.subset_append_left _ _))
        (right.enterRoutine.mono (List.subset_append_left _ _))
      rw [exitRoutines, exitRoutines, shapes_append, shapes_append, shapes_cons, shapes_cons, own,
        first.shape_exitRoutine settings left right]
      apply congrArg (_ ++ _ :: ·)
      exact behind.shapes_exitRoutines
        (fun exit walk member => proper exit walk (List.mem_cons_of_mem _ member))
        (fun exit walk member => also exit walk (List.mem_cons_of_mem _ member))
        (left.mono (List.subset_append_right _ _)) (right.mono (List.subset_append_right _ _))
  | .unconnected behind, _, _, _, _, _, _, proper, also, left, right => by
      rw [exitRoutines, exitRoutines, shapes_cons, shapes_cons, shape_stubRoutine left right]
      apply congrArg (_ :: ·)
      exact behind.shapes_exitRoutines
        (fun exit walk member => proper exit walk (List.mem_cons_of_mem _ member))
        (fun exit walk member => also exit walk (List.mem_cons_of_mem _ member)) left right
end

end

end Walk

end FlowCompiler
