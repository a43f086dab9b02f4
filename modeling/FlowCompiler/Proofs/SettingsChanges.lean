import FlowCompiler.Proofs.Assembly
import FlowCompiler.Proofs.Skeletons

namespace FlowCompiler

/-! Programs of one flow with different settings, and for different answers to the lookup of its
branch. They have the same skeleton. -/

open Lowering Step

/-! ## Tables of skeletons -/

theorem Entries.map_insert {α β : Type} (change : α → β) (key : String) (value : α)
    (entries : List (String × α)) :
    (insert key value entries).map (fun entry => (entry.1, change entry.2)) =
      insert key (change value) (entries.map fun entry => (entry.1, change entry.2)) := by
  induction entries with
  | nil => rfl
  | cons entry rest induction =>
      rw [insert, List.map_cons, insert]
      split
      · rfl
      · rw [List.map_cons, induction]

theorem Table.map_insertAll {α β : Type} (change : α → β) (entries : List (String × α)) :
    ∀ table : Table α, (table.insertAll entries).map (fun _ value => change value) =
      (table.map fun _ value => change value).insertAll
        (entries.map fun entry => (entry.1, change entry.2)) := by
  induction entries with
  | nil => exact fun _ => rfl
  | cons entry rest induction =>
      intro table
      have first : (table.insert entry.1 entry.2).map (fun _ value => change value) =
          (table.map fun _ value => change value).insert entry.1 (change entry.2) :=
        eq_of_entries_eq (Entries.map_insert change entry.1 entry.2 table.entries)
      exact (induction _).trans (congrArg (fun table => insertAll table _) first)

theorem Program.skeleton_ofList (entries : List (String × Routine)) :
    (Program.mk (.ofList entries)).skeleton = ⟨.ofList (entrySkeletons entries)⟩ :=
  congrArg Program.mk (Table.map_insertAll Routine.skeleton entries .empty)

namespace Compile

variable (settings others : Settings)

/-! ## Parts of a program -/

/-- The same names are kept, and the same variables are reserved. -/
theorem reserveAll_sameNames (source : NameSource) (children : List Node) :
    ∀ {registry other : Registry}, registry.names = other.names →
      (reserveAll source registry children).1 = (reserveAll source other children).1 ∧
        (reserveAll source registry children).2.names =
          (reserveAll source other children).2.names := by
  induction children generalizing source with
  | nil => exact fun same => ⟨rfl, same⟩
  | cons child rest induction =>
      intro registry other same
      exact induction _ (Registry.names_reserve_eq same _)

theorem names_branchRegistry (flow : Flow) (branch other : Branch) :
    (branchRegistry flow branch).names = (branchRegistry flow other).names :=
  Registry.names_bind_eq rfl _ _ _

theorem sameNames_reservation (flow : Flow) (branch other : Branch) (children : List Node) :
    (reservation flow branch children).1 = (reservation flow other children).1 ∧
      (startScope flow branch children).SameNames (startScope flow other children) := by
  have same := reserveAll_sameNames .start children
    (Registry.names_bind_eq (names_branchRegistry flow branch other) Registry.apiBase
      (Expression.ofVariable Registry.apiBase) (Expression.ofVariable Registry.apiBase))
  exact ⟨same.1, same.2, rfl⟩

theorem skeleton_setupRoutine (flow : Flow) (branch other : Branch) :
    (setupRoutine settings flow (branchRegistry flow branch)).skeleton =
      (setupRoutine others flow (branchRegistry flow other)).skeleton := by
  have params : (branchRegistry flow branch).params = (branchRegistry flow other).params :=
    congrArg (List.cons Registry.state) (names_branchRegistry flow branch other)
  have address : (Table.ofList [("name", Json.string settings.baseUrlEnv)]).blank =
      (Table.ofList [("name", Json.string others.baseUrlEnv)]).blank :=
    Table.blank_eq_of_keys_eq rfl
  simp only [setupRoutine, Routine.skeleton, skeletons, skeleton, Call.skeleton, params, address]

theorem skeleton_setupStep (flow : Flow) (branch other : Branch) :
    (setupStep (branchRegistry flow branch)).skeleton =
      (setupStep (branchRegistry flow other)).skeleton := by
  have args := Table.blank_eq_of_keys_eq
    (Registry.keys_callArgs_eq (names_branchRegistry flow branch other))
  simp only [setupStep, skeleton, Call.skeleton, args]

theorem skeleton_assemble (flow : Flow) (branch other : Branch) (children : List Node)
    (walk : Walk Node) :
    (assemble settings flow branch children walk).skeleton =
      (assemble others flow other children walk).skeleton := by
  rcases sameNames_reservation flow branch other children with ⟨sources, scopes⟩
  have named : namedWalk flow branch children walk = namedWalk flow other children walk := by
    rw [namedWalk, namedWalk, sources]
  have main : (mainRoutine settings flow branch (startScope flow branch children)
        (namedWalk flow branch children walk)).skeleton =
      (mainRoutine others flow other (startScope flow other children)
        (namedWalk flow other children walk)).skeleton := by
    rw [named, mainRoutine, mainRoutine, Routine.skeleton, Routine.skeleton]
    simp only [skeletons_append, skeletons, skeleton_setupStep flow branch other,
      (namedWalk flow other children walk).skeletons_steps settings others scopes]
    rfl
  rw [assemble_eq, assemble_eq, Program.skeleton_ofList, Program.skeleton_ofList, allRoutines,
    allRoutines]
  simp only [entrySkeletons_cons, main, skeleton_setupRoutine settings others flow branch other]
  rw [named, Walk.skeletons_routines settings others _ scopes]

/-! ## Building -/

/-- What a flow compiles to has the same skeleton for all settings and for all branches. -/
theorem skeleton_build {lookup again : BranchLookup} {flow : Flow} {branch other : Branch}
    (found : lookup flow.branchId = .ok branch) (alsoFound : again flow.branchId = .ok other) :
    (build settings lookup flow).map Program.skeleton =
      (build others again flow).map Program.skeleton := by
  cases started : flow.trigger? with
  | none =>
      rw [build_of_unstarted started, build_of_unstarted started]
  | some trigger =>
      cases connected : (Graph.ofFlow flow).next? trigger.id .nextStep with
      | none =>
          rw [build_of_unconnected started connected, build_of_unconnected started connected]
      | some first =>
          rw [build_of_connected started connected found,
            build_of_connected started connected alsoFound]
          cases (Graph.ofFlow flow).unfold none (Graph.ofFlow flow).ids first with
          | error error => exact Eq.refl (Except.error (CompileError.walk error))
          | ok walk =>
              exact congrArg Except.ok (skeleton_assemble settings others flow branch other _ walk)

end Compile

end FlowCompiler
