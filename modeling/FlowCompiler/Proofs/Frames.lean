import FlowCompiler.Proofs.Interference

namespace FlowCompiler

/-! What the routines of a program are made of: each holds the steps of one walk, between a few
steps that are always the same. -/

open Lowering Step

namespace Walk

theorem Place.visits_subset {scope inner : Scope} {walk part : Walk Visit}
    (place : Place scope walk inner part) : part.visits ⊆ walk.visits := by
  induction place with
  | here => exact List.Subset.refl _
  | afterAction _ induction => exact List.subset_cons_of_subset _ induction
  | behindFork member _ induction =>
      exact List.subset_cons_of_subset _
        (List.Subset.trans induction (visits_sublist_of_mem _ member).subset)
  | behindSubflow member _ induction =>
      exact List.subset_cons_of_subset _ (List.subset_append_of_subset_left _
        (List.Subset.trans induction (visits_sublist_of_mem _ member).subset))
  | afterSubflow _ induction =>
      exact List.subset_cons_of_subset _ (List.subset_append_of_subset_right _ induction)
  | inLoop _ induction =>
      exact List.subset_cons_of_subset _ (List.subset_append_of_subset_left _ induction)
  | afterLoop _ induction =>
      exact List.subset_cons_of_subset _ (List.subset_append_of_subset_right _ induction)

end Walk

namespace Compile

inductive Frame (settings : Settings) (program : Program) :
    Walk Visit → List Step → List Step → Prop
  | main {walk : Walk Visit} {flow : Flow} (registry : Registry)
      (found : program.routines.get? setupName = some (setupRoutine settings flow registry)) :
      Frame settings program walk [setupStep registry]
        [clearSession settings "clear_session", Walk.finishStep]
  | setup (flow : Flow) (registry : Registry) :
      Frame settings program .done [] (setupRoutine settings flow registry).steps
  | routine {walk : Walk Visit} {last : Step} (closing : Walk.Closing walk last) :
      Frame settings program walk [] [last]
  | empty :
      Frame settings program .done []
        [.return "no_reachable_action" (.string "No reachable action")]

/-! The steps of a routine are those of the walk `part`, emitted in the scope `scope`, within a
frame. -/

structure Framed (settings : Settings) (program : Program) (visits : List Visit) (scope : Scope)
    (part : Walk Visit) (steps : List Step) : Prop where
  steps : ∃ front back, Frame settings program part front back ∧
    steps = front ++ part.steps settings scope ++ back
  proper : part.Proper
  visits : part.visits ⊆ visits

theorem Framed.of_done {settings : Settings} {program : Program} {visits : List Visit}
    {scope : Scope} {steps : List Step} (frame : Frame settings program .done [] steps) :
    Framed settings program visits scope .done steps :=
  ⟨⟨[], steps, frame, rfl⟩, Walk.proper_done, List.nil_subset _⟩

theorem Frame.isPlain {settings : Settings} {program : Program} {walk : Walk Visit}
    {front back : List Step} (frame : Frame settings program walk front back) :
    front.all isPlain ∧ back.all isPlain := by
  cases frame with
  | main | setup | empty => exact ⟨rfl, rfl⟩
  | routine closing => cases closing <;> exact ⟨rfl, rfl⟩

section

variable {settings : Settings} {lookup : BranchLookup} {flow : Flow} {program : Program}

theorem exists_framed (built : build settings lookup flow = .ok program)
    {entry : String × Routine} (member : entry ∈ program.routines.entries) :
    ∃ scope part, Framed settings program (visits lookup flow) scope part entry.2.steps := by
  rw [visits]
  rcases exists_origin_of_build built with ⟨none, empty⟩ | ⟨origin, found, proper, entries⟩
  · rw [empty] at member
    rw [List.mem_singleton.mp member]
    exact ⟨⟨.empty, false⟩, .done, .of_done .empty⟩
  · have prepared : program.routines.get? setupName =
        some (setupRoutine settings flow (branchRegistry flow origin.branch)) := by
      rw [Table.get?_eq_some_iff, entries]
      exact List.mem_cons_of_mem _ List.mem_cons_self
    rw [entries] at member
    simp only [found]
    rcases List.mem_cons.mp member with equal | member
    · subst equal
      exact ⟨origin.scope, origin.walk, ⟨_, _, .main _ prepared, rfl⟩, proper, List.Subset.refl _⟩
    rcases List.mem_cons.mp member with equal | member
    · subst equal
      exact ⟨origin.scope, .done, .of_done (.setup flow _)⟩
    · rcases Walk.exists_composed member with
        ⟨_, _, inner, behind, last, _, _, _, composed, done | place⟩
      · refine ⟨inner, .done, .of_done ?_⟩
        rw [composed.steps, done]
        exact .routine (done ▸ composed.closing)
      · exact ⟨inner, behind, ⟨[], [last], .routine composed.closing, composed.steps⟩,
          place.proper proper, place.visits_subset⟩

end

end Compile

end FlowCompiler
