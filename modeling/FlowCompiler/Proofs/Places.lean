import FlowCompiler.Lowering.Emission
import FlowCompiler.Proofs.RoutineNames
import FlowCompiler.Proofs.Visits

namespace FlowCompiler

/-! The places of a walk, each with the scope in which it is emitted. Every routine of a walk
starts at one of its places, and every call of a routine is made at one, so that facts about
the routines of a program and their calls are facts about single places. -/

namespace Walk

/-! ## Places -/

/-- In a walk that is emitted in the scope `scope`, the walk `part` is emitted in the scope
`inner`. -/
inductive Place : Scope → Walk Visit → Scope → Walk Visit → Prop
  | here {scope : Scope} {walk : Walk Visit} : Place scope walk scope walk
  | afterAction {scope inner : Scope} {visit : Visit} {act : Action} {next part : Walk Visit}
      (place : Place (scope.afterAction visit.names act) next inner part) :
      Place scope (.action visit act next) inner part
  | behindFork {scope inner : Scope} {visit : Visit} {choice : Fork}
      {exits : List (Exit × Option (Walk Visit))} {exit : Exit} {walk part : Walk Visit}
      (member : (exit, some walk) ∈ exits)
      (place : Place (scope.bindResult visit.names).enterRoutine walk inner part) :
      Place scope (.fork visit choice exits) inner part
  | behindSubflow {scope inner : Scope} {visit : Visit} {called : Subflow}
      {exits : List (Exit × Option (Walk Visit))} {next : Walk Visit} {exit : Exit}
      {walk part : Walk Visit} (member : (exit, some walk) ∈ exits)
      (place : Place scope.enterRoutine walk inner part) :
      Place scope (.subflow visit called exits next) inner part
  | afterSubflow {scope inner : Scope} {visit : Visit} {called : Subflow}
      {exits : List (Exit × Option (Walk Visit))} {next part : Walk Visit}
      (place : Place (scope.bindResult visit.names) next inner part) :
      Place scope (.subflow visit called exits next) inner part
  | inLoop {scope inner : Scope} {visit : Visit} {start : LoopStart} {body next part : Walk Visit}
      (place : Place scope.enterLoop body inner part) :
      Place scope (.loop visit start body next) inner part
  | afterLoop {scope inner : Scope} {visit : Visit} {start : LoopStart}
      {body next part : Walk Visit} (place : Place scope next inner part) :
      Place scope (.loop visit start body next) inner part

theorem Place.trans {scope middle inner : Scope} {walk between part : Walk Visit}
    (first : Place scope walk middle between) (second : Place middle between inner part) :
    Place scope walk inner part := by
  induction first with
  | here => exact second
  | afterAction _ induction => exact .afterAction (induction second)
  | behindFork member _ induction => exact .behindFork member (induction second)
  | behindSubflow member _ induction => exact .behindSubflow member (induction second)
  | afterSubflow _ induction => exact .afterSubflow (induction second)
  | inLoop _ induction => exact .inLoop (induction second)
  | afterLoop _ induction => exact .afterLoop (induction second)

/-! ## Proper places -/

theorem visits_sublist_of_mem {α : Type} {exit : Exit} {walk : Walk α} :
    ∀ exits : List (Exit × Option (Walk α)), (exit, some walk) ∈ exits →
      walk.visits.Sublist (exitVisits exits)
  | (_, none) :: rest, member => by
      rcases List.mem_cons.mp member with equal | member
      · cases equal
      · exact visits_sublist_of_mem rest member
  | (_, some first) :: rest, member => by
      rcases List.mem_cons.mp member with equal | member
      · cases equal
        exact List.sublist_append_left _ _
      · exact (visits_sublist_of_mem rest member).trans
          (List.sublist_append_right _ _)

theorem shaped_of_mem {α : Type} {exit : Exit} {walk : Walk α} :
    ∀ exits : List (Exit × Option (Walk α)), ShapedExits exits → (exit, some walk) ∈ exits →
      walk.Shaped
  | (_, none) :: rest, shaped, member => by
      rcases List.mem_cons.mp member with equal | member
      · cases equal
      · exact shaped_of_mem rest shaped member
  | (_, some first) :: rest, shaped, member => by
      rcases List.mem_cons.mp member with equal | member
      · cases equal
        exact shaped.1
      · exact shaped_of_mem rest shaped.2 member

theorem Proper.of_sublist {walk part : Walk Visit} (proper : walk.Proper) (shaped : part.Shaped)
    (sublist : part.visits.Sublist walk.visits) : part.Proper :=
  ⟨shaped, fun visit member => proper.made visit (sublist.subset member),
    (sublist.map _).nodup proper.distinct⟩

theorem proper_done : (done : Walk Visit).Proper :=
  ⟨trivial, by simp [visits], by simp [visits]⟩

section

variable {visit : Visit} {next : Walk Visit} {exits : List (Exit × Option (Walk Visit))}

theorem Proper.names {act : Action} (proper : (action visit act next).Proper) :
    visit.names.Proper :=
  ⟨visit.node, proper.made visit List.mem_cons_self⟩

theorem Proper.next_action {act : Action} (proper : (action visit act next).Proper) :
    next.Proper :=
  proper.of_sublist proper.shaped (List.sublist_cons_self _ _)

theorem Proper.behind_fork {choice : Fork} (proper : (fork visit choice exits).Proper)
    {exit : Exit} {walk : Walk Visit} (member : (exit, some walk) ∈ exits) : walk.Proper :=
  proper.of_sublist (shaped_of_mem exits proper.shaped.2 member)
    ((visits_sublist_of_mem exits member).trans (List.sublist_cons_self _ _))

theorem Proper.behind_subflow {called : Subflow}
    (proper : (subflow visit called exits next).Proper) {exit : Exit} {walk : Walk Visit}
    (member : (exit, some walk) ∈ exits) : walk.Proper :=
  proper.of_sublist (shaped_of_mem exits proper.shaped.2.1 member)
    (((visits_sublist_of_mem exits member).trans (List.sublist_append_left _ _)).trans
      (List.sublist_cons_self _ _))

theorem Proper.next_subflow {called : Subflow}
    (proper : (subflow visit called exits next).Proper) : next.Proper :=
  proper.of_sublist proper.shaped.2.2
    ((List.sublist_append_right _ _).trans (List.sublist_cons_self _ _))

theorem Proper.body_loop {start : LoopStart} {body : Walk Visit}
    (proper : (loop visit start body next).Proper) : body.Proper :=
  proper.of_sublist proper.shaped.1
    ((List.sublist_append_left _ _).trans (List.sublist_cons_self _ _))

theorem Proper.next_loop {start : LoopStart} {body : Walk Visit}
    (proper : (loop visit start body next).Proper) : next.Proper :=
  proper.of_sublist proper.shaped.2
    ((List.sublist_append_right _ _).trans (List.sublist_cons_self _ _))

end

theorem Place.proper {scope inner : Scope} {walk part : Walk Visit}
    (place : Place scope walk inner part) (proper : walk.Proper) : part.Proper := by
  induction place with
  | here => exact proper
  | afterAction _ induction => exact induction proper.next_action
  | behindFork member _ induction => exact induction (proper.behind_fork member)
  | behindSubflow member _ induction => exact induction (proper.behind_subflow member)
  | afterSubflow _ induction => exact induction proper.next_subflow
  | inLoop _ induction => exact induction proper.body_loop
  | afterLoop _ induction => exact induction proper.next_loop

/-! ## Routines -/

def exitEntry (settings : Settings) (names : Names) (scope : Scope) :
    Exit × Option (Walk Visit) → String × Routine
  | (exit, none) => (names.routine exit.slug, stubRoutine scope exit)
  | (exit, some walk) => (names.routine exit.slug, exitRoutine settings scope walk)

def ownRoutines (settings : Settings) (scope : Scope) : Walk Visit → List (String × Routine)
  | .fork visit _ exits =>
      exits.map (exitEntry settings visit.names (scope.bindResult visit.names))
  | .subflow visit _ exits _ => exits.map (exitEntry settings visit.names scope)
  | .loop visit _ body _ => [(LoopStart.bodyRoutine visit.names, bodyRoutine settings scope body)]
  | .done | .terminal _ | .action .. => []

def OfExits (settings : Settings) (names : Names) (scope : Scope)
    (exits : List (Exit × Option (Walk Visit))) (entry : String × Routine) : Prop :=
  entry ∈ exits.map (exitEntry settings names scope) ∨
    ∃ exit walk inner part, (exit, some walk) ∈ exits ∧
      Place scope.enterRoutine walk inner part ∧ entry ∈ part.ownRoutines settings inner

theorem OfExits.cons {settings : Settings} {names : Names} {scope : Scope}
    {first : Exit × Option (Walk Visit)} {rest : List (Exit × Option (Walk Visit))}
    {entry : String × Routine} (found : OfExits settings names scope rest entry) :
    OfExits settings names scope (first :: rest) entry := by
  rcases found with own | ⟨exit, walk, inner, part, member, place, own⟩
  · exact .inl (List.mem_cons_of_mem _ own)
  · exact .inr ⟨exit, walk, inner, part, List.mem_cons_of_mem _ member, place, own⟩

mutual
theorem exists_place_of_mem_routines {settings : Settings} {entry : String × Routine} :
    ∀ (walk : Walk Visit) {scope : Scope}, entry ∈ walk.routines settings scope →
      ∃ inner part, Place scope walk inner part ∧ entry ∈ part.ownRoutines settings inner
  | .done, _, member => by cases member
  | .terminal _, _, member => by cases member
  | .action _ _ next, _, member => by
      rcases exists_place_of_mem_routines next member with ⟨inner, part, place, own⟩
      exact ⟨inner, part, .afterAction place, own⟩
  | .fork visit choice exits, scope, member => by
      rcases ofExits_of_mem_exitRoutines exits member with
        own | ⟨exit, walk, inner, part, among, place, own⟩
      · exact ⟨scope, .fork visit choice exits, .here, own⟩
      · exact ⟨inner, part, .behindFork among place, own⟩
  | .subflow visit called exits next, scope, member => by
      rcases List.mem_append.mp member with member | member
      · rcases ofExits_of_mem_exitRoutines exits member with
          own | ⟨exit, walk, inner, part, among, place, own⟩
        · exact ⟨scope, .subflow visit called exits next, .here, own⟩
        · exact ⟨inner, part, .behindSubflow among place, own⟩
      · rcases exists_place_of_mem_routines next member with ⟨inner, part, place, own⟩
        exact ⟨inner, part, .afterSubflow place, own⟩
  | .loop visit start body next, scope, member => by
      rcases List.mem_append.mp member with member | member
      · rcases List.mem_append.mp member with member | own
        · rcases exists_place_of_mem_routines body member with ⟨inner, part, place, own⟩
          exact ⟨inner, part, .inLoop place, own⟩
        · exact ⟨scope, .loop visit start body next, .here, own⟩
      · rcases exists_place_of_mem_routines next member with ⟨inner, part, place, own⟩
        exact ⟨inner, part, .afterLoop place, own⟩

theorem ofExits_of_mem_exitRoutines {settings : Settings} {names : Names}
    {entry : String × Routine} :
    ∀ (exits : List (Exit × Option (Walk Visit))) {scope : Scope},
      entry ∈ exitRoutines settings names scope exits →
        OfExits settings names scope exits entry
  | [], _, member => by cases member
  | (_, none) :: rest, _, member => by
      rcases List.mem_cons.mp member with equal | member
      · exact .inl (equal ▸ List.mem_cons_self)
      · exact (ofExits_of_mem_exitRoutines rest member).cons
  | (exit, some walk) :: rest, _, member => by
      rcases List.mem_append.mp member with member | member
      · rcases exists_place_of_mem_routines walk member with ⟨inner, part, place, own⟩
        exact .inr ⟨exit, walk, inner, part, List.mem_cons_self, place, own⟩
      · rcases List.mem_cons.mp member with equal | member
        · exact .inl (equal ▸ List.mem_cons_self)
        · exact (ofExits_of_mem_exitRoutines rest member).cons
end

theorem exitEntry_mem_exitRoutines {settings : Settings} {names : Names} {scope : Scope} :
    ∀ (exits : List (Exit × Option (Walk Visit))) {entry : String × Routine},
      entry ∈ exits.map (exitEntry settings names scope) →
        entry ∈ exitRoutines settings names scope exits
  | (_, none) :: rest, entry, member => by
      rcases List.mem_cons.mp member with equal | member
      · exact equal ▸ List.mem_cons_self
      · exact List.mem_cons_of_mem _ (exitEntry_mem_exitRoutines rest member)
  | (_, some walk) :: rest, entry, member => by
      refine List.mem_append_right _ ?_
      rcases List.mem_cons.mp member with equal | member
      · exact equal ▸ List.mem_cons_self
      · exact List.mem_cons_of_mem _ (exitEntry_mem_exitRoutines rest member)

theorem routines_subset_exitRoutines {settings : Settings} {names : Names} {scope : Scope}
    {exit : Exit} {walk : Walk Visit} :
    ∀ exits : List (Exit × Option (Walk Visit)), (exit, some walk) ∈ exits →
      walk.routines settings scope.enterRoutine ⊆ exitRoutines settings names scope exits
  | (_, none) :: rest, member => by
      rcases List.mem_cons.mp member with equal | member
      · cases equal
      · exact List.subset_cons_of_subset _ (routines_subset_exitRoutines rest member)
  | (_, some first) :: rest, member => by
      rcases List.mem_cons.mp member with equal | member
      · cases equal
        exact List.subset_append_left _ _
      · exact List.subset_append_of_subset_right _ (List.subset_cons_of_subset _
          (routines_subset_exitRoutines rest member))

theorem Place.routines_subset {settings : Settings} {scope inner : Scope} {walk part : Walk Visit}
    (place : Place scope walk inner part) :
    part.routines settings inner ⊆ walk.routines settings scope := by
  induction place with
  | here => exact List.Subset.refl _
  | afterAction _ induction => exact induction
  | behindFork member _ induction =>
      exact List.Subset.trans induction (routines_subset_exitRoutines _ member)
  | behindSubflow member _ induction =>
      exact List.Subset.trans induction
        (List.subset_append_of_subset_left _ (routines_subset_exitRoutines _ member))
  | afterSubflow _ induction => exact List.subset_append_of_subset_right _ induction
  | inLoop _ induction =>
      exact List.subset_append_of_subset_left _ (List.subset_append_of_subset_left _ induction)
  | afterLoop _ induction => exact List.subset_append_of_subset_right _ induction

theorem ownRoutines_subset (settings : Settings) (scope : Scope) (walk : Walk Visit) :
    walk.ownRoutines settings scope ⊆ walk.routines settings scope := by
  intro entry own
  cases walk with
  | done | terminal | action => cases own
  | fork visit choice exits => exact exitEntry_mem_exitRoutines _ own
  | subflow visit called exits next =>
      exact List.mem_append_left _ (exitEntry_mem_exitRoutines _ own)
  | loop visit start body next => exact List.mem_append_left _ (List.mem_append_right _ own)

end Walk

end FlowCompiler
