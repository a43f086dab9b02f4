import FlowCompiler.Proofs.Calls

namespace FlowCompiler

/-! No step of a routine and no routine of a program has the name of another. Names of one visit
differ by their suffixes and slugs, names of different visits by their numbers. -/

open Step

/-! ## Names of steps -/

/-! The names of a list are pairwise different, and each of them belongs to one of the visits. -/

structure NamedBy (visits : List Visit) (names : List String) : Prop where
  distinct : names.Nodup
  owned : ∀ name ∈ names, ∃ visit ∈ visits, visit.names.Owns name

theorem namedBy_nil (visits : List Visit) : NamedBy visits [] :=
  ⟨List.nodup_nil, by simp⟩

theorem NamedBy.mono {fewer visits : List Visit} {names : List String}
    (named : NamedBy fewer names) (subset : fewer ⊆ visits) : NamedBy visits names := by
  refine ⟨named.distinct, fun name member => ?_⟩
  rcases named.owned name member with ⟨visit, among, owns⟩
  exact ⟨visit, subset among, owns⟩

theorem NamedBy.visit {visit : Visit} {visits : List Visit} {suffixes names : List String}
    (proper : visit.names.Proper) (othersProper : ∀ other ∈ visits, other.names.Proper)
    (fresh : visit.names.number ∉ visits.map fun other => other.names.number)
    (suffixesProper : ProperSuffixes suffixes) (named : NamedBy visits names) :
    NamedBy (visit :: visits)
      (visit.names.result :: (suffixes.map visit.names.step ++ names)) := by
  have others : ∀ name, visit.names.Owns name → name ∉ names := by
    intro name owns member
    rcases named.owned name member with ⟨other, among, otherOwns⟩
    apply fresh
    rw [owns.number_eq proper (othersProper other among) otherOwns]
    exact List.mem_map_of_mem among
  have own : ∀ name ∈ suffixes.map visit.names.step, visit.names.Owns name := by
    intro name member
    rcases List.mem_map.mp member with ⟨suffix, among, rfl⟩
    exact .step (suffixesProper.wordy suffix among)
  refine ⟨List.nodup_cons.mpr ⟨?_, List.nodup_append.mpr ⟨?_, named.distinct, ?_⟩⟩, ?_⟩
  · intro member
    rcases List.mem_append.mp member with member | member
    · rcases List.mem_map.mp member with ⟨suffix, _, equal⟩
      exact visit.names.step_ne_result suffix equal
    · exact others _ .result member
  · exact suffixesProper.distinct.map fun _ _ equal => visit.names.step_injective equal
  · intro name stepMember other member equal
    exact others name (own name stepMember) (equal ▸ member)
  · intro name member
    rcases List.mem_cons.mp member with equal | member
    · exact ⟨visit, List.mem_cons_self, equal ▸ .result⟩
    · rcases List.mem_append.mp member with member | member
      · exact ⟨visit, List.mem_cons_self, own name member⟩
      · rcases named.owned name member with ⟨other, among, owns⟩
        exact ⟨other, List.mem_cons_of_mem _ among, owns⟩

theorem Step.namesWithin_block (name : String) (steps : List Step) :
    namesWithin [.block name steps] = name :: namesWithin steps := by
  simp only [namesWithin, flattenSteps, flatten, List.append_nil]
  rfl

namespace Walk

theorem Proper.names_of_mem {walk : Walk Visit} (proper : walk.Proper) {visit : Visit}
    (member : visit ∈ walk.visits) : visit.names.Proper :=
  ⟨visit.node, proper.made visit member⟩

/-- The steps of a walk have different names, which belong to its visits. -/
theorem namedBy_steps (settings : Settings) : ∀ (scope : Scope) (walk : Walk Visit),
    walk.Proper → NamedBy walk.visits (namesWithin (walk.steps settings scope))
  | _, .done, _ => namedBy_nil _
  | _, .terminal visit, proper => by
      have own : visit.names.Proper := proper.names_of_mem List.mem_cons_self
      have none : ProperSuffixes [] := by decide
      exact (namedBy_nil []).visit own (by simp) (by simp) none
  | scope, .action visit act next, proper => by
      have fresh := (List.nodup_cons.mp proper.distinct).1
      rw [steps, namesWithin_block, namesWithin_append, Action.namesWithin_steps]
      exact (namedBy_steps settings _ next proper.next_action).visit
        (proper.names_of_mem List.mem_cons_self)
        (fun other member => proper.names_of_mem (List.mem_cons_of_mem _ member)) fresh
        act.properSuffixes
  | scope, .fork visit choice exits, proper => by
      have fresh := (List.nodup_cons.mp proper.distinct).1
      rw [steps, namesWithin_block, Fork.namesWithin_steps, proper.shaped.1]
      have named := (namedBy_nil (exitVisits exits)).visit
        (proper.names_of_mem List.mem_cons_self)
        (fun other member => proper.names_of_mem (List.mem_cons_of_mem _ member)) fresh
        choice.properSuffixes
      rwa [List.append_nil] at named
  | scope, .subflow visit called exits next, proper => by
      have fresh := (List.nodup_cons.mp proper.distinct).1
      rw [steps, namesWithin_block, namesWithin_append, Subflow.namesWithin_steps]
      exact ((namedBy_steps settings _ next proper.next_subflow).mono
        (List.subset_append_right _ _)).visit (proper.names_of_mem List.mem_cons_self)
        (fun other member => proper.names_of_mem (List.mem_cons_of_mem _ member)) fresh
        (Subflow.properSuffixes_of_shape proper.shaped.1)
  | scope, .loop visit start body next, proper => by
      have fresh := (List.nodup_cons.mp proper.distinct).1
      rw [steps, namesWithin_block, namesWithin_append, LoopStart.namesWithin_steps]
      exact ((namedBy_steps settings _ next proper.next_loop).mono
        (List.subset_append_right _ _)).visit (proper.names_of_mem List.mem_cons_self)
        (fun other member => proper.names_of_mem (List.mem_cons_of_mem _ member)) fresh
        start.properSuffixes

/-- Names without numerals are no names of steps of a walk. -/
theorem not_mem_namesWithin_of_wordy {settings : Settings} {scope : Scope} {walk : Walk Visit}
    (proper : walk.Proper) {name : String} (wordy : Text.Wordy name) :
    name ∉ namesWithin (walk.steps settings scope) := by
  intro member
  rcases (namedBy_steps settings scope walk proper).owned name member with ⟨visit, among, owns⟩
  exact owns.not_wordy (proper.names_of_mem among) wordy

/-- The steps of a walk keep their different names between steps with fixed names. -/
theorem nodup_namesWithin {settings : Settings} {scope : Scope} {walk : Walk Visit}
    (proper : walk.Proper) {front rest : List Step}
    (wordy : ∀ name ∈ namesWithin front ++ namesWithin rest, Text.Wordy name)
    (distinct : (namesWithin front ++ namesWithin rest).Nodup) :
    (namesWithin (front ++ walk.steps settings scope ++ rest)).Nodup := by
  rw [namesWithin_append, namesWithin_append]
  have parts := List.nodup_append.mp distinct
  have own := (namedBy_steps settings scope walk proper).distinct
  refine List.nodup_append.mpr ⟨List.nodup_append.mpr ⟨parts.1, own, ?_⟩, parts.2.1, ?_⟩
  · intro name fixed other member equal
    exact not_mem_namesWithin_of_wordy proper (wordy name (List.mem_append_left _ fixed))
      (equal ▸ member)
  · intro name member other fixed equal
    rcases List.mem_append.mp member with member | member
    · exact parts.2.2 name member other fixed equal
    · exact not_mem_namesWithin_of_wordy proper (wordy other (List.mem_append_right _ fixed))
        (equal ▸ member)

/-! ## Names of routines -/

structure Numbered (visits : List Visit) : Prop where
  proper : ∀ visit ∈ visits, visit.names.Proper
  distinct : (visits.map fun visit => visit.names.number).Nodup

theorem Proper.numbered {walk : Walk Visit} (proper : walk.Proper) : Numbered walk.visits :=
  ⟨fun _ member => proper.names_of_mem member, proper.distinct⟩

theorem Numbered.of_sublist {fewer visits : List Visit} (numbered : Numbered visits)
    (sublist : fewer.Sublist visits) : Numbered fewer :=
  ⟨fun visit member => numbered.proper visit (sublist.subset member),
    (sublist.map _).nodup numbered.distinct⟩

theorem Numbered.number_ne {left right : List Visit} (numbered : Numbered (left ++ right))
    {visit other : Visit} (leftMember : visit ∈ left) (rightMember : other ∈ right) :
    visit.names.number ≠ other.names.number := by
  have distinct := numbered.distinct
  rw [List.map_append] at distinct
  exact (List.nodup_append.mp distinct).2.2 _ (List.mem_map_of_mem leftMember) _
    (List.mem_map_of_mem rightMember)

structure RoutinesOf (visits : List Visit) (names : List String) : Prop where
  distinct : names.Nodup
  owned : ∀ name ∈ names, ∃ visit ∈ visits, ∃ slug, name = visit.names.routine slug

theorem routinesOf_nil (visits : List Visit) : RoutinesOf visits [] :=
  ⟨List.nodup_nil, by simp⟩

theorem RoutinesOf.mono {fewer visits : List Visit} {names : List String}
    (named : RoutinesOf fewer names) (subset : fewer ⊆ visits) : RoutinesOf visits names := by
  refine ⟨named.distinct, fun name member => ?_⟩
  rcases named.owned name member with ⟨visit, among, slug, equal⟩
  exact ⟨visit, subset among, slug, equal⟩

/-- Routines of visits with different numbers have different names. -/
theorem RoutinesOf.append {left right : List Visit} {leftNames rightNames : List String}
    (numbered : Numbered (left ++ right)) (first : RoutinesOf left leftNames)
    (second : RoutinesOf right rightNames) :
    RoutinesOf (left ++ right) (leftNames ++ rightNames) := by
  refine ⟨List.nodup_append.mpr ⟨first.distinct, second.distinct, ?_⟩, ?_⟩
  · intro name leftMember other rightMember equal
    rcases first.owned name leftMember with ⟨visit, leftVisit, slug, named⟩
    rcases second.owned other rightMember with ⟨later, rightVisit, otherSlug, otherNamed⟩
    exact numbered.number_ne leftVisit rightVisit (Names.number_eq_of_routine_eq
      (numbered.proper visit (List.mem_append_left _ leftVisit))
      (numbered.proper later (List.mem_append_right _ rightVisit))
      (named.symm.trans (equal.trans otherNamed)))
  · intro name member
    rcases List.mem_append.mp member with member | member
    · exact (first.mono (List.subset_append_left _ _)).owned name member
    · exact (second.mono (List.subset_append_right _ _)).owned name member

theorem RoutinesOf.perm {visits : List Visit} {names others : List String}
    (named : RoutinesOf visits names) (permuted : others.Perm names) : RoutinesOf visits others :=
  ⟨permuted.nodup_iff.mpr named.distinct,
    fun name member => named.owned name (permuted.mem_iff.mp member)⟩

theorem routinesOf_visit (visit : Visit) {slugs : List String} (distinct : slugs.Nodup) :
    RoutinesOf [visit] (slugs.map visit.names.routine) := by
  refine ⟨distinct.map fun _ _ equal => visit.names.routine_injective equal, ?_⟩
  intro name member
  rcases List.mem_map.mp member with ⟨slug, _, equal⟩
  exact ⟨visit, List.mem_singleton_self _, slug, equal.symm⟩

def behindRoutines (settings : Settings) (scope : Scope) :
    List (Exit × Option (Walk Visit)) → List (String × Routine)
  | [] => []
  | (_, none) :: rest => behindRoutines settings scope rest
  | (_, some walk) :: rest =>
      walk.routines settings scope.enterRoutine ++ behindRoutines settings scope rest

theorem exitRoutines_perm (settings : Settings) (names : Names) (scope : Scope) :
    ∀ exits : List (Exit × Option (Walk Visit)),
      (exitRoutines settings names scope exits).Perm
        (exits.map (exitEntry settings names scope) ++ behindRoutines settings scope exits)
  | [] => .refl _
  | (_, none) :: rest => (exitRoutines_perm settings names scope rest).cons _
  | (_, some walk) :: rest => by
      have first : ∀ entry : String × Routine,
          (walk.routines settings scope.enterRoutine ++
            entry :: exitRoutines settings names scope rest).Perm
          (entry :: (rest.map (exitEntry settings names scope) ++
            (walk.routines settings scope.enterRoutine ++
              behindRoutines settings scope rest))) := by
        intro entry
        refine List.perm_middle.trans (.cons entry ?_)
        refine ((exitRoutines_perm settings names scope rest).append_left _).trans ?_
        rw [← List.append_assoc, ← List.append_assoc]
        exact List.perm_append_comm.append_right _
      exact first _

theorem map_fst_exitEntry (settings : Settings) (names : Names) (scope : Scope)
    (exits : List (Exit × Option (Walk Visit))) :
    (exits.map (exitEntry settings names scope)).map Prod.fst =
      ((exits.map Prod.fst).map Exit.slug).map names.routine := by
  simp only [List.map_map]
  exact List.map_congr_left fun exit _ => fst_exitEntry settings names scope exit

theorem routinesOf_exitRoutines {settings : Settings} {visit : Visit} {scope : Scope}
    {exits : List (Exit × Option (Walk Visit))} (numbered : Numbered (visit :: exitVisits exits))
    (exitsProper : ProperExits (exits.map Prod.fst))
    (behind : RoutinesOf (exitVisits exits) ((behindRoutines settings scope exits).map Prod.fst)) :
    RoutinesOf (visit :: exitVisits exits)
      ((exitRoutines settings visit.names scope exits).map Prod.fst) := by
  have own := routinesOf_visit visit exitsProper.distinct
  rw [← map_fst_exitEntry settings visit.names scope] at own
  have joined := own.append numbered behind
  rw [← List.map_append] at joined
  exact joined.perm ((exitRoutines_perm settings visit.names scope exits).map Prod.fst)

theorem properExits_of_subflow {exits : List Exit} (shape : exits = [] ∨ exits = [.failure]) :
    ProperExits exits := by
  rcases shape with none | failure
  · exact none ▸ properExits_nil
  · exact failure ▸ properExits_failure

mutual
/-- The routines of a walk have different names, which belong to its visits. -/
theorem routinesOf_routines (settings : Settings) : ∀ (scope : Scope) (walk : Walk Visit),
    walk.Shaped → Numbered walk.visits →
      RoutinesOf walk.visits ((walk.routines settings scope).map Prod.fst)
  | _, .done, _, _ => routinesOf_nil _
  | _, .terminal _, _, _ => routinesOf_nil _
  | _, .action _ _ next, shaped, numbered => by
      have rest := numbered.of_sublist (List.sublist_cons_self _ _)
      exact (routinesOf_routines settings _ next shaped rest).mono (List.subset_cons_self _ _)
  | scope, .fork visit choice exits, shaped, numbered => by
      have rest := numbered.of_sublist (List.sublist_cons_self _ _)
      have behind := routinesOf_behindRoutines settings (scope.bindResult visit.names) exits
        shaped.2 rest
      exact routinesOf_exitRoutines numbered (shaped.1 ▸ choice.properExits) behind
  | scope, .subflow visit _ exits next, shaped, numbered => by
      have rest := numbered.of_sublist (List.sublist_cons_self _ _)
      have behind := routinesOf_behindRoutines settings scope exits shaped.2.1
        (rest.of_sublist (List.sublist_append_left _ _))
      have nextRoutines := routinesOf_routines settings (scope.bindResult visit.names) next
        shaped.2.2 (rest.of_sublist (List.sublist_append_right _ _))
      have own := routinesOf_exitRoutines
        (numbered.of_sublist ((List.sublist_append_left _ _).cons_cons visit))
        (properExits_of_subflow shaped.1) behind
      rw [routines, List.map_append]
      exact own.append numbered nextRoutines
  | scope, .loop visit start body next, shaped, numbered => by
      have rest := numbered.of_sublist (List.sublist_cons_self _ _)
      have bodyRoutines := routinesOf_routines settings scope.enterLoop body shaped.1
        (rest.of_sublist (List.sublist_append_left _ _))
      have nextRoutines := routinesOf_routines settings scope next shaped.2
        (rest.of_sublist (List.sublist_append_right _ _))
      have own := routinesOf_visit visit (List.nodup_singleton "body")
      refine (own.append numbered (bodyRoutines.append rest nextRoutines)).perm ?_
      rw [routines, List.map_append, List.map_append, List.append_assoc]
      exact List.perm_middle

theorem routinesOf_behindRoutines (settings : Settings) :
    ∀ (scope : Scope) (exits : List (Exit × Option (Walk Visit))), ShapedExits exits →
      Numbered (exitVisits exits) →
        RoutinesOf (exitVisits exits) ((behindRoutines settings scope exits).map Prod.fst)
  | _, [], _, _ => routinesOf_nil _
  | _, (_, none) :: rest, shaped, numbered =>
      routinesOf_behindRoutines settings _ rest shaped numbered
  | scope, (_, some walk) :: rest, shaped, numbered => by
      have first := routinesOf_routines settings scope.enterRoutine walk shaped.1
        (numbered.of_sublist (List.sublist_append_left _ _))
      have others := routinesOf_behindRoutines settings scope rest shaped.2
        (numbered.of_sublist (List.sublist_append_right _ _))
      rw [behindRoutines, List.map_append]
      exact first.append numbered others
end

/-- The routines of a walk keep their different names next to fixed names. -/
theorem nodup_routineNames {settings : Settings} {scope : Scope} {walk : Walk Visit}
    (proper : walk.Proper) (fixed : List String) (wordy : ∀ name ∈ fixed, Text.Wordy name)
    (distinct : fixed.Nodup) :
    (fixed ++ (walk.routines settings scope).map Prod.fst).Nodup := by
  have named := routinesOf_routines settings scope walk proper.shaped proper.numbered
  refine List.nodup_append.mpr ⟨distinct, named.distinct, ?_⟩
  intro name among other member equal
  rcases named.owned other member with ⟨visit, isVisit, slug, routine⟩
  exact Names.not_wordy_routine (proper.names_of_mem isVisit) slug
    (routine ▸ equal ▸ wordy name among)

end Walk

end FlowCompiler
