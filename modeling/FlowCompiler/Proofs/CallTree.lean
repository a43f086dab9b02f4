import FlowCompiler.Proofs.CallSites
import FlowCompiler.Proofs.Checked
import Mathlib.Data.List.Perm.Subperm
import Mathlib.Logic.Relation

namespace FlowCompiler

/-! The routines of a program form a tree under `main`. Each is called from one routine by one
step, or by the two steps with which a subflow aborts, and it stands in front of its caller. -/

open Lowering Step

/-! ## The order of routines -/

/-- Each of these routines calls only primitives, routines in front of it, and known ones. -/
def CallsBack (known : List String) : List (String × Routine) → Prop
  | [] => True
  | (name, routine) :: rest =>
      (∀ call ∈ callsWithin routine.steps,
        Primitive.isPrimitive call.target ∨ call.target ∈ known) ∧ CallsBack (name :: known) rest

theorem CallsBack.mono : ∀ {entries : List (String × Routine)} {known more : List String},
    CallsBack known entries → known ⊆ more → CallsBack more entries
  | [], _, _, _, _ => trivial
  | (name, _) :: _, _, _, back, subset =>
      ⟨fun call member => (back.1 call member).imp_right fun among => subset among,
        CallsBack.mono back.2 (List.cons_subset_cons name subset)⟩

theorem CallsBack.append : ∀ {left right : List (String × Routine)} {known : List String},
    CallsBack known left → CallsBack (left.map Prod.fst ++ known) right →
      CallsBack known (left ++ right)
  | [], _, _, _, second => second
  | (name, routine) :: rest, _, _, first, second =>
      ⟨first.1, CallsBack.append first.2 (second.mono fun other member => by
        rcases List.mem_append.mp member with among | among
        · rcases List.mem_cons.mp among with equal | among
          · exact List.mem_append_right _ (equal ▸ List.mem_cons_self)
          · exact List.mem_append_left _ among
        · exact List.mem_append_right _ (List.mem_cons_of_mem _ among))⟩

/-- What a routine calls is known, or it stands in front of the routine. -/
theorem CallsBack.idxOf_lt : ∀ {entries : List (String × Routine)} {known : List String},
    CallsBack known entries → (entries.map Prod.fst).Nodup →
      ∀ {caller : String} {routine : Routine}, (caller, routine) ∈ entries →
        ∀ call ∈ callsWithin routine.steps, Primitive.isPrimitive call.target ∨
          call.target ∈ known ∨
            (entries.map Prod.fst).idxOf call.target < (entries.map Prod.fst).idxOf caller
  | (name, first) :: rest, known, back, distinct, caller, routine, member, made, called => by
      rcases List.mem_cons.mp member with equal | member
      · cases equal
        rcases back.1 made called with primitive | among
        · exact .inl primitive
        · exact .inr (.inl among)
      · have fresh := (List.nodup_cons.mp distinct).1
        have callerMember := List.mem_map_of_mem (f := Prod.fst) member
        have different : name ≠ caller := fun equal => fresh (equal ▸ callerMember)
        rcases back.2.idxOf_lt (List.nodup_cons.mp distinct).2 member made called with
          primitive | among | earlier
        · exact .inl primitive
        · rcases List.mem_cons.mp among with equal | among
          · right
            right
            rw [List.map_cons, equal, List.idxOf_cons_self, List.idxOf_cons_ne _ different]
            exact Nat.succ_pos _
          · exact .inr (.inl among)
        · by_cases same : name = made.target
          · right
            right
            rw [List.map_cons, ← same, List.idxOf_cons_self, List.idxOf_cons_ne _ different]
            exact Nat.succ_pos _
          · right
            right
            rw [List.map_cons, List.idxOf_cons_ne _ different, List.idxOf_cons_ne _ same]
            exact Nat.succ_lt_succ earlier

namespace Walk

/-- What the steps of a walk call is among its routines. -/
theorem target_mem_of_call {settings : Settings} {scope : Scope} {walk : Walk Visit} {call : Call}
    (called : call ∈ callsWithin (walk.steps settings scope)) :
    Primitive.isPrimitive call.target ∨
      call.target ∈ (walk.routines settings scope).map Prod.fst := by
  rcases exists_place_of_call walk called with primitive | ⟨inner, part, place, dispatch⟩
  · exact .inl primitive
  · rcases exists_ownRoutine_of_dispatch settings dispatch with ⟨routine, own⟩
    have member := place.routines_subset (part.ownRoutines_subset settings inner own)
    exact .inr (List.mem_map_of_mem (f := Prod.fst) member)

/-- A routine behind those of its walk calls only these. -/
theorem callsBack_composed {settings : Settings} {scope : Scope} {walk : Walk Visit} {last : Step}
    {routine : Routine} (composed : Composed settings scope walk last routine) (name : String) :
    CallsBack ((walk.routines settings scope).map Prod.fst) [(name, routine)] := by
  refine ⟨fun call called => ?_, trivial⟩
  rw [composed.steps, callsWithin_append] at called
  rcases List.mem_append.mp called with called | called
  · exact target_mem_of_call called
  · cases composed.closing <;> cases called

mutual
theorem callsBack_routines (settings : Settings) : ∀ (scope : Scope) (walk : Walk Visit),
    CallsBack [] (walk.routines settings scope)
  | _, .done => trivial
  | _, .terminal _ => trivial
  | scope, .action visit act next =>
      callsBack_routines settings (scope.afterAction visit.names act) next
  | scope, .fork visit choice exits =>
      callsBack_exitRoutines settings visit.names (scope.bindResult visit.names) exits
  | scope, .subflow visit called exits next =>
      (callsBack_exitRoutines settings visit.names scope exits).append
        ((callsBack_routines settings (scope.bindResult visit.names) next).mono
          (List.nil_subset _))
  | scope, .loop visit start body next => by
      have composed : Composed settings scope.enterLoop body
          (.return "finish" (.string LoopStart.continueValue)) (bodyRoutine settings scope body) :=
        ⟨rfl, rfl, .resume⟩
      have inside := (callsBack_routines settings scope.enterLoop body).append
        ((callsBack_composed composed (LoopStart.bodyRoutine visit.names)).mono
          (List.subset_append_left _ _))
      exact inside.append ((callsBack_routines settings scope next).mono (List.nil_subset _))

theorem callsBack_exitRoutines (settings : Settings) (names : Names) :
    ∀ (scope : Scope) (exits : List (Exit × Option (Walk Visit))),
      CallsBack [] (exitRoutines settings names scope exits)
  | _, [] => trivial
  | scope, (exit, none) :: rest =>
      ⟨fun _ called => absurd called List.not_mem_nil,
        (callsBack_exitRoutines settings names scope rest).mono (List.nil_subset _)⟩
  | scope, (exit, some walk) :: rest => by
      have composed : Composed settings scope.enterRoutine walk finishStep
          (exitRoutine settings scope walk) := ⟨rfl, rfl, .finish⟩
      have own := callsBack_composed composed (names.routine exit.slug)
      refine (callsBack_routines settings scope.enterRoutine walk).append ⟨?_, ?_⟩
      · rw [List.append_nil]
        exact own.1
      · exact (callsBack_exitRoutines settings names scope rest).mono (List.nil_subset _)
end

end Walk

/-! ## Routines of programs -/

theorem Walk.isIdentifier_of_mem_routines {settings : Settings} {scope : Scope}
    {walk : Walk Visit} (proper : walk.Proper) {entry : String × Routine}
    (member : entry ∈ walk.routines settings scope) : Text.IsIdentifier entry.1 := by
  rcases exists_place_of_mem_routines walk member with ⟨inner, part, place, own⟩
  have partProper := place.proper proper
  have ofExits : ∀ (visit : Visit) (scope : Scope) (exits : List (Exit × Option (Walk Visit))),
      visit.names.Proper → ProperExits (exits.map Prod.fst) →
        entry ∈ exits.map (exitEntry settings visit.names scope) →
          Text.IsIdentifier entry.1 := by
    intro visit scope exits names exitsProper among
    rcases List.mem_map.mp among with ⟨exit, inside, rfl⟩
    rw [fst_exitEntry]
    exact exitsProper.isIdentifier_routine names (List.mem_map_of_mem inside)
  cases part with
  | done | terminal | action => cases own
  | fork visit choice exits =>
      exact ofExits visit _ exits (partProper.names_of_mem List.mem_cons_self)
        (partProper.shaped.1 ▸ choice.properExits) own
  | subflow visit called exits next =>
      exact ofExits visit _ exits (partProper.names_of_mem List.mem_cons_self)
        (properExits_of_subflow partProper.shaped.1) own
  | loop visit start body next =>
      rw [List.mem_singleton.mp own]
      exact Names.isIdentifier_routine (partProper.names_of_mem List.mem_cons_self) (by decide)

theorem Walk.isPrimitive_eq_false_of_mem_routines {settings : Settings} {scope : Scope}
    {walk : Walk Visit} (proper : walk.Proper) {entry : String × Routine}
    (member : entry ∈ walk.routines settings scope) : Primitive.isPrimitive entry.1 = false :=
  Primitive.isPrimitive_eq_false (isIdentifier_of_mem_routines proper member)

namespace Program

def callSites (program : Program) (target : String) : List (String × Step) :=
  program.sites.filter fun site => site.2.calls target

def Calls (program : Program) (caller target : String) : Prop :=
  target ∈ program.routines.keys ∧ ∃ step, (caller, step) ∈ program.callSites target

/-- The routine behind the exit for failure is called in exactly two steps: in the case of this
check in which the subflow has failed, and in the one in which it has taken too long. -/
def CalledByAborts (settings : Settings) (program : Program) (home : String)
    (check : FailureCheck) : Prop :=
  ∃ failed ∈ check.abortSteps settings .failed, ∃ timedOut ∈ check.abortSteps settings .timedOut,
    (program.callSites check.routine).Perm [(home, failed), (home, timedOut)]

structure IsTree (settings : Settings) (program : Program) : Prop where
  first : program.routines.keys.head? = some mainName
  root : program.callSites mainName = []
  /-- Every other routine is called by one step, -/
  once : ∀ name ∈ program.routines.keys, name ≠ mainName →
    (∀ home, ∀ check : FailureCheck, (home, check.step settings) ∈ program.sites →
      check.routine ≠ name) → ∃ site, program.callSites name = [site]
  /-- unless it is a routine for the failure of a subflow. -/
  twice : ∀ home, ∀ check : FailureCheck, (home, check.step settings) ∈ program.sites →
    check.routine ∈ program.routines.keys → program.CalledByAborts settings home check
  /-- A routine stands in front of its caller, unless it is called by `main`. -/
  ordered : ∀ caller target, program.Calls caller target → caller = mainName ∨
    program.routines.keys.idxOf target < program.routines.keys.idxOf caller
  acyclic : ∀ name, ¬ Relation.TransGen program.Calls name name

section

variable {settings : Settings} {program : Program}

theorem mem_sites {caller : String} {step : Step} :
    (caller, step) ∈ program.sites ↔
      ∃ routine, (caller, routine) ∈ program.routines.entries ∧ step ∈ routine.flatten := by
  rw [sites, sitesOf, List.mem_flatMap]
  constructor
  · rintro ⟨⟨name, routine⟩, member, among⟩
    rcases List.mem_map.mp among with ⟨inner, inside, equal⟩
    cases equal
    exact ⟨routine, member, inside⟩
  · rintro ⟨routine, member, inside⟩
    exact ⟨(caller, routine), member, List.mem_map_of_mem inside⟩

theorem mem_sites_of_mem_flatten {home : String} {outer step : Step}
    (among : (home, outer) ∈ program.sites) (inside : step ∈ flatten outer) :
    (home, step) ∈ program.sites := by
  rcases mem_sites.mp among with ⟨routine, entry, nested⟩
  exact mem_sites.mpr
    ⟨routine, entry, (flatten_sublist_of_mem_steps routine.steps nested).subset inside⟩

theorem calls_of_site {home : String} {step : Step} {call : Call}
    (site : (home, step) ∈ program.sites) (called : step.call? = some call)
    (known : call.target ∈ program.routines.keys) : program.Calls home call.target :=
  ⟨known, step, List.mem_filter.mpr ⟨site, calls_iff.mpr ⟨call, called, rfl⟩⟩⟩

theorem handover_mem_callSites {home : String} {check : FailureCheck}
    (among : (home, check.step settings) ∈ program.sites) (abort : Subflow.Abort) :
    (home, check.handover abort) ∈ program.callSites check.routine :=
  List.mem_filter.mpr ⟨mem_sites_of_mem_flatten among (check.handover_mem_flatten settings abort),
    check.calls_handover abort⟩

/-- The check of a subflow calls its routine twice, so that there are no further calls where there
are no more than two. -/
theorem calledByAborts_of_length_le {home : String} {check : FailureCheck}
    (among : (home, check.step settings) ∈ program.sites)
    (few : (program.callSites check.routine).length ≤ 2) :
    program.CalledByAborts settings home check := by
  have different := check.handover_ne
  refine ⟨_, check.handover_mem_abortSteps settings .failed, _,
    check.handover_mem_abortSteps settings .timedOut, ?_⟩
  have both : [(home, check.handover .failed), (home, check.handover .timedOut)].Subperm
      (program.callSites check.routine) :=
    List.subperm_of_subset (by simp [different]) (by simp [handover_mem_callSites among])
  exact (both.perm_of_length_le few).symm

theorem Calls.exists_call {caller target : String} (calls : program.Calls caller target) :
    ∃ routine, (caller, routine) ∈ program.routines.entries ∧
      ∃ call ∈ callsWithin routine.steps, call.target = target := by
  rcases calls with ⟨_, step, site⟩
  rcases List.mem_filter.mp site with ⟨member, called⟩
  rcases mem_sites.mp member with ⟨routine, entry, inside⟩
  exact ⟨routine, entry, mem_callsWithin_of_calls inside called⟩

/-- Where routines stand in front of their callers and nothing calls `main`, no routine calls
itself, directly or by others. -/
theorem acyclic_of_ordered (root : program.callSites mainName = [])
    (ordered : ∀ caller target, program.Calls caller target → caller = mainName ∨
      program.routines.keys.idxOf target < program.routines.keys.idxOf caller) (name : String) :
    ¬ Relation.TransGen program.Calls name name := by
  have called : ∀ caller target, program.Calls caller target → target ≠ mainName := by
    rintro caller target ⟨_, step, site⟩ equal
    rw [equal, root] at site
    cases site
  have earlier : ∀ caller target, Relation.TransGen program.Calls caller target →
      target ≠ mainName ∧ (caller = mainName ∨
        program.routines.keys.idxOf target < program.routines.keys.idxOf caller) := by
    intro caller target chain
    induction chain with
    | single calls => exact ⟨called _ _ calls, ordered _ _ calls⟩
    | tail _ calls induction =>
        have further := (ordered _ _ calls).resolve_left induction.1
        exact ⟨called _ _ calls, induction.2.imp_right fun less => Nat.lt_trans further less⟩
  intro cycle
  rcases earlier name name cycle with ⟨other, isMain | less⟩
  · exact other isMain
  · exact Nat.lt_irrefl _ less

end

end Program

/-! ## Programs of flows -/

namespace Compile

theorem emittedCalls_fixedSites (settings : Settings) (flow : Flow) (branch : Branch)
    {target : String} (generated : Primitive.isPrimitive target = false) :
    emittedCalls target (emitUnvisited (fixedSites settings flow branch)) =
      [setupName].count target := by
  have steps : emittedCalls target (emitUnvisited (fixedSites settings flow branch)) =
      ((emitUnvisited (fixedSites settings flow branch)).map Emission.step).countP
        (calls target) := by
    rw [emittedCalls, List.countP_map]
    rfl
  have targets : (((emitUnvisited (fixedSites settings flow branch)).map Emission.step).filterMap
      call?).map Call.target =
        [setupName, Primitive.httpPost, Primitive.getEnv, Primitive.log] := rfl
  rw [steps, countP_calls, targets]
  simp [List.count_cons, Primitive.ne_of_generated generated]

theorem callsBack_setup (settings : Settings) (flow : Flow) (branch : Branch) (scope : Scope)
    (walk : Walk Visit) :
    CallsBack [] ((setupName, setupRoutine settings flow (branchRegistry flow branch)) ::
      walk.routines settings scope) := by
  refine ⟨fun call called => .inl ?_, (walk.callsBack_routines settings scope).mono
    (List.nil_subset _)⟩
  rcases List.mem_pair.mp called with equal | equal <;> subst equal
  · exact Primitive.isPrimitive_getEnv
  · exact Primitive.isPrimitive_log

section

variable {settings : Settings} {flow : Flow} {branch : Branch} {scope : Scope}
  {walk : Walk Visit} {target : String} {program : Program} (proper : walk.Proper)
  (entries : program.routines.entries = allRoutines settings flow branch scope walk)

include entries

theorem keys_eq_cons : program.routines.keys =
    Program.mainName :: setupName :: walk.routineNames settings scope := by
  rw [Table.keys, entries]
  rfl

theorem emitted_subset_sites :
    (walk.emissions settings Program.mainName scope).map Emission.site ⊆ program.sites := by
  rw [Program.sites, entries]
  refine List.Subset.trans ?_ (sites_allRoutines_perm settings flow branch scope walk).symm.subset
  rw [List.map_append]
  exact List.subset_append_right _ _

include proper

theorem isIdentifier_of_mem_keys {name : String} (member : name ∈ program.routines.keys) :
    Text.IsIdentifier name := by
  rw [keys_eq_cons entries] at member
  rcases List.mem_cons.mp member with equal | member
  · exact equal ▸ by decide
  · rcases List.mem_cons.mp member with equal | member
    · exact equal ▸ by decide
    · rcases List.mem_map.mp member with ⟨entry, among, equal⟩
      exact equal ▸ Walk.isIdentifier_of_mem_routines proper among

theorem generated_of_mem_keys {name : String} (member : name ∈ program.routines.keys) :
    Primitive.isPrimitive name = false :=
  Primitive.isPrimitive_eq_false (isIdentifier_of_mem_keys proper entries member)

theorem length_callSites (generated : Primitive.isPrimitive target = false) :
    (program.callSites target).length = [setupName].count target +
      (walk.routineNames settings scope).count target + walk.failureRoutines.count target := by
  have permuted := sites_allRoutines_perm settings flow branch scope walk
  rw [Program.callSites, ← List.countP_eq_length_filter, Program.sites, entries,
    permuted.countP_eq, List.countP_map, Nat.add_assoc,
    ← Walk.emittedCalls_emissions settings generated Program.mainName scope walk proper.shaped,
    ← emittedCalls_fixedSites settings flow branch generated]
  exact emittedCalls_append target _ _

theorem exists_check_of_mem (failing : target ∈ walk.failureRoutines) :
    ∃ home, ∃ check : FailureCheck, check.routine = target ∧
      (home, check.step settings) ∈ program.sites :=
  (Walk.abortsInto_of_mem_failureRoutines settings Program.mainName scope walk proper.shaped
    failing).mono (emitted_subset_sites entries)

/-- A routine is called once and once more if a subflow aborts with it, but `main` is not called. -/
theorem length_callSites_of_mem {name : String} (member : name ∈ program.routines.keys) :
    (program.callSites name).length + [Program.mainName].count name =
        1 + walk.failureRoutines.count name ∧
      walk.failureRoutines.count name + [Program.mainName].count name ≤ 1 := by
  have generated := generated_of_mem_keys proper entries member
  have single := List.count_eq_one_of_mem program.routines.nodup_keys member
  have split : program.routines.keys = [Program.mainName] ++ ([setupName] ++
      walk.routineNames settings scope) := keys_eq_cons entries
  rw [split, List.count_append, List.count_append] at single
  have calls := length_callSites proper entries generated
  have failures := Walk.count_failureRoutines_le settings name scope walk
  omega

theorem ordered_of_entries (caller target : String) (calls : program.Calls caller target) :
    caller = Program.mainName ∨
      program.routines.keys.idxOf target < program.routines.keys.idxOf caller := by
  have keys := keys_eq_cons entries
  have distinct := program.routines.nodup_keys
  rcases calls.exists_call with ⟨routine, member, call, inside, rfl⟩
  by_cases isMain : caller = Program.mainName
  · exact .inl isMain
  right
  rw [keys] at distinct ⊢
  rw [List.idxOf_cons_ne _ (Ne.symm isMain)]
  by_cases toMain : Program.mainName = call.target
  · rw [← toMain, List.idxOf_cons_self]
    exact Nat.succ_pos _
  · rw [List.idxOf_cons_ne _ toMain]
    rw [entries] at member
    have among := (List.mem_cons.mp member).resolve_left fun equal =>
      isMain (congrArg Prod.fst equal)
    have back := (callsBack_setup settings flow branch scope walk).idxOf_lt
      (List.nodup_cons.mp distinct).2 among call inside
    rcases back with primitive | known | earlier
    · rw [generated_of_mem_keys proper entries calls.1] at primitive
      cases primitive
    · cases known
    · exact Nat.succ_lt_succ earlier

theorem isTree_of_entries : program.IsTree settings := by
  have ordered := ordered_of_entries proper entries
  have root : program.callSites Program.mainName = [] := by
    have member : Program.mainName ∈ program.routines.keys := by
      rw [keys_eq_cons entries]
      exact List.mem_cons_self
    have counts := length_callSites_of_mem proper entries member
    rw [List.count_singleton_self] at counts
    exact List.length_eq_zero_iff.mp (by omega)
  refine ⟨by rw [keys_eq_cons entries]; rfl, root, ?_, ?_, ordered,
    Program.acyclic_of_ordered root ordered⟩
  · intro name member other spared
    have counts := length_callSites_of_mem proper entries member
    have none : name ∉ walk.failureRoutines := fun failing => by
      rcases exists_check_of_mem proper entries failing with ⟨home, check, equal, among⟩
      exact spared home check among equal
    rw [List.count_eq_zero_of_not_mem (by simpa using other),
      List.count_eq_zero_of_not_mem none] at counts
    exact List.length_eq_one_iff.mp (by omega)
  · intro home check among member
    have counts := length_callSites_of_mem proper entries member
    exact Program.calledByAborts_of_length_le among (by omega)

end

theorem isTree_emptyProgram (settings : Settings) : emptyProgram.IsTree settings := by
  have root : ∀ name, emptyProgram.callSites name = [] := fun _ => rfl
  have none : ∀ caller target, ¬ emptyProgram.Calls caller target := by
    rintro caller target ⟨_, step, site⟩
    rw [root] at site
    cases site
  have ordered : ∀ caller target, emptyProgram.Calls caller target →
      caller = Program.mainName ∨
        emptyProgram.routines.keys.idxOf target < emptyProgram.routines.keys.idxOf caller :=
    fun caller target calls => absurd calls (none caller target)
  refine ⟨rfl, root _, ?_, ?_, ordered, Program.acyclic_of_ordered (root _) ordered⟩
  · intro name member other
    exact absurd (List.mem_singleton.mp member) other
  · intro home check among
    have handed := Program.handover_mem_callSites among .failed
    rw [root] at handed
    cases handed

end Compile

/-- The routines of a compiled program form a tree under `main`: each other routine is called by
one step of one routine, or by the two steps with which a subflow aborts, and routines stand in
front of their callers. -/
theorem compiled_routines_form_tree {settings : Settings} {lookup : BranchLookup} {flow : Flow}
    {program : Program} (compiled : compile settings lookup flow = .ok program) :
    program.IsTree settings := by
  rw [compile_eq_build] at compiled
  rcases Compile.exists_origin_of_build compiled with
    ⟨_, empty⟩ | ⟨origin, _, proper, entries⟩
  · exact empty ▸ Compile.isTree_emptyProgram settings
  · exact Compile.isTree_of_entries proper entries

theorem compiled_routines_form_tree_sample :
    ∃ program, compile .standard Compile.sampleLookup Compile.sampleFlow = .ok program ∧
      program.IsTree .standard := by
  rcases Compile.exists_sampleProgram with ⟨program, compiled⟩
  exact ⟨program, compiled, compiled_routines_form_tree compiled⟩

end FlowCompiler
