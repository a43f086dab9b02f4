import FlowCompiler.Proofs.Assembly

namespace FlowCompiler

/-! Where the steps of a program come from. Every step is emitted for one visit of the walk, apart
from a few at the beginning and the end of `main`, and it stands in the routine in which the walk is
at that visit. Nothing else is in the program, and nothing is lost. -/

open Lowering Step

/-! ## Steps with their routines -/

def sitesIn (home : String) (steps : List Step) : List (String × Step) :=
  (flattenSteps steps).map (Prod.mk home)

@[simp] theorem sitesIn_append (home : String) (left right : List Step) :
    sitesIn home (left ++ right) = sitesIn home left ++ sitesIn home right := by
  rw [sitesIn, flattenSteps_append, List.map_append, sitesIn, sitesIn]

theorem sitesIn_block (home name : String) (steps : List Step) :
    sitesIn home [.block name steps] = (home, .block name steps) :: sitesIn home steps := by
  simp only [sitesIn, flattenSteps, flatten, List.append_nil, List.map_cons]

def sitesOf (entries : List (String × Routine)) : List (String × Step) :=
  entries.flatMap fun entry => sitesIn entry.1 entry.2.steps

def Program.sites (program : Program) : List (String × Step) :=
  sitesOf program.routines.entries

@[simp] theorem sitesOf_nil : sitesOf [] = [] := rfl

@[simp] theorem sitesOf_cons (entry : String × Routine) (rest : List (String × Routine)) :
    sitesOf (entry :: rest) = sitesIn entry.1 entry.2.steps ++ sitesOf rest :=
  List.flatMap_cons

@[simp] theorem sitesOf_append (left right : List (String × Routine)) :
    sitesOf (left ++ right) = sitesOf left ++ sitesOf right :=
  List.flatMap_append

/-! ## Emissions -/

/-! A step of a program, with the name of the routine in which it stands and the visit for which it
was emitted. -/

structure Emission where
  home : String
  visit : Option Visit
  step : Step

def Emission.site (emission : Emission) : String × Step :=
  (emission.home, emission.step)

def emit (home : String) (visit : Visit) (steps : List Step) : List Emission :=
  (flattenSteps steps).map fun step => ⟨home, some visit, step⟩

theorem map_site_emit (home : String) (visit : Visit) (steps : List Step) :
    (emit home visit steps).map Emission.site = sitesIn home steps := by
  rw [emit, List.map_map]
  rfl

namespace Walk

mutual
/-- The steps of a walk and of its routines, in the order of the visits. The walk begins in the
routine `home`. What follows a visit in its block is emitted for the visits that come next. -/
def emissions (settings : Settings) (home : String) (scope : Scope) : Walk Visit → List Emission
  | .done => []
  | .terminal visit => [⟨home, some visit, .return visit.names.result scope.terminalValue⟩]
  | .action visit act next =>
      let own := act.steps settings visit.names scope.registry ++ act.binding visit.names
      let inner := scope.afterAction visit.names act
      ⟨home, some visit, .block visit.names.result (own ++ next.steps settings inner)⟩ ::
        (emit home visit own ++ emissions settings home inner next)
  | .fork visit choice exits =>
      let own := choice.steps settings visit.names scope.registry (exits.map Prod.fst)
      ⟨home, some visit, .block visit.names.result own⟩ ::
        (emit home visit own ++
          exitEmissions settings visit (scope.bindResult visit.names) exits)
  | .subflow visit called exits next =>
      let own := called.steps settings visit.names scope.registry (exits.map Prod.fst)
      let inner := scope.bindResult visit.names
      ⟨home, some visit, .block visit.names.result (own ++ next.steps settings inner)⟩ ::
        (emit home visit own ++
          (exitEmissions settings visit scope exits ++ emissions settings home inner next))
  | .loop visit start body next =>
      let own := start.steps settings visit.names scope.registry
      let bodyName := LoopStart.bodyRoutine visit.names
      ⟨home, some visit, .block visit.names.result (own ++ next.steps settings scope)⟩ ::
        (emit home visit own ++
          (emissions settings bodyName scope.enterLoop body ++
            ⟨bodyName, some visit, .return "finish" (.string LoopStart.continueValue)⟩ ::
              emissions settings home scope next))

def exitEmissions (settings : Settings) (visit : Visit) (scope : Scope) :
    List (Exit × Option (Walk Visit)) → List Emission
  | [] => []
  | (exit, none) :: rest =>
      ⟨visit.names.routine exit.slug, some visit, stubStep exit⟩ ::
        exitEmissions settings visit scope rest
  | (exit, some walk) :: rest =>
      emissions settings (visit.names.routine exit.slug) scope.enterRoutine walk ++
        ⟨visit.names.routine exit.slug, some visit, finishStep⟩ ::
          exitEmissions settings visit scope rest
end

/-! ## All steps are emitted once -/

mutual
/-- The steps of a walk and of its routines are exactly those that are emitted. -/
theorem sites_perm_emissions (settings : Settings) (home : String) :
    ∀ (scope : Scope) (walk : Walk Visit),
      (sitesIn home (walk.steps settings scope) ++ sitesOf (walk.routines settings scope)).Perm
        ((walk.emissions settings home scope).map Emission.site)
  | _, .done => .refl _
  | _, .terminal _ => .refl _
  | scope, .action visit act next => by
      have behind := sites_perm_emissions settings home
        (scope.afterAction visit.names act) next
      simp only [steps, routines, emissions, sitesIn_block, sitesIn_append, List.map_cons,
        List.map_append, map_site_emit, List.cons_append, List.append_assoc]
      exact ((behind.append_left _).append_left _).cons _
  | scope, .fork visit choice exits => by
      have behind := sites_perm_exitEmissions settings visit (scope.bindResult visit.names) exits
      simp only [steps, routines, emissions, sitesIn_block, List.map_cons, List.map_append,
        map_site_emit, List.cons_append]
      exact (behind.append_left _).cons _
  | scope, .subflow visit called exits next => by
      have exitsBehind := sites_perm_exitEmissions settings visit scope exits
      have nextBehind := sites_perm_emissions settings home (scope.bindResult visit.names) next
      simp only [steps, routines, emissions, sitesIn_block, sitesIn_append, sitesOf_append,
        List.map_cons, List.map_append, map_site_emit, List.cons_append, List.append_assoc]
      refine (List.Perm.append_left _ ?_).cons _
      exact (List.perm_append_comm_assoc _ _ _).trans (exitsBehind.append nextBehind)
  | scope, .loop visit start body next => by
      have inside := sites_perm_emissions settings (LoopStart.bodyRoutine visit.names)
        scope.enterLoop body
      have behind := sites_perm_emissions settings home scope next
      simp only [steps, routines, emissions, sitesIn_block, sitesIn_append, sitesOf_append,
        sitesOf_cons, sitesOf_nil, bodyRoutine, List.map_cons, List.map_append, map_site_emit,
        List.cons_append, List.append_assoc]
      refine (List.Perm.append_left _ ?_).cons _
      -- The next node stands in the block in front of the routines of the body.
      refine (List.perm_append_comm_assoc _ _ _).trans ?_
      refine (List.Perm.append_left _ (List.perm_append_comm_assoc _ _ _)).trans ?_
      rw [← List.append_assoc]
      refine (List.perm_append_comm.trans inside).append ?_
      exact List.perm_middle.trans (behind.cons _)

theorem sites_perm_exitEmissions (settings : Settings) (visit : Visit) :
    ∀ (scope : Scope) (exits : List (Exit × Option (Walk Visit))),
      (sitesOf (exitRoutines settings visit.names scope exits)).Perm
        ((exitEmissions settings visit scope exits).map Emission.site)
  | _, [] => .refl _
  | scope, (exit, none) :: rest =>
      (sites_perm_exitEmissions settings visit scope rest).cons _
  | scope, (exit, some walk) :: rest => by
      have first := sites_perm_emissions settings (visit.names.routine exit.slug)
        scope.enterRoutine walk
      have others := sites_perm_exitEmissions settings visit scope rest
      simp only [exitRoutines, exitEmissions, sitesOf_append, sitesOf_cons, exitRoutine,
        sitesIn_append, List.map_append, List.map_cons, List.append_assoc]
      rw [← List.append_assoc]
      exact (List.perm_append_comm.trans first).append (others.cons _)
end

/-! ## What is emitted for a visit -/

inductive InBlock (settings : Settings) (names : Names) : List Step → Prop
  | action (registry : Registry) (act : Action) (scope : Scope) (next : Walk Visit) :
      InBlock settings names
        (act.steps settings names registry ++ act.binding names ++ next.steps settings scope)
  | fork (registry : Registry) (choice : Fork) :
      InBlock settings names (choice.steps settings names registry choice.exits)
  | subflow (registry : Registry) (called : Subflow) (exits : List Exit) (scope : Scope)
      (next : Walk Visit) : InBlock settings names
        (called.steps settings names registry exits ++ next.steps settings scope)
  | loop (registry : Registry) (start : LoopStart) (scope : Scope) (next : Walk Visit) :
      InBlock settings names (start.steps settings names registry ++ next.steps settings scope)

inductive EmittedFor (settings : Settings) (names : Names) : Step → Prop
  | terminal (scope : Scope) : EmittedFor settings names (.return names.result scope.terminalValue)
  | block {steps : List Step} (inside : InBlock settings names steps) :
      EmittedFor settings names (.block names.result steps)
  | closing {walk : Walk Visit} {last : Step} (closing : Closing walk last) :
      EmittedFor settings names last
  | action {registry : Registry} {act : Action} {step : Step}
      (inside : step ∈ flattenSteps (act.steps settings names registry ++ act.binding names)) :
      EmittedFor settings names step
  | fork {registry : Registry} {choice : Fork} {exits : List Exit} {step : Step}
      (inside : step ∈ flattenSteps (choice.steps settings names registry exits)) :
      EmittedFor settings names step
  | subflow {registry : Registry} {called : Subflow} {exits : List Exit} {step : Step}
      (inside : step ∈ flattenSteps (called.steps settings names registry exits)) :
      EmittedFor settings names step
  | loop {registry : Registry} {start : LoopStart} {step : Step}
      (inside : step ∈ flattenSteps (start.steps settings names registry)) :
      EmittedFor settings names step

def EmittedAmong (settings : Settings) (visits : List Visit) (emission : Emission) : Prop :=
  ∃ visit ∈ visits, emission.visit = some visit ∧ EmittedFor settings visit.names emission.step

section

variable {settings : Settings} {visits : List Visit} {emission : Emission}

theorem EmittedAmong.mono {fewer : List Visit} (emitted : EmittedAmong settings fewer emission)
    (subset : fewer ⊆ visits) : EmittedAmong settings visits emission := by
  rcases emitted with ⟨visit, among, equal, step⟩
  exact ⟨visit, subset among, equal, step⟩

theorem emittedAmong_of_mem_emit {home : String} {visit : Visit} {steps : List Step}
    (among : visit ∈ visits)
    (own : ∀ step ∈ flattenSteps steps, EmittedFor settings visit.names step)
    (member : emission ∈ emit home visit steps) : EmittedAmong settings visits emission := by
  rcases List.mem_map.mp member with ⟨step, inside, rfl⟩
  exact ⟨visit, among, rfl, own step inside⟩

end

mutual
theorem emittedAmong_of_mem_emissions (settings : Settings) (home : String) :
    ∀ (scope : Scope) (walk : Walk Visit), walk.Shaped →
      ∀ emission ∈ walk.emissions settings home scope, EmittedAmong settings walk.visits emission
  | _, .done, _, _, member => by cases member
  | scope, .terminal visit, _, _, member => by
      rw [List.mem_singleton.mp member]
      exact ⟨visit, List.mem_cons_self, rfl, .terminal scope⟩
  | scope, .action visit act next, shaped, emission, member => by
      rcases List.mem_cons.mp member with equal | member
      · exact ⟨visit, List.mem_cons_self, equal ▸ rfl, equal ▸ .block (.action _ act _ next)⟩
      · rcases List.mem_append.mp member with member | member
        · exact emittedAmong_of_mem_emit List.mem_cons_self (fun _ inside => .action inside) member
        · exact (emittedAmong_of_mem_emissions settings home _ next shaped emission member).mono
            (List.subset_cons_self _ _)
  | scope, .fork visit choice exits, shaped, emission, member => by
      rcases List.mem_cons.mp member with equal | member
      · exact ⟨visit, List.mem_cons_self, equal ▸ rfl, equal ▸ .block (shaped.1 ▸ .fork _ choice)⟩
      · rcases List.mem_append.mp member with member | member
        · exact emittedAmong_of_mem_emit List.mem_cons_self (fun _ inside => .fork inside) member
        · exact emittedAmong_of_mem_exitEmissions settings visit _ exits shaped.2 emission member
  | scope, .subflow visit called exits next, shaped, emission, member => by
      rcases List.mem_cons.mp member with equal | member
      · exact ⟨visit, List.mem_cons_self, equal ▸ rfl, equal ▸ .block (.subflow _ called _ _ next)⟩
      · rcases List.mem_append.mp member with member | member
        · exact emittedAmong_of_mem_emit List.mem_cons_self (fun _ inside => .subflow inside) member
        · rcases List.mem_append.mp member with member | member
          · exact (emittedAmong_of_mem_exitEmissions settings visit scope exits shaped.2.1 emission
              member).mono
              (List.cons_subset_cons _ (List.subset_append_left _ _))
          · exact (emittedAmong_of_mem_emissions settings home _ next shaped.2.2 emission
              member).mono (List.subset_cons_of_subset _ (List.subset_append_right _ _))
  | scope, .loop visit start body next, shaped, emission, member => by
      rcases List.mem_cons.mp member with equal | member
      · exact ⟨visit, List.mem_cons_self, equal ▸ rfl, equal ▸ .block (.loop _ start _ next)⟩
      · rcases List.mem_append.mp member with member | member
        · exact emittedAmong_of_mem_emit List.mem_cons_self (fun _ inside => .loop inside) member
        · rcases List.mem_append.mp member with member | member
          · exact (emittedAmong_of_mem_emissions settings _ scope.enterLoop body shaped.1 emission
              member).mono (List.subset_cons_of_subset _ (List.subset_append_left _ _))
          · rcases List.mem_cons.mp member with equal | member
            · exact ⟨visit, List.mem_cons_self, equal ▸ rfl,
                equal ▸ .closing (@Closing.resume body)⟩
            · exact (emittedAmong_of_mem_emissions settings home scope next shaped.2 emission
                member).mono (List.subset_cons_of_subset _ (List.subset_append_right _ _))

theorem emittedAmong_of_mem_exitEmissions (settings : Settings) (visit : Visit) :
    ∀ (scope : Scope) (exits : List (Exit × Option (Walk Visit))), ShapedExits exits →
      ∀ emission ∈ exitEmissions settings visit scope exits,
        EmittedAmong settings (visit :: exitVisits exits) emission
  | _, [], _, _, member => by cases member
  | scope, (exit, none) :: rest, shaped, emission, member => by
      rcases List.mem_cons.mp member with equal | member
      · exact ⟨visit, List.mem_cons_self, equal ▸ rfl, equal ▸ .closing (.stub exit)⟩
      · exact emittedAmong_of_mem_exitEmissions settings visit scope rest shaped emission member
  | scope, (exit, some walk) :: rest, shaped, emission, member => by
      rcases List.mem_append.mp member with member | member
      · exact (emittedAmong_of_mem_emissions settings _ scope.enterRoutine walk shaped.1 emission
          member).mono
          (List.subset_cons_of_subset _ (List.subset_append_left _ _))
      · rcases List.mem_cons.mp member with equal | member
        · exact ⟨visit, List.mem_cons_self, equal ▸ rfl, equal ▸ .closing (@Closing.finish walk)⟩
        · exact (emittedAmong_of_mem_exitEmissions settings visit scope rest shaped.2 emission
            member).mono (List.cons_subset_cons _ (List.subset_append_right _ _))
end

end Walk

/-! ## Programs -/

namespace Compile

/-! What the program of a flow is made from: the branch, and the walk with the names of its visits,
which begins in `main` in the given scope. -/

structure Origin where
  branch : Branch
  scope : Scope
  walk : Walk Visit

/-- There is no origin where nothing is connected to the trigger, or where compiling fails. -/
def origin? (lookup : BranchLookup) (flow : Flow) : Option Origin := do
  let trigger ← flow.trigger?
  let first ← (Graph.ofFlow flow).next? trigger.id .nextStep
  let branch ← (lookup flow.branchId).toOption
  let walk ← ((Graph.ofFlow flow).unfold none (Graph.ofFlow flow).ids first).toOption
  let children := triggerChildren (Graph.ofFlow flow) trigger
  return ⟨branch, startScope flow branch children, namedWalk flow branch children walk⟩

def registrations (settings : Settings) (lookup : BranchLookup) (flow : Flow) :
    List (String × Routine) :=
  match origin? lookup flow with
  | none => emptyProgram.routines.entries
  | some origin => allRoutines settings flow origin.branch origin.scope origin.walk

def visits (lookup : BranchLookup) (flow : Flow) : List Visit :=
  match origin? lookup flow with
  | none => []
  | some origin => origin.walk.visits

def fixedSites (settings : Settings) (flow : Flow) (branch : Branch) : List (String × Step) :=
  sitesIn Program.mainName [setupStep (branchRegistry flow branch)] ++
    sitesIn Program.mainName [clearSession settings "clear_session", Walk.finishStep] ++
    sitesIn setupName (setupRoutine settings flow (branchRegistry flow branch)).steps

def emitUnvisited (sites : List (String × Step)) : List Emission :=
  sites.map fun site => ⟨site.1, none, site.2⟩

def emissions (settings : Settings) (lookup : BranchLookup) (flow : Flow) : List Emission :=
  match origin? lookup flow with
  | none => emitUnvisited emptyProgram.sites
  | some origin =>
      emitUnvisited (fixedSites settings flow origin.branch) ++
        origin.walk.emissions settings Program.mainName origin.scope

theorem map_site_emitUnvisited (sites : List (String × Step)) :
    (emitUnvisited sites).map Emission.site = sites := by
  rw [emitUnvisited, List.map_map]
  exact List.map_id sites

theorem sites_allRoutines_perm (settings : Settings) (flow : Flow) (branch : Branch)
    (scope : Scope) (walk : Walk Visit) :
    (sitesOf (allRoutines settings flow branch scope walk)).Perm
      ((emitUnvisited (fixedSites settings flow branch) ++
        walk.emissions settings Program.mainName scope).map Emission.site) := by
  have emitted := Walk.sites_perm_emissions settings Program.mainName scope walk
  rw [List.map_append, map_site_emitUnvisited, fixedSites, allRoutines, sitesOf_cons,
    sitesOf_cons, mainRoutine, sitesIn_append, sitesIn_append]
  refine List.Perm.trans ?_ (emitted.append_left _)
  simp only [List.append_assoc]
  -- The steps of the walk stand in front of the last steps of `main`.
  refine List.Perm.append_left _ ((List.perm_append_comm_assoc _ _ _).trans ?_)
  exact List.Perm.append_left _ (List.perm_append_comm_assoc _ _ _)

end Compile

section

variable {settings : Settings} {lookup : BranchLookup} {flow : Flow} {program : Program}

/-- A program is either empty, or put together from its origin. -/
theorem Compile.exists_origin_of_build (built : build settings lookup flow = .ok program) :
    origin? lookup flow = none ∧ program = emptyProgram ∨
      ∃ origin, origin? lookup flow = some origin ∧ origin.walk.Proper ∧
        program.routines.entries =
          allRoutines settings flow origin.branch origin.scope origin.walk := by
  cases started : flow.trigger? with
  | none =>
      rw [build, started] at built
      cases built
  | some trigger =>
      rw [build, started] at built
      cases connected : (Graph.ofFlow flow).next? trigger.id .nextStep with
      | none =>
          simp only [connected] at built
          exact .inl ⟨by simp [origin?, started, connected], (Except.ok.inj built).symm⟩
      | some first =>
          simp only [connected] at built
          rcases bind_eq_ok built with ⟨branch, found, built⟩
          rcases bind_eq_ok built with ⟨walk, unfolded, equal⟩
          have found := eq_ok_of_mapError found
          have unfolded := eq_ok_of_mapError unfolded
          let children := triggerChildren (Graph.ofFlow flow) trigger
          have assembled := assembled_of_unfolds settings branch connected
            (Graph.unfolds_of_unfold _ _ _ _ _ unfolded)
          refine .inr ⟨⟨branch, startScope flow branch children,
            namedWalk flow branch children walk⟩, ?_, assembled.proper, ?_⟩
          · simp [origin?, started, connected, found, unfolded, Except.toOption, children]
          · cases equal
            exact assembled.entries

theorem Compile.entries_eq_registrations (built : build settings lookup flow = .ok program) :
    program.routines.entries = registrations settings lookup flow := by
  rw [registrations]
  rcases exists_origin_of_build built with ⟨none, empty⟩ | ⟨origin, found, _, entries⟩
  · rw [none, empty]
  · rw [found, entries]

/-- The steps of a program are exactly those that are emitted for its flow. -/
theorem Compile.sites_perm_emissions (built : build settings lookup flow = .ok program) :
    program.sites.Perm ((emissions settings lookup flow).map Emission.site) := by
  rw [emissions]
  rcases exists_origin_of_build built with ⟨none, empty⟩ | ⟨origin, found, _, entries⟩
  · rw [none, empty, map_site_emitUnvisited]
  · rw [found, Program.sites, entries]
    exact sites_allRoutines_perm settings flow origin.branch origin.scope origin.walk

theorem Compile.exists_emission_of_mem_sites (built : build settings lookup flow = .ok program)
    {site : String × Step} (member : site ∈ program.sites) :
    ∃ emission ∈ emissions settings lookup flow, emission.site = site :=
  List.mem_map.mp ((sites_perm_emissions built).subset member)

end

end FlowCompiler
