import FlowCompiler.Proofs.LoopBodies
import FlowCompiler.Proofs.LoopSteps
import FlowCompiler.Proofs.Origins

namespace FlowCompiler

/-! The state of a loop does not leave the loop. What is emitted in a routine depends on whether
the routine is inside of a loop, and on nothing else that a loop could leave behind. -/

open Lowering Step

/-! ## Delays at which an unfolding arrives -/

namespace Graph

variable {graph : Graph} {bounds : Option LoopBounds} {unused : List String} {source : String}

theorem Behind.exists_unfolds {outlet : Outlet} {next : Node} {walk : Walk Node}
    (behind : Behind graph bounds unused source outlet walk)
    (connected : graph.next? source outlet = some next) : Unfolds graph bounds unused next walk := by
  cases behind with
  | connected found unfolds =>
      rw [found] at connected
      exact Option.some.inj connected ▸ unfolds
  | unconnected missing =>
      rw [missing] at connected
      cases connected

theorem BehindExits.exists_unfolds {exit : Exit} {next : Node} :
    ∀ {exits : List Exit} {walks : List (Exit × Option (Walk Node))},
      BehindExits graph bounds unused source exits walks → exit ∈ exits →
        graph.next? source exit.outlet = some next →
          ∃ inner, Unfolds graph bounds unused next inner ∧
            inner.visits ⊆ Walk.exitVisits walks
  | _ :: _, _, .connected found unfolds behind, member, leads => by
      rcases List.mem_cons.mp member with rfl | member
      · rw [found] at leads
        exact ⟨_, Option.some.inj leads ▸ unfolds, List.subset_append_left _ _⟩
      · rcases behind.exists_unfolds member leads with ⟨inner, unfolds, subset⟩
        exact ⟨inner, unfolds, List.subset_append_of_subset_right _ subset⟩
  | _ :: _, _, .unconnected missing behind, member, leads => by
      rcases List.mem_cons.mp member with rfl | member
      · rw [missing] at leads
        cases leads
      · exact behind.exists_unfolds member leads

theorem Unfolds.exists_of_loop {node : Node} {start : LoopStart} {chain : LoopChain}
    {walk : Walk Node} (role : node.kind.role = .loop start)
    (collected : graph.loopChain node = .ok chain) (unfolds : Unfolds graph none unused node walk) :
    ∃ body next, walk = .loop node start body next ∧
      Behind graph (some ⟨node.id, chain.finish.id⟩) (unused.erase node.id) node.id .nextStep
        body ∧
      Behind graph none (unused.erase node.id) chain.finish.id .nextStep next := by
  cases unfolds with
  | terminal _ _ other | action _ _ other _ _ | fork _ _ other _ | subflow _ _ other _ _ =>
      rw [role] at other
      cases other
  | loop _ other also entered rest =>
      rw [role] at other
      rw [collected] at also
      cases other
      cases also
      exact ⟨_, _, rfl, entered, rest⟩

/-- Where an unfolding goes on, it visits nothing but what the whole unfolding visits. -/
theorem Continues.exists_unfolds {stage next : Stage} {walk : Walk Node}
    (continues : graph.Continues stage next)
    (unfolds : Unfolds graph stage.bounds stage.unused stage.node walk) :
    ∃ inner, Unfolds graph next.bounds next.unused next.node inner ∧
      inner.visits ⊆ walk.visits := by
  cases continues with
  | follow passes outside leads =>
      cases unfolds with
      | ended finish => exact absurd finish (passes.inside _ rfl)
      | terminal _ _ role => exact absurd leads (not_leadsTo_of_terminal role)
      | passed _ _ role _ rest =>
          exact ⟨_, rest.exists_unfolds ((leadsTo_action_iff role).mp leads),
            List.Subset.refl _⟩
      | action _ _ role _ rest =>
          exact ⟨_, rest.exists_unfolds ((leadsTo_action_iff role).mp leads),
            List.subset_cons_self _ _⟩
      | fork _ _ role behind =>
          rcases (leadsTo_fork_iff role).mp leads with ⟨exit, among, connected⟩
          rcases behind.exists_unfolds among connected with ⟨inner, unfolds, subset⟩
          exact ⟨inner, unfolds, List.subset_cons_of_subset _ subset⟩
      | subflow _ _ role behind rest =>
          rcases (leadsTo_subflow_iff role).mp leads with ⟨exit, among, connected⟩ | connected
          · rcases behind.exists_unfolds among connected with ⟨inner, unfolds, subset⟩
            exact ⟨inner, unfolds,
              List.subset_cons_of_subset _ (List.subset_append_of_subset_left _ subset)⟩
          · exact ⟨_, rest.exists_unfolds connected,
              List.subset_cons_of_subset _ (List.subset_append_right _ _)⟩
      | loop _ role => exact absurd role (outside _)
  | enter _ role collected opened =>
      rcases unfolds.exists_of_loop role collected with ⟨body, next, rfl, entered, _⟩
      exact ⟨body, entered.exists_unfolds (next?_of_head? collected opened),
        List.subset_cons_of_subset _ (List.subset_append_left _ _)⟩
  | leave _ role collected connected =>
      rcases unfolds.exists_of_loop role collected with ⟨body, next, rfl, _, rest⟩
      exact ⟨next, rest.exists_unfolds connected,
        List.subset_cons_of_subset _ (List.subset_append_right _ _)⟩

theorem ComesTo.exists_unfolds {first : Node} {stage : Stage} {walk : Walk Node}
    (unfolds : Unfolds graph none graph.ids first walk) (comes : graph.ComesTo first stage) :
    ∃ inner, Unfolds graph stage.bounds stage.unused stage.node inner ∧
      inner.visits ⊆ walk.visits := by
  induction comes with
  | refl => exact ⟨walk, unfolds, List.Subset.refl _⟩
  | tail _ continues induction =>
      rcases induction with ⟨middle, unfolds, subset⟩
      rcases continues.exists_unfolds unfolds with ⟨inner, unfolds, fewer⟩
      exact ⟨inner, unfolds, List.Subset.trans fewer subset⟩

/-- A delay at which the unfolding arrives outside of loops is visited. -/
theorem ComesTo.delay_mem_visits {first : Node} {stage : Stage} {walk : Walk Node} {pause : Delay}
    (unfolds : Unfolds graph none graph.ids first walk) (comes : graph.ComesTo first stage)
    (outside : stage.bounds = none) (delay : stage.node.kind = .delay pause) :
    stage.node ∈ walk.visits := by
  rcases comes.exists_unfolds unfolds with ⟨inner, unfolds, subset⟩
  have role : stage.node.kind.role = .action (.delay pause) := by rw [delay, Kind.role]
  rw [outside] at unfolds
  cases unfolds with
  | terminal _ _ other | fork _ _ other _ | subflow _ _ other _ _ | loop _ other _ _ _ =>
      rw [role] at other
      cases other
  | action => exact subset List.mem_cons_self

end Graph

namespace Compile

variable {settings : Settings} {lookup : BranchLookup} {flow : Flow} {program : Program}
  {origin : Origin}

/-! ## Where steps come from -/

/-- At the beginning of the walk no variable of an iteration is known. -/
theorem marked_startScope {branch : Branch} {children : List Node}
    (known : ∀ child ∈ children, (Graph.ofFlow flow).Knows child) :
    (startScope flow branch children).Marked := by
  have unknown : ∀ name ∈ (startScope flow branch children).registry.names,
      name ∉ Registry.loopVariables := by
    refine reserveAll_preserves
      (fun registry => ∀ name ∈ registry.names, name ∉ Registry.loopVariables) children
      (NameSource.valid_start (Graph.ofFlow flow)) known ?_
      (show ∀ name ∈ [Registry.branchId, Registry.branchName, Registry.apiBase], _ by decide)
    intro registry number child _ unknown name member
    rcases Table.mem_keys_insert.mp member with equal | member
    · exact equal ▸ Names.Owns.result.not_mem_loopVariables (Names.proper_ofNode number child)
    · exact unknown name member
  intro name among
  exact iff_of_false (fun member => unknown name member among) (by simp [startScope])

theorem stands_origin (built : build settings lookup flow = .ok program)
    (found : origin? lookup flow = some origin) :
    origin.walk.Stands settings program Program.mainName origin.scope := by
  rcases exists_unfolded_of_origin found with
    ⟨trigger, first, walk, _, connected, unfolds, scope, named⟩
  have assembled := assembled_of_unfolds settings origin.branch connected unfolds
  rcases proper_and_entries_of_origin built found with ⟨proper, entries⟩
  have registered : ∀ entry ∈ allRoutines settings flow origin.branch origin.scope origin.walk,
      entry ∈ program.routines.entries := fun entry member => entries ▸ member
  have hosted : program.Hosts Program.mainName origin.scope := by
    refine Program.hosts_outside (registered _ List.mem_cons_self)
      (show ∀ name ∈ [Registry.state], _ by decide) (outside_origin found)
  refine ⟨proper, inRoles_origin found, ?_, ?_, ?_, emitted_subset_sites entries, hosted⟩
  · rw [scope]
    exact marked_startScope assembled.known
  · rw [scope]
    exact assembled.clear
  · exact fun entry member =>
      registered entry (List.mem_cons_of_mem _ (List.mem_cons_of_mem _ member))

/-! ## Routines inside of loops -/

/-- The fixed steps host no iteration and do not wait. They call primitives and, in `main`, the
preparing routine, and pass no variable of an iteration on. -/
theorem calls_of_fixed {branch : Branch} {emission : Emission}
    (member : emission ∈ emitUnvisited (fixedSites settings flow branch)) :
    emission.step.isLoop = false ∧ emission.step.calls Primitive.sleep = false ∧
      ∀ call ∈ emission.step.call?, call.Quiet ∧ (Primitive.isPrimitive call.target ∨
        emission.home = Program.mainName ∧ call.target = setupName) := by
  simp only [emitUnvisited, fixedSites, sitesIn, setupRoutine, flattenSteps, flatten, setupStep,
    clearSession, post, Walk.finishStep, List.append_nil, List.cons_append, List.nil_append,
    List.map_cons, List.map_nil, List.mem_cons, List.not_mem_nil, or_false] at member
  rcases member with rfl | rfl | rfl | rfl | rfl | rfl
  · refine ⟨rfl, rfl, ?_⟩
    rintro call ⟨⟩
    exact ⟨Call.quiet_of_args setupName [Registry.state, Registry.branchId, Registry.branchName] rfl
      (List.Subset.refl _) (by decide) (by decide), .inr ⟨rfl, rfl⟩⟩
  · refine ⟨rfl, rfl, ?_⟩
    rintro call ⟨⟩
    exact ⟨Call.quiet_ofPost_of_nil rfl, .inl Primitive.isPrimitive_httpPost⟩
  · exact ⟨rfl, rfl, by rintro call ⟨⟩⟩
  · refine ⟨rfl, rfl, ?_⟩
    rintro call ⟨⟩
    exact ⟨Call.quiet_of_args Primitive.getEnv ["name"] rfl (List.Subset.refl _) (by decide)
      (by decide), .inl Primitive.isPrimitive_getEnv⟩
  · refine ⟨rfl, rfl, ?_⟩
    rintro call ⟨⟩
    exact ⟨Call.quiet_of_args Primitive.log ["text", "severity"] rfl (List.Subset.refl _)
      (by decide) (by decide), .inl Primitive.isPrimitive_log⟩
  · exact ⟨rfl, rfl, by rintro call ⟨⟩⟩

section

variable (built : build settings lookup flow = .ok program)
  (found : origin? lookup flow = some origin)

include built found

theorem generated_of_known {name : String} (known : name ∈ program.routines.keys) :
    Primitive.isPrimitive name = false := by
  rcases proper_and_entries_of_origin built found with ⟨proper, entries⟩
  exact generated_of_mem_keys proper entries known

/-- What is emitted is a fixed step, or it is emitted for a visit in a routine of the program. -/
theorem fixed_or_exists_stands {emission : Emission}
    (member : emission ∈ emissions settings lookup flow) :
    emission ∈ emitUnvisited (fixedSites settings flow origin.branch) ∨
      ∃ home scope part, Walk.Stands settings program home scope part ∧
        Walk.EmittedAt settings home scope part emission := by
  have stands := stands_origin built found
  rw [emissions, found] at member
  rcases List.mem_append.mp member with fixed | member
  · exact .inl fixed
  · rcases Walk.emittedBehind_of_mem_emissions settings origin.walk stands.roles member with
      ⟨legs, part, trail, emitted⟩
    exact .inr ⟨_, _, part, stands.trail trail, emitted⟩

/-- Every routine inside of a loop hosts scopes inside of loops. -/
theorem exists_hosts_of_inLoop {name : String} (inside : program.InLoop name) :
    ∃ scope, program.Hosts name scope ∧ scope.insideLoop := by
  rcases inside with ⟨body, ⟨home, label, head, steps, site, call, within, target⟩, reached⟩
  induction reached with
  | refl =>
      rcases exists_emission_of_mem_sites built site with ⟨emission, member, equal⟩
      rcases fixed_or_exists_stands built found member with fixed | ⟨_, scope, part, stands, emitted⟩
      · have plain := (calls_of_fixed fixed).1
        rw [show emission.step = _ from congrArg Prod.snd equal] at plain
        cases plain
      · cases emitted with
        | block => cases equal
        | closing _ closing => cases closing <;> cases equal
        | own first inside =>
            cases equal
            rcases Walk.eq_of_isLoop inside rfl with ⟨visit, start, walk, next, rfl, same⟩
            cases same
            rw [LoopStart.callsWithin_iteration, List.mem_singleton] at within
            subst within
            cases target
            exact ⟨_, stands.hosts_door (Walk.body_mem_doors visit start walk next), rfl⟩
  | @tail caller name _ calls induction =>
      rcases induction with ⟨scope, hosts, inside⟩
      rcases calls with ⟨known, step, callSite⟩
      rcases List.mem_filter.mp callSite with ⟨among, called⟩
      rcases calls_iff.mp called with ⟨call, isCall, rfl⟩
      have generated := generated_of_known built found known
      rcases exists_emission_of_mem_sites built among with ⟨emission, member, equal⟩
      rcases fixed_or_exists_stands built found member with
        fixed | ⟨_, inner, part, stands, emitted⟩
      · cases equal
        rcases ((calls_of_fixed fixed).2.2 call isCall).2 with primitive | ⟨main, _⟩
        · rw [primitive] at generated
          cases generated
        · rw [main] at hosts
          have outside := (stands_origin built found).hosted.insideLoop_iff hosts
          rw [outside_origin found] at outside
          exact absurd (outside.mpr inside) Bool.false_ne_true
      · cases emitted with
        | block =>
            cases equal
            cases isCall
        | closing _ closing => cases closing <;> cases equal <;> cases isCall
        | own first within =>
            cases equal
            have innerInside := (stands.hosted.insideLoop_iff hosts).mpr inside
            rcases Walk.primitive_or_dispatch stands.clear stands.marked
              (List.mem_filterMap.mpr ⟨_, within, isCall⟩) with ⟨primitive, _⟩ | dispatch
            · rw [primitive] at generated
              cases generated
            · rcases Walk.exists_door_of_dispatch _ dispatch with ⟨leg, door, room⟩
              exact ⟨_, room ▸ stands.hosts_door door, inner.insideLoop_after innerInside leg⟩

theorem inLoop_iff {home : String} {scope : Scope} (hosts : program.Hosts home scope) :
    program.InLoop home ↔ scope.insideLoop := by
  refine ⟨fun inside => ?_, hosts.reached⟩
  rcases exists_hosts_of_inLoop built found inside with ⟨other, also, inLoop⟩
  exact (hosts.insideLoop_iff also).mpr inLoop

theorem hosts_setup : program.Hosts setupName origin.scope := by
  have entry : (setupName, setupRoutine settings flow (branchRegistry flow origin.branch)) ∈
      program.routines.entries := by
    rw [(proper_and_entries_of_origin built found).2]
    exact List.mem_cons_of_mem _ List.mem_cons_self
  exact Program.hosts_outside entry
    (show ∀ name ∈ [Registry.state, Registry.branchId, Registry.branchName], _ by decide)
    (outside_origin found)

theorem exists_hosts_of_entry {entry : String × Routine}
    (member : entry ∈ program.routines.entries) : ∃ scope, program.Hosts entry.1 scope := by
  have stands := stands_origin built found
  rw [(proper_and_entries_of_origin built found).2] at member
  rcases List.mem_cons.mp member with equal | member
  · exact ⟨origin.scope, equal ▸ stands.hosted⟩
  rcases List.mem_cons.mp member with equal | member
  · exact ⟨origin.scope, equal ▸ hosts_setup built found⟩
  · rcases Walk.exists_place_of_mem_routines origin.walk member with ⟨inner, part, place, own⟩
    rcases place.exists_trail stands.roles with ⟨legs, trail, rfl⟩
    rcases Walk.exists_door_of_ownRoutine (roomBehind Program.mainName legs) own with
      ⟨leg, door, room, _⟩
    exact ⟨_, room ▸ (stands.trail trail).hosts_door door⟩

/-! ## What is emitted inside and outside of loops -/

theorem waits_of_sleep {emission : Emission} (member : emission ∈ emissions settings lookup flow)
    (sleeps : emission.step.calls Primitive.sleep) : ∃ visit, emission.visit = some visit ∧
      (visit.isDelay ∧ ¬ program.InLoop emission.home ∨
        visit.isSubflow ∧ emission.step.name = visit.names.step "wait") := by
  rcases fixed_or_exists_stands built found member with fixed | ⟨home, scope, part, stands, emitted⟩
  · rw [(calls_of_fixed fixed).2.1] at sleeps
    cases sleeps
  · cases emitted with
    | block => cases sleeps
    | closing _ closing => cases closing <;> cases sleeps
    | @own visit _ first inside =>
        refine ⟨visit, rfl, ?_⟩
        rcases Walk.waits_of_calls_sleep stands.proper stands.roles first inside sleeps with
          ⟨delay, outside⟩ | polls
        · refine .inl ⟨delay, fun inLoop => ?_⟩
          rw [inLoop_iff built found stands.hosted, outside] at inLoop
          cases inLoop
        · exact .inr polls

theorem ends_of_isTerminal {emission : Emission} {visit : Visit}
    (member : emission ∈ emissions settings lookup flow) (own : emission.visit = some visit)
    (ends : visit.isTerminal) : ∃ scope, program.Hosts emission.home scope ∧
      emission.step = .return visit.names.result scope.terminalValue := by
  rcases fixed_or_exists_stands built found member with fixed | ⟨home, scope, part, stands, emitted⟩
  · rcases List.mem_map.mp fixed with ⟨site, _, rfl⟩
    cases own
  · refine ⟨scope, ?_⟩
    cases emitted with
    | block first continues =>
        cases own
        exact absurd (Walk.eq_terminal stands.roles first ends) continues
    | closing door _ =>
        cases own
        rw [Walk.eq_terminal stands.roles (Walk.first?_of_mem_doors door) ends] at door
        cases door
    | own first inside =>
        cases own
        rw [Walk.eq_terminal stands.roles first ends] at inside
        exact ⟨stands.hosted, List.mem_singleton.mp inside⟩

/-- A step of the program is a fixed one, the block of a visit, the end of a routine, or one of the
own steps of a visit. -/
theorem cases_of_site {site : String × Step} (among : site ∈ program.sites) :
    (∃ emission ∈ emitUnvisited (fixedSites settings flow origin.branch),
      emission.site = site) ∨
    (∃ name steps, site.2 = .block name steps) ∨ (∃ walk, Walk.Closing walk site.2) ∨
    ∃ scope part visit, Walk.Stands settings program site.1 scope part ∧
      part.first? = some visit ∧ site.2 ∈ flattenSteps (part.ownSteps settings scope) := by
  rcases exists_emission_of_mem_sites built among with ⟨emission, member, equal⟩
  rcases fixed_or_exists_stands built found member with fixed | ⟨_, scope, part, stands, emitted⟩
  · exact .inl ⟨emission, fixed, equal⟩
  · cases emitted with
    | block =>
        subst equal
        exact .inr (.inl ⟨_, _, rfl⟩)
    | closing _ closing =>
        subst equal
        exact .inr (.inr (.inl ⟨_, closing⟩))
    | own first inside =>
        subst equal
        exact .inr (.inr (.inr ⟨scope, part, _, stands, first, inside⟩))

/-- A host stands outside of loops. -/
theorem outside_of_host {home : String} {step : Step} (among : (home, step) ∈ program.sites)
    (isLoop : step.isLoop) : ¬ program.InLoop home := by
  rcases cases_of_site built found among with
    ⟨emission, fixed, equal⟩ | ⟨_, _, block⟩ | ⟨_, closing⟩ | ⟨scope, part, _, stands, _, inside⟩
  · have plain := (calls_of_fixed fixed).1
    rw [show emission.step = step from congrArg Prod.snd equal, isLoop] at plain
    cases plain
  · cases block
    cases isLoop
  · cases closing <;> cases isLoop
  · rcases Walk.eq_of_isLoop inside isLoop with ⟨visit, start, body, next, rfl, _⟩
    rw [inLoop_iff built found stands.hosted, stands.roles.2.1]
    exact Bool.false_ne_true

theorem bound_by_host {home : String} {step : Step} (among : (home, step) ∈ program.sites)
    {name : String} (isVariable : name ∈ Registry.loopVariables) (isSet : name ∈ step.sets) :
    step.isLoop := by
  rcases cases_of_site built found among with
    ⟨emission, fixed, equal⟩ | ⟨_, _, block⟩ | ⟨_, closing⟩ | ⟨scope, part, _, stands, _, inside⟩
  · cases equal
    have other : Registry.apiBase ∉ Registry.loopVariables := by decide
    exact absurd (eq_apiBase_of_fixed fixed isSet ▸ isVariable) other
  · cases block
    cases isSet
  · cases closing <;> cases isSet
  · rcases Walk.eq_loop_of_sets stands.proper inside isSet isVariable with
      ⟨_, _, _, _, _, host⟩
    rw [show step = _ from host]
    rfl

/-- Outside of loops only the call of a loop body passes variables of an iteration on. -/
theorem forwarded_by_host {home : String} {step : Step} (among : (home, step) ∈ program.sites)
    (outside : ¬ program.InLoop home) {call : Call} (called : step.call? = some call)
    {name : String} (isVariable : name ∈ Registry.loopVariables)
    (forwarded : name ∈ call.forwards) :
    program.IsLoopBody call.target ∧ ∃ label head steps,
      (home, .loop label head steps) ∈ program.sites ∧ step ∈ steps := by
  rcases cases_of_site built found among with
    ⟨emission, fixed, equal⟩ | ⟨_, _, block⟩ | ⟨_, closing⟩ | ⟨scope, part, _, stands, _, inside⟩
  · cases equal
    exact absurd isVariable (((calls_of_fixed fixed).2.2 call called).1 name forwarded)
  · cases block
    cases called
  · cases closing <;> cases called
  · rw [inLoop_iff built found stands.hosted, Bool.not_eq_true] at outside
    rcases Walk.eq_bodyCall_of_forwards stands.proper stands.clear stands.marked outside inside
      called forwarded isVariable with ⟨visit, start, body, next, rfl, rfl⟩
    cases called
    exact ⟨stands.isLoopBody, _, _, _, stands.host_site,
      start.bodyCall_mem_iteration visit.names scope.registry⟩

/-- A routine inside of a loop is called from inside of the loop, or by a host. -/
theorem inLoop_or_host {home : String} {step : Step} (among : (home, step) ∈ program.sites)
    {call : Call} (called : step.call? = some call)
    (known : call.target ∈ program.routines.keys) (inLoop : program.InLoop call.target) :
    program.InLoop home ∨ ∃ label head steps,
      (home, .loop label head steps) ∈ program.sites ∧ step ∈ steps := by
  have generated := generated_of_known built found known
  rcases cases_of_site built found among with
    ⟨emission, fixed, equal⟩ | ⟨_, _, block⟩ | ⟨_, closing⟩ | ⟨scope, part, _, stands, _, inside⟩
  · cases equal
    rcases ((calls_of_fixed fixed).2.2 call called).2 with primitive | ⟨_, setup⟩
    · rw [primitive] at generated
      cases generated
    · rw [setup, inLoop_iff built found (hosts_setup built found), outside_origin found] at inLoop
      cases inLoop
  · cases block
    cases called
  · cases closing <;> cases called
  · rcases Walk.primitive_or_dispatch stands.clear stands.marked
      (List.mem_filterMap.mpr ⟨step, inside, called⟩) with ⟨primitive, _⟩ | dispatch
    · rw [primitive] at generated
      cases generated
    · refine or_iff_not_imp_left.mpr fun outside => ?_
      rcases Walk.exists_fitting_of_dispatch settings stands.proper stands.clear dispatch with
        ⟨routine, own, fits⟩
      have entry := stands.routines (Walk.ownRoutines_subset _ _ _ own)
      rcases exists_hosts_of_entry built found entry with ⟨inner, hosts⟩
      have isVariable : Registry.loopItem ∈ Registry.loopVariables := List.mem_cons_self
      have param := (hosts.mem_params entry _ isVariable).mpr
        ((inLoop_iff built found hosts).mp inLoop)
      exact (forwarded_by_host built found among outside called isVariable
        (List.mem_append_left _ (fits.arguments ▸ param))).2

end

/-! ## Confinement -/

structure Confined (settings : Settings) (lookup : BranchLookup) (flow : Flow)
    (program : Program) : Prop where
  /-- The steps of the program are those that are emitted, each in its routine. -/
  emitted : program.sites.Perm ((emissions settings lookup flow).map Emission.site)
  /-- The variables of an iteration are parameters of exactly the routines inside of loops. -/
  params : ∀ entry ∈ program.routines.entries, ∀ name ∈ Registry.loopVariables,
    name ∈ entry.2.params ↔ program.InLoop entry.1
  /-- Inside of loops nothing waits but subflows, in front of the next request for their state. -/
  waits : ∀ emission ∈ emissions settings lookup flow, program.InLoop emission.home →
    emission.step.calls Primitive.sleep → ∃ visit, emission.visit = some visit ∧
      visit.isSubflow ∧ emission.step.name = visit.names.step "wait"
  /-- For each visit of a delay exactly one wait is emitted, -/
  delays : delaySleeps (emissions settings lookup flow) =
    ((visits lookup flow).filter Visit.isDelay).map some
  /-- always outside of loops, -/
  delaysOutside : ∀ emission ∈ emissions settings lookup flow, emission.isDelaySleep →
    ¬ program.InLoop emission.home
  /-- and every delay at which the flow arrives outside of loops is visited. -/
  delaysVisited : ∀ trigger first stage pause, flow.trigger? = some trigger →
    (Graph.ofFlow flow).next? trigger.id .nextStep = some first →
    (Graph.ofFlow flow).ComesTo first stage → stage.bounds = none →
    stage.node.kind = .delay pause → ∃ visit ∈ visits lookup flow, visit.node = stage.node
  /-- Inside of loops, triggers, end markers and unsupported nodes go on with the next iteration; -/
  endsInside : ∀ emission ∈ emissions settings lookup flow, ∀ visit ∈ emission.visit,
    visit.isTerminal → program.InLoop emission.home →
      emission.step = .return visit.names.result (.string "loop_continue")
  /-- outside of loops they end the run. -/
  endsOutside : ∀ emission ∈ emissions settings lookup flow, ∀ visit ∈ emission.visit,
    visit.isTerminal → ¬ program.InLoop emission.home →
      emission.step = .return visit.names.result (.string "No reachable action")
  /-- The variables of an iteration are bound by its host alone, which stands outside of loops. -/
  bound : ∀ site ∈ program.sites, ∀ name ∈ Registry.loopVariables, name ∈ site.2.sets →
    site.2.isLoop ∧ ¬ program.InLoop site.1
  /-- Outside of loops they are passed on only by the call of a loop body in a host. -/
  forwarded : ∀ site ∈ program.sites, ¬ program.InLoop site.1 → ∀ call ∈ site.2.call?,
    ∀ name ∈ Registry.loopVariables, name ∈ call.forwards →
      program.IsLoopBody call.target ∧ ∃ label head steps,
        (site.1, .loop label head steps) ∈ program.sites ∧ site.2 ∈ steps
  /-- A routine that is called from outside of loops is inside of a loop only where a host calls
  it. -/
  entered : ∀ site ∈ program.sites, ∀ call ∈ site.2.call?, call.target ∈ program.routines.keys →
    (program.InLoop call.target ↔ program.InLoop site.1 ∨ ∃ label head steps,
      (site.1, .loop label head steps) ∈ program.sites ∧ site.2 ∈ steps)
  /-- What follows a host in its block, which is what stands behind the end marker, is outside of
  loops again: it stands in the same routine. -/
  behind : ∀ home name front label head body rest,
    (home, .block name (front ++ .loop label head body :: rest)) ∈ program.sites →
      ¬ program.InLoop home ∧ ∀ step ∈ flattenSteps rest, (home, step) ∈ program.sites

section

variable (built : build settings lookup flow = .ok program)

include built

theorem confined_of_origin (found : origin? lookup flow = some origin) :
    Confined settings lookup flow program := by
  have walked : emissions settings lookup flow =
      emitUnvisited (fixedSites settings flow origin.branch) ++
        origin.walk.emissions settings Program.mainName origin.scope := by
    rw [emissions, found]
  have visited : visits lookup flow = origin.walk.visits := by
    rw [visits, found]
  have terminals : ∀ {scope : Scope} {home : String}, program.Hosts home scope →
      (program.InLoop home → scope.terminalValue = .string "loop_continue") ∧
        (¬ program.InLoop home → scope.terminalValue = .string "No reachable action") := by
    intro scope home hosts
    rw [inLoop_iff built found hosts, Scope.terminalValue]
    cases scope.insideLoop <;> simp [LoopStart.continueValue]
  constructor
  case emitted => exact sites_perm_emissions built
  case params =>
    intro entry member name isVariable
    rcases exists_hosts_of_entry built found member with ⟨scope, hosts⟩
    exact (hosts.mem_params member name isVariable).trans (inLoop_iff built found hosts).symm
  case waits =>
    intro emission member inLoop sleeps
    rcases waits_of_sleep built found member sleeps with ⟨visit, own, ⟨_, outside⟩ | polls⟩
    · exact absurd inLoop outside
    · exact ⟨visit, own, polls⟩
  case delays =>
    have unvisited : ∀ sites, delaySleeps (emitUnvisited sites) = [] := by
      intro sites
      refine List.map_eq_nil_iff.mpr (List.filter_eq_nil_iff.mpr fun emission member => ?_)
      rcases List.mem_map.mp member with ⟨site, _, rfl⟩
      exact Bool.false_ne_true
    rw [walked, visited, delaySleeps_append, unvisited, List.nil_append]
    exact Walk.delaySleeps_emissions settings origin.walk (stands_origin built found).roles
  case delaysOutside =>
    intro emission member delaySleep inLoop
    rw [Emission.isDelaySleep, Bool.and_eq_true] at delaySleep
    rcases waits_of_sleep built found member delaySleep.2 with
      ⟨visit, own, ⟨_, outside⟩ | ⟨isSubflow, _⟩⟩
    · exact outside inLoop
    · have delay : visit.isDelay := by simpa [own] using delaySleep.1
      rw [Visit.isSubflow_eq_false delay] at isSubflow
      cases isSubflow
  case delaysVisited =>
    intro trigger first stage pause started connected comes outside delay
    rcases exists_unfolded_of_origin found with
      ⟨other, entry, walk, otherStarted, otherConnected, unfolds, _, named⟩
    rw [started] at otherStarted
    cases otherStarted
    rw [connected] at otherConnected
    cases otherConnected
    have among := Graph.ComesTo.delay_mem_visits unfolds comes outside delay
    rw [← Walk.map_node_visits_name walk
      (reservation flow origin.branch (triggerChildren (Graph.ofFlow flow) trigger)).1] at among
    rw [visited, named]
    exact List.mem_map.mp among
  case endsInside =>
    intro emission member visit own ends inLoop
    rcases ends_of_isTerminal built found member own ends with ⟨scope, hosts, step⟩
    rw [step, (terminals hosts).1 inLoop]
  case endsOutside =>
    intro emission member visit own ends outside
    rcases ends_of_isTerminal built found member own ends with ⟨scope, hosts, step⟩
    rw [step, (terminals hosts).2 outside]
  case bound =>
    intro site member name isVariable isSet
    have isLoop := bound_by_host built found member isVariable isSet
    exact ⟨isLoop, outside_of_host built found member isLoop⟩
  case forwarded =>
    intro site member outside call called name isVariable forwarded
    exact forwarded_by_host built found member outside called isVariable forwarded
  case entered =>
    intro site member call called known
    refine ⟨inLoop_or_host built found member called known, ?_⟩
    rintro (inLoop | ⟨label, head, steps, host, inside⟩)
    · exact inLoop.calls (Program.calls_of_site member called known)
    · exact Program.IsLoopBody.inLoop ⟨site.1, label, head, steps, host, call,
        List.mem_filterMap.mpr ⟨site.2, subset_flattenSteps _ inside, called⟩, rfl⟩
  case behind =>
    intro home name front label head body rest member
    have nested : ∀ step ∈ flattenSteps (front ++ .loop label head body :: rest),
        (home, step) ∈ program.sites := fun step inside =>
      Program.mem_sites_of_mem_flatten member (List.mem_cons_of_mem _ inside)
    refine ⟨outside_of_host built found (nested (.loop label head body) ?_) rfl,
      fun step inside => nested step ?_⟩
    · exact subset_flattenSteps _ (List.mem_append_right _ List.mem_cons_self)
    · rw [flattenSteps_append]
      exact List.mem_append_right _ (List.mem_append_right _ inside)

/-- Only a program of a flow that leads nowhere has no origin. -/
theorem unconnected_of_origin (none : origin? lookup flow = none) {trigger : Node}
    (started : flow.trigger? = some trigger) :
    (Graph.ofFlow flow).next? trigger.id .nextStep = .none := by
  cases connected : (Graph.ofFlow flow).next? trigger.id .nextStep with
  | none => rfl
  | some first =>
      rw [build, started] at built
      simp only [connected] at built
      rcases bind_eq_ok built with ⟨branch, found, built⟩
      rcases bind_eq_ok built with ⟨walk, unfolded, _⟩
      rw [origin?, started] at none
      simp [connected, eq_ok_of_mapError found, eq_ok_of_mapError unfolded, Except.toOption] at none

theorem confined_of_build : Confined settings lookup flow program := by
  rcases exists_origin_of_build built with ⟨none, rfl⟩ | ⟨origin, found, _⟩
  · have emissions_eq : emissions settings lookup flow = emitUnvisited emptyProgram.sites := by
      rw [emissions, none]
    have unlooped : ∀ name, ¬ emptyProgram.InLoop name := by
      rintro name ⟨body, ⟨home, label, head, steps, site, _⟩, _⟩
      cases List.mem_singleton.mp site
    have unvisited : ∀ emission ∈ emissions settings lookup flow, ∀ visit,
        emission.visit ≠ some visit := by
      intro emission member visit own
      rw [emissions_eq] at member
      rcases List.mem_map.mp member with ⟨site, _, rfl⟩
      cases own
    constructor
    case emitted => exact sites_perm_emissions built
    case params =>
      intro entry member name isVariable
      refine iff_of_false (fun param => ?_) (unlooped entry.1)
      rw [List.mem_singleton.mp member] at param
      exact Registry.ne_state_of_mem_loopVariables name isVariable (List.mem_singleton.mp param)
    case waits => exact fun emission _ inLoop => absurd inLoop (unlooped _)
    case delays =>
      rw [emissions_eq, visits, none]
      rfl
    case delaysOutside => exact fun emission _ _ => unlooped _
    case delaysVisited =>
      intro trigger first stage pause started connected
      rw [unconnected_of_origin built none started] at connected
      cases connected
    case endsInside => exact fun emission _ _ _ _ inLoop => absurd inLoop (unlooped _)
    case endsOutside => exact fun emission member visit own => absurd own (unvisited _ member _)
    case bound =>
      intro site member name isVariable isSet
      rw [List.mem_singleton.mp member] at isSet
      cases isSet
    case forwarded =>
      intro site member _ call called
      rw [List.mem_singleton.mp member] at called
      cases called
    case entered =>
      intro site member call called
      rw [List.mem_singleton.mp member] at called
      cases called
    case behind =>
      intro home name front label head body rest member
      cases List.mem_singleton.mp member
  · exact confined_of_origin built found

end

end Compile

/-- The state of a loop is confined to the loop: in a compiled program the variables of an
iteration, the passing over of delays and the return to the iteration are exactly for the routines
inside of loops. -/
theorem compiled_loops_confined {settings : Settings} {lookup : BranchLookup} {flow : Flow}
    {program : Program} (compiled : compile settings lookup flow = .ok program) :
    Compile.Confined settings lookup flow program := by
  rw [compile_eq_build] at compiled
  exact Compile.confined_of_build compiled

theorem compiled_loops_confined_sample :
    ∃ program, compile .standard Compile.sampleLookup Compile.sampleFlow = .ok program ∧
      Compile.Confined .standard Compile.sampleLookup Compile.sampleFlow program := by
  rcases Compile.exists_sampleProgram with ⟨program, compiled⟩
  exact ⟨program, compiled, compiled_loops_confined compiled⟩

end FlowCompiler
