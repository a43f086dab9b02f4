import FlowCompiler.Proofs.Arguments
import FlowCompiler.Proofs.Emissions

namespace FlowCompiler

/-! Trails: the ways from the beginning of a walk to its visits. The trail to a visit settles in
which routine the steps of the visit stand, and which scope they are emitted in. -/

open Lowering Step

/-! ## Roles -/

def Role.binds : Role → Bool
  | .action act => !act.isDelay
  | .fork _ | .subflow _ => true
  | .loop _ | .terminal => false

theorem Kind.producesResult_eq_binds (kind : Kind) : kind.producesResult = kind.role.binds := by
  cases kind with
  | sendText message =>
      rw [role]
      cases message.waitForResponse <;> rfl
  | _ => rfl

theorem Action.isSome_result? (names : Names) (act : Action) :
    (act.result? names).isSome = !act.isDelay := by
  cases act <;> rfl

namespace Walk

variable {α : Type}

mutual
/-- Every node is visited in the role of its kind. Inside of a loop there are neither delays nor
further loops. -/
def InRoles (node : α → Node) (inside : Bool) : Walk α → Prop
  | .done => True
  | .terminal visit => (node visit).kind.role = .terminal
  | .action visit act next =>
      (node visit).kind.role = .action act ∧ (act.isDelay → inside = false) ∧
        InRoles node inside next
  | .fork visit choice exits =>
      (node visit).kind.role = .fork choice ∧ ExitsInRoles node inside exits
  | .subflow visit called exits next =>
      (node visit).kind.role = .subflow called ∧ ExitsInRoles node inside exits ∧
        InRoles node inside next
  | .loop visit start body next =>
      (node visit).kind.role = .loop start ∧ inside = false ∧ InRoles node true body ∧
        InRoles node inside next

def ExitsInRoles (node : α → Node) (inside : Bool) : List (Exit × Option (Walk α)) → Prop
  | [] => True
  | (_, none) :: rest => ExitsInRoles node inside rest
  | (_, some walk) :: rest => InRoles node inside walk ∧ ExitsInRoles node inside rest
end

theorem inRoles_of_mem {node : α → Node} {inside : Bool} {exit : Exit} {walk : Walk α} :
    ∀ exits : List (Exit × Option (Walk α)), ExitsInRoles node inside exits →
      (exit, some walk) ∈ exits → walk.InRoles node inside
  | (_, none) :: rest, roles, member => by
      rcases List.mem_cons.mp member with equal | member
      · cases equal
      · exact inRoles_of_mem rest roles member
  | (_, some first) :: rest, roles, member => by
      rcases List.mem_cons.mp member with equal | member
      · cases equal
        exact roles.1
      · exact inRoles_of_mem rest roles.2 member

mutual
theorem inRoles_name {inside : Bool} : ∀ (walk : Walk Node) {source : NameSource},
    walk.InRoles id inside → (walk.name source).1.InRoles Visit.node inside
  | .done, _, _ => trivial
  | .terminal _, _, roles => roles
  | .action _ _ next, _, roles => ⟨roles.1, roles.2.1, inRoles_name next roles.2.2⟩
  | .fork _ _ exits, _, roles => ⟨roles.1, exitsInRoles_nameExits exits roles.2⟩
  | .subflow _ _ exits next, _, roles =>
      ⟨roles.1, exitsInRoles_nameExits exits roles.2.1, inRoles_name next roles.2.2⟩
  | .loop _ _ body next, _, roles =>
      ⟨roles.1, roles.2.1, inRoles_name body roles.2.2.1, inRoles_name next roles.2.2.2⟩

theorem exitsInRoles_nameExits {inside : Bool} : ∀ (exits : List (Exit × Option (Walk Node)))
    {source : NameSource}, ExitsInRoles id inside exits →
      ExitsInRoles Visit.node inside (nameExits source exits).1
  | [], _, _ => trivial
  | (_, none) :: rest, _, roles => exitsInRoles_nameExits rest roles
  | (_, some walk) :: rest, _, roles =>
      ⟨inRoles_name walk roles.1, exitsInRoles_nameExits rest roles.2⟩
end

end Walk

namespace Graph

open Walk

mutual
theorem Unfolds.inRoles {graph : Graph} {bounds : Option LoopBounds} {unused : List String}
    {node : Node} {walk : Walk Node} :
    Unfolds graph bounds unused node walk → walk.InRoles id bounds.isSome
  | .ended _ => trivial
  | .terminal _ _ role => role
  | .passed _ _ _ _ rest => rest.inRoles
  | .action _ _ role stays rest =>
      ⟨role, fun delay => by rw [stays delay]; rfl, rest.inRoles⟩
  | .fork _ _ role behind => ⟨role, behind.inRoles⟩
  | .subflow _ _ role behind rest => ⟨role, behind.inRoles, rest.inRoles⟩
  | .loop _ role _ entered rest => ⟨role, rfl, entered.inRoles, rest.inRoles⟩

theorem Behind.inRoles {graph : Graph} {bounds : Option LoopBounds} {unused : List String}
    {source : String} {outlet : Outlet} {walk : Walk Node} :
    Behind graph bounds unused source outlet walk → walk.InRoles id bounds.isSome
  | .connected _ unfolds => unfolds.inRoles
  | .unconnected _ => trivial

theorem BehindExits.inRoles {graph : Graph} {bounds : Option LoopBounds} {unused : List String}
    {source : String} {exits : List Exit} {walks : List (Exit × Option (Walk Node))} :
    BehindExits graph bounds unused source exits walks →
      ExitsInRoles id bounds.isSome walks
  | .nil => trivial
  | .connected _ unfolds behind => ⟨unfolds.inRoles, behind.inRoles⟩
  | .unconnected _ behind => behind.inRoles
end

end Graph

/-! ## Legs -/

/-! A leg is a way from the first visit of a walk to what comes behind it, and a trail a list of
legs, one behind the other. -/

inductive Leg where
  /-- Go on behind the visit in the same routine. -/
  | onward (visit : Visit)
  /-- Leave a fork through an exit. -/
  | exit (visit : Visit) (exit : Exit)
  /-- Leave a subflow that has no result. -/
  | failure (visit : Visit) (exit : Exit)
  /-- Enter the body of a loop. -/
  | body (visit : Visit)

namespace Leg

def visit : Leg → Visit
  | .onward visit | .exit visit _ | .failure visit _ | .body visit => visit

def room (home : String) : Leg → String
  | .onward _ => home
  | .exit visit way | .failure visit way => visit.names.routine way.slug
  | .body visit => LoopStart.bodyRoutine visit.names

end Leg

namespace Scope

def after (scope : Scope) : Leg → Scope
  | .onward visit =>
      if visit.node.kind.producesResult then scope.bindResult visit.names else scope
  | .exit visit _ => (scope.bindResult visit.names).enterRoutine
  | .failure .. => scope.enterRoutine
  | .body _ => scope.enterLoop

def afterAll (scope : Scope) (legs : List Leg) : Scope :=
  legs.foldl after scope

variable {scope : Scope}

theorem after_action {visit : Visit} {act : Action}
    (role : visit.node.kind.role = .action act) :
    scope.after (.onward visit) = scope.afterAction visit.names act := by
  have binds := act.isSome_result? visit.names
  rw [after, afterAction, Action.registryAfter, Kind.producesResult_eq_binds, role,
    Role.binds, ← binds]
  cases act.result? visit.names <;> rfl

theorem after_subflow {visit : Visit} {called : Subflow}
    (role : visit.node.kind.role = .subflow called) :
    scope.after (.onward visit) = scope.bindResult visit.names := by
  rw [after, Kind.producesResult_eq_binds, role]
  rfl

theorem after_loop {visit : Visit} {start : LoopStart}
    (role : visit.node.kind.role = .loop start) : scope.after (.onward visit) = scope := by
  rw [after, Kind.producesResult_eq_binds, role]
  rfl

theorem insideLoop_onward (visit : Visit) :
    (scope.after (.onward visit)).insideLoop = scope.insideLoop := by
  rw [after]
  split <;> rfl

/-- A loop is not left by a leg. -/
theorem insideLoop_after (inside : scope.insideLoop) (leg : Leg) : (scope.after leg).insideLoop := by
  cases leg with
  | onward visit =>
      rw [insideLoop_onward]
      exact inside
  | exit | failure => exact inside
  | body => rfl

end Scope

def roomBehind (home : String) (legs : List Leg) : String :=
  legs.foldl Leg.room home

namespace Walk

inductive Goes : Walk Visit → Leg → Walk Visit → Prop
  | action {visit : Visit} {act : Action} {rest : Walk Visit} :
      Goes (.action visit act rest) (.onward visit) rest
  | fork {visit : Visit} {choice : Fork} {exits : List (Exit × Option (Walk Visit))} {exit : Exit}
      {rest : Walk Visit} (member : (exit, some rest) ∈ exits) :
      Goes (.fork visit choice exits) (.exit visit exit) rest
  | failure {visit : Visit} {called : Subflow} {exits : List (Exit × Option (Walk Visit))}
      {next : Walk Visit} {exit : Exit} {rest : Walk Visit} (member : (exit, some rest) ∈ exits) :
      Goes (.subflow visit called exits next) (.failure visit exit) rest
  | subflow {visit : Visit} {called : Subflow} {exits : List (Exit × Option (Walk Visit))}
      {rest : Walk Visit} : Goes (.subflow visit called exits rest) (.onward visit) rest
  | body {visit : Visit} {start : LoopStart} {rest next : Walk Visit} :
      Goes (.loop visit start rest next) (.body visit) rest
  | loop {visit : Visit} {start : LoopStart} {body rest : Walk Visit} :
      Goes (.loop visit start body rest) (.onward visit) rest

inductive Trail : Walk Visit → List Leg → Walk Visit → Prop
  | here {walk : Walk Visit} : Trail walk [] walk
  | onward {walk rest part : Walk Visit} {leg : Leg} {legs : List Leg}
      (first : Goes walk leg rest) (behind : Trail rest legs part) : Trail walk (leg :: legs) part

def doors : Walk Visit → List Leg
  | .fork visit _ exits => exits.map fun exit => .exit visit exit.1
  | .subflow visit _ exits _ => exits.map fun exit => .failure visit exit.1
  | .loop visit _ _ _ => [.body visit]
  | .done | .terminal _ | .action .. => []

theorem exit_mem_doors {visit : Visit} {choice : Fork} {exits : List (Exit × Option (Walk Visit))}
    {exit : Exit} (among : exit ∈ exits.map Prod.fst) :
    Leg.exit visit exit ∈ (fork visit choice exits).doors := by
  rcases List.mem_map.mp among with ⟨pair, inside, rfl⟩
  exact List.mem_map.mpr ⟨pair, inside, rfl⟩

theorem failure_mem_doors {visit : Visit} {called : Subflow}
    {exits : List (Exit × Option (Walk Visit))} {next : Walk Visit} {exit : Exit}
    (among : exit ∈ exits.map Prod.fst) :
    Leg.failure visit exit ∈ (subflow visit called exits next).doors := by
  rcases List.mem_map.mp among with ⟨pair, inside, rfl⟩
  exact List.mem_map.mpr ⟨pair, inside, rfl⟩

theorem body_mem_doors (visit : Visit) (start : LoopStart) (body next : Walk Visit) :
    Leg.body visit ∈ (loop visit start body next).doors :=
  List.mem_singleton_self _

theorem Goes.door_or_onward {walk rest : Walk Visit} {leg : Leg} (goes : Goes walk leg rest) :
    leg ∈ walk.doors ∨ ∃ visit, leg = .onward visit := by
  cases goes with
  | action | subflow | loop => exact .inr ⟨_, rfl⟩
  | fork member => exact .inl (exit_mem_doors (List.mem_map_of_mem (f := Prod.fst) member))
  | failure member => exact .inl (failure_mem_doors (List.mem_map_of_mem (f := Prod.fst) member))
  | body => exact .inl (body_mem_doors _ _ _ _)

def first? : Walk Visit → Option Visit
  | .done => none
  | .terminal visit | .action visit _ _ | .fork visit _ _ | .subflow visit _ _ _
  | .loop visit _ _ _ => some visit

theorem mem_visits_of_first? {walk : Walk Visit} {visit : Visit}
    (first : walk.first? = some visit) : visit ∈ walk.visits := by
  cases walk with
  | done => cases first
  | terminal | action | fork | subflow | loop =>
      cases first
      exact List.mem_cons_self

theorem Goes.first? {walk rest : Walk Visit} {leg : Leg} (goes : Goes walk leg rest) :
    walk.first? = some leg.visit := by
  cases goes <;> rfl

theorem first?_of_mem_doors {walk : Walk Visit} {leg : Leg} (door : leg ∈ walk.doors) :
    walk.first? = some leg.visit := by
  cases walk with
  | done | terminal | action => cases door
  | fork visit choice exits =>
      rcases List.mem_map.mp door with ⟨exit, _, rfl⟩
      rfl
  | subflow visit called exits next =>
      rcases List.mem_map.mp door with ⟨exit, _, rfl⟩
      rfl
  | loop visit start body next =>
      rw [List.mem_singleton.mp door]
      rfl

/-! ## Doors and routines -/

/-- A leg into a routine of its own ends in one of the routines of its visit, the parameters of
which are the variables of the scope behind the leg. -/
theorem exists_ownRoutine_of_door {walk : Walk Visit} {leg : Leg} (settings : Settings)
    (home : String) (scope : Scope) (door : leg ∈ walk.doors) :
    ∃ routine, (leg.room home, routine) ∈ walk.ownRoutines settings scope ∧
      routine.params = (scope.after leg).registry.params := by
  cases walk with
  | done | terminal | action => cases door
  | fork visit choice exits =>
      rcases List.mem_map.mp door with ⟨exit, inside, rfl⟩
      exact ⟨_, List.mem_map.mpr ⟨exit, inside, Prod.ext (fst_exitEntry ..) rfl⟩,
        params_exitEntry ..⟩
  | subflow visit called exits next =>
      rcases List.mem_map.mp door with ⟨exit, inside, rfl⟩
      exact ⟨_, List.mem_map.mpr ⟨exit, inside, Prod.ext (fst_exitEntry ..) rfl⟩,
        params_exitEntry ..⟩
  | loop visit start body next =>
      rw [List.mem_singleton.mp door]
      exact ⟨_, List.mem_singleton_self _, rfl⟩

/-- Every routine of a visit is entered by a leg of its own. -/
theorem exists_door_of_ownRoutine {settings : Settings} {scope : Scope} {walk : Walk Visit}
    {entry : String × Routine} (home : String) (own : entry ∈ walk.ownRoutines settings scope) :
    ∃ leg ∈ walk.doors, leg.room home = entry.1 ∧
      entry.2.params = (scope.after leg).registry.params := by
  cases walk with
  | done | terminal | action => cases own
  | fork visit choice exits =>
      rcases List.mem_map.mp own with ⟨exit, inside, rfl⟩
      exact ⟨_, List.mem_map.mpr ⟨exit, inside, rfl⟩, (fst_exitEntry ..).symm,
        params_exitEntry ..⟩
  | subflow visit called exits next =>
      rcases List.mem_map.mp own with ⟨exit, inside, rfl⟩
      exact ⟨_, List.mem_map.mpr ⟨exit, inside, rfl⟩, (fst_exitEntry ..).symm,
        params_exitEntry ..⟩
  | loop visit start body next =>
      rw [List.mem_singleton.mp own]
      exact ⟨_, body_mem_doors visit start body next, rfl, rfl⟩

/-- A call that hands over to a routine leads through a door. -/
theorem exists_door_of_dispatch {scope : Scope} {walk : Walk Visit} {call : Call} (home : String)
    (dispatch : call ∈ walk.dispatches scope) : ∃ leg ∈ walk.doors, leg.room home = call.target := by
  rcases exists_ownRoutine_of_dispatch .standard dispatch with ⟨routine, own⟩
  rcases exists_door_of_ownRoutine home own with ⟨leg, door, room, _⟩
  exact ⟨leg, door, room⟩

/-! ## Trails and places -/

section

variable {scope : Scope} {walk rest part : Walk Visit} {leg : Leg}

theorem Goes.inRoles (goes : Goes walk leg rest)
    (roles : walk.InRoles Visit.node scope.insideLoop) :
    rest.InRoles Visit.node (scope.after leg).insideLoop := by
  cases goes with
  | action =>
      rw [Scope.insideLoop_onward]
      exact roles.2.2
  | fork member => exact inRoles_of_mem _ roles.2 member
  | failure member => exact inRoles_of_mem _ roles.2.1 member
  | subflow =>
      rw [Scope.insideLoop_onward]
      exact roles.2.2
  | body => exact roles.2.2.1
  | loop =>
      rw [Scope.insideLoop_onward]
      exact roles.2.2.2

theorem Trail.inRoles {legs : List Leg} (trail : Trail walk legs part)
    (roles : walk.InRoles Visit.node scope.insideLoop) :
    part.InRoles Visit.node (scope.afterAll legs).insideLoop := by
  induction trail generalizing scope with
  | here => exact roles
  | onward first _ induction => exact induction (first.inRoles roles)

theorem Goes.place {inner : Scope} (goes : Goes walk leg rest)
    (roles : walk.InRoles Visit.node scope.insideLoop)
    (place : Place (scope.after leg) rest inner part) : Place scope walk inner part := by
  cases goes with
  | action =>
      rw [Scope.after_action roles.1] at place
      exact .afterAction place
  | fork member => exact .behindFork member place
  | failure member => exact .behindSubflow member place
  | subflow =>
      rw [Scope.after_subflow roles.1] at place
      exact .afterSubflow place
  | body => exact .inLoop place
  | loop =>
      rw [Scope.after_loop roles.1] at place
      exact .afterLoop place

theorem Trail.place {legs : List Leg} (trail : Trail walk legs part)
    (roles : walk.InRoles Visit.node scope.insideLoop) :
    Place scope walk (scope.afterAll legs) part := by
  induction trail generalizing scope with
  | here => exact .here
  | onward first _ induction => exact first.place roles (induction (first.inRoles roles))

theorem Goes.exists_trail {inner : Scope} (goes : Goes walk leg rest)
    (behind : ∃ legs, Trail rest legs part ∧ inner = (scope.after leg).afterAll legs) :
    ∃ legs, Trail walk legs part ∧ inner = scope.afterAll legs := by
  rcases behind with ⟨legs, trail, equal⟩
  exact ⟨leg :: legs, .onward goes trail, equal⟩

/-- A trail leads to every place of the walk. -/
theorem Place.exists_trail {inner : Scope} (place : Place scope walk inner part)
    (roles : walk.InRoles Visit.node scope.insideLoop) :
    ∃ legs, Trail walk legs part ∧ inner = scope.afterAll legs := by
  induction place with
  | here => exact ⟨[], .here, rfl⟩
  | afterAction _ induction =>
      rw [← Scope.after_action roles.1] at induction
      exact Goes.action.exists_trail (induction (Goes.action.inRoles roles))
  | behindFork member _ induction =>
      exact (Goes.fork member).exists_trail (induction ((Goes.fork member).inRoles roles))
  | behindSubflow member _ induction =>
      exact (Goes.failure member).exists_trail (induction ((Goes.failure member).inRoles roles))
  | afterSubflow _ induction =>
      rw [← Scope.after_subflow roles.1] at induction
      exact Goes.subflow.exists_trail (induction (Goes.subflow.inRoles roles))
  | inLoop _ induction => exact Goes.body.exists_trail (induction (Goes.body.inRoles roles))
  | afterLoop _ induction =>
      have behind := Goes.loop.inRoles roles
      rw [Scope.after_loop roles.1] at behind
      refine Goes.loop.exists_trail ?_
      rw [Scope.after_loop roles.1]
      exact induction behind

mutual
/-- A trail leads to every visit of the walk. -/
theorem exists_trail_of_mem_visits {visit : Visit} : ∀ {walk : Walk Visit}, visit ∈ walk.visits →
    ∃ legs part, Trail walk legs part ∧ part.first? = some visit
  | .done, among => by cases among
  | .terminal own, among => by
      cases List.mem_singleton.mp among
      exact ⟨[], _, .here, rfl⟩
  | .action own act next, among => by
      rcases List.mem_cons.mp among with rfl | behind
      · exact ⟨[], _, .here, rfl⟩
      · rcases exists_trail_of_mem_visits behind with ⟨legs, part, trail, first⟩
        exact ⟨_, part, .onward .action trail, first⟩
  | .fork own choice exits, among => by
      rcases List.mem_cons.mp among with rfl | behind
      · exact ⟨[], _, .here, rfl⟩
      · rcases exists_trail_of_mem_exitVisits exits behind with
          ⟨exit, rest, member, legs, part, trail, first⟩
        exact ⟨_, part, .onward (.fork member) trail, first⟩
  | .subflow own called exits next, among => by
      rcases List.mem_cons.mp among with rfl | behind
      · exact ⟨[], _, .here, rfl⟩
      · rcases List.mem_append.mp behind with aborted | behind
        · rcases exists_trail_of_mem_exitVisits exits aborted with
            ⟨exit, rest, member, legs, part, trail, first⟩
          exact ⟨_, part, .onward (.failure member) trail, first⟩
        · rcases exists_trail_of_mem_visits behind with ⟨legs, part, trail, first⟩
          exact ⟨_, part, .onward .subflow trail, first⟩
  | .loop own start body next, among => by
      rcases List.mem_cons.mp among with rfl | behind
      · exact ⟨[], _, .here, rfl⟩
      · rcases List.mem_append.mp behind with inside | behind
        · rcases exists_trail_of_mem_visits inside with ⟨legs, part, trail, first⟩
          exact ⟨_, part, .onward .body trail, first⟩
        · rcases exists_trail_of_mem_visits behind with ⟨legs, part, trail, first⟩
          exact ⟨_, part, .onward .loop trail, first⟩

theorem exists_trail_of_mem_exitVisits {visit : Visit} :
    ∀ exits : List (Exit × Option (Walk Visit)), visit ∈ exitVisits exits →
      ∃ exit rest, (exit, some rest) ∈ exits ∧
        ∃ legs part, Trail rest legs part ∧ part.first? = some visit
  | [], among => by cases among
  | (_, none) :: others, among => by
      rcases exists_trail_of_mem_exitVisits others among with ⟨exit, rest, member, found⟩
      exact ⟨exit, rest, List.mem_cons_of_mem _ member, found⟩
  | (exit, some rest) :: others, among => by
      rcases List.mem_append.mp among with own | other
      · exact ⟨exit, rest, List.mem_cons_self, exists_trail_of_mem_visits own⟩
      · rcases exists_trail_of_mem_exitVisits others other with ⟨exit, rest, member, found⟩
        exact ⟨exit, rest, List.mem_cons_of_mem _ member, found⟩
end

end

/-! ## What is emitted at the end of a trail -/

def ownSteps (settings : Settings) (scope : Scope) : Walk Visit → List Step
  | .done => []
  | .terminal visit => [.return visit.names.result scope.terminalValue]
  | .action visit act _ =>
      act.steps settings visit.names scope.registry ++ act.binding visit.names
  | .fork visit choice exits =>
      choice.steps settings visit.names scope.registry (exits.map Prod.fst)
  | .subflow visit called exits _ =>
      called.steps settings visit.names scope.registry (exits.map Prod.fst)
  | .loop visit start _ _ => start.steps settings visit.names scope.registry

/-- The emission is one for the first visit of `part`, a walk in the routine `home`: the block of
the visit, one of its own steps, or the last step of one of its routines. -/
inductive EmittedAt (settings : Settings) (home : String) (scope : Scope) (part : Walk Visit) :
    Emission → Prop
  | block {visit : Visit} {steps : List Step} (first : part.first? = some visit)
      (continues : part ≠ .terminal visit) :
      EmittedAt settings home scope part ⟨home, some visit, .block visit.names.result steps⟩
  | own {visit : Visit} {step : Step} (first : part.first? = some visit)
      (inside : step ∈ flattenSteps (part.ownSteps settings scope)) :
      EmittedAt settings home scope part ⟨home, some visit, step⟩
  | closing {leg : Leg} {walk : Walk Visit} {last : Step} (door : leg ∈ part.doors)
      (closing : Closing walk last) :
      EmittedAt settings home scope part ⟨leg.room home, some leg.visit, last⟩

def EmittedBehind (settings : Settings) (home : String) (scope : Scope) (walk : Walk Visit)
    (emission : Emission) : Prop :=
  ∃ legs part, Trail walk legs part ∧
    EmittedAt settings (roomBehind home legs) (scope.afterAll legs) part emission

section

variable {settings : Settings} {home : String} {scope : Scope} {walk rest part : Walk Visit}
  {leg : Leg} {emission : Emission}

theorem EmittedAt.behind (emitted : EmittedAt settings home scope walk emission) :
    EmittedBehind settings home scope walk emission :=
  ⟨[], walk, .here, emitted⟩

theorem emittedBehind_of_eq_block {visit : Visit} {steps : List Step}
    (first : walk.first? = some visit) (continues : walk ≠ .terminal visit)
    (equal : emission = ⟨home, some visit, .block visit.names.result steps⟩) :
    EmittedBehind settings home scope walk emission :=
  equal ▸ (EmittedAt.block first continues).behind

theorem Goes.emittedBehind (goes : Goes walk leg rest)
    (emitted : EmittedBehind settings (leg.room home) (scope.after leg) rest emission) :
    EmittedBehind settings home scope walk emission := by
  rcases emitted with ⟨legs, part, trail, emitted⟩
  exact ⟨leg :: legs, part, .onward goes trail, emitted⟩

theorem emittedAt_of_mem_emit {visit : Visit} (first : walk.first? = some visit)
    (member : emission ∈ emit home visit (walk.ownSteps settings scope)) :
    EmittedAt settings home scope walk emission := by
  rcases List.mem_map.mp member with ⟨step, inside, rfl⟩
  exact .own first inside

def EmittedByExits (settings : Settings) (visit : Visit) (scope : Scope)
    (exits : List (Exit × Option (Walk Visit))) (emission : Emission) : Prop :=
  (∃ exit ∈ exits.map Prod.fst, ∃ walk last, Closing walk last ∧
    emission = ⟨visit.names.routine exit.slug, some visit, last⟩) ∨
  ∃ exit walk, (exit, some walk) ∈ exits ∧
    EmittedBehind settings (visit.names.routine exit.slug) scope.enterRoutine walk emission

theorem EmittedByExits.cons {visit : Visit} {first : Exit × Option (Walk Visit)}
    {exits : List (Exit × Option (Walk Visit))}
    (emitted : EmittedByExits settings visit scope exits emission) :
    EmittedByExits settings visit scope (first :: exits) emission := by
  rcases emitted with ⟨exit, among, closing⟩ | ⟨exit, walk, among, behind⟩
  · exact .inl ⟨exit, List.mem_cons_of_mem _ among, closing⟩
  · exact .inr ⟨exit, walk, List.mem_cons_of_mem _ among, behind⟩

end

mutual
/-- Everything that is emitted for a walk is emitted for a visit to which a trail leads, in the
routine and the scope that the trail settles. -/
theorem emittedBehind_of_mem_emissions (settings : Settings) {emission : Emission} :
    ∀ (walk : Walk Visit) {home : String} {scope : Scope},
      walk.InRoles Visit.node scope.insideLoop → emission ∈ walk.emissions settings home scope →
        EmittedBehind settings home scope walk emission
  | .done, _, _, _, member => by cases member
  | .terminal visit, home, scope, _, member => by
      rw [List.mem_singleton.mp member]
      exact (EmittedAt.own rfl List.mem_cons_self).behind
  | .action visit act next, home, scope, roles, member => by
      rcases List.mem_cons.mp member with equal | member
      · exact emittedBehind_of_eq_block rfl nofun equal
      · rcases List.mem_append.mp member with member | member
        · exact (emittedAt_of_mem_emit rfl member).behind
        · rw [← Scope.after_action roles.1] at member
          exact Goes.action.emittedBehind
            (emittedBehind_of_mem_emissions settings next (Goes.action.inRoles roles) member)
  | .fork visit choice exits, home, scope, roles, member => by
      rcases List.mem_cons.mp member with equal | member
      · exact emittedBehind_of_eq_block rfl nofun equal
      · rcases List.mem_append.mp member with member | member
        · exact (emittedAt_of_mem_emit rfl member).behind
        · have bound : ExitsInRoles Visit.node (scope.bindResult visit.names).insideLoop exits :=
            roles.2
          rcases emittedByExits_of_mem_exitEmissions settings visit exits bound member with
            ⟨exit, among, walk, last, closing, rfl⟩ | ⟨exit, walk, among, behind⟩
          · exact (EmittedAt.closing (exit_mem_doors among) closing).behind
          · exact (Goes.fork among).emittedBehind behind
  | .subflow visit called exits next, home, scope, roles, member => by
      rcases List.mem_cons.mp member with equal | member
      · exact emittedBehind_of_eq_block rfl nofun equal
      · rcases List.mem_append.mp member with member | member
        · exact (emittedAt_of_mem_emit rfl member).behind
        rcases List.mem_append.mp member with member | member
        · rcases emittedByExits_of_mem_exitEmissions settings visit exits roles.2.1 member with
            ⟨exit, among, walk, last, closing, rfl⟩ | ⟨exit, walk, among, behind⟩
          · exact (EmittedAt.closing (failure_mem_doors among) closing).behind
          · exact (Goes.failure among).emittedBehind behind
        · rw [← Scope.after_subflow roles.1] at member
          exact Goes.subflow.emittedBehind
            (emittedBehind_of_mem_emissions settings next (Goes.subflow.inRoles roles) member)
  | .loop visit start body next, home, scope, roles, member => by
      rcases List.mem_cons.mp member with equal | member
      · exact emittedBehind_of_eq_block rfl nofun equal
      · rcases List.mem_append.mp member with member | member
        · exact (emittedAt_of_mem_emit rfl member).behind
        rcases List.mem_append.mp member with member | member
        · exact Goes.body.emittedBehind
            (emittedBehind_of_mem_emissions settings body (Goes.body.inRoles roles) member)
        rcases List.mem_cons.mp member with equal | member
        · subst equal
          exact (EmittedAt.closing (body_mem_doors visit start body next)
            (@Closing.resume body)).behind
        · have behind := emittedBehind_of_mem_emissions settings next roles.2.2.2 member
          refine Goes.loop.emittedBehind ?_
          rw [Scope.after_loop roles.1]
          exact behind

theorem emittedByExits_of_mem_exitEmissions (settings : Settings) {emission : Emission}
    (visit : Visit) : ∀ (exits : List (Exit × Option (Walk Visit))) {scope : Scope},
      ExitsInRoles Visit.node scope.insideLoop exits →
        emission ∈ exitEmissions settings visit scope exits →
          EmittedByExits settings visit scope exits emission
  | [], _, _, member => by cases member
  | (exit, none) :: rest, scope, roles, member => by
      rcases List.mem_cons.mp member with equal | member
      · exact .inl ⟨exit, List.mem_cons_self, .done, _, .stub exit, equal⟩
      · exact (emittedByExits_of_mem_exitEmissions settings visit rest roles member).cons
  | (exit, some walk) :: rest, scope, roles, member => by
      rcases List.mem_append.mp member with member | member
      · exact .inr ⟨exit, walk, List.mem_cons_self,
          emittedBehind_of_mem_emissions settings walk roles.1 member⟩
      rcases List.mem_cons.mp member with equal | member
      · exact .inl ⟨exit, List.mem_cons_self, walk, _, .finish, equal⟩
      · exact (emittedByExits_of_mem_exitEmissions settings visit rest roles.2 member).cons
end

/-! ## What is emitted along a trail -/

section

variable {settings : Settings} {home : String} {scope : Scope} {walk rest : Walk Visit} {leg : Leg}

theorem emissions_subset_exitEmissions {visit : Visit} {exit : Exit} :
    ∀ exits : List (Exit × Option (Walk Visit)), (exit, some walk) ∈ exits →
      walk.emissions settings (visit.names.routine exit.slug) scope.enterRoutine ⊆
        exitEmissions settings visit scope exits
  | (_, none) :: rest, member => by
      rcases List.mem_cons.mp member with equal | member
      · cases equal
      · exact List.subset_cons_of_subset _ (emissions_subset_exitEmissions rest member)
  | (_, some first) :: rest, member => by
      rcases List.mem_cons.mp member with equal | member
      · cases equal
        exact List.subset_append_left _ _
      · exact List.subset_append_of_subset_right _ (List.subset_cons_of_subset _
          (emissions_subset_exitEmissions rest member))

/-- What is emitted behind a leg is emitted for the whole walk. -/
theorem Goes.emissions_subset (goes : Goes walk leg rest)
    (roles : walk.InRoles Visit.node scope.insideLoop) :
    rest.emissions settings (leg.room home) (scope.after leg) ⊆
      walk.emissions settings home scope := by
  cases goes with
  | action =>
      rw [Scope.after_action roles.1]
      exact List.subset_cons_of_subset _ (List.subset_append_right _ _)
  | fork member =>
      exact List.subset_cons_of_subset _ (List.subset_append_of_subset_right _
        (emissions_subset_exitEmissions _ member))
  | failure member =>
      exact List.subset_cons_of_subset _ (List.subset_append_of_subset_right _
        (List.subset_append_of_subset_left _ (emissions_subset_exitEmissions _ member)))
  | subflow =>
      rw [Scope.after_subflow roles.1]
      exact List.subset_cons_of_subset _ (List.subset_append_of_subset_right _
        (List.subset_append_right _ _))
  | body =>
      exact List.subset_cons_of_subset _ (List.subset_append_of_subset_right _
        (List.subset_append_left _ _))
  | loop =>
      rw [Scope.after_loop roles.1]
      exact List.subset_cons_of_subset _ (List.subset_append_of_subset_right _
        (List.subset_append_of_subset_right _ (List.subset_cons_self _ _)))

theorem emit_subset_emissions {visit : Visit} (first : walk.first? = some visit) :
    emit home visit (walk.ownSteps settings scope) ⊆ walk.emissions settings home scope := by
  cases walk with
  | done => cases first
  | terminal =>
      cases first
      exact List.Subset.refl _
  | action | fork | subflow | loop =>
      cases first
      exact List.subset_cons_of_subset _ (List.subset_append_left _ _)

end

end Walk

end FlowCompiler
