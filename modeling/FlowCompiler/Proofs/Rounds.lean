import FlowCompiler.Proofs.Runs

namespace FlowCompiler

/-! Lists of steps that go round: one case of one switch jumps back to an earlier step, and counts
how often it does. As long as the count is limited, so is the number of times that the steps of the
list are run. -/

open Expression Step

/-! ## Jumps back -/

structure JumpsBack (steps front : List Step) (branch : Case) (target : String) : Prop where
  next : branch.next = some target
  back : ∃ name earlier later rest,
    steps = front ++ .switch name (earlier ++ branch :: later) :: rest ∧
      target ∈ front.map Step.name ++ [name]

namespace Step

def startCounter (name counter : String) (first : UInt64) : Step :=
  .assign name [(counter, .ofUInt64 first)]

def advanceCounter (name counter : String) : Step :=
  .assign name [(counter, evaluate (counter ++ " + 1"))]

end Step

/-- A list of steps with a single jump back. The counter is set in front of the target, and then
only by the case that jumps. -/
structure Rounds where
  counter : String
  first : UInt64
  before : List Step
  init : String
  /-- The steps from the target to the switch. -/
  round : List Step
  check : String
  earlier : List Case
  condition : Option Json
  advance : String
  /-- What else the jumping case does. -/
  pause : List Step
  target : String
  later : List Case
  behind : List Step
  leads : round.head?.map Step.name = some target
  fresh : target ∉ before.map Step.name ++ [init]
  straight : ∀ step ∈ before ++ round ++ behind, step.jumps = []
  forward : ∀ branch ∈ earlier ++ later, ∀ next ∈ branch.next,
    next ∉ before.map Step.name ++ init :: round.map Step.name ++ [check]
  plain : ∀ step ∈ round ++ pause, step.isPlain
  kept : counter ∉ setsWithin (round ++ pause)

namespace Rounds

def front (rounds : Rounds) : List Step :=
  rounds.before ++ startCounter rounds.init rounds.counter rounds.first :: rounds.round

def repeated (rounds : Rounds) : Case :=
  .mk rounds.condition (advanceCounter rounds.advance rounds.counter :: rounds.pause)
    (some rounds.target)

def cases (rounds : Rounds) : List Case :=
  rounds.earlier ++ rounds.repeated :: rounds.later

def steps (rounds : Rounds) : List Step :=
  rounds.front ++ .switch rounds.check rounds.cases :: rounds.behind

section

variable {rounds : Rounds}

theorem mem_or_eq_of_mem_front {step : Step} (member : step ∈ rounds.front) :
    step ∈ rounds.before ++ rounds.round ++ rounds.behind ∨
      step = startCounter rounds.init rounds.counter rounds.first := by
  simp only [front, List.mem_append, List.mem_cons] at member ⊢
  tauto

theorem jumps_of_mem_front {step : Step} (member : step ∈ rounds.front) : step.jumps = [] := by
  rcases mem_or_eq_of_mem_front member with member | equal
  · exact rounds.straight step member
  · exact equal ▸ rfl

theorem jumps_of_mem_behind {step : Step} (member : step ∈ rounds.behind) : step.jumps = [] :=
  rounds.straight step (List.mem_append_right _ member)

theorem eq_of_jumpsBack {front : List Step} {branch : Case} {target : String}
    (jump : JumpsBack rounds.steps front branch target) :
    front = rounds.front ∧ branch = rounds.repeated ∧ target = rounds.target := by
  rcases jump.back with ⟨name, earlier, later, rest, split, back⟩
  have jumps : target ∈ (Step.switch name (earlier ++ branch :: later)).jumps :=
    List.mem_filterMap.mpr ⟨branch, List.mem_append_right _ List.mem_cons_self, jump.next⟩
  -- No other step has a switch in its place.
  have place : front = rounds.front ∧
      Step.switch rounds.check rounds.cases = .switch name (earlier ++ branch :: later) := by
    rcases List.append_eq_append_iff.mp split with
      ⟨between, isFront, isRest⟩ | ⟨between, isFront, isRest⟩
    · cases between with
      | nil => exact ⟨by simpa using isFront, (List.cons.inj isRest).1⟩
      | cons step others =>
          have member : Step.switch name (earlier ++ branch :: later) ∈ rounds.behind := by
            rw [(List.cons.inj isRest).2]
            exact List.mem_append_right _ List.mem_cons_self
          rw [jumps_of_mem_behind member] at jumps
          cases jumps
    · cases between with
      | nil => exact ⟨by simpa using isFront.symm, (List.cons.inj isRest).1.symm⟩
      | cons step others =>
          have member : Step.switch name (earlier ++ branch :: later) ∈ rounds.front := by
            rw [isFront, (List.cons.inj isRest).1]
            exact List.mem_append_right _ List.mem_cons_self
          rw [jumps_of_mem_front member] at jumps
          cases jumps
  rcases place with ⟨isFront, same⟩
  injection same with isCheck isCases
  have among : branch ∈ rounds.cases := isCases ▸ List.mem_append_right _ List.mem_cons_self
  have repeats : branch = rounds.repeated := by
    by_contra other
    have others : branch ∈ rounds.earlier ++ rounds.later := by
      simp only [cases, List.mem_append, List.mem_cons] at among ⊢
      tauto
    refine rounds.forward branch others target jump.next ?_
    rw [isFront, ← isCheck, Rounds.front, List.map_append] at back
    exact back
  refine ⟨isFront, repeats, ?_⟩
  have next := jump.next
  rw [repeats] at next
  exact (Option.some.inj next).symm

end

/-! ## Names -/

def otherNames (rounds : Rounds) : List String :=
  namesWithin rounds.before ++ rounds.init :: rounds.check :: rounds.advance ::
    (flattenCases (rounds.earlier ++ rounds.later)).map Step.name ++ namesWithin rounds.behind

theorem namesWithin_steps_perm (rounds : Rounds) :
    (namesWithin rounds.steps).Perm
      (namesWithin rounds.round ++ namesWithin rounds.pause ++ rounds.otherNames) := by
  have start : namesWithin [startCounter rounds.init rounds.counter rounds.first] = [rounds.init] :=
    rfl
  have names : namesWithin rounds.steps =
      namesWithin rounds.before ++ rounds.init :: (namesWithin rounds.round ++ rounds.check ::
        ((flattenCases rounds.earlier).map Step.name ++ rounds.advance :: (namesWithin rounds.pause ++
          (flattenCases rounds.later).map Step.name) ++ namesWithin rounds.behind)) := by
    simp [steps, front, cases, repeated, namesWithin, flattenSteps, flattenCases_append, flattenCases,
      flatten, startCounter, advanceCounter, Step.name]
  rw [names, otherNames, flattenCases_append]
  refine List.perm_iff_count.mpr fun name => ?_
  simp only [List.count_append, List.count_cons, List.map_append]
  omega

/-- A step of the round has no other name if names do not occur twice. -/
theorem not_mem_otherNames {rounds : Rounds} {name : String}
    (once : (namesWithin rounds.steps).count name ≤ 1)
    (own : name ∈ namesWithin rounds.round ++ namesWithin rounds.pause) :
    name ∉ rounds.otherNames := by
  intro other
  rw [rounds.namesWithin_steps_perm.count_eq, List.count_append] at once
  have first := List.count_pos_iff.mpr own
  have second := List.count_pos_iff.mpr other
  omega

end Rounds

/-! ## Counting events -/

def timesRun (name : String) (events : List Event) : Nat :=
  events.countP fun event => event.step.name = name

@[simp] theorem timesRun_append (name : String) (left right : List Event) :
    timesRun name (left ++ right) = timesRun name left + timesRun name right :=
  List.countP_append

theorem timesRun_eq_zero {name : String} {events : List Event}
    (others : ∀ event ∈ events, event.step.name ≠ name) : timesRun name events = 0 :=
  List.countP_eq_zero.mpr fun event member => by simpa using others event member

theorem timesRun_singleton {name : String} {event : Event} :
    timesRun name [event] = [event.step.name].count name := by
  simp [timesRun, List.countP_cons, List.count_cons]

/-- No routine that is called from `home` runs a step with this name. -/
def Program.Apart (program : Program) (home name : String) : Prop :=
  ∀ callee, Relation.TransGen program.Calls home callee → ∀ step, (callee, step) ∈ program.sites →
    step.name ≠ name

theorem Event.From.name_ne {program : Program} {home name : String} {steps : List Step}
    {event : Event} (origin : event.From program home steps) (apart : program.Apart home name)
    (absent : name ∉ namesWithin steps) : event.step.name ≠ name := by
  rcases origin with ⟨_, inside⟩ | ⟨called, site⟩
  · exact fun equal => absent (List.mem_map.mpr ⟨event.step, inside, equal⟩)
  · exact apart _ called _ site

structure Program.Holds (program : Program) (home : String) (steps : List Step) : Prop where
  sites : ∀ step ∈ flattenSteps steps, (home, step) ∈ program.sites
  jumpsLocal : JumpsLocal steps

theorem Program.Holds.case {program : Program} {home name : String} {steps : List Step}
    {cases : List Case} {branch : Case} (holds : program.Holds home steps)
    (member : .switch name cases ∈ steps) (among : branch ∈ cases) :
    program.Holds home branch.steps := by
  constructor
  · intro step inside
    refine holds.sites step (flatten_subset_flattenSteps member ?_)
    exact List.mem_cons_of_mem _ (flattenSteps_subset_of_case among inside)
  · exact holds.jumpsLocal.of_mem member (caseLists_subset_of_mem among List.mem_cons_self)

theorem Program.Holds.site {program : Program} {home : String} {steps : List Step}
    (holds : program.Holds home steps) {step : Step} (member : step ∈ steps) :
    (home, step) ∈ program.sites :=
  holds.sites step (subset_flattenSteps steps member)

namespace Engine

variable {World : Type} {engine : Engine World} {program : Program} {home name : String}
  {list : List Step}

section

variable {step : Step} (engine : Engine World) (fuel : Nat) (vars : Table Json) (world : World)

theorem timesRun_runStep_eq_zero (site : (home, step) ∈ program.sites)
    (apart : program.Apart home name) (absent : name ∉ namesWithin [step]) :
    timesRun name (engine.runStep program fuel home step vars world).events = 0 :=
  timesRun_eq_zero fun event member => (from_of_mem_runStep site event member).name_ne apart absent

theorem timesRun_run_eq_zero
    (sites : ∀ step ∈ flattenSteps list, (home, step) ∈ program.sites)
    (apart : program.Apart home name) (absent : name ∉ namesWithin list) :
    timesRun name (engine.run program fuel home list list vars world).events = 0 :=
  timesRun_eq_zero fun event member =>
    (from_of_mem_run fuel sites (List.Subset.refl _) event member).name_ne apart absent

/-- A step that holds no other is run once. -/
theorem timesRun_runStep_le (site : (home, step) ∈ program.sites)
    (apart : program.Apart home name) (plain : step.isPlain) :
    timesRun name (engine.runStep program fuel home step vars world).events ≤
      (namesWithin [step]).count name := by
  have own : namesWithin [step] = [step.name] := by
    cases step <;> first | rfl | cases plain
  rw [own]
  have does := engine.does_runStep program fuel home step vars world
  generalize engine.runStep program fuel home step vars world = result at does
  cases does with
  | raise | perform | assign | «return» => exact Nat.le_of_eq timesRun_singleton
  | @call _ made args routine generated found =>
      have entry := Table.get?_eq_some_iff.mp found
      have calls : program.Calls home made.target :=
        Program.calls_of_site site rfl (List.mem_map_of_mem entry)
      rw [Result.events_after, Result.events_handOver, timesRun_append, timesRun_singleton]
      refine Nat.le_of_eq (Nat.add_eq_left.mpr (timesRun_eq_zero fun event member => ?_))
      have origin := from_of_mem_run fuel
        (fun inner inside => Program.mem_sites.mpr ⟨routine, entry, inside⟩)
        (List.Subset.refl routine.steps) event member
      exact (origin.called calls found []).name_ne apart List.not_mem_nil
  | pass | choose | block | loop => cases plain

end

/-! ## Budgets -/

/-! What was run keeps within a budget, and there is something left if the run goes on. -/

structure Within (name : String) (left : Table Json → Nat → Prop) (result : Result World)
    (budget : Nat) : Prop where
  within : timesRun name result.events ≤ budget
  done : result.outcome = .done → ∃ less,
    timesRun name result.events + less ≤ budget ∧ left result.vars less

structure Spends (list : List Step) (name : String) (left : List Step → Table Json → Nat → Prop)
    (rest : List Step) (result : Result World) (budget : Nat) : Prop
    extends Within name (left rest) result budget where
  jump : ∀ target later, result.outcome = .jump target → from? target list = some later →
    ∃ less, timesRun name result.events + less ≤ budget ∧ left later result.vars less

theorem Within.after {left : Table Json → Nat → Prop} {result : Result World} {events : List Event}
    {less budget : Nat} (behind : Within name left result less)
    (spent : timesRun name events + less ≤ budget) :
    Within name left (result.after events) budget := by
  constructor
  · have within := behind.within
    rw [Result.events_after, timesRun_append]
    omega
  · intro ended
    rcases behind.done ended with ⟨fewer, within, has⟩
    rw [Result.events_after, timesRun_append]
    exact ⟨fewer, by omega, has⟩

/-- What is left where the run goes on behind a step that keeps within the budget. -/
theorem Spends.goesOn {left : List Step → Table Json → Nat → Prop} {rest later : List Step}
    {result : Result World} {budget : Nat} (spends : Spends list name left rest result budget)
    (follows : Follows list rest result.outcome later) :
    ∃ less, timesRun name result.events + less ≤ budget ∧ left later result.vars less := by
  rcases follows.done_or_jump with ⟨done, rfl⟩ | ⟨target, jumps, found⟩
  · exact spends.done done
  · exact spends.jump target later jumps found

theorem within_run {left : List Step → Table Json → Nat → Prop}
    (spends : ∀ fuel first rest vars world budget, left (first :: rest) vars budget →
      Spends list name left rest (engine.runStep program fuel home first vars world) budget)
    (fuel : Nat) : ∀ {rest : List Step} {vars : Table Json} {world : World} {budget : Nat},
      left rest vars budget →
        Within name (left []) (engine.run program fuel home list rest vars world) budget := by
  induction fuel with
  | zero => exact fun _ => ⟨Nat.zero_le _, fun ended => by cases ended⟩
  | succ fuel induction =>
      intro rest vars world budget has
      cases rest with
      | nil => exact ⟨Nat.zero_le _, fun _ => ⟨budget, Nat.le_of_eq (Nat.zero_add _), has⟩⟩
      | cons first rest =>
          have step := spends fuel first rest vars world budget has
          rcases engine.run_cons program fuel home list first rest vars world with
            ⟨later, follows, equal⟩ | ⟨ends, equal⟩
          · rcases step.goesOn follows with ⟨less, spent, has⟩
            rw [equal]
            exact (induction has).after spent
          · rw [equal]
            exact ⟨step.within, fun done => absurd (done ▸ .done) (ends rest)⟩

/-- Steps that are run one after the other are run once each. -/
theorem within_straight {steps : List Step} (engine : Engine World) (fuel : Nat)
    (vars : Table Json) (world : World) (holds : program.Holds home list) (subset : steps ⊆ list)
    (apart : program.Apart home name)
    (straight : ∀ step ∈ steps, step.jumps = [])
    (single : ∀ step ∈ steps, step.isPlain ∨ name ∉ namesWithin [step]) :
    Within name (fun vars' _ => ∀ other, other ∉ setsWithin steps →
        vars'.get? other = vars.get? other)
      (engine.run program fuel home list steps vars world) ((namesWithin steps).count name) := by
  let left (rest : List Step) (vars' : Table Json) (budget : Nat) : Prop :=
    rest ⊆ steps ∧ budget = (namesWithin rest).count name ∧
      ∀ other, other ∉ setsWithin steps → vars'.get? other = vars.get? other
  have spends : ∀ fuel first rest vars world budget, left (first :: rest) vars budget →
      Spends list name left rest (engine.runStep program fuel home first vars world) budget := by
    rintro fuel first rest vars' world budget ⟨within, rfl, kept⟩
    have among : first ∈ steps := within List.mem_cons_self
    have site := holds.site (subset among)
    have once : timesRun name (engine.runStep program fuel home first vars' world).events ≤
        (namesWithin [first]).count name := by
      rcases single first among with plain | absent
      · exact timesRun_runStep_le engine fuel vars' world site apart plain
      · exact Nat.le_of_eq ((timesRun_runStep_eq_zero engine fuel vars' world site apart absent).trans
          (List.count_eq_zero.mpr absent).symm)
    have cost : (namesWithin (first :: rest)).count name =
        (namesWithin [first]).count name + (namesWithin rest).count name := by
      rw [← List.singleton_append, namesWithin_append, List.count_append]
    refine ⟨⟨by omega, fun _ => ⟨_, by omega, ?_, rfl, fun other unset => ?_⟩⟩, ?_⟩
    · exact fun step member => within (List.mem_cons_of_mem _ member)
    · have inside : flattenSteps [first] ⊆ flattenSteps steps := by
        simpa using flatten_subset_flattenSteps among
      rw [get?_runStep fun member => unset (setsWithin_subset inside member)]
      exact kept other unset
    · intro target later jumps _
      have own := mem_jumps_of_runStep holds.jumpsLocal (subset among) jumps
      rw [straight first among] at own
      cases own
  have start : left steps vars ((namesWithin steps).count name) :=
    ⟨List.Subset.refl _, rfl, fun _ _ => rfl⟩
  have result : Within name (left []) (engine.run program fuel home list steps vars world) _ :=
    within_run spends fuel start
  refine ⟨result.within, fun ended => ?_⟩
  rcases result.done ended with ⟨less, within, _, _, kept⟩
  exact ⟨less, within, kept⟩

end Engine

/-! ## The number of rounds -/

namespace Rounds

variable {World : Type} {engine : Engine World} {program : Program} {home name : String}
  {rounds : Rounds} {limit : Nat}

structure CountedBy (rounds : Rounds) (engine : Engine World) (limit : Nat) : Prop where
  small : limit < UInt64.size
  start : ∀ vars, engine.evaluate vars (.ofUInt64 rounds.first) = some (.ofUInt64 rounds.first)
  advance : ∀ vars count, count.toNat < limit →
    vars.get? rounds.counter = some (.ofUInt64 count) →
      engine.evaluate vars (evaluate (rounds.counter ++ " + 1")) = some (.ofUInt64 (count + 1))
  limited : ∀ vars count, vars.get? rounds.counter = some (.ofUInt64 count) →
    engine.choose vars rounds.cases = some (some rounds.repeated) → count.toNat < limit

def cost (rounds : Rounds) (name : String) : Nat :=
  (namesWithin rounds.round).count name + (namesWithin rounds.pause).count name

def turn (rounds : Rounds) : List Step :=
  .switch rounds.check rounds.cases :: rounds.behind

theorem switch_mem_steps (rounds : Rounds) :
    .switch rounds.check rounds.cases ∈ rounds.steps :=
  List.mem_append_right _ List.mem_cons_self

theorem exists_first (rounds : Rounds) :
    ∃ first rest, rounds.round = first :: rest ∧ first.name = rounds.target := by
  have leads := rounds.leads
  cases isRound : rounds.round with
  | nil =>
      rw [isRound] at leads
      cases leads
  | cons first rest =>
      rw [isRound] at leads
      exact ⟨first, rest, rfl, Option.some.inj leads⟩

theorem from?_target (rounds : Rounds) :
    from? rounds.target rounds.steps = some (rounds.round ++ rounds.turn) := by
  have split : rounds.steps = (rounds.before ++
      [startCounter rounds.init rounds.counter rounds.first]) ++ (rounds.round ++ rounds.turn) := by
    simp [steps, front, turn]
  have absent : rounds.target ∉ (rounds.before ++
      [startCounter rounds.init rounds.counter rounds.first]).map Step.name := by
    rw [List.map_append]
    exact rounds.fresh
  rcases rounds.exists_first with ⟨first, rest, isRound, isTarget⟩
  rw [split, from?_append absent, isRound, List.cons_append, from?, if_pos isTarget]

/-- The other cases lead behind the switch. -/
theorem subset_behind_of_from? {branch : Case} (other : branch ∈ rounds.earlier ++ rounds.later)
    {target : String} (next : branch.next = some target) {later : List Step}
    (found : from? target rounds.steps = some later) : later ⊆ rounds.behind := by
  have absent : target ∉ (rounds.front ++
      [Step.switch rounds.check rounds.cases]).map Step.name := by
    rw [front, List.map_append, List.map_append]
    exact rounds.forward branch other target next
  rw [steps, ← List.singleton_append, ← List.append_assoc, from?_append absent] at found
  exact from?_subset found

inductive Left (rounds : Rounds) (name : String) (limit : Nat) :
    List Step → Table Json → Nat → Prop
  | before {steps front : List Step} {vars : Table Json} {budget : Nat}
      (subset : front ⊆ rounds.before)
      (split : steps = front ++ startCounter rounds.init rounds.counter rounds.first ::
        (rounds.round ++ rounds.turn))
      (has : budget = (namesWithin rounds.round).count name +
        (limit - rounds.first.toNat) * rounds.cost name) : Left rounds name limit steps vars budget
  | round {steps part : List Step} {vars : Table Json} {count : UInt64} {budget : Nat}
      (subset : part ⊆ rounds.round) (split : steps = part ++ rounds.turn)
      (counted : vars.get? rounds.counter = some (.ofUInt64 count))
      (has : budget = (namesWithin part).count name + (limit - count.toNat) * rounds.cost name) :
      Left rounds name limit steps vars budget
  | behind {steps : List Step} {vars : Table Json} {budget : Nat}
      (subset : steps ⊆ rounds.behind) : Left rounds name limit steps vars budget

structure Own (program : Program) (home : String) (rounds : Rounds) (name : String) : Prop where
  holds : program.Holds home rounds.steps
  apart : program.Apart home name
  other : name ∉ rounds.otherNames

theorem Own.not_mem {step : Step} (own : Own program home rounds name)
    (member : step ∈ rounds.before ++ rounds.behind) : name ∉ namesWithin [step] := by
  intro inside
  refine own.other ?_
  rw [namesWithin, flattenSteps_singleton] at inside
  rcases List.mem_map.mp inside with ⟨inner, nested, equal⟩
  rw [otherNames, List.mem_append, List.mem_append]
  rcases List.mem_append.mp member with member | member
  · exact .inl (.inl (List.mem_map.mpr ⟨inner, flatten_subset_flattenSteps member nested, equal⟩))
  · exact .inr (List.mem_map.mpr ⟨inner, flatten_subset_flattenSteps member nested, equal⟩)

theorem Own.ne (own : Own program home rounds name) :
    rounds.init ≠ name ∧ rounds.check ≠ name ∧ rounds.advance ≠ name := by
  have other := own.other
  simp only [otherNames, List.mem_append, List.mem_cons, not_or] at other
  exact ⟨Ne.symm other.1.2.1, Ne.symm other.1.2.2.1, Ne.symm other.1.2.2.2.1⟩

theorem Own.not_mem_case {branch : Case} (own : Own program home rounds name)
    (member : branch ∈ rounds.earlier ++ rounds.later) : name ∉ namesWithin branch.steps := by
  intro inside
  rcases List.mem_map.mp inside with ⟨step, nested, equal⟩
  refine own.other ?_
  simp only [otherNames, List.mem_append, List.mem_cons]
  exact .inl (.inr (.inr (.inr (.inr (List.mem_map.mpr
    ⟨step, flattenSteps_subset_of_case member nested, equal⟩)))))

/-- A step in front of the counter, or behind the switch, is not counted, and the run goes on
behind it. -/
theorem spends_of_straight {left : List Step → Table Json → Nat → Prop} {fuel : Nat} {step : Step}
    {rest : List Step} {vars : Table Json} {world : World} {budget : Nat}
    (own : Own program home rounds name) (member : step ∈ rounds.before ++ rounds.behind)
    (onwards : ∀ vars, left rest vars budget) :
    Engine.Spends rounds.steps name left rest
      (engine.runStep program fuel home step vars world) budget := by
  have among : step ∈ rounds.steps ∧ step ∈ rounds.before ++ rounds.round ++ rounds.behind := by
    simp only [steps, front, List.mem_append, List.mem_cons] at member ⊢
    tauto
  have none := Engine.timesRun_runStep_eq_zero engine fuel vars world (own.holds.site among.1)
    own.apart (own.not_mem member)
  refine ⟨⟨by omega, fun _ => ⟨budget, by omega, onwards _⟩⟩, fun target later jumps _ => ?_⟩
  have jump := Engine.mem_jumps_of_runStep own.holds.jumpsLocal among.1 jumps
  rw [rounds.straight step among.2] at jump
  cases jump

/-- Running the jumping case advances the counter. -/
theorem within_repeated (fuel : Nat) {vars : Table Json} (world : World) {count : UInt64}
    (own : Own program home rounds name) (counted : rounds.CountedBy engine limit)
    (current : vars.get? rounds.counter = some (.ofUInt64 count)) (below : count.toNat < limit) :
    Engine.Within name
      (fun vars _ => vars.get? rounds.counter = some (.ofUInt64 (count + 1)))
      (engine.run program fuel home rounds.repeated.steps rounds.repeated.steps vars world)
      ((namesWithin rounds.pause).count name) := by
  have holds : program.Holds home rounds.repeated.steps :=
    own.holds.case rounds.switch_mem_steps (List.mem_append_right _ List.mem_cons_self)
  have plain : ∀ step ∈ rounds.pause, step.isPlain := fun step member =>
    rounds.plain step (List.mem_append_right _ member)
  have unset : rounds.counter ∉ setsWithin rounds.pause := by
    have kept := rounds.kept
    rw [setsWithin_append, List.mem_append, not_or] at kept
    exact kept.2
  cases fuel with
  | zero => exact ⟨Nat.zero_le _, fun ended => by cases ended⟩
  | succ fuel =>
      let advanced := vars.insert rounds.counter (.ofUInt64 (count + 1))
      have stored : advanced.get? rounds.counter = some (.ofUInt64 (count + 1)) := by
        rw [Table.get?_insert, if_pos rfl]
      let event : Event := ⟨home, advanceCounter rounds.advance rounds.counter, .empty, false⟩
      have unfolded : engine.run program (fuel + 1) home rounds.repeated.steps
          rounds.repeated.steps vars world =
            (engine.run program fuel home rounds.repeated.steps rounds.pause advanced world).after
              [event] := by
        have evaluated := counted.advance vars count below current
        conv_lhs => unfold Engine.run
        simp [repeated, Case.steps, Engine.step, advanceCounter, Engine.assign, evaluated, event,
          advanced]
      have pause := Engine.within_straight engine fuel advanced world holds
        (List.subset_cons_self _ _) own.apart
        (fun step member => jumps_eq_nil_of_isPlain (plain step member))
        (fun step member => .inl (plain step member))
      have silent : timesRun name [event] = 0 :=
        timesRun_eq_zero fun other member => List.mem_singleton.mp member ▸ own.ne.2.2
      rw [unfolded]
      have behind : Engine.Within name
          (fun vars _ => vars.get? rounds.counter = some (.ofUInt64 (count + 1)))
          (engine.run program fuel home rounds.repeated.steps rounds.pause advanced world)
          ((namesWithin rounds.pause).count name) := by
        refine ⟨pause.within, fun ended => ?_⟩
        rcases pause.done ended with ⟨less, within, kept⟩
        exact ⟨less, within, (kept _ unset).trans stored⟩
      exact behind.after (by omega)

/-- The switch keeps within the budget: it goes round only where rounds are left. -/
theorem spends_switch {fuel : Nat} {vars : Table Json} {world : World} {count : UInt64}
    (own : Own program home rounds name) (counted : rounds.CountedBy engine limit)
    (current : vars.get? rounds.counter = some (.ofUInt64 count)) :
    Engine.Spends rounds.steps name (Left rounds name limit) rounds.behind
      (engine.runStep program fuel home (.switch rounds.check rounds.cases) vars world)
      ((limit - count.toNat) * rounds.cost name) := by
  have silent : ∀ args, timesRun name
      [⟨home, .switch rounds.check rounds.cases, args, false⟩] = 0 := fun args =>
    timesRun_eq_zero fun other member => List.mem_singleton.mp member ▸ own.ne.2.1
  have does := engine.does_runStep program fuel home (.switch rounds.check rounds.cases) vars world
  generalize engine.runStep program fuel home _ vars world = result at does
  cases does with
  | raise =>
      exact ⟨⟨by rw [silent]; exact Nat.zero_le _, fun ended => by cases ended⟩,
        fun _ _ ended => by cases ended⟩
  | pass =>
      exact ⟨⟨by rw [silent]; exact Nat.zero_le _, fun _ => ⟨0, by rw [silent]; exact Nat.zero_le _,
        .behind (List.Subset.refl _)⟩⟩, fun _ _ ended => by cases ended⟩
  | @choose _ _ branch chosen =>
      rcases Engine.exists_split_of_choose chosen with ⟨front, later, split, _, _⟩
      have among : branch ∈ rounds.cases := split ▸ List.mem_append_right _ List.mem_cons_self
      have holds := own.holds.case rounds.switch_mem_steps among
      have stays : ∀ target, (engine.run program fuel home branch.steps branch.steps vars
          world).outcome ≠ .jump target := fun target => Engine.ne_jump_of_run holds.jumpsLocal
      change Engine.Spends _ _ _ _ (((engine.run program fuel home branch.steps branch.steps vars
        world).follow branch.next).after _) _
      by_cases repeats : branch = rounds.repeated
      · subst repeats
        have below := counted.limited vars count current chosen
        have inner := within_repeated fuel world own counted current below
        have advanced : (count + 1).toNat = count.toNat + 1 := by
          have small : count.toNat + 1 < UInt64.size := Nat.lt_of_le_of_lt below counted.small
          rw [UInt64.toNat_add, UInt64.toNat_one, Nat.mod_eq_of_lt small]
        have budget : (limit - count.toNat) * rounds.cost name =
            (limit - (count + 1).toNat) * rounds.cost name + rounds.cost name := by
          rw [← Nat.succ_mul]
          congr 1
          omega
        have cost : rounds.cost name =
            (namesWithin rounds.round).count name + (namesWithin rounds.pause).count name := rfl
        generalize engine.run program fuel home _ _ vars world = ran at inner stays
        have within := inner.within
        refine ⟨⟨?_, fun ended => ?_⟩, fun target later ended found => ?_⟩
        · rw [Result.events_after, Result.events_follow, timesRun_append, silent]
          omega
        · cases (Result.eq_done_of_follow ended).2
        · rcases Result.eq_next_of_follow ended with ⟨done, next⟩ | jumps
          · rcases inner.done done with ⟨less, spent, current⟩
            cases next
            rw [rounds.from?_target] at found
            cases found
            refine ⟨(namesWithin rounds.round).count name +
              (limit - (count + 1).toNat) * rounds.cost name, ?_,
              .round (List.Subset.refl _) rfl ?_ rfl⟩
            · rw [Result.events_after, Result.events_follow, timesRun_append, silent]
              omega
            · change (ran.follow _).vars.get? _ = _
              rw [Result.vars_follow]
              exact current
          · exact absurd jumps (stays target)
      · have other : branch ∈ rounds.earlier ++ rounds.later := by
          simp only [cases, List.mem_append, List.mem_cons] at among ⊢
          tauto
        have none := Engine.timesRun_run_eq_zero engine fuel vars world holds.sites own.apart
          (own.not_mem_case other)
        generalize engine.run program fuel home _ _ vars world = ran at none stays
        refine ⟨⟨?_, fun _ => ⟨0, ?_, .behind (List.Subset.refl _)⟩⟩, fun target later ended found =>
          ⟨0, ?_, ?_⟩⟩
        iterate 3
          rw [Result.events_after, Result.events_follow, timesRun_append, silent, none]
          exact Nat.zero_le _
        rcases Result.eq_next_of_follow ended with ⟨_, next⟩ | jumps
        · exact .behind (subset_behind_of_from? other next found)
        · exact absurd jumps (stays target)

/-- Every step of the list keeps within the budget. -/
theorem spends_left (own : Own program home rounds name) (counted : rounds.CountedBy engine limit)
    {fuel : Nat} {first : Step} {rest : List Step} {vars : Table Json} {world : World}
    {budget : Nat} (left : Left rounds name limit (first :: rest) vars budget) :
    Engine.Spends rounds.steps name (Left rounds name limit) rest
      (engine.runStep program fuel home first vars world) budget := by
  cases left with
  | before subset split has =>
      rename_i front
      cases front with
      | nil =>
          rcases List.cons.inj split with ⟨rfl, rfl⟩
          have started := counted.start vars
          have result : engine.runStep program fuel home
              (startCounter rounds.init rounds.counter rounds.first) vars world =
                ⟨.done, vars.insert rounds.counter (.ofUInt64 rounds.first), world,
                  [⟨home, startCounter rounds.init rounds.counter rounds.first, .empty, false⟩]⟩ := by
            simp [Engine.runStep, Engine.step, startCounter, Engine.assign, started]
          rw [result]
          have silent : timesRun name
              [⟨home, startCounter rounds.init rounds.counter rounds.first, .empty, false⟩] = 0 :=
            timesRun_eq_zero fun other member => List.mem_singleton.mp member ▸ own.ne.1
          refine ⟨⟨by rw [silent]; exact Nat.zero_le _, fun _ => ⟨budget, ?_, ?_⟩⟩,
            fun _ _ ended => by cases ended⟩
          · rw [silent]
            exact Nat.le_of_eq (Nat.zero_add _)
          · refine .round (List.Subset.refl _) rfl ?_ has
            rw [Table.get?_insert, if_pos rfl]
      | cons step others =>
          rcases List.cons.inj split with ⟨rfl, rfl⟩
          refine spends_of_straight own (List.mem_append_left _ (subset List.mem_cons_self)) ?_
          have others : others ⊆ rounds.before :=
            List.Subset.trans (List.subset_cons_self _ _) subset
          exact fun vars => .before others rfl has
  | round subset split current has =>
      rename_i part count
      cases part with
      | nil =>
          rcases List.cons.inj split with ⟨rfl, rfl⟩
          rw [has]
          simpa [namesWithin, flattenSteps] using spends_switch own counted current
      | cons step others =>
          rcases List.cons.inj split with ⟨rfl, rfl⟩
          have member : first ∈ rounds.round := subset List.mem_cons_self
          have among : first ∈ rounds.steps ∧
              first ∈ rounds.before ++ rounds.round ++ rounds.behind := by
            simp only [steps, front, List.mem_append, List.mem_cons]
            tauto
          have once := Engine.timesRun_runStep_le engine fuel vars world
            (own.holds.site among.1) own.apart
            (rounds.plain first (List.mem_append_left _ member))
          have cost : (namesWithin (first :: others)).count name =
              (namesWithin [first]).count name + (namesWithin others).count name := by
            rw [← List.singleton_append, namesWithin_append, List.count_append]
          have unset : rounds.counter ∉ setsWithin [first] := by
            refine fun isSet => rounds.kept (setsWithin_subset ?_ isSet)
            rw [flattenSteps_singleton]
            exact flatten_subset_flattenSteps (List.mem_append_left _ member)
          refine ⟨⟨by omega, fun _ => ⟨(namesWithin others).count name +
            (limit - count.toNat) * rounds.cost name, by omega, .round ?_ rfl ?_ rfl⟩⟩, ?_⟩
          · exact fun step inside => subset (List.mem_cons_of_mem _ inside)
          · rw [Engine.get?_runStep unset]
            exact current
          · intro target later jumps _
            have jump := Engine.mem_jumps_of_runStep own.holds.jumpsLocal among.1 jumps
            rw [rounds.straight first among.2] at jump
            cases jump
  | behind subset =>
      refine spends_of_straight own (List.mem_append_right _ (subset List.mem_cons_self)) ?_
      exact fun vars => .behind fun step member => subset (List.mem_cons_of_mem _ member)

/-- A run from the beginning of the list runs the steps of a name once more than it goes round, or
as often if only the jumping case holds them. -/
theorem timesRun_run_le (own : Own program home rounds name)
    (counted : rounds.CountedBy engine limit) (fuel : Nat) (vars : Table Json) (world : World) :
    timesRun name (engine.run program fuel home rounds.steps rounds.steps vars world).events ≤
      (namesWithin rounds.round).count name + (limit - rounds.first.toNat) * rounds.cost name := by
  have split : rounds.steps = rounds.before ++
      startCounter rounds.init rounds.counter rounds.first :: (rounds.round ++ rounds.turn) := by
    simp [steps, front, turn]
  exact (Engine.within_run (fun _ _ _ _ _ _ left => spends_left own counted left) fuel
    (.before (List.Subset.refl _) split rfl)).within

end Rounds

end FlowCompiler
