import FlowCompiler.Proofs.BackJumps

namespace FlowCompiler

/-! Every jump back is bounded, in whatever flow the prompt or the subflow stands and however often
its block is entered. -/

open Lowering Step

/-! ## Sites -/

namespace Compile

section

variable {settings : Settings} {lookup : BranchLookup} {flow : Flow} {program : Program}

theorem isPlain_or_emittedAmong (built : build settings lookup flow = .ok program)
    {emission : Emission} (member : emission ∈ emissions settings lookup flow) :
    emission.visit = none ∧ emission.step.isPlain ∨
      Walk.EmittedAmong settings (visits lookup flow) emission := by
  rw [emissions] at member
  rw [visits]
  rcases exists_origin_of_build built with ⟨none, _⟩ | ⟨origin, found, proper, _⟩
  · rw [none] at member
    rw [List.mem_singleton.mp member]
    exact .inl ⟨rfl, rfl⟩
  · rw [found] at member ⊢
    rcases List.mem_append.mp member with fixed | member
    · rcases List.mem_map.mp fixed with ⟨site, among, rfl⟩
      have plain : (fixedSites settings flow origin.branch).all fun site => site.2.isPlain := rfl
      exact .inl ⟨rfl, List.all_eq_true.mp plain site among⟩
    · exact .inr (Walk.emittedAmong_of_mem_emissions settings _ _ _ proper.shaped emission member)

theorem isPlain_or_exists_formed (built : build settings lookup flow = .ok program)
    {site : String × Step} (member : site ∈ program.sites) :
    site.2.isPlain ∨ ∃ visit ∈ visits lookup flow, Walk.Formed settings visit.names site.2 := by
  rcases exists_emission_of_mem_sites built member with ⟨emission, among, rfl⟩
  rcases isPlain_or_emittedAmong built among with ⟨_, plain⟩ | ⟨visit, isVisit, _, emitted⟩
  · exact .inl plain
  · exact .inr ⟨visit, isVisit, emitted.formed⟩

theorem nodup_siteNames (built : build settings lookup flow = .ok program) :
    ((program.sites.map fun site => site.2.name).filter (· ∉ closingNames)).Nodup := by
  have names := ((sites_perm_emissions built).map fun site => site.2.name).filter
    (· ∉ closingNames)
  rw [List.map_map] at names
  exact names.nodup_iff.mpr (nodup_openNames built)

/-- Steps of the same name are the same, unless they end routines. -/
theorem eq_of_name_eq (built : build settings lookup flow = .ok program)
    {left right : String × Step} (leftSite : left ∈ program.sites)
    (rightSite : right ∈ program.sites) (equal : left.2.name = right.2.name)
    (notClosing : left.2.name ∉ closingNames) : left = right := by
  have distinct := nodup_siteNames built
  rw [List.filter_map] at distinct
  refine List.inj_on_of_nodup_map distinct (List.mem_filter.mpr ⟨leftSite, ?_⟩)
    (List.mem_filter.mpr ⟨rightSite, ?_⟩) equal
  · exact decide_eq_true notClosing
  · have other : right.2.name ∉ closingNames := equal ▸ notClosing
    exact decide_eq_true other

/-- A name does not occur twice among the steps that stand in one step. -/
theorem count_namesWithin_le_one (built : build settings lookup flow = .ok program)
    {home name blockName : String} {steps : List Step}
    (site : (home, .block blockName steps) ∈ program.sites) (notClosing : name ∉ closingNames) :
    (namesWithin steps).count name ≤ 1 := by
  rcases Program.mem_sites.mp site with ⟨routine, entry, inside⟩
  have inBlock : (flattenSteps steps).Sublist (flattenSteps routine.steps) :=
    (List.sublist_cons_self _ _).trans (flatten_sublist_of_mem_steps routine.steps inside)
  have inProgram : (sitesIn home routine.steps).Sublist program.sites :=
    List.sublist_flatten_of_mem
      (List.mem_map_of_mem (f := fun entry => sitesIn entry.1 entry.2.steps) entry)
  have names : (namesWithin steps).Sublist (program.sites.map fun site => site.2.name) := by
    have mapped := ((inBlock.map (Prod.mk home)).trans inProgram).map fun site => site.2.name
    rwa [List.map_map] at mapped
  refine Nat.le_trans (names.count_le name) ?_
  rw [← List.count_filter (p := (· ∉ closingNames)) (decide_eq_true notClosing)]
  exact List.nodup_iff_count_le_one.mp (nodup_siteNames built) name

theorem acyclic_of_build (built : build settings lookup flow = .ok program) (name : String) :
    ¬ Relation.TransGen program.Calls name name := by
  rcases exists_origin_of_build built with ⟨_, empty⟩ | ⟨origin, _, proper, entries⟩
  · exact empty ▸ (isTree_emptyProgram settings).acyclic name
  · exact (isTree_of_entries proper entries).acyclic name

/-- A routine runs no steps of the routines that lead to it. -/
theorem apart_of_mem_sites (built : build settings lookup flow = .ok program) {home : String}
    {step : Step} (site : (home, step) ∈ program.sites) (notClosing : step.name ∉ closingNames) :
    program.Apart home step.name := by
  intro callee called other otherSite equal
  have same := eq_of_name_eq built site otherSite equal.symm notClosing
  have own : home = callee := congrArg Prod.fst same
  exact acyclic_of_build built home (own ▸ called)

theorem step_not_closing (built : build settings lookup flow = .ok program) {visit : Visit}
    (among : visit ∈ visits lookup flow) {suffix : String} (wordy : Text.Wordy suffix) :
    visit.names.step suffix ∉ closingNames := by
  intro closing
  have words : ∀ name ∈ closingNames, Text.Wordy name := by decide
  have owns : visit.names.Owns (visit.names.step suffix) := .step wordy
  exact owns.not_wordy ((numbered_visits built).proper visit among) (words _ closing)

/-- A variable of a visit is only set by steps that are emitted for it. -/
theorem countsWith_of_owns (built : build settings lookup flow = .ok program) {visit : Visit}
    (among : visit ∈ visits lookup flow) {suffix : String} (wordy : Text.Wordy suffix)
    {site : String × Step} (member : site ∈ program.sites)
    (isSet : visit.names.step suffix ∈ site.2.sets) : visit.names.CountsWith site.2 := by
  have numbered := numbered_visits built
  have owns : visit.names.Owns (visit.names.step suffix) := .step wordy
  have unshared : visit.names.step suffix ∉
      [Registry.apiBase, Registry.loopItem, Registry.loopIndex] := by
    intro shared
    have words : ∀ name ∈ [Registry.apiBase, Registry.loopItem, Registry.loopIndex],
        Text.Wordy name := by decide
    exact owns.not_wordy (numbered.proper visit among) (words _ shared)
  rcases exists_emission_of_mem_sites built member with ⟨emission, emitted, rfl⟩
  rcases exists_owner_of_sets built emitted isSet unshared with ⟨owner, isOwner, isVisit, owned⟩
  have same : owner = visit := List.inj_on_of_nodup_map numbered.distinct isOwner among
    (owned.number_eq (numbered.proper owner isOwner) (numbered.proper visit among) owns)
  rcases isPlain_or_emittedAmong built emitted with ⟨none, _⟩ | ⟨other, _, equal, formed⟩
  · rw [none] at isVisit
    cases isVisit
  · rw [isVisit] at equal
    cases equal
    exact same ▸ formed.countsWith (numbered.proper owner isOwner)

end

end Compile

/-! ## Rounds of blocks -/

structure Engine.Counts {World : Type} (engine : Engine World) (settings : Settings)
    (names : Names) : Prop where
  number : ∀ vars value, engine.evaluate vars (.ofUInt64 value) = some (.ofUInt64 value)
  increment : ∀ counter ∈ [Fork.attempts names, Subflow.polls names], ∀ vars count,
    count.toNat < UInt32.size → vars.get? counter = some (.ofUInt64 count) →
      engine.evaluate vars (Expression.evaluate (counter ++ " + 1")) = some (.ofUInt64 (count + 1))
  below : ∀ vars count, vars.get? (Fork.attempts names) = some (.ofUInt64 count) →
    engine.evaluate vars (Expression.evaluate (Fork.received names ++ " and " ++
      Fork.attempts names ++ " < " ++ toString Fork.maxPromptAttempts)) = some (.bool true) →
        count.toNat < Fork.maxPromptAttempts
  reached : ∀ vars count, vars.get? (Subflow.polls names) = some (.ofUInt64 count) →
    settings.subflowMaxPolls.toNat ≤ count.toNat →
      engine.evaluate vars (Expression.evaluate (Subflow.polls names ++ " >= " ++
        toString settings.subflowMaxPolls.toNat)) = some (.bool true)

section

variable {World : Type} {engine : Engine World} {settings : Settings} {names : Names}
  {rounds : Rounds}

/-- In front of the jumping case, no case holds. -/
theorem Rounds.fails_of_choose {vars : Table Json}
    (chosen : engine.choose vars rounds.cases = some (some rounds.repeated)) :
    ∀ other ∈ rounds.earlier, ∃ condition ∈ other.condition,
      engine.evaluate vars condition ≠ some (.bool true) := by
  rcases Engine.exists_split_of_choose chosen with ⟨front, later, split, _, fails⟩
  have different : rounds.repeated ∉ rounds.earlier := by
    intro member
    refine rounds.forward _ (List.mem_append_left _ member) rounds.target rfl ?_
    rcases rounds.exists_first with ⟨first, rest, isRound, isTarget⟩
    simp [isRound, isTarget]
  intro other member
  refine fails other ?_
  rcases List.append_eq_append_iff.mp split with ⟨between, isFront, _⟩ | ⟨between, isEarlier, rest⟩
  · exact isFront ▸ List.mem_append_left _ member
  · cases between with
    | nil => exact (isEarlier.trans (List.append_nil _)) ▸ member
    | cons first others =>
        rw [← (List.cons.inj rest).1] at isEarlier
        exact absurd (isEarlier ▸ List.mem_append_right _ List.mem_cons_self) different

theorem Fork.Retries.countedBy (retries : Retries names rounds)
    (counts : engine.Counts settings names) : rounds.CountedBy engine maxPromptAttempts := by
  constructor
  case small => decide
  case start => exact fun vars => counts.number vars _
  case advance =>
    intro vars count below current
    rw [retries.counter] at current ⊢
    refine counts.increment _ List.mem_cons_self vars count (Nat.lt_trans below ?_) current
    decide
  case limited =>
    intro vars count current chosen
    rw [retries.counter] at current
    rcases Engine.exists_split_of_choose chosen with ⟨_, _, _, own, _⟩
    exact counts.below vars count current (own _ retries.condition)

theorem Subflow.Polls.countedBy (polled : Polls settings names rounds)
    (counts : engine.Counts settings names) :
    rounds.CountedBy engine settings.subflowMaxPolls.toNat := by
  have small : settings.subflowMaxPolls.toNat < UInt32.size := settings.subflowMaxPolls.toNat_lt
  constructor
  case small => exact Nat.lt_trans small (by decide)
  case start => exact fun vars => counts.number vars _
  case advance =>
    intro vars count below current
    rw [polled.counter] at current ⊢
    exact counts.increment _ (List.mem_cons_of_mem _ List.mem_cons_self) vars count (by omega)
      current
  case limited =>
    intro vars count current chosen
    rw [polled.counter] at current
    rcases polled.guard with ⟨guard, among, _, condition⟩
    rcases Rounds.fails_of_choose chosen guard among with ⟨tested, isCondition, fails⟩
    rw [condition] at isCondition
    cases isCondition
    exact Nat.lt_of_not_le fun above => fails (counts.reached vars count current above)

end

/-! ## Entries of blocks -/

def Fork.isPrompt : Fork → Bool
  | .text _ | .buttons _ | .list _ => true
  | .split _ | .branch _ => false

theorem Fork.send_mem_of_isPrompt (settings : Settings) (names : Names) (registry : Registry)
    {fork : Fork} (prompt : fork.isPrompt) :
    names.step "send" ∈ namesWithin (fork.openingSteps settings names registry) := by
  rw [namesWithin_openingSteps]
  refine List.mem_map_of_mem ?_
  cases fork with
  | split | branch => cases prompt
  | text | buttons | list => exact List.mem_append_right _ List.mem_cons_self

namespace Compile

variable {settings : Settings} {lookup : BranchLookup} {flow : Flow} {program : Program}
  {home : String} {steps : List Step}

theorem holds_of_block (built : build settings lookup flow = .ok program) {name : String}
    (site : (home, .block name steps) ∈ program.sites) : program.Holds home steps := by
  refine ⟨fun step inside => Program.mem_sites_of_mem_flatten site (List.mem_cons_of_mem _ inside),
    ?_⟩
  rcases isPlain_or_exists_formed built site with plain | ⟨visit, _, formed⟩
  · cases plain
  · generalize isBlock : Step.block name steps = step at formed
    cases formed with
    | plain plain =>
        rw [← isBlock] at plain
        cases plain
    | block inside =>
        cases isBlock
        exact inside.jumpsLocal
    | choice | loop => cases isBlock

variable {visit : Visit} {suffix : String}

theorem apart_of_mem_namesWithin (built : build settings lookup flow = .ok program) {name : String}
    (holds : program.Holds home steps) (notClosing : name ∉ closingNames)
    (member : name ∈ namesWithin steps) : program.Apart home name := by
  rcases List.mem_map.mp member with ⟨step, inside, rfl⟩
  exact apart_of_mem_sites built (holds.sites step inside) notClosing

/-- The names of the steps that are run in every round are not used elsewhere. -/
theorem own_of_block (built : build settings lookup flow = .ok program)
    (among : visit ∈ visits lookup flow) {rounds : Rounds}
    (site : (home, .block visit.names.result rounds.steps) ∈ program.sites)
    (wordy : Text.Wordy suffix) (member : visit.names.step suffix ∈
      namesWithin rounds.round ++ namesWithin rounds.pause) :
    Rounds.Own program home rounds (visit.names.step suffix) := by
  have holds := holds_of_block built site
  have notClosing := step_not_closing built among wordy
  have inside := rounds.namesWithin_steps_perm.symm.subset (List.mem_append_left _ member)
  exact ⟨holds, apart_of_mem_namesWithin built holds notClosing inside,
    Rounds.not_mem_otherNames (count_namesWithin_le_one built site notClosing) member⟩

/-- An entry of a block runs the steps in it, besides the block itself. -/
theorem timesRun_block {World : Type} {engine : Engine World} {names : Names} {fuel : Nat}
    {vars : Table Json} {world : World} :
    timesRun (names.step suffix)
        (engine.runStep program fuel home (.block names.result steps) vars world).events =
      timesRun (names.step suffix)
        (engine.run program fuel home steps steps vars world).events := by
  have silent : timesRun (names.step suffix)
      [⟨home, .block names.result steps, .empty, false⟩] = 0 :=
    timesRun_eq_zero fun event member =>
      List.mem_singleton.mp member ▸ (names.step_ne_result suffix).symm
  rw [Engine.runStep, Engine.step, Result.events_after, timesRun_append, silent, Nat.zero_add]

/-- The steps go round for a visit: they stand in its block, and no other step of the program sets
their counter. -/
structure GoesRound (settings : Settings) (program : Program) (home : String) (visit : Visit)
    (rounds : Rounds) : Prop where
  kind : Fork.Retries visit.names rounds ∨ Subflow.Polls settings visit.names rounds
  site : (home, .block visit.names.result rounds.steps) ∈ program.sites
  only : ∀ site ∈ program.sites, rounds.counter ∈ site.2.sets →
    site = (home, startCounter rounds.init rounds.counter rounds.first) ∨
      site = (home, advanceCounter rounds.advance rounds.counter)

/-- The rounds of a visit are counted by no other steps than their own. -/
theorem goesRound_of_block (built : build settings lookup flow = .ok program)
    (among : visit ∈ visits lookup flow) {rounds : Rounds}
    (kind : Fork.Retries visit.names rounds ∨ Subflow.Polls settings visit.names rounds)
    (site : (home, .block visit.names.result rounds.steps) ∈ program.sites) :
    GoesRound settings program home visit rounds := by
  refine ⟨kind, site, fun other member isSet => ?_⟩
  have holds := holds_of_block built site
  have start : (home, startCounter rounds.init rounds.counter rounds.first) ∈ program.sites :=
    holds.site (List.mem_append_left _ (List.mem_append_right _ List.mem_cons_self))
  have advance : (home, advanceCounter rounds.advance rounds.counter) ∈ program.sites := by
    have repeated := holds.case rounds.switch_mem_steps
      (List.mem_append_right _ List.mem_cons_self : rounds.repeated ∈ rounds.cases)
    exact repeated.site List.mem_cons_self
  have parts : other.2.name = rounds.init ∧ rounds.init ∉ closingNames ∨
      other.2.name = rounds.advance ∧ rounds.advance ∉ closingNames := by
    rcases kind with retries | polled
    · rw [retries.counter] at isSet
      have counts := (countsWith_of_owns built among (by decide) member isSet).attempts isSet
      rw [retries.init, retries.advance]
      exact counts.imp (fun equal => ⟨equal, step_not_closing built among (by decide)⟩)
        (fun equal => ⟨equal, step_not_closing built among (by decide)⟩)
    · rw [polled.counter] at isSet
      have counts := (countsWith_of_owns built among (by decide) member isSet).polls isSet
      rw [polled.init, polled.advance]
      exact counts.imp (fun equal => ⟨equal, step_not_closing built among (by decide)⟩)
        (fun equal => ⟨equal, step_not_closing built among (by decide)⟩)
  rcases parts with ⟨equal, notClosing⟩ | ⟨equal, notClosing⟩
  · exact .inl (eq_of_name_eq built member start equal (equal ▸ notClosing))
  · exact .inr (eq_of_name_eq built member advance equal (equal ▸ notClosing))

section

variable {World : Type} {engine : Engine World} (fuel : Nat) (vars : Table Json) (world : World)

/-- An entry of a block that goes round runs a step of the round once more than it goes round, and a
step of the jumping case as often as that. -/
theorem timesRun_rounds_le (built : build settings lookup flow = .ok program)
    (among : visit ∈ visits lookup flow) {rounds : Rounds} {limit : Nat}
    (site : (home, .block visit.names.result rounds.steps) ∈ program.sites)
    (counted : rounds.CountedBy engine limit) (wordy : Text.Wordy suffix)
    (member : visit.names.step suffix ∈ namesWithin rounds.round ++ namesWithin rounds.pause) :
    timesRun (visit.names.step suffix) (engine.runStep program fuel home
      (.block visit.names.result rounds.steps) vars world).events ≤
        (namesWithin rounds.round).count (visit.names.step suffix) +
          (limit - rounds.first.toNat) ∧
    rounds.cost (visit.names.step suffix) = 1 := by
  have own := own_of_block built among site wordy member
  have once := count_namesWithin_le_one built site (step_not_closing built among wordy)
  rw [rounds.namesWithin_steps_perm.count_eq, List.count_append, List.count_append] at once
  have some := List.count_pos_iff.mpr member
  rw [List.count_append] at some
  have cost : rounds.cost (visit.names.step suffix) = 1 := by
    rw [Rounds.cost]
    omega
  have bound := Rounds.timesRun_run_le own counted fuel vars world
  rw [cost, Nat.mul_one] at bound
  rw [timesRun_block]
  exact ⟨bound, cost⟩

theorem timesRun_send_le_one (built : build settings lookup flow = .ok program)
    (among : visit ∈ visits lookup flow) {registry : Registry} {choice : Fork}
    (prompt : choice.isPrompt) (once : ¬ choice.asksAgain) (site : (home, .block visit.names.result
      (choice.steps settings visit.names registry choice.exits)) ∈ program.sites) :
    timesRun (visit.names.step "send") (engine.runStep program fuel home (.block visit.names.result
      (choice.steps settings visit.names registry choice.exits)) vars world).events ≤ 1 := by
  have holds := holds_of_block built site
  have notClosing := step_not_closing built among (by decide : Text.Wordy "send")
  have few := count_namesWithin_le_one built site notClosing
  have opening := Fork.send_mem_of_isPrompt settings visit.names registry prompt
  have inside : visit.names.step "send" ∈
      namesWithin (choice.steps settings visit.names registry choice.exits) := by
    rw [Fork.steps, namesWithin_append]
    exact List.mem_append_left _ opening
  rw [timesRun_block]
  refine Nat.le_trans (Engine.within_straight engine fuel vars world holds (List.Subset.refl _)
    (apart_of_mem_namesWithin built holds notClosing inside) (Fork.jumps_of_mem_steps once)
      ?_).within few
  intro step member
  rcases List.mem_append.mp member with member | member
  · exact .inl (List.all_eq_true.mp (choice.isPlain_openingSteps settings visit.names registry) step
      member)
  · refine .inr fun again => ?_
    rw [Fork.steps, namesWithin_append, List.count_append] at few
    rw [List.mem_singleton.mp member] at again
    have first := List.count_pos_iff.mpr opening
    have second := List.count_pos_iff.mpr again
    omega

end

structure JumpsBounded (settings : Settings) (lookup : BranchLookup) (flow : Flow)
    (program : Program) : Prop where
  /-- Every jump back goes round for a visit, and is the only one in its list. -/
  counted : ∀ entry ∈ program.routines.entries, ∀ list ∈ allLists entry.2.steps,
    ∀ front branch target, JumpsBack list.steps front branch target →
      ∃ visit ∈ visits lookup flow, ∃ rounds, GoesRound settings program entry.1 visit rounds ∧
        list.steps = rounds.steps ∧ front = rounds.front ∧ branch = rounds.repeated ∧
          target = rounds.target
  /-- Whatever is replied, an entry of the block of a prompt sends it a few times at most, -/
  sends : ∀ visit ∈ visits lookup flow, ∀ home registry, ∀ choice : Fork, choice.isPrompt →
    ∀ block, block = Step.block visit.names.result
        (choice.steps settings visit.names registry choice.exits) →
      (home, block) ∈ program.sites →
        ∀ (World : Type) (engine : Engine World), engine.Counts settings visit.names →
          ∀ fuel vars world, timesRun (visit.names.step "send")
            (engine.runStep program fuel home block vars world).events ≤ Fork.maxPromptAttempts
  /-- and whatever the state of a subflow is, an entry of its block asks for it no more often than
  is set, and once more. -/
  polls : ∀ visit ∈ visits lookup flow, ∀ home registry, ∀ called : Subflow, ∀ exits scope,
    ∀ next : Walk Visit, ∀ block, block = Step.block visit.names.result
        (called.steps settings visit.names registry exits ++ next.steps settings scope) →
      (home, block) ∈ program.sites →
        ∀ (World : Type) (engine : Engine World), engine.Counts settings visit.names →
          ∀ fuel vars world,
            let events := (engine.runStep program fuel home block vars world).events
            timesRun (visit.names.step "poll") events ≤ settings.subflowMaxPolls.toNat + 1 ∧
            timesRun (visit.names.step "wait") events ≤ settings.subflowMaxPolls.toNat

end Compile

/-- Every jump back in a compiled program is the retry of a prompt or the poll of a subflow. It is
counted by a variable that nothing else sets, and so an entry of the block bounds how often steps
are run, whatever the world around the engine answers. -/
theorem compiled_jumps_bounded {settings : Settings} {lookup : BranchLookup} {flow : Flow}
    {program : Program} (compiled : compile settings lookup flow = .ok program) :
    Compile.JumpsBounded settings lookup flow program := by
  rw [compile_eq_build] at compiled
  constructor
  case counted =>
    intro entry member list among front branch target jump
    rcases List.mem_cons.mp among with equal | nested
    · -- The steps of a walk stand in blocks, and so do their switches.
      rcases Compile.exists_framed compiled member with ⟨scope, part, framed⟩
      rcases framed.steps with ⟨first, last, frame, isSteps⟩
      rw [equal, isSteps] at jump
      refine absurd jump (not_jumpsBack_of_straight fun step member => ?_)
      rcases List.mem_append.mp member with member | member
      · rcases List.mem_append.mp member with member | member
        · exact jumps_of_all_isPlain frame.isPlain.1 step member
        · exact Walk.jumps_of_mem_steps step member
      · exact jumps_of_all_isPlain frame.isPlain.2 step member
    · rcases exists_owner_of_mem _ nested with ⟨step, inside, own⟩
      have site : (entry.1, step) ∈ program.sites :=
        Program.mem_sites.mpr ⟨entry.2, member, inside⟩
      rcases Compile.isPlain_or_exists_formed compiled site with plain | ⟨visit, isVisit, formed⟩
      · rw [ownLists_eq_nil_of_isPlain plain] at own
        cases own
      · have formed : Walk.Formed settings visit.names step := formed
        rcases formed.exists_rounds own jump with ⟨rounds, isSteps, isBlock, kind⟩
        rw [isBlock] at site
        rw [isSteps] at jump
        exact ⟨visit, isVisit, rounds, Compile.goesRound_of_block compiled isVisit kind site,
          isSteps, Rounds.eq_of_jumpsBack jump⟩
  case sends =>
    rintro visit among home registry choice prompt block rfl site World engine counts fuel vars
      world
    by_cases again : choice.asksAgain
    · have retries := Fork.retries_rounds settings visit.names registry again
      rw [Fork.steps_eq_rounds again] at site ⊢
      rcases retries.sends with ⟨sent, awaited, _, isRound⟩
      have member : visit.names.step "send" ∈ namesWithin
          (choice.rounds settings visit.names registry again).round := by
        rw [isRound]
        exact List.mem_cons_self
      rcases Compile.timesRun_rounds_le fuel vars world compiled among site
        (retries.countedBy counts) (by decide) (List.mem_append_left _ member) with ⟨bound, cost⟩
      refine Nat.le_trans bound ?_
      rw [Rounds.cost] at cost
      rw [retries.first, Fork.maxPromptAttempts]
      change _ + 4 ≤ 5
      omega
    · refine Nat.le_trans (Compile.timesRun_send_le_one fuel vars world compiled among prompt
        again site) ?_
      decide
  case polls =>
    rintro visit among home registry called exits scope next block rfl site World engine counts fuel
      vars world
    have straight : ∀ step ∈ next.steps settings scope, step.jumps = [] := Walk.jumps_of_mem_steps
    have polled := Subflow.polls_rounds settings visit.names registry called exits straight
    rw [Subflow.steps_eq_rounds straight] at site ⊢
    let rounds := called.rounds settings visit.names registry exits _ straight
    have isRound : namesWithin rounds.round = [visit.names.step "poll"] := rfl
    have isPause : namesWithin rounds.pause = [visit.names.step "wait"] := rfl
    have first : rounds.first.toNat = 0 := rfl
    have asked := Compile.timesRun_rounds_le fuel vars world compiled among site
      (polled.countedBy counts) (by decide : Text.Wordy "poll")
      (List.mem_append_left _ (isRound ▸ List.mem_cons_self))
    have waited := Compile.timesRun_rounds_le fuel vars world compiled among site
      (polled.countedBy counts) (by decide : Text.Wordy "wait")
      (List.mem_append_right _ (isPause ▸ List.mem_cons_self))
    rw [isRound, first, List.count_singleton_self] at asked
    rw [isRound, first, List.count_eq_zero.mpr
      (by simpa using visit.names.step_ne (by decide))] at waited
    exact ⟨by omega, by omega⟩

/-! ## A sample -/

namespace Engine

/-! An engine for one visit, in a world where every reply fits nothing and no subflow ends. -/

def countingExpressions (settings : Settings) (names : Names) : List Json :=
  [Expression.evaluate (Fork.attempts names ++ " + 1"),
    Expression.evaluate (Subflow.polls names ++ " + 1"),
    Expression.evaluate (Fork.received names ++ " and " ++ Fork.attempts names ++ " < " ++
      toString Fork.maxPromptAttempts),
    Expression.evaluate (Subflow.polls names ++ " >= " ++
      toString settings.subflowMaxPolls.toNat)]

def withCount (vars : Table Json) (counter : String) (use : UInt64 → Json) : Option Json :=
  match vars.get? counter with
  | some (.number (.natural count)) => some (use count)
  | _ => none

def tally (settings : Settings) (names : Names) : Engine Unit where
  evaluate vars value :=
    match (countingExpressions settings names).idxOf value with
    | 0 => withCount vars (Fork.attempts names) fun count => .ofUInt64 (count + 1)
    | 1 => withCount vars (Subflow.polls names) fun count => .ofUInt64 (count + 1)
    | 2 => withCount vars (Fork.attempts names) fun count =>
        .bool (count.toNat < Fork.maxPromptAttempts)
    | 3 => withCount vars (Subflow.polls names) fun count =>
        .bool (settings.subflowMaxPolls.toNat ≤ count.toNat)
    | _ => some value
  perform world _ _ := (some .null, world)

theorem withCount_eq {vars : Table Json} {counter : String} {use : UInt64 → Json} {count : UInt64}
    (current : vars.get? counter = some (.ofUInt64 count)) :
    withCount vars counter use = some (use count) := by
  rw [withCount, current]
  rfl

theorem counts_tally {settings : Settings} {names : Names}
    (distinct : (countingExpressions settings names).Nodup) :
    (tally settings names).Counts settings names := by
  constructor
  case number =>
    intro vars value
    have other : (countingExpressions settings names).idxOf (.ofUInt64 value) = 4 :=
      List.idxOf_of_notMem (by simp [countingExpressions, Expression.evaluate, Json.ofUInt64])
    simp only [tally, other]
  case increment =>
    intro counter among vars count _ current
    rcases List.mem_pair.mp among with rfl | rfl
    · have place : (countingExpressions settings names).idxOf
          (Expression.evaluate (Fork.attempts names ++ " + 1")) = 0 :=
        distinct.idxOf_getElem 0 (by decide : 0 < 4)
      simp only [tally, place, withCount_eq current]
    · have place : (countingExpressions settings names).idxOf
          (Expression.evaluate (Subflow.polls names ++ " + 1")) = 1 :=
        distinct.idxOf_getElem 1 (by decide : 1 < 4)
      simp only [tally, place, withCount_eq current]
  case below =>
    intro vars count current holds
    have place : (countingExpressions settings names).idxOf (Expression.evaluate
        (Fork.received names ++ " and " ++ Fork.attempts names ++ " < " ++
          toString Fork.maxPromptAttempts)) = 2 :=
      distinct.idxOf_getElem 2 (by decide : 2 < 4)
    simp only [tally, place, withCount_eq current] at holds
    simpa using holds
  case reached =>
    intro vars count current enough
    have place : (countingExpressions settings names).idxOf (Expression.evaluate
        (Subflow.polls names ++ " >= " ++ toString settings.subflowMaxPolls.toNat)) = 3 :=
      distinct.idxOf_getElem 3 (by decide : 3 < 4)
    simp only [tally, place, withCount_eq current, enough, decide_true]

end Engine

/-- The prompt of the sample flow is sent five times where no reply fits. Its subflow never ends:
with two polls in the settings, the state is asked for three times. -/
theorem compiled_jumps_bounded_sample :
    let settings := { Settings.standard with subflowMaxPolls := 2 }
    let ask : Names := ⟨1, "ask_1_send_1", "buttons"⟩
    let bill : Names := ⟨2, "bill_2", "subflow"⟩
    let sends (program : Program) (routine : Routine) : Nat := timesRun (ask.step "send")
      ((Engine.tally settings ask).runRoutine program 20 "main" routine .empty ()).events
    let polls (program : Program) (routine : Routine) : Nat × Nat :=
      let events := ((Engine.tally settings bill).runRoutine program 20 "buttons_1_0_yes" routine
        .empty ()).events
      (timesRun (bill.step "poll") events, timesRun (bill.step "wait") events)
    ∃ program, compile settings Compile.sampleLookup Compile.sampleFlow = .ok program ∧
      Compile.JumpsBounded settings Compile.sampleLookup Compile.sampleFlow program ∧
      (Engine.tally settings ask).Counts settings ask ∧
      (Engine.tally settings bill).Counts settings bill ∧
      (program.routines.get? "main").map (sends program) = some 5 ∧
      (program.routines.get? "buttons_1_0_yes").map (polls program) = some (3, 2) := by
  intro settings ask bill sends polls
  have prompted : (compile settings Compile.sampleLookup Compile.sampleFlow).toOption.bind
      (fun program => (program.routines.get? "main").map (sends program)) = some 5 := by
    decide +kernel
  have polled : (compile settings Compile.sampleLookup Compile.sampleFlow).toOption.bind
      (fun program => (program.routines.get? "buttons_1_0_yes").map (polls program)) =
        some (3, 2) := by
    decide +kernel
  cases compiled : compile settings Compile.sampleLookup Compile.sampleFlow with
  | error error =>
      rw [compiled] at prompted
      cases prompted
  | ok program =>
      rw [compiled] at prompted polled
      exact ⟨program, rfl, compiled_jumps_bounded compiled, Engine.counts_tally (by decide +kernel),
        Engine.counts_tally (by decide +kernel), prompted, polled⟩

end FlowCompiler
