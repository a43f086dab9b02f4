import FlowCompiler.Proofs.Counters
import FlowCompiler.Proofs.Rounds

namespace FlowCompiler

/-! Jumps back. Only the retry of a prompt and the poll of a subflow lead back to an earlier step:
their blocks go round, and no other list of a program does. -/

open Expression Lowering Step

/-! ## Prompts -/

namespace Fork

def askingSteps (settings : Settings) (names : Names) (registry : Registry) (fork : Fork) :
    List Step :=
  (fork.openingSteps settings names registry).tail

theorem openingSteps_of_asksAgain {settings : Settings} {names : Names} {registry : Registry}
    {fork : Fork} (again : fork.asksAgain) : fork.openingSteps settings names registry =
      startCounter (names.step "init") (attempts names) 1 ::
        fork.askingSteps settings names registry := by
  cases fork with
  | split | branch => cases again
  | text | buttons | list =>
      simp only [askingSteps, openingSteps, promptSteps, again, if_true]
      rfl

theorem askingSteps_eq {settings : Settings} {names : Names} {registry : Registry} {fork : Fork}
    (again : fork.asksAgain) : ∃ sent awaited,
      fork.askingSteps settings names registry =
          [.call (names.step "send") sent, .call (names.step "await") awaited] ∧
        sent.target = Primitive.httpPost ∧ sent.result = some (names.step "sent") ∧
        awaited.result = some names.result := by
  cases fork with
  | split | branch => cases again
  | text | buttons | list =>
      simp only [askingSteps, openingSteps, promptSteps, again, if_true]
      exact ⟨_, _, rfl, rfl, rfl, rfl⟩

theorem exits_of_asksAgain {fork : Fork} (again : fork.asksAgain) :
    fork.exits = fork.exits.dropLast ++ [.noResponse] ∧
      ∀ exit ∈ fork.exits.dropLast, exit.test ≠ .otherwise := by
  cases fork with
  | split | branch => cases again
  | text message =>
      refine ⟨rfl, fun exit member => ?_⟩
      rw [List.mem_singleton.mp member]
      simp [Exit.anyReply]
  | buttons prompt =>
      refine ⟨by simp [exits], fun exit member => ?_⟩
      simp only [exits, List.dropLast_concat, List.mem_mapIdx] at member
      rcases member with ⟨index, _, rfl⟩
      simp [Exit.option]
  | list prompt =>
      refine ⟨by simp [exits], fun exit member => ?_⟩
      simp only [exits, List.dropLast_concat, List.mem_mapIdx] at member
      rcases member with ⟨index, _, rfl⟩
      simp [Exit.option]

theorem cases_of_asksAgain {names : Names} {registry : Registry} {fork : Fork}
    (again : fork.asksAgain) : fork.cases names registry fork.exits =
      fork.exits.dropLast.map (exitCase names registry) ++
        retryCase names :: [exitCase names registry .noResponse] := by
  rcases exits_of_asksAgain again with ⟨split, others⟩
  have front : ∀ exits : List Exit, (∀ exit ∈ exits, exit.test ≠ .otherwise) →
      fork.cases names registry exits = exits.map (exitCase names registry) := by
    intro exits others
    induction exits with
    | nil => rfl
    | cons exit rest induction =>
        rw [cases_cons, if_neg fun both => others exit List.mem_cons_self both.2,
          induction fun other member => others other (List.mem_cons_of_mem _ member)]
        rfl
  conv_lhs => rw [split]
  rw [cases, List.flatMap_append, ← cases, front _ others]
  simp [again, Exit.noResponse]

def rounds (settings : Settings) (names : Names) (registry : Registry) (fork : Fork)
    (again : fork.asksAgain) : Rounds where
  counter := attempts names
  first := 1
  before := []
  init := names.step "init"
  round := fork.askingSteps settings names registry
  check := names.step "route"
  earlier := fork.exits.dropLast.map (exitCase names (registry.bindVariable names.result))
  condition := (retryCase names).condition
  advance := names.step "retry"
  pause := []
  target := names.step "send"
  later := [exitCase names (registry.bindVariable names.result) .noResponse]
  behind := []
  leads := by
    rcases askingSteps_eq again with ⟨sent, awaited, equal, _⟩
    rw [equal]
    rfl
  fresh := by
    rw [List.map_nil, List.nil_append, List.mem_singleton]
    exact names.step_ne (by decide)
  straight := by
    rcases askingSteps_eq again with ⟨sent, awaited, equal, _⟩
    intro step member
    rw [equal] at member
    simp only [List.nil_append, List.append_nil, List.mem_cons, List.not_mem_nil, or_false]
      at member
    rcases member with rfl | rfl <;> rfl
  forward := by
    intro branch member next jumps
    have silent : branch.next = none := by
      rcases List.mem_append.mp member with member | member
      · rcases List.mem_map.mp member with ⟨exit, _, rfl⟩
        rfl
      · rw [List.mem_singleton.mp member]
        rfl
    rw [silent] at jumps
    cases jumps
  plain := by
    rcases askingSteps_eq again with ⟨sent, awaited, equal, _⟩
    intro step member
    rw [equal] at member
    simp only [List.append_nil, List.mem_cons, List.not_mem_nil, or_false] at member
    rcases member with rfl | rfl <;> rfl
  kept := by
    rcases askingSteps_eq again with ⟨sent, awaited, equal, _, isSent, isAwaited⟩
    have sets : setsWithin (fork.askingSteps settings names registry ++ []) =
        [names.step "sent", names.result] := by
      rw [equal]
      simp [setsWithin, flattenSteps, flatten, sets, writes, isSent, isAwaited]
    rw [sets, List.mem_pair, not_or]
    exact ⟨names.step_ne (by decide), names.step_ne_result _⟩

theorem steps_eq_rounds {settings : Settings} {names : Names} {registry : Registry} {fork : Fork}
    (again : fork.asksAgain) : fork.steps settings names registry fork.exits =
      (fork.rounds settings names registry again).steps := by
  rw [steps, openingSteps_of_asksAgain again, cases_of_asksAgain again]
  rfl

end Fork

/-! ## Subflows -/

namespace Subflow

def rounds (settings : Settings) (names : Names) (registry : Registry) (called : Subflow)
    (exits : List Exit) (next : List Step) (straight : ∀ step ∈ next, step.jumps = []) :
    Rounds where
  counter := polls names
  first := 0
  before := (called.steps settings names registry exits).take 2
  init := names.step "poll_init"
  round := ((called.steps settings names registry exits).drop 3).take 1
  check := names.step "check"
  earlier := (called.checkCases settings names registry exits).take 3
  condition := none
  advance := names.step "poll_count"
  pause := [.call (names.step "wait") {
    target := Primitive.sleep
    args := .ofList [("seconds", .ofUInt64 settings.subflowPollIntervalSecs)]
    result := none
    retry := none }]
  target := names.step "poll"
  later := []
  behind := (called.steps settings names registry exits).drop 5 ++ next
  leads := rfl
  fresh := by
    change names.step "poll" ∉ ["read_caller", "start", "poll_init"].map names.step
    exact names.step_not_mem (by decide)
  straight := by
    intro step member
    have parts : step ∈ next ∨ step ∈ (called.steps settings names registry exits).take 2 ++
        ((called.steps settings names registry exits).drop 3).take 1 ++
          (called.steps settings names registry exits).drop 5 := by
      simp only [List.mem_append] at member ⊢
      tauto
    rcases parts with behind | own
    · exact straight step behind
    · refine jumps_eq_nil_of_isPlain (List.all_eq_true.mp ?_ step own)
      rfl
  forward := by
    intro branch member next jumps
    change branch ∈ [_, _, _] at member
    simp only [List.mem_cons, List.not_mem_nil, or_false] at member
    rcases member with rfl | rfl | rfl
    · cases jumps
      change names.step "collect" ∉
        ["read_caller", "start", "poll_init", "poll", "check"].map names.step
      exact names.step_not_mem (by decide)
    · cases jumps
    · cases jumps
  plain := by
    intro step member
    exact List.all_eq_true.mp (by rfl) step member
  kept := by
    change polls names ∉ ["status"].map names.step
    exact names.step_not_mem (by decide)

theorem steps_eq_rounds {settings : Settings} {names : Names} {registry : Registry}
    {called : Subflow} {exits : List Exit} {next : List Step}
    (straight : ∀ step ∈ next, step.jumps = []) :
    called.steps settings names registry exits ++ next =
      (called.rounds settings names registry exits next straight).steps :=
  rfl

end Subflow

/-! ## Blocks -/

/-! The rounds in which the prompt of a visit is sent again, and those in which the state of a
subflow is asked for again. -/

structure Fork.Retries (names : Names) (rounds : Rounds) : Prop where
  counter : rounds.counter = attempts names
  first : rounds.first = 1
  init : rounds.init = names.step "init"
  advance : rounds.advance = names.step "retry"
  target : rounds.target = names.step "send"
  sends : ∃ sent awaited, sent.target = Primitive.httpPost ∧
    rounds.round = [.call (names.step "send") sent, awaited]
  condition : rounds.condition = some (evaluate (received names ++ " and " ++ attempts names ++
    " < " ++ toString maxPromptAttempts))

structure Subflow.Polls (settings : Settings) (names : Names) (rounds : Rounds) : Prop where
  counter : rounds.counter = polls names
  first : rounds.first = 0
  init : rounds.init = names.step "poll_init"
  advance : rounds.advance = names.step "poll_count"
  target : rounds.target = names.step "poll"
  asks : ∃ asked, asked.target = Primitive.httpGet ∧
    rounds.round = [.call (names.step "poll") asked]
  waits : ∃ waited, waited.target = Primitive.sleep ∧
    rounds.pause = [.call (names.step "wait") waited]
  /-- An earlier case, which does not jump, is taken at the limit. -/
  guard : ∃ guard ∈ rounds.earlier, guard.next = none ∧ guard.condition =
    some (evaluate (polls names ++ " >= " ++ toString settings.subflowMaxPolls.toNat))

theorem Fork.retries_rounds (settings : Settings) (names : Names) (registry : Registry)
    {fork : Fork} (again : fork.asksAgain) : Retries names (fork.rounds settings names registry again) := by
  refine ⟨rfl, rfl, rfl, rfl, rfl, ?_, rfl⟩
  rcases askingSteps_eq again with ⟨sent, awaited, equal, isPost, _⟩
  exact ⟨sent, _, isPost, equal⟩

theorem Subflow.polls_rounds (settings : Settings) (names : Names) (registry : Registry)
    (called : Subflow) (exits : List Exit) {next : List Step}
    (straight : ∀ step ∈ next, step.jumps = []) :
    Polls settings names (called.rounds settings names registry exits next straight) :=
  ⟨rfl, rfl, rfl, rfl, rfl, ⟨_, rfl, rfl⟩, ⟨_, rfl, rfl⟩,
    ⟨_, List.mem_cons_of_mem _ (List.mem_cons_of_mem _ List.mem_cons_self), rfl, rfl⟩⟩

theorem not_jumpsBack_of_straight {steps front : List Step} {branch : Case} {target : String}
    (straight : ∀ step ∈ steps, step.jumps = []) : ¬ JumpsBack steps front branch target := by
  intro jump
  rcases jump.back with ⟨name, earlier, later, rest, split, _⟩
  have member : Step.switch name (earlier ++ branch :: later) ∈ steps :=
    split ▸ List.mem_append_right _ List.mem_cons_self
  have jumps : target ∈ (Step.switch name (earlier ++ branch :: later)).jumps :=
    List.mem_filterMap.mpr ⟨branch, List.mem_append_right _ List.mem_cons_self, jump.next⟩
  rw [straight _ member] at jumps
  cases jumps

theorem Fork.hasPlainCases (names : Names) (registry : Registry) (fork : Fork) (exits : List Exit)
    (name : String) : HasPlainCases (.switch name (fork.cases names registry exits)) := by
  intro branch member
  rcases retries_or_exists_exit member with ⟨_, retry⟩ | ⟨exit, _, own⟩
  · rw [retry]
    rfl
  · rw [own]
    rfl

theorem Subflow.hasPlainCases (settings : Settings) (names : Names) (registry : Registry)
    (called : Subflow) (exits : List Exit) (name : String) :
    HasPlainCases (.switch name (called.checkCases settings names registry exits)) :=
  fun _ member => isPlain_of_mem_checkCases member

/-- A fork that does not ask again jumps nowhere. -/
theorem Fork.jumps_of_mem_steps {settings : Settings} {names : Names} {registry : Registry}
    {fork : Fork} {exits : List Exit} (once : ¬ fork.asksAgain) :
    ∀ step ∈ fork.steps settings names registry exits, step.jumps = [] := by
  intro step member
  rcases List.mem_append.mp member with member | member
  · exact jumps_of_all_isPlain (fork.isPlain_openingSteps settings names registry) step member
  · rw [List.mem_singleton.mp member, jumps, List.filterMap_eq_nil_iff]
    intro branch isCase
    rcases retries_or_exists_exit isCase with ⟨again, _⟩ | ⟨exit, _, own⟩
    · exact absurd again once
    · rw [own]
      rfl

namespace Walk

theorem jumps_of_mem_steps {settings : Settings} {scope : Scope} {walk : Walk Visit} :
    ∀ step ∈ walk.steps settings scope, step.jumps = [] := by
  intro step member
  cases walk with
  | done => cases member
  | terminal | action | fork | subflow | loop =>
      rw [List.mem_singleton.mp member]
      rfl

section

variable {settings : Settings} {names : Names} {steps : List Step}

theorem InBlock.jumpsLocal (inside : InBlock settings names steps) : JumpsLocal steps := by
  cases inside with
  | action registry act scope next =>
      exact (act.jumpsLocal_steps settings names registry).append
        (next.jumpsLocal_steps settings scope)
  | fork registry choice => exact choice.jumpsLocal_steps settings names registry _
  | subflow registry called exits scope next =>
      exact (called.jumpsLocal_steps settings names registry exits).append
        (next.jumpsLocal_steps settings scope)
  | loop registry start scope next =>
      exact (start.jumpsLocal_steps settings names registry).append
        (next.jumpsLocal_steps settings scope)

/-- A jump back in a block belongs to a prompt or to a subflow. -/
theorem InBlock.exists_rounds (inside : InBlock settings names steps) {front : List Step}
    {branch : Case} {target : String} (jump : JumpsBack steps front branch target) :
    ∃ rounds : Rounds, steps = rounds.steps ∧
      (Fork.Retries names rounds ∨ Subflow.Polls settings names rounds) := by
  have straight : ∀ {own : List Step} {scope : Scope} {next : Walk Visit},
      (∀ step ∈ own, step.jumps = []) →
        ∀ step ∈ own ++ next.steps settings scope, step.jumps = [] := by
    intro own scope next ownStraight step member
    rcases List.mem_append.mp member with member | member
    · exact ownStraight step member
    · exact jumps_of_mem_steps step member
  cases inside with
  | action registry act scope next =>
      refine absurd jump (not_jumpsBack_of_straight (straight ?_))
      exact jumps_of_all_isPlain (act.isPlain_steps settings names registry)
  | fork registry choice =>
      by_cases again : choice.asksAgain
      · exact ⟨_, Fork.steps_eq_rounds again, .inl (Fork.retries_rounds _ _ _ again)⟩
      · exact absurd jump (not_jumpsBack_of_straight (Fork.jumps_of_mem_steps again))
  | subflow registry called exits scope next =>
      exact ⟨_, Subflow.steps_eq_rounds jumps_of_mem_steps,
        .inr (Subflow.polls_rounds _ _ _ _ _ jumps_of_mem_steps)⟩
  | loop registry start scope next =>
      refine absurd jump (not_jumpsBack_of_straight (straight fun step member => ?_))
      rcases List.mem_pair.mp member with rfl | rfl <;> rfl

inductive Formed (settings : Settings) (names : Names) : Step → Prop
  | plain {step : Step} (plain : step.isPlain) : Formed settings names step
  | block {steps : List Step} (inside : InBlock settings names steps) :
      Formed settings names (.block names.result steps)
  | choice {name : String} {cases : List Case} (plain : HasPlainCases (.switch name cases)) :
      Formed settings names (.switch name cases)
  | loop {name : String} {head : LoopHead} (registry : Registry) (start : LoopStart) :
      Formed settings names (.loop name head (start.iteration names registry))

theorem EmittedFor.formed {step : Step} (emitted : EmittedFor settings names step) :
    Formed settings names step := by
  cases emitted with
  | terminal => exact .plain rfl
  | block inside => exact .block inside
  | closing closing => cases closing <;> exact .plain rfl
  | @action registry act _ inside =>
      exact .plain (isPlain_of_mem_flattenSteps (act.isPlain_steps settings names registry) inside)
  | @fork registry choice exits _ inside =>
      have cases := Fork.hasPlainCases names (registry.bindVariable names.result) choice exits
        (names.step "route")
      rw [Fork.steps, ← List.append_nil (_ ++ _)] at inside
      rcases isPlain_or_eq_of_mem_flattenSteps (choice.isPlain_openingSteps settings names registry)
        rfl cases inside with plain | equal
      · exact .plain plain
      · exact equal ▸ .choice cases
  | @subflow registry called exits _ inside =>
      have cases := Subflow.hasPlainCases settings names registry called exits (names.step "check")
      rcases @isPlain_or_eq_of_mem_flattenSteps [_, _, _, _] [_, _, _] _ _ _ rfl rfl cases inside
        with plain | equal
      · exact .plain plain
      · exact equal ▸ .choice cases
  | @loop registry start _ inside =>
      rcases LoopStart.mem_or_mem_iteration inside with inside | inside
      · rcases List.mem_pair.mp inside with rfl | rfl
        · exact .plain rfl
        · exact .loop registry start
      · rcases LoopStart.eq_or_eq_of_mem_iteration inside with rfl | rfl
        · exact .plain rfl
        · refine .choice fun branch member => ?_
          rw [List.mem_singleton.mp member]
          rfl

end

end Walk

/-! ## Nested lists -/

namespace Step

/-- The lists of steps that stand in a step, without those nested in them. -/
def ownLists : Step → List StepList
  | .block _ steps => [⟨false, steps⟩]
  | .switch _ cases => cases.map fun branch => ⟨false, branch.steps⟩
  | .loop _ _ steps => [⟨true, steps⟩]
  | .call .. | .assign .. | .raise .. | .return .. => []

mutual
theorem exists_owner_of_mem_innerLists : ∀ (outer : Step) {list : StepList},
    list ∈ innerLists outer → ∃ step ∈ flatten outer, list ∈ step.ownLists
  | .block name steps, list, member => by
      rcases List.mem_cons.mp member with equal | member
      · exact ⟨_, mem_flatten_self _, List.mem_singleton.mpr equal⟩
      · rcases exists_owner_of_mem steps member with ⟨step, inside, own⟩
        exact ⟨step, List.mem_cons_of_mem _ inside, own⟩
  | .switch name cases, list, member => by
      rcases exists_owner_of_mem_caseLists cases member with ⟨branch, isCase, equal⟩ |
        ⟨step, inside, own⟩
      · exact ⟨_, mem_flatten_self _, List.mem_map.mpr ⟨branch, isCase, equal⟩⟩
      · exact ⟨step, List.mem_cons_of_mem _ inside, own⟩
  | .loop name head steps, list, member => by
      rcases List.mem_cons.mp member with equal | member
      · exact ⟨_, mem_flatten_self _, List.mem_singleton.mpr equal⟩
      · rcases exists_owner_of_mem steps member with ⟨step, inside, own⟩
        exact ⟨step, List.mem_cons_of_mem _ inside, own⟩

/-- A nested list stands in one of the steps. -/
theorem exists_owner_of_mem : ∀ (steps : List Step) {list : StepList}, list ∈ listsWithin steps →
    ∃ step ∈ flattenSteps steps, list ∈ step.ownLists
  | first :: rest, list, member => by
      rcases List.mem_append.mp member with member | member
      · rcases exists_owner_of_mem_innerLists first member with ⟨step, inside, own⟩
        exact ⟨step, List.mem_append_left _ inside, own⟩
      · rcases exists_owner_of_mem rest member with ⟨step, inside, own⟩
        exact ⟨step, List.mem_append_right _ inside, own⟩

theorem exists_owner_of_mem_caseLists : ∀ (cases : List Case) {list : StepList},
    list ∈ caseLists cases → (∃ branch ∈ cases, ⟨false, branch.steps⟩ = list) ∨
      ∃ step ∈ flattenCases cases, list ∈ step.ownLists
  | .mk condition steps next :: rest, list, member => by
      rcases List.mem_cons.mp member with equal | member
      · exact .inl ⟨_, List.mem_cons_self, equal.symm⟩
      · rcases List.mem_append.mp member with member | member
        · rcases exists_owner_of_mem steps member with ⟨step, inside, own⟩
          exact .inr ⟨step, List.mem_append_left _ inside, own⟩
        · rcases exists_owner_of_mem_caseLists rest member with ⟨branch, isCase, equal⟩ |
            ⟨step, inside, own⟩
          · exact .inl ⟨branch, List.mem_cons_of_mem _ isCase, equal⟩
          · exact .inr ⟨step, List.mem_append_right _ inside, own⟩
end

end Step

theorem Step.ownLists_eq_nil_of_isPlain {step : Step} (plain : step.isPlain) :
    step.ownLists = [] := by
  cases step <;> first | rfl | cases plain

/-- An iteration is only left, it does not jump back. -/
theorem LoopStart.not_jumpsBack_iteration {names : Names} {registry : Registry} {start : LoopStart}
    {front : List Step} {branch : Case} {target : String} :
    ¬ JumpsBack (start.iteration names registry) front branch target := by
  intro jump
  rcases jump.back with ⟨name, earlier, later, rest, split, back⟩
  have parts : ∀ step ∈ start.iteration names registry,
      (∃ suffix, step.name = names.step suffix) ∧ ∀ target ∈ step.jumps, target = "break" := by
    intro step member
    rcases eq_or_eq_of_mem_iteration member with rfl | rfl
    · exact ⟨⟨"iteration", rfl⟩, fun target jump => by cases jump⟩
    · exact ⟨⟨"guard", rfl⟩, fun target jump => List.mem_singleton.mp jump⟩
  have member : Step.switch name (earlier ++ branch :: later) ∈ start.iteration names registry :=
    split ▸ List.mem_append_right _ List.mem_cons_self
  have leaves : target = "break" := (parts _ member).2 target
    (List.mem_filterMap.mpr ⟨branch, List.mem_append_right _ List.mem_cons_self, jump.next⟩)
  have named : ∃ step ∈ start.iteration names registry, step.name = target := by
    rw [split]
    rcases List.mem_append.mp back with back | back
    · rcases List.mem_map.mp back with ⟨step, among, equal⟩
      exact ⟨step, List.mem_append_left _ among, equal⟩
    · exact ⟨_, List.mem_append_right _ List.mem_cons_self, (List.mem_singleton.mp back).symm⟩
  rcases named with ⟨step, among, equal⟩
  rcases (parts step among).1 with ⟨suffix, isName⟩
  exact names.step_ne_break suffix (isName.symm.trans (equal.trans leaves))

/-- A jump back among the steps of a visit stands in its block. -/
theorem Walk.Formed.exists_rounds {settings : Settings} {names : Names} {step : Step}
    (formed : Formed settings names step) {list : StepList} (own : list ∈ step.ownLists)
    {front : List Step} {branch : Case} {target : String}
    (jump : JumpsBack list.steps front branch target) :
    ∃ rounds : Rounds, list.steps = rounds.steps ∧ step = .block names.result rounds.steps ∧
      (Fork.Retries names rounds ∨ Subflow.Polls settings names rounds) := by
  cases formed with
  | plain plain =>
      rw [ownLists_eq_nil_of_isPlain plain] at own
      cases own
  | block inside =>
      rw [List.mem_singleton.mp own] at jump ⊢
      rcases inside.exists_rounds jump with ⟨rounds, equal, kind⟩
      exact ⟨rounds, equal, equal ▸ rfl, kind⟩
  | choice plain =>
      rcases List.mem_map.mp own with ⟨branch, isCase, rfl⟩
      exact absurd jump (not_jumpsBack_of_straight (jumps_of_all_isPlain (plain branch isCase)))
  | loop registry start =>
      rw [List.mem_singleton.mp own] at jump
      exact absurd jump LoopStart.not_jumpsBack_iteration

end FlowCompiler
