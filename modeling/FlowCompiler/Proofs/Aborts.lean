import FlowCompiler.Proofs.Frames
import FlowCompiler.Proofs.Runs

namespace FlowCompiler

/-! Where a subflow is aborted and hands over to its exit for failure, the run ends with the routine
behind this exit. Within an iteration it does not: there only the iteration ends. -/

open Expression Lowering Step

/-! ## Aborts -/

def Subflow.abortReturn (names : Names) (abort : Subflow.Abort) : Step :=
  .return (names.step (abort.label ++ "_return")) (ofVariable (names.step "outcome"))

def Event.Aborts (event : Event) : Prop :=
  event.iterating = false ∧ ∃ names abort, event.step = Subflow.abortReturn names abort

/-! Behind an abort, a run still tells the backend that the session is over, and it returns. -/

inductive Step.Trailing (settings : Settings) : Step → Prop
  | clear : Trailing settings (clearSession settings "clear_session")
  | finish (value : Json) : Trailing settings (.return "finish" value)
  /-- The exit for failure may lead to another subflow, which is aborted first. -/
  | abortClear (names : Names) (abort : Subflow.Abort) :
      Trailing settings (clearSession settings (names.step (abort.label ++ "_clear_session")))
  | abortReturn (names : Names) (abort : Subflow.Abort) :
      Trailing settings (Subflow.abortReturn names abort)

def Final (settings : Settings) (events : List Event) : Prop :=
  events.Pairwise fun event later => event.Aborts → Trailing settings later.step

def Quiet (events : List Event) : Prop :=
  ∀ event ∈ events, ¬ event.Aborts

section

variable {settings : Settings} {left right events : List Event}

theorem Quiet.append (first : Quiet left) (second : Quiet right) : Quiet (left ++ right) := by
  intro event member
  rcases List.mem_append.mp member with member | member
  · exact first event member
  · exact second event member

theorem Quiet.final (quiet : Quiet events) : Final settings events := by
  refine List.pairwise_iff_forall_sublist.mpr fun sublist aborts => ?_
  exact absurd aborts (quiet _ (sublist.subset List.mem_cons_self))

theorem Quiet.final_append (quiet : Quiet left) (final : Final settings right) :
    Final settings (left ++ right) :=
  List.pairwise_append.mpr ⟨quiet.final, final, fun event member _ _ aborts =>
    absurd aborts (quiet event member)⟩

theorem final_of_trailing (trailing : ∀ event ∈ events, Trailing settings event.step) :
    Final settings events := by
  refine List.pairwise_iff_forall_sublist.mpr fun sublist _ => ?_
  exact trailing _ (sublist.subset (List.mem_cons_of_mem _ List.mem_cons_self))

theorem Final.append_trailing (final : Final settings left)
    (trailing : ∀ event ∈ right, Trailing settings event.step) : Final settings (left ++ right) :=
  List.pairwise_append.mpr ⟨final, final_of_trailing trailing, fun _ _ later member _ =>
    trailing later member⟩

end

/-! ## Calm steps -/

def Step.isSingle : Step → Bool
  | .call _ made => Primitive.isPrimitive made.target
  | .assign .. | .raise .. | .return .. => true
  | .switch .. | .block .. | .loop .. => false

/-! A step is calm if no subflow is aborted in it, but for iterations. -/

inductive Step.Calm (program : Program) : Step → Prop
  | single {step : Step} (single : step.isSingle)
      (other : ∀ names abort, step ≠ Subflow.abortReturn names abort) : Calm program step
  | loop (name : String) (head : LoopHead) (steps : List Step) :
      Calm program (.loop name head steps)
  | call {name : String} {made : Call} {routine : Routine}
      (found : program.routines.get? made.target = some routine)
      (calm : ∀ step ∈ routine.steps, Calm program step) : Calm program (.call name made)

namespace Engine

variable {World : Type} {engine : Engine World} {program : Program} {home : String}

theorem Does.of_isSingle {inner : String → List Step → Table Json → World → Result World}
    {vars : Table Json} {world : World} {step : Step} {result : Result World}
    (does : engine.Does program inner home vars world step result) (single : step.isSingle) :
    (∃ args, result.events = [⟨home, step, args, false⟩]) ∧
      ∀ target, result.outcome ≠ .jump target := by
  cases does with
  | raise | perform | assign | «return» => exact ⟨⟨_, rfl⟩, fun target ended => by cases ended⟩
  | call generated =>
      rw [isSingle, generated] at single
      cases single
  | pass | choose | block | loop => cases single

theorem quiet_own {step : Step} {args : Table Json}
    (other : ∀ names abort, step ≠ Subflow.abortReturn names abort) :
    Quiet [⟨home, step, args, false⟩] := by
  intro event member aborts
  rw [List.mem_singleton.mp member] at aborts
  rcases aborts.2 with ⟨names, abort, equal⟩
  exact other names abort equal

/-- Nothing is aborted outside of iterations by an iteration. -/
theorem quiet_iterate {turn : Table Json → World → Result World} {head : LoopHead}
    {elements : List Json} {index : Nat} {vars : Table Json} {world : World} :
    Quiet (iterate turn head elements index vars world).events := by
  intro event member aborts
  rcases exists_turn_of_mem_iterate member with ⟨vars, world, inner, _, rfl⟩
  cases aborts.1

/-- A calm step aborts no subflow if the routines with calm steps do not. -/
theorem Does.quiet_of_calm {inner : String → List Step → Table Json → World → Result World}
    {vars : Table Json} {world : World} {step : Step} {result : Result World}
    (does : engine.Does program inner home vars world step result) (calm : Calm program step)
    (called : ∀ target (routine : Routine) args world,
      (∀ step ∈ routine.steps, Calm program step) →
        Quiet (inner target routine.steps args world).events) : Quiet result.events := by
  cases calm with
  | single single other =>
      rcases (does.of_isSingle single).1 with ⟨args, events⟩
      rw [events]
      exact quiet_own other
  | loop name head steps =>
      have other : ∀ names abort, Step.loop name head steps ≠ Subflow.abortReturn names abort :=
        fun names abort equal => by cases equal
      cases does with
      | raise => exact quiet_own other
      | loop => exact (quiet_own other).append quiet_iterate
  | @call name made routine found calm =>
      have other : ∀ names abort, Step.call name made ≠ Subflow.abortReturn names abort :=
        fun names abort equal => by cases equal
      cases does with
      | raise | perform => exact quiet_own other
      | call generated isRoutine =>
          rw [found] at isRoutine
          cases isRoutine
          rw [Result.events_after, Result.events_handOver]
          exact (quiet_own other).append (called _ _ _ _ calm)

theorem quiet_run (fuel : Nat) : ∀ {home : String} {list rest : List Step} {vars : Table Json}
    {world : World}, (∀ step ∈ list, Calm program step) → rest ⊆ list →
      Quiet (engine.run program fuel home list rest vars world).events := by
  induction fuel with
  | zero =>
      intro home list rest vars world _ _ event member
      cases member
  | succ fuel induction =>
      intro home list rest vars world calm subset event member
      cases rest with
      | nil => cases member
      | cons first rest =>
          rcases mem_events_run_cons member with own | ⟨later, follows, vars, world, member⟩
          · exact (engine.does_runStep program fuel home first vars world).quiet_of_calm
              (calm first (subset List.mem_cons_self))
              (fun target routine args world calm => induction calm (List.Subset.refl _)) event own
          · exact induction calm (follows.subset subset) event member

theorem isSingle_of_trailing {settings : Settings} {step : Step}
    (trailing : Trailing settings step) : step.isSingle := by
  cases trailing with
  | clear | abortClear => exact Primitive.isPrimitive_httpPost
  | finish | abortReturn => rfl

theorem trailing_of_mem_run {settings : Settings} {list : List Step} {event : Event} (fuel : Nat) :
    ∀ {rest : List Step} {vars : Table Json} {world : World},
      (∀ step ∈ rest, Trailing settings step) →
        event ∈ (engine.run program fuel home list rest vars world).events →
          Trailing settings event.step := by
  induction fuel with
  | zero =>
      intro rest vars world _ member
      cases member
  | succ fuel induction =>
      intro rest vars world trailing member
      cases rest with
      | nil => cases member
      | cons first rest =>
          have own := trailing first List.mem_cons_self
          have does := engine.does_runStep program fuel home first vars world
          rcases does.of_isSingle (isSingle_of_trailing own) with ⟨⟨args, events⟩, stays⟩
          rcases mem_events_run_cons member with member | ⟨later, follows, vars, world, member⟩
          · rw [events] at member
            exact List.mem_singleton.mp member ▸ own
          · rw [(follows.eq_rest stays).2] at member
            exact induction (fun step inside => trailing step (List.mem_cons_of_mem _ inside)) member

end Engine

/-! ## Orderly steps -/

def Case.Calm (program : Program) (branch : Case) : Prop :=
  ∀ step ∈ branch.steps, Step.Calm program step

structure Step.Stops (steps : List Step) : Prop where
  straight : ∀ step ∈ steps, step.jumps = []
  last : ∃ front last, steps = front ++ [last] ∧
    ((∃ name value, last = .raise name value) ∨ ∃ name value, last = .return name value)

/-- Steps of which only the last one may abort a subflow and go on, apart from trailing steps. -/
inductive Step.Orderly (settings : Settings) (program : Program) : List Step → Prop
  | trailing {list : List Step} (trailing : ∀ step ∈ list, Trailing settings step) :
      Orderly settings program list
  | calm {first : Step} {rest : List Step} (calm : Step.Calm program first)
      (orderly : Orderly settings program rest) : Orderly settings program (first :: rest)
  /-- A case that may abort a subflow stops, or it goes on behind the switch. -/
  | switch {name : String} {cases : List Case} {rest : List Step}
      (inside : ∀ branch ∈ cases, ¬ branch.Calm program → Orderly settings program branch.steps)
      (ends : ∀ branch ∈ cases, ¬ branch.Calm program → Stops branch.steps ∨
        branch.next = none ∧ ∀ step ∈ rest, Trailing settings step)
      (orderly : Orderly settings program rest) :
      Orderly settings program (.switch name cases :: rest)
  | call {name : String} {made : Call} {rest : List Step}
      (trailing : ∀ step ∈ rest, Trailing settings step) :
      Orderly settings program (.call name made :: rest)
  | block {name : String} {steps rest : List Step} (inside : Orderly settings program steps)
      (trailing : ∀ step ∈ rest, Trailing settings step) :
      Orderly settings program (.block name steps :: rest)

section

variable {settings : Settings} {program : Program}

theorem Step.Orderly.of_suffix {list : List Step} (orderly : Orderly settings program list) :
    ∀ {later : List Step}, later <:+ list → Orderly settings program later := by
  have trailing : ∀ {first : Step} {rest later : List Step}, later <:+ first :: rest →
      (∀ step ∈ rest, Trailing settings step) → Orderly settings program (first :: rest) →
        Orderly settings program later := by
    intro first rest later suffix trailing whole
    rcases List.suffix_cons_iff.mp suffix with equal | suffix
    · exact equal ▸ whole
    · exact .trailing fun step member => trailing step (suffix.subset member)
  induction orderly with
  | trailing trailing =>
      exact fun suffix => .trailing fun step member => trailing step (suffix.subset member)
  | calm calm orderly induction =>
      intro later suffix
      rcases List.suffix_cons_iff.mp suffix with equal | suffix
      · exact equal ▸ .calm calm orderly
      · exact induction suffix
  | switch inside ends orderly _ induction =>
      intro later suffix
      rcases List.suffix_cons_iff.mp suffix with equal | suffix
      · exact equal ▸ .switch inside ends orderly
      · exact induction suffix
  | call behind => exact fun suffix => trailing suffix behind (.call behind)
  | block inside behind _ => exact fun suffix => trailing suffix behind (.block inside behind)

theorem Step.Orderly.append_trailing {list rest : List Step}
    (orderly : Orderly settings program list) (trailing : ∀ step ∈ rest, Trailing settings step) :
    Orderly settings program (list ++ rest) := by
  have extended : ∀ {list : List Step}, (∀ step ∈ list, Trailing settings step) →
      ∀ step ∈ list ++ rest, Trailing settings step := by
    intro list own step member
    rcases List.mem_append.mp member with member | member
    · exact own step member
    · exact trailing step member
  induction orderly with
  | trailing own => exact .trailing (extended own)
  | calm calm _ induction => exact .calm calm induction
  | switch inside ends _ _ induction =>
      exact .switch inside (fun branch isCase notCalm =>
        (ends branch isCase notCalm).imp_right (And.imp_right extended)) induction
  | call behind => exact .call (extended behind)
  | block inside behind _ => exact .block inside (extended behind)

theorem Step.Orderly.append_calm {front rest : List Step}
    (calm : ∀ step ∈ front, Step.Calm program step) (orderly : Orderly settings program rest) :
    Orderly settings program (front ++ rest) := by
  induction front with
  | nil => exact orderly
  | cons first others induction =>
      exact .calm (calm first List.mem_cons_self)
        (induction fun step member => calm step (List.mem_cons_of_mem _ member))

theorem Step.orderly_of_calm {steps : List Step} (calm : ∀ step ∈ steps, Step.Calm program step) :
    Orderly settings program steps :=
  List.append_nil steps ▸ Orderly.append_calm calm (.trailing (List.forall_mem_nil _))

end

/-! ## Runs of orderly steps -/

namespace Engine

variable {World : Type} {engine : Engine World} {settings : Settings} {program : Program}
  {home : String}

/-- Steps that stop do not go on behind their last one. -/
theorem ne_done_of_stops {list : List Step} (jumpsLocal : JumpsLocal list) (fuel : Nat) :
    ∀ {rest : List Step} {vars : Table Json} {world : World}, rest ⊆ list → Stops rest →
      (engine.run program fuel home list rest vars world).outcome ≠ .done := by
  induction fuel with
  | zero => exact fun _ _ ended => by cases ended
  | succ fuel induction =>
      intro rest vars world subset stops ended
      rcases stops.last with ⟨front, last, split, ends⟩
      cases rest with
      | nil => cases front <;> cases split
      | cons first rest =>
          have among : first ∈ list := subset List.mem_cons_self
          have jumps : ∀ target, (engine.runStep program fuel home first vars world).outcome ≠
              .jump target := by
            intro target jumps
            have own := mem_jumps_of_runStep jumpsLocal among jumps
            rw [stops.straight first List.mem_cons_self] at own
            cases own
          have onwards : (engine.runStep program fuel home first vars world).outcome = .done →
              Stops rest := by
            intro done
            cases front with
            | nil =>
                rcases List.cons.inj split with ⟨rfl, _⟩
                have does := engine.does_runStep program fuel home first vars world
                generalize engine.runStep program fuel home first vars world = result at does done
                rcases ends with ⟨name, value, rfl⟩ | ⟨name, value, rfl⟩ <;>
                · cases does <;> cases done
            | cons other front =>
                rcases List.cons.inj split with ⟨_, split⟩
                exact ⟨fun step member => stops.straight step (List.mem_cons_of_mem _ member),
                  front, last, split, ends⟩
          rcases engine.run_cons program fuel home list first rest vars world with
            ⟨later, follows, equal⟩ | ⟨ends, equal⟩
          · rcases follows.eq_rest jumps with ⟨done, rfl⟩
            rw [equal] at ended
            exact induction (follows.subset subset) (onwards done) ended
          · rw [equal] at ended
            exact ends rest (ended ▸ .done)

section

variable {fuel : Nat} {vars : Table Json} {world : World}

/-- What a case that may abort a subflow amounts to, if it jumps nowhere. -/
theorem final_of_case {step : Step} {branch : Case}
    (other : ∀ names abort, step ≠ Subflow.abortReturn names abort)
    (jumpsLocal : JumpsLocal branch.steps)
    (final : Final settings (engine.run program fuel home branch.steps branch.steps vars
      world).events) (silent : branch.next = none ∨ Stops branch.steps) :
    let result := ((engine.run program fuel home branch.steps branch.steps vars world).follow
      branch.next).after [⟨home, step, .empty, false⟩]
    Final settings result.events ∧ ∀ target, result.outcome ≠ .jump target := by
  constructor
  · rw [Result.events_after, Result.events_follow]
    exact (quiet_own other).final_append final
  · intro target jumps
    rcases Result.eq_next_of_follow jumps with ⟨done, next⟩ | jumps
    · rcases silent with none | stops
      · rw [none] at next
        cases next
      · exact ne_done_of_stops jumpsLocal fuel (List.Subset.refl _) stops done
    · exact ne_jump_of_run jumpsLocal jumps

/-- The first of orderly steps aborts nothing, or what is left behind it is trailing. -/
theorem Does.quiet_or_final {first : Step} {rest : List Step} {result : Result World}
    (does : engine.Does program (fun home steps => engine.run program fuel home steps steps)
      home vars world first result)
    (orderly : Orderly settings program (first :: rest))
    (nested : ∀ steps, ⟨false, steps⟩ ∈ innerLists first → JumpsLocal steps)
    (final : ∀ home steps vars world, Orderly settings program steps → JumpsLocal steps →
      Final settings (engine.run program fuel home steps steps vars world).events)
    (routines : ∀ name routine, program.routines.get? name = some routine →
      Orderly settings program routine.steps ∧ JumpsLocal routine.steps) :
    Quiet result.events ∨ Final settings result.events ∧
      (∀ target, result.outcome ≠ .jump target) ∧
        (result.outcome = .done → ∀ step ∈ rest, Trailing settings step) := by
  cases orderly with
  | trailing trailing =>
      have own := trailing first List.mem_cons_self
      rcases does.of_isSingle (isSingle_of_trailing own) with ⟨⟨args, events⟩, stays⟩
      refine .inr ⟨final_of_trailing fun event member => ?_, stays, fun _ step member =>
        trailing step (List.mem_cons_of_mem _ member)⟩
      rw [events] at member
      exact List.mem_singleton.mp member ▸ own
  | calm calm _ =>
      exact .inl (does.quiet_of_calm calm fun _ _ _ _ calm =>
        quiet_run fuel calm (List.Subset.refl _))
  | @switch name cases _ inside ends _ =>
      have other : ∀ names abort, Step.switch name cases ≠ Subflow.abortReturn names abort :=
        fun names abort equal => by cases equal
      cases does with
      | raise | pass => exact .inl (quiet_own other)
      | @choose _ _ branch chosen =>
          rcases exists_split_of_choose chosen with ⟨earlier, later, split, _, _⟩
          have among : branch ∈ cases := split ▸ List.mem_append_right _ List.mem_cons_self
          have jumpsLocal := nested branch.steps (caseLists_subset_of_mem among List.mem_cons_self)
          by_cases calm : branch.Calm program
          · refine .inl ?_
            rw [Result.events_after, Result.events_follow]
            exact (quiet_own other).append (quiet_run fuel calm (List.Subset.refl _))
          · have ending := ends branch among calm
            rcases final_of_case other jumpsLocal
              (final home branch.steps vars world (inside branch among calm) jumpsLocal)
              (ending.symm.imp_left And.left) with ⟨isFinal, stays⟩
            refine .inr ⟨isFinal, stays, fun done => ?_⟩
            rcases ending with stops | ⟨_, trailing⟩
            · exact absurd (Result.eq_done_of_follow done).1
                (ne_done_of_stops jumpsLocal fuel (List.Subset.refl _) stops)
            · exact trailing
  | @call name made _ trailing =>
      have other : ∀ names abort, Step.call name made ≠ Subflow.abortReturn names abort :=
        fun names abort equal => by cases equal
      cases does with
      | raise | perform => exact .inl (quiet_own other)
      | @call _ _ args routine generated found =>
          rcases routines made.target routine found with ⟨isOrderly, jumpsLocal⟩
          refine .inr ⟨?_, fun target => Result.handOver_ne_jump, fun _ => trailing⟩
          rw [Result.events_after, Result.events_handOver]
          exact (quiet_own other).final_append (final _ _ _ _ isOrderly jumpsLocal)
  | @block name steps _ inside trailing =>
      have other : ∀ names abort, Step.block name steps ≠ Subflow.abortReturn names abort :=
        fun names abort equal => by cases equal
      have jumpsLocal := nested steps List.mem_cons_self
      cases does with
      | raise => exact .inl (quiet_own other)
      | block =>
          refine .inr ⟨?_, fun target => ne_jump_of_run jumpsLocal, fun _ => trailing⟩
          exact (quiet_own other).final_append (final _ _ _ _ inside jumpsLocal)

end

/-- Behind an abort in orderly steps, only trailing steps are run. -/
theorem final_run (routines : ∀ name routine, program.routines.get? name = some routine →
      Orderly settings program routine.steps ∧ JumpsLocal routine.steps) (fuel : Nat) :
    ∀ {home : String} {list rest : List Step} {vars : Table Json} {world : World},
      Orderly settings program list → JumpsLocal list → rest <:+ list →
        Final settings (engine.run program fuel home list rest vars world).events := by
  induction fuel with
  | zero => exact fun _ _ _ => List.Pairwise.nil
  | succ fuel induction =>
      intro home list rest vars world orderly jumpsLocal suffix
      cases rest with
      | nil => exact List.Pairwise.nil
      | cons first rest =>
          have among : first ∈ list := suffix.subset List.mem_cons_self
          have does := engine.does_runStep program fuel home first vars world
          -- A quiet step may go on anywhere, also back; behind any other only trailing steps are left.
          have own := does.quiet_or_final (orderly.of_suffix suffix)
            (fun steps nested => jumpsLocal.of_mem among nested)
            (fun home steps vars world orderly jumpsLocal =>
              induction orderly jumpsLocal (List.suffix_refl _)) routines
          rcases engine.run_cons program fuel home list first rest vars world with
            ⟨later, follows, equal⟩ | ⟨_, equal⟩ <;> rw [equal]
          · rcases own with quiet | ⟨final, stays, trailing⟩
            · exact quiet.final_append (induction orderly jumpsLocal (follows.suffix suffix))
            · rcases follows.eq_rest stays with ⟨done, rfl⟩
              exact final.append_trailing fun event member =>
                trailing_of_mem_run fuel (trailing done) member
          · rcases own with quiet | ⟨final, _⟩
            · exact quiet.final
            · exact final

end Engine

end FlowCompiler
