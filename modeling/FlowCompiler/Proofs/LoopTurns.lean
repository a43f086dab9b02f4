import FlowCompiler.Proofs.Counters
import FlowCompiler.Proofs.Runs
import FlowCompiler.Proofs.VisitCalls

namespace FlowCompiler

/-! The turns of loops. Where a loop iterates over a list, a guard ends the iteration at the limit,
and the index is a variable of the iteration. Where it counts, there is no guard, and the index is
one less than the number. In front of the limit, a turn of either kind calls the body once. -/

open Expression Lowering Step

/-! ## Calls of bodies -/

def LoopStart.bodyCalls (names : Names) (events : List Event) : List Event :=
  events.filter fun event => event.step.calls (bodyRoutine names)

def Event.passed (event : Event) : Option Json × Option Json :=
  (event.args.get? Registry.loopItem, event.args.get? Registry.loopIndex)

def LoopStart.passes (elements : List Json) (index : Nat) : List (Option Json × Option Json) :=
  (elements.zipIdx index).map fun turn => (some turn.1, some (.ofUInt64 (.ofNat turn.2)))

def Result.BodyReturns {World : Type} (names : Names) (result : Result World) : Prop :=
  LoopStart.bodyCalls names result.events ≠ [] →
    result.outcome ≠ .raised ∧ result.outcome ≠ .pending

/-- A call that ends at all, and without an error, is done. -/
theorem Result.done_of_handOver {World : Type} {vars : Table Json} {name : Option String}
    {callee : Result World} (notRaised : (callee.handOver vars name).outcome ≠ .raised)
    (notPending : (callee.handOver vars name).outcome ≠ .pending) :
    (callee.handOver vars name).outcome = .done := by
  rw [handOver] at notRaised notPending ⊢
  cases ended : callee.outcome with
  | done | returned => rfl
  | jump | raised => exact absurd (by simp only [ended]) notRaised
  | pending => exact absurd (by simp only [ended]) notPending

namespace LoopStart

variable {names : Names}

@[simp] theorem bodyCalls_append (left right : List Event) :
    bodyCalls names (left ++ right) = bodyCalls names left ++ bodyCalls names right :=
  List.filter_append ..

theorem bodyCalls_cons_of_neg {event : Event} (other : event.step.call? = none)
    (rest : List Event) : bodyCalls names (event :: rest) = bodyCalls names rest := by
  rw [bodyCalls, List.filter_cons_of_neg (by simp [calls, other]), bodyCalls]

/-- Being run in an iteration makes no difference for what is called. -/
theorem passed_inIteration (events : List Event) :
    (bodyCalls names (events.map Event.inIteration)).map Event.passed =
      (bodyCalls names events).map Event.passed := by
  rw [bodyCalls, List.filter_map, List.map_map]
  rfl

end LoopStart

structure Engine.CallsOnce {World : Type} (names : Names) (Holds : Table Json → Prop)
    (element : Json) (index : Nat) (result : Result World) : Prop where
  done : result.outcome = .done
  holds : Holds result.vars
  calls : (LoopStart.bodyCalls names result.events).map Event.passed =
    LoopStart.passes [element] index

/-! ## Single steps -/

namespace Engine

variable {World : Type}

section

variable {engine : Engine World} {program : Program} {home : String} {fuel : Nat}
  {list rest : List Step} {step : Step} {vars : Table Json} {world : World}

theorem run_of_done (done : (engine.runStep program fuel home step vars world).outcome = .done) :
    let result := engine.runStep program fuel home step vars world
    engine.run program (fuel + 1) home list (step :: rest) vars world =
      (engine.run program fuel home list rest result.vars result.world).after result.events := by
  intro result
  rcases engine.run_cons program fuel home list step rest vars world with
    ⟨later, follows, equal⟩ | ⟨ends, _⟩
  · rw [done] at follows
    cases follows
    exact equal
  · exact absurd (done ▸ .done) (ends rest)

/-- A jump to a step that is not in the list leads out of it. -/
theorem run_of_leave {target : String}
    (jumps : (engine.runStep program fuel home step vars world).outcome = .jump target)
    (outside : from? target list = none) :
    engine.run program (fuel + 1) home list (step :: rest) vars world =
      engine.runStep program fuel home step vars world := by
  rcases engine.run_cons program fuel home list step rest vars world with
    ⟨later, follows, _⟩ | ⟨_, equal⟩
  · rw [jumps] at follows
    cases follows with
    | jump found => cases outside.symm.trans found
  · exact equal

theorem run_singleton
    (stays : ∀ target, (engine.runStep program (fuel + 1) home step vars world).outcome ≠
      .jump target) :
    engine.run program (fuel + 2) home list [step] vars world =
      engine.runStep program (fuel + 1) home step vars world := by
  rcases engine.run_cons program (fuel + 1) home list step [] vars world with
    ⟨later, follows, equal⟩ | ⟨_, equal⟩
  · rcases follows.eq_rest stays with ⟨done, rfl⟩
    rw [equal]
    generalize engine.runStep program (fuel + 1) home step vars world = result at done
    rcases result with ⟨outcome, vars, world, events⟩
    cases done
    simp [Engine.run, Result.after]
  · exact equal

theorem evaluated_of_mapM : ∀ {entries values : List (String × Json)},
    (entries.mapM fun entry => (engine.evaluate vars entry.2).map (Prod.mk entry.1)) = some values →
      Entries.keys values = Entries.keys entries ∧
        ∀ entry ∈ entries, ∃ value, engine.evaluate vars entry.2 = some value ∧
          (entry.1, value) ∈ values
  | [], values, mapped => by
      cases mapped
      exact ⟨rfl, by simp⟩
  | (name, expression) :: rest, values, mapped => by
      rw [List.mapM_cons] at mapped
      rcases Option.bind_eq_some_iff.mp mapped with ⟨first, own, mapped⟩
      rcases Option.bind_eq_some_iff.mp mapped with ⟨others, later, equal⟩
      cases equal
      rcases Option.map_eq_some_iff.mp own with ⟨value, evaluated, rfl⟩
      rcases evaluated_of_mapM later with ⟨keys, found⟩
      refine ⟨congrArg (List.cons name) keys, fun entry member => ?_⟩
      rcases List.mem_cons.mp member with rfl | member
      · exact ⟨value, evaluated, List.mem_cons_self⟩
      · rcases found entry member with ⟨value, evaluated, among⟩
        exact ⟨value, evaluated, List.mem_cons_of_mem _ among⟩

theorem get?_evaluateArgs {args values : Table Json}
    (evaluated : engine.evaluateArgs vars args = some values) {name : String} {expression : Json}
    (found : args.get? name = some expression) :
    values.get? name = engine.evaluate vars expression := by
  rcases Option.map_eq_some_iff.mp evaluated with ⟨entries, mapped, rfl⟩
  rcases evaluated_of_mapM mapped with ⟨keys, values⟩
  rcases values (name, expression) (Table.get?_eq_some_iff.mp found) with ⟨value, own, among⟩
  have distinct : (Entries.keys entries).Nodup := keys ▸ args.distinct
  rw [own]
  refine Table.get?_eq_some_iff.mpr ?_
  rw [Table.entries_ofList distinct]
  exact among

/-- A call of a generated routine raises an error, or the routine is run with the values of the
arguments. -/
theorem runStep_call (engine : Engine World) (program : Program) (fuel : Nat) (home name : String)
    (vars : Table Json) (world : World) {made : Call}
    (generated : Primitive.isPrimitive made.target = false) :
    (∃ args, engine.runStep program fuel home (.call name made) vars world =
      ⟨.raised, vars, world, [⟨home, .call name made, args, false⟩]⟩) ∨
    ∃ args routine, engine.evaluateArgs vars made.args = some args ∧
      program.routines.get? made.target = some routine ∧
      engine.runStep program fuel home (.call name made) vars world =
        ((engine.run program fuel made.target routine.steps routine.steps args world).handOver vars
          made.result).after [⟨home, .call name made, args, false⟩] := by
  rw [runStep, Engine.step]
  cases evaluated : engine.evaluateArgs vars made.args with
  | none => exact .inl ⟨.empty, rfl⟩
  | some args =>
      simp only [generated, Bool.false_eq_true, if_false]
      cases found : program.routines.get? made.target with
      | none => exact .inl ⟨args, rfl⟩
      | some routine => exact .inr ⟨args, routine, rfl, rfl, rfl⟩

end

end Engine

/-! ## Turns of loops -/

/-- How the engine evaluates what loops are made of: numbers, the variables of an iteration and the
list, the comparison of the index with the limit, and the number before another one. -/
structure Engine.Iterates {World : Type} (engine : Engine World) (names : Names) : Prop where
  number : ∀ vars value, engine.evaluate vars (.ofUInt32 value) = some (.ofUInt32 value)
  stored : ∀ name ∈ [Registry.loopItem, Registry.loopIndex, LoopStart.listVariable names],
    ∀ vars value, vars.get? name = some value →
      engine.evaluate vars (ofVariable name) = some value
  reached : ∀ vars index limit, vars.get? Registry.loopIndex = some (.ofUInt64 index) →
    vars.get? (LoopStart.limitVariable names) = some (.ofUInt32 limit) →
      engine.evaluate vars
        (Expression.evaluate (Registry.loopIndex ++ " >= " ++ LoopStart.limitVariable names)) =
          some (.bool (limit.toNat ≤ index.toNat))
  before : ∀ vars number, 0 < number.toNat →
    vars.get? Registry.loopItem = some (.ofUInt64 number) →
      engine.evaluate vars (Expression.evaluate (Registry.loopItem ++ " - 1")) =
        some (.ofUInt64 (number - 1))

namespace LoopStart

variable {World : Type} {engine : Engine World} {program : Program} {names : Names}

def Limited (names : Names) (limit : UInt32) (vars : Table Json) : Prop :=
  vars.get? (limitVariable names) = some (.ofUInt32 limit)

def indexValue (loop : LoopStart) : Json :=
  match loop.loopValue with
  | .list _ => ofVariable Registry.loopIndex
  | .count _ => evaluate (Registry.loopItem ++ " - 1")

/-- The body of a loop does not call itself, whatever it runs. -/
theorem bodyCalls_run_body (acyclic : ∀ name, ¬ Relation.TransGen program.Calls name name)
    {routine : Routine} (found : program.routines.get? (bodyRoutine names) = some routine)
    (fuel : Nat) (args : Table Json) (world : World) :
    bodyCalls names (engine.run program fuel (bodyRoutine names) routine.steps routine.steps args
      world).events = [] := by
  have entry := Table.get?_eq_some_iff.mp found
  have sites : ∀ step ∈ flattenSteps routine.steps, (bodyRoutine names, step) ∈ program.sites :=
    fun step inside => Program.mem_sites.mpr ⟨routine, entry, inside⟩
  refine List.filter_eq_nil_iff.mpr fun event member again => ?_
  have calls : ∀ caller, (caller, event.step) ∈ program.sites →
      program.Calls caller (bodyRoutine names) := fun caller site =>
    ⟨List.mem_map_of_mem entry, event.step, List.mem_filter.mpr ⟨site, again⟩⟩
  rcases Engine.from_of_mem_run fuel sites (List.Subset.refl _) event member with
    ⟨_, inside⟩ | ⟨called, site⟩
  · exact acyclic _ (.single (calls _ (sites event.step inside)))
  · exact acyclic _ (called.tail (calls _ site))

theorem setsWithin_bodyCall (names : Names) (registry : Registry) (loop : LoopStart) :
    setsWithin [loop.bodyCall names registry] = [names.step "outcome"] := rfl

theorem bodyCalls_bodyCall {home : String} {registry : Registry} {loop : LoopStart}
    {args : Table Json} {inner : List Event} (none : bodyCalls names inner = []) :
    bodyCalls names (⟨home, loop.bodyCall names registry, args, false⟩ :: inner) =
      [⟨home, loop.bodyCall names registry, args, false⟩] := by
  rw [bodyCalls, List.filter_cons_of_pos]
  · exact congrArg _ none
  · rw [bodyCall_eq]
    simp [calls, Step.call?, iterationCall]

theorem passed_of_evaluateArgs {registry : Registry} {loop : LoopStart} {vars args : Table Json}
    {element : Json} {index : Nat} {home : String}
    (item : engine.evaluate vars (ofVariable Registry.loopItem) = some element)
    (number : engine.evaluate vars loop.indexValue = some (.ofUInt64 (.ofNat index)))
    (evaluated : engine.evaluateArgs vars (loop.iterationCall names registry).args = some args) :
    Event.passed ⟨home, loop.bodyCall names registry, args, false⟩ =
      (some element, some (.ofUInt64 (.ofNat index))) := by
  have own : (loop.iterationCall names registry).args.get? Registry.loopItem =
      some (ofVariable Registry.loopItem) := by
    rw [iterationCall, Table.get?_insert, if_neg (by decide), Table.get?_insert, if_pos rfl]
  have place : (loop.iterationCall names registry).args.get? Registry.loopIndex =
      some loop.indexValue := by
    rw [iterationCall, Table.get?_insert, if_pos rfl]
    rfl
  rw [Event.passed, Engine.get?_evaluateArgs evaluated own,
    Engine.get?_evaluateArgs evaluated place, item, number]

/-- The call of the body passes the element and the index on. Behind it, the turn is done. -/
theorem callsOnce_bodyCall (acyclic : ∀ name, ¬ Relation.TransGen program.Calls name name)
    (proper : names.Proper) {loop : LoopStart} {registry : Registry} {limit : UInt32}
    {fuel : Nat} {home : String} {vars : Table Json} {world : World} {element : Json} {index : Nat}
    (limited : Limited names limit vars)
    (item : engine.evaluate vars (ofVariable Registry.loopItem) = some element)
    (number : engine.evaluate vars loop.indexValue = some (.ofUInt64 (.ofNat index)))
    (returns : (engine.runStep program fuel home (loop.bodyCall names registry) vars
      world).BodyReturns names) :
    Engine.CallsOnce names (Limited names limit) element index
      (engine.runStep program fuel home (loop.bodyCall names registry) vars world) := by
  have kept : Limited names limit (engine.runStep program fuel home
      (loop.bodyCall names registry) vars world).vars := by
    rw [Limited, Engine.get?_runStep]
    · exact limited
    · rw [setsWithin_bodyCall, List.mem_singleton]
      exact names.step_ne (by decide)
  have target : Primitive.isPrimitive (loop.iterationCall names registry).target = false :=
    Primitive.isPrimitive_eq_false (Names.isIdentifier_routine proper (by decide))
  have made := Engine.runStep_call engine program fuel home (names.step "iteration") vars world
    target
  rw [← bodyCall_eq] at made
  rcases made with ⟨args, raised⟩ | ⟨args, routine, evaluated, found, ran⟩
  · rw [raised] at returns
    refine absurd rfl (returns ?_).1
    rw [bodyCalls_bodyCall rfl]
    exact List.cons_ne_nil _ _
  · let call := loop.iterationCall names registry
    let callee := (engine.run program fuel call.target routine.steps routine.steps args
      world).handOver vars call.result
    have silent : bodyCalls names callee.events = [] := by
      rw [Result.events_handOver]
      exact bodyCalls_run_body acyclic found fuel args world
    have ended : callee.outcome = .done := by
      rw [ran] at returns
      rcases returns (by
        rw [Result.events_after, List.singleton_append, bodyCalls_bodyCall silent]
        exact List.cons_ne_nil _ _) with ⟨notRaised, notPending⟩
      exact Result.done_of_handOver notRaised notPending
    refine ⟨?_, kept, ?_⟩
    · rw [ran]
      exact ended
    · rw [ran, Result.events_after, List.singleton_append, bodyCalls_bodyCall silent,
        List.map_singleton, passed_of_evaluateArgs item number evaluated]
      rfl

section

variable {settings : Settings} {loop : LoopStart} {registry : Registry} {limit : UInt32}
  {fuel : Nat} {home : String} {vars : Table Json} {world : World} {element : Json} {index : Nat}

theorem run_bodyCall (list : List Step) :
    engine.run program (fuel + 2) home list [loop.bodyCall names registry] vars world =
      engine.runStep program (fuel + 1) home (loop.bodyCall names registry) vars world := by
  refine Engine.run_singleton fun target jumps => ?_
  rw [bodyCall_eq] at jumps
  have jumped := (engine.does_runStep program (fuel + 1) home _ vars world).mem_jumps
    (fun inner member => by cases member) jumps
  cases jumped

/-- The guard leaves the iteration at the limit, and does nothing else. -/
theorem runStep_guardStep (iterates : engine.Iterates names) (program : Program) (fuel : Nat)
    (home : String) (world : World) (limited : Limited names limit vars) {number : UInt64}
    (counted : vars.get? Registry.loopIndex = some (.ofUInt64 number)) :
    engine.runStep program (fuel + 1) home (guardStep names) vars world =
      ⟨if limit.toNat ≤ number.toNat then .jump "break" else .done, vars, world,
        [⟨home, guardStep names, .empty, false⟩]⟩ := by
  have tested := iterates.reached vars number limit counted limited
  rw [Engine.runStep, guardStep, Engine.step]
  simp only [Engine.choose, Case.condition, tested, Option.bind_eq_bind, Option.bind_some]
  by_cases reached : limit.toNat ≤ number.toNat <;>
    simp [reached, Engine.run, Case.steps, Case.next, Result.follow, Result.after]

def turn (engine : Engine World) (program : Program) (names : Names) (registry : Registry)
    (loop : LoopStart) (fuel : Nat) (home : String) (vars : Table Json) (world : World) :
    Result World :=
  engine.run program fuel home (loop.iteration names registry) (loop.iteration names registry) vars
    world

theorem Limited.bind (limited : Limited names limit vars) (proper : names.Proper)
    (settings : Settings) (loop : LoopStart) (element : Json) (index : Nat) :
    Limited names limit ((loop.head settings names).bind element index vars) := by
  have owns : names.Owns (limitVariable names) := .step (by decide)
  have unset : limitVariable names ∉ Registry.loopVariables := owns.not_mem_loopVariables proper
  rw [Limited, LoopHead.get?_bind]
  · exact limited
  · refine fun bound => unset ?_
    rw [head] at bound
    cases own : loop.loopValue with
    | list expression =>
        rw [own] at bound
        exact bound
    | count number =>
        rw [own] at bound
        exact List.mem_cons.mpr (.inl (List.mem_singleton.mp bound))

theorem get?_item_bind (settings : Settings) (names : Names) (loop : LoopStart) (element : Json)
    (index : Nat) (vars : Table Json) :
    ((loop.head settings names).bind element index vars).get? Registry.loopItem = some element := by
  rw [head]
  cases loop.loopValue with
  | list expression =>
      rw [LoopHead.bind, Table.get?_insert, if_neg (by decide), Table.get?_insert, if_pos rfl]
  | count number => rw [LoopHead.bind, Table.get?_insert, if_pos rfl]

theorem get?_index_bind {expression : String} (isList : loop.loopValue = .list expression)
    (settings : Settings) (names : Names) (element : Json) (index : Nat) (vars : Table Json) :
    ((loop.head settings names).bind element index vars).get? Registry.loopIndex =
      some (.ofUInt64 (.ofNat index)) := by
  rw [head, isList, LoopHead.bind, Table.get?_insert, if_pos rfl]

theorem toNat_ofNat_index (within : index ≤ limit.toNat) : (UInt64.ofNat index).toNat = index :=
  UInt64.toNat_ofNat_of_lt' (Nat.lt_of_le_of_lt within (Nat.lt_trans limit.toNat_lt (by decide)))

/-- A turn of an iteration over a list calls the body, unless the index has reached the limit. -/
theorem turn_list (iterates : engine.Iterates names) {expression : String}
    (isList : loop.loopValue = .list expression) (limited : Limited names limit vars)
    (counted : vars.get? Registry.loopIndex = some (.ofUInt64 (.ofNat index)))
    (within : index ≤ limit.toNat) :
    loop.turn engine program names registry (fuel + 3) home vars world =
      if limit.toNat ≤ index then
        ⟨.jump "break", vars, world, [⟨home, guardStep names, .empty, false⟩]⟩
      else (engine.runStep program (fuel + 1) home (loop.bodyCall names registry) vars world).after
        [⟨home, guardStep names, .empty, false⟩] := by
  have guarded := runStep_guardStep iterates program (fuel + 1) home world limited counted
  rw [toNat_ofNat_index within] at guarded
  rw [turn, iteration, isList]
  dsimp only
  by_cases reached : limit.toNat ≤ index
  · rw [if_pos reached] at guarded ⊢
    have outside : from? "break" [guardStep names, loop.bodyCall names registry] = none := by
      have guarded : (guardStep names).name ≠ "break" := names.step_ne_break _
      have called : (loop.bodyCall names registry).name ≠ "break" := names.step_ne_break _
      rw [from?, if_neg guarded, from?, if_neg called, from?]
    rw [Engine.run_of_leave (by rw [guarded]) outside, guarded]
  · rw [if_neg reached] at guarded ⊢
    rw [Engine.run_of_done (by rw [guarded]), guarded, run_bodyCall]

section

variable (acyclic : ∀ name, ¬ Relation.TransGen program.Calls name name) (proper : names.Proper)
  (iterates : engine.Iterates names)

include acyclic proper iterates

theorem callsOnce_list {expression : String} (isList : loop.loopValue = .list expression)
    (limited : Limited names limit vars) (below : index < limit.toNat)
    (returns : (loop.turn engine program names registry (fuel + 3) home
      ((loop.head settings names).bind element index vars) world).BodyReturns names) :
    Engine.CallsOnce names (Limited names limit) element index
      (loop.turn engine program names registry (fuel + 3) home
        ((loop.head settings names).bind element index vars) world) := by
  have counted := get?_index_bind isList settings names element index vars
  have bound := limited.bind proper settings loop element index
  rw [turn_list iterates isList bound counted (Nat.le_of_lt below),
    if_neg (Nat.not_le.mpr below)] at returns ⊢
  have silent (events : List Event) :
      bodyCalls names ([⟨home, guardStep names, .empty, false⟩] ++ events) =
        bodyCalls names events :=
    bodyCalls_cons_of_neg rfl events
  rw [Result.BodyReturns, Result.events_after, silent] at returns
  have number : engine.evaluate ((loop.head settings names).bind element index vars)
      loop.indexValue = some (.ofUInt64 (.ofNat index)) := by
    rw [indexValue, isList]
    exact iterates.stored _ (List.mem_cons_of_mem _ List.mem_cons_self) _ _ counted
  have called := callsOnce_bodyCall acyclic proper bound
    (iterates.stored _ List.mem_cons_self _ _ (get?_item_bind ..)) number returns
  refine ⟨called.done, called.holds, ?_⟩
  rw [Result.events_after, silent]
  exact called.calls

/-- A turn of an iteration that counts calls the body, and its index is one less than the
element. -/
theorem callsOnce_count {count : UInt32} (isCount : loop.loopValue = .count count)
    (limited : Limited names limit vars) (below : index < limit.toNat)
    (returns : (loop.turn engine program names registry (fuel + 3) home
      ((loop.head settings names).bind (.ofUInt64 (.ofNat (index + 1))) index vars)
        world).BodyReturns names) :
    Engine.CallsOnce names (Limited names limit) (.ofUInt64 (.ofNat (index + 1))) index
      (loop.turn engine program names registry (fuel + 3) home
        ((loop.head settings names).bind (.ofUInt64 (.ofNat (index + 1))) index vars) world) := by
  have ran (vars : Table Json) :
      loop.turn engine program names registry (fuel + 3) home vars world =
        engine.runStep program (fuel + 2) home (loop.bodyCall names registry) vars world := by
    rw [turn, iteration, isCount]
    exact run_bodyCall _
  rw [ran] at returns ⊢
  refine callsOnce_bodyCall acyclic proper (limited.bind proper ..)
    (iterates.stored _ List.mem_cons_self _ _ (get?_item_bind ..)) ?_ returns
  have positive : 0 < (UInt64.ofNat (index + 1)).toNat := by
    rw [toNat_ofNat_index below]
    exact Nat.succ_pos index
  have before := iterates.before _ _ positive (get?_item_bind settings names loop _ index vars)
  have earlier : UInt64.ofNat (index + 1) - 1 = .ofNat index := by
    rw [UInt64.ofNat_add]
    exact UInt64.add_sub_cancel _ 1
  rw [earlier] at before
  rw [indexValue, isCount]
  exact before

end

end

end LoopStart

end FlowCompiler
