import FlowCompiler.Proofs.BoundedJumps
import FlowCompiler.Proofs.Confinement
import FlowCompiler.Proofs.FinalAborts
import FlowCompiler.Proofs.LoopTurns

namespace FlowCompiler

/-! How often a loop calls its body. An iteration over a list is broken off at the limit, while
counting stops at the smaller one of the count and the limit. Both call the body alike: once for
each element up to the limit, in order. -/

open Expression Lowering Step

/-! ## Iterations -/

namespace Engine

variable {World : Type}

/-! The results of the turns of an iteration, which goes on behind a turn that is done. -/

def turns (turn : Table Json → World → Result World) (head : LoopHead) :
    List Json → Nat → Table Json → World → List (Result World)
  | [], _, _, _ => []
  | element :: rest, index, vars, world =>
      let result := turn (head.bind element index vars) world
      match result.outcome with
      | .done => result :: turns turn head rest (index + 1) result.vars result.world
      | _ => [result]

/-- If each turn for one of the elements in front calls the body once, the iteration goes on to the
elements behind them, and has called the body once for each one in front, in their order. -/
theorem iterate_append {turn : Table Json → World → Result World} {head : LoopHead} {names : Names}
    (Holds : Table Json → Prop) (back : List Json) (front : List Json) :
    ∀ {index : Nat} {vars : Table Json} {world : World}, Holds vars →
      (∀ result ∈ turns turn head (front ++ back) index vars world, result.BodyReturns names) →
      (∀ step ∈ front.zipIdx index, ∀ vars world, Holds vars →
        (turn (head.bind step.1 step.2 vars) world).BodyReturns names →
          CallsOnce names Holds step.1 step.2 (turn (head.bind step.1 step.2 vars) world)) →
      ∃ vars' world' events, Holds vars' ∧
        iterate turn head (front ++ back) index vars world =
          (iterate turn head back (index + front.length) vars' world').after events ∧
        (LoopStart.bodyCalls names events).map Event.passed = LoopStart.passes front index := by
  induction front with
  | nil => exact fun {index vars world} holds _ _ => ⟨vars, world, [], holds, rfl, rfl⟩
  | cons element rest induction =>
      intro index vars world holds returns once
      let result := turn (head.bind element index vars) world
      have unfolded : turns turn head (element :: (rest ++ back)) index vars world =
          match result.outcome with
          | .done => result :: turns turn head (rest ++ back) (index + 1) result.vars result.world
          | _ => [result] := rfl
      rw [List.cons_append, unfolded] at returns
      have own := once (element, index) List.mem_cons_self vars world holds
        (returns result (by split <;> exact List.mem_cons_self))
      have done : (turn (head.bind element index vars) world).outcome = .done := own.done
      have step : iterate turn head (element :: (rest ++ back)) index vars world =
          (iterate turn head (rest ++ back) (index + 1) result.vars result.world).after
            (result.events.map Event.inIteration) := by
        rw [iterate]
        simp only [done]
        rfl
      simp only [result, done] at returns
      rcases induction own.holds (fun later member => returns later (List.mem_cons_of_mem _ member))
        (fun step member => once step (List.mem_cons_of_mem _ member)) with
        ⟨vars', world', events, held, iterated, passed⟩
      refine ⟨vars', world', result.events.map Event.inIteration ++ events, held, ?_, ?_⟩
      · rw [List.cons_append, step, List.length_cons]
        simp only [result, iterated, Result.after, List.append_assoc]
        rw [Nat.add_right_comm, Nat.add_assoc]
      · rw [LoopStart.bodyCalls_append, List.map_append, LoopStart.passed_inIteration, own.calls,
          passed]
        rfl

end Engine

namespace LoopStart

variable {World : Type} {engine : Engine World} {program : Program} {names : Names}

/-! ## Loops -/

section

variable {settings : Settings} {loop : LoopStart} {registry : Registry} {fuel : Nat}
  {home : String} {vars : Table Json} {world : World} {items : List Json}

/-- The loop is about these elements: those that the list has, or the numbers up to the count. -/
def Supplies (engine : Engine World) (settings : Settings) (names : Names) (vars : Table Json)
    (loop : LoopStart) (items : List Json) : Prop :=
  match loop.loopValue with
  | .list expression =>
      engine.evaluate (vars.insert (limitVariable names) (.ofUInt32 (loop.limit settings)))
        (listValue expression) = some (.array items)
  | .count number =>
      items = (List.range number.toNat).map fun index => .ofUInt64 (.ofNat (index + 1))

/-- The elements of the iteration. Those beyond the limit are left out where the loop counts. -/
def hosted (settings : Settings) (loop : LoopStart) (items : List Json) : List Json :=
  match loop.loopValue with
  | .list _ => items
  | .count _ => items.take (loop.limit settings).toNat

def entered (settings : Settings) (names : Names) (loop : LoopStart) (items : List Json)
    (vars : Table Json) : Table Json :=
  let limited := vars.insert (limitVariable names) (.ofUInt32 (loop.limit settings))
  match loop.loopValue with
  | .list _ => limited.insert (listVariable names) (.array items)
  | .count _ => limited

theorem limited_entered :
    Limited names (loop.limit settings) (loop.entered settings names items vars) := by
  rw [Limited, entered]
  cases loop.loopValue with
  | list expression =>
      have other : listVariable names ≠ limitVariable names := names.step_ne (by decide)
      dsimp only
      rw [Table.get?_insert, if_neg other, Table.get?_insert, if_pos rfl]
  | count number =>
      dsimp only
      rw [Table.get?_insert, if_pos rfl]

theorem assign_setup (iterates : engine.Iterates names)
    (supplied : loop.Supplies engine settings names vars items) :
    engine.assign vars (loop.setup settings names) =
      some (loop.entered settings names items vars) := by
  rw [Supplies] at supplied
  rw [setup, Engine.assign, iterates.number, entered]
  cases own : loop.loopValue with
  | list expression =>
      rw [own] at supplied
      dsimp only at supplied ⊢
      rw [Option.bind_eq_bind, Option.bind_some, Engine.assign, supplied]
      rfl
  | count number => rfl

theorem elements_entered (iterates : engine.Iterates names)
    (supplied : loop.Supplies engine settings names vars items) :
    engine.elements (loop.entered settings names items vars) (loop.head settings names).source =
      some (loop.hosted settings items) := by
  rw [Supplies] at supplied
  rw [head, entered, hosted]
  cases own : loop.loopValue with
  | list expression =>
      have stored := iterates.stored (listVariable names)
        (List.mem_cons_of_mem _ (List.mem_cons_of_mem _ List.mem_cons_self))
        (loop.entered settings names items vars) (.array items) (by
          rw [entered, own]
          dsimp only
          rw [Table.get?_insert, if_pos rfl])
      rw [entered, own] at stored
      dsimp only at stored ⊢
      rw [Engine.elements, stored]
      rfl
  | count number =>
      rw [own] at supplied
      dsimp only at supplied ⊢
      have one : (1 : UInt32).toNat = 1 := rfl
      rw [Engine.elements, supplied, ← List.map_take, List.take_range, List.range'_eq_map_range,
        List.map_map, UInt32.toNat_min, Nat.min_comm, one, Nat.add_sub_cancel]
      simp only [Function.comp_def, Nat.add_comm 1]

theorem mem_zipIdx_take {elements : List Json} {most : Nat} {step : Json × Nat}
    (member : step ∈ (elements.take most).zipIdx) :
    step.2 < most ∧ elements[step.2]? = some step.1 := by
  have found := List.mk_mem_zipIdx_iff_getElem?.mp (show (step.1, step.2) ∈ _ from member)
  rw [List.getElem?_take] at found
  split at found
  case isTrue below => exact ⟨below, found⟩
  case isFalse => cases found

/-- At the limit, an iteration over a list is left without a call of the body. -/
theorem exists_iterate_drop (proper : names.Proper) (iterates : engine.Iterates names)
    {expression : String} (isList : loop.loopValue = .list expression)
    (limited : Limited names (loop.limit settings) vars) :
    ∃ later events,
      Engine.iterate (loop.turn engine program names registry (fuel + 3) home)
        (loop.head settings names) (items.drop (loop.limit settings).toNat)
          (items.take (loop.limit settings).toNat).length vars world =
            ⟨.done, later, world, events⟩ ∧ bodyCalls names events = [] := by
  cases left : items.drop (loop.limit settings).toNat with
  | nil => exact ⟨vars, [], rfl, rfl⟩
  | cons element rest =>
      have beyond : (loop.limit settings).toNat < items.length := by
        refine Nat.lt_of_not_le fun all => ?_
        rw [List.drop_eq_nil_of_le all] at left
        cases left
      rw [List.length_take_of_le (Nat.le_of_lt beyond)]
      rw [Engine.iterate, turn_list iterates isList (limited.bind proper ..)
        (get?_index_bind isList ..) (Nat.le_refl _), if_pos (Nat.le_refl _)]
      exact ⟨_, _, if_pos rfl, rfl⟩

/-- In the iteration, the elements up to the limit are followed by none for which the body is
called. -/
theorem exists_hosted_eq_append (proper : names.Proper) (iterates : engine.Iterates names)
    (program : Program) (settings : Settings) (registry : Registry) (loop : LoopStart) (fuel : Nat)
    (home : String) (items : List Json) :
    ∃ back, loop.hosted settings items = items.take (loop.limit settings).toNat ++ back ∧
      ∀ vars world, Limited names (loop.limit settings) vars →
        ∃ later events,
          Engine.iterate (loop.turn engine program names registry (fuel + 3) home)
            (loop.head settings names) back (items.take (loop.limit settings).toNat).length vars
              world = ⟨.done, later, world, events⟩ ∧ bodyCalls names events = [] := by
  rw [hosted]
  cases own : loop.loopValue with
  | list expression =>
      exact ⟨_, (List.take_append_drop _ items).symm, fun vars world limited =>
        exists_iterate_drop proper iterates own limited⟩
  | count number =>
      exact ⟨[], (List.append_nil _).symm, fun vars world _ => ⟨vars, [], rfl, rfl⟩⟩

theorem callsOnce_of_mem_take (acyclic : ∀ name, ¬ Relation.TransGen program.Calls name name)
    (proper : names.Proper) (iterates : engine.Iterates names) {entry : Table Json}
    (supplied : loop.Supplies engine settings names entry items) {step : Json × Nat}
    (member : step ∈ (items.take (loop.limit settings).toNat).zipIdx)
    (limited : Limited names (loop.limit settings) vars)
    (returns : (loop.turn engine program names registry (fuel + 3) home
      ((loop.head settings names).bind step.1 step.2 vars) world).BodyReturns names) :
    Engine.CallsOnce names (Limited names (loop.limit settings)) step.1 step.2
      (loop.turn engine program names registry (fuel + 3) home
        ((loop.head settings names).bind step.1 step.2 vars) world) := by
  rcases step with ⟨element, index⟩
  rcases mem_zipIdx_take member with ⟨below, found⟩
  dsimp only at below found
  rw [Supplies] at supplied
  cases own : loop.loopValue with
  | list expression => exact callsOnce_list acyclic proper iterates own limited below returns
  | count number =>
      rw [own] at supplied
      rw [supplied, List.getElem?_map] at found
      rcases Option.map_eq_some_iff.mp found with ⟨position, among, rfl⟩
      rcases List.getElem?_eq_some_iff.mp among with ⟨_, same⟩
      rw [List.getElem_range] at same
      cases same
      exact callsOnce_count acyclic proper iterates own limited below returns

/-- The iteration calls the body for each of the elements up to the limit, and then it ends. -/
theorem exists_iterated (acyclic : ∀ name, ¬ Relation.TransGen program.Calls name name)
    (proper : names.Proper) (iterates : engine.Iterates names) {entry : Table Json}
    (supplied : loop.Supplies engine settings names entry items)
    (limited : Limited names (loop.limit settings) vars)
    (returns : ∀ result ∈ Engine.turns (loop.turn engine program names registry (fuel + 3) home)
      (loop.head settings names) (loop.hosted settings items) 0 vars world,
        result.BodyReturns names) :
    ∃ later world' events,
      Engine.iterate (loop.turn engine program names registry (fuel + 3) home)
        (loop.head settings names) (loop.hosted settings items) 0 vars world =
          ⟨.done, later, world', events⟩ ∧
      (bodyCalls names events).map Event.passed =
        passes (items.take (loop.limit settings).toNat) 0 := by
  rcases exists_hosted_eq_append proper iterates program settings registry loop fuel home items
    with ⟨back, split, behind⟩
  rw [split] at returns ⊢
  rcases Engine.iterate_append (Limited names (loop.limit settings)) back _ limited returns
    (fun step member vars world => callsOnce_of_mem_take acyclic proper iterates supplied member)
    with ⟨later, world', events, held, iterated, passed⟩
  rcases behind later world' held with ⟨last, others, left, silent⟩
  refine ⟨last, world', events ++ others, ?_, ?_⟩
  · rw [iterated, Nat.zero_add, left]
    rfl
  · rw [bodyCalls_append, silent, List.append_nil, passed]

def turns (engine : Engine World) (program : Program) (settings : Settings) (names : Names)
    (registry : Registry) (loop : LoopStart) (fuel : Nat) (home : String) (vars : Table Json)
    (world : World) : List (Result World) :=
  ((engine.assign vars (loop.setup settings names)).bind fun entered =>
    (engine.elements entered (loop.head settings names).source).map fun elements =>
      Engine.turns (loop.turn engine program names registry fuel home) (loop.head settings names)
        elements 0 entered world).getD []

structure Called (settings : Settings) (names : Names) (loop : LoopStart) (items : List Json)
    (events : List Event) : Prop where
  times : (bodyCalls names events).length = min items.length (loop.limit settings).toNat
  indices : (bodyCalls names events).map (fun event => event.args.get? Registry.loopIndex) =
    (List.range (min items.length (loop.limit settings).toNat)).map fun index =>
      some (.ofUInt64 (.ofNat index))
  elements : (bodyCalls names events).map (fun event => event.args.get? Registry.loopItem) =
    (items.take (loop.limit settings).toNat).map some

theorem called_of_passed {events : List Event}
    (passed : (bodyCalls names events).map Event.passed =
      passes (items.take (loop.limit settings).toNat) 0) :
    loop.Called settings names items events := by
  have few : (items.take (loop.limit settings).toNat).length =
      min items.length (loop.limit settings).toNat := by
    rw [List.length_take, Nat.min_comm]
  constructor
  case times =>
    have lengths := congrArg List.length passed
    rwa [passes, List.length_map, List.length_map, List.length_zipIdx, few] at lengths
  case indices =>
    have indices := congrArg (List.map Prod.snd) passed
    rw [passes, List.map_map, List.map_map] at indices
    refine indices.trans ?_
    rw [← few, List.range_eq_range', ← List.zipIdx_map_snd 0 (items.take _), List.map_map]
    rfl
  case elements =>
    have elements := congrArg (List.map Prod.fst) passed
    rw [passes, List.map_map, List.map_map] at elements
    refine elements.trans ?_
    conv => rhs; rw [← List.zipIdx_map_fst 0 (items.take _), List.map_map]
    rfl

/-- The steps of the loop call the body up to the limit, and the run goes on behind them. -/
theorem exists_run_steps (acyclic : ∀ name, ¬ Relation.TransGen program.Calls name name)
    (proper : names.Proper) (iterates : engine.Iterates names)
    (supplied : loop.Supplies engine settings names vars items)
    (returns : ∀ result ∈ loop.turns engine program settings names registry (fuel + 3) home vars
      world, result.BodyReturns names) (list rest : List Step) :
    ∃ later world' events, loop.Called settings names items events ∧
      engine.run program (fuel + 5) home list (loop.steps settings names registry ++ rest) vars
        world = (engine.run program (fuel + 3) home list rest later world').after events := by
  have assigned := assign_setup iterates supplied
  have elements := elements_entered iterates supplied
  rw [turns, assigned, Option.bind_some, elements] at returns
  rcases exists_iterated acyclic proper iterates supplied limited_entered returns with
    ⟨later, world', events, iterated, passed⟩
  let event (step : Step) : Event := ⟨home, step, .empty, false⟩
  let setup : Step := .assign (names.step "setup") (loop.setup settings names)
  let host : Step := .loop (names.step "iterate") (loop.head settings names)
    (loop.iteration names registry)
  have prepared : engine.runStep program (fuel + 4) home setup vars world =
      ⟨.done, loop.entered settings names items vars, world, [event setup]⟩ := by
    rw [Engine.runStep, Engine.step]
    simp only [assigned]
    rfl
  have hosted : engine.runStep program (fuel + 3) home host
      (loop.entered settings names items vars) world =
        ⟨.done, later, world', event host :: events⟩ := by
    rw [Engine.runStep, Engine.step]
    simp only [elements]
    exact congrArg (Result.after [event host]) iterated
  refine ⟨later, world', event setup :: event host :: events, called_of_passed ?_, ?_⟩
  · rw [bodyCalls_cons_of_neg rfl, bodyCalls_cons_of_neg rfl, passed]
  · change engine.run program (fuel + 5) home list (setup :: host :: rest) vars world = _
    rw [Engine.run_of_done (by rw [prepared]), prepared, Engine.run_of_done (by rw [hosted]),
      hosted]
    rfl

end

end LoopStart

/-! ## Loops of programs -/

namespace Compile

variable {settings : Settings} {lookup : BranchLookup} {flow : Flow} {program : Program}
  {visit : Visit} {loop : LoopStart}

/-- The block of a visited loop start begins with the steps of the loop. -/
theorem exists_block_of_loop (built : build settings lookup flow = .ok program)
    (among : visit ∈ visits lookup flow) (isLoop : visit.node.kind = .loopStart loop) :
    ∃ home scope next, (home, .block visit.names.result
      (loop.steps settings visit.names scope.registry ++ Walk.steps settings scope next)) ∈
        program.sites := by
  cases found : origin? lookup flow with
  | none =>
      rw [visits, found] at among
      cases among
  | some origin =>
      rw [visits, found] at among
      rcases Walk.exists_trail_of_mem_visits among with ⟨legs, part, trail, first⟩
      have stands := (stands_origin built found).trail trail
      have roles := stands.roles
      cases part with
      | done => cases first
      | terminal =>
          cases first
          rw [Walk.InRoles, isLoop] at roles
          cases roles
      | action | fork | subflow =>
          cases first
          rw [Walk.InRoles, isLoop] at roles
          cases roles.1
      | loop own start body next =>
          cases first
          rw [Walk.InRoles, isLoop] at roles
          cases roles.1
          exact ⟨_, _, next, stands.emitted (List.mem_map_of_mem (f := Emission.site)
            List.mem_cons_self)⟩

end Compile

def Compile.countingFlow : Flow where
  flowId := "count"
  title := "Count"
  organisationId := "shop"
  branchId := "north"
  nodes := [
    ⟨"start", "Start", .trigger ⟨none⟩⟩,
    ⟨"each", "Each", .loopStart ⟨.list "order.items", some 2⟩⟩,
    ⟨"note", "Note", .sendText ⟨"Hello", false, none, none⟩⟩,
    ⟨"done", "Done", .loopEnd⟩,
    ⟨"again", "Again", .loopStart ⟨.count 3, some 2⟩⟩,
    ⟨"bye", "Bye", .sendText ⟨"Bye", false, none, none⟩⟩,
    ⟨"over", "Over", .loopEnd⟩]
  edges := [
    ⟨"1", "start", "each", "next-step"⟩,
    ⟨"2", "each", "note", "next-step"⟩,
    ⟨"3", "note", "done", "next-step"⟩,
    ⟨"4", "done", "again", "next-step"⟩,
    ⟨"5", "again", "bye", "next-step"⟩,
    ⟨"6", "bye", "over", "next-step"⟩]

namespace Engine

def iteratingExpressions (names : Names) : List Json :=
  [ofVariable Registry.loopItem, ofVariable Registry.loopIndex,
    ofVariable (LoopStart.listVariable names),
    Expression.evaluate (Registry.loopIndex ++ " >= " ++ LoopStart.limitVariable names),
    Expression.evaluate (Registry.loopItem ++ " - 1")]

def looping (names : Names) (list : String) (items : List Json) : Engine Unit where
  evaluate vars value :=
    match (iteratingExpressions names).idxOf value with
    | 0 => vars.get? Registry.loopItem
    | 1 => vars.get? Registry.loopIndex
    | 2 => vars.get? (LoopStart.listVariable names)
    | 3 =>
        match vars.get? Registry.loopIndex, vars.get? (LoopStart.limitVariable names) with
        | some (.number (.natural index)), some (.number (.natural limit)) =>
            some (.bool (limit.toNat ≤ index.toNat))
        | _, _ => none
    | 4 => withCount vars Registry.loopItem fun number => .ofUInt64 (number - 1)
    | _ => some (if value = Expression.evaluate list then .array items else value)
  perform world _ _ := (some .null, world)

theorem iterates_looping {names : Names} {list : String} {items : List Json}
    (distinct : (iteratingExpressions names).Nodup) :
    (looping names list items).Iterates names := by
  constructor
  case number =>
    intro vars value
    have other : (iteratingExpressions names).idxOf (.ofUInt32 value) = 5 :=
      List.idxOf_of_notMem
        (by simp [iteratingExpressions, ofVariable, Expression.evaluate, Json.ofUInt32])
    have unlisted : Json.ofUInt32 value ≠ Expression.evaluate list := by
      simp [Expression.evaluate, Json.ofUInt32]
    simp only [looping, other, if_neg unlisted]
  case stored =>
    intro name among vars value current
    have places : ∀ name ∈
        [Registry.loopItem, Registry.loopIndex, LoopStart.listVariable names],
          (looping names list items).evaluate vars (ofVariable name) = vars.get? name := by
      have item : (iteratingExpressions names).idxOf (ofVariable Registry.loopItem) = 0 :=
        distinct.idxOf_getElem 0 (by decide : 0 < 5)
      have index : (iteratingExpressions names).idxOf (ofVariable Registry.loopIndex) = 1 :=
        distinct.idxOf_getElem 1 (by decide : 1 < 5)
      have values : (iteratingExpressions names).idxOf
          (ofVariable (LoopStart.listVariable names)) = 2 :=
        distinct.idxOf_getElem 2 (by decide : 2 < 5)
      simp [looping, item, index, values]
    rw [places name among, current]
  case reached =>
    intro vars index limit current limited
    have place : (iteratingExpressions names).idxOf (Expression.evaluate
        (Registry.loopIndex ++ " >= " ++ LoopStart.limitVariable names)) = 3 :=
      distinct.idxOf_getElem 3 (by decide : 3 < 5)
    simp only [looping, place, current, limited]
    rfl
  case before =>
    intro vars number _ current
    have place : (iteratingExpressions names).idxOf
        (Expression.evaluate (Registry.loopItem ++ " - 1")) = 4 :=
      distinct.idxOf_getElem 4 (by decide : 4 < 5)
    simp only [looping, place, withCount_eq current]

end Engine

instance {World : Type} (names : Names) (result : Result World) :
    Decidable (result.BodyReturns names) :=
  inferInstanceAs (Decidable (_ → _))

end FlowCompiler
