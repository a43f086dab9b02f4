import FlowCompiler.Proofs.Jumps

namespace FlowCompiler

/-! How an engine runs the steps of a program. A run is described up to a bound on its length, so
that it may be cut off anywhere; whatever holds of all bounds holds of a run that never ends,
too. -/

open Step

/-! ## Runs -/

inductive Outcome where
  | done
  /-- The run goes on at another step. -/
  | jump (target : String)
  | returned (value : Json)
  | raised
  /-- The run has been cut off. -/
  | pending
deriving DecidableEq

structure Event where
  routine : String
  step : Step
  /-- The values of the arguments of a call. -/
  args : Table Json
  /-- Whether the step was run in an iteration. -/
  iterating : Bool

def Event.inIteration (event : Event) : Event :=
  { event with iterating := true }

structure Result (World : Type) where
  outcome : Outcome
  vars : Table Json
  world : World
  events : List Event

structure Engine (World : Type) where
  /-- The value of an expression, unless evaluating it raises an error. -/
  evaluate : Table Json → Json → Option Json
  /-- Call a primitive with these arguments; there is no value where the call raises an error. -/
  perform : World → Call → Table Json → Option Json × World

namespace Result

variable {World : Type}

def after (events : List Event) (result : Result World) : Result World :=
  { result with events := events ++ result.events }

/-- The result of a call, for the caller with these variables: what the routine returns is stored,
and nothing else changes. -/
def handOver (vars : Table Json) (name : Option String) (callee : Result World) : Result World :=
  match callee.outcome with
  | .done => ⟨.done, bind vars name .null, callee.world, callee.events⟩
  | .returned value => ⟨.done, bind vars name value, callee.world, callee.events⟩
  | .jump _ | .raised => ⟨.raised, vars, callee.world, callee.events⟩
  | .pending => ⟨.pending, vars, callee.world, callee.events⟩
where
  bind (vars : Table Json) (name : Option String) (value : Json) : Table Json :=
    match name with
    | some name => vars.insert name value
    | none => vars

/-- The result of a case of a switch: the run jumps behind the steps of the case if it names a
target. -/
def follow (next : Option String) (result : Result World) : Result World :=
  match result.outcome with
  | .done =>
      match next with
      | some target => { result with outcome := .jump target }
      | none => result
  | _ => result

end Result

def LoopHead.bind (head : LoopHead) (element : Json) (index : Nat) (vars : Table Json) :
    Table Json :=
  let vars := vars.insert head.value element
  match head.index with
  | some name => vars.insert name (.ofUInt64 (.ofNat index))
  | none => vars

def Step.from? (target : String) : List Step → Option (List Step)
  | [] => none
  | step :: rest => if step.name = target then some (step :: rest) else from? target rest

namespace Engine

variable {World : Type} (engine : Engine World) (program : Program)

def evaluateArgs (vars : Table Json) (args : Table Json) : Option (Table Json) :=
  (args.entries.mapM fun entry => (engine.evaluate vars entry.2).map (Prod.mk entry.1)).map
    Table.ofList

def assign (vars : Table Json) : List (String × Json) → Option (Table Json)
  | [] => some vars
  | (name, value) :: rest => do
      let value ← engine.evaluate vars value
      assign (vars.insert name value) rest

def choose (vars : Table Json) : List Case → Option (Option Case)
  | [] => some none
  | branch :: rest =>
      match branch.condition with
      | none => some (some branch)
      | some condition => do
          let value ← engine.evaluate vars condition
          if value = .bool true then some (some branch) else choose vars rest

def elements (vars : Table Json) : LoopSource → Option (List Json)
  | .list value => do
      match ← engine.evaluate vars value with
      | .array items => some items
      | _ => none
  | .range first last =>
      some ((List.range' first.toNat (last.toNat + 1 - first.toNat)).map
        fun number => .ofUInt64 (.ofNat number))

def iterate (turn : Table Json → World → Result World) (head : LoopHead) :
    List Json → Nat → Table Json → World → Result World
  | [], _, vars, world => ⟨.done, vars, world, []⟩
  | element :: rest, index, vars, world =>
      let result := turn (head.bind element index vars) world
      let events := result.events.map Event.inIteration
      match result.outcome with
      | .done => (iterate turn head rest (index + 1) result.vars result.world).after events
      | .jump target =>
          if target = "break" then ⟨.done, result.vars, result.world, events⟩
          else { result with events }
      | _ => { result with events }

def step (inner : String → List Step → Table Json → World → Result World) (home : String)
    (vars : Table Json) (world : World) (step : Step) : Result World :=
  let event : Event := ⟨home, step, .empty, false⟩
  match step with
  | .call _ made =>
      match engine.evaluateArgs vars made.args with
      | none => ⟨.raised, vars, world, [event]⟩
      | some args =>
          let events : List Event := [{ event with args }]
          if Primitive.isPrimitive made.target then
            let (value?, world) := engine.perform world made args
            match value? with
            | some value => ⟨.done, Result.handOver.bind vars made.result value, world, events⟩
            | none => ⟨.raised, vars, world, events⟩
          else
            match program.routines.get? made.target with
            | some routine =>
                ((inner made.target routine.steps args world).handOver vars made.result).after events
            | none => ⟨.raised, vars, world, events⟩
  | .assign _ bindings =>
      match engine.assign vars bindings with
      | some vars => ⟨.done, vars, world, [event]⟩
      | none => ⟨.raised, vars, world, [event]⟩
  | .switch _ cases =>
      match engine.choose vars cases with
      | none => ⟨.raised, vars, world, [event]⟩
      | some none => ⟨.done, vars, world, [event]⟩
      | some (some branch) =>
          ((inner home branch.steps vars world).follow branch.next).after [event]
  | .block _ steps => (inner home steps vars world).after [event]
  | .loop _ head steps =>
      match engine.elements vars head.source with
      | none => ⟨.raised, vars, world, [event]⟩
      | some elements =>
          (iterate (fun vars world => inner home steps vars world) head elements 0 vars world).after
            [event]
  | .raise _ _ => ⟨.raised, vars, world, [event]⟩
  | .return _ value =>
      match engine.evaluate vars value with
      | some value => ⟨.returned value, vars, world, [event]⟩
      | none => ⟨.raised, vars, world, [event]⟩

/-- Run the steps `rest` of a list in the routine `home`, within the given bound. A jump leads to a
step of the list if there is one with its name, and otherwise out of the list. -/
def run : Nat → String → List Step → List Step → Table Json → World → Result World
  | 0, _, _, _, vars, world => ⟨.pending, vars, world, []⟩
  | _ + 1, _, _, [], vars, world => ⟨.done, vars, world, []⟩
  | fuel + 1, home, list, first :: rest, vars, world =>
      let result := engine.step program (fun home steps => run fuel home steps steps) home
        vars world first
      match result.outcome with
      | .done => (run fuel home list rest result.vars result.world).after result.events
      | .jump target =>
          match from? target list with
          | some rest =>
              (run fuel home list rest result.vars result.world).after result.events
          | none => result
      | _ => result

def runStep (fuel : Nat) (home : String) (step : Step) (vars : Table Json) (world : World) :
    Result World :=
  engine.step program (fun home steps => engine.run program fuel home steps steps) home vars world
    step

def runRoutine (fuel : Nat) (name : String) (routine : Routine) (args : Table Json)
    (world : World) : Result World :=
  engine.run program fuel name routine.steps routine.steps args world

/-! ## What steps do -/

inductive Does (inner : String → List Step → Table Json → World → Result World) (home : String)
    (vars : Table Json) (world : World) : Step → Result World → Prop
  | raise {step : Step} {args : Table Json} {world' : World} :
      Does inner home vars world step ⟨.raised, vars, world', [⟨home, step, args, false⟩]⟩
  | perform {name : String} {made : Call} {args : Table Json} {value : Json} {world' : World}
      (primitive : Primitive.isPrimitive made.target) :
      Does inner home vars world (.call name made)
        ⟨.done, Result.handOver.bind vars made.result value, world',
          [⟨home, .call name made, args, false⟩]⟩
  | call {name : String} {made : Call} {args : Table Json} {routine : Routine}
      (generated : Primitive.isPrimitive made.target = false)
      (found : program.routines.get? made.target = some routine) :
      Does inner home vars world (.call name made)
        (((inner made.target routine.steps args world).handOver vars made.result).after
          [⟨home, .call name made, args, false⟩])
  | assign {name : String} {bindings : List (String × Json)} {vars' : Table Json}
      (assigned : engine.assign vars bindings = some vars') :
      Does inner home vars world (.assign name bindings)
        ⟨.done, vars', world, [⟨home, .assign name bindings, .empty, false⟩]⟩
  | pass {name : String} {cases : List Case} (none : engine.choose vars cases = some none) :
      Does inner home vars world (.switch name cases)
        ⟨.done, vars, world, [⟨home, .switch name cases, .empty, false⟩]⟩
  | choose {name : String} {cases : List Case} {branch : Case}
      (chosen : engine.choose vars cases = some (some branch)) :
      Does inner home vars world (.switch name cases)
        (((inner home branch.steps vars world).follow branch.next).after
          [⟨home, .switch name cases, .empty, false⟩])
  | block {name : String} {steps : List Step} :
      Does inner home vars world (.block name steps)
        ((inner home steps vars world).after [⟨home, .block name steps, .empty, false⟩])
  | loop {name : String} {head : LoopHead} {steps : List Step} {elements : List Json}
      (source : engine.elements vars head.source = some elements) :
      Does inner home vars world (.loop name head steps)
        ((iterate (fun vars world => inner home steps vars world) head elements 0 vars world).after
          [⟨home, .loop name head steps, .empty, false⟩])
  | return {name : String} {value result : Json}
      (evaluated : engine.evaluate vars value = some result) :
      Does inner home vars world (.return name value)
        ⟨.returned result, vars, world, [⟨home, .return name value, .empty, false⟩]⟩

section

variable {engine : Engine World} {program : Program}
  {inner : String → List Step → Table Json → World → Result World} {home : String}

theorem does_step (vars : Table Json) (world : World) (step : Step) :
    engine.Does program inner home vars world step
      (engine.step program inner home vars world step) := by
  rw [Engine.step.eq_def]
  cases step with
  | call name made =>
      simp only []
      split
      · exact .raise
      · split
        · rename_i primitive
          split
          · exact .perform primitive
          · exact .raise
        · rename_i generated
          split
          · rename_i found
            exact .call (by simpa using generated) found
          · exact .raise
  | assign name bindings =>
      simp only []
      split
      · rename_i assigned
        exact .assign assigned
      · exact .raise
  | switch name cases =>
      simp only []
      split
      · exact .raise
      · rename_i none
        exact .pass none
      · rename_i chosen
        exact .choose chosen
  | block name steps => exact .block
  | loop name head steps =>
      simp only []
      split
      · exact .raise
      · rename_i source
        exact .loop source
  | raise name value => exact .raise
  | «return» name value =>
      simp only []
      split
      · rename_i evaluated
        exact .return evaluated
      · exact .raise

theorem does_runStep (engine : Engine World) (program : Program) (fuel : Nat) (home : String)
    (step : Step) (vars : Table Json) (world : World) :
    engine.Does program (fun home steps => engine.run program fuel home steps steps) home vars world
      step (engine.runStep program fuel home step vars world) :=
  does_step vars world step

/-! ## What runs do -/

inductive Follows (list rest : List Step) : Outcome → List Step → Prop
  | done : Follows list rest .done rest
  | jump {target : String} {later : List Step} (found : from? target list = some later) :
      Follows list rest (.jump target) later

theorem Follows.done_or_jump {list rest later : List Step} {outcome : Outcome}
    (follows : Follows list rest outcome later) : outcome = .done ∧ later = rest ∨
      ∃ target, outcome = .jump target ∧ from? target list = some later := by
  cases follows with
  | done => exact .inl ⟨rfl, rfl⟩
  | jump found => exact .inr ⟨_, rfl, found⟩

theorem Follows.eq_rest {list rest later : List Step} {outcome : Outcome}
    (follows : Follows list rest outcome later) (stays : ∀ target, outcome ≠ .jump target) :
    outcome = .done ∧ later = rest :=
  follows.done_or_jump.resolve_right fun ⟨target, jumps, _⟩ => stays target jumps

/-- A run goes on behind its first step, or it ends with it. -/
theorem run_cons (engine : Engine World) (program : Program) (fuel : Nat) (home : String)
    (list : List Step) (first : Step) (rest : List Step) (vars : Table Json) (world : World) :
    let result := engine.runStep program fuel home first vars world
    (∃ later, Follows list rest result.outcome later ∧
      engine.run program (fuel + 1) home list (first :: rest) vars world =
        (engine.run program fuel home list later result.vars result.world).after result.events) ∨
    (∀ later, ¬ Follows list rest result.outcome later) ∧
      engine.run program (fuel + 1) home list (first :: rest) vars world = result := by
  intro result
  have unfolded : engine.run program (fuel + 1) home list (first :: rest) vars world =
      match result.outcome with
      | .done =>
          (engine.run program fuel home list rest result.vars result.world).after result.events
      | .jump target =>
          match from? target list with
          | some later =>
              (engine.run program fuel home list later result.vars result.world).after result.events
          | none => result
      | _ => result := rfl
  rw [unfolded]
  cases result.outcome with
  | done => exact .inl ⟨rest, .done, rfl⟩
  | jump target =>
      dsimp only
      cases found : from? target list with
      | some later => exact .inl ⟨later, .jump found, rfl⟩
      | none =>
          refine .inr ⟨fun later follows => ?_, rfl⟩
          cases follows with
          | jump other => cases found.symm.trans other
  | returned | raised | pending => exact .inr ⟨fun later follows => (by cases follows), rfl⟩

/-- A case that is chosen holds, and none in front of it does. -/
theorem exists_split_of_choose {vars : Table Json} {branch : Case} : ∀ {cases : List Case},
    engine.choose vars cases = some (some branch) →
      ∃ earlier later, cases = earlier ++ branch :: later ∧
        (∀ condition ∈ branch.condition, engine.evaluate vars condition = some (.bool true)) ∧
        ∀ other ∈ earlier, ∃ condition ∈ other.condition,
          engine.evaluate vars condition ≠ some (.bool true)
  | [], chosen => by cases chosen
  | first :: rest, chosen => by
      rw [choose] at chosen
      cases tested : first.condition with
      | none =>
          rw [tested] at chosen
          cases chosen
          exact ⟨[], rest, rfl, by simp [tested], by simp⟩
      | some condition =>
          rw [tested] at chosen
          rcases Option.bind_eq_some_iff.mp chosen with ⟨value, evaluated, chosen⟩
          by_cases holds : value = .bool true
          · rw [if_pos holds] at chosen
            cases chosen
            refine ⟨[], rest, rfl, ?_, by simp⟩
            rintro other isCondition
            rw [tested] at isCondition
            cases isCondition
            rw [evaluated, holds]
          · rw [if_neg holds] at chosen
            rcases exists_split_of_choose chosen with ⟨earlier, later, split, own, others⟩
            refine ⟨first :: earlier, later, by rw [split]; rfl, own, fun other member => ?_⟩
            rcases List.mem_cons.mp member with equal | member
            · refine ⟨condition, equal ▸ tested, ?_⟩
              rw [evaluated]
              exact fun same => holds (Option.some.inj same)
            · exact others other member

end

end Engine

end FlowCompiler
