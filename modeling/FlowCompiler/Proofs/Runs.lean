import FlowCompiler.Proofs.CallTree
import FlowCompiler.Proofs.Engine
import FlowCompiler.Proofs.Interference

namespace FlowCompiler

/-! What holds of every run: where jumps lead, which variables are kept, and which steps are run. -/

open Step

namespace Step

theorem from?_suffix {target : String} : ∀ {list rest : List Step},
    from? target list = some rest → rest <:+ list
  | step :: list, rest, found => by
      rw [from?] at found
      by_cases same : step.name = target
      · rw [if_pos same] at found
        cases found
        exact List.suffix_refl _
      · rw [if_neg same] at found
        exact (from?_suffix found).trans (List.suffix_cons _ _)

theorem from?_subset {target : String} {list rest : List Step}
    (found : from? target list = some rest) : rest ⊆ list :=
  (from?_suffix found).subset

theorem not_mem_names_of_from? {target : String} : ∀ {list : List Step},
    from? target list = none → target ∉ list.map Step.name
  | [], _ => List.not_mem_nil
  | step :: list, missing => by
      rw [from?] at missing
      by_cases same : step.name = target
      · rw [if_pos same] at missing
        cases missing
      · rw [if_neg same] at missing
        rw [List.map_cons, List.mem_cons]
        rintro (equal | member)
        · exact same equal.symm
        · exact not_mem_names_of_from? missing member

theorem from?_append {target : String} {front : List Step} (other : target ∉ front.map Step.name)
    (rest : List Step) : from? target (front ++ rest) = from? target rest := by
  induction front with
  | nil => rfl
  | cons step front induction =>
      rw [List.map_cons, List.mem_cons, not_or] at other
      rw [List.cons_append, from?, if_neg (Ne.symm other.1), induction other.2]

theorem setsWithin_subset {fewer steps : List Step}
    (subset : flattenSteps fewer ⊆ flattenSteps steps) : setsWithin fewer ⊆ setsWithin steps := by
  intro name member
  rcases mem_setsWithin.mp member with ⟨step, inside, isSet⟩
  exact mem_setsWithin.mpr ⟨step, subset inside, isSet⟩

end Step

namespace Engine

/-- A run goes on among the steps of its list. -/
theorem Follows.suffix {list rest later : List Step} {first : Step} {outcome : Outcome}
    (follows : Follows list rest outcome later) (suffix : first :: rest <:+ list) :
    later <:+ list := by
  cases follows with
  | done => exact (List.suffix_cons _ _).trans suffix
  | jump found => exact from?_suffix found

theorem Follows.subset {list rest later : List Step} {first : Step} {outcome : Outcome}
    (follows : Follows list rest outcome later) (subset : first :: rest ⊆ list) : later ⊆ list := by
  cases follows with
  | done => exact fun step member => subset (List.mem_cons_of_mem _ member)
  | jump found => exact from?_subset found

end Engine

namespace Result

variable {World : Type}

theorem handOver_ne_jump {vars : Table Json} {name : Option String} {callee : Result World}
    {target : String} : (callee.handOver vars name).outcome ≠ .jump target := by
  rw [handOver]
  cases callee.outcome <;> simp

@[simp] theorem events_handOver (vars : Table Json) (name : Option String)
    (callee : Result World) : (callee.handOver vars name).events = callee.events := by
  rw [handOver]
  cases callee.outcome <;> rfl

@[simp] theorem events_follow (next : Option String) (result : Result World) :
    (result.follow next).events = result.events := by
  rw [follow.eq_def]
  cases result.outcome <;> cases next <;> rfl

@[simp] theorem events_after (events : List Event) (result : Result World) :
    (result.after events).events = events ++ result.events := rfl

@[simp] theorem vars_follow (next : Option String) (result : Result World) :
    (result.follow next).vars = result.vars := by
  rw [follow.eq_def]
  cases result.outcome <;> cases next <;> rfl

theorem eq_done_of_follow {next : Option String} {result : Result World}
    (ended : (result.follow next).outcome = .done) : result.outcome = .done ∧ next = none := by
  rw [follow.eq_def] at ended
  cases own : result.outcome with
  | done =>
      cases next with
      | none => exact ⟨rfl, rfl⟩
      | some target =>
          simp only [own] at ended
          cases ended
  | jump | returned | raised | pending =>
      simp only [own] at ended
      cases ended

/-- A case jumps to its target behind its steps, or where its steps jump. -/
theorem eq_next_of_follow {next : Option String} {result : Result World} {target : String}
    (jumps : (result.follow next).outcome = .jump target) :
    result.outcome = .done ∧ next = some target ∨ result.outcome = .jump target := by
  rw [follow.eq_def] at jumps
  cases ended : result.outcome with
  | done =>
      cases next with
      | none =>
          simp only [ended] at jumps
          cases jumps
      | some other =>
          simp only [ended] at jumps
          exact .inl ⟨rfl, congrArg some (Outcome.jump.inj jumps)⟩
  | jump | returned | raised | pending =>
      simp only [ended] at jumps
      exact .inr jumps

end Result

namespace Engine

variable {World : Type} {engine : Engine World} {program : Program}

/-! ## Iterations -/

section

variable {turn : Table Json → World → Result World} {head : LoopHead}

theorem exists_turn_of_mem_iterate {event : Event} :
    ∀ {elements : List Json} {index : Nat} {vars : Table Json} {world : World},
      event ∈ (iterate turn head elements index vars world).events →
        ∃ vars world, ∃ inner ∈ (turn vars world).events, event = inner.inIteration
  | [], _, _, _, member => by cases member
  | element :: rest, index, vars, world, member => by
      let first := turn (head.bind element index vars) world
      have split : event ∈ first.events.map Event.inIteration ∨
          event ∈ (iterate turn head rest (index + 1) first.vars first.world).events := by
        rw [iterate] at member
        cases ended : first.outcome with
        | done =>
            simp only [first] at ended
            simp only [ended] at member
            exact List.mem_append.mp member
        | jump target =>
            simp only [first] at ended
            simp only [ended] at member
            split at member <;> exact .inl member
        | returned | raised | pending =>
            simp only [first] at ended
            simp only [ended] at member
            exact .inl member
      rcases split with own | later
      · rcases List.mem_map.mp own with ⟨inner, among, rfl⟩
        exact ⟨_, _, inner, among, rfl⟩
      · exact exists_turn_of_mem_iterate later

/-- An iteration is left by a jump only if it is not a `break`. -/
theorem exists_turn_of_jump {target : String} :
    ∀ {elements : List Json} {index : Nat} {vars : Table Json} {world : World},
      (iterate turn head elements index vars world).outcome = .jump target →
        target ≠ "break" ∧ ∃ vars world, (turn vars world).outcome = .jump target
  | [], _, _, _, left => by cases left
  | element :: rest, index, vars, world, left => by
      rw [iterate] at left
      cases ended : (turn (head.bind element index vars) world).outcome with
      | done =>
          simp only [ended] at left
          exact exists_turn_of_jump left
      | jump other =>
          simp only [ended] at left
          by_cases leaves : other = "break"
          · rw [if_pos leaves] at left
            cases left
          · rw [if_neg leaves] at left
            have same : other = target := Outcome.jump.inj left
            exact ⟨same ▸ leaves, _, _, same ▸ ended⟩
      | returned | raised | pending =>
          simp only [ended] at left
          exact absurd left (by simp)

end

/-! ## Jumps -/

section

variable {inner : String → List Step → Table Json → World → Result World} {home : String}

/-- A jump that leads out of a list leaves the loop of which these are the steps. -/
def Stays (list : StepList) (result : Result World) : Prop :=
  ∀ target, result.outcome = .jump target → target = "break" ∧ list.iterated

/-- A step jumps only where one of its own cases says so, if no jump leads out of the lists in
it. -/
theorem Does.mem_jumps {vars : Table Json} {world : World} {step : Step} {result : Result World}
    (does : engine.Does program inner home vars world step result)
    (stays : ∀ list ∈ innerLists step, ∀ vars world,
      Stays list (inner home list.steps vars world))
    {target : String} (jumps : result.outcome = .jump target) : target ∈ step.jumps := by
  cases does with
  | raise | perform | assign | pass | «return» => cases jumps
  | call => exact absurd jumps Result.handOver_ne_jump
  | @choose name cases branch chosen =>
      rcases exists_split_of_choose chosen with ⟨earlier, later, split, _, _⟩
      have among : branch ∈ cases := split ▸ List.mem_append_right _ List.mem_cons_self
      have staying := stays ⟨false, branch.steps⟩
        (caseLists_subset_of_mem among List.mem_cons_self) vars world
      rcases Result.eq_next_of_follow jumps with ⟨_, next⟩ | passed
      · exact List.mem_filterMap.mpr ⟨branch, among, next⟩
      · cases (staying target passed).2
  | block =>
      have staying := stays ⟨false, _⟩ List.mem_cons_self vars world
      cases (staying target jumps).2
  | loop source =>
      rcases exists_turn_of_jump jumps with ⟨other, vars, world, turn⟩
      have staying := stays ⟨true, _⟩ List.mem_cons_self vars world
      exact absurd (staying target turn).1 other

/-- If all jumps in a list are local, none leads out of it but a `break`. -/
theorem stays_run (fuel : Nat) : ∀ {home : String} {list : StepList} {rest : List Step}
    {vars : Table Json} {world : World}, (∀ inner ∈ list :: listsWithin list.steps,
      inner.JumpsInside) → rest ⊆ list.steps →
        Stays list (engine.run program fuel home list.steps rest vars world) := by
  induction fuel with
  | zero =>
      intro home list rest vars world _ _ target jumps
      cases jumps
  | succ fuel induction =>
      intro home list rest vars world inside subset target jumps
      cases rest with
      | nil => cases jumps
      | cons first rest =>
          have among : first ∈ list.steps := subset List.mem_cons_self
          rcases engine.run_cons program fuel home list.steps first rest vars world with
            ⟨later, follows, equal⟩ | ⟨ends, equal⟩
          · rw [equal] at jumps
            exact induction inside (follows.subset subset) target jumps
          · rw [equal] at jumps
            have nested := innerLists_subset_of_mem among
            have own : target ∈ first.jumps :=
              (engine.does_runStep program fuel home first vars world).mem_jumps
                (fun inner member vars world => by
                  refine induction (fun deeper member' => inside deeper (List.mem_cons_of_mem _ ?_))
                    (List.Subset.refl _)
                  rcases List.mem_cons.mp member' with equal | member'
                  · exact equal ▸ nested member
                  · exact nested (listsWithin_subset_innerLists first member member')) jumps
            have local_ := inside list List.mem_cons_self first among target own
            by_cases leaves : target = "break"
            · exact ⟨leaves, local_.1 leaves⟩
            · cases found : from? target list.steps with
              | none => exact absurd (local_.2 leaves) (not_mem_names_of_from? found)
              | some later => exact absurd (jumps ▸ .jump found) (ends later)

/-- A step in a list with local jumps jumps only where one of its own cases says so. -/
theorem mem_jumps_of_runStep {fuel : Nat} {list : List Step} {step : Step} {vars : Table Json}
    {world : World} (jumpsLocal : JumpsLocal list) (among : step ∈ list) {target : String}
    (jumps : (engine.runStep program fuel home step vars world).outcome = .jump target) :
    target ∈ step.jumps := by
  refine (does_step vars world step).mem_jumps (fun inner member vars world => ?_) jumps
  have nested := innerLists_subset_of_mem among
  refine stays_run fuel (fun deeper member' => jumpsLocal deeper (List.mem_cons_of_mem _ ?_))
    (List.Subset.refl _)
  rcases List.mem_cons.mp member' with equal | member'
  · exact equal ▸ nested member
  · exact nested (listsWithin_subset_innerLists step member member')

end

end Engine

/-! ## Variables -/

theorem LoopHead.get?_bind {head : LoopHead} {element : Json} {index : Nat} {vars : Table Json}
    {name : String} (unset : name ∉ head.bound) :
    (head.bind element index vars).get? name = vars.get? name := by
  rcases head with ⟨value, _ | counter, source⟩
  · have other : value ≠ name := by
      rintro rfl
      exact unset List.mem_cons_self
    rw [bind, Table.get?_insert, if_neg other]
  · have others : value ≠ name ∧ counter ≠ name := by
      constructor <;>
      · rintro rfl
        simp [bound] at unset
    rw [bind, Table.get?_insert, if_neg others.2, Table.get?_insert, if_neg others.1]

namespace Result

variable {World : Type} {vars : Table Json} {name : String}

theorem get?_bind {result : Option String} {value : Json} (unset : name ∉ result.toList) :
    (handOver.bind vars result value).get? name = vars.get? name := by
  cases result with
  | none => rfl
  | some other =>
      have different : other ≠ name := by
        rintro rfl
        exact unset List.mem_cons_self
      rw [handOver.bind, Table.get?_insert, if_neg different]

/-- A call changes no variable of the caller but the one for its result. -/
theorem get?_handOver {result : Option String} {callee : Result World}
    (unset : name ∉ result.toList) : (callee.handOver vars result).vars.get? name = vars.get? name := by
  rw [handOver]
  cases callee.outcome with
  | done | returned => exact get?_bind unset
  | jump | raised | pending => rfl

end Result

namespace Engine

variable {World : Type} {engine : Engine World} {program : Program} {name : String}

theorem get?_assign : ∀ {bindings : List (String × Json)} {vars vars' : Table Json},
    engine.assign vars bindings = some vars' → name ∉ bindings.map Prod.fst →
      vars'.get? name = vars.get? name
  | [], _, _, assigned, _ => by
      cases assigned
      rfl
  | (other, value) :: rest, vars, vars', assigned, unset => by
      rcases Option.bind_eq_some_iff.mp assigned with ⟨value, _, assigned⟩
      have different : other ≠ name := by
        rintro rfl
        exact unset List.mem_cons_self
      rw [get?_assign assigned fun member => unset (List.mem_cons_of_mem _ member),
        Table.get?_insert, if_neg different]

theorem get?_iterate {turn : Table Json → World → Result World} {head : LoopHead}
    (unset : name ∉ head.bound)
    (kept : ∀ vars world, (turn vars world).vars.get? name = vars.get? name) :
    ∀ {elements : List Json} {index : Nat} {vars : Table Json} {world : World},
      (iterate turn head elements index vars world).vars.get? name = vars.get? name
  | [], _, _, _ => rfl
  | element :: rest, index, vars, world => by
      have first := (kept (head.bind element index vars) world).trans
        (LoopHead.get?_bind unset)
      rw [iterate]
      cases ended : (turn (head.bind element index vars) world).outcome with
      | done => exact (get?_iterate unset kept).trans first
      | jump target =>
          dsimp only
          split <;> exact first
      | returned | raised | pending => exact first

/-- A step changes no variable that neither it sets nor a step in it. -/
theorem Does.get?_vars {inner : String → List Step → Table Json → World → Result World}
    {home : String} {vars : Table Json} {world : World} {step : Step} {result : Result World}
    (does : engine.Does program inner home vars world step result)
    (unset : name ∉ setsWithin [step])
    (nested : ∀ steps, flattenSteps steps ⊆ flatten step → ∀ vars world,
      (inner home steps vars world).vars.get? name = vars.get? name) :
    result.vars.get? name = vars.get? name := by
  have own : name ∉ step.sets := fun isSet => unset (mem_setsWithin.mpr
    ⟨step, by simpa using mem_flatten_self step, isSet⟩)
  cases does with
  | raise | pass | «return» => rfl
  | perform => exact Result.get?_bind own
  | call => exact Result.get?_handOver own
  | assign assigned => exact get?_assign assigned own
  | @choose name cases branch chosen =>
      rcases exists_split_of_choose chosen with ⟨earlier, later, split, _, _⟩
      have among : branch ∈ cases := split ▸ List.mem_append_right _ List.mem_cons_self
      change ((inner home branch.steps vars world).follow branch.next).vars.get? _ = _
      rw [Result.vars_follow]
      exact nested branch.steps (List.subset_cons_of_subset _ (flattenSteps_subset_of_case among))
        vars world
  | block => exact nested _ (List.subset_cons_self _ _) vars world
  | loop source =>
      exact get?_iterate own fun vars world => nested _ (List.subset_cons_self _ _) vars world

/-- A run changes no variable that its steps do not set; the routines that are called have
variables of their own. -/
theorem get?_run (fuel : Nat) : ∀ {home : String} {list rest : List Step} {vars : Table Json}
    {world : World}, name ∉ setsWithin list → rest ⊆ list →
      (engine.run program fuel home list rest vars world).vars.get? name = vars.get? name := by
  induction fuel with
  | zero => exact fun _ _ => rfl
  | succ fuel induction =>
      intro home list rest vars world unset subset
      cases rest with
      | nil => rfl
      | cons first rest =>
          have among : first ∈ list := subset List.mem_cons_self
          have inside : flatten first ⊆ flattenSteps list := flatten_subset_flattenSteps among
          have kept := (engine.does_runStep program fuel home first vars world).get?_vars
            (fun member => unset (setsWithin_subset (by simpa using inside) member))
            (fun steps nested vars world => induction
              (fun member => unset (setsWithin_subset (List.Subset.trans nested inside) member))
              (List.Subset.refl _))
          rcases engine.run_cons program fuel home list first rest vars world with
            ⟨later, follows, equal⟩ | ⟨_, equal⟩
          · rw [equal]
            exact (induction unset (follows.subset subset)).trans kept
          · rw [equal]
            exact kept

theorem ne_jump_of_run {fuel : Nat} {home : String} {list : List Step} {vars : Table Json}
    {world : World} {target : String} (jumpsLocal : JumpsLocal list) :
    (engine.run program fuel home list list vars world).outcome ≠ .jump target := by
  intro jumps
  cases (stays_run fuel jumpsLocal (List.Subset.refl _) target jumps).2

theorem get?_runStep {fuel : Nat} {home : String} {step : Step} {vars : Table Json} {world : World}
    (unset : name ∉ setsWithin [step]) :
    (engine.runStep program fuel home step vars world).vars.get? name = vars.get? name :=
  (does_step vars world step).get?_vars unset fun _ nested _ _ => get?_run fuel
    (fun member => unset (setsWithin_subset (by simpa using nested) member)) (List.Subset.refl _)

end Engine

/-! ## The steps that are run -/

/-- The step that was run is one of these steps, which stand in the routine `home`, or one of a
routine that is called from there, at once or by others. -/
def Event.From (program : Program) (home : String) (steps : List Step) (event : Event) : Prop :=
  event.routine = home ∧ event.step ∈ flattenSteps steps ∨
    Relation.TransGen program.Calls home event.routine ∧
      (event.routine, event.step) ∈ program.sites

section

variable {program : Program} {home : String} {event : Event}

theorem Event.From.mono {fewer steps : List Step} (origin : event.From program home fewer)
    (subset : flattenSteps fewer ⊆ flattenSteps steps) : event.From program home steps :=
  origin.imp_left fun own => ⟨own.1, subset own.2⟩

/-- What a routine runs is run for its caller, too. -/
theorem Event.From.called {target : String} {routine : Routine}
    (calls : program.Calls home target) (found : program.routines.get? target = some routine)
    (origin : event.From program target routine.steps) (steps : List Step) :
    event.From program home steps := by
  rcases origin with ⟨own, inside⟩ | ⟨called, site⟩
  · subst own
    exact .inr ⟨.single calls,
      Program.mem_sites.mpr ⟨routine, Table.get?_eq_some_iff.mp found, inside⟩⟩
  · exact .inr ⟨.head calls called, site⟩

end

namespace Engine

variable {World : Type} {engine : Engine World} {program : Program} {home : String}

/-- The events of a run are those of its first step and those of a later part of the run. -/
theorem mem_events_run_cons {fuel : Nat} {list rest : List Step} {first : Step}
    {vars : Table Json} {world : World} {event : Event}
    (member : event ∈ (engine.run program (fuel + 1) home list (first :: rest) vars world).events) :
    event ∈ (engine.runStep program fuel home first vars world).events ∨
      ∃ later, Follows list rest (engine.runStep program fuel home first vars world).outcome later ∧
        ∃ vars world, event ∈ (engine.run program fuel home list later vars world).events := by
  rcases engine.run_cons program fuel home list first rest vars world with
    ⟨later, follows, equal⟩ | ⟨_, equal⟩
  · rw [equal] at member
    exact (List.mem_append.mp member).imp_right fun among => ⟨later, follows, _, _, among⟩
  · rw [equal] at member
    exact .inl member

/-- A step runs itself, steps in it, and routines that it calls. -/
theorem Does.from_of_mem {inner : String → List Step → Table Json → World → Result World}
    {vars : Table Json} {world : World} {step : Step} {result : Result World}
    (does : engine.Does program inner home vars world step result)
    (site : (home, step) ∈ program.sites)
    (nested : ∀ steps, flattenSteps steps ⊆ flatten step → ∀ vars world,
      ∀ event ∈ (inner home steps vars world).events, event.From program home steps)
    (called : ∀ target routine, program.routines.get? target = some routine → ∀ args world,
      ∀ event ∈ (inner target routine.steps args world).events,
        event.From program target routine.steps) :
    ∀ event ∈ result.events, event.From program home [step] := by
  have own : ∀ args, (⟨home, step, args, false⟩ : Event).From program home [step] := by
    intro args
    refine .inl ⟨rfl, ?_⟩
    rw [flattenSteps_singleton]
    exact mem_flatten_self step
  have inside : ∀ steps, flattenSteps steps ⊆ flatten step → ∀ vars world,
      ∀ event ∈ (inner home steps vars world).events, event.From program home [step] := by
    intro steps subset vars world event member
    exact (nested steps subset vars world event member).mono (by rwa [flattenSteps_singleton])
  intro event member
  cases does with
  | raise | perform | assign | pass | «return» =>
      rw [List.mem_singleton.mp member]
      exact own _
  | @call name made args routine generated found =>
      rcases List.mem_cons.mp member with equal | member
      · exact equal ▸ own _
      · rw [Result.events_handOver] at member
        have calls : program.Calls home made.target :=
          Program.calls_of_site site rfl (List.mem_map_of_mem (Table.get?_eq_some_iff.mp found))
        exact (called made.target routine found _ _ event member).called calls found _
  | @choose name cases branch chosen =>
      rcases List.mem_cons.mp member with equal | member
      · exact equal ▸ own _
      · rw [Result.events_follow] at member
        rcases exists_split_of_choose chosen with ⟨earlier, later, split, _, _⟩
        have among : branch ∈ cases := split ▸ List.mem_append_right _ List.mem_cons_self
        exact inside branch.steps (List.subset_cons_of_subset _ (flattenSteps_subset_of_case among))
          _ _ event member
  | block =>
      rcases List.mem_cons.mp member with equal | member
      · exact equal ▸ own _
      · exact inside _ (List.subset_cons_self _ _) _ _ event member
  | loop source =>
      rcases List.mem_cons.mp member with equal | member
      · exact equal ▸ own _
      · rcases exists_turn_of_mem_iterate member with ⟨vars, world, turn, among, rfl⟩
        exact inside _ (List.subset_cons_self _ _) vars world turn among

/-- A run from a list of a routine runs the steps of this list and of the routines that are called
from it. -/
theorem from_of_mem_run (fuel : Nat) : ∀ {home : String} {list rest : List Step}
    {vars : Table Json} {world : World},
      (∀ step ∈ flattenSteps list, (home, step) ∈ program.sites) → rest ⊆ list →
        ∀ event ∈ (engine.run program fuel home list rest vars world).events,
          event.From program home list := by
  induction fuel with
  | zero =>
      intro home list rest vars world _ _ event member
      cases member
  | succ fuel induction =>
      intro home list rest vars world sites subset event member
      cases rest with
      | nil => cases member
      | cons first rest =>
          have among : first ∈ list := subset List.mem_cons_self
          rcases mem_events_run_cons member with own | ⟨later, follows, vars, world, member⟩
          · have does := engine.does_runStep program fuel home first vars world
            have subset : flatten first ⊆ flattenSteps list := flatten_subset_flattenSteps among
            refine (does.from_of_mem (sites first (subset (mem_flatten_self first))) ?_ ?_ event
              own).mono (by rwa [flattenSteps_singleton])
            · exact fun steps nested vars world => induction
                (fun step inside => sites step (subset (nested inside))) (List.Subset.refl _)
            · intro target routine found args world
              have entry := Table.get?_eq_some_iff.mp found
              exact induction (fun step inside => Program.mem_sites.mpr ⟨routine, entry, inside⟩)
                (List.Subset.refl _)
          · exact induction sites (follows.subset subset) event member

theorem from_of_mem_runStep {fuel : Nat} {step : Step} {vars : Table Json} {world : World}
    (site : (home, step) ∈ program.sites) :
    ∀ event ∈ (engine.runStep program fuel home step vars world).events,
      event.From program home [step] := by
  refine (does_step vars world step).from_of_mem site ?_ ?_
  · exact fun steps nested vars world => from_of_mem_run fuel
      (fun inner inside => Program.mem_sites_of_mem_flatten site (nested inside)) (List.Subset.refl _)
  · exact fun target routine found args world => from_of_mem_run fuel
      (fun inner inside => Program.mem_sites.mpr
        ⟨routine, Table.get?_eq_some_iff.mp found, inside⟩) (List.Subset.refl _)

end Engine

end FlowCompiler
