import FlowCompiler.Compile
import FlowCompiler.Proofs.DistinctNames
import FlowCompiler.Proofs.Registries

namespace FlowCompiler.Compile

/-! What a program is put together from: the walk of the flow behind its trigger, with the names
of its visits, and the scope in which its steps are emitted. -/

open Lowering Step

/-! ## Parts of a program -/

def reservation (flow : Flow) (branch : Branch) (children : List Node) :
    NameSource × Registry :=
  reserveAll .start ((branchRegistry flow branch).bindVariable Registry.apiBase) children

def startScope (flow : Flow) (branch : Branch) (children : List Node) : Scope :=
  ⟨(reservation flow branch children).2, false⟩

def namedWalk (flow : Flow) (branch : Branch) (children : List Node) (walk : Walk Node) :
    Walk Visit :=
  (walk.name (reservation flow branch children).1).1

def mainRoutine (settings : Settings) (flow : Flow) (branch : Branch) (scope : Scope)
    (walk : Walk Visit) : Routine where
  params := [Registry.state]
  steps := [setupStep (branchRegistry flow branch)] ++ walk.steps settings scope ++
    [clearSession settings "clear_session", Walk.finishStep]

def setupCall (registry : Registry) : Call where
  target := setupName
  args := registry.callArgs
  result := some Registry.apiBase
  retry := none

def allRoutines (settings : Settings) (flow : Flow) (branch : Branch) (scope : Scope)
    (walk : Walk Visit) : List (String × Routine) :=
  (Program.mainName, mainRoutine settings flow branch scope walk) ::
    (setupName, setupRoutine settings flow (branchRegistry flow branch)) ::
    walk.routines settings scope

theorem assemble_eq (settings : Settings) (flow : Flow) (branch : Branch) (children : List Node)
    (walk : Walk Node) :
    assemble settings flow branch children walk =
      ⟨.ofList (allRoutines settings flow branch (startScope flow branch children)
        (namedWalk flow branch children walk))⟩ := rfl

/-! ## Names -/

theorem valid_reserveAll {graph : Graph} : ∀ (children : List Node) {source : NameSource}
    (registry : Registry), source.Valid graph → (∀ child ∈ children, graph.Knows child) →
      (reserveAll source registry children).1.Valid graph
  | [], _, _, valid, _ => valid
  | child :: rest, _, _, valid, known =>
      valid_reserveAll rest _ (valid.reserve (known child List.mem_cons_self))
        fun other member => known other (List.mem_cons_of_mem _ member)

/-- What binding a variable of one of the nodes preserves, reserving them all preserves. -/
theorem reserveAll_preserves {graph : Graph} (Holds : Registry → Prop) :
    ∀ (children : List Node) {source : NameSource} {registry : Registry}, source.Valid graph →
      (∀ child ∈ children, graph.Knows child) →
      (∀ (registry : Registry) (number : Nat), ∀ child ∈ children, Holds registry →
        Holds (registry.bind (Names.ofNode number child).result .null)) →
      Holds registry → Holds (reserveAll source registry children).2
  | [], _, _, _, _, _, holds => holds
  | child :: rest, source, registry, valid, known, preserved, holds => by
      have childKnown := known child List.mem_cons_self
      have reserved : Holds (registry.reserve (source.reserve child).1.result) := by
        rcases valid.reserve_eq_ofNode childKnown with ⟨number, made⟩
        rw [made]
        exact Registry.reserve_preserves Holds holds
          (preserved registry number child List.mem_cons_self holds)
      exact reserveAll_preserves Holds rest (valid.reserve childKnown)
        (fun other member => known other (List.mem_cons_of_mem _ member))
        (fun registry number other member =>
          preserved registry number other (List.mem_cons_of_mem _ member)) reserved

theorem knows_of_mem_triggerChildren {graph : Graph} (keyed : graph.Keyed) {trigger child : Node}
    (member : child ∈ triggerChildren graph trigger) : graph.Knows child := by
  rcases List.mem_filterMap.mp (List.mem_filter.mp member).1 with ⟨edge, _, found⟩
  rw [Graph.Knows, keyed edge.target child found]
  exact found

theorem proper_namedWalk {flow : Flow} {branch : Branch} {children : List Node}
    (known : ∀ child ∈ children, (Graph.ofFlow flow).Knows child)
    {first : Node} (firstKnown : (Graph.ofFlow flow).Knows first) {unused : List String}
    {walk : Walk Node} (unfolds : Graph.Unfolds (Graph.ofFlow flow) none unused first walk) :
    (namedWalk flow branch children walk).Proper := by
  have valid := valid_reserveAll children ((branchRegistry flow branch).bindVariable
    Registry.apiBase) (NameSource.valid_start (Graph.ofFlow flow)) known
  have gives := Walk.gives_name walk valid
    (unfolds.knows (Graph.keyed_ofFlow flow) firstKnown)
  exact ⟨Walk.shaped_name walk unfolds.shaped, gives.made, gives.distinct⟩

/-- No routine of a program replaces another. -/
theorem entries_assembled {settings : Settings} {flow : Flow} {branch : Branch} {scope : Scope}
    {walk : Walk Visit} (proper : walk.Proper) :
    (Table.ofList (allRoutines settings flow branch scope walk)).entries =
      allRoutines settings flow branch scope walk := by
  apply Table.entries_ofList
  exact Walk.nodup_routineNames proper [Program.mainName, setupName] (by decide) (by decide)

/-! ## Built programs -/

structure Assembled (settings : Settings) (flow : Flow) (branch : Branch) (children : List Node)
    (walk : Walk Visit) (program : Program) : Prop where
  known : ∀ child ∈ children, (Graph.ofFlow flow).Knows child
  proper : walk.Proper
  entries : program.routines.entries =
    allRoutines settings flow branch (startScope flow branch children) walk

section

variable {settings : Settings} {flow : Flow} {branch : Branch} {children : List Node}
  {walk : Walk Visit} {program : Program}

theorem Assembled.get?_eq_some_iff
    (assembled : Assembled settings flow branch children walk program) {name : String}
    {routine : Routine} : program.routines.get? name = some routine ↔
      (name, routine) ∈
        allRoutines settings flow branch (startScope flow branch children) walk := by
  rw [Table.get?_eq_some_iff, assembled.entries]

/-- A call in a program is one of a primitive, the call of the preparing routine, or made at a
place of the walk. -/
theorem Assembled.exists_place_of_call
    (assembled : Assembled settings flow branch children walk program) {entry : String × Routine}
    {call : Call} (member : entry ∈ program.routines.entries)
    (called : call ∈ callsWithin entry.2.steps) :
    Primitive.isPrimitive call.target ∨ call = setupCall (branchRegistry flow branch) ∨
      ∃ inner part, Walk.Place (startScope flow branch children) walk inner part ∧
        call ∈ part.dispatches inner := by
  rw [assembled.entries] at member
  rcases List.mem_cons.mp member with equal | member
  · subst equal
    rw [mainRoutine, callsWithin_append, callsWithin_append] at called
    rcases List.mem_append.mp called with called | called
    · rcases List.mem_append.mp called with called | called
      · exact .inr (.inl (List.mem_singleton.mp called))
      · exact (Walk.exists_place_of_call walk called).imp_right .inr
    · rw [List.mem_singleton.mp called]
      exact .inl Primitive.isPrimitive_httpPost
  · rcases List.mem_cons.mp member with equal | member
    · subst equal
      rcases List.mem_pair.mp called with equal | equal <;> subst equal
      · exact .inl Primitive.isPrimitive_getEnv
      · exact .inl Primitive.isPrimitive_log
    · exact (Walk.exists_place_of_call_routine member called).imp_right .inr

end

theorem eq_ok_of_mapError {ε ε' α : Type} {change : ε → ε'} {result : Except ε α} {value : α}
    (succeeds : result.mapError change = .ok value) : result = .ok value := by
  cases result with
  | error error => cases succeeds
  | ok other =>
      cases succeeds
      rfl

section

variable {settings : Settings} {lookup : BranchLookup} {flow : Flow} {program : Program}

theorem build_of_unstarted (unstarted : flow.trigger? = none) :
    build settings lookup flow = .error (.load (.missingTrigger flow.flowId)) := by
  rw [build, unstarted]

section

variable {trigger first : Node}

theorem build_of_unconnected (started : flow.trigger? = some trigger)
    (unconnected : (Graph.ofFlow flow).next? trigger.id .nextStep = none) :
    build settings lookup flow = .ok emptyProgram := by
  rw [build, started]
  simp only [unconnected]

theorem build_of_lookup_error {error : LookupError} (started : flow.trigger? = some trigger)
    (connected : (Graph.ofFlow flow).next? trigger.id .nextStep = some first)
    (failed : lookup flow.branchId = .error error) :
    build settings lookup flow = .error (.lookup error) := by
  rw [build, started]
  simp only [connected, failed]
  rfl

/-- Behind a successful lookup, building only fails if unfolding does. -/
theorem build_of_connected {branch : Branch} (started : flow.trigger? = some trigger)
    (connected : (Graph.ofFlow flow).next? trigger.id .nextStep = some first)
    (found : lookup flow.branchId = .ok branch) :
    build settings lookup flow =
      (((Graph.ofFlow flow).unfold none (Graph.ofFlow flow).ids first).mapError .walk).map
        (assemble settings flow branch (triggerChildren (Graph.ofFlow flow) trigger)) := by
  rw [build, started]
  simp only [connected, found]
  cases (Graph.ofFlow flow).unfold none (Graph.ofFlow flow).ids first <;> rfl

end

/-- Where something is connected to the trigger, a program is put together from the unfolded
walk behind it. -/
theorem exists_unfolded_of_connected {trigger first : Node}
    (started : flow.trigger? = some trigger)
    (connected : (Graph.ofFlow flow).next? trigger.id .nextStep = some first)
    (built : build settings lookup flow = .ok program) :
    ∃ branch walk, lookup flow.branchId = .ok branch ∧
      Graph.Unfolds (Graph.ofFlow flow) none (Graph.ofFlow flow).ids first walk ∧
      program = assemble settings flow branch (triggerChildren (Graph.ofFlow flow) trigger)
        walk := by
  rw [build, started] at built
  simp only [connected] at built
  rcases bind_eq_ok built with ⟨branch, found, built⟩
  rcases bind_eq_ok built with ⟨walk, unfolded, equal⟩
  exact ⟨branch, walk, eq_ok_of_mapError found,
    Graph.unfolds_of_unfold _ _ _ _ _ (eq_ok_of_mapError unfolded), (Except.ok.inj equal).symm⟩

theorem exists_unfolded_of_build (built : build settings lookup flow = .ok program) :
    program = emptyProgram ∨ ∃ trigger first branch walk,
      flow.trigger? = some trigger ∧ lookup flow.branchId = .ok branch ∧
      (Graph.ofFlow flow).next? trigger.id .nextStep = some first ∧
      Graph.Unfolds (Graph.ofFlow flow) none (Graph.ofFlow flow).ids first walk ∧
      program = assemble settings flow branch (triggerChildren (Graph.ofFlow flow) trigger)
        walk := by
  cases started : flow.trigger? with
  | none =>
      rw [build, started] at built
      cases built
  | some trigger =>
      cases connected : (Graph.ofFlow flow).next? trigger.id .nextStep with
      | none =>
          rw [build, started] at built
          simp only [connected] at built
          exact .inl (Except.ok.inj built).symm
      | some first =>
          rcases exists_unfolded_of_connected started connected built with
            ⟨branch, walk, found, unfolds, equal⟩
          exact .inr ⟨trigger, first, branch, walk, rfl, found, connected, unfolds, equal⟩

theorem assembled_of_unfolds (settings : Settings) (branch : Branch) {trigger first : Node}
    {walk : Walk Node}
    (connected : (Graph.ofFlow flow).next? trigger.id .nextStep = some first)
    (unfolds : Graph.Unfolds (Graph.ofFlow flow) none (Graph.ofFlow flow).ids first walk) :
    Assembled settings flow branch (triggerChildren (Graph.ofFlow flow) trigger)
      (namedWalk flow branch (triggerChildren (Graph.ofFlow flow) trigger) walk)
      (assemble settings flow branch (triggerChildren (Graph.ofFlow flow) trigger) walk) := by
  have keyed := Graph.keyed_ofFlow flow
  have known : ∀ child ∈ triggerChildren (Graph.ofFlow flow) trigger,
      (Graph.ofFlow flow).Knows child := fun _ => knows_of_mem_triggerChildren keyed
  have firstKnown := keyed.node?_of_next? connected
  refine ⟨known, proper_namedWalk known firstKnown unfolds, ?_⟩
  rw [assemble_eq]
  exact entries_assembled (proper_namedWalk known firstKnown unfolds)

theorem exists_assembled_of_build (built : build settings lookup flow = .ok program) :
    program = emptyProgram ∨ ∃ trigger branch walk,
      flow.trigger? = some trigger ∧ lookup flow.branchId = .ok branch ∧
      Assembled settings flow branch (triggerChildren (Graph.ofFlow flow) trigger) walk
        program := by
  rcases exists_unfolded_of_build built with
    empty | ⟨trigger, first, branch, walk, started, found, connected, unfolds, equal⟩
  · exact .inl empty
  · subst equal
    exact .inr ⟨trigger, branch, _, started, found,
      assembled_of_unfolds settings branch connected unfolds⟩

end

/-! ## A sample -/

/-- A flow with a prompt that asks again, a subflow with both its exits, and a loop. The title of
the prompt looks like a generated name. -/
def sampleFlow : Flow where
  flowId := "order"
  title := "Order"
  organisationId := "shop"
  branchId := "north"
  nodes := [
    ⟨"start", "Start", .trigger ⟨none⟩⟩,
    ⟨"ask", "Ask 1 send", .sendButtons ⟨"Again?", [⟨"yes", "Yes"⟩, ⟨"no", "No"⟩], none, true⟩⟩,
    ⟨"bill", "Bill", .subflow ⟨"billing", none⟩⟩,
    ⟨"late", "Late", .alert ⟨"Late", [], "mail"⟩⟩,
    ⟨"each", "Each", .loopStart ⟨.count 3, none⟩⟩,
    ⟨"note", "Note", .sendText ⟨"Hello", false, none, none⟩⟩,
    ⟨"done", "Done", .loopEnd⟩]
  edges := [
    ⟨"1", "start", "ask", "next-step"⟩,
    ⟨"2", "ask", "bill", "option-yes"⟩,
    ⟨"3", "bill", "late", "failure"⟩,
    ⟨"4", "bill", "each", "next-step"⟩,
    ⟨"5", "each", "note", "next-step"⟩,
    ⟨"6", "note", "done", "next-step"⟩]

def sampleLookup : BranchLookup := fun _ => .ok ⟨"North"⟩

theorem exists_ok_of_isOk {ε α : Type} {result : Except ε α} (succeeds : result.isOk) :
    ∃ value, result = .ok value := by
  cases result with
  | error error => cases succeeds
  | ok value => exact ⟨value, rfl⟩

theorem exists_sampleProgram :
    ∃ program, compile .standard sampleLookup sampleFlow = .ok program :=
  exists_ok_of_isOk (by decide +kernel)

end FlowCompiler.Compile
