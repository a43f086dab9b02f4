import FlowCompiler.Proofs.LoopBodies
import FlowCompiler.Proofs.LoopChains

namespace FlowCompiler

/-! Cycles in flows that are compiled. The trigger and the end markers of loops end a run where they
are met, so a cycle may lead through them; no other one is compiled. The same holds of nodes that
are not supported, but not in the body of a loop: the search through the body goes on behind them. -/

theorem Kind.role_of_isTrigger {kind : Kind} (trigger : kind.isTrigger) :
    kind.role = .terminal := by
  cases kind with
  | trigger => rfl
  | _ => cases trigger

namespace Graph

variable {graph : Graph} {first node next : Node}

/-- What is drawn behind a node: besides what is behind its outlets, the first node of the flow for
the trigger. -/
def Onward (graph : Graph) (node next : Node) : Prop :=
  graph.Follows node next ∨ node.kind.isTrigger ∧ graph.next? node.id .nextStep = some next

instance : Decidable (graph.Onward node next) :=
  inferInstanceAs (Decidable (next ∈ graph.followed node ∨
    node.kind.isTrigger ∧ graph.next? node.id .nextStep = some next))

/-- Except at the nodes that end a run, a compilation goes on to everything that is drawn. -/
theorem Onward.leadsTo (onward : graph.Onward node next) (running : node.kind.role ≠ .terminal) :
    graph.LeadsTo node next := by
  rcases onward with follows | ⟨trigger, _⟩
  · by_cases loop : ∃ start, node.kind = .loopStart start
    · have role := Kind.role_eq_loop_iff.mpr loop.choose_spec
      exact (leadsTo_loop_iff role).mpr (.inl ((follows_loop_iff loop).mp follows))
    · refine (leadsTo_iff_follows running fun start role => loop ?_).mpr follows
      exact ⟨start, Kind.role_eq_loop_iff.mp role⟩
  · exact absurd (Kind.role_of_isTrigger trigger) running

/-- A node is not met again on the way on from one of its stages. -/
theorem Admissible.not_again (keyed : graph.Keyed) (known : graph.Knows first)
    (admissible : graph.Admissible first) {stage later : Stage}
    (comes : graph.ComesTo first stage)
    (continues : Relation.TransGen graph.Continues stage later) :
    later.node.id ≠ stage.node.id := by
  intro same
  have arrives := comes.arrives keyed known
  have later_comes : graph.ComesTo first later := comes.trans continues.to_reflTransGen
  have equal := eq_of_id_eq (later_comes.arrives keyed known).known arrives.known same
  have leads : Relation.TransGen graph.LeadsTo stage.node later.node :=
    continues.lift Stage.node fun _ _ step => step.leadsTo
  exact admissible.acyclic stage.node arrives.reachable (equal ▸ leads)

/-- Neither the body of a loop nor what is behind its end marker leads back to its start. -/
theorem Admissible.not_reachable_start (admissible : graph.Admissible first) {start : Node}
    (reachable : graph.Reachable first start) (leads : graph.LeadsTo start next) :
    ¬ graph.Reachable next start :=
  fun back => admissible.acyclic start reachable (.head' leads back)

end Graph

section

variable {settings : Settings} {lookup : BranchLookup} {flow : Flow} {program : Program}
  {trigger first : Node}

theorem admissible_of_compile (started : flow.trigger? = some trigger)
    (connected : (Graph.ofFlow flow).next? trigger.id .nextStep = some first)
    (compiled : compile settings lookup flow = .ok program) :
    (Graph.ofFlow flow).Admissible first := by
  have keyed := Graph.keyed_ofFlow flow
  rw [compile_eq_build] at compiled
  cases found : lookup flow.branchId with
  | error missing =>
      rw [Compile.build_of_lookup_error started connected found] at compiled
      cases compiled
  | ok branch =>
      rw [Compile.build_of_connected started connected found] at compiled
      refine (Graph.isOk_unfold_iff keyed (keyed.node?_of_next? connected)).mp ?_
      cases unfolded : (Graph.ofFlow flow).unfold none (Graph.ofFlow flow).ids first with
      | ok walk => exact ⟨walk, rfl⟩
      | error fault =>
          rw [unfolded] at compiled
          cases compiled

/-- In a flow that is compiled, no node that is lowered leads back to itself, and every cycle that
is drawn through such a node leads through one that ends the run. A node is never lowered again on
the way on from itself, and nothing behind the start of a loop, in its body or after it, leads back
there. In the body of a loop, up to its end markers, there is no cycle at all. -/
theorem compiled_nodes_not_repeated (started : flow.trigger? = some trigger)
    (connected : (Graph.ofFlow flow).next? trigger.id .nextStep = some first)
    (compiled : compile settings lookup flow = .ok program) :
    (∀ node, (Graph.ofFlow flow).Reachable first node →
      ¬ Relation.TransGen (Graph.ofFlow flow).LeadsTo node node ∧
      ¬ Relation.TransGen (fun node next => node.kind.role ≠ .terminal ∧
        (Graph.ofFlow flow).Onward node next) node node) ∧
    (∀ stage later, (Graph.ofFlow flow).ComesTo first stage →
      Relation.TransGen (Graph.ofFlow flow).Continues stage later →
        later.node.id ≠ stage.node.id) ∧
    (∀ start chain next, (Graph.ofFlow flow).Reachable first start →
      (∃ settings, start.kind = .loopStart settings) →
        (Graph.ofFlow flow).loopChain start = .ok chain →
          ((Graph.ofFlow flow).next? start.id .nextStep = some next ∨
            (Graph.ofFlow flow).next? chain.finish.id .nextStep = some next) →
              ¬ (Graph.ofFlow flow).Reachable next start) ∧
    ∀ start, (Graph.ofFlow flow).Reachable first start →
      (∃ settings, start.kind = .loopStart settings) →
        (∃ chain, (Graph.ofFlow flow).loopChain start = .ok chain) ∧
        ¬ (Graph.ofFlow flow).InBody start start ∧
        ∀ node, ¬ Relation.TransGen ((Graph.ofFlow flow).StepsInside start) node node := by
  have keyed := Graph.keyed_ofFlow flow
  have known := keyed.node?_of_next? connected
  have admissible := admissible_of_compile started connected compiled
  refine ⟨fun node reachable => ⟨admissible.acyclic node reachable, fun cycle => ?_⟩,
    fun stage later comes continues => admissible.not_again keyed known comes continues,
    fun start chain next reachable loop collected behind => ?_,
    fun start reachable loop => ?_⟩
  · exact admissible.acyclic node reachable
      (cycle.lift id fun _ _ step => step.2.leadsTo step.1)
  · rcases loop with ⟨settings, kind⟩
    refine admissible.not_reachable_start reachable ?_
    refine (Graph.leadsTo_loop_iff (Kind.role_eq_loop_iff.mpr kind)).mpr ?_
    exact behind.imp_right fun left => ⟨chain, collected, left⟩
  · rcases admissible.collected start reachable loop with ⟨chain, collected⟩
    have closes := Graph.closes_of_loopChain keyed loop collected
    exact ⟨⟨chain, collected⟩, closes.away, closes.acyclic⟩

end

namespace Compile

/-- A flow in which one answer leads back to the trigger, and the other one to a loop with an end
marker that leads back into the body. -/
def circularExport : FlowExport where
  flowId := "circle"
  title := "Circle"
  organisationId := "shop"
  branchId := "north"
  nodes := [
    ⟨"start", "trigger", .object [("title", .string "Start")]⟩,
    ⟨"ask", "sendButtons", .object [
      ("title", .string "Ask"),
      ("message", .string "Again?"),
      ("buttons", .array [
        .object [("id", .string "yes"), ("label", .string "Yes")],
        .object [("id", .string "no"), ("label", .string "No")]])]⟩,
    ⟨"each", "loopStart", .object [("title", .string "Each"), ("loopValue", .ofUInt32 2)]⟩,
    ⟨"note", "sendText", .object [("title", .string "Note"), ("message", .string "Hello")]⟩,
    ⟨"done", "loopEnd", .object [("title", .string "Done")]⟩]
  edges := [
    ⟨"1", "start", "ask", none⟩,
    ⟨"2", "ask", "start", some "option-yes"⟩,
    ⟨"3", "ask", "each", some "option-no"⟩,
    ⟨"4", "each", "note", none⟩,
    ⟨"5", "note", "done", none⟩,
    ⟨"6", "done", "note", none⟩]

def circularFlow : Flow where
  flowId := "circle"
  title := "Circle"
  organisationId := "shop"
  branchId := "north"
  nodes := [
    ⟨"start", "Start", .trigger ⟨none⟩⟩,
    ⟨"ask", "Ask", .sendButtons ⟨"Again?", [⟨"yes", "Yes"⟩, ⟨"no", "No"⟩], none, false⟩⟩,
    ⟨"each", "Each", .loopStart ⟨.count 2, none⟩⟩,
    ⟨"note", "Note", .sendText ⟨"Hello", false, none, none⟩⟩,
    ⟨"done", "Done", .loopEnd⟩]
  edges := [
    ⟨"1", "start", "ask", "next-step"⟩,
    ⟨"2", "ask", "start", "option-yes"⟩,
    ⟨"3", "ask", "each", "option-no"⟩,
    ⟨"4", "each", "note", "next-step"⟩,
    ⟨"5", "note", "done", "next-step"⟩,
    ⟨"6", "done", "note", "next-step"⟩]

theorem ofExport_circularExport : Flow.ofExport .empty circularExport = .ok circularFlow := by
  decide +kernel

end Compile

/-- A cycle may lead through the trigger or through an end marker. -/
theorem cycles_through_ends_compile :
    ∃ flow trigger ask note, Flow.ofExport .empty Compile.circularExport = .ok flow ∧
      (∃ program, compile .standard Compile.sampleLookup flow = .ok program) ∧
      flow.trigger? = some trigger ∧
      (Relation.ReflTransGen (Graph.ofFlow flow).Onward trigger ask ∧
        Relation.TransGen (Graph.ofFlow flow).Onward ask ask) ∧
      (Relation.ReflTransGen (Graph.ofFlow flow).Onward trigger note ∧
        Relation.TransGen (Graph.ofFlow flow).Onward note note) := by
  let trigger : Node := ⟨"start", "Start", .trigger ⟨none⟩⟩
  let ask : Node :=
    ⟨"ask", "Ask", .sendButtons ⟨"Again?", [⟨"yes", "Yes"⟩, ⟨"no", "No"⟩], none, false⟩⟩
  let each : Node := ⟨"each", "Each", .loopStart ⟨.count 2, none⟩⟩
  let note : Node := ⟨"note", "Note", .sendText ⟨"Hello", false, none, none⟩⟩
  let done : Node := ⟨"done", "Done", .loopEnd⟩
  have begins : (Graph.ofFlow Compile.circularFlow).Onward trigger ask := by decide +kernel
  have returns : (Graph.ofFlow Compile.circularFlow).Onward ask trigger := by decide +kernel
  have goesOn : (Graph.ofFlow Compile.circularFlow).Onward ask each := by decide +kernel
  have enters : (Graph.ofFlow Compile.circularFlow).Onward each note := by decide +kernel
  have ends : (Graph.ofFlow Compile.circularFlow).Onward note done := by decide +kernel
  have leaves : (Graph.ofFlow Compile.circularFlow).Onward done note := by decide +kernel
  refine ⟨Compile.circularFlow, trigger, ask, note, Compile.ofExport_circularExport,
    Compile.exists_ok_of_isOk (by decide +kernel), rfl,
    ⟨.single begins, .tail (.single returns) begins⟩,
    ⟨.tail (.tail (.single begins) goesOn) enters, .tail (.single ends) leaves⟩⟩

/-- The nodes of the sample flow are lowered without a repetition, its loop included. -/
theorem compiled_nodes_not_repeated_sample :
    ∃ first program start, (Graph.ofFlow Compile.sampleFlow).next? "start" .nextStep = some first ∧
      compile .standard Compile.sampleLookup Compile.sampleFlow = .ok program ∧
      (∀ node, (Graph.ofFlow Compile.sampleFlow).Reachable first node →
        ¬ Relation.TransGen (Graph.ofFlow Compile.sampleFlow).LeadsTo node node) ∧
      (Graph.ofFlow Compile.sampleFlow).Reachable first ⟨"each", "Each", .loopStart start⟩ ∧
      ∀ node, ¬ Relation.TransGen ((Graph.ofFlow Compile.sampleFlow).StepsInside
        ⟨"each", "Each", .loopStart start⟩) node node := by
  have isTrigger : Compile.sampleFlow.trigger? = some ⟨"start", "Start", .trigger ⟨none⟩⟩ := rfl
  have connected : (Graph.ofFlow Compile.sampleFlow).next? "start" .nextStep =
      some Compile.samplePrompt := by
    decide +kernel
  have reachable : (Graph.ofFlow Compile.sampleFlow).Reachable Compile.samplePrompt
      Compile.sampleLoop :=
    .tail (.single Compile.leadsTo_sampleSubflow) Compile.leadsTo_sampleLoop
  rcases Compile.exists_sampleProgram with ⟨program, compiled⟩
  have lowered := compiled_nodes_not_repeated isTrigger connected compiled
  exact ⟨_, program, _, connected, compiled, fun node reachable => (lowered.1 node reachable).1,
    reachable, (lowered.2.2.2 _ reachable ⟨_, rfl⟩).2.2⟩

end FlowCompiler
