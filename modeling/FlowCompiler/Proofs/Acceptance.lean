import FlowCompiler.Proofs.BodySearch
import FlowCompiler.Proofs.Checked
import FlowCompiler.Proofs.LoadedFlows
import FlowCompiler.Proofs.Stages

namespace FlowCompiler

/-! Which flows are compiled: those whose reachable loops can be collected and whose reachable nodes
do not lead back to themselves. All others are refused for a defect that they have. -/

namespace Graph

variable {graph : Graph}

/-! ## Faults -/

inductive Fault (graph : Graph) (first : Node) : WalkError → Prop
  | cycle {node : Node} (reachable : graph.Reachable first node)
      (cycle : Relation.TransGen graph.LeadsTo node node) :
      Fault graph first (.cycleDetected node.id)
  | loop {start : Node} {error : WalkError} (reachable : graph.Reachable first start)
      (loop : ∃ settings, start.kind = .loopStart settings)
      (failed : graph.loopChain start = .error error) : Fault graph first error

theorem Fault.not_admissible {first : Node} {error : WalkError} (fault : Fault graph first error) :
    ¬ graph.Admissible first := by
  intro admissible
  cases fault with
  | cycle reachable cycle => exact admissible.acyclic _ reachable cycle
  | loop reachable loop failed =>
      rcases admissible.collected _ reachable loop with ⟨chain, collected⟩
      rw [failed] at collected
      cases collected

theorem Keyed.knows_of_leadsTo (keyed : graph.Keyed) {node next : Node}
    (leads : graph.LeadsTo node next) : graph.Knows next := by
  cases role : node.kind.role with
  | terminal => exact absurd leads (not_leadsTo_of_terminal role)
  | loop start =>
      rcases (leadsTo_loop_iff role).mp leads with found | ⟨_, _, found⟩
      · exact keyed.node?_of_next? found
      · exact keyed.node?_of_next? found
  | action | fork | subflow =>
      exact keyed.knows_of_follows
        ((leadsTo_iff_follows (by simp [role]) (by simp [role])).mp leads)

theorem Reachable.knows (keyed : graph.Keyed) {first node : Node} (known : graph.Knows first)
    (reachable : graph.Reachable first node) : graph.Knows node := by
  induction reachable with
  | refl => exact known
  | tail _ leads _ => exact keyed.knows_of_leadsTo leads

/-- What a node leads to can be met by going through outlets, also behind a loop. -/
theorem LeadsTo.follows {node next : Node} (leads : graph.LeadsTo node next) :
    Relation.TransGen graph.Follows node next := by
  cases role : node.kind.role with
  | terminal => exact absurd leads (not_leadsTo_of_terminal role)
  | loop start =>
      have loop : ∃ settings, node.kind = .loopStart settings :=
        ⟨start, Kind.role_eq_loop_iff.mp role⟩
      rcases (leadsTo_loop_iff role).mp leads with entered | ⟨chain, collected, left⟩
      · exact .single ((follows_loop_iff loop).mpr entered)
      · have finish := inBody_of_loopChain collected
        exact (finish.1.follows loop).tail ((follows_loopEnd_iff finish.2).mpr left)
  | action | fork | subflow =>
      exact .single ((leadsTo_iff_follows (by simp [role]) (by simp [role])).mp leads)

theorem Reachable.follows {first node : Node} (reachable : graph.Reachable first node) :
    Relation.ReflTransGen graph.Follows first node := by
  induction reachable with
  | refl => exact .refl
  | tail _ leads met => exact met.trans leads.follows.to_reflTransGen

theorem Fault.defect (keyed : graph.Keyed) {first : Node} (known : graph.Knows first)
    {error : WalkError} (fault : Fault graph first error) : Defect graph first error := by
  cases fault with
  | cycle reachable cycle =>
      exact .cycle reachable.follows (cycle.lift' id fun _ _ leads => leads.follows)
  | loop reachable loop failed =>
      exact defect_of_loopChain keyed reachable.follows reachable (reachable.knows keyed known) loop
        failed

/-! ## Unfoldings that fail -/

def LoopBounds.Surround (graph : Graph) (bounds : LoopBounds) (node : Node) : Prop :=
  ∃ start chain, graph.loopChain start = .ok chain ∧ bounds = ⟨start.id, chain.finish.id⟩ ∧
    graph.InBody start node

/-- Where an unfolding has arrived: at a reachable node, in the body of the loop with the given
bounds if there is one, where all ids are unused but those of nodes that lead there. -/
structure Arrives (graph : Graph) (first : Node) (bounds : Option LoopBounds)
    (unused : List String) (node : Node) : Prop where
  reachable : graph.Reachable first node
  known : graph.Knows node
  surrounded : ∀ loop ∈ bounds, loop.Surround graph node
  path : ∀ other, graph.Knows other → other.id ∉ unused →
    Relation.TransGen graph.LeadsTo other node

section

variable {first node next : Node} {bounds : Option LoopBounds} {unused : List String}

theorem Arrives.path_erase (arrives : Arrives graph first bounds unused node)
    (leads : graph.LeadsTo node next) (other : Node) (known : graph.Knows other)
    (used : other.id ∉ unused.erase node.id) : Relation.TransGen graph.LeadsTo other next := by
  by_cases same : other.id = node.id
  · exact .single (eq_of_id_eq known arrives.known same ▸ leads)
  · refine (arrives.path other known fun member => used ?_).tail leads
    exact (List.mem_erase_of_ne same).mpr member

/-- Behind a node that is no loop, the unfolding stays in the body in which it is. -/
theorem Arrives.goOn (keyed : graph.Keyed) (arrives : Arrives graph first bounds unused node)
    (running : node.kind.role ≠ .terminal) (outside : ∀ start, node.kind.role ≠ .loop start)
    (leads : graph.LeadsTo node next) :
    Arrives graph first bounds (unused.erase node.id) next := by
  refine ⟨arrives.reachable.tail leads, keyed.knows_of_leadsTo leads, ?_,
    arrives.path_erase leads⟩
  intro loop member
  rcases arrives.surrounded loop member with ⟨start, chain, collected, equal, inside⟩
  exact ⟨start, chain, collected, equal,
    inside.step (fun ended => running (Kind.role_loopEnd ended))
      ((leadsTo_iff_follows running outside).mp leads)⟩

theorem Arrives.leave (keyed : graph.Keyed) (arrives : Arrives graph first bounds unused node)
    (leads : graph.LeadsTo node next) :
    Arrives graph first none (unused.erase node.id) next :=
  ⟨arrives.reachable.tail leads, keyed.knows_of_leadsTo leads, by simp, arrives.path_erase leads⟩

theorem Arrives.enter (keyed : graph.Keyed) (arrives : Arrives graph first bounds unused node)
    {chain : LoopChain} (collected : graph.loopChain node = .ok chain)
    (entered : graph.next? node.id .nextStep = some next) (leads : graph.LeadsTo node next) :
    Arrives graph first (some ⟨node.id, chain.finish.id⟩) (unused.erase node.id) next := by
  refine ⟨arrives.reachable.tail leads, keyed.knows_of_leadsTo leads, ?_,
    arrives.path_erase leads⟩
  rintro loop ⟨⟩
  exact ⟨node, chain, collected, rfl, .entry entered⟩

theorem Arrives.continues (keyed : graph.Keyed) {stage next : Stage}
    (arrives : Arrives graph first stage.bounds stage.unused stage.node)
    (continues : graph.Continues stage next) :
    Arrives graph first next.bounds next.unused next.node := by
  have leads := continues.leadsTo
  cases continues with
  | follow _ outside _ =>
      exact arrives.goOn keyed (fun role => not_leadsTo_of_terminal role leads) outside leads
  | enter _ _ collected opened =>
      exact arrives.enter keyed collected (next?_of_head? collected opened) leads
  | leave => exact arrives.leave keyed leads

theorem Raises.fault (keyed : graph.Keyed) {stage : Stage} {error : WalkError}
    (arrives : Arrives graph first stage.bounds stage.unused stage.node)
    (raises : Raises graph stage error) : Fault graph first error := by
  cases raises with
  | again _ used => exact .cycle arrives.reachable (arrives.path _ arrives.known used)
  | nested _ role =>
      -- No loop starts in the body of a loop that was collected.
      rcases arrives.surrounded _ rfl with ⟨_, _, collected, _, inside⟩
      exact absurd (Kind.role_eq_loop_iff.mp role) (inside.flat keyed collected _)
  | uncollected _ role failed =>
      exact .loop arrives.reachable ⟨_, Kind.role_eq_loop_iff.mp role⟩ failed

end

theorem fault_of_unfold (keyed : graph.Keyed) {first : Node} (bounds : Option LoopBounds)
    (unused : List String) {node : Node} {error : WalkError}
    (arrives : Arrives graph first bounds unused node)
    (failed : graph.unfold bounds unused node = .error error) : Fault graph first error := by
  have failed : Stage.unfold graph ⟨bounds, unused, node⟩ = .error error := failed
  rcases exists_raising_of_unfold failed with ⟨origin, reached, raises⟩
  have arrived : Arrives graph first origin.bounds origin.unused origin.node := by
    clear raises
    induction reached with
    | refl => exact arrives
    | tail _ continues arrived => exact arrived.continues keyed continues
  exact raises.fault keyed arrived

/-! ## Unfoldings that succeed -/

/-! A node is grounded if everything to which it leads comes to an end, and all loops there can be
collected. -/

inductive Grounded (graph : Graph) : Node → Prop
  | intro {node : Node}
      (collected : (∃ settings, node.kind = .loopStart settings) →
        ∃ chain, graph.loopChain node = .ok chain)
      (behind : ∀ next, graph.LeadsTo node next → Grounded graph next) : Grounded graph node

theorem Grounded.of_terminal {node : Node} (role : node.kind.role = .terminal) :
    Grounded graph node := by
  refine .intro ?_ fun next leads => absurd leads (not_leadsTo_of_terminal role)
  rintro ⟨start, loop⟩
  rw [Kind.role_eq_loop_iff.mpr loop] at role
  cases role

theorem Grounded.of_outside {node : Node} (outside : ∀ start, node.kind.role ≠ .loop start)
    (behind : ∀ next, graph.LeadsTo node next → Grounded graph next) : Grounded graph node :=
  .intro (fun ⟨start, loop⟩ => absurd (Kind.role_eq_loop_iff.mpr loop) (outside start)) behind

theorem Grounded.reachable {first node : Node} (grounded : Grounded graph first)
    (reachable : graph.Reachable first node) : Grounded graph node := by
  induction reachable with
  | refl => exact grounded
  | tail _ leads induction =>
      cases induction with
      | intro _ behind => exact behind _ leads

theorem Grounded.acyclic {node : Node} (grounded : Grounded graph node) :
    ¬ Relation.TransGen graph.LeadsTo node node := by
  induction grounded with
  | intro _ _ induction =>
      intro cycle
      -- The successor on a cycle through the node lies on a cycle as well.
      rcases Relation.TransGen.head'_iff.mp cycle with ⟨next, leads, back⟩
      exact induction next leads (Relation.TransGen.tail' back leads)

theorem Grounded.admissible {first : Node} (grounded : Grounded graph first) :
    graph.Admissible first where
  collected start reachable loop := by
    cases grounded.reachable reachable with
    | intro collected _ => exact collected loop
  acyclic _ reachable := (grounded.reachable reachable).acyclic

/-- Only end markers have the id of the marker at which the walk through the body ends. -/
def LoopBounds.Marked (graph : Graph) (bounds : Option LoopBounds) : Prop :=
  ∀ loop ∈ bounds, ∀ node, graph.Knows node → loop.finish = node.id → node.kind = .loopEnd

theorem marked_of_loopChain (keyed : graph.Keyed) {start : Node} {chain : LoopChain}
    (collected : graph.loopChain start = .ok chain) :
    LoopBounds.Marked graph (some ⟨start.id, chain.finish.id⟩) := by
  rintro loop ⟨⟩ node known same
  have finish := inBody_of_loopChain collected
  exact eq_of_id_eq (finish.1.knows keyed) known same ▸ finish.2

mutual
theorem Unfolds.grounded (keyed : graph.Keyed) {bounds : Option LoopBounds}
    {unused : List String} {node : Node} {walk : Walk Node}
    (marked : LoopBounds.Marked graph bounds) (known : graph.Knows node) :
    Unfolds graph bounds unused node walk → Grounded graph node
  | .ended finish => .of_terminal (Kind.role_loopEnd (marked _ rfl node known finish))
  | .terminal _ _ role => .of_terminal role
  | .passed _ _ role _ rest => by
      refine .of_outside (by simp [role]) fun next leads => ?_
      exact rest.grounded keyed marked next ((leadsTo_action_iff role).mp leads)
  | .action _ _ role _ rest => by
      refine .of_outside (by simp [role]) fun next leads => ?_
      exact rest.grounded keyed marked next ((leadsTo_action_iff role).mp leads)
  | .fork _ _ role behind => by
      refine .of_outside (by simp [role]) fun next leads => ?_
      exact behind.grounded keyed marked next ((leadsTo_fork_iff role).mp leads)
  | .subflow _ _ role behind rest => by
      refine .of_outside (by simp [role]) fun next leads => ?_
      rcases (leadsTo_subflow_iff role).mp leads with failing | found
      · exact behind.grounded keyed marked next failing
      · exact rest.grounded keyed marked next found
  | .loop _ role collected entered rest => by
      refine .intro (fun _ => ⟨_, collected⟩) fun next leads => ?_
      rcases (leadsTo_loop_iff role).mp leads with found | ⟨other, again, found⟩
      · exact entered.grounded keyed (marked_of_loopChain keyed collected) next found
      · rw [collected] at again
        cases again
        exact rest.grounded keyed marked next found

theorem Behind.grounded (keyed : graph.Keyed) {bounds : Option LoopBounds}
    {unused : List String} {id : String} {outlet : Outlet} {walk : Walk Node}
    (marked : LoopBounds.Marked graph bounds) :
    Behind graph bounds unused id outlet walk →
      ∀ next, graph.next? id outlet = some next → Grounded graph next
  | .connected found unfolds => by
      intro next same
      rw [found] at same
      cases same
      exact unfolds.grounded keyed marked (keyed.node?_of_next? found)
  | .unconnected missing => by
      intro next found
      rw [missing] at found
      cases found

theorem BehindExits.grounded (keyed : graph.Keyed) {bounds : Option LoopBounds}
    {unused : List String} {id : String} {exits : List Exit}
    {walks : List (Exit × Option (Walk Node))} (marked : LoopBounds.Marked graph bounds) :
    BehindExits graph bounds unused id exits walks →
      ∀ next, (∃ exit ∈ exits, graph.next? id exit.outlet = some next) → Grounded graph next
  | .nil => by simp
  | .connected found unfolds behind => by
      rintro next ⟨exit, member, same⟩
      rcases List.mem_cons.mp member with equal | member
      · rw [equal, found] at same
        cases same
        exact unfolds.grounded keyed marked (keyed.node?_of_next? found)
      · exact behind.grounded keyed marked next ⟨exit, member, same⟩
  | .unconnected missing behind => by
      rintro next ⟨exit, member, found⟩
      rcases List.mem_cons.mp member with equal | member
      · rw [equal, missing] at found
        cases found
      · exact behind.grounded keyed marked next ⟨exit, member, found⟩
end

/-! ## Which unfoldings succeed -/

theorem arrives_first {first : Node} (known : graph.Knows first) :
    Arrives graph first none graph.ids first :=
  ⟨.refl, known, by simp, fun _ otherKnown used => absurd (mem_ids otherKnown) used⟩

theorem fault_of_unfold_first (keyed : graph.Keyed) {first : Node} (known : graph.Knows first)
    {error : WalkError} (failed : graph.unfold none graph.ids first = .error error) :
    Fault graph first error :=
  fault_of_unfold keyed none graph.ids (arrives_first known) failed

theorem isOk_unfold_iff (keyed : graph.Keyed) {first : Node} (known : graph.Knows first) :
    (∃ walk, graph.unfold none graph.ids first = .ok walk) ↔ graph.Admissible first := by
  constructor
  · rintro ⟨walk, unfolded⟩
    have unfolds := unfolds_of_unfold graph none graph.ids first walk unfolded
    exact (unfolds.grounded keyed (by simp [LoopBounds.Marked]) known).admissible
  · intro admissible
    cases unfolded : graph.unfold none graph.ids first with
    | ok walk => exact ⟨walk, rfl⟩
    | error error =>
        exact absurd admissible (fault_of_unfold_first keyed known unfolded).not_admissible

end Graph

/-! ## Which flows are compiled -/

theorem exists_trigger_of_ofExport {aliases : Table String} {exported : FlowExport} {flow : Flow}
    (loaded : Flow.ofExport aliases exported = .ok flow) :
    ∃ trigger, flow.trigger? = some trigger :=
  (Flow.Loaded.consistent ⟨aliases, exported, loaded⟩).exists_trigger

/-- A flow that was loaded has a trigger. Where nothing is connected to it, the flow compiles to
the empty program. Elsewhere a lookup that fails is reported before anything else; behind one that
succeeds the flow compiles exactly if it is admissible, and any error names a defect. -/
theorem compile_accepts_exactly_admissible {aliases : Table String} {exported : FlowExport}
    {flow : Flow} (loaded : Flow.ofExport aliases exported = .ok flow) (settings : Settings)
    (lookup : BranchLookup) :
    ∃ trigger, flow.trigger? = some trigger ∧
      ((Graph.ofFlow flow).next? trigger.id .nextStep = none →
        compile settings lookup flow = .ok Compile.emptyProgram ∧
          Compile.emptyProgram.routines.keys = [Program.mainName]) ∧
      ∀ first, (Graph.ofFlow flow).next? trigger.id .nextStep = some first →
        (∀ error, lookup flow.branchId = .error error →
          compile settings lookup flow = .error (.lookup error)) ∧
        ∀ branch, lookup flow.branchId = .ok branch →
          ((∃ program, compile settings lookup flow = .ok program) ↔
            (Graph.ofFlow flow).Admissible first) ∧
          ∀ error, compile settings lookup flow = .error error →
            ∃ fault, error = .walk fault ∧ (Graph.ofFlow flow).Defect first fault := by
  rcases exists_trigger_of_ofExport loaded with ⟨trigger, started⟩
  rw [compile_eq_build]
  refine ⟨trigger, started, fun unconnected => ⟨Compile.build_of_unconnected started unconnected,
    rfl⟩, fun first connected => ⟨fun error failed =>
      Compile.build_of_lookup_error started connected failed, fun branch found => ?_⟩⟩
  have keyed := Graph.keyed_ofFlow flow
  have known := keyed.node?_of_next? connected
  rw [Compile.build_of_connected started connected found, ← Graph.isOk_unfold_iff keyed known]
  cases unfolded : (Graph.ofFlow flow).unfold none (Graph.ofFlow flow).ids first with
  | ok walk =>
      refine ⟨⟨fun _ => ⟨walk, rfl⟩, fun _ => ⟨_, rfl⟩⟩, fun error failed => ?_⟩
      cases failed
  | error fault =>
      refine ⟨⟨?_, ?_⟩, fun error failed => ⟨fault, ?_, ?_⟩⟩
      · rintro ⟨_, compiled⟩
        cases compiled
      · rintro ⟨_, equal⟩
        cases equal
      · cases failed
        rfl
      · exact (Graph.fault_of_unfold_first keyed known unfolded).defect keyed known

namespace Compile

def sampleExport : FlowExport where
  flowId := "order"
  title := "Order"
  organisationId := "shop"
  branchId := "north"
  nodes := [
    ⟨"start", "trigger", .object [("title", .string "Start")]⟩,
    ⟨"ask", "sendButtons", .object [
      ("title", .string "Ask 1 send"),
      ("message", .string "Again?"),
      ("buttons", .array [
        .object [("id", .string "yes"), ("label", .string "Yes")],
        .object [("id", .string "no"), ("label", .string "No")]]),
      ("retryInvalid", .bool true)]⟩,
    ⟨"bill", "subflow", .object [("title", .string "Bill"), ("subflowId", .string "billing")]⟩,
    ⟨"late", "alert", .object [
      ("title", .string "Late"), ("message", .string "Late"), ("channel", .string "mail")]⟩,
    ⟨"each", "loopStart", .object [("title", .string "Each"), ("loopValue", .ofUInt32 3)]⟩,
    ⟨"note", "sendText", .object [("title", .string "Note"), ("message", .string "Hello")]⟩,
    ⟨"done", "loopEnd", .object [("title", .string "Done")]⟩]
  edges := [
    ⟨"1", "start", "ask", none⟩,
    ⟨"2", "ask", "bill", some "option-yes"⟩,
    ⟨"3", "bill", "late", some "failure"⟩,
    ⟨"4", "bill", "each", none⟩,
    ⟨"5", "each", "note", none⟩,
    ⟨"6", "note", "done", none⟩]

theorem ofExport_sampleExport : Flow.ofExport .empty sampleExport = .ok sampleFlow := by
  decide +kernel

end Compile

theorem compile_accepts_exactly_admissible_sample :
    ∃ first, (Graph.ofFlow Compile.sampleFlow).next? "start" .nextStep = some first ∧
      (Graph.ofFlow Compile.sampleFlow).Admissible first := by
  rcases compile_accepts_exactly_admissible Compile.ofExport_sampleExport .standard
    Compile.sampleLookup with ⟨trigger, started, _, connected⟩
  have isStart : trigger.id = "start" := by
    cases started
    rfl
  rw [isStart] at connected
  have found : ((Graph.ofFlow Compile.sampleFlow).next? "start" .nextStep).isSome := by
    decide +kernel
  rcases Option.isSome_iff_exists.mp found with ⟨first, next⟩
  exact ⟨first, next, ((connected first next).2 ⟨"North"⟩ rfl).1.mp Compile.exists_sampleProgram⟩

end FlowCompiler
