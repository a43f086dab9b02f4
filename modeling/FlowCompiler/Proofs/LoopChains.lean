import FlowCompiler.Proofs.Acceptance

namespace FlowCompiler

/-! Which loops can be collected, and what their chains hold. The search through the body of a loop
goes through each node once and stops at all others that it meets again. Still it misses no way that
leads back, no inner loop and no end marker: the chain is what a tour of the whole body meets. -/

namespace Graph

variable {graph : Graph} {start node next : Node}

/-! ## Loops that can be collected -/

/-- The body of the loop holds an end marker and no start of a loop, and neither the start of the
loop nor any node of the body is met again. -/
structure Closes (graph : Graph) (start : Node) : Prop where
  ends : ∃ node, graph.InBody start node ∧ node.kind = .loopEnd
  flat : ∀ node, graph.InBody start node → ∀ settings, node.kind ≠ .loopStart settings
  away : ¬ graph.InBody start start
  acyclic : ∀ node, ¬ Relation.TransGen (graph.StepsInside start) node node

theorem Obstacle.not_closes {error : WalkError} (obstacle : Obstacle graph start error) :
    ¬ graph.Closes start := by
  intro closes
  cases obstacle with
  | again inside => exact closes.away inside
  | cycle cycle => exact closes.acyclic _ cycle
  | nested inside inner =>
      rcases inner with ⟨settings, kind⟩
      exact closes.flat _ inside settings kind
  | unterminated endless =>
      rcases closes.ends with ⟨node, inside, ended⟩
      exact endless node inside ended

/-- On every way through a body, tours get shorter. -/
theorem Tour.exists_shorter {tour : List Node} (own : graph.Tour node tour)
    (way : Relation.TransGen (graph.StepsInside start) node next) :
    ∃ part, graph.Tour next part ∧ part.length < tour.length := by
  induction way with
  | single step =>
      rcases own.exists_behind step.continues step.follows with ⟨part, behind, _, shorter⟩
      exact ⟨part, behind, shorter⟩
  | tail _ step induction =>
      rcases induction with ⟨part, toured, shorter⟩
      rcases toured.exists_behind step.continues step.follows with ⟨later, behind, _, less⟩
      exact ⟨later, behind, Nat.lt_trans less shorter⟩

theorem Tour.acyclic {tour : List Node} (own : graph.Tour node tour) :
    ¬ Relation.TransGen (graph.StepsInside start) node node := by
  intro cycle
  rcases own.exists_shorter cycle with ⟨part, again, shorter⟩
  rw [own.unique again] at shorter
  exact Nat.lt_irrefl _ shorter

theorem closes_of_loopChain (keyed : graph.Keyed)
    (loop : ∃ settings, start.kind = .loopStart settings) {chain : LoopChain}
    (collected : graph.loopChain start = .ok chain) : graph.Closes start where
  ends := ⟨chain.finish, inBody_of_loopChain collected⟩
  flat _ inside := inside.flat keyed collected
  away inside := by
    rcases loop with ⟨settings, kind⟩
    exact inside.flat keyed collected settings kind
  acyclic node cycle := by
    rcases exists_tour_of_loopChain keyed collected with ⟨entry, tour, entered, own, _⟩
    rcases Relation.TransGen.head'_iff.mp cycle with ⟨_, step, _⟩
    rcases own.exists_part node (step.inside.mem_tour entered own) with ⟨part, tourOfNode, _⟩
    exact tourOfNode.acyclic cycle

/-! ## Chains -/

/-- The chain holds what the tour through the body of the loop meets: the body lists each node but
the end markers once, in the order of the first visits, and the finish is the first end marker. -/
structure LoopChain.Lists (graph : Graph) (start : Node) (chain : LoopChain) : Prop where
  mem_body : ∀ node, node ∈ chain.body ↔ graph.InBody start node ∧ node.kind ≠ .loopEnd
  distinct : (chain.body.map Node.id).Nodup
  finish : graph.InBody start chain.finish ∧ chain.finish.kind = .loopEnd
  ordered : ∃ entry tour, graph.next? start.id .nextStep = some entry ∧ graph.Tour entry tour ∧
    (∀ other, graph.Tour entry other → other = tour) ∧
    chain.body = (firstVisits [] tour).filter (fun node => node.kind ≠ .loopEnd) ∧
    (firstVisits [] tour).find? (fun node => node.kind = .loopEnd) = some chain.finish ∧
    (entry.kind ≠ .loopEnd → chain.body.head? = some entry) ∧
    (entry.kind = .loopEnd → chain.body = [] ∧ chain.finish = entry)

theorem lists_of_loopChain (keyed : graph.Keyed) {chain : LoopChain}
    (collected : graph.loopChain start = .ok chain) : chain.Lists graph start := by
  rcases exists_tour_of_loopChain keyed collected with ⟨entry, tour, entered, own, body, finish⟩
  refine ⟨fun node => ?_, ?_, inBody_of_loopChain collected, entry, tour, entered, own,
    fun other => own.unique, body, finish, fun continues => ?_, fun ended => ?_⟩
  · rw [body, List.mem_filter, mem_firstVisits_iff keyed entered own, decide_eq_true_iff]
  · rw [body]
    exact (List.filter_sublist.map Node.id).nodup (nodup_firstVisits tour []).1
  · cases own with
    | ends ended => exact absurd ended continues
    | goesOn => rw [body, firstVisits, if_neg List.not_mem_nil,
        List.filter_cons_of_pos (by simpa using continues), List.head?_cons]
  · cases own with
    | ends =>
        rw [firstVisits, if_neg List.not_mem_nil, firstVisits] at body finish
        rw [List.filter_cons_of_neg (by simpa using ended)] at body
        rw [List.find?_cons_of_pos (by simpa using ended)] at finish
        exact ⟨body, (Option.some.inj finish).symm⟩
    | goesOn continues => exact absurd ended continues

end Graph

/-! ## Loops of a flow -/

/-- The chain of a loop is collected if and only if the body of the loop comes to an end marker, is
flat and is never met again. The chain then lists the whole body, in the order of the first visits,
and otherwise the error names what prevents it. -/
theorem loop_chains_list_bodies {flow : Flow} (loaded : flow.Loaded) {start : Node}
    (member : start ∈ flow.nodes) (loop : ∃ settings, start.kind = .loopStart settings) :
    ((∃ chain, (Graph.ofFlow flow).loopChain start = .ok chain) ↔
      (Graph.ofFlow flow).Closes start) ∧
    (∀ chain, (Graph.ofFlow flow).loopChain start = .ok chain →
      chain.Lists (Graph.ofFlow flow) start) ∧
    ∀ error, (Graph.ofFlow flow).loopChain start = .error error →
      Graph.Obstacle (Graph.ofFlow flow) start error := by
  have keyed := Graph.keyed_ofFlow flow
  have known : (Graph.ofFlow flow).Knows start :=
    loaded.consistent.node?_eq_some_iff.mpr ⟨member, rfl⟩
  have obstacle : ∀ error, (Graph.ofFlow flow).loopChain start = .error error →
      Graph.Obstacle (Graph.ofFlow flow) start error :=
    fun error failed => Graph.obstacle_of_loopChain keyed known failed
  refine ⟨⟨?_, fun closes => ?_⟩, fun chain => Graph.lists_of_loopChain keyed, obstacle⟩
  · rintro ⟨chain, collected⟩
    exact Graph.closes_of_loopChain keyed loop collected
  · cases collected : (Graph.ofFlow flow).loopChain start with
    | ok chain => exact ⟨chain, rfl⟩
    | error error => exact absurd closes (obstacle error collected).not_closes

/-- The loop of the sample flow can be collected. -/
theorem loop_chains_list_bodies_sample :
    Compile.sampleFlow.Loaded ∧ ∃ start ∈ Compile.sampleFlow.nodes, ∃ chain,
      (Graph.ofFlow Compile.sampleFlow).loopChain start = .ok chain ∧
        (Graph.ofFlow Compile.sampleFlow).Closes start ∧
        chain.Lists (Graph.ofFlow Compile.sampleFlow) start := by
  have loaded : Compile.sampleFlow.Loaded := ⟨.empty, _, Compile.ofExport_sampleExport⟩
  have member : ⟨"each", "Each", .loopStart ⟨.count 3, none⟩⟩ ∈ Compile.sampleFlow.nodes := by
    decide
  have isOk : ((Graph.ofFlow Compile.sampleFlow).loopChain
      ⟨"each", "Each", .loopStart ⟨.count 3, none⟩⟩).isOk := by
    decide +kernel
  rcases Compile.exists_ok_of_isOk isOk with ⟨chain, collected⟩
  have chains := loop_chains_list_bodies loaded member ⟨_, rfl⟩
  exact ⟨loaded, _, member, chain, collected, chains.1.mp ⟨chain, collected⟩,
    chains.2.1 chain collected⟩

end FlowCompiler
