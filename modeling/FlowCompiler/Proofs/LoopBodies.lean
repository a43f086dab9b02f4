import FlowCompiler.Proofs.Acceptance

namespace FlowCompiler

/-! The search through the body of a loop and the unfolding of this body agree: where the search
succeeds, the unfolding meets only nodes that the search has found, and never fails. -/

namespace Graph

variable {graph : Graph} {start node : Node}

/-! ## Tours come to an end -/

theorem Grounded.of_follows (flat : ∀ settings, node.kind ≠ .loopStart settings)
    (behind : ∀ next, graph.Follows node next → Grounded graph next) : Grounded graph node := by
  have outside : ∀ start, node.kind.role ≠ .loop start :=
    fun start role => flat start (Kind.role_eq_loop_iff.mp role)
  by_cases terminal : node.kind.role = .terminal
  · exact .of_terminal terminal
  · exact .of_outside outside fun next leads =>
      behind next ((leadsTo_iff_follows terminal outside).mp leads)

mutual
theorem Tour.grounded : ∀ {node : Node} {tour : List Node}, Tour graph node tour →
    Grounded graph node
  | _, _, .ends ended => .of_terminal (Kind.role_loopEnd ended)
  | _, _, .goesOn _ flat behind => .of_follows flat behind.grounded

theorem Tours.grounded : ∀ {nodes tour : List Node}, Tours graph nodes tour →
    ∀ node ∈ nodes, Grounded graph node
  | _, _, .nil => by simp
  | _, _, .cons tour tours => by
      intro node member
      rcases List.mem_cons.mp member with equal | member
      · exact equal ▸ tour.grounded
      · exact tours.grounded node member
end

/-! ## Bodies of loops -/

structure Collects (graph : Graph) (start : Node) (chain : LoopChain) : Prop where
  known : graph.Knows start
  starts : ∃ settings, start.kind = .loopStart settings
  collected : graph.loopChain start = .ok chain

/-! A stage in the body of the loop that begins at `start`, at which an unfolding from `first` on
has arrived. -/

structure Stage.Inside (graph : Graph) (first start : Node) (chain : LoopChain) (stage : Stage) :
    Prop where
  bounded : stage.bounds = some ⟨start.id, chain.finish.id⟩
  inside : graph.InBody start stage.node
  arrives : Arrives graph first stage.bounds stage.unused stage.node

section

variable {chain : LoopChain} {first : Node} {stage next : Stage}

/-- Everything in the body comes to an end, and stands in the chain unless it is an end marker. -/
theorem Collects.settled (keyed : graph.Keyed) (collects : graph.Collects start chain)
    (inside : graph.InBody start node) :
    Grounded graph node ∧ (node.kind ≠ .loopEnd → node ∈ chain.body) := by
  rcases exists_tour_of_loopChain keyed collects.collected with
    ⟨entry, tour, entered, own, body, _⟩
  rcases own.exists_part node (inside.mem_tour entered own) with ⟨part, tourOfNode, _⟩
  refine ⟨tourOfNode.grounded, fun continues => ?_⟩
  rw [body]
  exact List.mem_filter.mpr ⟨(mem_firstVisits_iff keyed entered own).mpr inside, by simpa⟩

theorem Stage.Inside.continues (keyed : graph.Keyed) (inside : stage.Inside graph first start chain)
    (continues : graph.Continues stage next) : next.Inside graph first start chain := by
  have arrives := inside.arrives.continues keyed continues
  cases continues with
  | follow _ outside leads =>
      refine ⟨inside.bounded, inside.inside.step ?_ ?_, arrives⟩
      · exact fun ended => not_leadsTo_of_terminal (Kind.role_loopEnd ended) leads
      · exact (leadsTo_iff_follows (fun role => not_leadsTo_of_terminal role leads) outside).mp
          leads
  | enter => cases inside.bounded
  | leave => cases inside.bounded

theorem Stage.Inside.continues_all (keyed : graph.Keyed)
    (inside : stage.Inside graph first start chain)
    (reached : Relation.ReflTransGen graph.Continues stage next) :
    next.Inside graph first start chain := by
  induction reached with
  | refl => exact inside
  | tail _ continues induction => exact induction.continues keyed continues

/-- In the body of a loop no error is raised: the nodes on the path to a node of the body lead to
it, so it cannot be one of them. -/
theorem Stage.Inside.not_raises (keyed : graph.Keyed) (collects : graph.Collects start chain)
    (inside : stage.Inside graph first start chain) (error : WalkError) :
    ¬ Raises graph stage error := by
  intro raises
  cases raises with
  | again _ used =>
      have grounded := (collects.settled keyed inside.inside).1
      exact grounded.acyclic (inside.arrives.path _ inside.arrives.known used)
  | nested _ role =>
      exact inside.inside.flat keyed collects.collected _ (Kind.role_eq_loop_iff.mp role)
  | uncollected => cases inside.bounded

theorem Stage.Inside.unfolds (keyed : graph.Keyed) (collects : graph.Collects start chain)
    (inside : stage.Inside graph first start chain) : ∃ walk, stage.unfold graph = .ok walk := by
  cases unfolded : stage.unfold graph with
  | ok walk => exact ⟨walk, rfl⟩
  | error error =>
      rcases exists_raising_of_unfold unfolded with ⟨origin, reached, raises⟩
      exact absurd raises ((inside.continues_all keyed reached).not_raises keyed collects error)

end

/-! ## Loops in an unfolding -/

def ComesTo (graph : Graph) (first : Node) : Stage → Prop :=
  Relation.ReflTransGen graph.Continues ⟨none, graph.ids, first⟩

section

variable {chain : LoopChain} {first entry : Node} {stage : Stage}

theorem ComesTo.arrives (keyed : graph.Keyed) (known : graph.Knows first)
    (comes : graph.ComesTo first stage) :
    Arrives graph first stage.bounds stage.unused stage.node := by
  induction comes with
  | refl => exact arrives_first known
  | tail _ continues arrives => exact arrives.continues keyed continues

/-- At the first node of the chain the unfolding is inside the loop. -/
theorem Arrives.inside (keyed : graph.Keyed) {bounds : Option LoopBounds} {unused : List String}
    (arrives : Arrives graph first bounds unused start) (collects : graph.Collects start chain)
    (opened : chain.body.head? = some entry) :
    Stage.Inside graph first start chain
      ⟨some ⟨start.id, chain.finish.id⟩, unused.erase start.id, entry⟩ := by
  have entered := next?_of_head? collects.collected opened
  rcases collects.starts with ⟨settings, kind⟩
  have leads := (leadsTo_loop_iff (Kind.role_eq_loop_iff.mpr kind)).mpr (.inl entered)
  exact ⟨rfl, .entry entered, arrives.enter keyed collects.collected entered leads⟩

/-- An unfolding is either outside of all loops or inside of one. -/
theorem ComesTo.outside_or_inside (keyed : graph.Keyed) (known : graph.Knows first)
    (comes : graph.ComesTo first stage) :
    stage.bounds = none ∨
      ∃ start chain, graph.Collects start chain ∧ stage.Inside graph first start chain := by
  induction comes with
  | refl => exact .inl rfl
  | @tail stage next comes continues induction =>
      rcases induction with outside | ⟨start, chain, collects, inside⟩
      · cases continues with
        | follow => exact .inl outside
        | leave => exact .inl rfl
        | enter _ role collected opened =>
            have arrives := ComesTo.arrives keyed known comes
            have collects : graph.Collects _ _ :=
              ⟨arrives.known, ⟨_, Kind.role_eq_loop_iff.mp role⟩, collected⟩
            exact .inr ⟨_, _, collects, arrives.inside keyed collects opened⟩
      · exact .inr ⟨start, chain, collects, inside.continues keyed continues⟩

theorem ComesTo.outside_of_loop (keyed : graph.Keyed) (known : graph.Knows first)
    (comes : graph.ComesTo first stage) {settings : LoopStart}
    (loop : stage.node.kind = .loopStart settings) : stage.bounds = none := by
  rcases comes.outside_or_inside keyed known with outside | ⟨start, chain, collects, inside⟩
  · exact outside
  · exact absurd loop (inside.inside.flat keyed collects.collected settings)

theorem ComesTo.outside_of_raises (keyed : graph.Keyed) (known : graph.Knows first)
    (comes : graph.ComesTo first stage) {error : WalkError} (raises : Raises graph stage error) :
    stage.bounds = none := by
  rcases comes.outside_or_inside keyed known with outside | ⟨start, chain, collects, inside⟩
  · exact outside
  · exact absurd raises (inside.not_raises keyed collects error)

end

end Graph

/-! ## Loops in a flow that is compiled -/

/-- Loops start only outside of other loops. Where the chain of a loop is collected, its body is
unfolded without an error: every node that is met there is in the chain or an end marker, and none
starts a loop. So an error of a compilation is raised outside of all bodies, at a node that is met
again or by the search through a body that has not been unfolded yet. -/
theorem collected_bodies_unfold {flow : Flow} {trigger first : Node}
    (started : flow.trigger? = some trigger)
    (connected : (Graph.ofFlow flow).next? trigger.id .nextStep = some first)
    (settings : Settings) (lookup : BranchLookup) :
    (∀ stage start, (Graph.ofFlow flow).ComesTo first stage →
      stage.node.kind = .loopStart start →
        stage.bounds = none ∧
        ∀ chain entry, (Graph.ofFlow flow).loopChain stage.node = .ok chain →
          chain.body.head? = some entry →
            ∀ inner, Relation.ReflTransGen (Graph.ofFlow flow).Continues
              ⟨some ⟨stage.node.id, chain.finish.id⟩, stage.unused.erase stage.node.id, entry⟩
              inner →
                (inner.node ∈ chain.body ∨ inner.node.kind = .loopEnd) ∧
                (∀ other, inner.node.kind ≠ .loopStart other) ∧
                ∃ walk, inner.unfold (Graph.ofFlow flow) = .ok walk) ∧
    ∀ error, compile settings lookup flow = .error (.walk error) →
      ∃ stage, (Graph.ofFlow flow).ComesTo first stage ∧ stage.bounds = none ∧
        (error = .cycleDetected stage.node.id ∧ stage.node.id ∉ stage.unused ∨
          (∃ start, stage.node.kind = .loopStart start) ∧ stage.node.id ∈ stage.unused ∧
            (Graph.ofFlow flow).loopChain stage.node = .error error) := by
  have keyed := Graph.keyed_ofFlow flow
  have known := keyed.node?_of_next? connected
  refine ⟨fun stage start comes kind => ⟨comes.outside_of_loop keyed known kind, ?_⟩, ?_⟩
  · intro chain entry collected opened inner reached
    have arrives := comes.arrives keyed known
    have collects : (Graph.ofFlow flow).Collects stage.node chain :=
      ⟨arrives.known, ⟨start, kind⟩, collected⟩
    have inside := (arrives.inside keyed collects opened).continues_all keyed reached
    refine ⟨?_, inside.inside.flat keyed collected, inside.unfolds keyed collects⟩
    by_cases ended : inner.node.kind = .loopEnd
    · exact .inr ended
    · exact .inl ((collects.settled keyed inside.inside).2 ended)
  · intro error failed
    rw [compile_eq_build] at failed
    cases found : lookup flow.branchId with
    | error missing =>
        rw [Compile.build_of_lookup_error started connected found] at failed
        cases failed
    | ok branch =>
        rw [Compile.build_of_connected started connected found] at failed
        cases unfolded : (Graph.ofFlow flow).unfold none (Graph.ofFlow flow).ids first with
        | ok walk =>
            rw [unfolded] at failed
            cases failed
        | error fault =>
            rw [unfolded] at failed
            have same : fault = error := CompileError.walk.inj (Except.error.inj failed)
            have unfolded : Graph.Stage.unfold (Graph.ofFlow flow)
                ⟨none, (Graph.ofFlow flow).ids, first⟩ = .error error := same ▸ unfolded
            rcases Graph.exists_raising_of_unfold unfolded with ⟨stage, comes, raises⟩
            have outside := Graph.ComesTo.outside_of_raises keyed known comes raises
            refine ⟨stage, comes, outside, ?_⟩
            cases raises with
            | again _ used => exact .inl ⟨rfl, used⟩
            | nested => cases outside
            | uncollected fresh role failed =>
                exact .inr ⟨⟨_, Kind.role_eq_loop_iff.mp role⟩, fresh, failed⟩

namespace Compile

def samplePrompt : Node :=
  ⟨"ask", "Ask 1 send", .sendButtons ⟨"Again?", [⟨"yes", "Yes"⟩, ⟨"no", "No"⟩], none, true⟩⟩

def sampleSubflow : Node :=
  ⟨"bill", "Bill", .subflow ⟨"billing", none⟩⟩

def sampleLoop : Node :=
  ⟨"each", "Each", .loopStart ⟨.count 3, none⟩⟩

theorem leadsTo_sampleSubflow : (Graph.ofFlow sampleFlow).LeadsTo samplePrompt sampleSubflow := by
  rw [Graph.LeadsTo]
  decide +kernel

theorem leadsTo_sampleLoop : (Graph.ofFlow sampleFlow).LeadsTo sampleSubflow sampleLoop := by
  rw [Graph.LeadsTo]
  decide +kernel

def endlessFlow : Flow :=
  { sampleFlow with edges := sampleFlow.edges.dropLast }

theorem compile_endlessFlow :
    compile .standard sampleLookup endlessFlow = .error (.walk (.unterminatedLoop "each")) := by
  have evaluated : (match compile .standard sampleLookup endlessFlow with
      | .ok _ => none
      | .error error => some error) = some (.walk (.unterminatedLoop "each")) := by
    decide +kernel
  split at evaluated
  · cases evaluated
  · next _ error raised => exact raised.trans (congrArg Except.error (Option.some.inj evaluated))

end Compile

/-- The compilation of the sample flow comes to the loop and unfolds its body. Without an end
marker, the search through the body is what fails. -/
theorem collected_bodies_unfold_sample :
    (∃ trigger first stage start chain entry walk,
      Compile.sampleFlow.trigger? = some trigger ∧
      (Graph.ofFlow Compile.sampleFlow).next? trigger.id .nextStep = some first ∧
      (Graph.ofFlow Compile.sampleFlow).ComesTo first stage ∧
      stage.node = ⟨"each", "Each", .loopStart start⟩ ∧ stage.bounds = none ∧
      (Graph.ofFlow Compile.sampleFlow).loopChain stage.node = .ok chain ∧
      chain.body.head? = some entry ∧
      Graph.Stage.unfold (Graph.ofFlow Compile.sampleFlow)
        ⟨some ⟨stage.node.id, chain.finish.id⟩, stage.unused.erase stage.node.id, entry⟩ =
          .ok walk) ∧
    ∃ trigger first stage,
      Compile.endlessFlow.trigger? = some trigger ∧
      (Graph.ofFlow Compile.endlessFlow).next? trigger.id .nextStep = some first ∧
      compile .standard Compile.sampleLookup Compile.endlessFlow =
        .error (.walk (.unterminatedLoop "each")) ∧
      (Graph.ofFlow Compile.endlessFlow).ComesTo first stage ∧ stage.bounds = none ∧
      (Graph.ofFlow Compile.endlessFlow).loopChain stage.node =
        .error (.unterminatedLoop "each") := by
  let trigger : Node := ⟨"start", "Start", .trigger ⟨none⟩⟩
  constructor
  · let graph := Graph.ofFlow Compile.sampleFlow
    have isTrigger : Compile.sampleFlow.trigger? = some trigger := rfl
    have connected : graph.next? trigger.id .nextStep = some Compile.samplePrompt := by
      decide +kernel
    have comes : graph.ComesTo Compile.samplePrompt
        ⟨none, (graph.ids.erase "ask").erase "bill", Compile.sampleLoop⟩ := by
      refine .tail (.single (.follow ⟨nofun, ?_⟩ nofun Compile.leadsTo_sampleSubflow))
        (.follow ⟨nofun, ?_⟩ nofun Compile.leadsTo_sampleLoop) <;>
      decide +kernel
    have isOk : (graph.loopChain Compile.sampleLoop).isOk := by decide +kernel
    have begins : (graph.loopChain Compile.sampleLoop).toOption.bind (·.body.head?) =
        some ⟨"note", "Note", .sendText ⟨"Hello", false, none, none⟩⟩ := by
      decide +kernel
    rcases Compile.exists_ok_of_isOk isOk with ⟨chain, collected⟩
    rw [collected] at begins
    have lowered := (collected_bodies_unfold isTrigger connected .standard
      Compile.sampleLookup).1 _ _ comes rfl
    rcases (lowered.2 chain _ collected begins _ .refl).2.2 with ⟨walk, unfolded⟩
    exact ⟨trigger, _, _, _, chain, _, walk, isTrigger, connected, comes, rfl, lowered.1,
      collected, begins, unfolded⟩
  · have isTrigger : Compile.endlessFlow.trigger? = some trigger := rfl
    have connected : (Graph.ofFlow Compile.endlessFlow).next? trigger.id .nextStep =
        some Compile.samplePrompt := by
      decide +kernel
    rcases (collected_bodies_unfold isTrigger connected .standard Compile.sampleLookup).2 _
      Compile.compile_endlessFlow with ⟨stage, comes, outside, ⟨⟨⟩, _⟩ | ⟨_, _, unclosed⟩⟩
    exact ⟨trigger, _, stage, isTrigger, connected, Compile.compile_endlessFlow, comes, outside,
      unclosed⟩

end FlowCompiler
