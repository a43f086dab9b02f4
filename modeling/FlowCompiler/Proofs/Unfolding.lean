import FlowCompiler.Lowering.Unfold

namespace FlowCompiler

/-! What a successful unfolding has done, as a relation between a graph and its walks. The
relation has one rule for each role of a node, so that facts about walks follow by induction on
their derivations. -/

theorem bind_eq_ok {ε α β : Type} {first : Except ε α} {next : α → Except ε β} {value : β}
    (equal : first >>= next = .ok value) :
    ∃ middle, first = .ok middle ∧ next middle = .ok value := by
  cases first with
  | error error => cases equal
  | ok middle => exact ⟨middle, rfl, equal⟩

theorem map_eq_ok {ε α β : Type} {change : α → β} {result : Except ε α} {value : β}
    (ok : change <$> result = .ok value) : ∃ inner, result = .ok inner ∧ change inner = value := by
  cases result with
  | error error => cases ok
  | ok inner => exact ⟨inner, rfl, Except.ok.inj ok⟩

theorem bind_eq_error {ε α β : Type} {first : Except ε α} {next : α → Except ε β} {error : ε}
    (equal : first >>= next = .error error) :
    first = .error error ∨ ∃ middle, first = .ok middle ∧ next middle = .error error := by
  cases first with
  | error earlier => exact .inl (congrArg Except.error (Except.error.inj equal))
  | ok middle => exact .inr ⟨middle, rfl, equal⟩

theorem foldlM_preserves {ε σ α : Type} {step : σ → α → Except ε σ} (Holds : σ → Prop)
    (values : List α) (preserved : ∀ state result, ∀ value ∈ values, Holds state →
      step state value = .ok result → Holds result) :
    ∀ {initial result : σ}, Holds initial → values.foldlM step initial = .ok result →
      Holds result := by
  induction values with
  | nil =>
      intro initial result holds folded
      cases folded
      exact holds
  | cons first rest induction =>
      intro initial result holds folded
      rw [List.foldlM_cons] at folded
      rcases bind_eq_ok folded with ⟨middle, stepped, folded⟩
      exact induction (fun state result value member =>
        preserved state result value (List.mem_cons_of_mem _ member))
        (preserved initial middle first List.mem_cons_self holds stepped) folded

namespace Graph

/-! ## Searches of loop bodies -/

inductive SearchStep (graph : Graph) (loopId : String) (unused : List String)
    (found : BodySearch) (node : Node) : BodySearch → Prop
  | seen (fresh : node.id ∈ unused) (seen : node.id ∈ found.visited) :
      SearchStep graph loopId unused found node found
  | close (fresh : node.id ∈ unused) (unseen : node.id ∉ found.visited)
      (ends : node.kind = .loopEnd) :
      SearchStep graph loopId unused found node
        ⟨node.id :: found.visited, found.body, found.finish.or (some node)⟩
  | pass {result : BodySearch} (fresh : node.id ∈ unused) (unseen : node.id ∉ found.visited)
      (continues : node.kind ≠ .loopEnd) (flat : ∀ settings, node.kind ≠ .loopStart settings)
      (behind : (graph.followed node).foldlM (graph.searchBody loopId (unused.erase node.id))
        ⟨node.id :: found.visited, found.body ++ [node], found.finish⟩ = .ok result) :
      SearchStep graph loopId unused found node result

theorem searchStep_of_searchBody {graph : Graph} {loopId : String} {unused : List String}
    {found result : BodySearch} {node : Node}
    (searched : graph.searchBody loopId unused found node = .ok result) :
    SearchStep graph loopId unused found node result := by
  rw [searchBody] at searched
  by_cases fresh : node.id ∈ unused
  · rw [dif_pos fresh] at searched
    by_cases seen : node.id ∈ found.visited
    · rw [if_pos seen] at searched
      cases searched
      exact .seen fresh seen
    · rw [if_neg seen] at searched
      cases kind : node.kind with
      | loopEnd =>
          simp only [kind] at searched
          cases searched
          exact .close fresh seen kind
      | loopStart settings =>
          simp only [kind] at searched
          cases searched
      | _ =>
          simp only [kind] at searched
          exact .pass fresh seen (by simp [kind]) (by simp [kind]) searched
  · rw [dif_neg fresh] at searched
    cases searched

/-! ## The entry of a loop -/

/-- A search through a loop body only adds nodes behind those it has found. -/
theorem prefix_of_searchBody (graph : Graph) (loopId : String) (unused : List String)
    {found result : BodySearch} {node : Node}
    (searched : graph.searchBody loopId unused found node = .ok result) :
    found.body <+: result.body := by
  cases searchStep_of_searchBody searched with
  | seen | close => exact List.prefix_rfl
  | pass fresh _ _ _ behind =>
      refine foldlM_preserves (fun state => found.body <+: state.body) (graph.followed node) ?_
        (List.prefix_append _ _) behind
      intro state result next _ holds stepped
      exact holds.trans (prefix_of_searchBody graph loopId (unused.erase node.id) stepped)
termination_by unused.length
decreasing_by exact length_erase_lt fresh

theorem exists_search_of_loopChain {graph : Graph} {start : Node} {chain : LoopChain}
    (collected : graph.loopChain start = .ok chain) :
    ∃ first found, graph.next? start.id .nextStep = some first ∧
      graph.searchBody start.id (graph.ids.erase start.id) ⟨[], [], none⟩ first = .ok found ∧
      found.body = chain.body ∧ found.finish = some chain.finish := by
  rw [loopChain] at collected
  cases connected : graph.next? start.id .nextStep with
  | none =>
      rw [connected] at collected
      cases collected
  | some first =>
      rw [connected] at collected
      rcases bind_eq_ok collected with ⟨found, searched, finished⟩
      refine ⟨first, found, rfl, searched, ?_⟩
      cases ended : found.finish with
      | none =>
          simp only [ended] at finished
          cases finished
      | some finish =>
          simp only [ended] at finished
          cases finished
          exact ⟨rfl, rfl⟩

/-- A loop whose chain can be collected has an entry: the first node of its body, or, in a loop
without nodes, the end marker itself. -/
theorem exists_entry_of_loopChain {graph : Graph} {start : Node} {chain : LoopChain}
    (collected : graph.loopChain start = .ok chain) :
    ∃ first, graph.next? start.id .nextStep = some first ∧
      (chain.body.head? = some first ∨ chain.body.head? = none ∧ chain.finish = first) := by
  rcases exists_search_of_loopChain collected with
    ⟨first, found, connected, searched, body, ended⟩
  refine ⟨first, connected, ?_⟩
  rw [← body]
  -- Nothing has been visited in front of the first node, so the search either stops there at
  -- an end marker or begins the body with it.
  cases searchStep_of_searchBody searched with
  | seen _ seen => cases seen
  | close =>
      right
      cases ended
      exact ⟨rfl, rfl⟩
  | pass _ _ _ _ behind =>
      left
      have grown := foldlM_preserves (fun state => [first] <+: state.body)
        (graph.followed first)
        (fun state result next _ holds stepped =>
          holds.trans (prefix_of_searchBody graph start.id _ stepped))
        List.prefix_rfl behind
      rcases grown with ⟨rest, begins⟩
      rw [← begins]
      rfl

/-! ## The rules -/

mutual
/-- `walk` begins at `node`, inside a loop with the given bounds if there is one, and no path
of it holds an id twice or one that is not among `unused`. -/
inductive Unfolds (graph : Graph) :
    Option LoopBounds → List String → Node → Walk Node → Prop
  /-- The end marker of the loop ends the walk. -/
  | ended {loop : LoopBounds} {unused : List String} {node : Node}
      (finish : loop.finish = node.id) : Unfolds graph (some loop) unused node .done
  | terminal {bounds : Option LoopBounds} {unused : List String} {node : Node}
      (inside : ∀ loop ∈ bounds, loop.finish ≠ node.id) (fresh : node.id ∈ unused)
      (role : node.kind.role = .terminal) :
      Unfolds graph bounds unused node (.terminal node)
  /-- A delay inside a loop is passed over. -/
  | passed {loop : LoopBounds} {unused : List String} {node : Node} {action : Action}
      {next : Walk Node} (inside : loop.finish ≠ node.id) (fresh : node.id ∈ unused)
      (role : node.kind.role = .action action) (delay : action.isDelay)
      (rest : Behind graph (some loop) (unused.erase node.id) node.id .nextStep next) :
      Unfolds graph (some loop) unused node next
  | action {bounds : Option LoopBounds} {unused : List String} {node : Node} {action : Action}
      {next : Walk Node} (inside : ∀ loop ∈ bounds, loop.finish ≠ node.id)
      (fresh : node.id ∈ unused) (role : node.kind.role = .action action)
      (stays : action.isDelay → bounds = none)
      (rest : Behind graph bounds (unused.erase node.id) node.id .nextStep next) :
      Unfolds graph bounds unused node (.action node action next)
  | fork {bounds : Option LoopBounds} {unused : List String} {node : Node} {fork : Fork}
      {exits : List (Exit × Option (Walk Node))}
      (inside : ∀ loop ∈ bounds, loop.finish ≠ node.id) (fresh : node.id ∈ unused)
      (role : node.kind.role = .fork fork)
      (behind : BehindExits graph bounds (unused.erase node.id) node.id fork.exits exits) :
      Unfolds graph bounds unused node (.fork node fork exits)
  | subflow {bounds : Option LoopBounds} {unused : List String} {node : Node}
      {subflow : Subflow} {exits : List (Exit × Option (Walk Node))} {next : Walk Node}
      (inside : ∀ loop ∈ bounds, loop.finish ≠ node.id) (fresh : node.id ∈ unused)
      (role : node.kind.role = .subflow subflow)
      (behind : BehindExits graph bounds (unused.erase node.id) node.id
        (graph.subflowExits node.id) exits)
      (rest : Behind graph bounds (unused.erase node.id) node.id .nextStep next) :
      Unfolds graph bounds unused node (.subflow node subflow exits next)
  /-- A loop is entered behind its start, and left behind its end marker. -/
  | loop {unused : List String} {node : Node} {loop : LoopStart} {chain : LoopChain}
      {body next : Walk Node} (fresh : node.id ∈ unused) (role : node.kind.role = .loop loop)
      (collected : graph.loopChain node = .ok chain)
      (entered : Behind graph (some ⟨node.id, chain.finish.id⟩) (unused.erase node.id) node.id
        .nextStep body)
      (rest : Behind graph none (unused.erase node.id) chain.finish.id .nextStep next) :
      Unfolds graph none unused node (.loop node loop body next)

inductive Behind (graph : Graph) :
    Option LoopBounds → List String → String → Outlet → Walk Node → Prop
  | connected {bounds : Option LoopBounds} {unused : List String} {id : String}
      {outlet : Outlet} {next : Node} {walk : Walk Node}
      (found : graph.next? id outlet = some next)
      (unfolds : Unfolds graph bounds unused next walk) :
      Behind graph bounds unused id outlet walk
  | unconnected {bounds : Option LoopBounds} {unused : List String} {id : String}
      {outlet : Outlet} (missing : graph.next? id outlet = none) :
      Behind graph bounds unused id outlet .done

inductive BehindExits (graph : Graph) :
    Option LoopBounds → List String → String → List Exit →
      List (Exit × Option (Walk Node)) → Prop
  | nil {bounds : Option LoopBounds} {unused : List String} {id : String} :
      BehindExits graph bounds unused id [] []
  | connected {bounds : Option LoopBounds} {unused : List String} {id : String} {exit : Exit}
      {rest : List Exit} {next : Node} {walk : Walk Node}
      {others : List (Exit × Option (Walk Node))}
      (found : graph.next? id exit.outlet = some next)
      (unfolds : Unfolds graph bounds unused next walk)
      (behind : BehindExits graph bounds unused id rest others) :
      BehindExits graph bounds unused id (exit :: rest) ((exit, some walk) :: others)
  | unconnected {bounds : Option LoopBounds} {unused : List String} {id : String} {exit : Exit}
      {rest : List Exit} {others : List (Exit × Option (Walk Node))}
      (missing : graph.next? id exit.outlet = none)
      (behind : BehindExits graph bounds unused id rest others) :
      BehindExits graph bounds unused id (exit :: rest) ((exit, none) :: others)
end

/-! ## Unfolding follows the rules -/

section

variable {graph : Graph} {bounds : Option LoopBounds} {unused : List String}
  {unfold : Node → Except WalkError (Walk Node)}
  (sound : ∀ next walk, unfold next = .ok walk → Unfolds graph bounds unused next walk)

include sound

theorem behind_of_behind {id : String} {outlet : Outlet} {walk : Walk Node}
    (unfolded : graph.behind id outlet unfold = .ok walk) :
    Behind graph bounds unused id outlet walk := by
  rw [behind] at unfolded
  cases connected : graph.next? id outlet with
  | none =>
      rw [connected] at unfolded
      cases unfolded
      exact .unconnected connected
  | some next =>
      rw [connected] at unfolded
      exact .connected connected (sound next walk unfolded)

theorem behindExits_of_behindExits {id : String} {exits : List Exit} :
    ∀ {walks : List (Exit × Option (Walk Node))},
      graph.behindExits id exits unfold = .ok walks →
        BehindExits graph bounds unused id exits walks := by
  induction exits with
  | nil =>
      intro walks unfolded
      cases unfolded
      exact .nil
  | cons exit rest induction =>
      intro walks unfolded
      rw [behindExits, List.mapM_cons] at unfolded
      rcases bind_eq_ok unfolded with ⟨first, firstUnfolded, unfolded⟩
      rcases bind_eq_ok unfolded with ⟨others, othersUnfolded, equal⟩
      cases equal
      have behind := induction othersUnfolded
      cases connected : graph.next? id exit.outlet with
      | none =>
          rw [connected] at firstUnfolded
          cases firstUnfolded
          exact .unconnected connected behind
      | some next =>
          rw [connected] at firstUnfolded
          rcases bind_eq_ok firstUnfolded with ⟨walk, unfoldedNext, equal⟩
          cases equal
          exact .connected connected (sound next walk unfoldedNext) behind

end

theorem unfolds_of_unfold (graph : Graph) (bounds : Option LoopBounds) (unused : List String)
    (node : Node) (walk : Walk Node) (unfolded : graph.unfold bounds unused node = .ok walk) :
    Unfolds graph bounds unused node walk := by
  rw [unfold] at unfolded
  by_cases ended : bounds.any fun loop => loop.finish = node.id
  · rw [if_pos ended] at unfolded
    cases unfolded
    cases bounds with
    | none => cases ended
    | some loop => exact .ended (by simpa using ended)
  · rw [if_neg ended] at unfolded
    have inside : ∀ loop ∈ bounds, loop.finish ≠ node.id := by
      intro loop member equal
      apply ended
      rw [Option.mem_def.mp member]
      simpa using equal
    by_cases fresh : node.id ∈ unused
    · rw [dif_pos fresh] at unfolded
      have sound : ∀ bounds next walk,
          graph.unfold bounds (unused.erase node.id) next = .ok walk →
            Unfolds graph bounds (unused.erase node.id) next walk :=
        fun bounds next walk =>
          unfolds_of_unfold graph bounds (unused.erase node.id) next walk
      cases role : node.kind.role with
      | terminal =>
          simp only [role] at unfolded
          cases unfolded
          exact .terminal inside fresh role
      | action action =>
          simp only [role] at unfolded
          rcases bind_eq_ok unfolded with ⟨next, behind, unfolded⟩
          have rest := behind_of_behind (sound bounds) behind
          by_cases passed : action.isDelay && bounds.isSome
          · rw [if_pos passed] at unfolded
            cases unfolded
            cases bounds with
            | none => simp at passed
            | some loop => exact .passed (inside loop rfl) fresh role (by simpa using passed) rest
          · rw [if_neg passed] at unfolded
            cases unfolded
            refine .action inside fresh role ?_ rest
            intro delay
            simpa [delay] using passed
      | fork fork =>
          simp only [role] at unfolded
          rcases bind_eq_ok unfolded with ⟨exits, behind, equal⟩
          cases equal
          exact .fork inside fresh role (behindExits_of_behindExits (sound bounds) behind)
      | subflow subflow =>
          simp only [role] at unfolded
          rcases bind_eq_ok unfolded with ⟨exits, behind, unfolded⟩
          rcases bind_eq_ok unfolded with ⟨next, rest, equal⟩
          cases equal
          exact .subflow inside fresh role (behindExits_of_behindExits (sound bounds) behind)
            (behind_of_behind (sound bounds) rest)
      | loop loop =>
          simp only [role] at unfolded
          cases bounds with
          | some outer => cases unfolded
          | none =>
              rcases bind_eq_ok unfolded with ⟨chain, collected, unfolded⟩
              rcases exists_entry_of_loopChain collected with ⟨first, connected, entry | entry⟩
              · rw [entry] at unfolded
                rcases bind_eq_ok unfolded with ⟨body, entered, unfolded⟩
                rcases bind_eq_ok unfolded with ⟨next, rest, equal⟩
                cases equal
                exact .loop fresh role collected
                  (.connected connected (sound _ first body entered))
                  (behind_of_behind (sound none) rest)
              · rw [entry.1] at unfolded
                rcases bind_eq_ok unfolded with ⟨body, entered, unfolded⟩
                rcases bind_eq_ok unfolded with ⟨next, rest, equal⟩
                cases entered
                cases equal
                exact .loop fresh role collected
                  (.connected connected (.ended (congrArg Node.id entry.2)))
                  (behind_of_behind (sound none) rest)
    · rw [dif_neg fresh] at unfolded
      cases unfolded
termination_by unused.length
decreasing_by exact length_erase_lt fresh

end Graph

end FlowCompiler
