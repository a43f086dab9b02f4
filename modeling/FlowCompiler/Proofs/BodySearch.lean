import FlowCompiler.Proofs.Tours

namespace FlowCompiler.Graph

/-! What the search through the body of a loop finds. A search that succeeds adds the first visits
of the tour of its node, and one that fails names a defect of the loop. -/

variable {graph : Graph} {start node : Node}

theorem eq_of_id_eq {other : Node} (known : graph.Knows node) (otherKnown : graph.Knows other)
    (same : node.id = other.id) : node = other := by
  rw [Knows] at known otherKnown
  rw [same, otherKnown] at known
  exact (Option.some.inj known).symm

theorem mem_ids (known : graph.Knows node) : node.id ∈ graph.ids := by
  have entry := Table.get?_eq_some_iff.mp known
  exact List.mem_map_of_mem entry

theorem Keyed.knows_of_follows (keyed : graph.Keyed) {next : Node}
    (follows : graph.Follows node next) : graph.Knows next := by
  rcases follows_iff.mp follows with ⟨outlet, _, found⟩
  exact keyed.node?_of_next? found

theorem InBody.knows (keyed : graph.Keyed) (inside : graph.InBody start node) :
    graph.Knows node := by
  cases inside with
  | entry entered => exact keyed.node?_of_next? entered
  | step _ _ follows => exact keyed.knows_of_follows follows

/-- The first visits of the tour of its entry are the nodes of the body of a loop. -/
theorem mem_firstVisits_iff (keyed : graph.Keyed) {entry : Node} {tour : List Node}
    (entered : graph.next? start.id .nextStep = some entry) (own : graph.Tour entry tour) :
    node ∈ firstVisits [] tour ↔ graph.InBody start node := by
  have inside : ∀ other ∈ firstVisits [] tour, graph.InBody start other := fun other visited =>
    own.inside (.entry entered) other (firstVisits_subset tour [] visited)
  refine ⟨inside node, fun within => ?_⟩
  rcases exists_firstVisit (within.mem_tour entered own) [] List.not_mem_nil with
    ⟨first, visited, same⟩
  exact eq_of_id_eq ((inside first visited).knows keyed) (within.knows keyed) same ▸ visited

/-! ## Searches that succeed -/

namespace BodySearch

/-! A search adds what a tour meets to what was found before it. -/

structure Adds (found : BodySearch) (tour : List Node) (result : BodySearch) : Prop where
  visited : ∀ id, id ∈ result.visited ↔ id ∈ tour.map Node.id ∨ id ∈ found.visited
  body : result.body = found.body ++
    (firstVisits found.visited tour).filter fun node => node.kind ≠ .loopEnd
  finish : result.finish = found.finish.or
    ((firstVisits found.visited tour).find? fun node => node.kind = .loopEnd)

/-- All nodes that were visited have tours through visited nodes, apart from those that are still
being searched: their ids are used up. -/
def Toured (graph : Graph) (unused : List String) (search : BodySearch) : Prop :=
  ∀ node, graph.Knows node → node.id ∈ search.visited → node.id ∈ unused →
    ∃ tour, graph.Tour node tour ∧ ∀ other ∈ tour, other.id ∈ search.visited

variable {found middle result : BodySearch} {tour : List Node} {unused : List String}

/-- A tour through visited nodes adds nothing. -/
theorem Adds.of_visited (visited : ∀ node ∈ tour, node.id ∈ found.visited) :
    found.Adds tour found where
  visited id := by
    refine ⟨.inr, fun member => ?_⟩
    rcases member with met | before
    · rcases List.mem_map.mp met with ⟨node, member, own⟩
      exact own ▸ visited node member
    · exact before
  body := by rw [firstVisits_eq_nil visited, List.filter_nil, List.append_nil]
  finish := by rw [firstVisits_eq_nil visited, List.find?_nil, Option.or_none]

theorem Adds.append {later : List Node} (first : found.Adds tour middle)
    (second : middle.Adds later result) : found.Adds (tour ++ later) result := by
  -- The later tour skips what the first one has met.
  have visits : firstVisits found.visited (tour ++ later) =
      firstVisits found.visited tour ++ firstVisits middle.visited later := by
    rw [firstVisits_append]
    exact congrArg _ (firstVisits_congr (fun id => by rw [first.visited id, List.mem_append]) later)
  constructor
  · intro id
    rw [second.visited, first.visited, List.map_append, List.mem_append]
    exact or_left_comm.trans or_assoc.symm
  · rw [second.body, first.body, visits, List.filter_append, List.append_assoc]
  · rw [second.finish, first.finish, visits, List.find?_append, Option.or_assoc]

theorem Adds.mem_visited (adds : found.Adds tour result) : ∀ node ∈ tour,
    node.id ∈ result.visited :=
  fun _ member => (adds.visited _).mpr (.inl (List.mem_map_of_mem member))

/-- An end marker that was not met before is noted. -/
theorem Adds.close (unseen : node.id ∉ found.visited) (ends : node.kind = .loopEnd) :
    found.Adds [node]
      ⟨node.id :: found.visited, found.body, found.finish.or (some node)⟩ where
  visited id := by simp
  body := by simp [firstVisits, unseen, ends]
  finish := by simp [firstVisits, unseen, ends]

/-- A node that was not met before is added to the body, in front of what is behind it. -/
theorem Adds.pass (unseen : node.id ∉ found.visited) (continues : node.kind ≠ .loopEnd) :
    found.Adds [node] ⟨node.id :: found.visited, found.body ++ [node], found.finish⟩ where
  visited id := by simp
  body := by simp [firstVisits, unseen, continues]
  finish := by simp [firstVisits, unseen, continues]

/-- A node whose own id is used up may be visited before its tour is known. -/
theorem Toured.visit (toured : found.Toured graph unused) (distinct : unused.Nodup)
    (visited : result.visited = node.id :: found.visited) :
    result.Toured graph (unused.erase node.id) := by
  intro other known member remaining
  have different : other.id ≠ node.id := (distinct.mem_erase_iff.mp remaining).1
  rw [visited] at member ⊢
  rcases toured other known ((List.mem_cons.mp member).resolve_left different)
    (List.mem_of_mem_erase remaining) with ⟨tour, own, through⟩
  exact ⟨tour, own, fun met among => List.mem_cons_of_mem _ (through met among)⟩

/-- Once the tour of the node is known as well, its id may be unused again. -/
theorem Toured.close (toured : result.Toured graph (unused.erase node.id))
    (known : graph.Knows node) (own : graph.Tour node tour)
    (through : ∀ other ∈ tour, other.id ∈ result.visited) : result.Toured graph unused := by
  intro other otherKnown member remaining
  by_cases same : other.id = node.id
  · exact eq_of_id_eq otherKnown known same ▸ ⟨tour, own, through⟩
  · exact toured other otherKnown member ((List.mem_erase_of_ne same).mpr remaining)

end BodySearch

/-- Searching behind the outlets of a node one after the other adds one tour behind the other. -/
theorem exists_tours_of_foldlM {search : BodySearch → Node → Except WalkError BodySearch}
    (Holds : BodySearch → Prop) (nodes : List Node)
    (searched : ∀ found result, ∀ node ∈ nodes, Holds found → search found node = .ok result →
      ∃ tour, graph.Tour node tour ∧ found.Adds tour result ∧ Holds result) :
    ∀ {found result : BodySearch}, Holds found → nodes.foldlM search found = .ok result →
      ∃ tour, graph.Tours nodes tour ∧ found.Adds tour result ∧ Holds result := by
  induction nodes with
  | nil =>
      intro found result holds folded
      cases folded
      exact ⟨[], .nil, .of_visited (by simp), holds⟩
  | cons node rest induction =>
      intro found result holds folded
      rw [List.foldlM_cons] at folded
      rcases bind_eq_ok folded with ⟨middle, first, folded⟩
      rcases searched found middle node List.mem_cons_self holds first with
        ⟨tour, own, adds, holds⟩
      rcases induction (fun found result other member =>
        searched found result other (List.mem_cons_of_mem _ member)) holds folded with
        ⟨later, others, addsLater, holds⟩
      exact ⟨tour ++ later, .cons own others, adds.append addsLater, holds⟩

/-- A search that succeeds adds the tour of its node, also where it stops at nodes that were visited
before: these have been gone through, or the search would have met its own path. -/
theorem exists_tour_of_searchBody (keyed : graph.Keyed) (loopId : String) (unused : List String)
    {found result : BodySearch} {node : Node} (distinct : unused.Nodup) (known : graph.Knows node)
    (toured : found.Toured graph unused)
    (searched : graph.searchBody loopId unused found node = .ok result) :
    ∃ tour, graph.Tour node tour ∧ found.Adds tour result ∧ result.Toured graph unused := by
  cases searchStep_of_searchBody searched with
  | seen fresh seen =>
      rcases toured node known seen fresh with ⟨tour, own, through⟩
      exact ⟨tour, own, .of_visited through, toured⟩
  | close _ unseen ends =>
      have adds := BodySearch.Adds.close unseen ends
      exact ⟨[node], .ends ends, adds,
        (toured.visit distinct rfl).close known (.ends ends) adds.mem_visited⟩
  | pass fresh unseen continues flat behind =>
      rcases exists_tours_of_foldlM (BodySearch.Toured graph (unused.erase node.id))
        (graph.followed node)
        (fun found result next follows toured stepped =>
          exists_tour_of_searchBody keyed loopId (unused.erase node.id) (distinct.erase _)
            (keyed.knows_of_follows follows) toured stepped)
        (toured.visit distinct rfl) behind with ⟨rest, tours, adds, toured⟩
      have own : graph.Tour node (node :: rest) := .goesOn continues flat tours
      have adds := (BodySearch.Adds.pass unseen continues).append adds
      exact ⟨node :: rest, own, adds, toured.close known own adds.mem_visited⟩
termination_by unused.length
decreasing_by exact length_erase_lt fresh

theorem exists_tour_of_entry (keyed : graph.Keyed) {entry : Node} {found : BodySearch}
    (entered : graph.next? start.id .nextStep = some entry)
    (searched : graph.searchBody start.id (graph.ids.erase start.id) ⟨[], [], none⟩ entry =
      .ok found) :
    ∃ tour, graph.Tour entry tour ∧ BodySearch.Adds ⟨[], [], none⟩ tour found := by
  have distinct : (graph.ids.erase start.id).Nodup := graph.nodes.nodup_keys.erase _
  rcases exists_tour_of_searchBody keyed start.id _ distinct (keyed.node?_of_next? entered)
    (fun _ _ member => absurd member List.not_mem_nil) searched with ⟨tour, own, adds, _⟩
  exact ⟨tour, own, adds⟩

theorem finish_of_searchBody (loopId : String) (unused : List String) {found result : BodySearch}
    {node : Node} (inside : graph.InBody start node)
    (noted : ∀ finish ∈ found.finish, graph.InBody start finish ∧ finish.kind = .loopEnd)
    (searched : graph.searchBody loopId unused found node = .ok result) :
    ∀ finish ∈ result.finish, graph.InBody start finish ∧ finish.kind = .loopEnd := by
  cases searchStep_of_searchBody searched with
  | seen => exact noted
  | close _ _ ends =>
      intro finish isFinish
      cases earlier : found.finish with
      | some marker => exact noted finish (by simpa [earlier] using isFinish)
      | none =>
          have own : node = finish := by simpa [earlier] using isFinish
          exact own ▸ ⟨inside, ends⟩
  | pass fresh _ continues _ behind =>
      refine foldlM_preserves (fun search : BodySearch =>
        ∀ finish ∈ search.finish, graph.InBody start finish ∧ finish.kind = .loopEnd)
        (graph.followed node) ?_ ?_ behind
      · intro search result next member holds stepped
        exact finish_of_searchBody loopId (unused.erase node.id) (inside.step continues member)
          holds stepped
      · exact noted
termination_by unused.length
decreasing_by exact length_erase_lt fresh

theorem inBody_of_loopChain {chain : LoopChain} (collected : graph.loopChain start = .ok chain) :
    graph.InBody start chain.finish ∧ chain.finish.kind = .loopEnd := by
  rcases exists_search_of_loopChain collected with ⟨first, found, entered, searched, _, finish⟩
  exact finish_of_searchBody start.id _ (.entry entered) (by simp) searched _ finish

/-- The chain of a loop holds the first visits of the tour of its entry. -/
theorem exists_tour_of_loopChain (keyed : graph.Keyed) {chain : LoopChain}
    (collected : graph.loopChain start = .ok chain) :
    ∃ entry tour, graph.next? start.id .nextStep = some entry ∧ graph.Tour entry tour ∧
      chain.body = (firstVisits [] tour).filter (fun node => node.kind ≠ .loopEnd) ∧
      (firstVisits [] tour).find? (fun node => node.kind = .loopEnd) = some chain.finish := by
  rcases exists_search_of_loopChain collected with
    ⟨entry, found, entered, searched, body, finish⟩
  rcases exists_tour_of_entry keyed entered searched with ⟨tour, own, adds⟩
  refine ⟨entry, tour, entered, own, ?_, ?_⟩
  · rw [← body, adds.body, List.nil_append]
  · rw [← finish, adds.finish, Option.none_or]

/-- No loop starts in the body of a loop whose chain can be collected. -/
theorem InBody.flat (keyed : graph.Keyed) {chain : LoopChain}
    (collected : graph.loopChain start = .ok chain) (inside : graph.InBody start node) :
    ∀ settings, node.kind ≠ .loopStart settings := by
  rcases exists_tour_of_loopChain keyed collected with ⟨entry, tour, entered, own, _⟩
  exact own.flat node (inside.mem_tour entered own)

/-! ## Searches that fail -/

theorem exists_step_of_foldlM_error {ε σ α : Type} {step : σ → α → Except ε σ} {error : ε}
    (values : List α) : ∀ {initial : σ}, values.foldlM step initial = .error error →
      ∃ value ∈ values, ∃ state, step state value = .error error := by
  induction values with
  | nil =>
      intro initial failed
      cases failed
  | cons first rest induction =>
      intro initial failed
      rw [List.foldlM_cons] at failed
      rcases bind_eq_error failed with own | ⟨middle, _, later⟩
      · exact ⟨first, List.mem_cons_self, initial, own⟩
      · rcases induction later with ⟨value, member, state, stepped⟩
        exact ⟨value, List.mem_cons_of_mem _ member, state, stepped⟩

/-- From a node in the body of a loop, except from an end marker, a search goes on to what is behind
the outlets of the node. -/
structure StepsInside (graph : Graph) (start node next : Node) : Prop where
  inside : graph.InBody start node
  continues : node.kind ≠ .loopEnd
  follows : graph.Follows node next

inductive Obstacle (graph : Graph) (start : Node) : WalkError → Prop
  /-- The body leads back to the start of the loop. -/
  | again (inside : graph.InBody start start) : Obstacle graph start (.cycleDetected start.id)
  | cycle {node : Node} (cycle : Relation.TransGen (graph.StepsInside start) node node) :
      Obstacle graph start (.cycleDetected node.id)
  | nested {nested : Node} (inside : graph.InBody start nested)
      (inner : ∃ settings, nested.kind = .loopStart settings) :
      Obstacle graph start (.nestedLoop start.id nested.id)
  | unterminated (endless : ∀ node, graph.InBody start node → node.kind ≠ .loopEnd) :
      Obstacle graph start (.unterminatedLoop start.id)

/-- A search that fails has met the start of a loop, or a node again from which it came. `unused`
holds all ids but those of the start and of nodes that lead to the node. -/
theorem obstacle_of_searchBody (keyed : graph.Keyed) (unused : List String) {found : BodySearch}
    {node : Node} {error : WalkError} (inside : graph.InBody start node)
    (path : ∀ other, graph.Knows other → other.id ∉ unused →
      other = start ∨ Relation.TransGen (graph.StepsInside start) other node)
    (failed : graph.searchBody start.id unused found node = .error error) :
    Obstacle graph start error := by
  have known := inside.knows keyed
  rw [searchBody] at failed
  by_cases fresh : node.id ∈ unused
  · rw [dif_pos fresh] at failed
    by_cases seen : node.id ∈ found.visited
    · rw [if_pos seen] at failed
      cases failed
    · rw [if_neg seen] at failed
      cases kind : node.kind with
      | loopEnd =>
          simp only [kind] at failed
          cases failed
      | loopStart settings =>
          simp only [kind] at failed
          cases failed
          exact .nested inside ⟨settings, kind⟩
      | _ =>
          simp only [kind] at failed
          rcases exists_step_of_foldlM_error (graph.followed node) failed with
            ⟨next, follows, state, stepped⟩
          have step : graph.StepsInside start node next := ⟨inside, by simp [kind], follows⟩
          refine obstacle_of_searchBody keyed (unused.erase node.id)
            (inside.step step.continues follows) ?_ stepped
          intro other otherKnown used
          by_cases same : other.id = node.id
          · exact .inr (.single (eq_of_id_eq otherKnown known same ▸ step))
          · refine (path other otherKnown fun member => used ?_).imp_right fun leads =>
              leads.tail step
            exact (List.mem_erase_of_ne same).mpr member
  · rw [dif_neg fresh] at failed
    cases failed
    rcases path node known fresh with equal | cycle
    · exact equal ▸ .again (equal ▸ inside)
    · exact .cycle cycle
termination_by unused.length
decreasing_by all_goals exact length_erase_lt fresh

/-- A loop whose chain cannot be collected has an obstacle, which the error names. -/
theorem obstacle_of_loopChain (keyed : graph.Keyed) (known : graph.Knows start)
    {error : WalkError} (failed : graph.loopChain start = .error error) :
    Obstacle graph start error := by
  rw [loopChain] at failed
  cases entered : graph.next? start.id .nextStep with
  | none =>
      rw [entered] at failed
      cases failed
      refine .unterminated fun node inside => ?_
      rcases inside.exists_entry with ⟨entry, reached⟩
      rw [entered] at reached
      cases reached
  | some entry =>
      rw [entered] at failed
      rcases bind_eq_error failed with broken | ⟨found, searched, unfinished⟩
      · refine obstacle_of_searchBody keyed _ (.entry entered) ?_ broken
        intro other otherKnown used
        have same : other.id = start.id := by
          by_contra different
          exact used ((List.mem_erase_of_ne different).mpr (mem_ids otherKnown))
        exact .inl (eq_of_id_eq otherKnown known same)
      · cases finish : found.finish with
        | some marker =>
            simp only [finish] at unfinished
            cases unfinished
        | none =>
            simp only [finish] at unfinished
            cases unfinished
            refine .unterminated fun node inside ended => ?_
            rcases exists_tour_of_entry keyed entered searched with ⟨tour, own, adds⟩
            -- The first visit of the end marker would have been noted.
            have visited := (mem_firstVisits_iff keyed entered own).mpr inside
            have missed := adds.finish
            rw [finish, Option.none_or, eq_comm, List.find?_eq_none] at missed
            exact missed node visited (by simpa using ended)

theorem Obstacle.defect {first : Node} (met : Relation.ReflTransGen graph.Follows first start)
    (reachable : graph.Reachable first start)
    (loop : ∃ settings, start.kind = .loopStart settings) {error : WalkError}
    (obstacle : Obstacle graph start error) : Defect graph first error := by
  cases obstacle with
  | again inside => exact .cycle met (inside.follows loop)
  | cycle cycle =>
      rcases Relation.TransGen.head'_iff.mp cycle with ⟨_, step, _⟩
      exact .cycle (met.trans (step.inside.follows loop).to_reflTransGen)
        (cycle.lift id fun _ _ step => step.follows)
  | nested inside inner => exact .nested reachable loop inside inner
  | unterminated endless => exact .unterminated reachable loop endless

theorem defect_of_loopChain (keyed : graph.Keyed) {first : Node}
    (met : Relation.ReflTransGen graph.Follows first start)
    (reachable : graph.Reachable first start) (known : graph.Knows start)
    (loop : ∃ settings, start.kind = .loopStart settings) {error : WalkError}
    (failed : graph.loopChain start = .error error) : Defect graph first error :=
  (obstacle_of_loopChain keyed known failed).defect met reachable loop

end FlowCompiler.Graph
