import FlowCompiler.Proofs.Successors

namespace FlowCompiler

/-! Tours of the bodies of loops. A tour goes depth first along all ways from a node on, up to the
end markers, and meets a node once for each way that leads to it. The search through the body of a
loop finds what a tour meets, in the order of the first visits. -/

/-! ## First visits -/

def firstVisits (met : List String) : List Node → List Node
  | [] => []
  | node :: rest =>
      if node.id ∈ met then firstVisits met rest
      else node :: firstVisits (node.id :: met) rest

theorem firstVisits_congr {met others : List String} (same : ∀ id, id ∈ met ↔ id ∈ others) :
    ∀ nodes, firstVisits met nodes = firstVisits others nodes := by
  intro nodes
  induction nodes generalizing met others with
  | nil => rfl
  | cons node rest induction =>
      have later : firstVisits (node.id :: met) rest = firstVisits (node.id :: others) rest :=
        induction fun id => by simp [same id]
      rw [firstVisits, firstVisits, induction same, later]
      simp only [same node.id]

theorem firstVisits_append (left right : List Node) : ∀ met,
    firstVisits met (left ++ right) =
      firstVisits met left ++ firstVisits (left.map Node.id ++ met) right := by
  induction left with
  | nil => exact fun _ => rfl
  | cons node rest induction =>
      intro met
      rw [List.cons_append, firstVisits, firstVisits, induction, induction]
      have later : firstVisits (rest.map Node.id ++ node.id :: met) right =
          firstVisits ((node :: rest).map Node.id ++ met) right :=
        firstVisits_congr (fun id => by simp [or_left_comm]) right
      by_cases before : node.id ∈ met
      · rw [if_pos before, if_pos before, ← later]
        refine congrArg _ (firstVisits_congr (fun id => ?_) right)
        simp only [List.mem_append, List.mem_cons]
        constructor
        · exact fun member => member.imp_right .inr
        · rintro (member | equal | member)
          · exact .inl member
          · exact .inr (equal ▸ before)
          · exact .inr member
      · rw [if_neg before, if_neg before, ← later, List.cons_append]

theorem firstVisits_eq_nil {met : List String} {nodes : List Node}
    (before : ∀ node ∈ nodes, node.id ∈ met) : firstVisits met nodes = [] := by
  induction nodes with
  | nil => rfl
  | cons node rest induction =>
      rw [firstVisits, if_pos (before node List.mem_cons_self)]
      exact induction fun other member => before other (List.mem_cons_of_mem _ member)

theorem firstVisits_subset (nodes : List Node) : ∀ met, firstVisits met nodes ⊆ nodes := by
  induction nodes with
  | nil => exact fun _ => List.Subset.refl _
  | cons node rest induction =>
      intro met
      rw [firstVisits]
      split
      · exact List.subset_cons_of_subset _ (induction met)
      · exact List.cons_subset_cons _ (induction _)

/-- No id is among the first visits twice, or was met before. -/
theorem nodup_firstVisits (nodes : List Node) : ∀ met,
    ((firstVisits met nodes).map Node.id).Nodup ∧
      ∀ node ∈ firstVisits met nodes, node.id ∉ met := by
  induction nodes with
  | nil => exact fun _ => ⟨List.nodup_nil, by simp [firstVisits]⟩
  | cons node rest induction =>
      intro met
      rw [firstVisits]
      by_cases before : node.id ∈ met
      · rw [if_pos before]
        exact induction met
      · rw [if_neg before, List.map_cons, List.nodup_cons]
        rcases induction (node.id :: met) with ⟨distinct, new⟩
        refine ⟨⟨fun again => ?_, distinct⟩, fun other member => ?_⟩
        · rcases List.mem_map.mp again with ⟨other, member, same⟩
          exact new other member (same ▸ List.mem_cons_self)
        · rcases List.mem_cons.mp member with equal | member
          · exact equal ▸ before
          · exact fun earlier => new other member (List.mem_cons_of_mem _ earlier)

/-- Of every id that was not met before, a node is among the first visits. -/
theorem exists_firstVisit {nodes : List Node} {node : Node} (member : node ∈ nodes) :
    ∀ met, node.id ∉ met → ∃ first ∈ firstVisits met nodes, first.id = node.id := by
  induction nodes with
  | nil => cases member
  | cons head rest induction =>
      intro met unmet
      rw [firstVisits]
      by_cases before : head.id ∈ met
      · rw [if_pos before]
        rcases List.mem_cons.mp member with equal | member
        · exact absurd (equal ▸ before) unmet
        · exact induction member met unmet
      · rw [if_neg before]
        by_cases same : head.id = node.id
        · exact ⟨head, List.mem_cons_self, same⟩
        · have later := (List.mem_cons.mp member).resolve_left fun equal => same (equal ▸ rfl)
          rcases induction later (head.id :: met) (by simp [unmet, Ne.symm same]) with
            ⟨first, among, own⟩
          exact ⟨first, List.mem_cons_of_mem _ among, own⟩

namespace Graph

/-! ## Tours -/

mutual
/-- The nodes that are met on all ways from a node on, up to the end markers. No loop starts on the
way. -/
inductive Tour (graph : Graph) : Node → List Node → Prop
  | ends {node : Node} (ended : node.kind = .loopEnd) : Tour graph node [node]
  | goesOn {node : Node} {rest : List Node} (continues : node.kind ≠ .loopEnd)
      (flat : ∀ settings, node.kind ≠ .loopStart settings)
      (behind : Tours graph (graph.followed node) rest) : Tour graph node (node :: rest)

inductive Tours (graph : Graph) : List Node → List Node → Prop
  | nil : Tours graph [] []
  | cons {node : Node} {others first rest : List Node} (tour : Tour graph node first)
      (tours : Tours graph others rest) : Tours graph (node :: others) (first ++ rest)
end

variable {graph : Graph} {start node next : Node}

mutual
theorem Tour.unique : ∀ {node : Node} {tour other : List Node}, Tour graph node tour →
    Tour graph node other → other = tour
  | _, _, _, .ends _, .ends _ => rfl
  | _, _, _, .ends ended, .goesOn continues _ _ => absurd ended continues
  | _, _, _, .goesOn continues _ _, .ends ended => absurd ended continues
  | _, _, _, .goesOn _ _ behind, .goesOn _ _ others => congrArg _ (behind.unique others)

theorem Tours.unique : ∀ {nodes tour other : List Node}, Tours graph nodes tour →
    Tours graph nodes other → other = tour
  | _, _, _, .nil, .nil => rfl
  | _, _, _, .cons tour tours, .cons first others => by
      rw [tour.unique first, tours.unique others]
end

mutual
theorem Tour.flat : ∀ {node : Node} {tour : List Node}, Tour graph node tour →
    ∀ other ∈ tour, ∀ settings, other.kind ≠ .loopStart settings
  | _, _, .ends ended => by
      intro other member settings start
      rw [List.mem_singleton.mp member, ended] at start
      cases start
  | _, _, .goesOn _ flat behind => by
      intro other member
      rcases List.mem_cons.mp member with equal | member
      · exact equal ▸ flat
      · exact behind.flat other member

theorem Tours.flat : ∀ {nodes tour : List Node}, Tours graph nodes tour →
    ∀ other ∈ tour, ∀ settings, other.kind ≠ .loopStart settings
  | _, _, .nil => by simp
  | _, _, .cons tour tours => by
      intro other member
      rcases List.mem_append.mp member with member | member
      · exact tour.flat other member
      · exact tours.flat other member
end

mutual
theorem Tour.inside : ∀ {node : Node} {tour : List Node}, Tour graph node tour →
    graph.InBody start node → ∀ other ∈ tour, graph.InBody start other
  | _, _, .ends _, inside => by
      intro other member
      exact List.mem_singleton.mp member ▸ inside
  | _, _, .goesOn continues _ behind, inside => by
      intro other member
      rcases List.mem_cons.mp member with equal | member
      · exact equal ▸ inside
      · exact behind.inside (fun next follows => inside.step continues follows) other member

theorem Tours.inside : ∀ {nodes tour : List Node}, Tours graph nodes tour →
    (∀ node ∈ nodes, graph.InBody start node) → ∀ other ∈ tour, graph.InBody start other
  | _, _, .nil, _ => by simp
  | _, _, .cons tour tours, inside => by
      intro other member
      rcases List.mem_append.mp member with member | member
      · exact tour.inside (inside _ List.mem_cons_self) other member
      · exact tours.inside (fun node later => inside node (List.mem_cons_of_mem _ later)) other
          member
end

mutual
/-- A tour holds the tour of each node that it meets. -/
theorem Tour.exists_part : ∀ {node : Node} {tour : List Node}, Tour graph node tour →
    ∀ other ∈ tour, ∃ part, Tour graph other part ∧ part <:+: tour
  | _, _, .ends ended => by
      intro other member
      rw [List.mem_singleton.mp member]
      exact ⟨_, .ends ended, List.infix_rfl⟩
  | node, _, .goesOn continues flat behind => by
      intro other member
      rcases List.mem_cons.mp member with equal | member
      · rw [equal]
        exact ⟨_, .goesOn continues flat behind, List.infix_rfl⟩
      · rcases behind.exists_part other member with ⟨part, tour, within⟩
        exact ⟨part, tour, within.trans (List.suffix_cons node _).isInfix⟩

theorem Tours.exists_part : ∀ {nodes tour : List Node}, Tours graph nodes tour →
    ∀ other ∈ tour, ∃ part, Tour graph other part ∧ part <:+: tour
  | _, _, .nil => by simp
  | _, _, .cons tour tours => by
      intro other member
      rcases List.mem_append.mp member with member | member
      · rcases tour.exists_part other member with ⟨part, own, within⟩
        exact ⟨part, own, within.trans (List.prefix_append _ _).isInfix⟩
      · rcases tours.exists_part other member with ⟨part, own, within⟩
        exact ⟨part, own, within.trans (List.suffix_append _ _).isInfix⟩
end

theorem Tour.mem {tour : List Node} (toured : graph.Tour node tour) : node ∈ tour := by
  cases toured with
  | ends | goesOn => exact List.mem_cons_self

theorem Tours.subset {nodes tour : List Node} (toured : graph.Tours nodes tour) :
    nodes ⊆ tour := by
  intro node member
  induction nodes generalizing tour with
  | nil => cases member
  | cons head others induction =>
      cases toured with
      | cons first tours =>
          rcases List.mem_cons.mp member with equal | member
          · exact List.mem_append_left _ (equal ▸ first.mem)
          · exact List.mem_append_right _ (induction tours member)

/-- The tour of a node goes on to the tours of the nodes behind it, which are shorter. -/
theorem Tour.exists_behind {tour : List Node} (toured : graph.Tour node tour)
    (continues : node.kind ≠ .loopEnd) (follows : graph.Follows node next) :
    ∃ part, Tour graph next part ∧ part ⊆ tour ∧ part.length < tour.length := by
  cases toured with
  | ends ended => exact absurd ended continues
  | goesOn _ _ behind =>
      rcases behind.exists_part next (behind.subset follows) with ⟨part, own, within⟩
      exact ⟨part, own, List.subset_cons_of_subset _ within.subset,
        Nat.lt_succ_of_le within.length_le⟩

/-- The tour of the entry of a loop meets all nodes of the body. -/
theorem InBody.mem_tour {entry : Node} {tour : List Node}
    (entered : graph.next? start.id .nextStep = some entry) (toured : graph.Tour entry tour)
    (inside : graph.InBody start node) : node ∈ tour := by
  induction inside with
  | entry reached =>
      rw [entered] at reached
      exact Option.some.inj reached ▸ toured.mem
  | step _ continues follows member =>
      rcases toured.exists_part _ member with ⟨part, own, within⟩
      rcases own.exists_behind continues follows with ⟨later, behind, among, _⟩
      exact within.subset (among behind.mem)

end Graph

end FlowCompiler
