import FlowCompiler.Lowering.Names
import FlowCompiler.Proofs.NameParts
import FlowCompiler.Proofs.TableEntries
import FlowCompiler.Proofs.Unfolding
import Mathlib.Data.List.Nodup

namespace FlowCompiler

/-! The visits of a walk. A walk that was unfolded from a graph visits nodes of the graph, and
its forks have all their exits. When it is named, every visit gets names made for its node, and
no number is given away twice. -/

namespace Walk

variable {α : Type}

/-! ## Visits -/

mutual
def visits : Walk α → List α
  | .done => []
  | .terminal visit => [visit]
  | .action visit _ next => visit :: visits next
  | .fork visit _ exits => visit :: exitVisits exits
  | .subflow visit _ exits next => visit :: (exitVisits exits ++ visits next)
  | .loop visit _ body next => visit :: (visits body ++ visits next)

def exitVisits : List (Exit × Option (Walk α)) → List α
  | [] => []
  | (_, none) :: rest => exitVisits rest
  | (_, some walk) :: rest => visits walk ++ exitVisits rest
end

/-! ## Exits -/

mutual
/-- Every fork of the walk has all its exits, and subflows have none but the one for failure. -/
def Shaped : Walk α → Prop
  | .done => True
  | .terminal _ => True
  | .action _ _ next => Shaped next
  | .fork _ choice exits => exits.map Prod.fst = choice.exits ∧ ShapedExits exits
  | .subflow _ _ exits next =>
      (exits.map Prod.fst = [] ∨ exits.map Prod.fst = [.failure]) ∧ ShapedExits exits ∧
        Shaped next
  | .loop _ _ body next => Shaped body ∧ Shaped next

def ShapedExits : List (Exit × Option (Walk α)) → Prop
  | [] => True
  | (_, none) :: rest => ShapedExits rest
  | (_, some walk) :: rest => Shaped walk ∧ ShapedExits rest
end

end Walk

namespace Graph

open Walk

/-! ## Unfolded walks -/

theorem map_fst_of_behindExits {graph : Graph} {bounds : Option LoopBounds}
    {unused : List String} {id : String} {exits : List Exit}
    {walks : List (Exit × Option (Walk Node))}
    (behind : BehindExits graph bounds unused id exits walks) : walks.map Prod.fst = exits := by
  induction exits generalizing walks with
  | nil =>
      cases behind
      rfl
  | cons exit rest induction =>
      cases behind with
      | connected found unfolds behind => rw [List.map_cons, induction behind]
      | unconnected missing behind => rw [List.map_cons, induction behind]

theorem subflowExits_eq (graph : Graph) (id : String) :
    graph.subflowExits id = [] ∨ graph.subflowExits id = [.failure] := by
  rw [subflowExits]
  by_cases connected : (graph.findEdge? id Exit.failure.outlet).isSome
  · rw [if_pos connected]
    exact .inr rfl
  · rw [if_neg connected]
    exact .inl rfl

theorem outlet_of_mem_subflowExits {graph : Graph} {id : String} {exit : Exit}
    (member : exit ∈ graph.subflowExits id) : exit.outlet = .failure := by
  rcases graph.subflowExits_eq id with exits | exits
  · rw [exits] at member
    cases member
  · rw [exits, List.mem_singleton] at member
    rw [member]
    rfl

mutual
theorem Unfolds.shaped {graph : Graph} {bounds : Option LoopBounds} {unused : List String}
    {node : Node} {walk : Walk Node} :
    Unfolds graph bounds unused node walk → walk.Shaped
  | .ended _ => trivial
  | .terminal .. => trivial
  | .passed _ _ _ _ rest => rest.shaped
  | .action _ _ _ _ rest => rest.shaped
  | .fork _ _ _ behind => ⟨map_fst_of_behindExits behind, behind.shaped⟩
  | .subflow _ _ _ behind rest =>
      ⟨map_fst_of_behindExits behind ▸ graph.subflowExits_eq node.id, behind.shaped, rest.shaped⟩
  | .loop _ _ _ entered rest => ⟨entered.shaped, rest.shaped⟩

theorem Behind.shaped {graph : Graph} {bounds : Option LoopBounds} {unused : List String}
    {id : String} {outlet : Outlet} {walk : Walk Node} :
    Behind graph bounds unused id outlet walk → walk.Shaped
  | .connected _ unfolds => unfolds.shaped
  | .unconnected _ => trivial

theorem BehindExits.shaped {graph : Graph} {bounds : Option LoopBounds} {unused : List String}
    {id : String} {exits : List Exit} {walks : List (Exit × Option (Walk Node))} :
    BehindExits graph bounds unused id exits walks → ShapedExits walks
  | .nil => trivial
  | .connected _ unfolds behind => ⟨unfolds.shaped, behind.shaped⟩
  | .unconnected _ behind => behind.shaped
end

/-! ## Nodes of the graph -/

def Keyed (graph : Graph) : Prop :=
  ∀ id node, graph.node? id = some node → node.id = id

theorem keyed_ofFlow (flow : Flow) : (ofFlow flow).Keyed := by
  intro id node found
  have member := Table.mem_of_mem_ofList (Table.get?_eq_some_iff.mp found)
  rcases List.mem_map.mp member with ⟨present, _, equal⟩
  rw [← (Prod.mk.inj equal).1, (Prod.mk.inj equal).2]

theorem Keyed.node?_of_next? {graph : Graph} (keyed : graph.Keyed) {id : String}
    {outlet : Outlet} {next : Node} (connected : graph.next? id outlet = some next) :
    graph.node? next.id = some next := by
  rw [next?] at connected
  rcases Option.bind_eq_some_iff.mp connected with ⟨edge, _, found⟩
  rw [keyed edge.target next found]
  exact found

def Knows (graph : Graph) (node : Node) : Prop :=
  graph.node? node.id = some node

mutual
theorem Unfolds.knows {graph : Graph} (keyed : graph.Keyed) {bounds : Option LoopBounds}
    {unused : List String} {node : Node} {walk : Walk Node} (known : graph.Knows node) :
    Unfolds graph bounds unused node walk → ∀ visit ∈ walk.visits, graph.Knows visit
  | .ended _ => by simp [visits]
  | .terminal .. => by simpa [visits] using known
  | .passed _ _ _ _ rest => rest.knows keyed
  | .action _ _ _ _ rest => by
      have behind := rest.knows keyed
      simpa [visits] using ⟨known, behind⟩
  | .fork _ _ _ behind => by
      have exits := behind.knows keyed
      simpa [visits] using ⟨known, exits⟩
  | .subflow _ _ _ behind rest => by
      have exits := behind.knows keyed
      have next := rest.knows keyed
      simp only [visits, List.mem_cons, List.mem_append]
      rintro visit (equal | member | member)
      · exact equal ▸ known
      · exact exits visit member
      · exact next visit member
  | .loop _ _ _ entered rest => by
      have body := entered.knows keyed
      have next := rest.knows keyed
      simp only [visits, List.mem_cons, List.mem_append]
      rintro visit (equal | member | member)
      · exact equal ▸ known
      · exact body visit member
      · exact next visit member

theorem Behind.knows {graph : Graph} (keyed : graph.Keyed) {bounds : Option LoopBounds}
    {unused : List String} {id : String} {outlet : Outlet} {walk : Walk Node} :
    Behind graph bounds unused id outlet walk → ∀ visit ∈ walk.visits, graph.Knows visit
  | .connected found unfolds => unfolds.knows keyed (keyed.node?_of_next? found)
  | .unconnected _ => by simp [visits]

theorem BehindExits.knows {graph : Graph} (keyed : graph.Keyed) {bounds : Option LoopBounds}
    {unused : List String} {id : String} {exits : List Exit}
    {walks : List (Exit × Option (Walk Node))} :
    BehindExits graph bounds unused id exits walks →
      ∀ visit ∈ exitVisits walks, graph.Knows visit
  | .nil => by simp [exitVisits]
  | .connected found unfolds behind => by
      have first := unfolds.knows keyed (keyed.node?_of_next? found)
      have others := behind.knows keyed
      simp only [exitVisits, List.mem_append]
      rintro visit (member | member)
      · exact first visit member
      · exact others visit member
  | .unconnected _ behind => by
      simpa [exitVisits] using behind.knows keyed
end

end Graph

namespace NameSource

/-! ## Numbers that can still be given away -/

def reservedNumbers (source : NameSource) : List Nat :=
  source.reserved.entries.map fun entry => entry.2.number

def Available (source : NameSource) (number : Nat) : Prop :=
  source.last < number ∨ number ∈ source.reservedNumbers

structure Valid (graph : Graph) (source : NameSource) : Prop where
  made : ∀ entry ∈ source.reserved.entries, ∃ node, graph.node? entry.1 = some node ∧
    entry.2 = Names.ofNode entry.2.number node
  bounded : ∀ number ∈ source.reservedNumbers, number ≤ source.last
  distinct : source.reservedNumbers.Nodup

theorem valid_start (graph : Graph) : start.Valid graph :=
  ⟨by simp [start], by simp [start, reservedNumbers], by simp [start, reservedNumbers]⟩

theorem mem_reservedNumbers {source : NameSource} {number : Nat} :
    number ∈ source.reservedNumbers ↔
      ∃ entry ∈ source.reserved.entries, entry.2.number = number :=
  List.mem_map

theorem Valid.reserve {graph : Graph} {source : NameSource} (valid : source.Valid graph)
    {node : Node} (known : graph.Knows node) : (source.reserve node).2.Valid graph := by
  rw [NameSource.reserve]
  cases kept : source.reserved.get? node.id with
  | some names => exact valid
  | none =>
      have absent : node.id ∉ Entries.keys source.reserved.entries := by
        intro present
        have found := Entries.isSome_get?_iff.mpr present
        rw [Table.get?] at kept
        rw [kept] at found
        cases found
      have entries : (source.reserved.insert node.id
          (Names.ofNode (source.last + 1) node)).entries =
            source.reserved.entries ++ [(node.id, Names.ofNode (source.last + 1) node)] :=
        Entries.insert_of_not_mem absent
      have numbers : (source.reserved.insert node.id
          (Names.ofNode (source.last + 1) node)).entries.map (fun entry => entry.2.number) =
            source.reservedNumbers ++ [source.last + 1] := by
        rw [entries, List.map_append]
        rfl
      refine ⟨?_, ?_, ?_⟩
      · intro entry member
        rcases List.mem_append.mp (entries ▸ member) with member | member
        · exact valid.made entry member
        · rw [List.mem_singleton.mp member]
          exact ⟨node, known, rfl⟩
      · intro number member
        have shown : number ∈ source.reservedNumbers ++ [source.last + 1] := numbers ▸ member
        rcases List.mem_append.mp shown with member | member
        · exact Nat.le_succ_of_le (valid.bounded number member)
        · rw [List.mem_singleton.mp member]
          exact Nat.le_refl _
      · have joined : (source.reservedNumbers ++ [source.last + 1]).Nodup := by
          refine List.nodup_append.mpr ⟨valid.distinct, List.nodup_singleton _, ?_⟩
          intro left leftMember right rightMember equal
          have bound := valid.bounded left leftMember
          rw [equal, List.mem_singleton.mp rightMember] at bound
          exact Nat.not_succ_le_self _ bound
        rw [← numbers] at joined
        exact joined

theorem Valid.reserve_eq_ofNode {graph : Graph} {source : NameSource} (valid : source.Valid graph)
    {node : Node} (known : graph.Knows node) :
    ∃ number, (source.reserve node).1 = Names.ofNode number node := by
  rw [NameSource.reserve]
  cases kept : source.reserved.get? node.id with
  | none => exact ⟨source.last + 1, rfl⟩
  | some names =>
      rcases valid.made (node.id, names) (Table.get?_eq_some_iff.mp kept) with
        ⟨owner, found, made⟩
      have same : node = owner := Option.some.inj (known.symm.trans found)
      exact ⟨names.number, same ▸ made⟩

/-- From `source` to `after`, the visits get names that were made for their nodes, each with a
number that could be given away before and can no longer be afterwards. -/
structure Gives (graph : Graph) (source after : NameSource) (visits : List Visit) : Prop where
  made : ∀ visit ∈ visits, visit.names = Names.ofNode visit.names.number visit.node
  distinct : (visits.map fun visit => visit.names.number).Nodup
  available : ∀ visit ∈ visits, source.Available visit.names.number
  spent : ∀ visit ∈ visits, ¬ after.Available visit.names.number
  shrinks : ∀ number, after.Available number → source.Available number
  valid : after.Valid graph

theorem Gives.nil {graph : Graph} {source : NameSource} (valid : source.Valid graph) :
    Gives graph source source [] :=
  ⟨by simp, by simp, by simp, by simp, fun _ available => available, valid⟩

theorem Gives.append {graph : Graph} {source middle after : NameSource}
    {first second : List Visit} (left : Gives graph source middle first)
    (right : Gives graph middle after second) : Gives graph source after (first ++ second) := by
  refine ⟨?_, ?_, ?_, ?_,
    fun number available => left.shrinks number (right.shrinks number available), right.valid⟩
  · intro visit member
    rcases List.mem_append.mp member with member | member
    · exact left.made visit member
    · exact right.made visit member
  · rw [List.map_append]
    refine List.nodup_append.mpr ⟨left.distinct, right.distinct, ?_⟩
    intro number leftMember other rightMember equal
    rcases List.mem_map.mp leftMember with ⟨visit, among, rfl⟩
    rcases List.mem_map.mp rightMember with ⟨later, follows, rfl⟩
    exact left.spent visit among (equal ▸ right.available later follows)
  · intro visit member
    rcases List.mem_append.mp member with member | member
    · exact left.available visit member
    · exact left.shrinks _ (right.available visit member)
  · intro visit member available
    rcases List.mem_append.mp member with member | member
    · exact left.spent visit member (right.shrinks _ available)
    · exact right.spent visit member available

theorem gives_visit {graph : Graph} {source : NameSource} (valid : source.Valid graph)
    {node : Node} (known : graph.Knows node) :
    Gives graph source (source.visit node).2 [(source.visit node).1] := by
  rw [visit, take]
  cases kept : source.reserved.get? node.id with
  | none =>
      -- The number behind the last one is new: kept numbers are at most the last one.
      have above : ∀ number, number ≤ source.last + 1 →
          (source.last + 1 < number ∨ number ∈ source.reservedNumbers) →
            number ≤ source.last := by
        rintro number bound (above | member)
        · omega
        · exact valid.bounded number member
      refine ⟨?_, by simp, ?_, ?_, ?_, ?_⟩
      · intro visit member
        rw [List.mem_singleton.mp member]
        rfl
      · intro visit member
        rw [List.mem_singleton.mp member]
        exact .inl (Nat.lt_succ_self _)
      · intro visit member available
        rw [List.mem_singleton.mp member] at available
        exact Nat.not_succ_le_self _ (above _ (Nat.le_refl _) available)
      · rintro number (above | member)
        · exact .inl (Nat.lt_of_succ_lt above)
        · exact .inr member
      · exact ⟨valid.made, fun number member => Nat.le_succ_of_le (valid.bounded number member),
          valid.distinct⟩
  | some names =>
      have entry : (node.id, names) ∈ source.reserved.entries := Table.get?_eq_some_iff.mp kept
      have subset : ∀ other ∈ (source.reserved.erase node.id).entries,
          other ∈ source.reserved.entries ∧ other.1 ≠ node.id := by
        intro other member
        have filtered := List.mem_filter.mp member
        exact ⟨filtered.1, by simpa using filtered.2⟩
      have rest : ((source.reserved.erase node.id).entries.map
          fun other => other.2.number).Sublist source.reservedNumbers :=
        List.filter_sublist.map _
      refine ⟨?_, by simp, ?_, ?_, ?_, ?_⟩
      · intro visit member
        rw [List.mem_singleton.mp member]
        rcases valid.made (node.id, names) entry with ⟨owner, found, made⟩
        have same : node = owner := Option.some.inj (known.symm.trans found)
        rw [same]
        exact made
      · intro visit member
        rw [List.mem_singleton.mp member]
        exact .inr (mem_reservedNumbers.mpr ⟨(node.id, names), entry, rfl⟩)
      · intro visit member
        rw [List.mem_singleton.mp member]
        rintro (above | member)
        · have bound := valid.bounded names.number
            (mem_reservedNumbers.mpr ⟨(node.id, names), entry, rfl⟩)
          exact Nat.not_lt_of_le bound above
        · rcases mem_reservedNumbers.mp member with ⟨other, among, equal⟩
          have present := subset other among
          have same := List.inj_on_of_nodup_map valid.distinct present.1 entry equal
          exact present.2 (congrArg Prod.fst same)
      · rintro number (above | member)
        · exact .inl above
        · exact .inr (rest.subset member)
      · exact ⟨fun other member => valid.made other (subset other member).1,
          fun number member => valid.bounded number (rest.subset member),
          rest.nodup valid.distinct⟩

end NameSource

namespace Walk

open NameSource

/-! ## Numbering -/

mutual
/-- Naming a walk gives its visits the names for their nodes, with different numbers. -/
theorem gives_name {graph : Graph} : ∀ (walk : Walk Node) {source : NameSource},
    source.Valid graph → (∀ node ∈ walk.visits, graph.Knows node) →
      Gives graph source (walk.name source).2 (walk.name source).1.visits
  | .done, _, valid, _ => .nil valid
  | .terminal node, _, valid, known => gives_visit valid (known node List.mem_cons_self)
  | .action node _ next, _, valid, known => by
      have first := gives_visit valid (known node List.mem_cons_self)
      exact first.append (gives_name next first.valid
        fun visit member => known visit (List.mem_cons_of_mem _ member))
  | .fork node _ exits, _, valid, known => by
      have first := gives_visit valid (known node List.mem_cons_self)
      exact first.append (gives_nameExits exits first.valid
        fun visit member => known visit (List.mem_cons_of_mem _ member))
  | .subflow node _ exits next, _, valid, known => by
      have first := gives_visit valid (known node List.mem_cons_self)
      have behind := gives_nameExits exits first.valid fun visit member =>
        known visit (List.mem_cons_of_mem _ (List.mem_append_left _ member))
      exact first.append (behind.append (gives_name next behind.valid fun visit member =>
        known visit (List.mem_cons_of_mem _ (List.mem_append_right _ member))))
  | .loop node _ body next, _, valid, known => by
      have first := gives_visit valid (known node List.mem_cons_self)
      have inside := gives_name body first.valid fun visit member =>
        known visit (List.mem_cons_of_mem _ (List.mem_append_left _ member))
      exact first.append (inside.append (gives_name next inside.valid fun visit member =>
        known visit (List.mem_cons_of_mem _ (List.mem_append_right _ member))))

theorem gives_nameExits {graph : Graph} :
    ∀ (exits : List (Exit × Option (Walk Node))) {source : NameSource},
      source.Valid graph → (∀ node ∈ exitVisits exits, graph.Knows node) →
        Gives graph source (nameExits source exits).2 (exitVisits (nameExits source exits).1)
  | [], _, valid, _ => .nil valid
  | (_, none) :: rest, _, valid, known => gives_nameExits rest valid known
  | (_, some walk) :: rest, _, valid, known => by
      have first := gives_name walk valid fun visit member =>
        known visit (List.mem_append_left _ member)
      exact first.append (gives_nameExits rest first.valid fun visit member =>
        known visit (List.mem_append_right _ member))
end

/-! ## Proper walks -/

structure Proper (walk : Walk Visit) : Prop where
  shaped : walk.Shaped
  made : ∀ visit ∈ walk.visits, visit.names = Names.ofNode visit.names.number visit.node
  distinct : (walk.visits.map fun visit => visit.names.number).Nodup

theorem map_fst_nameExits : ∀ (exits : List (Exit × Option (Walk Node))) (source : NameSource),
    (nameExits source exits).1.map Prod.fst = exits.map Prod.fst
  | [], _ => rfl
  | (_, none) :: rest, source => congrArg (List.cons _) (map_fst_nameExits rest source)
  | (_, some _) :: rest, _ => congrArg (List.cons _) (map_fst_nameExits rest _)

mutual
theorem shaped_name : ∀ (walk : Walk Node) {source : NameSource},
    walk.Shaped → (walk.name source).1.Shaped
  | .done, _, _ => trivial
  | .terminal _, _, _ => trivial
  | .action _ _ next, _, shaped => shaped_name next shaped
  | .fork _ _ exits, _, shaped =>
      ⟨(map_fst_nameExits exits _).trans shaped.1, shapedExits_nameExits exits shaped.2⟩
  | .subflow _ _ exits next, _, shaped =>
      ⟨(map_fst_nameExits exits _).symm ▸ shaped.1, shapedExits_nameExits exits shaped.2.1,
        shaped_name next shaped.2.2⟩
  | .loop _ _ body next, _, shaped => ⟨shaped_name body shaped.1, shaped_name next shaped.2⟩

theorem shapedExits_nameExits : ∀ (exits : List (Exit × Option (Walk Node)))
    {source : NameSource}, ShapedExits exits → ShapedExits (nameExits source exits).1
  | [], _, _ => trivial
  | (_, none) :: rest, _, shaped => shapedExits_nameExits rest shaped
  | (_, some walk) :: rest, _, shaped =>
      ⟨shaped_name walk shaped.1, shapedExits_nameExits rest shaped.2⟩
end

end Walk

end FlowCompiler
