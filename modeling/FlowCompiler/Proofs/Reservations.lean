import FlowCompiler.Proofs.Assembly

namespace FlowCompiler

/-! The names that are kept for the children of the trigger. They are numbered in the order of the
edges, each child once, and are taken by the first visits of the children. -/

open Lowering

namespace Table

variable {α : Type}

theorem mem_keys_iff_isSome {table : Table α} {key : String} :
    key ∈ table.keys ↔ (table.get? key).isSome :=
  Entries.isSome_get?_iff.symm

theorem get?_erase_eq_some_iff {table : Table α} {key query : String} {value : α} :
    (table.erase key).get? query = some value ↔ query ≠ key ∧ table.get? query = some value := by
  rw [get?_eq_some_iff, get?_eq_some_iff]
  simp [erase, and_comm]

theorem get?_erase (table : Table α) (key query : String) :
    (table.erase key).get? query = if query = key then none else table.get? query := by
  apply Option.ext
  intro value
  rw [get?_erase_eq_some_iff]
  split
  · simp [*]
  · simp [*]

theorem mem_keys_erase {table : Table α} {key query : String} :
    query ∈ (table.erase key).keys ↔ query ≠ key ∧ query ∈ table.keys := by
  simp only [mem_keys_iff_isSome, Option.isSome_iff_exists, get?_erase_eq_some_iff,
    exists_and_left]

end Table

/-! ## Lists without repetitions -/

theorem eraseDups_concat_of_mem {α : Type} [BEq α] [LawfulBEq α] {seen : List α} {value : α}
    (member : value ∈ seen) : (seen ++ [value]).eraseDups = seen.eraseDups := by
  rw [List.eraseDups_append]
  simp [List.removeAll, member]

theorem eraseDups_concat_of_not_mem {α : Type} [BEq α] [LawfulBEq α] {seen : List α} {value : α}
    (absent : value ∉ seen) : (seen ++ [value]).eraseDups = seen.eraseDups ++ [value] := by
  rw [List.eraseDups_append]
  simp [List.removeAll, absent, List.eraseDups_cons]

/-! ## Sources of names -/

namespace NameSource

variable {source : NameSource} {node : Node} {names : Names}

theorem reserve_of_kept (kept : source.reserved.get? node.id = some names) :
    source.reserve node = (names, source) := by
  rw [reserve, kept]

theorem reserve_of_unkept (unkept : source.reserved.get? node.id = none) :
    source.reserve node = (Names.ofNode (source.last + 1) node,
      ⟨source.last + 1,
        source.reserved.insert node.id (Names.ofNode (source.last + 1) node)⟩) := by
  rw [reserve, unkept]
  rfl

theorem visit_of_kept (kept : source.reserved.get? node.id = some names) :
    source.visit node = (⟨node, names⟩, ⟨source.last, source.reserved.erase node.id⟩) := by
  rw [visit, take, kept]

theorem visit_of_unkept (unkept : source.reserved.get? node.id = none) :
    source.visit node = (⟨node, Names.ofNode (source.last + 1) node⟩,
      ⟨source.last + 1, source.reserved⟩) := by
  rw [visit, take, unkept]
  rfl

end NameSource

namespace Compile

/-! ## Reserved variables -/

def reservedNames (children : List Node) : List Names :=
  children.eraseDups.mapIdx fun index child => Names.ofNode (index + 1) child

def reservedVariables (children : List Node) : List String :=
  (reservedNames children).map Names.result

theorem mem_reservedNames {children : List Node} {names : Names} :
    names ∈ reservedNames children ↔ ∃ (index : Nat) (inside : index < children.eraseDups.length),
      Names.ofNode (index + 1) children.eraseDups[index] = names :=
  List.mem_mapIdx

theorem proper_of_mem_reservedNames {children : List Node} {names : Names}
    (member : names ∈ reservedNames children) : names.Proper := by
  rcases mem_reservedNames.mp member with ⟨index, inside, rfl⟩
  apply Names.proper_ofNode

theorem number_le_of_mem_reservedNames {children : List Node} {names : Names}
    (member : names ∈ reservedNames children) : names.number ≤ children.eraseDups.length := by
  rcases mem_reservedNames.mp member with ⟨index, inside, rfl⟩
  exact inside

theorem number_le_of_reserved {children : List Node} {names : Names} (proper : names.Proper)
    (reserved : names.result ∈ reservedVariables children) :
    names.number ≤ children.eraseDups.length := by
  rcases List.mem_map.mp reserved with ⟨other, among, equal⟩
  have number := Names.Owns.result.number_eq (proper_of_mem_reservedNames among) proper
    (equal ▸ .result)
  exact number ▸ number_le_of_mem_reservedNames among

theorem reservedNames_concat {seen : List Node} {child : Node} (absent : child ∉ seen) :
    reservedNames (seen ++ [child]) =
      reservedNames seen ++ [Names.ofNode (seen.eraseDups.length + 1) child] := by
  simp only [reservedNames, eraseDups_concat_of_not_mem absent, List.mapIdx_append,
    List.mapIdx_cons, List.mapIdx_nil, Nat.zero_add]

structure Reserves (fixed : List String) (seen : List Node) (source : NameSource)
    (registry : Registry) : Prop where
  last : source.last = seen.eraseDups.length
  kept : source.reserved.entries =
    seen.eraseDups.mapIdx fun index child => (child.id, Names.ofNode (index + 1) child)
  names : registry.names = fixed ++ reservedVariables seen

section

variable {graph : Graph} {fixed : List String} {seen children : List Node} {child : Node}
  {source : NameSource} {registry : Registry}

namespace Reserves

theorem keys_eq (reserves : Reserves fixed seen source registry) :
    source.reserved.keys = seen.eraseDups.map Node.id := by
  rw [Table.keys, Entries.keys, reserves.kept]
  apply List.ext_getElem <;> simp

theorem mem_keys_iff (reserves : Reserves fixed seen source registry)
    (known : ∀ node ∈ seen, graph.Knows node) (childKnown : graph.Knows child) :
    child.id ∈ source.reserved.keys ↔ child ∈ seen := by
  rw [reserves.keys_eq, List.mem_map]
  constructor
  · rintro ⟨node, member, same⟩
    have among := List.mem_eraseDups.mp member
    have found : graph.node? child.id = some node := same ▸ known node among
    rw [Option.some.inj (childKnown.symm.trans found)]
    exact among
  · intro member
    exact ⟨child, List.mem_eraseDups.mpr member, rfl⟩

theorem mem_reservedNames (reserves : Reserves fixed seen source registry) {key : String}
    {names : Names} (kept : source.reserved.get? key = some names) :
    names ∈ reservedNames seen := by
  have member := Table.get?_eq_some_iff.mp kept
  rw [reserves.kept] at member
  rcases List.mem_mapIdx.mp member with ⟨index, inside, equal⟩
  exact Compile.mem_reservedNames.mpr ⟨index, inside, congrArg Prod.snd equal⟩

/-- Another node gets the next number, and its variable was not known before. -/
theorem fresh (reserves : Reserves fixed seen source registry)
    (wordy : ∀ name ∈ fixed, Text.Wordy name) (absent : child ∉ seen)
    (unkept : child.id ∉ source.reserved.keys) :
    Reserves fixed (seen ++ [child])
      ⟨source.last + 1,
        source.reserved.insert child.id (Names.ofNode (source.last + 1) child)⟩
      (registry.reserve (Names.ofNode (source.last + 1) child).result) := by
  have proper := Names.proper_ofNode (source.last + 1) child
  have unknown : (Names.ofNode (source.last + 1) child).result ∉ registry.names := by
    rw [reserves.names, List.mem_append, not_or]
    constructor
    · intro member
      exact Names.Owns.result.not_wordy proper (wordy _ member)
    · intro member
      have bound := number_le_of_reserved proper member
      rw [← reserves.last] at bound
      exact Nat.not_succ_le_self _ bound
  constructor
  · rw [eraseDups_concat_of_not_mem absent, List.length_append, reserves.last]
    rfl
  · rw [eraseDups_concat_of_not_mem absent, List.mapIdx_append, ← reserves.kept]
    apply (Entries.insert_of_not_mem unkept).trans
    simp [reserves.last]
  · rw [registry.reserve_of_unknown unknown, reservedVariables, reservedNames_concat absent,
      List.map_append, ← List.append_assoc]
    rw [registry.names_bind, Registry.unknown_of_absent unknown, reserves.names, ← reserves.last]
    rfl

theorem step (reserves : Reserves fixed seen source registry)
    (wordy : ∀ name ∈ fixed, Text.Wordy name) (known : ∀ node ∈ seen, graph.Knows node)
    (childKnown : graph.Knows child) :
    Reserves fixed (seen ++ [child]) (source.reserve child).2
      (registry.reserve (source.reserve child).1.result) := by
  have keys := reserves.mem_keys_iff known childKnown
  cases kept : source.reserved.get? child.id with
  | some names =>
      have member : child ∈ seen :=
        keys.mp (Table.mem_keys_iff_isSome.mpr (kept ▸ rfl))
      have present : names.result ∈ registry.names := by
        rw [reserves.names]
        exact List.mem_append_right _ (List.mem_map_of_mem (reserves.mem_reservedNames kept))
      rw [NameSource.reserve_of_kept kept, registry.reserve_of_known present]
      have dropped := eraseDups_concat_of_mem member
      constructor
      · rw [dropped]
        exact reserves.last
      · rw [dropped]
        exact reserves.kept
      · rw [reservedVariables, reservedNames, dropped]
        exact reserves.names
  | none =>
      have unkept : child.id ∉ source.reserved.keys := by
        rw [Table.mem_keys_iff_isSome, kept]
        exact Bool.false_ne_true
      rw [NameSource.reserve_of_unkept kept]
      exact reserves.fresh wordy (fun member => unkept (keys.mpr member)) unkept

theorem reserveAll (wordy : ∀ name ∈ fixed, Text.Wordy name) :
    ∀ (children seen : List Node) {source : NameSource} {registry : Registry},
      Reserves fixed seen source registry → (∀ node ∈ seen ++ children, graph.Knows node) →
        Reserves fixed (seen ++ children) (reserveAll source registry children).1
          (reserveAll source registry children).2
  | [], seen, _, _, reserves, _ => by
      rw [List.append_nil]
      exact reserves
  | child :: rest, seen, _, _, reserves, known => by
      rw [List.append_cons] at known ⊢
      apply reserveAll wordy rest (seen ++ [child]) _ known
      apply reserves.step wordy
      · intro node member
        exact known node (List.mem_append_left _ (List.mem_append_left _ member))
      · exact known child (List.mem_append_left _ (List.mem_append_right _
          (List.mem_singleton_self _)))

end Reserves

def fixedVariables : List String :=
  [Registry.branchId, Registry.branchName, Registry.apiBase]

theorem reserves_reservation {flow : Flow} {branch : Branch}
    (known : ∀ child ∈ children, graph.Knows child) :
    Reserves fixedVariables children (reservation flow branch children).1
      (reservation flow branch children).2 :=
  Reserves.reserveAll (by decide) children [] ⟨rfl, rfl, rfl⟩ known

/-- Reservations add empty values only, under names that end in numbers. -/
theorem mem_reserveAll (valid : source.Valid graph)
    (known : ∀ child ∈ children, graph.Knows child) :
    ∀ entry ∈ (reserveAll source registry children).2.bindings.entries,
      entry ∈ registry.bindings.entries ∨ ¬ Text.Wordy entry.1 ∧ entry.2 = .null := by
  refine reserveAll_preserves
    (fun later => ∀ entry ∈ later.bindings.entries,
      entry ∈ registry.bindings.entries ∨ ¬ Text.Wordy entry.1 ∧ entry.2 = .null)
    children valid known ?_ fun _ => .inl
  intro later number child _ holds entry member
  rcases Table.eq_or_mem_of_mem_insert member with equal | member
  · rw [equal]
    exact .inr ⟨Names.Owns.not_wordy (Names.proper_ofNode number child) .result, rfl⟩
  · exact holds entry member

/-- At the beginning of the walk, the reserved variables are null, and nothing else is added to the
fixed ones. -/
theorem mem_reservation {flow : Flow} {branch : Branch} {entry : String × Json}
    (known : ∀ child ∈ children, (Graph.ofFlow flow).Knows child)
    (member : entry ∈ (reservation flow branch children).2.bindings.entries) :
    entry ∈ ((branchRegistry flow branch).bindVariable Registry.apiBase).bindings.entries ∨
      entry.1 ∈ reservedVariables children ∧ entry.2 = .null := by
  have added := mem_reserveAll (NameSource.valid_start _) known entry member
  refine added.imp_right fun ⟨numbered, null⟩ => ⟨?_, null⟩
  have present : entry.1 ∈ (reservation flow branch children).2.names :=
    List.mem_map_of_mem member
  rw [(reserves_reservation known).names, List.mem_append] at present
  have wordy : ∀ name ∈ fixedVariables, Text.Wordy name := by decide
  exact present.resolve_left fun fixed => numbered (wordy _ fixed)

end

end Compile

/-! ## First visits -/

namespace NameSource

def visitAll (source : NameSource) : List Node → List Visit × NameSource
  | [] => ([], source)
  | node :: rest =>
      let (visit, source) := source.visit node
      let (visits, source) := source.visitAll rest
      (visit :: visits, source)

theorem visitAll_cons (source : NameSource) (node : Node) (rest : List Node) :
    source.visitAll (node :: rest) =
      ((source.visit node).1 :: ((source.visit node).2.visitAll rest).1,
        ((source.visit node).2.visitAll rest).2) := rfl

theorem visitAll_append (source : NameSource) (left right : List Node) :
    source.visitAll (left ++ right) =
      ((source.visitAll left).1 ++ ((source.visitAll left).2.visitAll right).1,
        ((source.visitAll left).2.visitAll right).2) := by
  induction left generalizing source with
  | nil => rfl
  | cons node rest induction => simp [visitAll_cons, induction]

variable {graph : Graph} {source : NameSource} {node : Node}

/-- The first visit of a node takes the names that are kept for it. All others get numbers above
those of the kept names. -/
def Takes (source : NameSource) (before : List Visit) (visit : Visit) : Prop :=
  (visit.node ∉ before.map Visit.node ∧
    source.reserved.get? visit.node.id = some visit.names) ∨
  (¬ (visit.node ∉ before.map Visit.node ∧ visit.node.id ∈ source.reserved.keys) ∧
    source.last < visit.names.number)

theorem takes_visit : source.Takes [] (source.visit node).1 := by
  cases kept : source.reserved.get? node.id with
  | some names =>
      rw [visit_of_kept kept]
      exact .inl ⟨List.not_mem_nil, kept⟩
  | none =>
      rw [visit_of_unkept kept]
      apply Or.inr
      constructor
      · rintro ⟨_, member⟩
        rw [Table.mem_keys_iff_isSome, kept] at member
        cases member
      · exact Nat.lt_succ_self _

/-- A visit of a node uses up what is kept for the node, and nothing else. -/
theorem Takes.cons {before : List Visit} {visit : Visit} (known : graph.Knows node)
    (visitKnown : graph.Knows visit.node) (takes : (source.visit node).2.Takes before visit) :
    source.Takes ((source.visit node).1 :: before) visit := by
  have differs : visit.node ≠ node → visit.node.id ≠ node.id := fun other same =>
    other (Option.some.inj (visitKnown.symm.trans (same ▸ known)))
  have first : (source.visit node).1.node = node := rfl
  simp only [Takes, List.map_cons, List.mem_cons, not_or, first]
  cases kept : source.reserved.get? node.id with
  | some names =>
      rw [visit_of_kept kept] at takes
      rcases takes with ⟨new, taken⟩ | ⟨used, above⟩
      · have parts := Table.get?_erase_eq_some_iff.mp taken
        exact .inl ⟨⟨fun same => parts.1 (congrArg Node.id same), new⟩, parts.2⟩
      · apply Or.inr
        constructor
        · rintro ⟨⟨other, new⟩, member⟩
          exact used ⟨new, Table.mem_keys_erase.mpr ⟨differs other, member⟩⟩
        · exact above
  | none =>
      rw [visit_of_unkept kept] at takes
      rcases takes with ⟨new, taken⟩ | ⟨used, above⟩
      · have other : visit.node ≠ node := by
          intro same
          have found := taken.symm.trans (same ▸ kept)
          cases found
        exact .inl ⟨⟨other, new⟩, taken⟩
      · apply Or.inr
        constructor
        · rintro ⟨⟨_, new⟩, member⟩
          exact used ⟨new, member⟩
        · exact Nat.lt_of_succ_lt above

theorem map_node_visitAll (source : NameSource) (nodes : List Node) :
    (source.visitAll nodes).1.map Visit.node = nodes := by
  induction nodes generalizing source with
  | nil => rfl
  | cons node rest induction => exact congrArg (List.cons node) (induction _)

theorem takes_visitAll {visit : Visit} {rest : List Visit} : ∀ (nodes : List Node)
    (before : List Visit) {source : NameSource}, (∀ node ∈ nodes, graph.Knows node) →
      (source.visitAll nodes).1 = before ++ visit :: rest → source.Takes before visit
  | [], before, _, _, split => by
      cases before <;> cases split
  | node :: nodes, [], source, _, split => by
      have equal : (source.visit node).1 = visit := (List.cons.inj split).1
      rw [← equal]
      exact takes_visit
  | node :: nodes, other :: before, source, known, split => by
      have parts := List.cons.inj split
      have visitKnown : graph.Knows visit.node := by
        apply known
        rw [← map_node_visitAll source (node :: nodes), split]
        exact List.mem_map_of_mem (List.mem_append_right _ List.mem_cons_self)
      have behind := takes_visitAll nodes before
        (fun node member => known node (List.mem_cons_of_mem _ member)) parts.2
      rw [← parts.1]
      exact behind.cons (known node List.mem_cons_self) visitKnown

end NameSource

namespace Walk

open NameSource

mutual
/-- The visits of a walk are named one after the other. -/
theorem visits_name : ∀ (walk : Walk Node) (source : NameSource),
    ((walk.name source).1.visits, (walk.name source).2) = source.visitAll walk.visits
  | .done, _ => rfl
  | .terminal _, _ => rfl
  | .action node _ next, source => by
      have behind := visits_name next (source.visit node).2
      rw [visits, visitAll_cons, ← behind]
      rfl
  | .fork node _ exits, source => by
      have behind := exitVisits_nameExits exits (source.visit node).2
      rw [visits, visitAll_cons, ← behind]
      rfl
  | .subflow node _ exits next, source => by
      have behind := exitVisits_nameExits exits (source.visit node).2
      have following := visits_name next (nameExits (source.visit node).2 exits).2
      rw [visits, visitAll_cons, visitAll_append, ← behind, ← following]
      rfl
  | .loop node _ body next, source => by
      have inside := visits_name body (source.visit node).2
      have following := visits_name next (body.name (source.visit node).2).2
      rw [visits, visitAll_cons, visitAll_append, ← inside, ← following]
      rfl

theorem exitVisits_nameExits : ∀ (exits : List (Exit × Option (Walk Node))) (source : NameSource),
    (exitVisits (nameExits source exits).1, (nameExits source exits).2) =
      source.visitAll (exitVisits exits)
  | [], _ => rfl
  | (_, none) :: rest, source => exitVisits_nameExits rest source
  | (_, some walk) :: rest, source => by
      have first := visits_name walk source
      have following := exitVisits_nameExits rest (walk.name source).2
      rw [exitVisits, visitAll_append, ← first, ← following]
      rfl
end

theorem map_node_visits_name (walk : Walk Node) (source : NameSource) :
    (walk.name source).1.visits.map Visit.node = walk.visits := by
  have named := congrArg Prod.fst (visits_name walk source)
  rw [show (walk.name source).1.visits = _ from named, map_node_visitAll]

end Walk

end FlowCompiler
