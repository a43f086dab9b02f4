import FlowCompiler.Flow.Graph
import FlowCompiler.Flow.Loader
import FlowCompiler.Flow.PayloadFormat
import FlowCompiler.Proofs.TableEntries
import Mathlib.Data.List.Nodup

namespace FlowCompiler

/-! Which edges leave a node through which of its outlets. The handle of an edge is the name of
its outlet, behind a mark for the outlets that the designer declares, but an outlet accepts every
handle that ends in its own key. The two agree where no key stands at the end of another one. -/

/-! ## The edges of a graph -/

namespace Graph

theorem outgoing_foldl_addEdge (id : String) (edges : List Edge) :
    ∀ table : Table (List Edge), ((edges.foldl addEdge table).get? id).getD [] =
      (table.get? id).getD [] ++ edges.filter fun edge => edge.source = id := by
  induction edges with
  | nil =>
      intro table
      rw [List.foldl_nil, List.filter_nil, List.append_nil]
  | cons edge rest induction =>
      intro table
      rw [List.foldl_cons, induction, addEdge, Table.get?_insert]
      by_cases own : edge.source = id
      · rw [if_pos own, List.filter_cons_of_pos (by simpa using own), own, Option.getD_some,
          List.append_assoc, List.singleton_append]
      · rw [if_neg own, List.filter_cons_of_neg (by simpa using own)]

theorem outgoing_ofFlow (flow : Flow) (id : String) :
    (ofFlow flow).outgoing id = flow.edges.filter fun edge => edge.source = id :=
  outgoing_foldl_addEdge id flow.edges .empty

theorem findEdge?_ofFlow (flow : Flow) (id : String) (outlet : Outlet) :
    (ofFlow flow).findEdge? id outlet = flow.findEdge? id outlet := by
  rw [findEdge?, outgoing_ofFlow, List.find?_filter, Flow.findEdge?]
  simp

end Graph

/-! ## Ends of handles -/

namespace Outlet

def EndsBehindSeparator (text ending : List Char) : Prop :=
  ∃ front separator, text = front ++ separator :: ending ∧ isSeparator separator

theorem endsIn_iff (key handle : List Char) :
    endsIn key handle ↔ handle = key ∨ EndsBehindSeparator handle key := by
  rw [endsIn, Bool.and_eq_true, List.isSuffixOf_iff_suffix]
  constructor
  · rintro ⟨⟨front, equal⟩, separated⟩
    subst equal
    rw [List.length_append, Nat.add_sub_cancel, List.take_left] at separated
    rcases List.eq_nil_or_concat front with empty | ⟨before, separator, split⟩
    · rw [empty, List.nil_append]
      exact .inl rfl
    · subst split
      rw [List.concat_eq_append, List.getLast?_concat, Option.all_some] at separated
      exact .inr ⟨before, separator, by simp, separated⟩
  · rintro (equal | ⟨front, separator, equal, separates⟩)
    · subst equal
      simp
    · have split : handle = (front ++ [separator]) ++ key := by simp [equal]
      rw [split, List.length_append, Nat.add_sub_cancel, List.take_left, List.getLast?_concat]
      exact ⟨⟨_, rfl⟩, separates⟩

/-- What a handle ends in that has a key behind a mark without separators. -/
theorem endsIn_marked_iff {mark : List Char} (solid : ∀ letter ∈ mark, ¬ isSeparator letter)
    (key other : List Char) :
    endsIn key (mark ++ '-' :: other) ↔
      key = other ∨ EndsBehindSeparator other key ∨ key = mark ++ '-' :: other := by
  rw [endsIn_iff]
  constructor
  · rintro (whole | ⟨front, separator, equal, separates⟩)
    · exact .inr (.inr whole.symm)
    · rcases List.append_eq_append_iff.mp equal with ⟨rest, split, tail⟩ | ⟨rest, split, tail⟩
      · cases rest with
        | nil => exact .inl (List.cons.inj tail).2.symm
        | cons first rest =>
            exact .inr (.inl ⟨rest, separator, (List.cons.inj tail).2, separates⟩)
      · cases rest with
        | nil => exact .inl (List.cons.inj tail).2
        | cons first rest =>
            -- The separator would be one of the letters of the mark.
            have inside : separator ∈ mark := by
              rw [split, (List.cons.inj tail).1]
              simp
            exact absurd separates (solid separator inside)
  · rintro (same | ⟨front, separator, equal, separates⟩ | whole)
    · exact .inr ⟨mark, '-', by rw [same], by decide⟩
    · exact .inr ⟨mark ++ '-' :: front, separator, by simp [equal], separates⟩
    · exact .inl whole.symm

theorem EndsBehindSeparator.length_lt {text ending : List Char}
    (ends : EndsBehindSeparator text ending) : ending.length < text.length := by
  rcases ends with ⟨front, separator, equal, _⟩
  rw [equal, List.length_append, List.length_cons]
  omega

instance (text ending : List Char) : Decidable (EndsBehindSeparator text ending) :=
  decidable_of_iff (endsIn ending text ∧ text ≠ ending) (by
    rw [endsIn_iff]
    constructor
    · rintro ⟨equal | ends, different⟩
      · exact absurd equal different
      · exact ends
    · intro ends
      exact ⟨.inr ends, fun equal => absurd ends.length_lt (by rw [equal]; exact Nat.lt_irrefl _)⟩)

example : EndsBehindSeparator "dark-red".toList "red".toList := by decide
example : ¬ EndsBehindSeparator "infrared".toList "red".toList := by decide

end Outlet

/-! ## Letters of label keys -/

namespace Text

theorem isLower_iff (character : Char) :
    character.isLower ↔ 0x61 ≤ character.toNat ∧ character.toNat ≤ 0x7a := by
  have bounds : character.isLower ↔ character.val ≥ 'a'.val ∧ character.val ≤ 'z'.val :=
    Bool.and_eq_true_iff.trans (and_congr decide_eq_true_iff decide_eq_true_iff)
  exact bounds.trans (and_congr UInt32.le_iff_toNat_le UInt32.le_iff_toNat_le)

theorem not_isLower_expansions : ∀ entry ∈ caseExpansions, ∀ code ∈ entry.2,
    ¬ (Char.ofNat code).isLower := by
  decide +kernel

theorem shift_outside_lower : ∀ run ∈ caseRuns,
    0x7a < (run.first : Int) + run.shift ∨ (run.last : Int) + run.shift < 0x61 := by
  decide +kernel

theorem toNat_ofNat_eq (code : Nat) :
    (Char.ofNat code).toNat = code ∨ (Char.ofNat code).toNat = 0 := by
  by_cases valid : code.isValidChar
  · exact .inl (congrArg Char.toNat (dif_pos valid))
  · exact .inr (congrArg Char.toNat (dif_neg valid))

theorem not_isLower_of_mem_upperChar {character result : Char}
    (member : result ∈ upperChar character) : ¬ result.isLower := by
  rw [upperChar] at member
  cases expanded : caseExpansions.find? (fun entry => entry.1 == character.toNat) with
  | some entry =>
      simp only [expanded] at member
      rcases List.mem_map.mp member with ⟨code, inside, equal⟩
      exact equal ▸ not_isLower_expansions entry (List.mem_of_find?_eq_some expanded) code inside
  | none =>
      simp only [expanded] at member
      cases shifted : caseRuns.find? (fun run => run.covers character.toNat) with
      | some run =>
          simp only [shifted, List.mem_singleton] at member
          have covered := List.find?_some shifted
          have outside := shift_outside_lower run (List.mem_of_find?_eq_some shifted)
          simp only [CaseRun.covers, Bool.and_eq_true, decide_eq_true_eq] at covered
          rw [member, isLower_iff]
          rcases toNat_ofNat_eq ((character.toNat : Int) + run.shift).toNat with same | zero <;>
            omega
      | none =>
          simp only [shifted, List.mem_singleton] at member
          -- The letters `a` to `z` are covered by the first run.
          have uncovered := List.find?_eq_none.mp shifted _ List.mem_cons_self
          rw [member, isLower_iff]
          simp only [CaseRun.covers, Bool.and_eq_true, decide_eq_true_eq] at uncovered
          intro lower
          exact uncovered ⟨lower, by simp [Nat.mod_one]⟩

theorem not_isLower_of_mem_labelKey {label : String} {character : Char}
    (member : character ∈ (labelKey label).toList) : ¬ character.isLower := by
  rw [labelKey, String.toList_ofList] at member
  rcases List.mem_map.mp member with ⟨upper, inside, equal⟩
  rcases List.mem_flatMap.mp inside with ⟨original, _, inside⟩
  by_cases blank : upper = ' '
  · rw [if_pos blank] at equal
    rw [← equal]
    decide
  · rw [if_neg blank] at equal
    exact equal ▸ not_isLower_of_mem_upperChar inside

end Text

/-! ## Declared outlets -/

namespace Outlet

/-- What stands in front of the key of an outlet in the handles of its edges. -/
def mark : Outlet → String
  | .named _ => ""
  | .option _ => "option-"
  | .label _ => "branch-"

def handle (outlet : Outlet) : String :=
  outlet.mark ++ outlet.key

end Outlet

def Kind.declaredOutlets : Kind → List Outlet
  | .sendButtons prompt => prompt.buttons.map fun button => .option button.id
  | .sendList prompt => prompt.rows.map fun row => .option row.id
  | .conditionalBranch choice => choice.paths.map fun path => .label path.label
  | _ => []

def Kind.declares : Kind → Bool
  | .sendButtons _ | .sendList _ | .conditionalBranch _ => true
  | _ => false

namespace Kind

/-- No handle of a declared outlet ends in the key of another outlet: the keys are different, none
of them stands at the end of another one behind a separator, and none at the end of
`no-response`. -/
structure Unambiguous (kind : Kind) : Prop where
  distinct : (kind.declaredOutlets.map Outlet.key).Nodup
  separate : ∀ outlet ∈ kind.declaredOutlets, ∀ other ∈ kind.declaredOutlets,
    ¬ Outlet.EndsBehindSeparator other.key.toList outlet.key.toList
  replies : ∀ id, .option id ∈ kind.declaredOutlets → id ≠ "response" ∧ id ≠ "no-response"

variable {kind : Kind} {outlet other : Outlet}

theorem declaredOutlets_uniform (kind : Kind) :
    (∀ outlet ∈ kind.declaredOutlets, ∃ id, outlet = .option id) ∨
      ∀ outlet ∈ kind.declaredOutlets, ∃ text, outlet = .label text := by
  cases kind with
  | sendButtons prompt =>
      refine .inl fun outlet member => ?_
      rcases List.mem_map.mp member with ⟨button, _, equal⟩
      exact ⟨button.id, equal.symm⟩
  | sendList prompt =>
      refine .inl fun outlet member => ?_
      rcases List.mem_map.mp member with ⟨row, _, equal⟩
      exact ⟨row.id, equal.symm⟩
  | conditionalBranch choice =>
      refine .inr fun outlet member => ?_
      rcases List.mem_map.mp member with ⟨path, _, equal⟩
      exact ⟨path.label, equal.symm⟩
  | _ => exact .inl fun outlet member => absurd member List.not_mem_nil

theorem mem_declaredOutlets_or_eq (declares : kind.declares) (member : outlet ∈ kind.outlets) :
    outlet ∈ kind.declaredOutlets ∨ outlet = .noResponse := by
  cases kind with
  | sendButtons | sendList =>
      rcases List.mem_append.mp member with member | member
      · exact .inl member
      · exact .inr (List.mem_singleton.mp member)
  | conditionalBranch => exact .inl member
  | _ => cases declares

theorem mem_outlets_of_mem_declaredOutlets (member : outlet ∈ kind.declaredOutlets) :
    outlet ∈ kind.outlets := by
  cases kind with
  | sendButtons | sendList => exact List.mem_append_left _ member
  | conditionalBranch => exact member
  | _ => exact absurd member List.not_mem_nil

end Kind

namespace Outlet

section

variable {kind : Kind} {outlet other : Outlet}

theorem accepts_eq_endsIn (member : outlet ∈ kind.declaredOutlets) (handle : String) :
    outlet.accepts handle = endsIn outlet.key.toList handle.toList := by
  rcases kind.declaredOutlets_uniform with uniform | uniform <;>
  · rcases uniform outlet member with ⟨_, rfl⟩
    rfl

theorem mark_eq_mark (member : outlet ∈ kind.declaredOutlets)
    (otherMember : other ∈ kind.declaredOutlets) : outlet.mark = other.mark := by
  rcases kind.declaredOutlets_uniform with uniform | uniform <;>
  · rcases uniform outlet member with ⟨_, rfl⟩
    rcases uniform other otherMember with ⟨_, rfl⟩
    rfl

theorem endsIn_append_iff (stem : String) (solid : stem.toList.any isSeparator = false)
    (key other : String) : endsIn key.toList (stem ++ "-" ++ other).toList ↔
      key = other ∨ EndsBehindSeparator other.toList key.toList ∨ key = stem ++ "-" ++ other := by
  have split : (stem ++ "-" ++ other).toList = stem.toList ++ '-' :: other.toList := by
    simp [String.toList_append]
  rw [← String.toList_inj, ← String.toList_inj, split]
  exact endsIn_marked_iff (List.any_eq_false.mp solid) key.toList other.toList

/-- Within a node, an outlet accepts the handle of another one exactly if one of the keys stands
at the end of the other one. -/
theorem accepts_handle_iff (member : outlet ∈ kind.declaredOutlets)
    (otherMember : other ∈ kind.declaredOutlets) :
    outlet.accepts other.handle ↔ outlet.key = other.key ∨
      EndsBehindSeparator other.key.toList outlet.key.toList ∨ outlet.key = other.handle := by
  rw [accepts_eq_endsIn member]
  rcases kind.declaredOutlets_uniform with uniform | uniform
  · rcases uniform other otherMember with ⟨id, rfl⟩
    exact endsIn_append_iff "option" (by decide) outlet.key id
  · rcases uniform other otherMember with ⟨text, rfl⟩
    exact endsIn_append_iff "branch" (by decide) outlet.key (Text.labelKey text)

theorem accepts_noResponse_iff (member : outlet ∈ kind.declaredOutlets) :
    outlet.accepts "no-response" ↔ outlet.key = "response" ∨ outlet.key = "no-response" := by
  have solid : ¬ EndsBehindSeparator "response".toList outlet.key.toList := by
    rintro ⟨front, separator, equal, separates⟩
    have letters : "response".toList.any isSeparator = false := by decide
    exact List.any_eq_false.mp letters separator (by rw [equal]; simp) separates
  have ends := endsIn_append_iff "no" (by decide) outlet.key "response"
  rw [accepts_eq_endsIn member]
  exact ends.trans (or_congr_right (or_iff_right solid))

theorem endsBehindSeparator_handle (member : outlet ∈ kind.declaredOutlets) :
    EndsBehindSeparator outlet.handle.toList outlet.key.toList := by
  rcases kind.declaredOutlets_uniform with uniform | uniform
  · rcases uniform outlet member with ⟨id, rfl⟩
    exact ⟨"option".toList, '-', by simp [handle, mark, String.toList_append], by decide⟩
  · rcases uniform outlet member with ⟨text, rfl⟩
    exact ⟨"branch".toList, '-', by simp [handle, mark, String.toList_append], by decide⟩

theorem handle_ne_noResponse (member : outlet ∈ kind.declaredOutlets) :
    outlet.handle ≠ "no-response" := by
  intro equal
  have first := congrArg (fun text => text.toList.head?) equal
  rcases kind.declaredOutlets_uniform with uniform | uniform <;>
  · rcases uniform outlet member with ⟨_, rfl⟩
    simp [handle, mark, String.toList_append] at first

theorem key_eq_of_handle_eq (member : outlet ∈ kind.declaredOutlets)
    (otherMember : other ∈ kind.declaredOutlets) (same : outlet.handle = other.handle) :
    outlet.key = other.key := by
  rw [handle, handle, mark_eq_mark member otherMember, ← String.toList_inj, String.toList_append,
    String.toList_append] at same
  exact String.toList_inj.mp (List.append_cancel_left same)

end

end Outlet

/-! ## Own handles -/

namespace Kind

variable {kind : Kind} {outlet other : Outlet}

/-- The key of a label has no lower case, so only an option could take the edge that leads on
without a reply. -/
theorem Unambiguous.accepts_noResponse (unambiguous : kind.Unambiguous)
    (member : outlet ∈ kind.declaredOutlets) : ¬ outlet.accepts "no-response" := by
  rw [Outlet.accepts_noResponse_iff member, not_or]
  rcases kind.declaredOutlets_uniform with uniform | uniform
  · rcases uniform outlet member with ⟨id, rfl⟩
    exact unambiguous.replies id member
  · rcases uniform outlet member with ⟨text, rfl⟩
    have upper : ∀ text' : String, text'.toList.any Char.isLower → Text.labelKey text ≠ text' := by
      intro text' lowers equal
      rcases List.any_eq_true.mp lowers with ⟨letter, inside, lower⟩
      exact Text.not_isLower_of_mem_labelKey (equal ▸ inside) lower
    exact ⟨upper _ (by decide), upper _ (by decide)⟩

/-- Where the keys are unambiguous, an outlet accepts its own handle only. -/
theorem Unambiguous.accepts_iff (unambiguous : kind.Unambiguous) (declares : kind.declares)
    (member : outlet ∈ kind.outlets) {handle : String}
    (used : handle = "no-response" ∨ ∃ other ∈ kind.declaredOutlets, handle = other.handle) :
    outlet.accepts handle ↔ handle = outlet.handle := by
  rcases mem_declaredOutlets_or_eq declares member with member | equal
  · rcases used with noResponse | ⟨other, otherMember, equal⟩
    · rw [noResponse]
      exact iff_of_false (unambiguous.accepts_noResponse member)
        (Outlet.handle_ne_noResponse member).symm
    · rw [equal, Outlet.accepts_handle_iff member otherMember]
      constructor
      · rintro (same | ends | whole)
        · rw [Outlet.handle, Outlet.handle, Outlet.mark_eq_mark member otherMember, same]
        · exact absurd ends (unambiguous.separate outlet member other otherMember)
        · -- The other key would stand at the end of this one.
          have ends := Outlet.endsBehindSeparator_handle otherMember
          rw [← whole] at ends
          exact absurd ends (unambiguous.separate other otherMember outlet member)
      · exact fun same => .inl (Outlet.key_eq_of_handle_eq otherMember member same).symm
  · rw [equal]
    exact decide_eq_true_iff

end Kind

/-! ## Own edges -/

/-- The edges that leave a node as a designer would draw them: each has the handle of a declared
outlet or leads on without a reply, and no handle is used twice. -/
structure Flow.Drawn (flow : Flow) (node : Node) : Prop where
  used : ∀ edge ∈ flow.edges, edge.source = node.id → edge.sourceHandle = "no-response" ∨
    ∃ outlet ∈ node.kind.declaredOutlets, edge.sourceHandle = outlet.handle
  single : ∀ edge ∈ flow.edges, ∀ other ∈ flow.edges, edge.source = node.id →
    other.source = node.id → edge.sourceHandle = other.sourceHandle → edge = other

namespace Flow

variable {flow : Flow} {node : Node} {outlet other : Outlet} {edge : Edge}

theorem findEdge?_eq_some_iff (drawn : flow.Drawn node) (declares : node.kind.declares)
    (unambiguous : node.kind.Unambiguous) (member : outlet ∈ node.kind.outlets) :
    flow.findEdge? node.id outlet = some edge ↔
      edge ∈ flow.edges ∧ edge.source = node.id ∧ edge.sourceHandle = outlet.handle := by
  have own : ∀ edge ∈ flow.edges, edge.source = node.id →
      (outlet.accepts edge.sourceHandle ↔ edge.sourceHandle = outlet.handle) :=
    fun edge isEdge leaves =>
      unambiguous.accepts_iff declares member (drawn.used edge isEdge leaves)
  have sound : ∀ found, flow.findEdge? node.id outlet = some found →
      found ∈ flow.edges ∧ found.source = node.id ∧ found.sourceHandle = outlet.handle := by
    intro found isFound
    have isEdge := List.mem_of_find?_eq_some isFound
    have accepted := List.find?_some isFound
    simp only [Bool.and_eq_true, decide_eq_true_eq] at accepted
    exact ⟨isEdge, accepted.1, (own found isEdge accepted.1).mp accepted.2⟩
  constructor
  · exact sound edge
  · rintro ⟨isEdge, leaves, handle⟩
    -- Some edge is found, and there is only one with this handle.
    have isSome : (flow.findEdge? node.id outlet).isSome := by
      refine List.find?_isSome.mpr ⟨edge, isEdge, ?_⟩
      simp only [Bool.and_eq_true, decide_eq_true_eq]
      exact ⟨leaves, (own edge isEdge leaves).mpr handle⟩
    rcases Option.isSome_iff_exists.mp isSome with ⟨found, isFound⟩
    rcases sound found isFound with ⟨otherEdge, otherLeaves, otherHandle⟩
    rw [isFound, drawn.single found otherEdge edge isEdge otherLeaves leaves
      (otherHandle.trans handle.symm)]

theorem outlet_eq_of_handle_eq (declares : node.kind.declares)
    (unambiguous : node.kind.Unambiguous) (member : outlet ∈ node.kind.outlets)
    (otherMember : other ∈ node.kind.outlets) (same : outlet.handle = other.handle) :
    outlet = other := by
  rcases Kind.mem_declaredOutlets_or_eq declares member with member | equal
  · rcases Kind.mem_declaredOutlets_or_eq declares otherMember with otherMember | otherEqual
    · exact List.inj_on_of_nodup_map unambiguous.distinct member otherMember
        (Outlet.key_eq_of_handle_eq member otherMember same)
    · rw [otherEqual] at same
      exact absurd same (Outlet.handle_ne_noResponse member)
  · rcases Kind.mem_declaredOutlets_or_eq declares otherMember with otherMember | otherEqual
    · rw [equal] at same
      exact absurd same.symm (Outlet.handle_ne_noResponse otherMember)
    · rw [equal, otherEqual]

end Flow

/-- Where the keys of a node are unambiguous and its edges are drawn with the handles of its
outlets, every outlet finds exactly the edge with its own handle, in the flow and in its graph. No
edge is found by two outlets, and no declared outlet takes the edge for a missing reply. -/
theorem outlets_find_own_edges {flow : Flow} {node : Node} (declares : node.kind.declares)
    (unambiguous : node.kind.Unambiguous) (drawn : flow.Drawn node) :
    (∀ outlet ∈ node.kind.outlets,
      (∀ edge, flow.findEdge? node.id outlet = some edge ↔
        edge ∈ flow.edges ∧ edge.source = node.id ∧ edge.sourceHandle = outlet.handle) ∧
      (Graph.ofFlow flow).findEdge? node.id outlet = flow.findEdge? node.id outlet) ∧
    (∀ outlet ∈ node.kind.outlets, ∀ other ∈ node.kind.outlets, ∀ edge,
      flow.findEdge? node.id outlet = some edge → flow.findEdge? node.id other = some edge →
        outlet = other) ∧
    ∀ outlet ∈ node.kind.declaredOutlets, ∀ edge,
      flow.findEdge? node.id outlet = some edge → edge.sourceHandle ≠ "no-response" := by
  have finds : ∀ outlet ∈ node.kind.outlets, ∀ edge,
      flow.findEdge? node.id outlet = some edge ↔
        edge ∈ flow.edges ∧ edge.source = node.id ∧ edge.sourceHandle = outlet.handle :=
    fun outlet member edge => Flow.findEdge?_eq_some_iff drawn declares unambiguous member
  refine ⟨fun outlet member => ⟨finds outlet member, Graph.findEdge?_ofFlow flow node.id outlet⟩,
    ?_, ?_⟩
  · intro outlet member other otherMember edge found otherFound
    have handle := ((finds outlet member edge).mp found).2.2
    have otherHandle := ((finds other otherMember edge).mp otherFound).2.2
    exact Flow.outlet_eq_of_handle_eq declares unambiguous member otherMember
      (handle.symm.trans otherHandle)
  · intro outlet member edge found
    have own := ((finds outlet (Kind.mem_outlets_of_mem_declaredOutlets member) edge).mp found).2.2
    rw [own]
    exact Outlet.handle_ne_noResponse member

/-! ## Menus -/

def menuPrompt (ids : List String) : ButtonPrompt :=
  ⟨"Colour?", ids.map fun id => ⟨id, "Choose " ++ id⟩, none, false⟩

def menuExport (ids : List String) : FlowExport where
  flowId := "menu"
  title := "Menu"
  organisationId := "shop"
  branchId := "north"
  nodes := [
    ⟨"start", "trigger", .object []⟩,
    ⟨"menu", "sendButtons", (menuPrompt ids).toJson⟩,
    ⟨"end", "sendText", .object [("message", .string "Bye")]⟩]
  edges := [
    ⟨"begin", "start", "menu", none⟩,
    ⟨"silent", "menu", "end", some "no-response"⟩] ++
    ids.map fun id => ⟨"chosen " ++ id, "menu", "end", some ("option-" ++ id)⟩

def menuNode (ids : List String) : Node :=
  ⟨"menu", "sendButtons", .sendButtons (menuPrompt ids)⟩

def menuFlow (ids : List String) : Flow where
  flowId := "menu"
  title := "Menu"
  organisationId := "shop"
  branchId := "north"
  nodes := [
    ⟨"start", "trigger", .trigger ⟨none⟩⟩,
    menuNode ids,
    ⟨"end", "sendText", .sendText ⟨"Bye", false, none, none⟩⟩]
  edges := [
    ⟨"begin", "start", "menu", "next-step"⟩,
    ⟨"silent", "menu", "end", "no-response"⟩] ++
    ids.map fun id => ⟨"chosen " ++ id, "menu", "end", "option-" ++ id⟩

/-- Where ids are neither ends of each other nor of the handle for a missing reply, every button
finds its own edge, although `1` is the last letter of `11`. -/
theorem outlets_find_own_edges_menu :
    (menuFlow ["11", "1"]).findEdge? "menu" (.option "1") =
      some ⟨"chosen 1", "menu", "end", "option-1"⟩ := by
  have unambiguous : (menuNode ["11", "1"]).kind.Unambiguous := by
    refine ⟨by decide, by decide, fun id member => ?_⟩
    have cases : id = "11" ∨ id = "1" := by
      simpa [menuNode, menuPrompt, Kind.declaredOutlets] using member
    rcases cases with rfl | rfl <;> decide
  have drawn : (menuFlow ["11", "1"]).Drawn (menuNode ["11", "1"]) := ⟨by decide, by decide⟩
  have found := (outlets_find_own_edges (by decide) unambiguous drawn).1 (.option "1") (by decide)
  exact (found.1 _).mpr (by decide)

/-- Different ids are not enough: `red` takes the edge of `dark-red` and `response` the one for a
missing reply, though all of these buttons have edges of their own. -/
theorem outlets_take_other_edges :
    Flow.ofExport .empty (menuExport ["dark-red", "red", "response"]) =
        .ok (menuFlow ["dark-red", "red", "response"]) ∧
      ∃ node ∈ (menuFlow ["dark-red", "red", "response"]).nodes,
        node.kind.declares ∧ (node.kind.declaredOutlets.map Outlet.key).Nodup ∧
        (menuFlow ["dark-red", "red", "response"]).Drawn node ∧
        .option "red" ∈ node.kind.outlets ∧ .option "response" ∈ node.kind.outlets ∧
        (menuFlow ["dark-red", "red", "response"]).findEdge? node.id (.option "red") =
          some ⟨"chosen dark-red", "menu", "end", "option-dark-red"⟩ ∧
        (Graph.ofFlow (menuFlow ["dark-red", "red", "response"])).findEdge? node.id
            (.option "red") = some ⟨"chosen dark-red", "menu", "end", "option-dark-red"⟩ ∧
        (menuFlow ["dark-red", "red", "response"]).findEdge? node.id (.option "response") =
          some ⟨"silent", "menu", "end", "no-response"⟩ :=
  ⟨by decide +kernel, menuNode ["dark-red", "red", "response"], by decide +kernel, by decide,
    by decide, ⟨by decide, by decide⟩, by decide, by decide, by decide, by decide +kernel,
    by decide⟩

end FlowCompiler
