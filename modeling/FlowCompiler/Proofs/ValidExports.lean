import FlowCompiler.Flow.Loader
import FlowCompiler.Proofs.Defects
import FlowCompiler.Proofs.TableEntries
import FlowCompiler.Proofs.Unfolding
import Mathlib.Data.List.Forall2
import Mathlib.Data.List.TakeWhile

namespace FlowCompiler

/-! Which exports are flows. An export can be loaded exactly if it is valid, the flow then keeps
its nodes and edges in their order, and of an export that is not valid the first defect is
reported: nodes come before the number of triggers, and the number of triggers before edges. -/

/-! ## Types and aliases -/

/-- The type that a type name stands for: what the last alias of this name says, or else the name
itself. What an alias says is not looked up again. -/
def typeBehind (aliases : List (String × String)) (name : String) : String :=
  ((aliases.reverse.find? fun entry => entry.1 = name).map Prod.snd).getD name

theorem Table.get?_insertAll {α : Type} (entries : List (String × α)) (key : String) :
    ∀ table : Table α, (table.insertAll entries).get? key =
      ((entries.reverse.find? fun entry => entry.1 = key).map Prod.snd).or (table.get? key) := by
  induction entries with
  | nil => intro table; rfl
  | cons first rest induction =>
      intro table
      have step : table.insertAll (first :: rest) =
          (table.insert first.1 first.2).insertAll rest := rfl
      rw [step, induction, get?_insert, List.reverse_cons, List.find?_append]
      cases found : rest.reverse.find? fun entry => entry.1 = key with
      | some entry => rfl
      | none => by_cases same : first.1 = key <;> simp [same]

theorem Loader.resolve_ofList (aliases : List (String × String)) (name : String) :
    resolve (.ofList aliases) name = typeBehind aliases name := by
  rw [resolve, Table.ofList, Table.get?_insertAll, typeBehind]
  simp [Table.get?, Table.empty, Entries.get?]

/-- Only settings of the type `trigger` make a trigger. -/
theorem Kind.isTrigger_of_decode {typeName : String} {data : Json} {kind : Kind}
    (decoded : Kind.decode typeName data = .ok kind) :
    kind.isTrigger = decide (typeName = "trigger") := by
  rw [Kind.decode.eq_def] at decoded
  split at decoded
  all_goals
    first
    | cases decoded
      rfl
    | obtain ⟨payload, _, equal⟩ := bind_eq_ok decoded
      cases equal
      rfl
    | cases decoded
      exact (decide_eq_false ‹typeName = "trigger" → False›).symm

/-! ## Defects of settings -/

def Text.IsMarked (text : String) : Prop :=
  ∃ character ∈ text.toList, ¬ isBlank character

theorem Text.isBlankText_iff {text : String} : isBlankText text ↔ ¬ IsMarked text := by
  simp only [IsMarked, not_exists, not_and, not_not]
  rw [isBlankText, trimChars, List.isEmpty_iff, List.reverse_eq_nil_iff, List.dropWhile_eq_nil_iff]
  constructor
  · intro behind character member
    by_contra mark
    -- What is left behind the leading blanks begins with a character that is no blank.
    have left : text.toList.dropWhile isBlank ≠ [] := by
      rw [Ne, List.dropWhile_eq_nil_iff]
      exact fun blank => mark (blank character member)
    have first := List.head_dropWhile_not isBlank left
    rw [behind _ (List.mem_reverse.mpr (List.head_mem left))] at first
    cases first
  · intro blank character member
    exact blank character ((List.dropWhile_sublist _).subset (List.mem_reverse.mp member))

/-- What settings lack, kind by kind: every list of choices needs a choice, and choices, subflows
and variables need names. -/
inductive Kind.Lacks : Kind → Defect → Prop where
  | buttons {prompt : ButtonPrompt} (none : prompt.buttons = []) :
      Lacks (.sendButtons prompt) .noButtons
  | buttonId {prompt : ButtonPrompt} {button : Button} (listed : button ∈ prompt.buttons)
      (blank : ¬ Text.IsMarked button.id) : Lacks (.sendButtons prompt) .blankButtonId
  | rows {prompt : ListPrompt} (none : prompt.rows = []) : Lacks (.sendList prompt) .noRows
  | rowId {prompt : ListPrompt} {row : ListRow} (listed : row ∈ prompt.rows)
      (blank : ¬ Text.IsMarked row.id) : Lacks (.sendList prompt) .blankRowId
  | paths {choice : BranchChoice} (none : choice.paths = []) :
      Lacks (.conditionalBranch choice) .noPaths
  | pathLabel {choice : BranchChoice} {path : BranchPath} (listed : path ∈ choice.paths)
      (blank : ¬ Text.IsMarked path.label) : Lacks (.conditionalBranch choice) .blankPathLabel
  | subflowId {call : Subflow} (blank : ¬ Text.IsMarked call.subflowId) :
      Lacks (.subflow call) .blankSubflowId
  | variableName {save : SaveVariable} (blank : ¬ Text.IsMarked save.variableName) :
      Lacks (.saveVariable save) .blankVariableName

theorem Kind.choiceDefect?_eq_some_iff {names : List String} {none blank defect : Defect} :
    choiceDefect? names none blank = some defect ↔
      (names = [] ∧ none = defect) ∨ (∃ name ∈ names, ¬ Text.IsMarked name) ∧ blank = defect := by
  rw [choiceDefect?]
  cases names with
  | nil => simp
  | cons first rest => simp [← Text.isBlankText_iff]

theorem Kind.defect?_eq_some_iff {kind : Kind} {defect : Defect} :
    kind.defect? = some defect ↔ kind.Lacks defect := by
  constructor
  · intro found
    cases kind with
    | sendButtons prompt =>
        obtain ⟨none, rfl⟩ | ⟨⟨name, member, blank⟩, rfl⟩ := choiceDefect?_eq_some_iff.mp found
        · exact .buttons (List.map_eq_nil_iff.mp none)
        · obtain ⟨button, listed, rfl⟩ := List.mem_map.mp member
          exact .buttonId listed blank
    | sendList prompt =>
        obtain ⟨none, rfl⟩ | ⟨⟨name, member, blank⟩, rfl⟩ := choiceDefect?_eq_some_iff.mp found
        · exact .rows (List.map_eq_nil_iff.mp none)
        · obtain ⟨row, listed, rfl⟩ := List.mem_map.mp member
          exact .rowId listed blank
    | conditionalBranch choice =>
        obtain ⟨none, rfl⟩ | ⟨⟨name, member, blank⟩, rfl⟩ := choiceDefect?_eq_some_iff.mp found
        · exact .paths (List.map_eq_nil_iff.mp none)
        · obtain ⟨path, listed, rfl⟩ := List.mem_map.mp member
          exact .pathLabel listed blank
    | subflow call =>
        rw [defect?] at found
        split at found
        · cases found
          exact .subflowId (Text.isBlankText_iff.mp ‹_›)
        · cases found
    | saveVariable save =>
        rw [defect?] at found
        split at found
        · cases found
          exact .variableName (Text.isBlankText_iff.mp ‹_›)
        · cases found
    | _ => cases found
  · intro lacks
    cases lacks with
    | buttons none => exact choiceDefect?_eq_some_iff.mpr (.inl ⟨by simp [none], rfl⟩)
    | buttonId listed blank =>
        exact choiceDefect?_eq_some_iff.mpr (.inr ⟨⟨_, List.mem_map_of_mem listed, blank⟩, rfl⟩)
    | rows none => exact choiceDefect?_eq_some_iff.mpr (.inl ⟨by simp [none], rfl⟩)
    | rowId listed blank =>
        exact choiceDefect?_eq_some_iff.mpr (.inr ⟨⟨_, List.mem_map_of_mem listed, blank⟩, rfl⟩)
    | paths none => exact choiceDefect?_eq_some_iff.mpr (.inl ⟨by simp [none], rfl⟩)
    | pathLabel listed blank =>
        exact choiceDefect?_eq_some_iff.mpr (.inr ⟨⟨_, List.mem_map_of_mem listed, blank⟩, rfl⟩)
    | subflowId blank => simp [defect?, Text.isBlankText_iff.mpr blank]
    | variableName blank => simp [defect?, Text.isBlankText_iff.mpr blank]

theorem Kind.defect?_eq_none_iff {kind : Kind} :
    kind.defect? = none ↔ ∀ defect, ¬ kind.Lacks defect := by
  simp only [← defect?_eq_some_iff, Option.eq_none_iff_forall_ne_some, ne_eq]

/-! ## Nodes -/

namespace ExportedNode

variable (aliases : List (String × String)) (exported : ExportedNode)

def type : String :=
  typeBehind aliases exported.typeName

def HasKind (kind : Kind) : Prop :=
  Kind.decode (exported.type aliases) (Loader.data exported) = .ok kind ∧
    ∀ defect, ¬ kind.Lacks defect

def Refused : SettingsError → Prop
  | .undecodable error =>
      Kind.decode (exported.type aliases) (Loader.data exported) = .error error
  | .defective defect => ∃ kind,
      Kind.decode (exported.type aliases) (Loader.data exported) = .ok kind ∧ kind.Lacks defect

structure Becomes (node : Node) : Prop where
  id : node.id = exported.id
  title : node.title = Loader.title (exported.type aliases) (Loader.data exported)
  kind : exported.HasKind aliases node.kind

structure Sound (nodes : List ExportedNode) : Prop where
  distinct : (nodes.map ExportedNode.id).Nodup
  readable : ∀ node ∈ nodes, ∃ kind, node.HasKind aliases kind

variable {aliases exported}

theorem kind_eq_ok {kind : Kind} (has : exported.HasKind aliases kind) :
    Loader.kind (exported.type aliases) (Loader.data exported) = .ok kind := by
  rw [Loader.kind, has.1]
  simp only [Kind.defect?_eq_none_iff.mpr has.2]

theorem kind_eq_error {error : SettingsError} (refused : exported.Refused aliases error) :
    Loader.kind (exported.type aliases) (Loader.data exported) = .error error := by
  cases error with
  | undecodable error =>
      rw [Refused] at refused
      rw [Loader.kind, refused]
  | defective defect =>
      obtain ⟨kind, decoded, lacks⟩ := refused
      rw [Loader.kind, decoded]
      simp only [Kind.defect?_eq_some_iff.mpr lacks]

theorem exists_refused (refused : ¬ ∃ kind, exported.HasKind aliases kind) :
    ∃ error, exported.Refused aliases error := by
  cases decoded : Kind.decode (exported.type aliases) (Loader.data exported) with
  | error error => exact ⟨.undecodable error, decoded⟩
  | ok kind =>
      by_contra none
      apply refused
      exact ⟨kind, decoded, fun defect lacks => none ⟨.defective defect, kind, decoded, lacks⟩⟩

theorem node_eq_ok {node : Node} (becomes : exported.Becomes aliases node) :
    Loader.node (.ofList aliases) exported = .ok node := by
  have kind := kind_eq_ok becomes.kind
  rw [type] at kind
  simp only [Loader.node, Loader.resolve_ofList, kind]
  rw [← becomes.id, ← type, ← becomes.title]

theorem node_eq_error {error : SettingsError} (refused : exported.Refused aliases error) :
    Loader.node (.ofList aliases) exported =
      .error (.invalidNodeData exported.id (exported.type aliases) error) := by
  have kind := kind_eq_error refused
  rw [type] at kind
  simp only [Loader.node, Loader.resolve_ofList, kind]
  rfl

/-- Sound nodes are taken over one by one, and only add their ids to those that are taken. -/
theorem Sound.exists_nodes {before : List ExportedNode} (sound : Sound aliases before) :
    ∀ seen : List String, (∀ node ∈ before, node.id ∉ seen) →
      ∃ nodes, List.Forall₂ (Becomes aliases) before nodes ∧
        ∀ rest, Loader.nodes (.ofList aliases) seen (before ++ rest) =
          (nodes ++ ·) <$>
            Loader.nodes (.ofList aliases) ((before.map ExportedNode.id).reverse ++ seen) rest := by
  induction before with
  | nil =>
      intro seen fresh
      exact ⟨[], .nil, fun rest => (id_map _).symm⟩
  | cons first others induction =>
      intro seen fresh
      have distinct := List.nodup_cons.mp sound.distinct
      have behind : Sound aliases others :=
        ⟨distinct.2, fun node member => sound.readable node (by simp [member])⟩
      obtain ⟨nodes, becomes, equal⟩ := induction behind (first.id :: seen) (by
        intro node member taken
        cases List.mem_cons.mp taken with
        | inl same => exact distinct.1 (same ▸ List.mem_map_of_mem member)
        | inr taken => exact fresh node (by simp [member]) taken)
      obtain ⟨kind, has⟩ := sound.readable first (by simp)
      have becomesFirst : first.Becomes aliases
          ⟨first.id, Loader.title (first.type aliases) (Loader.data first), kind⟩ := ⟨rfl, rfl, has⟩
      refine ⟨_ :: nodes, .cons becomesFirst becomes, ?_⟩
      intro rest
      rw [List.cons_append, Loader.nodes, if_neg (fresh first (by simp)), node_eq_ok becomesFirst]
      simp only [equal, List.map_cons, List.reverse_cons, List.append_assoc, List.singleton_append]
      cases Loader.nodes (.ofList aliases) _ rest <;> rfl

/-- Nodes that are not sound have a first one that is at fault. -/
theorem exists_fault_of_not_sound {nodes : List ExportedNode} (broken : ¬ Sound aliases nodes) :
    ∃ before node after, nodes = before ++ node :: after ∧ Sound aliases before ∧
      (node.id ∈ before.map ExportedNode.id ∨ ¬ ∃ kind, node.HasKind aliases kind) := by
  have fails : ¬ ((nodes.map ExportedNode.id).Nodup ∧
      ∀ node ∈ nodes, ∃ kind, node.HasKind aliases kind) :=
    fun sound => broken ⟨sound.1, sound.2⟩
  obtain ⟨before, node, after, place, sound, fault⟩ :=
    exists_first_taken_or_failing ExportedNode.id fails
  exact ⟨before, node, after, place, ⟨sound.1, sound.2⟩, fault⟩

theorem ids_of_becomes {exported : List ExportedNode} {nodes : List Node}
    (becomes : List.Forall₂ (Becomes aliases) exported nodes) :
    nodes.map Node.id = exported.map ExportedNode.id := by
  induction becomes with
  | nil => rfl
  | cons first _ induction => rw [List.map_cons, List.map_cons, first.id, induction]

def isTrigger (aliases : List (String × String)) (exported : ExportedNode) : Bool :=
  exported.type aliases = "trigger"

theorem triggers_of_becomes {exported : List ExportedNode} {nodes : List Node}
    (becomes : List.Forall₂ (Becomes aliases) exported nodes) :
    (nodes.countP fun node => node.kind.isTrigger) = exported.countP (isTrigger aliases) := by
  induction becomes with
  | nil => rfl
  | cons first _ induction =>
      have same := Kind.isTrigger_of_decode first.kind.1
      rw [List.countP_cons, List.countP_cons, induction, same]
      rfl

end ExportedNode

/-! ## Edges -/

namespace ExportedEdge

/-- The edge at a place in the list: without an id it is called after its place, and without a
handle it leaves through the next step. -/
def edgeAt (index : Nat) (exported : ExportedEdge) : Edge where
  id := if exported.id = "" then "edge-" ++ toString index else exported.id
  source := exported.source
  target := exported.target
  sourceHandle := exported.sourceHandle.getD "next-step"

def Connects (ids : List String) (exported : ExportedEdge) : Prop :=
  exported.source ∈ ids ∧ exported.target ∈ ids

variable {ids : List String}

theorem edgeId_eq (index : Nat) (exported : ExportedEdge) :
    Loader.edgeId index exported = (exported.edgeAt index).id := by
  rw [Loader.edgeId, edgeAt]
  simp only [String.isEmpty_iff]

theorem edge_eq_ok {index : Nat} {exported : ExportedEdge} (connects : exported.Connects ids) :
    Loader.edge ids index exported = .ok (exported.edgeAt index) := by
  rw [Loader.edge, if_neg (not_not.mpr connects.1), if_neg (not_not.mpr connects.2), edgeId_eq]
  rfl

theorem edges_append {before : List ExportedEdge} (rest : List ExportedEdge) :
    ∀ index : Nat, (∀ edge ∈ before, edge.Connects ids) →
      Loader.edges ids index (before ++ rest) =
        (before.mapIdx (fun place edge => edge.edgeAt (index + place)) ++ ·) <$>
          Loader.edges ids (index + before.length) rest := by
  induction before with
  | nil =>
      intro index connects
      exact (id_map _).symm
  | cons first others induction =>
      intro index connects
      rw [List.cons_append, Loader.edges, edge_eq_ok (connects first (by simp)),
        List.mapIdx_cons, List.length_cons]
      have behind := induction (index + 1) fun edge member =>
        connects edge (by simp [member])
      simp only [behind, Nat.add_zero, Nat.add_assoc, Nat.add_comm 1]
      cases Loader.edges ids _ rest <;> rfl

end ExportedEdge

/-! ## Exports -/

namespace FlowExport

variable (aliases : List (String × String)) (exported : FlowExport)

def ids : List String :=
  exported.nodes.map ExportedNode.id

def triggers : Nat :=
  exported.nodes.countP (ExportedNode.isTrigger aliases)

structure Valid : Prop where
  distinct : exported.ids.Nodup
  readable : ∀ node ∈ exported.nodes, ∃ kind, node.HasKind aliases kind
  single : exported.triggers aliases = 1
  connected : ∀ edge ∈ exported.edges, edge.Connects exported.ids

inductive FirstDefect : LoadError → Prop where
  | duplicate {before after : List ExportedNode} {node : ExportedNode}
      (place : exported.nodes = before ++ node :: after)
      (sound : ExportedNode.Sound aliases before)
      (taken : node.id ∈ before.map ExportedNode.id) : FirstDefect (.duplicateNodeId node.id)
  | invalid {before after : List ExportedNode} {node : ExportedNode} {error : SettingsError}
      (place : exported.nodes = before ++ node :: after)
      (sound : ExportedNode.Sound aliases before)
      (fresh : node.id ∉ before.map ExportedNode.id) (refused : node.Refused aliases error) :
      FirstDefect (.invalidNodeData node.id (node.type aliases) error)
  | noTrigger (sound : ExportedNode.Sound aliases exported.nodes)
      (none : exported.triggers aliases = 0) : FirstDefect (.missingTrigger exported.flowId)
  | manyTriggers (sound : ExportedNode.Sound aliases exported.nodes)
      (many : 1 < exported.triggers aliases) :
      FirstDefect (.multipleTriggers exported.flowId (exported.triggers aliases))
  | noSource {before after : List ExportedEdge} {edge : ExportedEdge}
      (sound : ExportedNode.Sound aliases exported.nodes)
      (single : exported.triggers aliases = 1)
      (place : exported.edges = before ++ edge :: after)
      (connected : ∀ earlier ∈ before, earlier.Connects exported.ids)
      (source : edge.source ∉ exported.ids) :
      FirstDefect (.danglingEdge (edge.edgeAt before.length).id edge.source)
  | noTarget {before after : List ExportedEdge} {edge : ExportedEdge}
      (sound : ExportedNode.Sound aliases exported.nodes)
      (single : exported.triggers aliases = 1)
      (place : exported.edges = before ++ edge :: after)
      (connected : ∀ earlier ∈ before, earlier.Connects exported.ids)
      (source : edge.source ∈ exported.ids) (target : edge.target ∉ exported.ids) :
      FirstDefect (.danglingEdge (edge.edgeAt before.length).id edge.target)

def resolved : FlowExport :=
  { exported with
    nodes := exported.nodes.map fun node => { node with typeName := node.type aliases } }

structure Keeps (flow : Flow) : Prop where
  nodes : List.Forall₂ (ExportedNode.Becomes aliases) exported.nodes flow.nodes
  edges : flow.edges = exported.edges.mapIdx ExportedEdge.edgeAt
  flowId : flow.flowId = exported.flowId
  title : flow.title = exported.title
  organisationId : flow.organisationId = exported.organisationId
  branchId : flow.branchId = exported.branchId

variable {aliases exported}

theorem checkTriggers_eq {flowId : String} {nodes : List Node} {count : Nat}
    (counted : (nodes.countP fun node => node.kind.isTrigger) = count) :
    Loader.checkTriggers flowId nodes =
      if count = 0 then .error (.missingTrigger flowId)
      else if count = 1 then .ok () else .error (.multipleTriggers flowId count) := by
  rw [Loader.checkTriggers, counted]
  split <;> simp_all

/-- The nodes of an export are read in front of everything else. -/
theorem exists_nodes (sound : ExportedNode.Sound aliases exported.nodes) :
    ∃ nodes, List.Forall₂ (ExportedNode.Becomes aliases) exported.nodes nodes ∧
      Flow.ofExport (.ofList aliases) exported = (do
        Loader.checkTriggers exported.flowId nodes
        let edges ← Loader.edges exported.ids 0 exported.edges
        return {
          flowId := exported.flowId
          title := exported.title
          organisationId := exported.organisationId
          branchId := exported.branchId
          nodes, edges }) := by
  obtain ⟨nodes, becomes, read⟩ := sound.exists_nodes [] (by simp)
  refine ⟨nodes, becomes, ?_⟩
  have read := read []
  rw [List.append_nil] at read
  have made : Loader.nodes (.ofList aliases) [] exported.nodes = .ok nodes := by
    rw [read, Loader.nodes]
    simp
  rw [Flow.ofExport, made, ids, ← ExportedNode.ids_of_becomes becomes]
  rfl

theorem Valid.sound (valid : exported.Valid aliases) :
    ExportedNode.Sound aliases exported.nodes :=
  ⟨valid.distinct, valid.readable⟩

/-- A valid export is loaded. -/
theorem Valid.exists_flow (valid : exported.Valid aliases) :
    ∃ flow, Flow.ofExport (.ofList aliases) exported = .ok flow ∧ exported.Keeps aliases flow := by
  obtain ⟨nodes, becomes, read⟩ := exists_nodes valid.sound
  have triggers := ExportedNode.triggers_of_becomes becomes
  rw [← FlowExport.triggers, valid.single] at triggers
  have edges := ExportedEdge.edges_append [] 0 valid.connected
  rw [List.append_nil, Loader.edges] at edges
  rw [read, checkTriggers_eq triggers, edges]
  refine ⟨_, rfl, becomes, ?_, rfl, rfl, rfl, rfl⟩
  simp

/-- The first defect of an export is reported. -/
theorem ofExport_of_firstDefect {error : LoadError} (defect : exported.FirstDefect aliases error) :
    Flow.ofExport (.ofList aliases) exported = .error error := by
  cases defect with
  | @duplicate before after node place sound taken =>
      obtain ⟨nodes, _, read⟩ := sound.exists_nodes [] (by simp)
      rw [Flow.ofExport, place, read, Loader.nodes, if_pos (by simpa using taken)]
      rfl
  | @invalid before after node error place sound fresh refused =>
      obtain ⟨nodes, _, read⟩ := sound.exists_nodes [] (by simp)
      rw [Flow.ofExport, place, read, Loader.nodes, if_neg (by simpa using fresh),
        ExportedNode.node_eq_error refused]
      rfl
  | noTrigger sound none =>
      obtain ⟨nodes, becomes, read⟩ := exists_nodes sound
      rw [read, checkTriggers_eq (ExportedNode.triggers_of_becomes becomes), ← triggers, none]
      rfl
  | manyTriggers sound many =>
      obtain ⟨nodes, becomes, read⟩ := exists_nodes sound
      rw [read, checkTriggers_eq (ExportedNode.triggers_of_becomes becomes), ← triggers,
        if_neg (by omega), if_neg (by omega)]
      rfl
  | @noSource before after edge sound single place connected source =>
      obtain ⟨nodes, becomes, read⟩ := exists_nodes sound
      rw [read, checkTriggers_eq (ExportedNode.triggers_of_becomes becomes), ← triggers, single,
        place, ExportedEdge.edges_append _ 0 connected, Loader.edges, Loader.edge, if_pos source,
        ExportedEdge.edgeId_eq, Nat.zero_add]
      rfl
  | @noTarget before after edge sound single place connected source target =>
      obtain ⟨nodes, becomes, read⟩ := exists_nodes sound
      rw [read, checkTriggers_eq (ExportedNode.triggers_of_becomes becomes), ← triggers, single,
        place, ExportedEdge.edges_append _ 0 connected, Loader.edges, Loader.edge,
        if_neg (not_not.mpr source), if_pos target, ExportedEdge.edgeId_eq, Nat.zero_add]
      rfl

theorem exists_firstDefect (broken : ¬ exported.Valid aliases) :
    ∃ error, exported.FirstDefect aliases error := by
  by_cases sound : ExportedNode.Sound aliases exported.nodes
  · obtain none | single | many : exported.triggers aliases = 0 ∨ exported.triggers aliases = 1 ∨
        1 < exported.triggers aliases := by omega
    · exact ⟨_, .noTrigger sound none⟩
    · have unconnected : ¬ ∀ edge ∈ exported.edges, edge.Connects exported.ids :=
        fun connected => broken ⟨sound.distinct, sound.readable, single, connected⟩
      obtain ⟨before, edge, after, place, connected, broken⟩ := exists_first_failing unconnected
      by_cases source : edge.source ∈ exported.ids
      · exact ⟨_, .noTarget sound single place connected source fun target =>
          broken ⟨source, target⟩⟩
      · exact ⟨_, .noSource sound single place connected source⟩
    · exact ⟨_, .manyTriggers sound many⟩
  · obtain ⟨before, node, after, place, sound, fault⟩ :=
      ExportedNode.exists_fault_of_not_sound sound
    by_cases taken : node.id ∈ before.map ExportedNode.id
    · exact ⟨_, .duplicate place sound taken⟩
    · obtain ⟨error, refused⟩ := ExportedNode.exists_refused (fault.resolve_left taken)
      exact ⟨_, .invalid place sound taken refused⟩

/-! ## Loading without aliases -/

theorem nodes_resolved (nodes : List ExportedNode) : ∀ seen : List String,
    Loader.nodes .empty seen
        (nodes.map fun node => { node with typeName := node.type aliases }) =
      Loader.nodes (.ofList aliases) seen nodes := by
  have single (node : ExportedNode) :
      Loader.node .empty { node with typeName := node.type aliases } =
        Loader.node (.ofList aliases) node := by
    rw [Loader.node, Loader.node, Loader.resolve_ofList, ExportedNode.type]
    rfl
  induction nodes with
  | nil => intro seen; rfl
  | cons first rest induction =>
      intro seen
      rw [List.map_cons, Loader.nodes, Loader.nodes, single]
      simp only [induction]

/-- Aliases only replace types. -/
theorem ofExport_resolved :
    Flow.ofExport .empty (exported.resolved aliases) =
      Flow.ofExport (.ofList aliases) exported := by
  rw [Flow.ofExport, Flow.ofExport, resolved, nodes_resolved]

end FlowExport

end FlowCompiler
