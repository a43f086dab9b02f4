import FlowCompiler.Flow.Basic
import FlowCompiler.Flow.Export

namespace FlowCompiler

/-! Turning an export into a flow. All checks of nodes and edges are made here. -/

/-! ## Errors -/

inductive SettingsError where
  | undecodable (error : DecodeError)
  | defective (defect : Kind.Defect)
deriving DecidableEq

def SettingsError.message : SettingsError → String
  | .undecodable error => error.message
  | .defective defect => defect.message

inductive LoadError where
  | unreadable (error : DecodeError)
  | missingTrigger (flowId : String)
  | multipleTriggers (flowId : String) (count : Nat)
  | duplicateNodeId (id : String)
  | invalidNodeData (nodeId typeName : String) (error : SettingsError)
  | danglingEdge (edgeId missingNodeId : String)
deriving DecidableEq

def LoadError.message : LoadError → String
  | .unreadable error => "Failed to parse flow JSON: " ++ error.message
  | .missingTrigger flowId => "Flow '" ++ flowId ++ "' has no trigger node"
  | .multipleTriggers flowId count =>
      "Flow '" ++ flowId ++ "' has " ++ toString count ++
        " trigger nodes, exactly one is required"
  | .duplicateNodeId id => "Node id '" ++ id ++ "' is used by more than one node"
  | .invalidNodeData nodeId typeName error =>
      "Node '" ++ nodeId ++ "' of type '" ++ typeName ++ "' has invalid data: " ++ error.message
  | .danglingEdge edgeId missingNodeId =>
      "Edge '" ++ edgeId ++ "' references node '" ++ missingNodeId ++
        "', which is not part of the flow"

namespace Loader

/-! ## Nodes -/

/-- The type that a type name stands for: aliases are looked up once, so an alias of an alias
keeps its name. -/
def resolve (aliases : Table String) (typeName : String) : String :=
  (aliases.get? typeName).getD typeName

/-- The title of a node: the trimmed text `title` in its data, or else its type. -/
def title (typeName : String) (data : Json) : String :=
  match (data.member? "title").bind Json.asText? with
  | none => typeName
  | some text =>
      let trimmed := Text.trim text
      if trimmed.isEmpty then typeName else trimmed

def kind (typeName : String) (data : Json) : Except SettingsError Kind :=
  match Kind.decode typeName data with
  | .error error => .error (.undecodable error)
  | .ok kind =>
      match kind.defect? with
      | some defect => .error (.defective defect)
      | none => .ok kind

def data (exported : ExportedNode) : Json :=
  match exported.data with
  | .null => .object []
  | data => data

def node (aliases : Table String) (exported : ExportedNode) : Except LoadError Node :=
  let typeName := resolve aliases exported.typeName
  match kind typeName (data exported) with
  | .ok kind => .ok ⟨exported.id, title typeName (data exported), kind⟩
  | .error error => .error (.invalidNodeData exported.id typeName error)

def nodes (aliases : Table String) (seen : List String) :
    List ExportedNode → Except LoadError (List Node)
  | [] => .ok []
  | exported :: rest =>
      if exported.id ∈ seen then .error (.duplicateNodeId exported.id)
      else do
        let first ← node aliases exported
        let others ← nodes aliases (exported.id :: seen) rest
        return first :: others

def checkTriggers (flowId : String) (nodes : List Node) : Except LoadError Unit :=
  match nodes.countP fun node => node.kind.isTrigger with
  | 0 => .error (.missingTrigger flowId)
  | 1 => .ok ()
  | count => .error (.multipleTriggers flowId count)

/-! ## Edges -/

def edgeId (index : Nat) (exported : ExportedEdge) : String :=
  if exported.id.isEmpty then "edge-" ++ toString index else exported.id

def edge (ids : List String) (index : Nat) (exported : ExportedEdge) : Except LoadError Edge :=
  let id := edgeId index exported
  if exported.source ∉ ids then .error (.danglingEdge id exported.source)
  else if exported.target ∉ ids then .error (.danglingEdge id exported.target)
  else .ok ⟨id, exported.source, exported.target, exported.sourceHandle.getD Outlet.nextStep.key⟩

def edges (ids : List String) (index : Nat) : List ExportedEdge → Except LoadError (List Edge)
  | [] => .ok []
  | exported :: rest => do
      let first ← edge ids index exported
      let others ← edges ids (index + 1) rest
      return first :: others

end Loader

/-! ## Flows -/

namespace Flow

def ofExport (aliases : Table String) (exported : FlowExport) : Except LoadError Flow := do
  let nodes ← Loader.nodes aliases [] exported.nodes
  Loader.checkTriggers exported.flowId nodes
  let edges ← Loader.edges (nodes.map Node.id) 0 exported.edges
  return {
    flowId := exported.flowId
    title := exported.title
    organisationId := exported.organisationId
    branchId := exported.branchId
    nodes, edges }

def parse (aliases : Table String) (text : String) : Except LoadError Flow :=
  match FlowExport.parse text with
  | .ok exported => ofExport aliases exported
  | .error error => .error (.unreadable error)

end Flow

end FlowCompiler
