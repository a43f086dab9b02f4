import FlowCompiler.Flow.Outlet

namespace FlowCompiler

/-! Flows: the nodes that a designer has placed and the edges between them. -/

structure Node where
  id : String
  /-- The title that the designer sees; generated names are derived from it. -/
  title : String
  kind : Kind
deriving DecidableEq

structure Edge where
  id : String
  source : String
  target : String
  /-- Names the outlet of the source through which the edge leaves. -/
  sourceHandle : String
deriving DecidableEq

structure Flow where
  flowId : String
  title : String
  organisationId : String
  branchId : String
  nodes : List Node
  edges : List Edge
deriving DecidableEq

namespace Flow

def trigger? (flow : Flow) : Option Node :=
  flow.nodes.find? fun node => node.kind.isTrigger

def node? (flow : Flow) (id : String) : Option Node :=
  flow.nodes.find? fun node => node.id = id

def findEdge? (flow : Flow) (id : String) (outlet : Outlet) : Option Edge :=
  flow.edges.find? fun edge => edge.source = id && outlet.accepts edge.sourceHandle

def programName (flow : Flow) : String :=
  Text.identifierOr "flow" (flow.organisationId ++ " " ++ flow.flowId)

end Flow

end FlowCompiler
