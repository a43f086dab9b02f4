import FlowCompiler.Flow.Basic
import FlowCompiler.Table

namespace FlowCompiler

/-! Graphs: an index of a flow by node ids. Where ids repeat, the last node with an id counts;
edges are kept by their source, in the order of the flow. -/

structure Graph where
  nodes : Table Node
  edges : Table (List Edge)

namespace Graph

def addEdge (edges : Table (List Edge)) (edge : Edge) : Table (List Edge) :=
  edges.insert edge.source ((edges.get? edge.source).getD [] ++ [edge])

def ofFlow (flow : Flow) : Graph where
  nodes := Table.ofList (flow.nodes.map fun node => (node.id, node))
  edges := flow.edges.foldl addEdge .empty

def node? (graph : Graph) (id : String) : Option Node :=
  graph.nodes.get? id

def outgoing (graph : Graph) (id : String) : List Edge :=
  (graph.edges.get? id).getD []

def findEdge? (graph : Graph) (id : String) (outlet : Outlet) : Option Edge :=
  (graph.outgoing id).find? fun edge => outlet.accepts edge.sourceHandle

def next? (graph : Graph) (id : String) (outlet : Outlet) : Option Node := do
  graph.node? (← graph.findEdge? id outlet).target

def followed (graph : Graph) (node : Node) : List Node :=
  node.kind.outlets.filterMap (graph.next? node.id)

def ids (graph : Graph) : List String :=
  graph.nodes.keys

end Graph

end FlowCompiler
