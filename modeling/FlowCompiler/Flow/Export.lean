import FlowCompiler.Decode.Document
import FlowCompiler.Decode.Record

namespace FlowCompiler

/-! The documents that a flow designer exports, before anything is known about the types of
nodes in them. -/

structure ExportedNode where
  id : String
  typeName : String
  data : Json
deriving DecidableEq

structure ExportedEdge where
  id : String
  source : String
  target : String
  sourceHandle : Option String
deriving DecidableEq

structure FlowExport where
  flowId : String
  title : String
  organisationId : String
  branchId : String
  nodes : List ExportedNode
  edges : List ExportedEdge
deriving DecidableEq

variable {σ : Type} [Source σ]

open Decode Decode.Record

def ExportedNode.decode : Decoder σ ExportedNode :=
  decoder "RawNode" (ExportedNode.mk
    <$> required "id" text
    <*> required "type" text
    <*> defaulted "data" whole .null)

def ExportedEdge.decode : Decoder σ ExportedEdge :=
  decoder "RawEdge" (ExportedEdge.mk
    <$> defaulted "id" text ""
    <*> required "source" text
    <*> required "target" text
    <*> optional "sourceHandle" text)

namespace FlowExport

/-- Decode an export. Everything may be left out, and the id of the flow may also be called
`id`. -/
def decode : Decoder σ FlowExport :=
  decoder "RawFlow" (FlowExport.mk
    <$> aliased "flowId" "id" (defaulted "flowId" text "")
    <*> defaulted "title" text ""
    <*> defaulted "organisationId" text ""
    <*> defaulted "branchId" text ""
    <*> defaulted "nodes" (list ExportedNode.decode) []
    <*> defaulted "edges" (list ExportedEdge.decode) [])

def parse (text : String) : Except DecodeError FlowExport :=
  document decode text

end FlowExport

end FlowCompiler
