import FlowCompiler.Decode.Error
import FlowCompiler.Json.Draft

namespace FlowCompiler

/-! What decoders read from. A decoder looks one level deep at a time, so the same decoder
serves complete values and the drafts of documents that may be faulty further on. -/

/-! One level of a document. A list of items or members may have ended early by a fault. -/

inductive View (σ : Type) where
  | null
  | bool (value : Bool)
  | number (value : Number)
  | string (text : String)
  | array (items : List σ) (fault : Option Json.Fault)
  | object (members : List (String × σ)) (fault : Option Json.Fault)
  | broken (fault : Json.Fault)

class Source (σ : Type) where
  view : σ → View σ
  whole : σ → Except Json.Fault Json
  /-- The objection to an array that does not end after the items that were needed: its full
  length, what follows them, and the fault that ended it early. -/
  surplus : (length : Nat) → (rest : List σ) → Option Json.Fault → DecodeError

abbrev Decoder (σ α : Type) : Type :=
  σ → Except DecodeError α

namespace Json

def view : Json → View Json
  | .null => .null
  | .bool value => .bool value
  | .number value => .number value
  | .string text => .string text
  | .array items => .array items none
  | .object members => .object members none

instance : Source Json where
  view := view
  whole := .ok
  surplus := fun length _ _ => .invalidLength length "fewer elements in array"

def Draft.view : Draft → View Draft
  | .null => .null
  | .bool value => .bool value
  | .number value => .number value
  | .string text => .string text
  | .array items fault => .array items fault
  | .object members fault => .object members fault
  | .broken fault => .broken fault

def closingFault (rest : List Draft) (fault : Option Fault) : Fault :=
  match rest, fault with
  | [], some .trailingComma => .trailingComma
  | [], some .endInList => .endInList
  | _, _ => .trailingCharacters

/-- A draft is read in the order of its text, so an array that goes on too long is met as a
text without its closing bracket. -/
instance : Source Draft where
  view := Draft.view
  whole := Draft.complete
  surplus := fun _ rest fault => .malformed (closingFault rest fault)

end Json

end FlowCompiler
