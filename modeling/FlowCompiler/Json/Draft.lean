import FlowCompiler.Json.Basic
import FlowCompiler.Json.Fault
import FlowCompiler.Table

namespace FlowCompiler.Json

/-! Drafts: what has been understood of a document that may be faulty. A draft keeps each
fault in the place where it was found, so that a decoder which walks over the draft in
document order meets the faults and its own objections in the order of the text. -/

inductive Draft where
  | null
  | bool (value : Bool)
  | number (value : Number)
  | string (text : String)
  /-- The items, and the fault that ended the list early. -/
  | array (items : List Draft) (fault : Option Fault)
  | object (members : List (String × Draft)) (fault : Option Fault)
  | broken (fault : Fault)
deriving Inhabited

namespace Draft

def ended : Option Fault → Except Fault Unit
  | none => .ok ()
  | some fault => .error fault

mutual
/-- The value of a draft without faults, or else its first fault. A repeated name keeps
its first place and takes its last value. -/
def complete : Draft → Except Fault Json
  | .null => .ok .null
  | .bool value => .ok (.bool value)
  | .number value => .ok (.number value)
  | .string text => .ok (.string text)
  | .array items fault => do
      let items ← completeItems items
      ended fault
      return .array items
  | .object members fault => do
      let members ← completeMembers [] members
      ended fault
      return .object members
  | .broken fault => .error fault

def completeItems : List Draft → Except Fault (List Json)
  | [] => .ok []
  | item :: rest => do
      let value ← complete item
      let values ← completeItems rest
      return value :: values

def completeMembers (before : List (String × Json)) :
    List (String × Draft) → Except Fault (List (String × Json))
  | [] => .ok before
  | (name, member) :: rest => do
      let value ← complete member
      completeMembers (Entries.insert name value before) rest
end

end Draft

end FlowCompiler.Json
