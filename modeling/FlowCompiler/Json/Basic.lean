import FlowCompiler.Number.Double

namespace FlowCompiler

/-! JSON values. Objects keep their members in order, and numbers remember how they
were written: a 64-bit natural number, a negative 64-bit integer, or a double. -/

/-! ## Numbers -/

structure NegativeInteger where
  magnitude : Nat
  positive : 0 < magnitude
  bounded : magnitude ≤ twoTo 63
deriving DecidableEq

inductive Number where
  | natural (value : UInt64)
  | negative (value : NegativeInteger)
  | double (value : Double)
deriving DecidableEq

/-! ## Values -/

inductive Json where
  | null
  | bool (value : Bool)
  | number (value : Number)
  | string (text : String)
  | array (items : List Json)
  | object (members : List (String × Json))
deriving Inhabited

namespace Json

mutual
def decideEq : (left right : Json) → Decidable (left = right)
  | .null, .null => isTrue rfl
  | .bool left, .bool right =>
      if equal : left = right then isTrue (equal ▸ rfl) else isFalse (by simpa using equal)
  | .number left, .number right =>
      if equal : left = right then isTrue (equal ▸ rfl) else isFalse (by simpa using equal)
  | .string left, .string right =>
      if equal : left = right then isTrue (equal ▸ rfl) else isFalse (by simpa using equal)
  | .array left, .array right =>
      match decideEqItems left right with
      | isTrue equal => isTrue (equal ▸ rfl)
      | isFalse different => isFalse (by simpa using different)
  | .object left, .object right =>
      match decideEqMembers left right with
      | isTrue equal => isTrue (equal ▸ rfl)
      | isFalse different => isFalse (by simpa using different)
  | .null, .bool _ | .null, .number _ | .null, .string _ | .null, .array _ | .null, .object _
  | .bool _, .null | .bool _, .number _ | .bool _, .string _ | .bool _, .array _
  | .bool _, .object _
  | .number _, .null | .number _, .bool _ | .number _, .string _ | .number _, .array _
  | .number _, .object _
  | .string _, .null | .string _, .bool _ | .string _, .number _ | .string _, .array _
  | .string _, .object _
  | .array _, .null | .array _, .bool _ | .array _, .number _ | .array _, .string _
  | .array _, .object _
  | .object _, .null | .object _, .bool _ | .object _, .number _ | .object _, .string _
  | .object _, .array _ => isFalse (by simp)

def decideEqItems : (left right : List Json) → Decidable (left = right)
  | [], [] => isTrue rfl
  | [], _ :: _ => isFalse (by simp)
  | _ :: _, [] => isFalse (by simp)
  | left :: lefts, right :: rights =>
      match decideEq left right, decideEqItems lefts rights with
      | isTrue head, isTrue tail => isTrue (head ▸ tail ▸ rfl)
      | isFalse head, _ => isFalse (by simp [head])
      | _, isFalse tail => isFalse (by simp [tail])

def decideEqMembers : (left right : List (String × Json)) → Decidable (left = right)
  | [], [] => isTrue rfl
  | [], _ :: _ => isFalse (by simp)
  | _ :: _, [] => isFalse (by simp)
  | (name, left) :: lefts, (other, right) :: rights =>
      if same : name = other then
        match decideEq left right, decideEqMembers lefts rights with
        | isTrue head, isTrue tail => isTrue (same ▸ head ▸ tail ▸ rfl)
        | isFalse head, _ => isFalse (by simp [head])
        | _, isFalse tail => isFalse (by simp [tail])
      else isFalse (by simp [same])
end

instance : DecidableEq Json := decideEq

def ofUInt64 (value : UInt64) : Json :=
  .number (.natural value)

def ofUInt32 (value : UInt32) : Json :=
  .number (.natural value.toUInt64)

def ofDouble (value : Double) : Json :=
  .number (.double value)

def ofText? : Option String → Json
  | some text => .string text
  | none => .null

def ofUInt64? : Option UInt64 → Json
  | some value => ofUInt64 value
  | none => .null

def ofUInt32? : Option UInt32 → Json
  | some value => ofUInt32 value
  | none => .null

def asText? : Json → Option String
  | .string text => some text
  | _ => none

def member? (name : String) : Json → Option Json
  | .object members => (members.find? fun member => member.1 = name).map Prod.snd
  | _ => none

end Json

end FlowCompiler
