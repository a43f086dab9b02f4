import FlowCompiler.Decode.Source
import FlowCompiler.Table

namespace FlowCompiler.Decode

/-! Decoders for single values, lists, tables and enumerations. -/

variable {σ α : Type} [Source σ]

def foundAs? : View σ → Except Json.Fault Found
  | .null => .ok .null
  | .bool value => .ok (.bool value)
  | .number value => .ok (Found.ofNumber value)
  | .string text => .ok (.string text)
  | .array _ _ => .ok .sequence
  | .object _ _ => .ok .map
  | .broken fault => .error fault

def mismatch (view : View σ) (expected : String) : DecodeError :=
  match foundAs? view with
  | .ok found => .invalidType found expected
  | .error fault => .malformed fault

def whole : Decoder σ Json := fun document =>
  match Source.whole document with
  | .ok value => .ok value
  | .error fault => .error (.malformed fault)

def text : Decoder σ String := fun document =>
  match Source.view document with
  | .string text => .ok text
  | other => .error (mismatch other "a string")

def bool : Decoder σ Bool := fun document =>
  match Source.view document with
  | .bool value => .ok value
  | other => .error (mismatch other "a boolean")

def uint64 : Decoder σ UInt64 := fun document =>
  match Source.view document with
  | .number (.natural value) => .ok value
  | .number (.negative value) => .error (.invalidValue (.negative value) "u64")
  | other => .error (mismatch other "u64")

def uint32 : Decoder σ UInt32 := fun document =>
  match Source.view document with
  | .number (.natural value) =>
      if value.toNat < twoTo 32 then .ok value.toUInt32
      else .error (.invalidValue (.natural value) "u32")
  | .number (.negative value) => .error (.invalidValue (.negative value) "u32")
  | other => .error (mismatch other "u32")

def nearestDouble : Number → Double
  | .natural value => (Double.ofNat? value.toNat).getD (.zero false)
  | .negative value => ((Double.ofNat? value.magnitude).getD (.zero false)).neg
  | .double value => value

def double : Decoder σ Double := fun document =>
  match Source.view document with
  | .number value => .ok (nearestDouble value)
  | other => .error (mismatch other "f64")

def optional (decoder : Decoder σ α) : Decoder σ (Option α) := fun document =>
  match Source.view document with
  | .null => .ok none
  | _ => do return some (← decoder document)

def ended : Option Json.Fault → Except DecodeError Unit
  | none => .ok ()
  | some fault => .error (.malformed fault)

def list (decoder : Decoder σ α) : Decoder σ (List α) := fun document =>
  match Source.view document with
  | .array items fault => do
      let values ← items.mapM decoder
      ended fault
      return values
  | other => .error (mismatch other "a sequence")

def tableFrom (decoder : Decoder σ α) (before : Table α) :
    List (String × σ) → Except DecodeError (Table α)
  | [] => .ok before
  | (name, member) :: rest => do
      let value ← decoder member
      tableFrom decoder (before.insert name value) rest

def table (decoder : Decoder σ α) : Decoder σ (Table α) := fun document =>
  match Source.view document with
  | .object members fault => do
      let values ← tableFrom decoder .empty members
      ended fault
      return values
  | other => .error (mismatch other "a map")

def variantNamed (variants : List (String × α)) (name : String) : Except DecodeError α :=
  match Entries.get? name variants with
  | some value => .ok value
  | none => .error (.unknownVariant name (Entries.keys variants))

/-- A variant of an enumeration: its name, or an object with its name as the only member,
whose value is `null`. -/
def variant (variants : List (String × α)) : Decoder σ α := fun document =>
  match Source.view document with
  | .string name => variantNamed variants name
  | .object [(name, content)] _ => do
      let value ← variantNamed variants name
      match Source.view content with
      | .null => return value
      | other => throw (mismatch other "unit")
  | .object _ _ => .error (.invalidValue .map "map with a single key")
  | other => .error (mismatch other "string or map")

end FlowCompiler.Decode
