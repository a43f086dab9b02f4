import FlowCompiler.Json.Basic
import FlowCompiler.Json.Fault
import FlowCompiler.Json.Numeral
import FlowCompiler.Text.Quoted

namespace FlowCompiler

/-! What a decoder can object to in a document or a value. -/

inductive Found where
  | null
  | bool (value : Bool)
  | natural (value : UInt64)
  | negative (value : NegativeInteger)
  | double (value : Double)
  | string (text : String)
  | sequence
  | map
deriving DecidableEq

def Found.ofNumber : Number → Found
  | .natural value => .natural value
  | .negative value => .negative value
  | .double value => .double value

def Found.message : Found → String
  | .null => "null"
  | .bool true => "boolean `true`"
  | .bool false => "boolean `false`"
  | .natural value => "integer `" ++ toString value.toNat ++ "`"
  | .negative value => "integer `-" ++ toString value.magnitude ++ "`"
  | .double value => "floating point `" ++ String.ofList value.toChars ++ "`"
  | .string text => "string " ++ Text.quoted text
  | .sequence => "sequence"
  | .map => "map"

inductive DecodeError where
  /-- The document itself is faulty. -/
  | malformed (fault : Json.Fault)
  | missingField (name : String)
  | duplicateField (name : String)
  | invalidType (found : Found) (expected : String)
  | invalidValue (found : Found) (expected : String)
  | invalidLength (length : Nat) (expected : String)
  | unknownVariant (name : String) (variants : List String)
  | noMatch (choice : String)
deriving DecidableEq

namespace DecodeError

def variantList (variants : List String) : String :=
  match variants with
  | [first, second] => "`" ++ first ++ "` or `" ++ second ++ "`"
  | variants => "one of " ++ ", ".intercalate (variants.map fun name => "`" ++ name ++ "`")

def message : DecodeError → String
  | .malformed fault => fault.message
  | .missingField name => "missing field `" ++ name ++ "`"
  | .duplicateField name => "duplicate field `" ++ name ++ "`"
  | .invalidType found expected => "invalid type: " ++ found.message ++ ", expected " ++ expected
  | .invalidValue found expected =>
      "invalid value: " ++ found.message ++ ", expected " ++ expected
  | .invalidLength length expected =>
      "invalid length " ++ toString length ++ ", expected " ++ expected
  | .unknownVariant name variants =>
      "unknown variant `" ++ name ++ "`, expected " ++ variantList variants
  | .noMatch choice => "data did not match any variant of untagged enum " ++ choice

end DecodeError

end FlowCompiler
