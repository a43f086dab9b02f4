import FlowCompiler.Decode.Scalar

namespace FlowCompiler.Decode

/-! Decoders for records. A record is read from an object, in which unknown members are
passed over, or from an array with its fields in order of declaration. The first objection
in the order of the document counts; a missing field is noticed at the end. -/

structure Field (σ : Type) where
  name : String
  /-- Another name that is understood as well. -/
  alias? : Option String
  required : Bool
  /-- Decode a value of the field for its objections only. -/
  check : σ → Except DecodeError Unit

def Field.isNamed {σ : Type} (field : Field σ) (name : String) : Bool :=
  field.name = name || field.alias? = some name

/-! The fields of a record in order of declaration, and how its value is built from the parts of the
document in which they were found. -/

structure Record (σ α : Type) where
  fields : List (Field σ)
  build : (String → Option σ) → Except DecodeError α

namespace Record

variable {σ α β : Type} [Source σ]

instance : Functor (Record σ) where
  map change record := ⟨record.fields, fun find => do return change (← record.build find)⟩

instance : Pure (Record σ) where
  pure value := ⟨[], fun _ => .ok value⟩

instance : Seq (Record σ) where
  seq left right :=
    ⟨left.fields ++ (right ()).fields, fun find => do
      let change ← left.build find
      let value ← (right ()).build find
      return change value⟩

def checkWith (decoder : Decoder σ α) (document : σ) : Except DecodeError Unit := do
  let _ ← decoder document
  return ()

def required (name : String) (decoder : Decoder σ α) : Record σ α where
  fields := [⟨name, none, true, checkWith decoder⟩]
  build find :=
    match find name with
    | some document => decoder document
    | none => .error (.missingField name)

def defaulted (name : String) (decoder : Decoder σ α) (default : α) : Record σ α where
  fields := [⟨name, none, false, checkWith decoder⟩]
  build find :=
    match find name with
    | some document => decoder document
    | none => .ok default

def optional (name : String) (decoder : Decoder σ α) : Record σ (Option α) :=
  defaulted name (Decode.optional decoder) none

def aliased (name other : String) (record : Record σ α) : Record σ α :=
  { record with
    fields := record.fields.map fun field =>
      if field.name = name then { field with alias? := some other } else field }

def collect (fields : List (Field σ)) (found : List (String × σ)) :
    List (String × σ) → Except DecodeError (List (String × σ))
  | [] => .ok found
  | (name, document) :: rest =>
      match fields.find? (fun field => field.isNamed name) with
      | none => collect fields found rest
      | some field =>
          if (Entries.get? field.name found).isSome then .error (.duplicateField field.name)
          else do
            field.check document
            collect fields (found ++ [(field.name, document)]) rest

def elementCount (count : Nat) : String :=
  toString count ++ (if count = 1 then " element" else " elements")

/-- Match the items of an array with the fields in order. The array ends early if its items
run out; then `fault` is what ended it. -/
def pair (complaint : Nat → DecodeError) (fault : Option Json.Fault) (index : Nat) :
    List (Field σ) → List σ → Except DecodeError (List (String × σ) × List σ)
  | [], rest => .ok ([], rest)
  | field :: fields, [] => do
      ended fault
      if field.required then throw (complaint index)
      pair complaint fault (index + 1) fields []
  | field :: fields, document :: rest => do
      field.check document
      let (found, rest) ← pair complaint fault (index + 1) fields rest
      return ((field.name, document) :: found, rest)

def decoder (name : String) (record : Record σ α) : Decoder σ α := fun document =>
  match Source.view document with
  | .object members fault => do
      let found ← collect record.fields [] members
      ended fault
      record.build fun field => Entries.get? field found
  | .array items fault => do
      let complaint := fun length =>
        .invalidLength length
          ("struct " ++ name ++ " with " ++ elementCount record.fields.length)
      let (found, rest) ← pair complaint fault 0 record.fields items
      if rest.isEmpty ∧ fault.isNone then record.build fun field => Entries.get? field found
      else throw (Source.surplus items.length rest fault)
  | other => .error (mismatch other ("struct " ++ name))

end Record

end FlowCompiler.Decode
