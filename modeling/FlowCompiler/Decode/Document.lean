import FlowCompiler.Decode.Source
import FlowCompiler.Json.Reader

namespace FlowCompiler.Decode

/-! Decoding the text of a document. What the decoder objects to comes before anything that
is wrong behind the last part it looked at. -/

def documentWithin {α : Type} (levels : Nat) (decoder : Decoder Json.Draft α) (text : String) :
    Except DecodeError α := do
  let (draft, ending) := Json.draft levels text
  let value ← decoder draft
  match ending with
  | .ok () => return value
  | .error fault => throw (.malformed fault)

def document {α : Type} (decoder : Decoder Json.Draft α) (text : String) :
    Except DecodeError α :=
  documentWithin Json.maxLevels decoder text

end FlowCompiler.Decode
