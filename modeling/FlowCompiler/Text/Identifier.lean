import FlowCompiler.Text.Blank
import FlowCompiler.Text.Upper

namespace FlowCompiler.Text

/-! Names derived from designer-facing texts: identifiers for generated steps,
variables and routines, and the keys by which branch labels are matched. -/

/-! ## Identifiers -/

def isWordChar (character : Char) : Bool :=
  character.isAlphanum

/-- The words of a text: its maximal groups of ASCII letters and digits, in lower case.
`current` is the group being read, last character first. -/
def wordsFrom (current : List Char) : List Char → List (List Char)
  | [] => if current.isEmpty then [] else [current.reverse]
  | character :: rest =>
      if isWordChar character then wordsFrom (character.toLower :: current) rest
      else if current.isEmpty then wordsFrom [] rest
      else current.reverse :: wordsFrom [] rest

def words (text : List Char) : List (List Char) :=
  wordsFrom [] text

def identifierChars (text : List Char) : List Char :=
  let joined := List.intercalate ['_'] (words text)
  match joined with
  | [] => []
  | first :: _ => if first.isDigit then 'n' :: '_' :: joined else joined

/-- The identifier derived from a text: lower-case ASCII letters and digits in groups
joined by single underscores, starting with a letter. It is empty exactly when the text
has no ASCII letter or digit; callers supply their own fallback. -/
def identifier (text : String) : String :=
  String.ofList (identifierChars text.toList)

def identifierOr (fallback text : String) : String :=
  let derived := identifier text
  if derived.isEmpty then fallback else derived

/-! ## Branch labels -/

def labelKey (label : String) : String :=
  String.ofList ((upperChars (trimChars label.toList)).map fun character =>
    if character = ' ' then '_' else character)

example : identifier "2nd  Offer (VIP)!" = "n_2nd_offer_vip" := by decide
example : identifier "été" = "t" := by decide
example : labelKey " high value " = "HIGH_VALUE" := by decide

end FlowCompiler.Text
