namespace FlowCompiler.Text

/-! White space around designer-facing texts: the characters with the Unicode
property `White_Space`, and trimming by them. -/

def isBlank (character : Char) : Bool :=
  let code := character.toNat
  (0x09 ≤ code && code ≤ 0x0d) || code == 0x20 || code == 0x85 || code == 0xa0 ||
    code == 0x1680 || (0x2000 ≤ code && code ≤ 0x200a) || code == 0x2028 || code == 0x2029 ||
    code == 0x202f || code == 0x205f || code == 0x3000

def trimChars (characters : List Char) : List Char :=
  ((characters.dropWhile isBlank).reverse.dropWhile isBlank).reverse

def trim (text : String) : String :=
  String.ofList (trimChars text.toList)

def isBlankText (text : String) : Bool :=
  (trimChars text.toList).isEmpty

example : trim "\u3000 Sales \t\n" = "Sales" := by decide

end FlowCompiler.Text
