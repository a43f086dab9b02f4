import FlowCompiler.Json.Literal
import FlowCompiler.Json.Numeral

namespace FlowCompiler.Json

/-! The text of a value. A layout says what is written between the tokens; members keep
their order, and an empty array or object is written without any gap inside.

Every function here takes the characters that follow what it writes and puts its own in front
of them, so that each character is written once, however deep a value is nested. -/

/-! What is written between the tokens of a document, in front of the characters that follow. -/

structure Layout where
  /-- In front of an item, a member or a closing bracket at this nesting depth. -/
  gap : Nat → List Char → List Char
  /-- Between the name of a member and its value, after the colon. -/
  afterColon : List Char → List Char

namespace Layout

def spaces (after : List Char) : Nat → List Char
  | 0 => after
  | count + 1 => ' ' :: spaces after count

def compact : Layout :=
  ⟨fun _ after => after, fun after => after⟩

def indented : Layout :=
  ⟨fun depth after => '\n' :: spaces after (2 * depth), fun after => ' ' :: after⟩

end Layout

mutual
def chars (layout : Layout) (depth : Nat) (after : List Char) : Json → List Char
  | .null => 'n' :: 'u' :: 'l' :: 'l' :: after
  | .bool true => 't' :: 'r' :: 'u' :: 'e' :: after
  | .bool false => 'f' :: 'a' :: 'l' :: 's' :: 'e' :: after
  | .number value => numberChars value ++ after
  | .string text => Literal.write text.toList ++ after
  | .array [] => '[' :: ']' :: after
  | .array (item :: rest) =>
      '[' :: layout.gap (depth + 1)
        (chars layout (depth + 1) (charsItems layout depth after rest) item)
  | .object [] => '\x7b' :: '\x7d' :: after
  | .object ((name, value) :: rest) =>
      '\x7b' :: layout.gap (depth + 1) (Literal.write name.toList ++ ':' :: layout.afterColon
        (chars layout (depth + 1) (charsMembers layout depth after rest) value))

def charsItems (layout : Layout) (depth : Nat) (after : List Char) : List Json → List Char
  | [] => layout.gap depth (']' :: after)
  | item :: rest =>
      ',' :: layout.gap (depth + 1)
        (chars layout (depth + 1) (charsItems layout depth after rest) item)

def charsMembers (layout : Layout) (depth : Nat) (after : List Char) :
    List (String × Json) → List Char
  | [] => layout.gap depth ('\x7d' :: after)
  | (name, value) :: rest =>
      ',' :: layout.gap (depth + 1) (Literal.write name.toList ++ ':' :: layout.afterColon
        (chars layout (depth + 1) (charsMembers layout depth after rest) value))
end

def compact (value : Json) : String :=
  String.ofList (value.chars .compact 0 [])

def pretty (value : Json) : String :=
  String.ofList (value.chars .indented 0 [])

end FlowCompiler.Json
