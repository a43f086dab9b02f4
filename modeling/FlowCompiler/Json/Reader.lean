import FlowCompiler.Json.Draft
import FlowCompiler.Json.Literal
import FlowCompiler.Json.Numeral

namespace FlowCompiler.Json

/-! Reading a document. Every reader takes the text that is left and returns the text that
follows what it has read, or the fault that keeps it from going on. -/

namespace Reader

def isGap (character : Char) : Bool :=
  character = ' ' || character = '\n' || character = '\t' || character = '\r'

def skipGap (text : List Char) : List Char :=
  text.dropWhile isGap

def word : List Char → List Char → Except Fault (List Char)
  | [], text => .ok text
  | _ :: _, [] => .error .endInValue
  | expected :: rest, character :: text =>
      if expected = character then word rest text else .error .expectedWord

def colon (text : List Char) : Except Fault (List Char) :=
  match skipGap text with
  | [] => .error .endInObject
  | ':' :: rest => .ok rest
  | _ => .error .expectedColon

/-! ## Values that are passed over -/

inductive Bracket where
  | square
  | curly
deriving DecidableEq

namespace Bracket

def endFault : Bracket → Fault
  | .square => .endInList
  | .curly => .endInObject

def separatorFault : Bracket → Fault
  | .square => .expectedListCommaOrEnd
  | .curly => .expectedObjectCommaOrEnd

def closing : Bracket → Char
  | .square => ']'
  | .curly => '\x7d'

end Bracket

def skipScalar (text : List Char) : Except Fault (List Char) :=
  match text with
  | [] => .error .endInValue
  | 'n' :: rest => word ['u', 'l', 'l'] rest
  | 't' :: rest => word ['r', 'u', 'e'] rest
  | 'f' :: rest => word ['a', 'l', 's', 'e'] rest
  | '"' :: rest => Literal.skip rest
  | character :: _ =>
      if character = '-' ∨ character.isDigit then Numeral.skip text
      else .error .expectedValue

def skipName (bracket : Bracket) (text : List Char) : Except Fault (List Char) :=
  match bracket with
  | .square => .ok text
  | .curly =>
      match skipGap text with
      | [] => .error .endInObject
      | '"' :: rest => do colon (← Literal.skip rest)
      | _ => .error .keyNotString

mutual
/-- Pass over a value inside the given open brackets, and over everything up to the end
of the outermost one. One of two rounds consumes a character, so twice the length of the
text is rounds enough; nesting has no limit. -/
def skipOpen (rounds : Nat) (brackets : List Bracket) (text : List Char) :
    Except Fault (List Char) :=
  match rounds with
  | 0 => .error .endInValue
  | rounds + 1 =>
      match skipGap text with
      | '[' :: rest => skipEntered rounds .square brackets rest
      | '\x7b' :: rest => skipEntered rounds .curly brackets rest
      | text => do
          let rest ← skipScalar text
          skipAfter rounds brackets rest

def skipEntered (rounds : Nat) (bracket : Bracket) (brackets : List Bracket)
    (text : List Char) : Except Fault (List Char) :=
  match rounds with
  | 0 => .error bracket.endFault
  | rounds + 1 =>
      match skipGap text with
      | [] => .error bracket.endFault
      | character :: rest =>
          if character = bracket.closing then skipAfter rounds brackets rest
          else do
            let text ← skipName bracket (character :: rest)
            skipOpen rounds (bracket :: brackets) text

def skipAfter (rounds : Nat) (brackets : List Bracket) (text : List Char) :
    Except Fault (List Char) :=
  match brackets, rounds with
  | [], _ => .ok text
  | bracket :: _, 0 => .error bracket.endFault
  | bracket :: outer, rounds + 1 =>
      match skipGap text with
      | [] => .error bracket.endFault
      | character :: rest =>
          if character = ',' then do
            let text ← skipName bracket rest
            skipOpen rounds (bracket :: outer) text
          else if character = bracket.closing then skipAfter rounds outer rest
          else .error bracket.separatorFault
end

def skip (text : List Char) : Except Fault (List Char) :=
  skipOpen (2 * text.length + 2) [] text

/-! ## Drafts -/

abbrev Reading (α : Type) : Type :=
  α × Except Fault (List Char)

def faultOf : Except Fault (List Char) → Option Fault
  | .ok _ => none
  | .error fault => some fault

def broken (fault : Fault) : Reading Draft :=
  (.broken fault, .error fault)

def ofResult {α : Type} (draft : α → Draft) (result : Except Fault (α × List Char)) :
    Reading Draft :=
  match result with
  | .ok (value, rest) => (draft value, .ok rest)
  | .error fault => broken fault

def scalar (text : List Char) : Reading Draft :=
  match text with
  | [] => broken .endInValue
  | 'n' :: rest => ofResult (fun _ => .null) ((word ['u', 'l', 'l'] rest).map ((), ·))
  | 't' :: rest => ofResult .bool ((word ['r', 'u', 'e'] rest).map (true, ·))
  | 'f' :: rest => ofResult .bool ((word ['a', 'l', 's', 'e'] rest).map (false, ·))
  | '"' :: rest => ofResult (fun text => .string (String.ofList text)) (Literal.read rest)
  | character :: _ =>
      if character = '-' ∨ character.isDigit then ofResult .number (Numeral.read text)
      else broken .expectedValue

inductive Next where
  | closed (rest : List Char)
  | entry (text : List Char)

def nextItem (first : Bool) (text : List Char) : Except Fault Next :=
  match skipGap text with
  | [] => .error .endInList
  | ']' :: rest => .ok (.closed rest)
  | text =>
      if first then .ok (.entry text)
      else
        match text with
        | ',' :: rest =>
            match skipGap rest with
            | [] => .error .endInValue
            | ']' :: _ => .error .trailingComma
            | text => .ok (.entry text)
        | _ => .error .expectedListCommaOrEnd

/-- Read items up to the closing bracket, with a reader for one item. Every item takes at
least one character, so the length of the text is rounds enough. -/
def items (item : List Char → Reading Draft) :
    (rounds : Nat) → (first : Bool) → List Char → Reading (List Draft)
  | 0, _, _ => ([], .error .endInList)
  | rounds + 1, first, text =>
      match nextItem first text with
      | .error fault => ([], .error fault)
      | .ok (.closed rest) => ([], .ok rest)
      | .ok (.entry text) =>
          match item text with
          | (draft, .error fault) => ([draft], .error fault)
          | (draft, .ok rest) =>
              let (drafts, ending) := items item rounds false rest
              (draft :: drafts, ending)

def nextName (first : Bool) (text : List Char) : Except Fault Next :=
  match skipGap text with
  | [] => .error .endInObject
  | '\x7d' :: rest => .ok (.closed rest)
  | text =>
      if first then
        match text with
        | '"' :: rest => .ok (.entry rest)
        | _ => .error .keyNotString
      else
        match text with
        | ',' :: rest =>
            match skipGap rest with
            | [] => .error .endInValue
            | '"' :: rest => .ok (.entry rest)
            | '\x7d' :: _ => .error .trailingComma
            | _ => .error .keyNotString
        | _ => .error .expectedObjectCommaOrEnd

/-- Read the value of a member, from the colon on, with a reader for values. When it has a
fault, the text can still go on behind it if the value can be passed over. -/
def memberValue (value : List Char → Reading Draft) (text : List Char) : Reading Draft :=
  match colon text with
  | .error fault => broken fault
  | .ok text =>
      match value text with
      | (draft, .ok rest) => (draft, .ok rest)
      | (draft, .error _) => (draft, skip text)

def members (value : List Char → Reading Draft) :
    (rounds : Nat) → (first : Bool) → List Char → Reading (List (String × Draft))
  | 0, _, _ => ([], .error .endInObject)
  | rounds + 1, first, text =>
      match nextName first text with
      | .error fault => ([], .error fault)
      | .ok (.closed rest) => ([], .ok rest)
      | .ok (.entry text) =>
          match Literal.read text with
          | .error fault => ([], .error fault)
          | .ok (name, text) =>
              match memberValue value text with
              | (draft, .error fault) => ([(String.ofList name, draft)], .error fault)
              | (draft, .ok rest) =>
                  let (drafts, ending) := members value rounds false rest
                  ((String.ofList name, draft) :: drafts, ending)

/-- Read a value in which arrays and objects are nested at most `levels` deep. No array or
object of a text has more entries than the text has characters, so the length of a document
is `rounds` enough for every one in it. -/
def value (rounds : Nat) (levels : Nat) (text : List Char) : Reading Draft :=
  match levels, skipGap text with
  | 0, '[' :: _ => broken .tooDeep
  | 0, '\x7b' :: _ => broken .tooDeep
  | levels + 1, '[' :: rest =>
      let (drafts, ending) := items (value rounds levels) rounds true rest
      (.array drafts (faultOf ending), ending)
  | levels + 1, '\x7b' :: rest =>
      let (drafts, ending) := members (value rounds levels) rounds true rest
      (.object drafts (faultOf ending), ending)
  | _, text => scalar text

def ending (rest : Except Fault (List Char)) : Except Fault Unit := do
  let rest ← rest
  if (skipGap rest).isEmpty then return () else throw .trailingCharacters

end Reader

def maxLevels : Nat := 127

def draft (levels : Nat) (text : String) : Draft × Except Fault Unit :=
  let characters := text.toList
  let (draft, rest) := Reader.value characters.length levels characters
  (draft, Reader.ending rest)

def parseWithin (levels : Nat) (text : String) : Except Fault Json := do
  let (draft, ending) := draft levels text
  let value ← draft.complete
  ending
  return value

def parse (text : String) : Except Fault Json :=
  parseWithin maxLevels text

end FlowCompiler.Json
