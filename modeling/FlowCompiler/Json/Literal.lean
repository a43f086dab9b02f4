import FlowCompiler.Json.Fault

namespace FlowCompiler.Json.Literal

/-! String literals: writing a text between double quotes, and reading one back. -/

/-! ## Writing -/

/-- The written form of one character. Only the quote, the backslash and the characters
below the space are escaped. -/
def escape (character : Char) : List Char :=
  match character with
  | '"' => ['\\', '"']
  | '\\' => ['\\', '\\']
  | '\x08' => ['\\', 'b']
  | '\x0c' => ['\\', 'f']
  | '\n' => ['\\', 'n']
  | '\r' => ['\\', 'r']
  | '\t' => ['\\', 't']
  | other =>
      if other.toNat < 0x20 then
        ['\\', 'u', '0', '0', Nat.digitChar (other.toNat / 16), Nat.digitChar (other.toNat % 16)]
      else [other]

def write (text : List Char) : List Char :=
  '"' :: (text.flatMap escape ++ ['"'])

/-! ## Reading -/

def hexDigit? (character : Char) : Option Nat :=
  let code := character.toNat
  if '0' ≤ character ∧ character ≤ '9' then some (code - '0'.toNat)
  else if 'a' ≤ character ∧ character ≤ 'f' then some (code - 'a'.toNat + 10)
  else if 'A' ≤ character ∧ character ≤ 'F' then some (code - 'A'.toNat + 10)
  else none

def hexQuad? (first second third fourth : Char) : Option Nat := do
  return (((← hexDigit? first) * 16 + (← hexDigit? second)) * 16 + (← hexDigit? third)) * 16 +
    (← hexDigit? fourth)

def isHighSurrogate (unit : Nat) : Bool :=
  0xd800 ≤ unit && unit ≤ 0xdbff

def isLowSurrogate (unit : Nat) : Bool :=
  0xdc00 ≤ unit && unit ≤ 0xdfff

def pairChar (high low : Nat) : Char :=
  Char.ofNat ((high - 0xd800) * 0x400 + (low - 0xdc00) + 0x10000)

def shortEscape? : Char → Option Char
  | '"' => some '"'
  | '\\' => some '\\'
  | '/' => some '/'
  | 'b' => some '\x08'
  | 'f' => some '\x0c'
  | 'n' => some '\n'
  | 'r' => some '\r'
  | 't' => some '\t'
  | _ => none

def byteCount : List Char → Nat
  | [] => 0
  | character :: rest => character.utf8Size + byteCount rest

/-- What is wrong with a hexadecimal escape that is followed by fewer than four characters:
the text ends in it, unless four bytes are left. -/
def shortHexFault (rest : List Char) : Fault :=
  if 4 ≤ byteCount rest then .invalidEscape else .endInString

def unpairedFault : List Char → Fault
  | [] => .endInString
  | ['\\'] => .endInString
  | '\\' :: 'u' :: rest => shortHexFault rest
  | _ => .unpairedSurrogate

def read : List Char → Except Fault (List Char × List Char)
  | [] => .error .endInString
  | '"' :: rest => .ok ([], rest)
  | '\\' :: [] => .error .endInString
  | '\\' :: 'u' :: first :: second :: third :: fourth :: rest =>
      match hexQuad? first second third fourth with
      | none => .error .invalidEscape
      | some unit =>
          if isLowSurrogate unit then .error .loneSurrogate
          else if isHighSurrogate unit then
            match rest with
            | '\\' :: 'u' :: first :: second :: third :: fourth :: rest =>
                match hexQuad? first second third fourth with
                | none => .error .invalidEscape
                | some low =>
                    if isLowSurrogate low then do
                      let (text, after) ← read rest
                      return (pairChar unit low :: text, after)
                    else .error .loneSurrogate
            | rest => .error (unpairedFault rest)
          else do
            let (text, after) ← read rest
            return (Char.ofNat unit :: text, after)
  | '\\' :: 'u' :: rest => .error (shortHexFault rest)
  | '\\' :: escaped :: rest =>
      match shortEscape? escaped with
      | none => .error .invalidEscape
      | some character => do
          let (text, after) ← read rest
          return (character :: text, after)
  | character :: rest =>
      if character.toNat < 0x20 then .error .controlCharacter
      else do
        let (text, after) ← read rest
        return (character :: text, after)

/-- Pass over the text of a literal whose value is not needed, and return what follows the
closing quote. Hexadecimal escapes need not denote characters here. -/
def skip : List Char → Except Fault (List Char)
  | [] => .error .endInString
  | '"' :: rest => .ok rest
  | '\\' :: [] => .error .endInString
  | '\\' :: 'u' :: first :: second :: third :: fourth :: rest =>
      match hexQuad? first second third fourth with
      | none => .error .invalidEscape
      | some _ => skip rest
  | '\\' :: 'u' :: rest => .error (shortHexFault rest)
  | '\\' :: escaped :: rest =>
      match shortEscape? escaped with
      | none => .error .invalidEscape
      | some _ => skip rest
  | character :: rest =>
      if character.toNat < 0x20 then .error .controlCharacter else skip rest

end FlowCompiler.Json.Literal
