import Attest.Json.Tree

set_option autoImplicit false

namespace Attest.Json

def isBlank (c : Char) : Bool := c = ' ' || c = '\t' || c = '\n' || c = '\r'

def skipBlanks (text : List Char) : List Char := text.dropWhile isBlank

def lexeme (text rest : List Char) : List Char := text.take (text.length - rest.length)

/-- A character of a string literal: as it stands, or a UTF-16 unit by its number. -/
inductive Unit16 where
  | char (c : Char)
  | unit (code : Nat)
  deriving DecidableEq, Repr

def hexQuad? (a b c d : Char) : Option Nat := do
  let a ← Text.hexValue? a.toNat
  let b ← Text.hexValue? b.toNat
  let c ← Text.hexValue? c.toNat
  let d ← Text.hexValue? d.toNat
  return ((a * 16 + b) * 16 + c) * 16 + d

def simpleEscape? : Char → Option Char
  | '"' => some '"'
  | '\\' => some '\\'
  | '/' => some '/'
  | 'b' => some (Char.ofNat 8)
  | 't' => some '\t'
  | 'n' => some '\n'
  | 'f' => some (Char.ofNat 12)
  | 'r' => some '\r'
  | _ => none

def readUnits : List Char → Option (List Unit16 × List Char)
  | [] => none
  | '"' :: text => some ([], text)
  | '\\' :: 'u' :: a :: b :: c :: d :: text => do
    let code ← hexQuad? a b c d
    let (units, rest) ← readUnits text
    return (.unit code :: units, rest)
  | '\\' :: c :: text => do
    let c ← simpleEscape? c
    let (units, rest) ← readUnits text
    return (.char c :: units, rest)
  | c :: text => do
    if c.toNat < 32 then none
    let (units, rest) ← readUnits text
    return (.char c :: units, rest)

def isHighSurrogate (code : Nat) : Bool := 0xD800 ≤ code && code ≤ 0xDBFF

def isLowSurrogate (code : Nat) : Bool := 0xDC00 ≤ code && code ≤ 0xDFFF

/-- The text that units denote, unless a surrogate has no partner. -/
def unitsText? : List Unit16 → Option (List Char)
  | [] => some []
  | .char c :: units => (unitsText? units).map (c :: ·)
  | .unit code :: units =>
    if isHighSurrogate code then
      match units with
      | .unit low :: units =>
        if isLowSurrogate low then
          (unitsText? units).map
            (Char.ofNat (0x10000 + (code - 0xD800) * 0x400 + (low - 0xDC00)) :: ·)
        else none
      | _ => none
    else if isLowSurrogate code then none
    else (unitsText? units).map (Char.ofNat code :: ·)

def readString (text : List Char) : Option (Json × List Char) := do
  let (units, rest) ← readUnits text
  match unitsText? units with
  | some chars => return (.string (String.ofList chars), rest)
  | none => return (.other ('"' :: lexeme text rest), rest)

def readDigits (text : List Char) : Option (List Char × List Char) :=
  match text.span Char.isDigit with
  | ([], _) => none
  | (digits, rest) => some (digits, rest)

def skipSign : List Char → List Char
  | '+' :: text | '-' :: text => text
  | text => text

def skipFraction : List Char → Option (List Char)
  | '.' :: text => (readDigits text).map (·.2)
  | text => some text

def skipExponent : List Char → Option (List Char)
  | 'e' :: text | 'E' :: text => (readDigits (skipSign text)).map (·.2)
  | text => some text

def ofDigits (digits : List Char) : Nat := digits.foldl (fun n c => n * 10 + (c.toNat - 48)) 0

def readNumber (text : List Char) : Option (Json × List Char) := do
  let (digits, rest) ← readDigits (if text.head? = some '-' then text.tail else text)
  if digits.head? = some '0' ∧ digits.length ≠ 1 then none
  let rest ← skipFraction rest
  let rest ← skipExponent rest
  if lexeme text rest = digits then return (.natural (ofDigits digits), rest)
  else return (.other (lexeme text rest), rest)

def readLiteral (text : List Char) : Option (Json × List Char) :=
  ("null".toList.isPrefixOf? text).map (.null, ·)
    <|> ("true".toList.isPrefixOf? text).map (.bool true, ·)
    <|> ("false".toList.isPrefixOf? text).map (.bool false, ·)

def named? : List (Json × Json) → Option (List (String × Json))
  | [] => some []
  | (.string name, value) :: members => (named? members).map ((name, value) :: ·)
  | _ :: _ => none

mutual

/-- Reads a value behind blanks. Each call within takes one from the fuel. -/
def readValue : Nat → List Char → Option (Json × List Char)
  | 0, _ => none
  | fuel + 1, text =>
    match skipBlanks text with
    | '"' :: rest => readString rest
    | '[' :: rest =>
      match skipBlanks rest with
      | ']' :: rest => some (.array [], rest)
      | _ => (readElements fuel rest).map fun (elements, rest) => (.array elements, rest)
    | '{' :: rest =>
      match skipBlanks rest with
      | '}' :: rest => some (.object [], rest)
      | _ => do
        let (members, after) ← readMembers fuel rest
        match named? members with
        | some members => return (.object members, after)
        | none => return (.other ('{' :: lexeme rest after), after)
    | c :: rest =>
      if c = '-' || c.isDigit then readNumber (c :: rest) else readLiteral (c :: rest)
    | [] => none

def readElements : Nat → List Char → Option (List Json × List Char)
  | 0, _ => none
  | fuel + 1, text => do
    let (element, rest) ← readValue fuel text
    match skipBlanks rest with
    | ',' :: rest => do
      let (elements, rest) ← readElements fuel rest
      return (element :: elements, rest)
    | ']' :: rest => return ([element], rest)
    | _ => none

def readMembers : Nat → List Char → Option (List (Json × Json) × List Char)
  | 0, _ => none
  | fuel + 1, text => do
    let '"' :: rest := skipBlanks text | none
    let (name, rest) ← readString rest
    let ':' :: rest := skipBlanks rest | none
    let (value, rest) ← readValue fuel rest
    match skipBlanks rest with
    | ',' :: rest => do
      let (members, rest) ← readMembers fuel rest
      return ((name, value) :: members, rest)
    | '}' :: rest => return ([(name, value)], rest)
    | _ => none

end

/-- Reads a text that is one JSON value. At most two calls lie between two characters that are
    taken, so the fuel lasts. -/
def read (text : String) : Option Json := do
  let (json, rest) ← readValue (2 * text.length + 2) text.toList
  if skipBlanks rest = [] then some json else none

def readAs {α : Type} (ofJson? : Json → Option α) (text : String) : Option α := do
  ofJson? (← read text)

end Attest.Json
