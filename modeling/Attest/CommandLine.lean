import Attest.Codec
import Attest.Registry

set_option autoImplicit false

/-!
# The command line

    schema canonical SCHEMA
    schema uid SCHEMA [--resolver ADDRESS] [--revocable]
    decode --schema SCHEMA PAYLOAD [--strict] [--max-payload-len N] [--pretty]

`run` is the whole program: from the arguments and the environment to what is printed.
-/
namespace Attest.CommandLine

structure Arguments where
  words : List String := []
  options : List (String × String) := []
  flags : List String := []
  deriving DecidableEq, Repr

namespace Arguments

def option? (arguments : Arguments) (name : String) : Option String :=
  (arguments.options.find? (·.1 == name)).map (·.2)

def hasFlag (arguments : Arguments) (name : String) : Bool := arguments.flags.contains name

def addWord (word : String) (arguments : Arguments) : Arguments :=
  { arguments with words := word :: arguments.words }

def addOption? (name value : String) (arguments : Arguments) : Option Arguments :=
  if (arguments.option? name).isSome then none
  else some { arguments with options := (name, value) :: arguments.options }

def addFlag? (name : String) (arguments : Arguments) : Option Arguments :=
  if arguments.hasFlag name then none
  else some { arguments with flags := name :: arguments.flags }

end Arguments

inductive Look where
  | word
  | endOfOptions
  | long (name : String) (value : Option String)
  /-- One dash and more; no command has such an option. -/
  | short
  deriving DecidableEq, Repr

def look (argument : String) : Look :=
  match argument.toList with
  | ['-', '-'] => .endOfOptions
  | '-' :: '-' :: text =>
    match text.span (· ≠ '=') with
    | (name, []) => .long (String.ofList name) none
    | (name, _ :: value) => .long (String.ofList name) (some (String.ofList value))
  | '-' :: _ :: _ => .short
  | _ => .word

/-- Sorts arguments, given the options that take a value and those that take none. A value that
    stands as an argument of its own must look like a word. -/
def sort (valued bare : List String) : List String → Option Arguments
  | [] => some {}
  | argument :: rest =>
    match look argument with
    | .word => (sort valued bare rest).map (·.addWord argument)
    | .endOfOptions => some { words := rest }
    | .short => none
    | .long name (some value) =>
      if valued.contains name then (sort valued bare rest).bind (·.addOption? name value) else none
    | .long name none =>
      if bare.contains name then (sort valued bare rest).bind (·.addFlag? name)
      else if valued.contains name then
        match rest with
        | [] => none
        | value :: rest =>
          if look value = .word then (sort valued bare rest).bind (·.addOption? name value)
          else none
      else none

inductive Command where
  | canonical (schema : String)
  | uid (schema : String) (resolver : Option String) (revocable : Bool)
  | decode (schema payload : String) (strict : Bool) (maxLength : Option Nat) (pretty : Bool)
  deriving DecidableEq, Repr

/-- A size given as an option; the outer `none` refuses it. -/
def sizeOption? : Option String → Option (Option Nat)
  | none => some none
  | some text =>
    match Text.readSize text.toList with
    | .ok size => some (some size)
    | .error _ => none

def canonicalCommand? (arguments : List String) : Option Command := do
  let arguments ← sort [] [] arguments
  match arguments.words with
  | [schema] => some (.canonical schema)
  | _ => none

def uidCommand? (arguments : List String) : Option Command := do
  let arguments ← sort ["resolver"] ["revocable"] arguments
  match arguments.words with
  | [schema] => some (.uid schema (arguments.option? "resolver") (arguments.hasFlag "revocable"))
  | _ => none

def decodeCommand? (arguments : List String) : Option Command := do
  let arguments ← sort ["schema", "max-payload-len"] ["strict", "pretty"] arguments
  let schema ← arguments.option? "schema"
  let maxLength ← sizeOption? (arguments.option? "max-payload-len")
  match arguments.words with
  | [payload] =>
    some (.decode schema payload (arguments.hasFlag "strict") maxLength
      (arguments.hasFlag "pretty"))
  | _ => none

def Command.ofArguments? : List String → Option Command
  | "schema" :: "canonical" :: arguments => canonicalCommand? arguments
  | "schema" :: "uid" :: arguments => uidCommand? arguments
  | "decode" :: arguments => decodeCommand? arguments
  | _ => none

structure Complaint where
  text : String
  cause : Option String := none
  deriving DecidableEq, Repr

def Complaint.report (complaint : Complaint) : String :=
  "Error: " ++ complaint.text ++
    (match complaint.cause with
      | none => ""
      | some cause =>
        "\n\nCaused by:\n    " ++
          String.ofList (cause.toList.flatMap fun c => if c = '\n' then "\n    ".toList else [c]))
    ++ "\n"

abbrev Outcome := Except Complaint

/-- Names the failure that a step stands for; the step's own becomes the cause. -/
def because {α ε : Type} (text : String) (message : ε → String) : Except ε α → Outcome α
  | .ok a => .ok a
  | .error e => .error { text, cause := some (message e) }

abbrev Environment := String → Option String

def strictVariable : String := "EAS_CODEC_STRICT"

def maxLengthVariable : String := "EAS_CODEC_MAX_PAYLOAD_LEN"

def quote (text : String) : String := String.ofList (Text.quoted text.toList)

def switch? (text : String) : Option Bool :=
  let word := String.ofList ((Text.trim text.toList).map Char.toLower)
  if ["1", "true", "yes"].contains word then some true
  else if ["0", "false", "no", ""].contains word then some false
  else none

def environmentPolicy (environment : Environment) : Outcome Policy := do
  let strict ← match environment strictVariable with
    | none => pure false
    | some text =>
      match switch? text with
      | some strict => pure strict
      | none => throw { text := strictVariable ++ " must be true or false, got " ++ quote text }
  let maxLength ← match environment maxLengthVariable with
    | none => pure none
    | some text =>
      let size ← because (maxLengthVariable ++ " must be a byte count, got " ++ quote text)
        Text.NumeralFault.message (Text.readSize (Text.trim text.toList))
      pure (some size)
  return { strict, maxLength }

def readPayload (text : String) : Except Text.HexFault Bytes :=
  Text.readHex (Text.dropMarker (Text.trim text.toList))

def readAddress (text : String) : Outcome Address := do
  let data ← because ("invalid address " ++ text) Text.HexFault.message (readPayload text)
  match Address.ofBytes? data with
  | some a => return a
  | none => throw { text := "address must be 20 bytes, got " ++ toString data.length }

def Command.run (environment : Environment) : Command → Outcome String
  | .canonical schema => do
    let declarations ← because "failed to parse schema" Failure.message (Schema.parse schema)
    return Schema.format declarations
  | .uid schema resolver revocable => do
    let resolver ← match resolver with
      | some text => readAddress text
      | none => pure Address.zero
    return (Schema.uid schema resolver revocable).text
  | .decode schema payload strict maxLength pretty => do
    let base ← environmentPolicy environment
    let policy : Policy :=
      { strict := base.strict || strict, maxLength := maxLength <|> base.maxLength }
    let data ← because "payload is not valid hex" Text.HexFault.message (readPayload payload)
    let items ← because "failed to decode payload" Failure.message
      (Codec.decodeFields policy schema data)
    let json := Item.listToJson items
    return if pretty then json.pretty else json.compact

structure Exit where
  code : UInt8
  output : String := ""
  errors : String := ""
  deriving DecidableEq, Repr

def usage : String :=
  "usage: schema canonical SCHEMA\n" ++
  "       schema uid SCHEMA [--resolver ADDRESS] [--revocable]\n" ++
  "       decode --schema SCHEMA PAYLOAD [--strict] [--max-payload-len N] [--pretty]\n"

def run (environment : Environment) (arguments : List String) : Exit :=
  match Command.ofArguments? arguments with
  | none => { code := 2, errors := usage }
  | some command =>
    match command.run environment with
    | .ok line => { code := 0, output := line ++ "\n" }
    | .error complaint => { code := 1, errors := complaint.report }

end Attest.CommandLine
