import Attest.Abi.Datum
import Attest.Abi.Decoding
import Attest.Descriptor

set_option autoImplicit false

/-!
# Causes of failure

A failure names its cause; the wording is in the `message` functions alone. Failures of encoding and
of injection also say where the value stands, outermost step first.
-/
namespace Attest

inductive Segment where
  | argument (position : Nat)
  | field (name : String)
  | index (position : Nat)
  deriving DecidableEq, Repr

abbrev Path := List Segment

namespace Path

def renderFrom (first : Bool) : Path → String
  | [] => ""
  | .argument n :: path => "arg" ++ toString n ++ renderFrom false path
  | .field name :: path => (if first then name else "." ++ name) ++ renderFrom false path
  | .index n :: path => "[" ++ toString n ++ "]" ++ renderFrom false path

def text (path : Path) : String := if path.isEmpty then "value" else path.renderFrom true

end Path

inductive Kind where
  | address
  | bool
  | string
  | fixedBytes (size : Nat)
  | bytes
  | uint
  | tuple (fields : Nat)
  | fixedArray (elements : Nat)
  | array
  deriving DecidableEq, Repr

def Kind.text : Kind → String
  | .address => "address"
  | .bool => "bool"
  | .string => "string"
  | .fixedBytes size => "bytes" ++ toString size
  | .bytes => "bytes"
  | .uint => "uint"
  | .tuple fields => "tuple of " ++ toString fields ++ " fields"
  | .fixedArray elements => "fixed array of " ++ toString elements ++ " elements"
  | .array => "dynamic array"

inductive Expected where
  | ofType (type : Descriptor)
  | tuple
  | fixedArray (size : Nat)
  | array
  deriving BEq, Repr

def Expected.text : Expected → String
  | .ofType type => type.text
  | .tuple => "tuple"
  | .fixedArray size => "fixed array of " ++ toString size
  | .array => "dynamic array"

inductive Reason where
  | kind (expected : Expected) (found : Kind)
  | overflow (value : Word) (width : UintWidth)
  | byteCount (expected found : Nat)
  | fieldCount (expected found : Nat)
  | elementCount (expected found : Nat)
  | absent
  | tooWide (bits : Nat)
  | missingField
  | foreignType
  /-- A reason in the words of the caller. -/
  | stated (text : String)
  deriving BEq, Repr

def Reason.message : Reason → String
  | .kind expected found => "expected " ++ expected.text ++ ", found " ++ found.text
  | .overflow value width => toString value.toNat ++ " overflows uint" ++ toString width.bits
  | .byteCount expected found =>
    "expected " ++ toString expected ++ " bytes, found " ++ toString found
  | .fieldCount expected found =>
    "expected " ++ toString expected ++ " tuple fields, found " ++ toString found
  | .elementCount expected found =>
    "expected " ++ toString expected ++ " elements, found " ++ toString found
  | .absent => "value is absent"
  | .tooWide bits => toString bits ++ " bits do not fit uint256"
  | .missingField => "field missing from decoded tuple"
  | .foreignType => "staged value was produced for a different destination type"
  | .stated text => text

inductive SchemaFault where
  | unexpectedBracket (bracket : Char) (position : Nat)
  | unbalancedBrackets (text : String)
  | unbalancedParentheses (text : String)
  | emptyTuple
  | emptyDeclaration
  | missingType
  | trailing (rest : String)
  | unterminatedSuffix (rest : String)
  | arrayLength (text : String)
  | stated (text : String)
  deriving DecidableEq, Repr

def SchemaFault.message : SchemaFault → String
  | .unexpectedBracket bracket position =>
    "unexpected `" ++ String.singleton bracket ++ "` at byte " ++ toString position
  | .unbalancedBrackets text => "unbalanced brackets in `" ++ text ++ "`"
  | .unbalancedParentheses text => "unbalanced parentheses in `" ++ text ++ "`"
  | .emptyTuple => "tuple has no fields"
  | .emptyDeclaration => "empty declaration"
  | .missingType => "missing type"
  | .trailing rest => "unexpected `" ++ rest ++ "` after type"
  | .unterminatedSuffix rest => "unterminated array suffix `" ++ rest ++ "`"
  | .arrayLength text => "invalid array length `" ++ text ++ "`"
  | .stated text => text

inductive DecodeFault where
  | tooLong (size limit : Nat)
  | emptyTuple (type : Descriptor)
  | abi (fault : Abi.Fault)
  | notCanonical
  | mismatch (datum : Abi.Datum) (type : Descriptor)
  | noValue
  | stated (text : String)
  deriving BEq, Repr

def DecodeFault.message : DecodeFault → String
  | .tooLong size limit =>
    "payload of " ++ toString size ++ " bytes exceeds the " ++ toString limit ++ " byte limit"
  | .emptyTuple type => "cannot decode " ++ type.text ++ ": tuple has no fields"
  | .abi fault => fault.message
  | .notCanonical => "payload is not canonically encoded"
  | .mismatch datum type =>
    "decoded token " ++ String.ofList datum.render ++ " does not match type " ++ type.text
  | .noValue => "payload holds no value"
  | .stated text => text

inductive Failure where
  | unsupportedType (text : String)
  | malformedSchema (fault : SchemaFault)
  | encoding (path : Path) (reason : Reason)
  | decoding (fault : DecodeFault)
  | arity (expected decoded : Nat)
  | injection (path : Path) (reason : Reason)
  deriving BEq, Repr

abbrev Result := Except Failure

namespace Failure

def path? : Failure → Option Path
  | .encoding path _ | .injection path _ => some path
  | _ => none

def message : Failure → String
  | .unsupportedType text => "unsupported type: " ++ text
  | .malformedSchema fault => "malformed schema: " ++ fault.message
  | .encoding path reason => "encoding error at " ++ path.text ++ ": " ++ reason.message
  | .decoding fault => "decoding error: " ++ fault.message
  | .arity expected decoded =>
    "arity mismatch: " ++ toString decoded ++ " decoded values for " ++ toString expected
      ++ " destinations"
  | .injection path reason => "injection error at " ++ path.text ++ ": " ++ reason.message

/-- Puts a step in front of the path, if the failure has one. -/
def within (segment : Segment) : Failure → Failure
  | .encoding path reason => .encoding (segment :: path) reason
  | .injection path reason => .injection (segment :: path) reason
  | failure => failure

end Failure

def Result.within {α : Type} (segment : Segment) : Result α → Result α
  | .ok a => .ok a
  | .error failure => .error (failure.within segment)

end Attest
