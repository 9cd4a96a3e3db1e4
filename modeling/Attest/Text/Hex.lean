import Attest.Bytes
import Attest.Text.Digit
import Attest.Text.Quoted
import Attest.Text.Utf8

set_option autoImplicit false

namespace Attest.Text

inductive HexFault where
  | oddLength
  | wrongLength
  | notDigit (byte : UInt8) (position : Nat)
  deriving DecidableEq, Repr

def HexFault.message : HexFault → String
  | .oddLength => "Odd number of digits"
  | .wrongLength => "Invalid string length"
  | .notDigit byte position =>
    "Invalid character " ++ String.ofList (quotedChar (Char.ofNat byte.toNat)) ++ " at position "
      ++ toString position

def hex (data : Bytes) : List Char :=
  data.flatMap fun b => [hexDigit (b.toNat / 16), hexDigit (b.toNat % 16)]

def hexMarked (data : Bytes) : List Char := '0' :: 'x' :: hex data

def dropMarker : List Char → List Char
  | '0' :: 'x' :: text => text
  | text => text

def dropEitherMarker : List Char → List Char
  | '0' :: 'x' :: text | '0' :: 'X' :: text => text
  | text => text

def readNibble (b : UInt8) (position : Nat) : Except HexFault Nat :=
  match hexValue? b.toNat with
  | some n => .ok n
  | none => .error (.notDigit b position)

/-- Reads pairs of digits, the first of which stands at `position`. -/
def readPairs (position : Nat) : Bytes → Except HexFault Bytes
  | [] => .ok []
  | [_] => .error .oddLength
  | high :: low :: rest => do
    let h ← readNibble high position
    let l ← readNibble low (position + 1)
    let data ← readPairs (position + 2) rest
    return UInt8.ofNat (16 * h + l) :: data

def readHex (text : List Char) : Except HexFault Bytes :=
  let digits := utf8 text
  if digits.length % 2 = 1 then .error .oddLength else readPairs 0 digits

/-- The values of the digits of a text in which ASCII blanks may stand anywhere. -/
def looseDigits? : List Char → Option (List Nat)
  | [] => some []
  | c :: text =>
    if c.isWhitespace then looseDigits? text
    else do
      let digit ← hexValue? c.toNat
      let digits ← looseDigits? text
      return digit :: digits

/-- The bytes that digits write two by two; a last digit without a partner is dropped. -/
def pairBytes : List Nat → Bytes
  | high :: low :: digits => UInt8.ofNat (16 * high + low) :: pairBytes digits
  | _ => []

def readHexExactly (n : Nat) (text : List Char) : Except HexFault (Vector UInt8 n) := do
  let digits := utf8 text
  if digits.length % 2 = 1 then throw .oddLength
  if digits.length / 2 ≠ n then throw .wrongLength
  let data ← readPairs 0 digits
  match data.exactly? n with
  | some v => return v
  | none => throw .wrongLength

example : readHex "0aF".toList = .error .oddLength := rfl
example : readHex "0xff".toList = .error (.notDigit 120 1) := rfl
example : readHex "0aFf".toList = .ok [10, 255] := rfl
example : (looseDigits? "0a\t F".toList).map pairBytes = some [10] := rfl
example : hexMarked [10, 255] = "0x0aff".toList := rfl

end Attest.Text
