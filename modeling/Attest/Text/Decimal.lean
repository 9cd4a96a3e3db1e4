import Attest.Text.Digit

set_option autoImplicit false

namespace Attest.Text

def decimal (n : Nat) : List Char := Nat.toDigits 10 n

def sizeMax : Nat := UInt64.size - 1

inductive NumeralFault where
  | empty
  | notDigit
  | tooLarge
  deriving DecidableEq, Repr

def NumeralFault.message : NumeralFault → String
  | .empty => "cannot parse integer from empty string"
  | .notDigit => "invalid digit found in string"
  | .tooLarge => "number too large to fit in target type"

/-- Reads further digits behind the number read so far. -/
def readDigits (soFar : Nat) : List Char → Except NumeralFault Nat
  | [] => .ok soFar
  | c :: text =>
    match digit? c with
    | none => .error .notDigit
    | some d =>
      if soFar * 10 + d ≤ sizeMax then readDigits (soFar * 10 + d) text else .error .tooLarge

def readSize : List Char → Except NumeralFault Nat
  | [] => .error .empty
  | '+' :: text => if text = [] then .error .notDigit else readDigits 0 text
  | text => readDigits 0 text

example : readSize "+007".toList = .ok 7 := rfl
example : readSize "-1".toList = .error .notDigit := rfl
example : readSize "18446744073709551615".toList = .ok sizeMax := rfl
example : readSize "18446744073709551616x".toList = .error .tooLarge := rfl

end Attest.Text
