import Attest.Bytes

set_option autoImplicit false

namespace Attest.Text

def utf8 (text : List Char) : Bytes := text.flatMap String.utf8EncodeChar

def replacement : Char := Char.ofNat 0xFFFD

def leading? (data : Bytes) : Option Char := (data.take 4).toByteArray.utf8DecodeChar? 0

def isContinuation (b : UInt8) : Bool := 0x80 ≤ b && b ≤ 0xBF

/-- Whether a byte may stand second in a character of three or four bytes that `lead` begins. -/
def mayFollow (lead b : UInt8) : Bool :=
  if lead = 0xE0 then 0xA0 ≤ b && b ≤ 0xBF
  else if lead = 0xED then 0x80 ≤ b && b ≤ 0x9F
  else if lead = 0xF0 then 0x90 ≤ b && b ≤ 0xBF
  else if lead = 0xF4 then 0x80 ≤ b && b ≤ 0x8F
  else 0xE1 ≤ lead && lead ≤ 0xF3 && isContinuation b

/-- How many bytes after `lead` belong to the invalid part that it begins. -/
def invalidTail (lead : UInt8) : Bytes → Nat
  | [] => 0
  | [b] => if mayFollow lead b then 1 else 0
  | b :: c :: _ =>
    if mayFollow lead b then if 0xF0 ≤ lead && isContinuation c then 2 else 1 else 0

def lossy : Bytes → List Char
  | [] => []
  | b :: data =>
    match leading? (b :: data) with
    | some c => c :: lossy (data.drop (c.utf8Size - 1))
    | none => replacement :: lossy (data.drop (invalidTail b data))
termination_by data => data.length
decreasing_by all_goals simp only [List.length_drop, List.length_cons]; omega

end Attest.Text
