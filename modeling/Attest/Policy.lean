import Attest.Json.Tree

set_option autoImplicit false

namespace Attest

structure Policy where
  /-- Accept a payload only if it is the encoding of the values that it decodes to. -/
  strict : Bool := false
  maxLength : Option Nat := none
  deriving DecidableEq, Repr

namespace Policy

def withMaxLength (policy : Policy) (limit : Nat) : Policy :=
  { policy with maxLength := some limit }

def toJson (policy : Policy) : Json :=
  .object
    [("strict_decoding", .bool policy.strict),
     ("max_payload_len", match policy.maxLength with
       | some limit => .natural limit
       | none => .null)]

def limitOfJson? : Json → Option (Option Nat)
  | .null => some none
  | json => json.asUInt64?.map fun limit => some limit.toNat

def ofJson? (json : Json) : Option Policy := do
  match ← json.optionalMembers? ["strict_decoding", "max_payload_len"] with
  | [strict, maxLength] =>
    return {
      strict := ← strict.elim (some false) Json.asBool?
      maxLength := ← maxLength.elim (some none) limitOfJson? }
  | _ => none

end Policy

end Attest
