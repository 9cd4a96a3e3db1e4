import Attest.Registry

set_option autoImplicit false

namespace Attest

abbrev Session (n : Nat) := Vector Slot n

inductive Step (n : Nat) where
  | pack (slots : List (Fin n))
  | schema (slots : List (Fin n))
  | unpack (slots : List (Fin n)) (data : Bytes)
  | scan (slots : List (Fin n)) (attestation : Attestation)
  | inject (slots : List (Fin n)) (values : List Value)
  /-- Stages a value on one slot and commits it to another. -/
  | commit (source target : Fin n) (value : Value)

inductive Report where
  | packed (payload : Result Bytes)
  | schema (text : String)
  | written (outcome : Result Unit)
  | unstaged (failure : Failure)
  | committed (outcome : Result Unit)

namespace Session

variable {n : Nat}

def select (session : Session n) (slots : List (Fin n)) : List Slot := slots.map session.get

def place (session : Session n) : List (Fin n) → List Slot → Session n
  | i :: positions, slot :: slots => place (session.set i slot) positions slots
  | _, _ => session

/-- Puts back the slots that a step was given, as it has left them. -/
def write (session : Session n) (positions : List (Fin n)) (reached : Result Unit × List Slot) :
    Report × Session n :=
  (.written reached.1, session.place positions reached.2)

def step (policy : Policy) (session : Session n) : Step n → Report × Session n
  | .pack slots => (.packed (Codec.pack ((session.select slots).map Slot.toArgument)), session)
  | .schema slots => (.schema (Codec.schemaOf ((session.select slots).map Slot.toArgument)), session)
  | .unpack slots data => session.write slots (Codec.unpack policy data (session.select slots))
  | .scan slots attestation =>
    session.write slots (attestation.scanValues policy (session.select slots))
  | .inject slots values => session.write slots (Codec.inject values (session.select slots))
  | .commit source target value =>
    match (session.get source).stage value with
    | .error failure => (.unstaged failure, session)
    | .ok staged =>
      let (outcome, slot) := (session.get target).commit staged
      (.committed outcome, session.set target slot)

def run (policy : Policy) (session : Session n) : List (Step n) → List (Report × Session n)
  | [] => []
  | first :: steps =>
    let (report, after) := session.step policy first
    (report, after) :: run policy after steps

end Session

end Attest
