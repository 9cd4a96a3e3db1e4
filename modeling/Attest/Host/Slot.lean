import Attest.Host.Conversion

set_option autoImplicit false

/-!
# Arguments and slots

An argument is a host value on its way into a payload, and a slot a place that values of its type
are written to. Writing has two steps: a value is staged, which may fail, and then committed.
-/
namespace Attest

structure Argument where
  type : HostType
  value : type.Val

namespace Argument

def toValue (a : Argument) : Result Value := a.type.encode a.value

def toDatum (a : Argument) : Result Abi.Datum := do
  let value ← a.toValue
  value.check a.type.descriptor
  return value.datum

end Argument

structure Slot extends Argument where
  owned : type.isOwned = true

structure Staged where
  type : HostType
  value : type.Val

namespace Slot

def stage (slot : Slot) (value : Value) : Result Staged := do
  let converted ← slot.type.decode value
  return ⟨slot.type, converted⟩

/-- Writes a staged value, which must have been staged for the slot's own type. -/
def commit (slot : Slot) (staged : Staged) : Result Unit × Slot :=
  if h : staged.type = slot.type then (.ok (), { slot with value := h ▸ staged.value })
  else (.error (.injection [] .foreignType), slot)

end Slot

end Attest
