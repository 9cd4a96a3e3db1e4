import Attest.Text.Hex

set_option autoImplicit false

namespace Attest

structure Address where
  bytes : Vector UInt8 20
  deriving DecidableEq, Repr

namespace Address

def zero : Address := ⟨Vector.replicate 20 0⟩

def ofBytes? (data : Bytes) : Option Address := (data.exactly? 20).map Address.mk

def text (a : Address) : String := String.ofList (Text.hexMarked a.bytes.toList)

def ofFirstBytes (data : Bytes) : Address := ⟨data.takeFirst 20⟩

/-- Reads forty characters behind an optional marker: digits of either case, and blanks, which are
    passed over. Digits pair from the left, and bytes for which no pair is left are zero. -/
def ofText? (text : String) : Option Address := do
  let body := Text.dropMarker text.toList
  let digits ← Text.looseDigits? body
  if body.length = 40 then some (ofFirstBytes (Text.pairBytes digits)) else none

end Address

end Attest
