import Attest.CommandLine

set_option autoImplicit false

open Attest.CommandLine

def main (arguments : List String) : IO UInt32 := do
  let strict ← IO.getEnv strictVariable
  let maxLength ← IO.getEnv maxLengthVariable
  let environment : Environment := fun name =>
    if name = strictVariable then strict
    else if name = maxLengthVariable then maxLength
    else none
  let exit := run environment arguments
  IO.print exit.output
  IO.eprint exit.errors
  return exit.code.toUInt32
