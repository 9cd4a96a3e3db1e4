import Attest.Text.Unprintable

set_option autoImplicit false

namespace Attest.Text

def escapeChar (quote c : Char) : List Char :=
  if c.toNat = 0 then ['\\', '0']
  else if c = '\t' then ['\\', 't']
  else if c = '\r' then ['\\', 'r']
  else if c = '\n' then ['\\', 'n']
  else if c = '\\' || c = quote then ['\\', c]
  else if isUnprintable c then
    '\\' :: 'u' :: '{' :: Nat.toDigits 16 c.toNat ++ ['}']
  else [c]

def quotedChar (c : Char) : List Char := '\'' :: escapeChar '\'' c ++ ['\'']

def quoted (text : List Char) : List Char :=
  '"' :: text.flatMap (escapeChar '"') ++ ['"']

end Attest.Text
