set_option autoImplicit false

namespace Attest.Text

def isBlank (c : Char) : Bool :=
  let n := c.toNat
  (9 ≤ n && n ≤ 13) || n = 32 || n = 0x85 || n = 0xA0 || n = 0x1680 || (0x2000 ≤ n && n ≤ 0x200A)
    || n = 0x2028 || n = 0x2029 || n = 0x202F || n = 0x205F || n = 0x3000

def trimStart (text : List Char) : List Char := text.dropWhile isBlank

def trimEnd (text : List Char) : List Char := (trimStart text.reverse).reverse

def trim (text : List Char) : List Char := trimEnd (trimStart text)

def consWord (word : List Char) (rest : List (List Char)) : List (List Char) :=
  if word = [] then rest else word :: rest

/-- The characters before the first blank, and the words after it. -/
def firstWord : List Char → List Char × List (List Char)
  | [] => ([], [])
  | c :: text =>
    let (word, rest) := firstWord text
    if isBlank c then ([], consWord word rest) else (c :: word, rest)

def words (text : List Char) : List (List Char) :=
  let (word, rest) := firstWord text
  consWord word rest

theorem trimStart_length_le (text : List Char) : (trimStart text).length ≤ text.length :=
  (List.dropWhile_sublist _).length_le

theorem trim_length_le (text : List Char) : (trim text).length ≤ text.length := by
  have h := trimStart_length_le (trimStart text).reverse
  have h' := trimStart_length_le text
  simp only [trim, trimEnd, List.length_reverse] at *
  omega

example : words "  uint64   time ,bool\trevoked ".toList =
    ["uint64".toList, "time".toList, ",bool".toList, "revoked".toList] := by decide

end Attest.Text
