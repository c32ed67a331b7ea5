import RecordGraph.Text.Printable

/-!
# Quoted texts

The quoted form in which messages show a text: single quotes, or double quotes if the text holds a
single quote and no double one; backslash, line and tab escapes; numeric escapes for characters
that are not printable.
-/

namespace RecordGraph

private def hexDigit (n : Nat) : Char := if n < 10 then Char.ofNat (48 + n) else Char.ofNat (87 + n)

/-- `n` in `width` lower-case hexadecimal digits. -/
def hexDigits (width n : Nat) : List Char :=
  (List.range width).reverse.map fun i => hexDigit (n / Nat.pow 16 i % 16)

private def backslash : Char := Char.ofNat 92
private def singleQuote : Char := Char.ofNat 39
private def doubleQuote : Char := Char.ofNat 34

/-- The quoted form of one character between two `quote`s. -/
def quotedChar (quote c : Char) : List Char :=
  let n := c.toNat
  if c = quote ∨ c = backslash then [backslash, c]
  else if n = 9 then [backslash, 't']
  else if n = 10 then [backslash, 'n']
  else if n = 13 then [backslash, 'r']
  else if isPrintable c then [c]
  else if n < 0x100 then backslash :: 'x' :: hexDigits 2 n
  else if n < 0x10000 then backslash :: 'u' :: hexDigits 4 n
  else backslash :: 'U' :: hexDigits 8 n

def quoted (s : String) : List Char :=
  let cs := s.toList
  let quote := if cs.contains singleQuote && !cs.contains doubleQuote then doubleQuote
    else singleQuote
  quote :: cs.flatMap (quotedChar quote) ++ [quote]

end RecordGraph
