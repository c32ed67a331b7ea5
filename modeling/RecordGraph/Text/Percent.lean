import RecordGraph.Text.Split

/-!
# Percent-encoded texts

Escapes of two hexadecimal digits stand for bytes, and the bytes of a run of ASCII characters are
read as UTF-8. What is no escape stays as it is; what is no UTF-8 becomes the replacement
character, one for each longest start of a character.
-/

namespace RecordGraph

def replacementChar : Char := Char.ofNat 0xfffd

/-- How many bytes follow a first byte, the bits it carries, and the range of the second byte. -/
def leadByte? (b : Nat) : Option (Nat × Nat × Nat × Nat) :=
  if 0xc2 ≤ b ∧ b ≤ 0xdf then some (1, b - 0xc0, 0x80, 0xbf)
  else if b = 0xe0 then some (2, 0, 0xa0, 0xbf)
  else if b = 0xed then some (2, 13, 0x80, 0x9f)
  else if 0xe1 ≤ b ∧ b ≤ 0xef then some (2, b - 0xe0, 0x80, 0xbf)
  else if b = 0xf0 then some (3, 0, 0x90, 0xbf)
  else if 0xf1 ≤ b ∧ b ≤ 0xf3 then some (3, b - 0xf0, 0x80, 0xbf)
  else if b = 0xf4 then some (3, 4, 0x80, 0x8f)
  else none

/-- The characters that bytes spell in UTF-8. `pending` are the bytes still missing to the current
character, `bits` its bits so far, `low` and `high` the range of its next byte. -/
def decodeFrom (pending bits low high : Nat) : List Nat → List Char
  | [] => if pending = 0 then [] else [replacementChar]
  | b :: bs =>
    if pending ≠ 0 ∧ low ≤ b ∧ b ≤ high then
      let bits := bits * 64 + (b - 0x80)
      if pending = 1 then Char.ofNat bits :: decodeFrom 0 0 0 0 bs
      else decodeFrom (pending - 1) bits 0x80 0xbf bs
    else
      let cut := if pending = 0 then [] else [replacementChar]
      if b < 0x80 then cut ++ Char.ofNat b :: decodeFrom 0 0 0 0 bs
      else match leadByte? b with
        | some (n, first, lo, hi) => cut ++ decodeFrom n first lo hi bs
        | none => cut ++ replacementChar :: decodeFrom 0 0 0 0 bs

/-- The text that bytes spell in UTF-8. -/
def decodeUtf8 (bs : List Nat) : List Char := decodeFrom 0 0 0 0 bs

def hexValue? (c : Char) : Option Nat :=
  let n := c.toNat
  if 48 ≤ n ∧ n ≤ 57 then some (n - 48)
  else if 97 ≤ n ∧ n ≤ 102 then some (n - 87)
  else if 65 ≤ n ∧ n ≤ 70 then some (n - 55)
  else none

/-- The bytes of ASCII characters, escapes resolved. -/
def unescape : List Char → List Nat
  | [] => []
  | '%' :: a :: b :: cs =>
    match hexValue? a, hexValue? b with
    | some x, some y => (16 * x + y) :: unescape cs
    | _, _ => 37 :: unescape (a :: b :: cs)
  | c :: cs => c.toNat :: unescape cs

/-- Decodes each maximal run of ASCII characters; `run` is the current one, reversed. -/
def decodeRuns (run : List Char) : List Char → List Char
  | [] => decodeUtf8 (unescape run.reverse)
  | c :: cs =>
    if c.toNat < 128 then decodeRuns (c :: run) cs
    else decodeUtf8 (unescape run.reverse) ++ c :: decodeRuns [] cs

def percentDecode (cs : List Char) : List Char := decodeRuns [] cs

end RecordGraph
