import RecordGraph.Text.Split

/-!
# Case folding towards ASCII words

Messages and names are compared with ASCII words after folding their case. Only a few characters
outside ASCII fold into ASCII ones; all others are left as they are, because no ASCII word can
contain their folded form.
-/

namespace RecordGraph

private def asciiLower (c : Char) : Char :=
  if 65 ≤ c.toNat ∧ c.toNat ≤ 90 then Char.ofNat (c.toNat + 32) else c

/-- The lower case of a character, with the two whose lower case reaches into ASCII: the dotted
capital I and the Kelvin sign. -/
def lowerChar (c : Char) : List Char :=
  if c.toNat = 0x130 then ['i', Char.ofNat 0x307]
  else if c.toNat = 0x212a then ['k']
  else [asciiLower c]

/-- The text in lower case, for comparison with ASCII words. -/
def lowerText (s : String) : List Char := s.toList.flatMap lowerChar

/-- Two characters equal up to the case of ASCII letters. -/
def sameLetter (a b : Char) : Bool := asciiLower a == asciiLower b

end RecordGraph
