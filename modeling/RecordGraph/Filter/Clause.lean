import RecordGraph.Text.Split

/-!
# Clauses of a filter text

A filter text is a list of clauses with commas between them. A comma belongs to a list of operands,
and does not end a clause, if the next bracket after it is a closing one.
-/

namespace RecordGraph

def closesNext : List Char → Bool
  | [] => false
  | c :: cs => c = ']' || (c ≠ '[' && closesNext cs)

def splitClauses : List Char → List (List Char)
  | [] => [[]]
  | c :: cs =>
    if c = ',' ∧ closesNext cs = false then [] :: splitClauses cs
    else match splitClauses cs with
      | [] => [[c]]
      | part :: parts => (c :: part) :: parts

theorem splitClauses_ne_nil (cs : List Char) : splitClauses cs ≠ [] := by
  cases cs with
  | nil => simp [splitClauses]
  | cons c cs => simp only [splitClauses]; split <;> (try split) <;> simp

/-- Putting the commas back between the clauses restores the text. -/
theorem joinWith_splitClauses (cs : List Char) : joinWith [','] (splitClauses cs) = cs := by
  induction cs with
  | nil => rfl
  | cons c cs ih =>
    simp only [splitClauses]
    split
    · next h =>
      obtain ⟨rfl, -⟩ := h
      cases hs : splitClauses cs with
      | nil => exact absurd hs (splitClauses_ne_nil cs)
      | cons p ps => rw [hs] at ih; simp [joinWith, ih]
    · cases hs : splitClauses cs with
      | nil => exact absurd hs (splitClauses_ne_nil cs)
      | cons p ps =>
        rw [hs] at ih
        cases ps with
        | nil => simpa [joinWith] using ih
        | cons q qs => simp only [joinWith] at ih ⊢; simp [← ih]

end RecordGraph
