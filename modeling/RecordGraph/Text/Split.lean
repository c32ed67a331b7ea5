import RecordGraph.Text.Blank

/-!
# Cutting texts

Splitting, joining and comparing texts as lists of characters.
-/

namespace RecordGraph

/-- The parts between the occurrences of `sep`; always at least one. -/
def splitAt (sep : Char) : List Char → List (List Char)
  | [] => [[]]
  | c :: cs =>
    if c = sep then [] :: splitAt sep cs
    else match splitAt sep cs with
      | [] => [[c]]
      | part :: parts => (c :: part) :: parts

/-- The text before the first `sep` and, if there is one, the text after it. -/
def cutAt (sep : Char) : List Char → List Char × Option (List Char)
  | [] => ([], none)
  | c :: cs =>
    if c = sep then ([], some cs)
    else match cutAt sep cs with
      | (before, after) => (c :: before, after)

/-- `cs` without the leading `start`, if it starts with it. -/
def dropStart? : List Char → List Char → Option (List Char)
  | [], cs => some cs
  | _ :: _, [] => none
  | s :: start, c :: cs => if s = c then dropStart? start cs else none

def startsWith (start cs : List Char) : Bool := (dropStart? start cs).isSome

def endsWith (ending cs : List Char) : Bool := startsWith ending.reverse cs.reverse

def occursIn (part : List Char) : List Char → Bool
  | [] => part.isEmpty
  | c :: cs => startsWith part (c :: cs) || occursIn part cs

def joinWith (sep : List Char) : List (List Char) → List Char
  | [] => []
  | [p] => p
  | p :: ps => p ++ sep ++ joinWith sep ps

def joinTexts (sep : String) (parts : List String) : String :=
  .ofList (joinWith sep.toList (parts.map String.toList))

def trimText (s : String) : String := .ofList (trim s.toList)

/-- The parts of a text between the occurrences of `sep`. -/
def splitText (sep : Char) (s : String) : List String := (splitAt sep s.toList).map .ofList

theorem splitAt_ne_nil (sep : Char) (cs : List Char) : splitAt sep cs ≠ [] := by
  cases cs with
  | nil => simp [splitAt]
  | cons c cs => simp only [splitAt]; split <;> (try split) <;> simp

/-- Putting the separator back between the parts restores the text. -/
theorem joinWith_splitAt (sep : Char) (cs : List Char) : joinWith [sep] (splitAt sep cs) = cs := by
  induction cs with
  | nil => rfl
  | cons c cs ih =>
    have hne := splitAt_ne_nil sep cs
    simp only [splitAt]
    split
    · next h =>
      subst h
      cases hs : splitAt c cs with
      | nil => exact absurd hs hne
      | cons p ps => rw [hs] at ih; simp [joinWith, ih]
    · cases hs : splitAt sep cs with
      | nil => exact absurd hs hne
      | cons p ps =>
        rw [hs] at ih
        cases ps with
        | nil => simpa [joinWith] using ih
        | cons q qs => simp only [joinWith] at ih ⊢; simp [← ih]

end RecordGraph
