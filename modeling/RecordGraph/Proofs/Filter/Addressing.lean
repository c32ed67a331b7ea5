import RecordGraph.Proofs.Filter.Joining

/-!
# Clauses on their own

A text that is one clause on a field of its entity, with an operand that no comma cuts in two, is read as
that clause.
-/

namespace RecordGraph

section Text

variable {text start rest : List Char} {ch sep : Char}

theorem splitClauses_cons (hclosed : ch = ',' → closesNext text = true) (h : splitClauses text = [text]) :
    splitClauses (ch :: text) = [ch :: text] := by
  rw [splitClauses, if_neg, h]
  rintro ⟨hcomma, hopen⟩
  rw [hclosed hcomma] at hopen
  cases hopen

theorem splitClauses_append_left (hstart : ',' ∉ start) (h : splitClauses text = [text]) :
    splitClauses (start ++ text) = [start ++ text] := by
  induction start with
  | nil => exact h
  | cons ch start ih =>
      rw [List.mem_cons, not_or] at hstart
      exact splitClauses_cons (fun hcomma => absurd hcomma.symm hstart.1) (ih hstart.2)

theorem closesNext_closed (h : '[' ∉ text) : closesNext (text ++ [']']) = true := by
  induction text with
  | nil => rfl
  | cons ch text ih =>
      rw [List.mem_cons, not_or] at h
      simp [closesNext, ih h.2, Ne.symm h.1]

/-- The commas of a list of operands end no clause. -/
theorem splitClauses_closed (h : '[' ∉ text) : splitClauses (text ++ [']']) = [text ++ [']']] := by
  induction text with
  | nil => rfl
  | cons ch text ih =>
      rw [List.mem_cons, not_or] at h
      exact splitClauses_cons (fun _ => closesNext_closed h.2) (ih h.2)

end Text

namespace Filter

/-- A list without lists in it, or a text without commas and brackets. -/
def Single (operand : List Char) : Prop :=
  (∃ body, operand = '[' :: (body ++ [']']) ∧ '[' ∉ body ∧ ']' ∉ body) ∨
    (',' ∉ operand ∧ '[' ∉ operand ∧ ']' ∉ operand)

/-- A name that a clause can address, and that means a field wherever it stands in a tree. -/
structure Addressable (name : String) : Prop where
  uncut : ∀ ch ∈ [',', '=', '.'], ch ∉ name.toList
  trimmed : trim name.toList = name.toList
  unreserved : name ∉ ["AND", "OR", "NOT"]

variable {s : Schema} {e : Entity} {field : Field} {entity name : String} {start operand : List Char}

theorem Single.whole (h : Single operand) : splitClauses operand = [operand] := by
  rcases h with ⟨body, rfl, hopen, _⟩ | ⟨hcomma, _⟩
  · exact splitClauses_cons (fun hch => absurd hch (by decide)) (splitClauses_closed hopen)
  · have hwhole : splitClauses (operand ++ []) = [operand ++ []] := splitClauses_append_left hcomma rfl
    rwa [List.append_nil] at hwhole

theorem Addressable.read? (h : Addressable name) (htrim : trim operand = operand) :
    Clause.read? (name.toList ++ '=' :: operand) = some ⟨[], name, operand⟩ := by
  unfold Clause.read?
  rw [cutAt_append (h.uncut '=' (by simp))]
  dsimp only
  rw [splitAt_whole (h.uncut '.' (by simp)), htrim]
  simp [h.trimmed]

/-- The text of one clause on a field of its entity changes an empty tree by that clause. -/
theorem parse_clause (he : s.entity entity = .ok e) (hf : e.field? name = some field) (hname : Addressable name)
    (hwhole : splitClauses operand = [operand]) (htrim : trim operand = operand) :
    parse s entity (name.toList ++ '=' :: operand) = applyClause s entity name operand [] := by
  have hsplit : splitClauses (name.toList ++ '=' :: operand) = [name.toList ++ '=' :: operand] :=
    splitClauses_append_left (hname.uncut ',' (by simp)) (splitClauses_cons (fun hch => absurd hch (by decide)) hwhole)
  rw [parse_split (by simp), hsplit, List.foldlM_cons, addClause_own he (hname.read? htrim) rfl hf]
  simp

end Filter

end RecordGraph
