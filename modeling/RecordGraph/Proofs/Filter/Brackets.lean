import RecordGraph.Proofs.Filter.Idle

/-!
# Brackets in a filter text

Whether a comma ends a clause is decided by the next bracket behind it. In a text whose brackets are closed in pairs,
none within another one, this tells the brackets that were opened before the comma: the text is cut at the commas
outside brackets and nowhere else.
-/

namespace RecordGraph

/-! ## Depth -/

def bracketStep (ch : Char) : Int :=
  if ch = '[' then 1 else if ch = ']' then -1 else 0

/-- How many brackets a text opens and does not close. -/
def bracketDepth (text : List Char) : Int := (text.map bracketStep).sum

/-- The brackets of a text are closed in pairs, and none is opened within another one. -/
structure Balanced (text : List Char) : Prop where
  flat : ∀ start, start <+: text → bracketDepth start = 0 ∨ bracketDepth start = 1
  closed : bracketDepth text = 0

/-- The text that parts are joined to is cut, by these parts, at a comma with this text before and this text after it. -/
def CutBetween (parts : List (List Char)) (before after : List Char) : Prop :=
  ∃ front back, front ≠ [] ∧ back ≠ [] ∧ parts = front ++ back ∧ joinWith [','] front = before ∧
    joinWith [','] back = after

/-- One of the parts has a text in it, with this text before and this text after it in the text that they are joined to. -/
def WithinPart (parts : List (List Char)) (before text after : List Char) : Prop :=
  ∃ front start rest back, parts = front ++ (start ++ text ++ rest) :: back ∧
    joinWith [','] (front ++ [start]) = before ∧ joinWith [','] (rest :: back) = after

section Text

variable {text rest first before after operands : List Char} {ch : Char} {back : List (List Char)}

@[simp] theorem bracketDepth_nil : bracketDepth [] = 0 := rfl

@[simp] theorem bracketDepth_append : bracketDepth (text ++ rest) = bracketDepth text + bracketDepth rest := by
  simp [bracketDepth]

@[simp] theorem bracketDepth_cons : bracketDepth (ch :: text) = bracketStep ch + bracketDepth text := by
  simp [bracketDepth]

theorem Balanced.depth (h : Balanced (before ++ after)) : bracketDepth before = 0 ∨ bracketDepth before = 1 :=
  h.flat before (List.prefix_append before after)

/-- The next bracket is a closing one exactly where a bracket is open. -/
theorem Balanced.closesNext_iff (h : Balanced (before ++ after)) : closesNext after = true ↔ bracketDepth before = 1 := by
  induction after generalizing before with
  | nil =>
      have hclosed : bracketDepth before = 0 := by simpa using h.closed
      simp [closesNext, hclosed]
  | cons ch after ih =>
      have hmoved : Balanced ((before ++ [ch]) ++ after) := by simpa using h
      have hhere := h.depth
      have hbehind : bracketDepth before + bracketStep ch = 0 ∨ bracketDepth before + bracketStep ch = 1 := by
        simpa using hmoved.depth
      have hon : closesNext after = true ↔ bracketDepth before + bracketStep ch = 1 := by simpa using ih hmoved
      by_cases hcloses : ch = ']'
      · have hstep : bracketStep ch = -1 := by rw [hcloses]; rfl
        simp only [closesNext, hcloses, decide_true, Bool.true_or, true_iff]
        omega
      · by_cases hopens : ch = '['
        · have hstep : bracketStep ch = 1 := by rw [hopens]; rfl
          simp only [closesNext, hopens, Char.reduceEq, decide_false, ne_eq, not_true_eq_false, Bool.false_and,
            Bool.or_false, Bool.false_eq_true, false_iff]
          omega
        · have hstep : bracketStep ch = 0 := by rw [bracketStep, if_neg hopens, if_neg hcloses]
          simp only [closesNext, hcloses, hopens, decide_false, Bool.false_or, ne_eq, not_false_eq_true, decide_true,
            Bool.true_and, hon]
          omega

/-! ## Cuts -/

theorem closesNext_comma (h : closesNext after = false) : closesNext (before ++ ',' :: after) = closesNext before := by
  cases hbefore : closesNext before with
  | true => exact closesNext_append hbefore
  | false => exact not_closesNext_append hbefore (by simpa [closesNext] using h)

/-- A text is cut at a comma with no closing bracket next, and on either side as the text on this side alone. -/
theorem splitClauses_comma (h : closesNext after = false) :
    splitClauses (before ++ ',' :: after) = splitClauses before ++ splitClauses after := by
  induction before with
  | nil => simp [splitClauses, h]
  | cons ch before ih =>
      simp only [List.cons_append, splitClauses, closesNext_comma h, ih]
      split
      · rfl
      · cases hsplit : splitClauses before with
        | nil => exact absurd hsplit (splitClauses_ne_nil before)
        | cons first parts => rfl

/-- A comma at which a text is cut has no closing bracket next. -/
theorem not_closesNext_of_cut (h : CutBetween (splitClauses text) before after) : closesNext after = false := by
  obtain ⟨front, back, hfront, -, hparts, -, rfl⟩ := h
  have hopen := (splitClauses_parts text).2
  cases front with
  | nil => exact absurd rfl hfront
  | cons first front =>
      rw [hparts, List.cons_append, List.tail_cons] at hopen
      exact not_closesNext_joinWith fun part hin => hopen part (List.mem_append_right front hin)

theorem cut_iff : CutBetween (splitClauses (before ++ ',' :: after)) before after ↔ closesNext after = false := by
  constructor
  · exact not_closesNext_of_cut
  · intro h
    exact ⟨splitClauses before, splitClauses after, splitClauses_ne_nil before, splitClauses_ne_nil after,
      splitClauses_comma h, joinWith_splitClauses before, joinWith_splitClauses after⟩

/-! ## Lists of operands -/

/-- Text in front of another one leaves the cuts in this one. -/
theorem splitClauses_prepend (before : List Char) (h : splitClauses text = first :: back) :
    ∃ front start, splitClauses (before ++ text) = front ++ (start ++ first) :: back ∧
      joinWith [','] (front ++ [start]) = before := by
  induction before with
  | nil => exact ⟨[], [], h, rfl⟩
  | cons ch before ih =>
      obtain ⟨front, start, hsplit, hjoin⟩ := ih
      simp only [List.cons_append, splitClauses, hsplit]
      split
      · rename_i hcut
        refine ⟨[] :: front, start, rfl, ?_⟩
        cases front <;> simp_all [joinWith]
      · cases front with
        | nil => exact ⟨[], ch :: start, rfl, by simpa [joinWith] using hjoin⟩
        | cons part front =>
            refine ⟨(ch :: part) :: front, start, rfl, ?_⟩
            cases front <;> simp_all [joinWith]

/-- Up to a closing bracket without an opening one before it, a text is not cut. -/
theorem splitClauses_operands (h : '[' ∉ operands) (hrest : splitClauses rest = first :: back) :
    splitClauses (operands ++ ']' :: rest) = (operands ++ ']' :: first) :: back := by
  induction operands with
  | nil => simp [splitClauses, hrest]
  | cons ch operands ih =>
      rw [List.mem_cons, not_or] at h
      have hclosed : closesNext ((operands ++ [']']) ++ rest) = true := closesNext_append (closesNext_closed h.2)
      have hcloses : closesNext (operands ++ ']' :: rest) = true := by simpa using hclosed
      simp only [List.cons_append, splitClauses, hcloses, Bool.true_eq_false, and_false, ↓reduceIte, ih h.2]

/-- A list of operands stays in one part, commas and all. -/
theorem operands_withinPart (h : '[' ∉ operands) (before after : List Char) :
    WithinPart (splitClauses (before ++ '[' :: (operands ++ ']' :: after))) before ('[' :: (operands ++ [']'])) after := by
  cases hafter : splitClauses after with
  | nil => exact absurd hafter (splitClauses_ne_nil after)
  | cons rest back =>
      have hlist : splitClauses ('[' :: (operands ++ ']' :: after)) = ('[' :: (operands ++ ']' :: rest)) :: back := by
        simp [splitClauses, splitClauses_operands h hafter]
      obtain ⟨front, start, hsplit, hjoin⟩ := splitClauses_prepend before hlist
      refine ⟨front, start, rest, back, ?_, hjoin, ?_⟩
      · simpa using hsplit
      · rw [← hafter, joinWith_splitClauses]

end Text

namespace Filter

/-- A text with balanced brackets is cut at the commas outside brackets, and the parts are the clauses that are read,
one after the other. -/
theorem balanced_clauses {text : List Char} (h : Balanced text) (s : Schema) (entity : String) :
    joinWith [','] (splitClauses text) = text ∧
    (∀ before after, text = before ++ ',' :: after →
      (CutBetween (splitClauses text) before after ↔ bracketDepth before = 0)) ∧
    (∀ before operands after, text = before ++ '[' :: (operands ++ ']' :: after) → '[' ∉ operands →
      WithinPart (splitClauses text) before ('[' :: (operands ++ [']'])) after) ∧
    parse s entity text = (splitClauses text).foldlM (addClause s entity) [] := by
  refine ⟨joinWith_splitClauses text, ?_, ?_, ?_⟩
  · rintro before after rfl
    have hbehind : Balanced ((before ++ [',']) ++ after) := by simpa using h
    have hnext : closesNext after = true ↔ bracketDepth before = 1 := by
      simpa [bracketStep] using hbehind.closesNext_iff
    have hdepth := h.depth
    rw [cut_iff, Bool.eq_false_iff, ne_eq, hnext]
    omega
  · rintro before operands after rfl hopen
    exact operands_withinPart hopen before after
  · obtain ⟨hwhole, hopen⟩ := splitClauses_parts text
    have hparts : parse s entity (joinWith [','] (splitClauses text)) = _ := parse_parts hwhole hopen
    rwa [joinWith_splitClauses] at hparts

/-! Posts with one of two comments and an id: one comma is within brackets, the other one is not. -/

def postsByComments : List Char := "comments.id=[1,2],id=3".toList

theorem postsByComments_balanced : Balanced postsByComments where
  flat start hstart := by
    have hall : ∀ start ∈ postsByComments.inits, bracketDepth start = 0 ∨ bracketDepth start = 1 := by decide
    exact hall start ((List.mem_inits _ _).mpr hstart)
  closed := by decide

theorem postsByComments_cut :
    Balanced postsByComments ∧ CutBetween (splitClauses postsByComments) "comments.id=[1,2]".toList "id=3".toList ∧
    ¬CutBetween (splitClauses postsByComments) "comments.id=[1".toList "2],id=3".toList ∧
    WithinPart (splitClauses postsByComments) "comments.id=".toList "[1,2]".toList ",id=3".toList ∧
    parse Catalog.blogCatalog.schema "Post" postsByComments =
      ["comments.id=[1,2]".toList, "id=3".toList].foldlM (addClause Catalog.blogCatalog.schema "Post") [] := by
  obtain ⟨-, hcuts, hlists, hparse⟩ :=
    balanced_clauses postsByComments_balanced Catalog.blogCatalog.schema "Post"
  refine ⟨postsByComments_balanced, ?_, ?_, ?_, hparse⟩
  · exact (hcuts "comments.id=[1,2]".toList "id=3".toList rfl).mpr (by decide)
  · exact fun hcut => absurd ((hcuts "comments.id=[1".toList "2],id=3".toList rfl).mp hcut) (by decide)
  · exact hlists "comments.id=".toList "1,2".toList ",id=3".toList rfl (by decide)

end Filter

end RecordGraph
