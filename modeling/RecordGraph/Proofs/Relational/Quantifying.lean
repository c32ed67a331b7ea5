import RecordGraph.Proofs.Filter.Paths
import RecordGraph.Proofs.Relational.Deciding
import RecordGraph.Proofs.Relational.Finding

/-!
# What is asked of linked rows

Under the name of a list link stands a word that says of how many of its rows a filter is to hold. To ask for every one
of them, the condition on a row is denied twice, and a denial holds only where what it denies fails. So a row of which
it is unknown whether the filter holds counts as one that satisfies it for `every`, and as one that does not for `none`.
-/

namespace RecordGraph

/-- Of how many rows of a list link a filter is to hold. -/
inductive Quantifier where
  | some
  | none
  | every
deriving Repr, DecidableEq

namespace Quantifier

def word : Quantifier → String
  | .some => "some"
  | .none => "none"
  | .every => "every"

theorem word_mem (q : Quantifier) : q.word ∈ Link.quantifiers := by cases q <;> decide

/-- The condition that as many linked rows are as a condition says. -/
def around (q : Quantifier) (l : Link) (p : Condition) : Condition :=
  match q with
  | .some => .linked l p
  | .none => .negation (.linked l p)
  | .every => .negation (.linked l (.negation p))

end Quantifier

/-- The filter that asks for as many rows of a link as a quantifier says. -/
def Filter.asking (name : String) (q : Quantifier) (v : Value) : Value := .object [(name, .object [(q.word, v)])]

namespace Condition

variable {db : Database} {row : Row} {l : Link} {p : Condition}

/-- Whether there are linked rows is known, so that its denial is just that there are none. -/
theorem selects_unlinked_iff : (negation (linked l p)).selects db row = true ↔
    ∀ other ∈ db.linkedRows l row, ¬ p.selects db other = true := by
  have hnot : (negation (linked l p)).selects db row = !(linked l p).selects db row := by
    simp only [selects, eval]
    cases (db.linkedRows l row).any _ <;> rfl
  rw [hnot, Bool.not_eq_true', ← Bool.not_eq_true, selects_linked_iff]
  simp only [not_exists, not_and]

theorem selects_negation_iff : p.negation.selects db row = true ↔ p.eval db row = .fails := by
  rw [selects_iff, eval]
  cases p.eval db row <;> simp [Truth.not]

/-- The rows that leave a condition unknown are not told from those of which it holds. -/
theorem selects_every_iff : (Quantifier.every.around l p).selects db row = true ↔
    ∀ other ∈ db.linkedRows l row, p.eval db other ≠ .fails := by
  rw [Quantifier.around, selects_unlinked_iff]
  simp only [selects_negation_iff, ne_eq]

theorem selects_iff_ne_fails (h : p.eval db row ≠ .unknown) : p.selects db row = true ↔ p.eval db row ≠ .fails := by
  rw [selects_iff]
  cases hp : p.eval db row <;> simp_all

end Condition

namespace Catalog

variable {c : Catalog} {m target : Model} {l : Link} {name : String} {v : Value} {cond : Condition} {q : Quantifier}
  {db : Database} {row : Row}

theorem wordCondition_quantifier (hlist : l.isList = true) :
    c.wordCondition l target q.word v = q.around l <$> c.condition target v := by
  cases q <;> simp only [wordCondition, hlist, Quantifier.word] <;> rfl

section Asking

variable (hkey : name ∉ ["AND", "OR", "NOT"]) (hl : m.link? name = some l) (hlist : l.isList = true)
  (hn : c.named l.target = .ok target)

include hkey hl hlist hn

theorem condition_asking : c.condition m (Filter.asking name q v) =
    (fun p => .all [.all [q.around l p]]) <$> c.condition target v := by
  have hasked : ([(q.word, v)].any fun kv => Link.quantifiers.contains kv.1) = true := by simpa using q.word_mem
  rw [Filter.asking, condition, conditions_cons, memberCondition_name hkey, hl]
  simp only [linkCondition, hn, hlist, if_true, bind, Except.bind, hasked, linkConditions_cons, wordCondition_quantifier hlist]
  cases c.condition target v <;> rfl

theorem satisfies_asking_iff (hcond : c.condition target v = .ok cond) :
    c.Satisfies m db row (Filter.asking name q v) ↔ (q.around l cond).selects db row = true := by
  rw [Satisfies, condition_asking hkey hl hlist hn, hcond]
  simp [Condition.selects_all_iff]

/-- A filter on the rows of a list link is refused as the filter on a row is, and is handed the same operands. It selects
the rows with a linked row that satisfies the filter, those without one, or those of whose linked rows none fails it:
these are the rows of which every linked row satisfies it, if it is decided in them. -/
theorem quantifiers_mean (v : Value) :
    (∀ q, Condition.operands <$> c.condition m (Filter.asking name q v) = Condition.operands <$> c.condition target v) ∧
    ∀ cond, c.condition target v = .ok cond → ∀ db row,
      (c.Satisfies m db row (Filter.asking name .some v) ↔
        ∃ other ∈ db.linkedRows l row, c.Satisfies target db other v) ∧
      (c.Satisfies m db row (Filter.asking name .none v) ↔
        ∀ other ∈ db.linkedRows l row, ¬ c.Satisfies target db other v) ∧
      (c.Satisfies m db row (Filter.asking name .every v) ↔
        ∀ other ∈ db.linkedRows l row, cond.eval db other ≠ .fails) ∧
      ((∀ other ∈ db.linkedRows l row, cond.eval db other ≠ .unknown) →
        (c.Satisfies m db row (Filter.asking name .every v) ↔
          ∀ other ∈ db.linkedRows l row, c.Satisfies target db other v)) := by
  refine ⟨fun q => ?operands, fun cond hcond db row => ?selected⟩
  case operands =>
    rw [condition_asking hkey hl hlist hn, ← comp_map]
    congr 1; funext p
    cases q <;> simp [Quantifier.around, Condition.operands, Condition.operandsOf, Condition.constantAll?, Condition.constant?]
  case selected =>
    have hsatisfies (other : Row) : c.Satisfies target db other v ↔ cond.selects db other = true := by
      simp only [Satisfies, hcond, Except.ok.injEq, exists_eq_left']
    simp only [satisfies_asking_iff hkey hl hlist hn hcond, hsatisfies]
    refine ⟨Condition.selects_linked_iff, Condition.selects_unlinked_iff, Condition.selects_every_iff, fun hknown => ?_⟩
    rw [Condition.selects_every_iff]
    exact forall₂_congr fun other hin => (Condition.selects_iff_ne_fails (hknown other hin)).symm

/-- Every linked row satisfies the filter, if all of them have a value in each column that it compares. -/
theorem every_means_of_filled (hcond : c.condition target v = .ok cond)
    (hfilled : ∀ other ∈ db.linkedRows l row, ∀ column ∈ cond.columns, (other.get column).isNull = false)
    (htaken : ∀ operand ∈ cond.operands, Condition.Taken operand) :
    c.Satisfies m db row (Filter.asking name .every v) ↔ ∀ other ∈ db.linkedRows l row, c.Satisfies target db other v := by
  rw [satisfies_asking_iff hkey hl hlist hn hcond, Condition.selects_every_iff]
  refine forall₂_congr fun other hin => ?_
  rw [← Condition.selects_iff_ne_fails (Condition.eval_filled (hfilled other hin) htaken)]
  simp only [Satisfies, hcond, Except.ok.injEq, exists_eq_left']

end Asking

/-! Posts by what was said of their comments. -/

def approved : Value := .object [("approved", .bool true)]

def approvedCondition : Condition := .all [.compare .equal "approved" (.ok (.integer 1))]

def discussedPost : Row := [("id", .integer 3), ("authorId", .integer 7)]

theorem satisfies_approved_iff : blogCatalog.Satisfies blogComments db row approved ↔
    approvedCondition.selects db row = true := by
  have hcond : blogCatalog.condition blogComments approved = .ok approvedCondition := rfl
  simp only [Satisfies, hcond, Except.ok.injEq, exists_eq_left']

/-- One comment of the post was approved, and one was not. -/
theorem discussedPost_asked :
    "comments" ∉ ["AND", "OR", "NOT"] ∧ blogPosts.link? "comments" = some postComments ∧ postComments.isList = true ∧
    blogCatalog.named postComments.target = .ok blogComments ∧
    blogCatalog.Satisfies blogPosts blogDatabase discussedPost (Filter.asking "comments" .some approved) ∧
    ¬ blogCatalog.Satisfies blogPosts blogDatabase discussedPost (Filter.asking "comments" .none approved) ∧
    ¬ blogCatalog.Satisfies blogPosts blogDatabase discussedPost (Filter.asking "comments" .every approved) := by
  have hkey : "comments" ∉ ["AND", "OR", "NOT"] := by decide
  have hl : blogPosts.link? "comments" = some postComments := rfl
  have hn : blogCatalog.named postComments.target = .ok blogComments := rfl
  obtain ⟨hsome, hnone, hevery, -⟩ :=
    (quantifiers_mean hkey hl rfl hn approved).2 approvedCondition rfl blogDatabase discussedPost
  simp only [satisfies_approved_iff] at hsome hnone
  rw [hsome, hnone, hevery]
  exact ⟨hkey, hl, rfl, hn, by decide, by decide, by decide⟩

/-- Nobody has yet decided whether the comment on the post is to be approved. -/
def pendingDatabase : Database := { tables := [
  ("Comment", [[("id", .integer 1), ("body", .text "new"), ("approved", .null), ("postId", .integer 3)]]),
  ("Post", [discussedPost])] }

/-- The post is selected both as one whose comments were all approved and as one of whose comments none was. -/
theorem pendingPost_every :
    blogCatalog.Satisfies blogPosts pendingDatabase discussedPost (Filter.asking "comments" .every approved) ∧
    blogCatalog.Satisfies blogPosts pendingDatabase discussedPost (Filter.asking "comments" .none approved) ∧
    ¬ ∀ other ∈ pendingDatabase.linkedRows postComments discussedPost,
      blogCatalog.Satisfies blogComments pendingDatabase other approved := by
  have hkey : "comments" ∉ ["AND", "OR", "NOT"] := by decide
  simp only [satisfies_approved_iff,
    satisfies_asking_iff hkey (c := blogCatalog) (m := blogPosts) (l := postComments) rfl rfl rfl
      (show blogCatalog.condition blogComments approved = .ok approvedCondition from rfl)]
  exact ⟨by decide, by decide, by decide⟩

end Catalog

end RecordGraph
