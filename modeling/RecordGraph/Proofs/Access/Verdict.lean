import RecordGraph.Proofs.Access.Conjunction
import RecordGraph.Proofs.Relational.Finding

/-!
# Verdicts of merged filters

A filter finds of a row that it holds, fails or is unknown, or cannot be read at all. The verdict of a merged
filter is the conjunction of the verdicts of its two sides: a row that the one rejects or leaves unknown stays
rejected or unknown, whatever the other says and whatever keys they share.
-/

namespace RecordGraph

namespace Catalog

variable {c : Catalog} {m : Model} {db : Database} {row : Row} {kv : String × Value} {o : Object} {v : Value}
  {a b : Option Truth} {n : Nat}

/-- What a filter finds of a row, if the filter can be read. -/
def verdict (c : Catalog) (m : Model) (db : Database) (row : Row) (v : Value) : Option Truth :=
  (c.condition m v).toOption.map (·.eval db row)

def memberVerdict (c : Catalog) (m : Model) (db : Database) (row : Row) (kv : String × Value) : Option Truth :=
  (c.memberCondition m kv.1 kv.2).toOption.map (·.eval db row)

def listVerdict (c : Catalog) (m : Model) (db : Database) (row : Row) (vs : List Value) : Option Truth :=
  (c.conditionList m vs).toOption.map (Condition.evalAll db row)

/-- The conjunction of two verdicts. It cannot be read if one of them cannot. -/
def both : Option Truth → Option Truth → Option Truth
  | some a, some b => some (a.and b)
  | _, _ => none

/-- How near a verdict is to selecting the row. -/
def rank : Option Truth → Nat
  | none => 0
  | some .fails => 1
  | some .unknown => 2
  | some .holds => 3

theorem rank_le : rank a ≤ 3 := by
  rcases a with _ | _ | _ | _ <;> decide

theorem rank_both : rank (both a b) = min (rank a) (rank b) := by
  rcases a with _ | _ | _ | _ <;> rcases b with _ | _ | _ | _ <;> rfl

theorem both_holds_iff : both a b = some .holds ↔ a = some .holds ∧ b = some .holds := by
  rcases a with _ | a <;> rcases b with _ | b <;> simp [both, Truth.and_holds_iff]

theorem eq_of_rank (h : ∀ n ≤ 3, n ≤ rank a ↔ n ≤ rank b) : a = b := by
  have hrank : rank a = rank b := Nat.le_antisymm ((h _ rank_le).mp (Nat.le_refl _)) ((h _ rank_le).mpr (Nat.le_refl _))
  rcases a with _ | _ | _ | _ <;> rcases b with _ | _ | _ | _ <;> first | rfl | (cases hrank)

theorem satisfies_iff_verdict : c.Satisfies m db row v ↔ c.verdict m db row v = some .holds := by
  unfold Satisfies verdict
  cases c.condition m v with
  | error failure => simp [Except.toOption]
  | ok cond => simp [Except.toOption, Condition.selects_iff]

theorem verdict_nil : c.verdict m db row (.object []) = some .holds := by
  simp [verdict, condition, conditions, Except.toOption, Condition.eval, Condition.evalAll, pure, Except.pure]

theorem verdict_cons : c.verdict m db row (.object (kv :: o)) =
    both (c.memberVerdict m db row kv) (c.verdict m db row (.object o)) := by
  obtain ⟨key, v⟩ := kv
  unfold verdict memberVerdict
  rw [condition, condition, conditions_cons]
  cases c.memberCondition m key v <;> cases c.conditions m o <;> rfl

theorem listVerdict_cons {vs : List Value} : c.listVerdict m db row (v :: vs) =
    both (c.verdict m db row v) (c.listVerdict m db row vs) := by
  unfold listVerdict verdict
  rw [conditionList]
  cases c.condition m v <;> cases c.conditionList m vs <;> rfl

theorem memberVerdict_and : c.memberVerdict m db row ("AND", v) = c.listVerdict m db row v.asItems := by
  have hparts : c.parts m v = c.conditionList m v.asItems := by
    cases v with
    | null | list vs => rfl
    | _ => simp only [parts, Value.asItems, conditionList, pure_bind, map_eq_pure_bind]
  unfold memberVerdict listVerdict
  simp only [memberCondition, hparts]
  cases c.conditionList m v.asItems <;> rfl

theorem le_rank_object (hn : n ≤ 3) : n ≤ rank (c.verdict m db row (.object o)) ↔
    ∀ kv ∈ o, n ≤ rank (c.memberVerdict m db row kv) := by
  induction o with
  | nil => simpa [verdict_nil, rank] using hn
  | cons kv o ih => simp [verdict_cons, rank_both, ih]

theorem le_rank_and (hn : n ≤ 3) : n ≤ rank (c.memberVerdict m db row ("AND", v)) ↔
    ∀ item ∈ v.asItems, n ≤ rank (c.verdict m db row item) := by
  rw [memberVerdict_and]
  induction v.asItems with
  | nil => simpa [listVerdict, conditionList, Except.toOption, Condition.evalAll, rank, pure, Except.pure] using hn
  | cons item items ih => simp [listVerdict_cons, rank_both, ih]

end Catalog

namespace Guard

variable {c : Catalog} {m : Model} {db : Database} {row : Row} {filter guard : Object} {n : Nat}

theorem conjunctive_rank (hn : n ≤ 3) : Conjunctive (fun v => n ≤ Catalog.rank (c.verdict m db row v))
    fun kv => n ≤ Catalog.rank (c.memberVerdict m db row kv) :=
  ⟨Catalog.le_rank_object hn, Catalog.le_rank_and hn⟩

/-- Merging is conjunction, of verdicts and so of what rows satisfy, if conditions on one key that are taken for
equal find the same of the row. -/
theorem merge_conjoins (hf : filter.keys.Nodup) (hg : guard.keys.Nodup)
    (ha : ∀ key v w, (key, v) ∈ filter → (key, w) ∈ guard → v.same w = true →
      c.memberVerdict m db row (key, v) = c.memberVerdict m db row (key, w)) :
    c.verdict m db row (.object (merge filter guard)) =
      Catalog.both (c.verdict m db row (.object filter)) (c.verdict m db row (.object guard)) ∧
    (c.Satisfies m db row (.object (merge filter guard)) ↔
      c.Satisfies m db row (.object filter) ∧ c.Satisfies m db row (.object guard)) := by
  have hverdict : c.verdict m db row (.object (merge filter guard)) =
      Catalog.both (c.verdict m db row (.object filter)) (c.verdict m db row (.object guard)) := by
    apply Catalog.eq_of_rank
    intro n hn
    rw [Catalog.rank_both, Nat.le_min]
    refine (conjunctive_rank hn).merge_iff hf hg fun key v w hv hw hsame hheld => ?_
    rwa [ha key v w hv hw hsame]
  refine ⟨hverdict, ?_⟩
  rw [Catalog.satisfies_iff_verdict, Catalog.satisfies_iff_verdict, Catalog.satisfies_iff_verdict, hverdict,
    Catalog.both_holds_iff]

/-! A comment that nobody has reviewed yet, asked for where only approved comments are open. -/

def pending : Row := [("id", .integer 4), ("body", .text "well"), ("approved", .null), ("postId", .integer 3)]

def pendingFilter : Object :=
  [("approved", .null), ("AND", .object [("postId", .int 3)]), ("NOT", .object [("id", .int 2)])]

def approvedGuard : Object :=
  [("AND", .list [.object [("approved", .bool true)]]), ("NOT", .object [("id", .int 2)]),
    ("approved", .object [("not", .bool false)])]

/-- The two share all their keys. Asked alone the row is found; merged, this is unknown, as the guard has it. -/
theorem pending_unknown :
    let comments := (Catalog.blogCatalog.model? "Comment").getD default
    let find (v : Object) := Catalog.blogCatalog.verdict comments Catalog.blogDatabase pending (.object v)
    pendingFilter.keys.Nodup ∧ approvedGuard.keys.Nodup ∧
    (∀ key v w, (key, v) ∈ pendingFilter → (key, w) ∈ approvedGuard → v.same w = true →
      Catalog.blogCatalog.memberVerdict comments Catalog.blogDatabase pending (key, v) =
        Catalog.blogCatalog.memberVerdict comments Catalog.blogDatabase pending (key, w)) ∧
    find pendingFilter = some .holds ∧ find approvedGuard = some .unknown ∧
    find (merge pendingFilter approvedGuard) = some .unknown := by
  intro comments find
  have hf : pendingFilter.keys.Nodup := by decide
  have hg : approvedGuard.keys.Nodup := by decide
  have ha : ∀ key v w, (key, v) ∈ pendingFilter → (key, w) ∈ approvedGuard → v.same w = true → v = w := by
    intro key v w hv hw hsame
    simp only [pendingFilter, approvedGuard, List.mem_cons, Prod.mk.injEq, List.not_mem_nil, or_false] at hv hw
    rcases hv with ⟨rfl, rfl⟩ | ⟨rfl, rfl⟩ | ⟨rfl, rfl⟩ <;> rcases hw with ⟨_, rfl⟩ | ⟨_, rfl⟩ | ⟨_, rfl⟩ <;>
      first | rfl | cases hsame
  have hread : ∀ key v w, (key, v) ∈ pendingFilter → (key, w) ∈ approvedGuard → v.same w = true →
      Catalog.blogCatalog.memberVerdict comments Catalog.blogDatabase pending (key, v) =
        Catalog.blogCatalog.memberVerdict comments Catalog.blogDatabase pending (key, w) :=
    fun key v w hv hw hsame => by rw [ha key v w hv hw hsame]
  have hfilter : find pendingFilter = some .holds := by cbv
  have hguard : find approvedGuard = some .unknown := by cbv
  refine ⟨hf, hg, hread, hfilter, hguard, ?_⟩
  have hmerged := (merge_conjoins hf hg hread).1
  change find (merge pendingFilter approvedGuard) = Catalog.both (find pendingFilter) (find approvedGuard) at hmerged
  rw [hmerged, hfilter, hguard]
  rfl

end Guard

end RecordGraph
