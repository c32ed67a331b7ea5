import RecordGraph.Proofs.Filter.Addressing
import RecordGraph.Proofs.Filter.Vocabulary

/-!
# Paths of relations

A clause at the end of a path of relations is read as a condition that there are linked rows, one after the other,
the last of which is as the clause says. So a row is selected exactly if a row is reached along the path that the
clause alone selects.
-/

namespace RecordGraph

/-- The entity that a path of relations leads to. -/
def Schema.reached? (s : Schema) (entity : String) : List String → Option String
  | [] => some entity
  | name :: path =>
    match s.relation? entity name with
    | .ok (some r) => s.reached? r.target path
    | _ => none

/-- A row is reached from another one through links with the names of a path. -/
inductive Catalog.Reaches (c : Catalog) (db : Database) : Model → Row → List String → Model → Row → Prop
  | here {m : Model} {row : Row} : Reaches c db m row [] m row
  | step {m target last : Model} {row other final : Row} {name : String} {path : List String} {l : Link}
    (hl : m.link? name = some l) (hn : c.named l.target = .ok target) (hin : other ∈ db.linkedRows l row)
    (h : Reaches c db target other path last final) : Reaches c db m row (name :: path) last final

/-! ## One step of a path -/

namespace Condition

variable {db : Database} {row : Row} {l : Link} {p : Condition}

theorem selects_linked_iff : (linked l p).selects db row = true ↔
    ∃ other ∈ db.linkedRows l row, p.selects db other = true := by
  simp only [selects, eval, beq_iff_eq, Truth.ofBool_holds_iff, List.any_eq_true]

/-- A row that a link leads to, of which a condition holds. -/
def hop (l : Link) (p : Condition) : Condition := if l.isList then .all [.linked l p] else .linked l p

theorem selects_hop_iff : (hop l p).selects db row = true ↔ ∃ other ∈ db.linkedRows l row, p.selects db other = true := by
  rw [hop, ← selects_linked_iff]
  split
  · simp [selects_all_iff]
  · rfl

/-- A hop names a column only through its condition, so that what stands beside it never settles it. -/
theorem constant?_hop : (hop l p).constant? = none := by
  rw [hop]
  split <;> simp [constant?, constantAll?]

theorem operands_hop : (hop l p).operands = p.operands := by
  rw [hop]
  split <;> simp [operands, operandsOf, constant?, constantAll?]

end Condition

namespace Filter

/-- The filter of the rows that a link leads to. -/
def hop (l : Link) (inner : Object) : Value :=
  if l.isList then .object [("some", .object inner)] else .object inner

end Filter

namespace Catalog

open RecordGraph.Filter

variable {c : Catalog} {m target : Model} {db : Database} {row : Row} {name : String} {l : Link} {inner : Object}

section Hop

variable (hkey : name ∉ reserved) (hl : m.link? name = some l) (hn : c.named l.target = .ok target)
  (hinner : ∀ kv ∈ inner, kv.1 ∉ Link.assertions)

include hkey hl hn hinner

theorem memberCondition_hop :
    c.memberCondition m name (Filter.hop l inner) = Condition.hop l <$> c.condition target (.object inner) := by
  rw [memberCondition_name (not_logical_of_not_reserved hkey), hl]
  simp only [linkCondition, hn, Filter.hop]
  cases hlist : l.isList with
  | true =>
      have hhop : Condition.hop l = fun p => .all [.linked l p] := by
        funext p
        rw [Condition.hop, hlist, if_pos rfl]
      have hword : ([("some", Value.object inner)].any fun kv => Link.quantifiers.contains kv.1) = true := rfl
      have hsome : c.wordCondition l target "some" (.object inner) = .linked l <$> c.condition target (.object inner) := by
        simp only [wordCondition, hlist]
      have hnil : c.linkConditions l target [] = .ok [] := by
        rw [linkConditions]
        rfl
      simp only [if_true, bind, Except.bind, hword, linkConditions_cons, hsome, hnil, hhop]
      cases c.condition target (.object inner) <;> rfl
  | false =>
      have hhop : Condition.hop l = .linked l := by
        funext p
        rw [Condition.hop, hlist, if_neg Bool.false_ne_true]
      have hplain : (inner.any fun kv => Link.assertions.contains kv.1) = false := by
        simpa using hinner
      simp only [Bool.false_eq_true, if_false, bind, Except.bind, hplain, hhop, condition]
      cases c.conditions target inner <;> rfl

theorem satisfiesMember_hop_iff : c.SatisfiesMember m db row (name, Filter.hop l inner) ↔
    ∃ other ∈ db.linkedRows l row, c.Satisfies target db other (.object inner) := by
  simp only [SatisfiesMember, memberCondition_hop hkey hl hn hinner, map_ok_iff, Satisfies]
  constructor
  · rintro ⟨_, ⟨p, hp, rfl⟩, hsel⟩
    obtain ⟨other, hin, hother⟩ := Condition.selects_hop_iff.mp hsel
    exact ⟨other, hin, p, hp, hother⟩
  · rintro ⟨other, hin, p, hp, hother⟩
    exact ⟨_, ⟨p, hp, rfl⟩, Condition.selects_hop_iff.mpr ⟨other, hin, hother⟩⟩

end Hop

end Catalog

namespace Filter

/-! ## Whole paths -/

variable {c : Catalog} {m last : Model} {entity final : String} {path : List String} {own : Object}

/-- A condition on rows that are reached along a path: it asks for such a row, and for nothing else. -/
structure Along (c : Catalog) (m : Model) (path : List String) (last : Model) (around : Condition → Condition) : Prop where
  selects : ∀ db row p, (around p).selects db row = true ↔
    ∃ other, c.Reaches db m row path last other ∧ p.selects db other = true
  operands : ∀ p, (around p).operands = p.operands

theorem Along.here : Along c m [] m id where
  selects db row p := by
    constructor
    · exact fun h => ⟨row, .here, h⟩
    · rintro ⟨_, ⟨⟩, h⟩
      exact h
  operands _ := rfl

theorem Along.step {target : Model} {name : String} {l : Link} {around : Condition → Condition}
    (hl : m.link? name = some l) (hn : c.named l.target = .ok target) (h : Along c target path last around) :
    Along c m (name :: path) last fun p => .all [.hop l (around p)] where
  selects db row p := by
    simp only [Condition.selects_all_iff, List.mem_singleton, forall_eq, Condition.selects_hop_iff, h.selects]
    constructor
    · rintro ⟨other, hin, end_, hrest, hsel⟩
      exact ⟨end_, .step hl hn hin hrest, hsel⟩
    · rintro ⟨end_, hreach, hsel⟩
      cases hreach with
      | step hl' hn' hin hrest =>
          cases hl.symm.trans hl'
          cases hn.symm.trans hn'
          exact ⟨_, hin, end_, hrest, hsel⟩
  operands p := by
    simp [Condition.operands, Condition.operandsOf, Condition.constantAll?, Condition.constant?_hop,
      Condition.operands_hop, h.operands]

/-- A tree that is empty is changed at the end of a path, and the way to it is built: it is a condition on the rows
that are reached. -/
theorem alongPath_nil (h : c.WellFormed) (hc : c.Unreserved) (root : String)
    {change : String → Object → Except Failure Object} (hm : c.model? entity = some m)
    (hpath : c.schema.reached? entity path = some final) (hlast : c.model? final = some last)
    (hchange : change final [] = .ok own) (hown : ∀ kv ∈ own, kv.1 ∉ Link.assertions) :
    ∃ tree around, alongPath c.schema root change path entity [] = .ok tree ∧ Along c m path last around ∧
      c.condition m (.object tree) = around <$> c.condition last (.object own) ∧ ∀ kv ∈ tree, kv.1 ∉ Link.assertions := by
  induction path generalizing entity m with
  | nil =>
      cases hpath
      cases hm.symm.trans hlast
      exact ⟨own, id, hchange, .here, (id_map _).symm, hown⟩
  | cons name path ih =>
      rw [Schema.reached?, c.schema_relation? hm name] at hpath
      cases hl : m.link? name with
      | none => simp [hl] at hpath
      | some l =>
          simp only [hl, Option.map_some] at hpath
          obtain ⟨hname, htarget, hlist⟩ := c.relationOf_facts l
          have hlname : l.name = name := by simpa using List.find?_some hl
          obtain ⟨target, ht, hn⟩ := Catalog.link_target h hm hl
          rw [htarget] at hpath
          obtain ⟨inner, around, hinner, halong, hcond, hkeys⟩ := ih ht hpath
          have hreserved : name ∉ reserved :=
            hc _ (Catalog.mem_of_model? hm) name (.inl (Option.isSome_iff_exists.mpr ⟨l, hl⟩))
          refine ⟨[(name, hop l inner)], fun p => .all [.hop l (around p)], ?_, halong.step hl hn, ?_, ?_⟩
          · rw [alongPath, c.schema_relation? hm name, hl]
            simp only [Option.map_some, bind, Except.bind, Object.get, Object.get?, Option.getD_none, hname, hlname,
              htarget, hinner, hlist, Object.set, hop]
            rfl
          · rw [Catalog.condition, Catalog.conditions_cons,
              Catalog.memberCondition_hop hreserved hl hn hkeys, hcond]
            cases c.condition last (.object own) <;> rfl
          · intro kv hin
            cases List.mem_singleton.mp hin
            intro hword
            refine hreserved ?_
            simp only [Link.assertions, List.mem_cons, List.not_mem_nil, or_false] at hword
            rcases hword with rfl | rfl <;> decide

/-- The text of a clause on the field at the end of a path. -/
def pathText (path : List String) (name : String) (operand : List Char) : List Char :=
  joinWith ['.'] ((path ++ [name]).map String.toList) ++ '=' :: operand

variable {s : Schema} {e : Entity} {field : Field} {name : String} {operand text : List Char} {tree : Object}

theorem pathText_read? (hnames : ∀ segment ∈ path ++ [name], Addressable segment) :
    Clause.read? (pathText path name operand) = some ⟨path, name, trim operand⟩ := by
  have hfree {ch : Char} (hch : ch ∈ [',', '=', '.']) : ∀ part ∈ (path ++ [name]).map String.toList, ch ∉ part := by
    intro part hin
    obtain ⟨segment, hsegment, rfl⟩ := List.mem_map.mp hin
    exact (hnames segment hsegment).uncut ch hch
  have htrimmed : ((path ++ [name]).map String.toList).map (fun part => String.ofList (trim part)) = path ++ [name] := by
    rw [List.map_map]
    conv_rhs => rw [← List.map_id (path ++ [name])]
    refine List.map_congr_left fun segment hin => ?_
    simp [(hnames segment hin).trimmed]
  unfold Clause.read? pathText
  rw [cutAt_append (not_mem_joinWith (by decide) (hfree (by simp)))]
  dsimp only
  rw [splitAt_joinWith (by simp) (hfree (by simp)), htrimmed]
  simp

theorem pathText_whole (hnames : ∀ segment ∈ path ++ [name], Addressable segment) (h : splitClauses operand = [operand]) :
    splitClauses (pathText path name operand) = [pathText path name operand] := by
  apply splitClauses_append_left
  · refine not_mem_joinWith (by decide) fun part hin => ?_
    obtain ⟨segment, hsegment, rfl⟩ := List.mem_map.mp hin
    exact (hnames segment hsegment).uncut ',' (by simp)
  · exact splitClauses_cons (fun hch => absurd hch (by decide)) h

/-- A text that is one clause changes an empty tree at the end of the path of the clause. -/
theorem parse_pathText (he : s.entity entity = .ok e) (hnames : ∀ segment ∈ path ++ [name], Addressable segment)
    (hwhole : splitClauses operand = [operand]) (hknown : path = [] → e.hasField name = true) :
    parse s entity (pathText path name operand) =
      alongPath s entity (fun entity => applyClause s entity name (trim operand)) path entity [] := by
  rw [parse_split (by simp [pathText]), pathText_whole hnames hwhole, List.foldlM_cons,
    addClause_along he (pathText_read? hnames) hknown]
  simp

/-- A mark on an empty tree is found under the name of its field, or is collected. -/
theorem Mark.Says.keys {mark : Mark} (h : Mark.Says field operand mark) :
    ∀ kv ∈ mark.on [], kv.1 = field.name ∨ kv.1 ∈ collecting := by
  cases h with
  | none => simp [Mark.on]
  | missing | present | compared => simp [Mark.on, Object.set]
  | listed _ hkey => simp [Mark.on, addTo, Object.set, hkey]
  | excluded => simp [Mark.on, addTo, Object.set, collecting]

/-- The tree of a clause on a scalar field has no member with the name of an assertion on a link. -/
theorem applyClause_keys (h : c.WellFormed) (hc : c.Unreserved) (hlast : c.model? final = some last)
    (hf : (c.entity final last).field? name = some field) (hown : applyClause c.schema final name operand [] = .ok own) :
    ∀ kv ∈ own, kv.1 ∉ Link.assertions := by
  have hleaves : Leaves (applyClause c.schema final name operand) (Mark.Says field operand) :=
    applyClause_leaves (c.schema_entity hlast) hf
  obtain ⟨outcome, hchange, hmark⟩ := hleaves
  rw [hchange] at hown
  cases outcome with
  | error failure => cases hown
  | ok mark =>
      cases hown
      have hname : field.name = name := by simpa using List.find?_some hf
      have hhas : last.Has field.name := by
        rcases field_cases h hlast (hname ▸ hf) with ⟨_, l, hl⟩ | ⟨_, _, column, hcolumn⟩
        · exact .inl (Option.isSome_iff_exists.mpr ⟨l, hl⟩)
        · exact .inr (Option.isSome_iff_exists.mpr ⟨column, hcolumn⟩)
      intro kv hin hword
      simp only [Link.assertions, List.mem_cons, List.not_mem_nil, or_false] at hword
      rcases (hmark mark rfl).keys kv hin with hkey | hkey
      · rw [← hkey] at hhas
        refine hc _ (Catalog.mem_of_model? hlast) _ hhas ?_
        rcases hword with hword | hword <;> rw [hword] <;> decide
      · rcases hword with hword | hword <;> rw [hword] at hkey <;> exact absurd hkey (by decide)

/-- A clause at the end of a path selects the rows from which a row is reached along the path that the clause alone
selects. The engine is handed the same operands for both. -/
theorem path_means_existence (h : c.WellFormed) (hc : c.Unreserved) (hm : c.model? entity = some m)
    (hpath : c.schema.reached? entity path = some final) (hlast : c.model? final = some last)
    (hf : (c.entity final last).field? name = some field) (hnames : ∀ segment ∈ path ++ [name], Addressable segment)
    (hwhole : splitClauses operand = [operand]) (hown : parse c.schema final (pathText [] name operand) = .ok own) :
    ∃ tree, parse c.schema entity (pathText path name operand) = .ok tree ∧
      (∀ db row, c.Satisfies m db row (.object tree) ↔
        ∃ other, c.Reaches db m row path last other ∧ c.Satisfies last db other (.object own)) ∧
      Condition.operands <$> c.condition m (.object tree) = Condition.operands <$> c.condition last (.object own) := by
  have hknown {entity : String} {m : Model} (hm : c.model? entity = some m)
      (hpath : c.schema.reached? entity path = some final) : path = [] → (c.entity entity m).hasField name = true := by
    rintro rfl
    cases hpath
    cases hm.symm.trans hlast
    rw [Entity.hasField, hf]
    rfl
  have hname : ∀ segment ∈ [] ++ [name], Addressable segment :=
    fun segment hin => hnames segment (List.mem_append_right _ hin)
  rw [parse_pathText (c.schema_entity hlast) hname hwhole fun _ => by rw [Entity.hasField, hf]; rfl] at hown
  obtain ⟨tree, around, htree, halong, hcond, _⟩ :=
    alongPath_nil h hc entity hm hpath hlast hown (applyClause_keys h hc hlast hf hown)
  refine ⟨tree, (parse_pathText (c.schema_entity hm) hnames hwhole (hknown hm hpath)).trans htree, fun db row => ?_, ?_⟩
  · simp only [Catalog.Satisfies, hcond, map_ok_iff]
    constructor
    · rintro ⟨_, ⟨p, hp, rfl⟩, hsel⟩
      obtain ⟨other, hreach, hother⟩ := (halong.selects db row p).mp hsel
      exact ⟨other, hreach, p, hp, hother⟩
    · rintro ⟨other, hreach, p, hp, hother⟩
      exact ⟨_, ⟨p, hp, rfl⟩, (halong.selects db row p).mpr ⟨other, hreach, hother⟩⟩
  · rw [hcond]
    cases c.condition last (.object own) with
    | error failure => rfl
    | ok p => exact congrArg Except.ok (halong.operands p)

/-! Authors whose books are printed by a press. -/

def authorModel : Model where
  name := "Author"
  table := "authors"
  columns := [{ name := "id", kind := .integer, isKey := true }]
  links := [⟨"books", "Book", .heldBy "authorId" true, "id"⟩]

def bookModel : Model where
  name := "Book"
  table := "books"
  columns := [{ name := "id", kind := .integer, isKey := true }, { name := "authorId", kind := .integer },
    { name := "pressId", kind := .integer }]
  links := [⟨"press", "Press", .holds "pressId", "id"⟩]

def pressModel : Model where
  name := "Press"
  table := "presses"
  columns := [{ name := "id", kind := .integer, isKey := true }, { name := "name", kind := .text }]

def pressCatalog : Catalog := ⟨[("Author", authorModel), ("Book", bookModel), ("Press", pressModel)]⟩

theorem pressCatalog_wellFormed : pressCatalog.WellFormed where
  entities := by decide
  names := by simp [pressCatalog, authorModel, bookModel, pressModel]
  closed := by simp [pressCatalog, authorModel, bookModel, pressModel]
  apart := by simp [pressCatalog, authorModel, bookModel, pressModel, Model.link?]

theorem pressCatalog_unreserved : pressCatalog.Unreserved := by
  intro e he name hhas hin
  simp only [pressCatalog, List.mem_cons, List.not_mem_nil, or_false] at he
  simp only [reserved, List.mem_cons, List.not_mem_nil, or_false] at hin
  unfold Model.Has at hhas
  rcases he with rfl | rfl | rfl <;> rcases hin with rfl | rfl | rfl | rfl | rfl | rfl <;> revert hhas <;> decide

def pressOperand : List Char := "not:between:2;5".toList

def pressTree : Object :=
  [("NOT", .list [.object [("AND", .list [.object [("id", .object [("gte", .int 2)])],
    .object [("id", .object [("lte", .int 5)])]])]])]

theorem pressPath_addressable : ∀ segment ∈ ["books", "press"] ++ ["id"], Addressable segment := by
  intro segment hin
  simp only [List.cons_append, List.nil_append, List.mem_cons, List.not_mem_nil, or_false] at hin
  rcases hin with rfl | rfl | rfl <;> exact ⟨by simp, rfl, by decide⟩

def pressId : Field := { name := "id", type := "int", nullable := false, isKey := true }

/-- The authors of whom some book is printed by a press whose number lies outside of a range. -/
theorem pressAuthors_exist :
    pressCatalog.model? "Author" = some authorModel ∧ pressCatalog.model? "Press" = some pressModel ∧
    pressCatalog.schema.reached? "Author" ["books", "press"] = some "Press" ∧
    (pressCatalog.entity "Press" pressModel).field? "id" = some pressId ∧
    (∀ segment ∈ ["books", "press"] ++ ["id"], Addressable segment) ∧ splitClauses pressOperand = [pressOperand] ∧
    parse pressCatalog.schema "Press" (pathText [] "id" pressOperand) = .ok pressTree ∧
    ∃ tree, parse pressCatalog.schema "Author" (pathText ["books", "press"] "id" pressOperand) = .ok tree ∧
      (∀ db row, pressCatalog.Satisfies authorModel db row (.object tree) ↔
        ∃ other, pressCatalog.Reaches db authorModel row ["books", "press"] pressModel other ∧
          pressCatalog.Satisfies pressModel db other (.object pressTree)) ∧
      Condition.operands <$> pressCatalog.condition authorModel (.object tree) =
        Condition.operands <$> pressCatalog.condition pressModel (.object pressTree) := by
  have hpath : pressCatalog.schema.reached? "Author" ["books", "press"] = some "Press" := by cbv
  have hwhole : splitClauses pressOperand = [pressOperand] := by decide
  have hparse : parse pressCatalog.schema "Press" (pathText [] "id" pressOperand) = .ok pressTree := rfl
  exact ⟨rfl, rfl, hpath, rfl, pressPath_addressable, hwhole, hparse,
    path_means_existence pressCatalog_wellFormed pressCatalog_unreserved rfl hpath rfl rfl
      pressPath_addressable hwhole hparse⟩

end Filter

end RecordGraph
