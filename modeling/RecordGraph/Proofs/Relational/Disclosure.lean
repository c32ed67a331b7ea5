import RecordGraph.Proofs.Operation.Running
import RecordGraph.Proofs.Query.Selected
import RecordGraph.Proofs.Relational.Describing
import RecordGraph.Relational.Store

/-!
# What records disclose

A record of a vetted shape is discreet: at no depth does it show a column that the user never sees,
a related record of an entity that is denied to the user, or a row of a list that the filter of its
entity keeps from the user.
-/

namespace RecordGraph

theorem Shape.part_ok {shape o : Object} {key : String} (h : part shape key = .ok o) :
    Object.get shape key = .object o ∨ o = [] := by
  unfold part at h
  split at h
  · rename_i hget
    exact .inl (pure_ok_iff.mp h ▸ hget)
  · split at h
    · cases h
    · exact .inr (pure_ok_iff.mp h).symm

namespace Catalog

variable (c : Catalog) (v : Viewpoint) (db : Database)

/-- What a record shows of a link of a row: records of linked rows, each of them as it should be.
Their entity is not denied, and in a list they satisfy its filter. -/
def OpenRelated (shown : String → Row → Object → Prop) (entity : String) (row : Row) (l : Link)
    (x : Value) : Prop :=
  ∃ r target d, ∃ rows : List Row,
    v.schema.relation? entity l.name = .ok (some r) ∧ c.model? r.target = some target ∧
    v.decide .read r.target = .ok d ∧ d.denied = false ∧
    rows.Sublist ((db.rows target).filter (db.linked l row)) ∧
    (l.isList = true → ∀ other ∈ rows, c.Satisfies target db other (.object d.filter)) ∧
    List.Forall₂ (fun other item => ∃ o, item = .object o ∧ shown r.target other o) rows x.asItems

/-- A record of a row of an entity that keeps to the rules down to some depth: its columns are not
omitted, and its related records are open to the user. -/
def Discreet : Nat → String → Row → Object → Prop
  | 0, _, _, _ => True
  | depth + 1, entity, row, record => ∃ m, c.model? entity = some m ∧ ∀ name x, (name, x) ∈ record →
    match m.link? name with
    | none => (name, x) ∈ row.values m ∧ ¬ v.Omits entity name
    | some l => c.OpenRelated v db (Discreet depth) entity row l x

variable {c v db}

/-! ## The value of a relation -/

/-- The value that a record shows for a link, given what was loaded. -/
def relationValue (c : Catalog) (db : Database) (levels : Nat) (loads : Object) (row : Row) (l : Link)
    (entry : Value) : Except Failure Value := do
  let loaded := Object.get loads l.name
  if loaded.isPresent then
    let (target, rows) ← c.loadedRows db l loaded row
    let show_ (other : Row) : Except Failure Value :=
      Value.object <$> c.record db levels target (Shape.loads loaded) (Shape.members entry) other
    if l.isList then Value.list <$> rows.mapM show_
    else
      match rows with
      | [] => return .null
      | other :: _ => show_ other
  else if holdsNoKey l row then return .null
  else throw (refused ("Relation '" ++ l.name ++ "' was not loaded"))

/-- The members of a record that show the relations of a tree. -/
def relatedMember (c : Catalog) (db : Database) (levels : Nat) (m : Model) (loads : Object) (row : Row)
    (otherwise : String → Option (String × Value)) (kv : String × Value) :
    Except Failure (Option (String × Value)) := do
  if !kv.2.isPresent then return none
  match m.link? kv.1 with
  | some l => return some (kv.1, ← c.relationValue db levels loads row l kv.2)
  | none => return otherwise kv.1

theorem record_succ {levels : Nat} {m : Model} {loads shape : Object} {row : Row} :
    c.record db (levels + 1) m loads shape row = match Object.get shape "select" with
      | .null => do
        let omitted ← Shape.part shape "omit"
        let included ← Shape.part shape "include"
        let related ← included.filterMapM (c.relatedMember db levels m loads row fun _ => none)
        return (row.values m).filter (fun (name, _) => !(Object.get omitted name).isPresent) ++ related
      | .object tree =>
        tree.filterMapM (c.relatedMember db levels m loads row fun name =>
          (Object.get? name (row.values m)).map (name, ·))
      | _ => throw .illFormed := by
  rw [record]
  rfl

/-- The rows that are loaded for a relation that is opened are linked rows of its target, and satisfy
the filter of the target if the relation is a list. -/
theorem loadedRows_open {l : Link} {r : Relation} {loaded : Value} {row : Row} {target : Model}
    {rows : List Row} (ho : Shape.Opens v r loaded) (hl : r.isList = l.isList)
    (h : c.loadedRows db l loaded row = .ok (target, rows)) :
    c.named l.target = .ok target ∧ rows.Sublist ((db.rows target).filter (db.linked l row)) ∧
      ∃ d, v.decide .read r.target = .ok d ∧ d.denied = false ∧
        (l.isList = true → ∀ other ∈ rows, c.Satisfies target db other (.object d.filter)) := by
  simp only [loadedRows, bind_ok_iff, pure_ok_iff, Prod.mk.injEq] at h
  obtain ⟨target', htarget, condition, hcondition, _, _, rfl, rfl⟩ := h
  obtain ⟨d, hd, hden, hfilter⟩ := ho
  refine ⟨htarget, List.filter_sublist.filter _, d, hd, hden, fun hlist other hother => ?_⟩
  rcases hfilter (hl.trans hlist) with hf | hf
  · rw [hf]
    exact satisfies_empty
  · have hshape : Shape.filter l loaded = .object d.filter := by
      cases loaded with
      | object o => simpa [Shape.filter, Shape.members, hlist] using hf
      | _ => cases hf
    have hsel : other ∈ db.select target' condition := (List.mem_filter.mp hother).1
    rw [hshape] at hcondition
    exact ⟨condition, hcondition, (List.mem_filter.mp hsel).2⟩

theorem relationValue_open (hd : v.schema.Describes c) {levels : Nat} {entity : String} {m : Model}
    {loads : Object} {row : Row} {l : Link} {r : Relation} {entry x : Value}
    {shown : String → Row → Object → Prop} (hm : c.model? entity = some m)
    (hlink : m.link? l.name = some l) (hr : v.schema.relation? entity l.name = .ok (some r))
    (hloads : Shape.VettedTree v entity loads) (hopen : Shape.Opens v r entry)
    (hshown : ∀ target loads other o, c.model? r.target = some target →
      Shape.VettedTree v r.target loads →
      c.record db levels target loads (Shape.members entry) other = .ok o → shown r.target other o)
    (h : c.relationValue db levels loads row l entry = .ok x) :
    c.OpenRelated v db shown entity row l x := by
  obtain ⟨r', target, hr', hlist, htarget, hnamed⟩ := hd.link hm hlink
  rw [hr] at hr'
  cases hr'
  rw [relationValue] at h
  split at h
  · rename_i hpresent
    have hne : Object.get loads l.name ≠ .null := by intro he; rw [he] at hpresent; cases hpresent
    obtain ⟨hloaded, hbelow⟩ := hloads _ _ _ (Object.mem_of_get_ne_null hne) hr
    obtain ⟨⟨target', rows⟩, hrows, h⟩ := bind_ok_iff.mp h
    obtain ⟨hnamed', hsub, d, hdec, hden, hsat⟩ := loadedRows_open hloaded hlist hrows
    rw [hnamed] at hnamed'
    cases hnamed'
    have hitem {other : Row} {item : Value}
        (hi : Value.object <$> c.record db levels target (Shape.loads (Object.get loads l.name))
          (Shape.members entry) other = .ok item) : ∃ o, item = .object o ∧ shown r.target other o := by
      obtain ⟨o, ho, rfl⟩ := map_ok_iff.mp hi
      exact ⟨o, rfl, hshown target _ other o htarget hbelow.loads ho⟩
    cases hl : l.isList with
    | true =>
        simp only [hl, ↓reduceIte, map_ok_iff] at h
        obtain ⟨items, hitems, rfl⟩ := h
        exact ⟨r, target, d, rows, hr, htarget, hdec, hden, hsub, hl ▸ hsat,
          (mapM_ok_forall₂ hitems).imp fun _ _ => hitem⟩
    | false =>
        simp only [hl, Bool.false_eq_true, ↓reduceIte] at h
        cases rows with
        | nil =>
            rw [pure_ok_iff] at h
            subst h
            exact ⟨r, target, d, [], hr, htarget, hdec, hden, List.nil_sublist _, by simp [hl], .nil⟩
        | cons other rest =>
            obtain ⟨o, rfl, ho⟩ := hitem h
            exact ⟨r, target, d, [other], hr, htarget, hdec, hden,
              (List.singleton_sublist.mpr (by simp)).trans hsub, by simp [hl],
              .cons ⟨o, rfl, ho⟩ .nil⟩
  · split at h
    · rw [pure_ok_iff] at h
      subst h
      obtain ⟨d, hdec, hden, _⟩ := hopen
      exact ⟨r, target, d, [], hr, htarget, hdec, hden, List.nil_sublist _, by simp, .nil⟩
    · cases h

/-! ## Records -/

theorem relatedMember_some_iff {levels : Nat} {m : Model} {loads : Object} {row : Row}
    {otherwise : String → Option (String × Value)} {kv kv' : String × Value} :
    c.relatedMember db levels m loads row otherwise kv = .ok (some kv') ↔ kv.2.isPresent = true ∧
      match m.link? kv.1 with
      | some l => ∃ x, c.relationValue db levels loads row l kv.2 = .ok x ∧ kv' = (kv.1, x)
      | none => otherwise kv.1 = some kv' := by
  rw [relatedMember]
  cases hp : kv.2.isPresent with
  | false => simp [pure_ok_iff]
  | true =>
      cases hl : m.link? kv.1 with
      | none => simp [pure_ok_iff]
      | some l =>
          simp only [Bool.not_true, Bool.false_eq_true, ↓reduceIte, bind_ok_iff, pure_ok_iff, Option.some.injEq,
            true_and]
          exact exists_congr fun x => and_congr_right fun _ => eq_comm

/-- What a record shows is a column that its shape has, or the value of a link that its shape names. -/
theorem record_member {levels : Nat} {m : Model} {loads shape : Object} {row : Row} {record : Object}
    {name : String} {x : Value} (h : c.record db (levels + 1) m loads shape row = .ok record)
    (hx : (name, x) ∈ record) :
    ((name, x) ∈ row.values m ∧ Shape.HasColumn shape name) ∨
      ∃ key ∈ ["include", "select"], ∃ tree entry l, Object.get shape key = .object tree ∧
        (name, entry) ∈ tree ∧ m.link? name = some l ∧
        c.relationValue db levels loads row l entry = .ok x := by
  rw [record_succ] at h
  split at h
  · rename_i hsel
    simp only [bind_ok_iff, pure_ok_iff] at h
    obtain ⟨omitted, homitted, included, hincluded, related, hrelated, rfl⟩ := h
    rcases List.mem_append.mp hx with hx | hx
    · obtain ⟨hin, hnot⟩ := List.mem_filter.mp hx
      refine .inl ⟨hin, ?_⟩
      simp only [Shape.HasColumn, hsel]
      intro omitted' ho
      rw [Shape.part, ho] at homitted
      cases homitted
      simpa using hnot
    · obtain ⟨⟨key, entry⟩, hin, hmember⟩ := mem_of_filterMapM_ok hrelated hx
      obtain ⟨_, hmember⟩ := relatedMember_some_iff.mp hmember
      split at hmember
      · rename_i l hl
        obtain ⟨y, hy, he⟩ := hmember
        cases he
        rcases Shape.part_ok hincluded with hget | rfl
        · exact .inr ⟨"include", by simp, included, entry, l, hget, hin, hl, hy⟩
        · cases hin
      · cases hmember
  · rename_i tree hsel
    obtain ⟨⟨key, entry⟩, hin, hmember⟩ := mem_of_filterMapM_ok h hx
    obtain ⟨_, hmember⟩ := relatedMember_some_iff.mp hmember
    split at hmember
    · rename_i l hl
      obtain ⟨y, hy, he⟩ := hmember
      cases he
      exact .inr ⟨"select", by simp, tree, entry, l, hsel, hin, hl, hy⟩
    · obtain ⟨y, hy, he⟩ := Option.map_eq_some_iff.mp hmember
      cases he
      refine .inl ⟨Object.mem_of_get? hy, ?_⟩
      simp only [Shape.HasColumn, hsel]
      exact List.mem_map.mpr ⟨_, hin, rfl⟩
  · cases h

/-- A record of a vetted shape, whose relations were loaded by a vetted tree, is discreet. -/
theorem record_discreet (hd : v.schema.Describes c) {levels : Nat} : ∀ {depth : Nat} {entity : String}
    {m : Model} {loads shape : Object} {row : Row} {record : Object}, c.model? entity = some m →
    Shape.VettedTree v entity loads → Shape.Vetted v entity shape →
    c.record db levels m loads shape row = .ok record → c.Discreet v db depth entity row record := by
  induction levels with
  | zero => intro _ _ _ _ _ _ _ _ _ _ h; cases h
  | succ levels ih =>
      intro depth entity m loads shape row record hm hloads hshape h
      cases depth with
      | zero => trivial
      | succ depth =>
          refine ⟨m, hm, fun name x hx => ?_⟩
          rcases record_member h hx with ⟨hin, hcol⟩ | ⟨key, hk, tree, entry, l, hs, hin, hl, hv⟩
          · have hnone : m.link? name = none := by
              obtain ⟨column, hc, he⟩ := List.mem_map.mp hin
              cases he
              exact hd.apart hm column hc
            rw [hnone]
            obtain ⟨columns, _, _⟩ := hshape
            exact ⟨hin, fun hom => columns name (hd.column hm hnone) hom hcol⟩
          · have hname : l.name = name := by simpa using List.find?_some hl
            obtain ⟨r, target, hr, _, ht, _⟩ := hd.link hm hl
            obtain ⟨hopen, hbelow⟩ := hshape.subtree hk hs name entry r hin hr
            subst hname
            rw [hl]
            exact relationValue_open hd hm hl hr hloads hopen
              (fun _ _ _ _ ht hls ho => ih ht hls hbelow ho) hv

/-! ## Records that are read whole -/

theorem record_whole {levels : Nat} {m : Model} {row : Row} :
    c.record db (levels + 1) m [] [] row = .ok (row.values m) := by
  have hall : (row.values m).filter (fun kv => !(Object.get [] kv.1).isPresent) = row.values m :=
    List.filter_eq_self.mpr fun _ _ => rfl
  rw [record_succ]
  show Except.ok ((row.values m).filter (fun kv => !(Object.get [] kv.1).isPresent) ++ []) = _
  rw [hall, List.append_nil]

end Catalog

end RecordGraph
