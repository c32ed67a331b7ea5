import RecordGraph.Proofs.Operation.Agreement
import RecordGraph.Proofs.Query.Screening
import RecordGraph.Proofs.Relational.Choosing
import RecordGraph.Proofs.Relational.Finding
import RecordGraph.Proofs.Relational.Ordering

/-!
# Reads that conceal

A plan that neither needs nor shows a veiled column finds the same records in databases that are alike, and
counts the same number of rows.
-/

namespace RecordGraph

/-! ## Veils over what a user never sees -/

/-- A veil covers columns that the user never sees. None is part of a key, and none is named by what the user
may read. -/
structure Viewpoint.Veiled (v : Viewpoint) (c : Catalog) (veil : Veil) : Prop where
  omitted : ∀ {entity m column}, c.model? entity = some m → (m.name, column) ∈ veil → v.Omits entity column
  keys : ∀ {entity m k}, c.model? entity = some m → k ∈ m.keys → (m.name, k) ∉ veil
  filters : ∀ {entity m d}, c.model? entity = some m → v.decide .read entity = .ok d →
    c.Clear veil m (.object d.filter)

/-- A tree of relations follows links, at any depth, that are held in a column. -/
inductive Catalog.Follows (c : Catalog) : Model → Object → String × String → Prop
  | held {m tree name entry l p} (hin : (name, entry) ∈ tree) (hl : m.link? name = some l)
      (hp : p ∈ l.heldIn m.name) : Follows c m tree p
  | further {m tree name entry l target key nested p} (hin : (name, entry) ∈ tree) (hl : m.link? name = some l)
      (ht : c.named l.target = .ok target) (hk : key ∈ ["include", "select"])
      (hn : Object.get (Shape.members entry) key = .object nested) (h : Follows c target nested p) : Follows c m tree p

namespace Catalog

/-- A tree follows no link that is held in a veiled column. -/
def Forgoes (c : Catalog) (veil : Veil) (m : Model) (tree : Object) : Prop := ∀ p ∈ veil, ¬ c.Follows m tree p

/-- The trees of a shape follow none. -/
def ForgoesIn (c : Catalog) (veil : Veil) (m : Model) (shape : Object) : Prop :=
  ∀ key ∈ ["include", "select"], ∀ tree, Object.get shape key = .object tree → c.Forgoes veil m tree

theorem forgoes_nil {c : Catalog} {veil : Veil} {m : Model} : c.Forgoes veil m [] := by
  rintro p _ (⟨hin, _, _⟩ | ⟨hin, _, _, _, _, _⟩) <;> cases hin

end Catalog

namespace Shape

/-- An entry whose rows, if there are several, are chosen without a veiled column. -/
def Sober (c : Catalog) (veil : Veil) (r : Relation) (entry : Value) : Prop :=
  r.isList = true → ∀ target, c.model? r.target = some target →
    c.Clear veil target (Object.get (members entry) "where")

/-- What a shape loads is a tree that it includes or selects. -/
theorem loads_shown (entry : Value) :
    loads entry = [] ∨ ∃ key ∈ ["include", "select"], Object.get (members entry) key = .object (loads entry) := by
  cases entry with
  | object o =>
      simp only [loads, members]
      split
      · rename_i tree htree
        split at htree
        · exact .inr ⟨"include", by simp, htree⟩
        · exact .inr ⟨"select", by simp, htree⟩
      · exact .inl rfl
  | _ => exact .inl rfl

end Shape

/-! ## Records -/

namespace Row

variable {veil : Veil} {m : Model} {row row' : Row}

/-- Rows that are alike have the same values but for veiled columns. -/
theorem values_alike (h : Row.Alike veil m.name row row') (shows : String → Bool)
    (hs : ∀ column ∈ m.columns, (m.name, column.name) ∈ veil → shows column.name = false) :
    (row.values m).filter (fun kv => shows kv.1) = (row'.values m).filter (fun kv => shows kv.1) := by
  unfold values
  generalize m.columns = columns at hs
  induction columns with
  | nil => rfl
  | cons column rest ih =>
      have hrest := ih fun other hin => hs other (List.mem_cons_of_mem _ hin)
      by_cases hv : (m.name, column.name) ∈ veil
      · have hno := hs column List.mem_cons_self hv
        simp only [List.map_cons, List.filter_cons, hno, Bool.false_eq_true, ↓reduceIte, hrest]
      · simp only [List.map_cons, List.filter_cons, h column.name hv, hrest]

theorem get?_values_alike (h : Row.Alike veil m.name row row') {name : String}
    (hn : ∀ column ∈ m.columns, (m.name, column.name) ∈ veil → column.name ≠ name) :
    Object.get? name (row.values m) = Object.get? name (row'.values m) := by
  have hsame := values_alike h (· == name) fun column hin hv => beq_false_of_ne (hn column hin hv)
  have hone (o : Object) : Object.get? name (o.filter fun kv => kv.1 == name) = Object.get? name o :=
    Object.get?_filter (· == name) (beq_self_eq_true name)
  rw [← hone, hsame, hone]

end Row

namespace Catalog

variable {c : Catalog} {v : Viewpoint} {veil : Veil} {db db' : Database} {entity : String} {m : Model}
  {row row' : Row} {l : Link} {loads shape : Object}

theorem select_alike (hdb : db.Alike veil db') (hm : ∀ k ∈ m.keys, (m.name, k) ∉ veil) {cond : Condition}
    (hc : cond.Agrees veil db db' m.name) :
    List.Forall₂ (Row.Alike veil m.name) (db.select m cond) (db'.select m cond) :=
  forall₂_filter (fun hr => by rw [Condition.selects, Condition.selects, hc _ _ hr]) (hdb.sorted hm)

/-- The rows that are loaded for a relation are alike. -/
theorem loadedRows_alike (hdb : db.Alike veil db') {target : Model} {entry : Value}
    (ht : c.named l.target = .ok target) (hkeys : ∀ k ∈ target.keys, (target.name, k) ∉ veil)
    (hheld : ∀ p ∈ l.heldIn m.name, p ∉ veil) (hf : c.Clear veil target (Shape.filter l entry))
    (hr : Row.Alike veil m.name row row') :
    Concordant (fun a b => a.1 = target ∧ b.1 = target ∧ List.Forall₂ (Row.Alike veil target.name) a.2 b.2)
      (c.loadedRows db l entry row) (c.loadedRows db' l entry row') := by
  rw [loadedRows, loadedRows, ht]
  show Concordant _ (c.condition target (Shape.filter l entry) >>= _) (c.condition target (Shape.filter l entry) >>= _)
  cases hcond : c.condition target (Shape.filter l entry) with
  | error => exact .error
  | ok cond =>
      show Concordant _ (cond.bind >>= _) (cond.bind >>= _)
      cases cond.bind with
      | error => exact .error
      | ok _ =>
          refine .ok ⟨rfl, rfl, forall₂_filter (fun ho => ?_) (select_alike hdb hkeys (condition_agrees hdb hf hcond))⟩
          exact hdb.linked hheld hr (named_name ht ▸ ho)

theorem clear_filter {r : Relation} {entry : Value} {target : Model} (hs : Shape.Sober c veil r entry)
    (hlist : r.isList = l.isList) (ht : c.model? r.target = some target) :
    c.Clear veil target (Shape.filter l entry) := by
  unfold Shape.filter
  split
  · rename_i hl
    exact hs (hlist.trans hl) target ht
  · exact clear_null

theorem holdsNoKey_alike (hheld : ∀ p ∈ l.heldIn m.name, p ∉ veil) (hr : Row.Alike veil m.name row row') :
    holdsNoKey l row = holdsNoKey l row' := by
  unfold holdsNoKey
  split
  · rename_i column hk
    have hin : (m.name, column) ∈ l.heldIn m.name := by
      rw [Link.heldIn, hk]
      exact List.mem_cons_self
    rw [hr column (hheld _ hin)]
  · rfl

/-- What is shown of the rows that were loaded for a link: all of a list, or else the first. -/
def showRows (l : Link) (show_ : Row → Except Failure Value) (rows : List Row) : Except Failure Value :=
  if l.isList then Value.list <$> rows.mapM show_
  else
    match rows with
    | [] => pure .null
    | other :: _ => show_ other

theorem relationValue_eq {levels : Nat} {entry : Value} : c.relationValue db levels loads row l entry =
    let loaded := Object.get loads l.name
    if loaded.isPresent then do
      let found ← c.loadedRows db l loaded row
      showRows l (fun other => Value.object <$>
        c.record db levels found.1 (Shape.loads loaded) (Shape.members entry) other) found.2
    else if holdsNoKey l row then pure .null
    else throw (refused ("Relation '" ++ l.name ++ "' was not loaded")) := rfl

theorem showRows_alike {R : Row → Row → Prop} {f g : Row → Except Failure Value} {rows rows' : List Row}
    (hfg : ∀ other other', R other other' → f other = g other') (h : List.Forall₂ R rows rows') :
    showRows l f rows = showRows l g rows' := by
  have hall : rows.mapM f = rows'.mapM g := by
    induction h with
    | nil => rfl
    | cons hr _ ih => rw [List.mapM_cons, List.mapM_cons, hfg _ _ hr, ih]
  unfold showRows
  rw [hall]
  split
  · rfl
  · cases h with
    | nil => rfl
    | cons hr _ => exact hfg _ _ hr

/-- The value that is shown for a link is the same if the records of the linked rows are. -/
theorem relationValue_alike (hd : v.schema.Describes c) (hv : v.Veiled c veil) (hdb : db.Alike veil db')
    {levels : Nat} {entry : Value} (hm : c.model? entity = some m) (hl : m.link? l.name = some l)
    (hheld : ∀ p ∈ l.heldIn m.name, p ∉ veil) (hr : Row.Alike veil m.name row row')
    (hloads : Shape.PassesTree v (Shape.Sober c veil) entity loads) (hforgoes : c.Forgoes veil m loads)
    (hshow : ∀ r target loads other other', v.schema.relation? entity l.name = .ok (some r) →
      c.model? r.target = some target → c.named l.target = .ok target →
      Shape.PassesTree v (Shape.Sober c veil) r.target loads → c.Forgoes veil target loads →
      Row.Alike veil target.name other other' →
      c.record db levels target loads (Shape.members entry) other =
        c.record db' levels target loads (Shape.members entry) other') :
    c.relationValue db levels loads row l entry = c.relationValue db' levels loads row' l entry := by
  obtain ⟨r, target, hrelation, hlist, htarget, hnamed⟩ := hd.link hm hl
  rw [relationValue_eq, relationValue_eq, holdsNoKey_alike hheld hr]
  dsimp only
  by_cases hpresent : (Object.get loads l.name).isPresent = true
  · have hne : Object.get loads l.name ≠ .null := by intro he; rw [he] at hpresent; cases hpresent
    have hin := Object.mem_of_get_ne_null hne
    obtain ⟨hsober, hbelow⟩ := hloads _ _ _ hin hrelation
    have hdeeper : c.Forgoes veil target (Shape.loads (Object.get loads l.name)) := by
      rcases Shape.loads_shown (Object.get loads l.name) with hnone | ⟨key, hk, hshown⟩
      · rw [hnone]
        exact forgoes_nil
      · exact fun p hp hf => hforgoes p hp (.further hin hl hnamed hk hshown hf)
    have hrows := loadedRows_alike hdb hnamed (fun k hk => hv.keys htarget hk) hheld
      (clear_filter hsober hlist htarget) hr
    rw [if_pos hpresent, if_pos hpresent]
    refine hrows.bind_eq fun found found' h => ?_
    obtain ⟨hfound, hfound', hrows⟩ := h
    rw [hfound, hfound']
    exact showRows_alike (fun other other' ho => congrArg _
      (hshow r target _ other other' hrelation htarget hnamed hbelow.loads hdeeper ho)) hrows
  · rw [if_neg hpresent, if_neg hpresent]

/-- The record of a row in a shape that shows no veiled column, by induction on the levels of relations. -/
theorem record_alike (hd : v.schema.Describes c) (hv : v.Veiled c veil) (hdb : db.Alike veil db') {levels : Nat} :
    ∀ {entity : String} {m : Model} {loads shape : Object} {row row' : Row}, c.model? entity = some m →
      Shape.PassesTree v (Shape.Sober c veil) entity loads → c.Forgoes veil m loads →
      Shape.Passes v (Shape.Sober c veil) entity shape → c.ForgoesIn veil m shape →
      Row.Alike veil m.name row row' →
      c.record db levels m loads shape row = c.record db' levels m loads shape row' := by
  induction levels with
  | zero => exact fun _ _ _ _ _ _ => rfl
  | succ levels ih =>
      intro entity m loads shape row row' hm hloads hforgoes hshape hforgone hr
      -- no column that is shown is veiled, since the shape omits what is omitted for the user
      have hcolumns : ∀ column ∈ m.columns, (m.name, column.name) ∈ veil → ¬ Shape.HasColumn shape column.name := by
        obtain ⟨columns, _, _⟩ := hshape
        exact fun column hin hveiled =>
          columns column.name (hd.column hm (hd.apart hm column hin)) (hv.omitted hm hveiled)
      have hrelated {key : String} {tree : Object} (hk : key ∈ ["include", "select"])
          (hget : Object.get shape key = .object tree) {otherwise otherwise' : String → Option (String × Value)}
          (hother : ∀ name ∈ Object.keys tree, otherwise name = otherwise' name) :
          tree.filterMapM (c.relatedMember db levels m loads row otherwise) =
            tree.filterMapM (c.relatedMember db' levels m loads row' otherwise') := by
        refine filterMapM_congr fun ⟨name, entry⟩ hin => ?_
        rw [relatedMember, relatedMember]
        dsimp only
        split
        · rfl
        · cases hl : m.link? name with
          | none => exact congrArg Except.ok (hother name (List.mem_map.mpr ⟨_, hin, rfl⟩))
          | some l =>
              have hname : l.name = name := by simpa using List.find?_some hl
              subst hname
              have hkeeps := hforgone key hk tree hget
              have hvalue : c.relationValue db levels loads row l entry =
                  c.relationValue db' levels loads row' l entry := by
                refine relationValue_alike hd hv hdb hm hl (fun p hp hveiled => hkeeps p hveiled (.held hin hl hp)) hr
                  hloads hforgoes fun r target loads other other' hrelation htarget hnamed hbelow hdeeper ho => ?_
                obtain ⟨_, hshown⟩ := hshape.subtree hk hget _ _ r hin hrelation
                exact ih htarget hbelow hdeeper hshown
                  (fun key hk tree ht p hp hf => hkeeps p hp (.further hin hl hnamed hk ht hf)) ho
              dsimp only
              rw [hvalue]
      rw [record_succ, record_succ]
      split
      · rename_i hsel
        refine bind_congr_ok fun omitted homitted => bind_congr_ok fun included hincluded => ?_
        have hall : included.filterMapM (c.relatedMember db levels m loads row fun _ => none) =
            included.filterMapM (c.relatedMember db' levels m loads row' fun _ => none) := by
          rcases Shape.part_ok hincluded with hget | rfl
          · exact hrelated (by simp) hget fun _ _ => rfl
          · rfl
        have hhidden : ∀ column ∈ m.columns, (m.name, column.name) ∈ veil →
            (!(Object.get omitted column.name).isPresent) = false := by
          intro column hin hveiled
          have hnot := hcolumns column hin hveiled
          rw [Shape.HasColumn, hsel] at hnot
          rw [Bool.not_eq_false']
          by_contra hno
          refine hnot fun omitted' ho => ?_
          rw [Shape.part, ho] at homitted
          obtain rfl := pure_ok_iff.mp homitted
          simpa using hno
        have hvalues := Row.values_alike hr (fun name => !(Object.get omitted name).isPresent) hhidden
        rw [hall]
        exact bind_congr_ok fun related _ => congrArg (fun columns => Except.ok (columns ++ related)) hvalues
      · rename_i tree hsel
        -- a selection shows the columns that it names, none of which is veiled
        refine hrelated (by simp) hsel fun name hname => ?_
        rw [Row.get?_values_alike hr fun column hin hveiled he => ?_]
        refine hcolumns column hin hveiled ?_
        rwa [Shape.HasColumn, hsel, he]
      · rfl

end Catalog

/-! ## Plans -/

theorem Plan.tree_of_shape {p : Plan} {key : String} {tree : Object} (hk : key ∈ ["include", "select"])
    (h : Object.get p.shape key = .object tree) : p.includes = some tree ∨ p.selects = some tree := by
  have hsome {o : Option Object} (ho : (o.map Value.object).getD .null = .object tree) : o = some tree := by
    cases o with
    | none => cases ho
    | some other => cases ho; rfl
  simp only [List.mem_cons, List.not_mem_nil, or_false] at hk
  rcases hk with rfl | rfl
  · exact .inl (hsome (get_shape_include ▸ h))
  · exact .inr (hsome (get_shape_select ▸ h))

/-- What a plan loads is a tree that its shape includes or selects. -/
theorem Plan.loads_shown (p : Plan) :
    p.loads = [] ∨ ∃ key ∈ ["include", "select"], Object.get p.shape key = .object p.loads := by
  unfold loads
  cases hi : p.includes with
  | some tree => exact .inr ⟨"include", by simp, by rw [get_shape_include, hi]; rfl⟩
  | none =>
      cases hs : p.selects with
      | some tree => exact .inr ⟨"select", by simp, by rw [get_shape_select, hs]; rfl⟩
      | none => exact .inl rfl

/-- A plan that chooses and orders its rows without a veiled column, and shows none. -/
structure Plan.Conceals (v : Viewpoint) (c : Catalog) (veil : Veil) (entity : String) (m : Model) (p : Plan) :
    Prop where
  filter : c.Clear veil m (.object p.filter)
  order : ∀ s, Sorting.read c m (p.order.getD []) = .ok s → s.Clear c veil m
  shape : Shape.Passes v (Shape.Sober c veil) entity p.shape
  forgoes : c.ForgoesIn veil m p.shape

/-- Databases that differ in veiled columns only, with keys that tell their rows apart. -/
structure Catalog.Twins (c : Catalog) (veil : Veil) (db db' : Database) : Prop where
  alike : db.Alike veil db'
  keyed : ∀ {entity m}, c.model? entity = some m → db.Keyed m ∧ db'.Keyed m

/-- A transaction that fails leaves both states as they were. -/
theorem Query.agree_transaction {α β : Type} {R : Database → Database → Prop} {Q : α → β → Prop} {act : Query α}
    {other : Query β} {entity : Option String} (h : Act.Agree R Q act other) :
    Act.Agree R Q (Query.transaction entity act) (Query.transaction entity other) := by
  intro db db' hdb
  obtain ⟨houtcome, hstate⟩ := h db db' hdb
  rw [transaction_run, transaction_run]
  generalize act.runOn db = left, other.runOn db' = right at houtcome hstate
  obtain ⟨outcome, s⟩ := left
  obtain ⟨outcome', t⟩ := right
  cases houtcome with
  | error => exact ⟨.error, hdb⟩
  | ok hab => exact ⟨.ok hab, hstate⟩

namespace Catalog

variable {c : Catalog} {v : Viewpoint} {veil : Veil} {entity : String} {m : Model} {p : Plan}

/-- The rows that are chosen are alike, and told apart by their keys. -/
theorem chosen_agree (hv : v.Veiled c veil) (hm : c.model? entity = some m) (hp : p.Conceals v c veil entity m) :
    Act.Agree (c.Twins veil)
      (fun rows rows' => List.Forall₂ (Row.Alike veil m.name) rows rows' ∧ m.TellsApart rows ∧ m.TellsApart rows')
      (c.chosen m p) (c.chosen m p) := by
  unfold chosen
  refine Act.agree_liftM_bind fun cond hcond => Act.agree_liftM_bind fun s hs => ?_
  refine Act.agree_liftM_bind fun _ _ => Act.agree_liftM_bind fun _ _ => Act.agree_liftM_bind fun _ _ => ?_
  refine Act.agree_get_bind fun db db' htwins => Act.agree_pure ⟨?_, ?_, ?_⟩
  · exact (hp.order s hs).sort htwins.alike (select_alike htwins.alike (fun k hk => hv.keys hm hk)
      (condition_agrees htwins.alike hp.filter hcond))
  · exact (htwins.keyed hm).1.tellsApart fun row hrow =>
      (List.mem_filter.mp (Sorting.mem_of_mem_sort hrow)).1
  · exact (htwins.keyed hm).2.tellsApart fun row hrow =>
      (List.mem_filter.mp (Sorting.mem_of_mem_sort hrow)).1

theorem shown_agree (hd : v.schema.Describes c) (hv : v.Veiled c veil) (hm : c.model? entity = some m)
    (hp : p.Conceals v c veil entity m) {row row' : Row} (hr : Row.Alike veil m.name row row') :
    Act.Agree (c.Twins veil) (· = ·) (Value.object <$> c.shown m p row) (Value.object <$> c.shown m p row') := by
  have hrecord {db db' : Database} (htwins : c.Twins veil db db') :
      c.record db p.levels m p.loads p.shape row = c.record db' p.levels m p.loads p.shape row' := by
    obtain ⟨hloads, hforgoes⟩ :
        Shape.PassesTree v (Shape.Sober c veil) entity p.loads ∧ c.Forgoes veil m p.loads := by
      rcases p.loads_shown with hnone | ⟨key, hk, hshown⟩
      · rw [hnone]
        exact ⟨Shape.passesTree_empty, forgoes_nil⟩
      · exact ⟨hp.shape.subtree hk hshown, hp.forgoes key hk _ hshown⟩
    exact record_alike hd hv htwins.alike hm hloads hforgoes hp.shape hp.forgoes hr
  simp only [map_eq_pure_bind, shown, bind_assoc]
  refine Act.agree_get_bind fun db db' htwins => ?_
  rw [hrecord htwins]
  exact Act.agree_liftM_bind fun _ _ => Act.agree_pure rfl

theorem bounded_alike {R : Row → Row → Prop} (take : Option Int) {rows rows' : List Row}
    (h : List.Forall₂ R rows rows') : List.Forall₂ R (bounded take rows) (bounded take rows') := by
  unfold bounded
  split
  · split
    · exact h
    · exact List.forall₂_take _ h
  · exact h

/-- The records that are found for a plan that conceals are the same in twins. -/
theorem findMany_agree (hd : v.schema.Describes c) (hv : v.Veiled c veil)
    (hp : ∀ m, c.model? entity = some m → p.Conceals v c veil entity m) :
    Act.Agree (c.Twins veil) (· = ·) (c.findMany entity p) (c.findMany entity p) := by
  unfold findMany
  refine Act.agree_liftM_bind fun m hmodel => ?_
  have hm := model_ok_iff.mp hmodel
  refine (chosen_agree hv hm (hp m hm)).bind fun rows rows' ⟨hrows, ht, ht'⟩ => ?_
  refine Act.agree_liftM_bind fun _ _ => Act.agree_liftM_bind fun _ _ => ?_
  have hin {rows : List Row} (row : Row) (h : row ∈ bounded p.take (rows.drop (p.skip.getD 0).toNat)) : row ∈ rows :=
    List.mem_of_mem_drop (mem_of_mem_bounded h)
  have hpage := eraseDups_alike (fun k hk => hv.keys hm hk)
    (bounded_alike p.take (List.forall₂_drop (p.skip.getD 0).toNat hrows)) (ht.subset hin) (ht'.subset hin)
  refine Act.Agree.mono (fun records records' h => ?_)
    (Act.agree_mapM (fun row row' hr => shown_agree hd hv hm (hp m hm) hr) hpage)
  rwa [List.forall₂_eq_eq_eq] at h

/-- The number of rows that satisfy a filter without a veiled column is the same in twins. -/
theorem count_agree (hv : v.Veiled c veil) {filter : Object}
    (hf : ∀ m, c.model? entity = some m → c.Clear veil m (.object filter)) :
    Act.Agree (c.Twins veil) (· = ·) (c.count entity filter) (c.count entity filter) := by
  unfold count
  refine Act.agree_liftM_bind fun m hmodel => Act.agree_liftM_bind fun cond hcond => ?_
  have hm := model_ok_iff.mp hmodel
  refine Act.agree_liftM_bind fun _ _ => Act.agree_get_bind fun db db' htwins => Act.agree_pure ?_
  rw [(select_alike htwins.alike (fun k hk => hv.keys hm hk)
    (condition_agrees htwins.alike (hf m hm) hcond)).length_eq]

end Catalog

end RecordGraph
