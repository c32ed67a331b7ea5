import RecordGraph.Proofs.Relational.Naming
import RecordGraph.Query.Selection
import RecordGraph.Relational.Sorting

/-!
# Orders that avoid columns

An order by a path of links names the columns that the links are held in and the one at its end. Rows of
databases that are alike come in the same order, if it names no veiled column.
-/

namespace RecordGraph

/-! ## What orders name -/

namespace Paging

/-- The segments of a path. -/
def segments (path : String) : List String := (splitText '.' path).map trimText

/-- The order by the column at the end of a path of links. -/
def orderTree (direction : Value) : List String → Object
  | [] => [("", direction)]
  | [name] => [(name, direction)]
  | name :: next :: rest => [(name, .object (orderTree direction (next :: rest)))]

theorem segments_ne_nil (path : String) : segments path ≠ [] := by
  simp [segments, splitText, splitAt_ne_nil]

theorem orderTree_eq (direction : Value) : ∀ segments : List String, segments.dropLast.foldr
    (fun segment tree => [(segment, .object tree)]) [(segments.getLastD "", direction)] =
      orderTree direction segments
  | [] => rfl
  | [name] => rfl
  | name :: next :: rest => by
    have ih := orderTree_eq direction (next :: rest)
    rw [List.dropLast_cons_cons, List.foldr_cons, orderTree, ← ih]
    rfl

theorem sort_ok {path : String} {direction : Value} {order : Object} (h : sort (.text path) direction = .ok order) :
    direction.isObject = false ∧ order = orderTree direction (segments path) := by
  simp only [sort] at h
  split at h
  · split at h
    · obtain rfl := pure_ok_iff.mp h
      exact ⟨rfl, orderTree_eq _ _⟩
    · cases h
  · cases h

end Paging

namespace Catalog

/-- An order by a path names a column. -/
inductive PathNames (c : Catalog) : Model → List String → String × String → Prop
  | column {m name} : PathNames c m [name] (m.name, name)
  | held {m name next rest l p} (hl : m.link? name = some l) (hp : p ∈ l.heldIn m.name) :
      PathNames c m (name :: next :: rest) p
  | further {m name next rest l target p} (hl : m.link? name = some l) (ht : c.named l.target = .ok target)
      (h : PathNames c target (next :: rest) p) : PathNames c m (name :: next :: rest) p

/-- The model to whose rows a path of links leads. -/
def modelAt (c : Catalog) (m : Model) (path : List String) : Option Model :=
  path.foldl
    (fun found name => found.bind fun source => (source.link? name).bind fun l => (c.named l.target).toOption)
    (some m)

theorem modelAt_append {c : Catalog} {m source target : Model} {path : List String} {name : String} {l : Link}
    (hs : c.modelAt m path = some source) (hl : source.link? name = some l) (ht : c.named l.target = .ok target) :
    c.modelAt m (path ++ [name]) = some target := by
  rw [modelAt] at hs
  rw [modelAt, List.foldl_append, hs]
  show (source.link? name).bind (fun l => (c.named l.target).toOption) = _
  rw [hl, Option.bind_some, ht]
  rfl

end Catalog

namespace Sorting

variable {c : Catalog} {veil : Veil} {m source : Model} {db db' : Database} {path : List String} {s s' : Sorting}

/-- The rows of a join are found without a veiled column. -/
def Join.Clear (c : Catalog) (veil : Veil) (m : Model) (j : Join) : Prop :=
  ∃ source target, c.modelAt m j.source = some source ∧ source.link? j.link.name = some j.link ∧
    c.named j.link.target = .ok target ∧ ∀ p ∈ j.link.heldIn source.name, p ∉ veil

def Term.Clear (c : Catalog) (veil : Veil) (m : Model) (t : Term) : Prop :=
  ∃ source, c.modelAt m t.path = some source ∧ (source.name, t.column) ∉ veil

/-- Neither the joins nor the terms of an order need a veiled column. -/
structure Clear (c : Catalog) (veil : Veil) (m : Model) (s : Sorting) : Prop where
  joins : ∀ j ∈ s.joins, j.Clear c veil m
  terms : ∀ t ∈ s.terms, t.Clear c veil m

theorem addMembers_single {name : String} {v : Value} :
    addMembers c source path s [(name, v)] = addMember c source path s name v := by
  rw [addMembers]
  show (do addMembers c source path (← addMember c source path s name v) []) = _
  simp only [addMembers]
  exact bind_pure _

theorem addMember_column {name : String} {direction : Value} (hd : direction.isObject = false)
    (h : addMember c source path s name direction = .ok s') :
    ∃ descending, s' = { s with terms := s.terms ++ [⟨path, name, descending⟩] } := by
  cases direction with
  | object => cases hd
  | _ =>
      simp only [addMember] at h
      split at h
      · cases h
      · exact ⟨_, (pure_ok_iff.mp h).symm⟩

theorem addMember_link {name : String} {nested : Object} (h : addMember c source path s name (.object nested) = .ok s') :
    ∃ l target, source.link? name = some l ∧ c.named l.target = .ok target ∧
      addMembers c target (path ++ [name]) { s with joins := s.joins ++ [⟨path, l⟩] } nested = .ok s' := by
  rw [addMember] at h
  split at h
  · cases h
  · rename_i l hl
    obtain ⟨target, ht, h⟩ := bind_ok_iff.mp h
    exact ⟨l, target, (Option.filter_eq_some_iff.mp hl).1, ht, h⟩

/-- The order by a path that names no veiled column, by induction on what is left of the path. -/
theorem addMembers_clear {direction : Value} (hd : direction.isObject = false) {segments : List String} :
    ∀ {source : Model} {path : List String} {s s' : Sorting}, segments ≠ [] → c.modelAt m path = some source →
      (∀ p ∈ veil, ¬ c.PathNames source segments p) → s.Clear c veil m →
      addMembers c source path s (Paging.orderTree direction segments) = .ok s' → s'.Clear c veil m := by
  induction segments with
  | nil => exact fun hne => absurd rfl hne
  | cons name rest ih =>
      intro source path s s' _ hsource hnames hs h
      cases rest with
      | nil =>
          rw [Paging.orderTree, addMembers_single] at h
          obtain ⟨descending, rfl⟩ := addMember_column hd h
          refine ⟨hs.joins, fun t ht => ?_⟩
          rcases List.mem_append.mp ht with ht | ht
          · exact hs.terms t ht
          · obtain rfl := List.mem_singleton.mp ht
            exact ⟨source, hsource, fun hin => hnames _ hin .column⟩
      | cons next rest =>
          rw [Paging.orderTree, addMembers_single] at h
          obtain ⟨l, target, hl, ht, h⟩ := addMember_link h
          have hname : l.name = name := by simpa using List.find?_some hl
          have hs' : Clear c veil m { s with joins := s.joins ++ [⟨path, l⟩] } := by
            refine ⟨fun j hj => ?_, hs.terms⟩
            rcases List.mem_append.mp hj with hj | hj
            · exact hs.joins j hj
            · obtain rfl := List.mem_singleton.mp hj
              exact ⟨source, target, hsource, hname ▸ hl, ht, fun p hp hin => hnames p hin (.held hl hp)⟩
          exact ih (List.cons_ne_nil _ _) (Catalog.modelAt_append hsource hl ht)
            (fun p hp hn => hnames p hp (.further hl ht hn)) hs' h

theorem read_clear {direction : Value} (hd : direction.isObject = false) {segments : List String}
    (hne : segments ≠ []) (hnames : ∀ p ∈ veil, ¬ c.PathNames m segments p)
    (h : read c m (Paging.orderTree direction segments) = .ok s) : s.Clear c veil m :=
  addMembers_clear hd hne rfl hnames ⟨by simp, by simp⟩ h

/-! ## Rows in order -/

/-- Joined rows are alike if the rows at each path are. -/
def JoinedAlike (c : Catalog) (veil : Veil) (m : Model) : Joined → Joined → Prop :=
  List.Forall₂ fun at_ at' => at_.1 = at'.1 ∧
    ∀ source, c.modelAt m at_.1 = some source → Row.Alike veil source.name at_.2 at'.2

variable {r r' t t' : Joined}

theorem lookup_alike (h : JoinedAlike c veil m r r') (hs : c.modelAt m path = some source) :
    Option.Rel (Row.Alike veil source.name) (r.lookup path) (r'.lookup path) := by
  have hrow := lookup_forall₂ (P := fun place row row' => ∀ source, c.modelAt m place = some source →
    Row.Alike veil source.name row row') h path
  generalize r.lookup path = row, r'.lookup path = row' at hrow ⊢
  cases hrow with
  | none => exact .none
  | some hrow => exact .some (hrow source hs)

/-- A joined row with each of the rows that are found for a join, or as it is if there are none. -/
def attach (j : Join) (r : Joined) (found : List Row) : List Joined :=
  match found with
  | [] => [r]
  | found => found.map fun other => r ++ [(j.path, other)]

theorem join_eq (db : Database) (rows : List Joined) (j : Join) : join db rows j =
    rows.flatMap fun r => attach j r (((r.lookup j.source).map (db.linkedRows j.link)).getD []) := by
  unfold join attach
  refine congrArg (rows.flatMap ·) (funext fun r => ?_)
  cases r.lookup j.source <;> rfl

theorem join_alike (hdb : db.Alike veil db') {j : Join} (hj : j.Clear c veil m) {rows rows' : List Joined}
    (h : List.Forall₂ (JoinedAlike c veil m) rows rows') :
    List.Forall₂ (JoinedAlike c veil m) (join db rows j) (join db' rows' j) := by
  obtain ⟨source, target, hs, hl, ht, hheld⟩ := hj
  have hpath : c.modelAt m j.path = some target := Catalog.modelAt_append hs hl ht
  have hone {r r' : Joined} {other other' : Row} (hr : JoinedAlike c veil m r r')
      (ho : Row.Alike veil j.link.target other other') :
      JoinedAlike c veil m (r ++ [(j.path, other)]) (r' ++ [(j.path, other')]) := by
    refine List.rel_append hr (.cons ⟨rfl, fun source hsource => ?_⟩ .nil)
    rw [hpath] at hsource
    obtain rfl := Option.some.inj hsource
    rw [Catalog.named_name ht]
    exact ho
  rw [join_eq, join_eq]
  refine List.rel_flatMap h fun r r' hr => ?_
  have hfound : List.Forall₂ (Row.Alike veil j.link.target)
      (((r.lookup j.source).map (db.linkedRows j.link)).getD [])
      (((r'.lookup j.source).map (db'.linkedRows j.link)).getD []) := by
    have hlookup := lookup_alike hr hs
    generalize r.lookup j.source = row, r'.lookup j.source = row' at hlookup
    cases hlookup with
    | none => exact .nil
    | some hrow => exact hdb.linkedRows hheld hrow
  generalize ((r.lookup j.source).map (db.linkedRows j.link)).getD [] = found,
    ((r'.lookup j.source).map (db'.linkedRows j.link)).getD [] = found' at hfound
  cases hfound with
  | nil => exact .cons hr .nil
  | cons hfirst hrest => exact List.rel_map (fun _ _ ho => hone hr ho) (.cons hfirst hrest)

theorem cell_alike {term : Term} (h : JoinedAlike c veil m r r') (ht : term.Clear c veil m) :
    cell r term = cell r' term := by
  obtain ⟨source, hs, hclear⟩ := ht
  have hlookup := lookup_alike h hs
  unfold cell
  generalize r.lookup term.path = row, r'.lookup term.path = row' at hlookup
  cases hlookup with
  | none => rfl
  | some hrow => exact hrow term.column hclear

theorem order_alike {terms : List Term} (hterms : ∀ term ∈ terms, term.Clear c veil m)
    (hr : JoinedAlike c veil m r r') (ht : JoinedAlike c veil m t t') : order terms r t = order terms r' t' := by
  unfold order
  generalize Ordering.eq = start
  induction terms generalizing start with
  | nil => rfl
  | cons term rest ih =>
      have hterm := hterms term List.mem_cons_self
      rw [List.foldl_cons, List.foldl_cons, cell_alike hr hterm, cell_alike ht hterm]
      exact ih (fun term h => hterms term (List.mem_cons_of_mem _ h)) _

/-- Rows that are alike are so in an order that needs no veiled column. -/
theorem Clear.sort (hs : s.Clear c veil m) (hdb : db.Alike veil db') {rows rows' : List Row}
    (h : List.Forall₂ (Row.Alike veil m.name) rows rows') :
    List.Forall₂ (Row.Alike veil m.name) (s.sort db rows) (s.sort db' rows') := by
  -- rows stay alike from join to join; the sorting itself then compares alike
  have hjoined : ∀ (joins : List Join) (joined joined' : List Joined), (∀ j ∈ joins, j.Clear c veil m) →
      List.Forall₂ (JoinedAlike c veil m) joined joined' →
      List.Forall₂ (JoinedAlike c veil m) (joins.foldl (join db) joined) (joins.foldl (join db') joined') := by
    intro joins
    induction joins with
    | nil => exact fun _ _ _ h => h
    | cons j rest ih =>
        exact fun joined joined' hj h => ih _ _ (fun j h => hj j (List.mem_cons_of_mem _ h))
          (join_alike hdb (hj j List.mem_cons_self) h)
  have hstart : List.Forall₂ (JoinedAlike c veil m) (rows.map fun r => [([], r)]) (rows'.map fun r => [([], r)]) := by
    refine List.rel_map (fun row row' hrow => .cons ⟨rfl, fun source hsource => ?_⟩ .nil) h
    obtain rfl := Option.some.inj (show some m = some source from hsource)
    exact hrow
  refine List.rel_filterMap (fun r r' hr => ?_)
    (forall₂_mergeSort (fun hr ht => by rw [order_alike hs.terms hr ht]) (hjoined s.joins _ _ hs.joins hstart))
  exact lookup_alike hr rfl

end Sorting

end RecordGraph
