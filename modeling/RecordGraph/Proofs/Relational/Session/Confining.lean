import RecordGraph.Proofs.Relational.Session.Editing
import RecordGraph.Proofs.Relational.Undoing

/-!
# Updates of related rows

The rows that are updated along a list relation are looked up in the whole table. If what they are looked up by is found
among the related rows only, no others are changed; and if it is not found, the call is refused and changes nothing.
-/

namespace RecordGraph

/-- The rows that a row is linked to. -/
def Database.Related (db : Database) (l : Link) (parent row : Row) : Prop := db.linked l parent row = true

instance (db : Database) (l : Link) (parent row : Row) : Decidable (db.Related l parent row) :=
  inferInstanceAs (Decidable (_ = true))

/-- A filter finds the row in some database in which only allowed rows were changed. -/
def Catalog.LooksUp (c : Catalog) (P : Row → Prop) (db : Database) (target : Model) (filter : Value) (row : Row) : Prop :=
  ∃ db' cond, db.ChangesOnly P target.name db' ∧ db'.Keyed target ∧ c.condition target filter = .ok cond ∧
    (db'.select target cond).head? = some row

namespace Work

variable {K : Failure → Prop} {P : Row → Prop} {R : Session → Prop} {c : Catalog} {m target : Model} {db db₀ : Database}
  {ref : Ref} {s : Session} {t : Tracked} {l : Link} {k : Collection} {entries item : Value} {levels : Nat}

/-- How the storage refuses to update a related row that is not there. -/
def unrelated (l : Link) (filter : Value) : Failure :=
  .faultOf .recordNotFound ("No related '" ++ l.name ++ "' record matches " ++ filter.shown) [("target", .text l.name)]

/-- The data of an entry sets nothing but columns. -/
def SetsColumns (target : Model) (item : Value) : Prop :=
  ∀ members, member? item "data" = .ok (.object members) → ∀ kv ∈ members, target.link? kv.1 = none

/-- An entry finds no row but allowed ones, of those that are in the database. -/
def StaysWithin (c : Catalog) (P : Row → Prop) (db : Database) (target : Model) (item : Value) : Prop :=
  ∀ filter, member item "where" = .ok filter → ∀ row ∈ db.rowsOf target.name, c.LooksUp P db target filter row → P row

/-- A row was found for the entry: an allowed one, or one that has come in the place of one. -/
def Found (c : Catalog) (P : Row → Prop) (db : Database) (target : Model) (item : Value) : Prop :=
  ∃ filter row, member item "where" = .ok filter ∧ c.LooksUp P db target filter row ∧
    (row ∈ db.rowsOf target.name → P row)

/-- It is enough to look at the rows as they are, if what they are looked up by is told without rows of their table. -/
theorem staysWithin_of_apart {filter : Value} {cond : Condition} (hfilter : member item "where" = .ok filter)
    (hcond : c.condition target filter = .ok cond) (hapart : ∀ l ∈ cond.links, l.target ≠ target.name)
    (h : ∀ row ∈ db.rowsOf target.name, cond.selects db row = true → P row) : StaysWithin c P db target item := by
  rintro _ hfilter' row hrow ⟨db', _, hchanges, _, hcond', hfound⟩
  cases hfilter.symm.trans hfilter'
  cases hcond.symm.trans hcond'
  refine h row hrow ?_
  rw [← hchanges.selects hapart]
  exact (List.mem_filter.mp (List.mem_of_head? hfound)).2

theorem changeMany_update : changeMany c (setWithin c levels) m target k "update" entries = (do
    for item in itemsOf entries do
      let filter ← member item "where"
      match ← findOne c target filter with
      | some found => setWithin c levels found (← member? item "data")
      | none => throw (unrelated k.link filter)
    return k) := rfl

/-- Each entry changes the row that it finds, which is an allowed one. -/
theorem updateEach_edits (hno : ∀ f, ¬ K f) (hs : Edits db₀ P target s)
    (hplain : ∀ item ∈ itemsOf entries, SetsColumns target item)
    (hwithin : ∀ item ∈ itemsOf entries, StaysWithin c P db₀ target item) :
    (changeMany c (setWithin c levels) m target k "update" entries).Avoids K s fun _ s' =>
      Edits db₀ P target s' ∧ ∀ item ∈ itemsOf entries, Found c P db₀ target item := by
  -- an entry is looked up only after what the one before it has set is written, so one object at most is set at a time
  let I (rest : List Value) (s : Session) : Prop := Edits db₀ P target s ∧
    ∃ done, itemsOf entries = done ++ rest ∧ ∀ item ∈ done, Found c P db₀ target item
  rw [changeMany_update]
  refine (Act.avoids_forIn (I := I) (fun item rest s hs => ?_) ⟨hs, [], rfl, nofun⟩).bind fun _ s hs => ?_
  · obtain ⟨hs, done, hdone, hfound⟩ := hs
    have hin : item ∈ itemsOf entries := by simp [hdone]
    refine (Act.avoids_lift (.of_none hno)).bind fun filter s' hfilter => ?_
    obtain ⟨hfilter, rfl⟩ := hfilter
    refine (findOne_edits hs (.inr hno) (.of_none hno)).bind fun found s' hs' => ?_
    obtain ⟨hs', hq, cond, hcond, hrow⟩ := hs'
    cases found with
    | none => exact Act.avoids_throw (hno _)
    | some ref =>
      obtain ⟨row, t, hhead, ht, hmodel, hkey⟩ := hrow
      have hlooked : c.LooksUp P db₀ target filter row := ⟨s'.db, cond, hs'.changes, hs'.keyed, hcond, hhead⟩
      have hselected := (List.mem_filter.mp (List.mem_of_head? hhead)).1
      have hallowed : row ∈ db₀.rowsOf target.name → P row := fun hold => hwithin item hin filter hfilter row hold hlooked
      have htouch : db₀.Touchable P target s'.db t.key := hkey ▸ hs'.changes.touchable hs'.keyed hselected hallowed
      refine (Act.avoids_lift (.of_none hno)).bind fun data s'' hdata => ?_
      obtain ⟨hdata, rfl⟩ := hdata
      have hcolumns (members : Object) (hmembers : data = .object members) : ∀ kv ∈ members, target.link? kv.1 = none :=
        hplain item hin members (hmembers ▸ hdata)
      refine (setColumns_edits hno hs' hq ht hmodel htouch hcolumns).bind fun _ s'' hs'' =>
        Act.avoids_pure ⟨rfl, hs'', done ++ [item], by simp [hdone], fun entry hentry => ?_⟩
      rcases List.mem_append.mp hentry with hentry | hentry
      · exact hfound entry hentry
      · rw [List.mem_singleton.mp hentry]
        exact ⟨filter, row, hfilter, hlooked, hallowed⟩
  · obtain ⟨hs, done, hdone, hfound⟩ := hs
    rw [List.append_nil] at hdone
    exact Act.avoids_pure ⟨hs, hdone ▸ hfound⟩

/-- An entry that finds no row is refused before any row is changed. -/
theorem updateEach_refused {filter : Value} {rest : List Value} {cond : Condition}
    (hs : Edits db₀ (fun _ => False) target s) (hq : Quiet s) (hitems : itemsOf entries = item :: rest)
    (hfilter : member item "where" = .ok filter) (hcond : c.condition target filter = .ok cond)
    (hbind : cond.bind = .ok ()) (hnone : db₀.select target cond = []) :
    (changeMany c (setWithin c levels) m target k "update" entries).Avoids (· ≠ unrelated k.link filter) s
      fun _ _ => False := by
  have hread : c.condition target filter >>= (fun cond => cond.bind) = .ok () := by
    rw [hcond]
    exact hbind
  rw [changeMany_update, hitems, List.forIn_cons]
  refine Act.Avoids.bind (Q := fun _ _ => False) (Act.Avoids.bind (Q := fun _ _ => False) ?_ nofun) nofun
  rw [hfilter]
  refine .after (a := filter) rfl ((findOne_edits hs (.inl hq) (hread ▸ trivial)).bind fun found s' hs' => ?_)
  obtain ⟨hs', _, cond', hcond', hrow⟩ := hs'
  cases hcond.symm.trans hcond'
  have hselect := hs'.changes.select (m := target) cond
  cases found with
  | none => exact Act.avoids_throw fun hne => hne rfl
  | some ref =>
    obtain ⟨row, _, hhead, _⟩ := hrow
    rw [hselect, hnone] at hhead
    cases hhead

/-! ## A row and its related rows -/

/-- The related rows are read before the entries are gone through, which changes nothing. -/
theorem changeRelation_edits (hs : Edits db₀ P target s) (hq : Quiet s) (ht : s.objects[ref]? = some t)
    (hlist : l.isList = true) (hnamed : c.named l.target = .ok target)
    (hbody : ∀ s k, k.link = l → Edits db₀ P target s → Quiet s →
      (changeMany c (setWithin c levels) m target k "update" entries).Avoids K s fun _ s' => R s') :
    (changeRelation c (setWithin c levels) ref m l (.object [("update", entries)])).Avoids K s fun _ s' => R s' := by
  have hpresent : (Value.object [("update", entries)]).isPresent = true := rfl
  rw [changeRelation, hpresent, hnamed]
  refine .after (a := target) rfl ?_
  rw [if_pos hlist]
  refine (endsOf_edits hs (.inl hq) ht hnamed).bind fun _ s' hs' => ?_
  obtain ⟨hs', hq'⟩ := hs'
  rw [List.foldlM_cons, bind_assoc]
  exact (hbody s' _ rfl hs' (hq' hq)).bind fun _ s'' hs'' => hs''

/-- On the way to the entries, and after them, nothing is changed but by them. -/
theorem updateRelated_edits {parent : Row} {rel : String} {Q : List Cell → Session → Prop} (hkeyed : db.Keyed target)
    (hm : m.name = target.name → m = target) (hl : m.link? rel = some l) (hlist : l.isList = true)
    (hnamed : c.named l.target = .ok target)
    (hbody : ∀ s levels k, k.link = l → Edits db P target s → Quiet s →
      (changeMany c (setWithin c levels) m target k "update" entries).Avoids K s fun _ s' => R s')
    (hafter : ∀ ref s, R s → (c.written ref).Avoids K s Q) :
    (ofRow m parent >>= fun ref => c.updated ref [(rel, .object [("update", entries)])]).Avoids K { db } Q := by
  have hrun : (ofRow m parent).runOn { db } =
      (.ok 0, { db, objects := [{ model := m, stage := .stored, key := parent.key m }] }) := rfl
  have hstart : (ofRow m parent).Avoids K { db } _ := ofRow_edits (Edits.start (P := P) hkeyed) hm
  rw [Act.Avoids, hrun] at hstart
  obtain ⟨hs, _, hq, _, ht, _⟩ := hstart
  refine .after hrun (Act.Avoids.bind (Q := fun _ s' => R s') ?_ fun _ s' hs' => hafter 0 s' hs')
  obtain ⟨levels, hlevels⟩ : ∃ levels, (Value.object [(rel, .object [("update", entries)])]).depth = levels + 1 :=
    ⟨_, rfl⟩
  rw [setAll, hlevels, setWithin]
  refine .after (a := { model := m, stage := .stored, key := parent.key m }) rfl ?_
  dsimp only
  rw [List.forIn_cons, bind_assoc, hl]
  have hrelation := changeRelation_edits hs (hq quiet_start) ht hlist hnamed fun s k => hbody s levels k
  refine (hrelation.bind (P := fun step s' => step = ForInStep.yield ⟨⟩ ∧ R s') fun _ s' hs' =>
    Act.avoids_pure ⟨rfl, hs'⟩).bind fun step s' hs' => ?_
  obtain ⟨rfl, hs'⟩ := hs'
  exact hs'

/-- What the session ends with is what was edited. -/
theorem written_edits (hno : ∀ f, ¬ K f) (hs : Edits db₀ P target s) :
    (c.written ref).Avoids K s fun _ s' => Edits db₀ P target s' := by
  refine (flush_edits hs (.inr hno)).bind fun _ s' hs' => ?_
  have hobject : (object ref).Avoids K s' fun _ s'' => s'' = s' := by
    refine .get ?_
    cases s'.objects[ref]? with
    | none => exact Act.avoids_throw (hno _)
    | some t => exact Act.avoids_pure rfl
  refine hobject.bind fun _ s'' hs'' => Act.avoids_pure ?_
  exact hs'' ▸ hs'.1

section
variable {parent : Row} {rel : String} (hkeyed : db.Keyed target) (hm : m.name = target.name → m = target)
  (hl : m.link? rel = some l) (hlist : l.isList = true) (hnamed : c.named l.target = .ok target)
include hkeyed hm hl hlist hnamed

theorem updated_related (hplain : ∀ item ∈ itemsOf entries, SetsColumns target item)
    (hwithin : ∀ item ∈ itemsOf entries, StaysWithin c P db target item) :
    (ofRow m parent >>= fun ref => c.updated ref [(rel, .object [("update", entries)])]).Avoids (fun _ => False) { db }
      fun _ s => Edits db P target s ∧ ∀ item ∈ itemsOf entries, Found c P db target item := by
  have hno (f : Failure) : ¬ (fun _ : Failure => False) f := id
  refine updateRelated_edits hkeyed hm hl hlist hnamed
    (fun _ _ _ _ hs _ => updateEach_edits hno hs hplain hwithin) fun ref s hs => ?_
  exact (written_edits hno hs.1).mono fun _ _ hs' => ⟨hs', hs.2⟩

theorem updated_refused {filter : Value} {rest : List Value} {cond : Condition} (hitems : itemsOf entries = item :: rest)
    (hfilter : member item "where" = .ok filter) (hcond : c.condition target filter = .ok cond)
    (hbind : cond.bind = .ok ()) (hnone : db.select target cond = []) :
    (ofRow m parent >>= fun ref => c.updated ref [(rel, .object [("update", entries)])]).Avoids
      (· ≠ unrelated l filter) { db } fun _ _ => False :=
  updateRelated_edits hkeyed hm hl hlist hnamed
    (fun _ _ _ hk hs hq => hk ▸ updateEach_refused hs hq hitems hfilter hcond hbind hnone) fun _ _ hnever => hnever.elim

end

end Work

namespace Catalog

open Work

variable {c : Catalog} {db db' : Database} {entity rel : String} {m target : Model} {l : Link} {filter : Object} {parent : Row}
  {entries : Value} {p : Option Plan}

/-- What is said of the session of an update holds of the update, as nothing but reads come after. -/
theorem update_session {K : Failure → Prop} {Q : List Cell → Session → Prop} {payload : Object}
    (hm : c.model? entity = some m) (hparent : c.firstRow db m filter = .ok (some parent))
    (h : (ofRow m parent >>= fun ref => c.updated ref payload).Avoids K { db } Q) :
    (∃ failure, ¬ K failure ∧
        (c.update entity filter payload p).runOn db = (.error (Query.told (some entity) failure), db)) ∨
      ∃ key s, Q key s ∧ ((c.update entity filter payload p).runOn db).2 = s.db := by
  rw [update_run hm, hparent]
  dsimp only
  rw [map_eq_pure_bind, Act.runOn_bind, changeRow, Act.runOn_bind, Query.write_run]
  rw [Act.Avoids] at h
  rcases hrun : (ofRow m parent >>= fun ref => c.updated ref payload).runOn { db } with ⟨failure | key, s⟩ <;>
    rw [hrun] at h
  · exact .inl ⟨failure, h, rfl⟩
  · refine .inr ⟨key, s, h, ?_⟩
    dsimp only
    rcases hout : (c.output m p key).runOn s.db with ⟨failure | record, db'⟩
    · exact output_still.run hout
    · exact output_still.run hout

/-- What an update of the rows that are related to a row comes to. -/
structure Confined (c : Catalog) (db : Database) (l : Link) (parent : Row) (target : Model) (entries : Value)
    (result : Except Failure (Option Object) × Database) : Prop where
  /-- However it ends, rows that are not related stay as they are. -/
  related : db.ChangesOnly (db.Related l parent) target.name result.2
  /-- If it succeeds, each entry has found a row. -/
  found : ∀ record, result.1 = .ok record → ∀ item ∈ itemsOf entries,
    Found c (db.Related l parent) db target item
  /-- If there is no row for the first entry, it is refused. -/
  refused : ∀ item rest filter cond, itemsOf entries = item :: rest → member item "where" = .ok filter →
    c.condition target filter = .ok cond → cond.bind = .ok () → db.select target cond = [] →
    result = (.error (unrelated l filter), db)

theorem Confined.transaction {act : Query (Option Object)} {name : Option String}
    (h : Confined c db l parent target entries (act.runOn db)) :
    Confined c db l parent target entries ((Query.transaction name act).runOn db) := by
  rw [Query.transaction_run]
  rcases hrun : act.runOn db with ⟨failure | record, db'⟩ <;> rw [hrun] at h
  · refine ⟨.refl, nofun, fun item rest filter cond hitems hfilter hcond hbind hnone => ?_⟩
    cases h.refused item rest filter cond hitems hfilter hcond hbind hnone
    rfl
  · exact h

/-- Along a list relation of a row its entries update related rows only, if they set columns and what each of them looks
for is, at its turn, not found first among the other rows. An entry for which there is no row is refused. -/
theorem related_updates_confined (hc : c.WellFormed) (hm : c.model? entity = some m) (hl : m.link? rel = some l)
    (hlist : l.isList = true) (hnamed : c.named l.target = .ok target) (hkeyed : db.Keyed target)
    (hparent : c.firstRow db m filter = .ok (some parent))
    (hplain : ∀ item ∈ itemsOf entries, SetsColumns target item)
    (hwithin : ∀ item ∈ itemsOf entries, StaysWithin c (db.Related l parent) db target item) :
    Confined c db l parent target entries
        ((c.storage.update entity filter [(rel, .object [("update", entries)])] p).runOn db) ∧
      Confined c db l parent target entries
        ((c.calls.update entity filter [(rel, .object [("update", entries)])] p).runOn db) := by
  have hsame : m.name = target.name → m = target := by
    obtain ⟨⟨_, htarget⟩, _⟩ := (named_ok_iff hc).mp hnamed
    exact hc.names _ (mem_of_model? hm) _ htarget
  have hrelated := update_session (p := p) hm hparent (updated_related hkeyed hsame hl hlist hnamed hplain hwithin)
  have hcall : Confined c db l parent target entries
      ((c.update entity filter [(rel, .object [("update", entries)])] p).runOn db) := by
    refine ⟨?_, fun record hok => ?_, fun item rest filter cond hitems hfilter hcond hbind hnone => ?_⟩
    · rcases hrelated with ⟨_, _, hfailed⟩ | ⟨_, s, hs, hdb⟩
      · rw [hfailed]
        exact .refl
      · rw [hdb]
        exact hs.1.changes
    · rcases hrelated with ⟨_, _, hfailed⟩ | ⟨_, s, hs, _⟩
      · rw [hfailed] at hok
        cases hok
      · exact hs.2
    · rcases update_session hm hparent (updated_refused hkeyed hsame hl hlist hnamed hitems hfilter hcond hbind hnone) with
        ⟨failure, hfailure, hfailed⟩ | ⟨_, _, hnever, _⟩
      · rw [hfailed, not_not.mp hfailure]
        rfl
      · exact hnever.elim
  exact ⟨hcall.transaction, hcall⟩

/-! Two posts with a comment each. -/

def remark (id post : Int) (body : String) : Row :=
  [("id", .integer id), ("body", .text body), ("approved", .integer 1), ("postId", .integer post)]

def desk : Row := [("id", .integer 3), ("authorId", .integer 7)]

def lamp : Row := [("id", .integer 4), ("authorId", .integer 7)]

def threads (first second : String) : Database :=
  { tables := [("Comment", [remark 1 3 first, remark 2 4 second]), ("Post", [desk, lamp])] }

/-- An update of a comment by its number. -/
def rewording (id : Int) : Value :=
  .list [.object [("where", .object [("id", .int id)]), ("data", .object [("body", .text "changed")])]]

/-- A comment of the post is changed. -/
theorem ownComment_reworded :
    blogCatalog.WellFormed ∧ blogCatalog.named postComments.target = .ok blogComments ∧
    (threads "one" "two").Keyed blogComments ∧
    blogCatalog.firstRow (threads "one" "two") blogPosts [("id", .int 3)] = .ok (some desk) ∧
    (∀ item ∈ itemsOf (rewording 1), SetsColumns blogComments item ∧
      StaysWithin blogCatalog ((threads "one" "two").Related postComments desk) (threads "one" "two")
        blogComments item) ∧
    Confined blogCatalog (threads "one" "two") postComments desk blogComments (rewording 1)
      (.ok (some [("id", .int 3), ("authorId", .int 7)]), threads "changed" "two") := by
  have hkeyed : (threads "one" "two").Keyed blogComments := ⟨by decide, by decide⟩
  have hparent : blogCatalog.firstRow (threads "one" "two") blogPosts [("id", .int 3)] = .ok (some desk) := by cbv
  have hmodel : blogCatalog.model? "Post" = some blogPosts := rfl
  have hlink : blogPosts.link? "comments" = some postComments := rfl
  have hplain : ∀ item ∈ itemsOf (rewording 1), SetsColumns blogComments item := by
    intro item hitem members hmembers
    obtain rfl := List.mem_singleton.mp hitem
    cases hmembers
    decide
  have hwithin : ∀ item ∈ itemsOf (rewording 1), StaysWithin blogCatalog
      ((threads "one" "two").Related postComments desk) (threads "one" "two") blogComments item := by
    intro item hitem
    obtain rfl := List.mem_singleton.mp hitem
    exact staysWithin_of_apart rfl rfl (by decide) (by decide)
  have hrun : (blogCatalog.storage.update "Post" [("id", .int 3)] [("comments", .object [("update", rewording 1)])]
    none).runOn (threads "one" "two") = (.ok (some [("id", .int 3), ("authorId", .int 7)]), threads "changed" "two") := by
    cbv
  have hconfined := (related_updates_confined (p := none) blogCatalog_wellFormed hmodel hlink rfl rfl hkeyed hparent hplain
    hwithin).1
  rw [hrun] at hconfined
  exact ⟨blogCatalog_wellFormed, rfl, hkeyed, hparent, fun item hitem => ⟨hplain item hitem, hwithin item hitem⟩,
    hconfined⟩

/-- A comment of another post is changed as well. -/
theorem othersComment_reworded :
    (threads "one" "two").linked postComments desk (remark 2 4 "two") = false ∧
    (blogCatalog.storage.update "Post" [("id", .int 3)] [("comments", .object [("update", rewording 2)])] none).runOn
      (threads "one" "two") = (.ok (some [("id", .int 3), ("authorId", .int 7)]), threads "one" "changed") ∧
    ¬ (threads "one" "two").ChangesOnly ((threads "one" "two").Related postComments desk) "Comment"
      (threads "one" "changed") := by
  refine ⟨rfl, by cbv, fun h => ?_⟩
  have hrows : List.Forall₂ _ [remark 1 3 "one", remark 2 4 "two"] [remark 1 3 "one", remark 2 4 "changed"] := h.rows
  rcases (List.forall₂_cons.mp (List.forall₂_cons.mp hrows).2).1 with hsame | hlinked
  · exact absurd hsame (by decide)
  · exact absurd hlinked (by decide)

end Catalog

end RecordGraph
