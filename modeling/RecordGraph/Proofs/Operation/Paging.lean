import Mathlib
import RecordGraph.Proofs.Operation.Chains
import RecordGraph.Proofs.Operation.Getting
import RecordGraph.Proofs.Operation.Reads
import RecordGraph.Proofs.Relational.Choosing

/-!
# Reading page after page

A request is repeated with the offset that the last page says, for as long as there is more. If the
storage lists the rows of an unchanging database in one order, this ends, and every row comes once.
-/

namespace RecordGraph

/-! ## Pages -/

namespace Page

/-- The offset at which a page says that the next one begins; none if there is no more. -/
def next? (p : Page) : Option Int :=
  match Object.get p.envelope "meta" with
  | .object numbers =>
    match Object.get numbers "hasMore", Object.get numbers "offset", Object.get numbers "count" with
    | .bool true, .int offset, .int count => some (offset + count)
    | _, _, _ => none
  | _ => none

theorem next?_eq {p : Page} {total : Int} (h : p.total = some total) : p.next? =
    if p.skip + p.records.length < total then some (p.skip + p.records.length) else none := by
  have hmore : Object.get p.envelope "meta" = .object [("count", .int p.records.length), ("limit", .int p.take),
      ("offset", .int p.skip), ("total", .int total), ("hasMore", .bool (p.skip + p.records.length < total))] := by
    simp [envelope, h, Object.get, Object.get?]
  rw [next?, hmore]
  by_cases hlt : p.skip + p.records.length < total <;> simp [Object.get, Object.get?, hlt]

end Page

/-! ## Listings -/

/-- The rows of an entity in an unchanging database: which of them a filter selects, how an order
compares them, and what a plan shows of them. -/
structure Listing (ρ : Type) where
  rows : List ρ
  selects : Object → ρ → Bool
  precedes : Option Object → ρ → ρ → Bool
  shows : Plan → ρ → Value
  total : ∀ order a b, precedes order a b || precedes order b a
  trans : ∀ order a b c, precedes order a b → precedes order b c → precedes order a c

namespace Listing

variable {ρ : Type} (l : Listing ρ)

/-- The rows that a filter selects, in order. -/
def listed (p : Plan) : List ρ := (l.rows.filter (l.selects p.filter)).mergeSort (l.precedes p.order)

theorem listed_perm (p : Plan) : (l.listed p).Perm (l.rows.filter (l.selects p.filter)) :=
  List.mergeSort_perm ..

theorem listed_sorted (p : Plan) : (l.listed p).Pairwise fun a b => l.precedes p.order a b := by
  apply List.pairwise_mergeSort
  · exact l.trans p.order
  · exact l.total p.order

/-- The page of some size at an offset. -/
def page (p : Plan) (size offset : Nat) : Page :=
  { records := (((l.listed p).drop offset).take size).map (l.shows p)
    take := size, skip := offset, total := some (l.listed p).length }

end Listing

/-- A storage lists the rows that a plan asks for, page by page, and counts them. What a transaction
does is done. -/
structure Storage.Lists {σ ρ : Type} (storage : Storage σ) (within : Access σ) (kept : σ → Prop) (l : Listing ρ)
    (entity : String) (p : Plan) (size : Nat) : Prop where
  findMany : ∀ s offset, kept s → offset ≤ (l.listed p).length → ∃ t, kept t ∧
    (within.findMany entity { p with take := some size, skip := some offset }).runOn s =
      (.ok ((((l.listed p).drop offset).take size).map (l.shows p)), t)
  count : ∀ s, kept s → ∃ t, kept t ∧
    (within.count entity p.filter).runOn s = (.ok (l.rows.filter (l.selects p.filter)).length, t)
  inTransaction : ∀ (work : Access σ → Act σ (List Value × Int)) s t answer, kept s → kept t →
    (work within).runOn s = (.ok answer, t) →
    ∃ u, kept u ∧ (storage.inTransaction .null work).runOn s = (.ok answer, u)

/-- Hooks that leave the paging alone: those before a list edit the request, in the same way for every
page, and those after it leave the page as it is. -/
structure Registry.Steady {σ : Type} (r : Registry σ) (kept : σ → Prop) (edit : HookContext → HookContext)
    (entity : String) : Prop where
  edits : ∀ c s, c.entity = entity → kept s → ∃ t, kept t ∧
    (r.execute "before" "get_many" c).runOn s = (.ok (edit c), t)
  continues : ∀ c, c.abort.isPresent = false → (edit c).abort.isPresent = false
  paging : ∀ c take offset, edit { c with take, offset } = { edit c with take, offset }
  leaves : ∀ c s, c.entity = entity → kept s → ∃ c' t, kept t ∧ c'.outcome = c.outcome ∧
    (r.execute "after" "get_many" c).runOn s = (.ok c', t)

theorem Registry.steady_none {σ : Type} {r : Registry σ} {kept : σ → Prop} {entity : String}
    (h : r.entries = []) : r.Steady kept id entity := by
  have hrun (stage : String) (c : HookContext) (s : σ) : (r.execute stage "get_many" c).runOn s = (.ok c, s) := by
    rw [execute, handlers_none h]
    rfl
  exact {
    edits := fun c s _ hs => ⟨s, hs, hrun "before" c s⟩
    continues := fun _ h => h
    paging := fun _ _ _ => rfl
    leaves := fun c s _ hs => ⟨c, s, hs, rfl, hrun "after" c s⟩ }

namespace Engine

variable {σ ρ : Type} (e : Engine σ) (entity : String) (user : User)

/-! ## What a request asks for -/

/-- The plan of all the rows that a request asks for. -/
def wholePlan (r : ListRequest) : Except Failure Plan := do
  let shape ← e.selection entity user r.includes r.fields
  let filter ← e.readFilter entity user r.query
  let order ← Paging.sort (.text (← e.sortPath entity r.sortBy)) r.sortOrder
  return { shape with filter, order := some order }

theorem listPlan_eq (r : ListRequest) : e.listPlan entity user r = (do
    let p ← e.wholePlan entity user r
    let take ← e.pageSize r.limit
    return { p with take := some take, skip := some (Paging.skip r.offset) }) := by
  simp only [listPlan, wholePlan, bind_assoc, pure_bind]

/-- What a list asks of the storage, in one transaction. -/
def listWork (plan : Plan) : Act σ (List Value × Int) :=
  e.storage.inTransaction .null fun tx => do
    let records ← tx.findMany entity plan
    let total ← tx.count entity plan.filter
    return (records, total)

/-- What the hooks before a list see of a request, but for the paging. -/
def listContext (r : ListRequest) (path : String) (options : Value) : HookContext :=
  { entity, operation := "get_many", stage := "before", user := some user, query := r.query
    includes := r.includes, fields := r.fields, sortBy := .text path, sortOrder := r.sortOrder, options }

/-- The request that the hooks before a list leave, of all its rows. -/
def edited (edit : HookContext → HookContext) (r : ListRequest) : Except Failure ListRequest := do
  let path ← e.sortPath entity r.sortBy
  let options ← optionsOf r.options
  let before := edit (listContext entity user r path options)
  return {
    query := before.query, includes := before.includes, fields := before.fields
    sortBy := if before.sortBy.isPresent then before.sortBy else .text path
    sortOrder := if before.sortOrder.isPresent then before.sortOrder else r.sortOrder }

/-- The request for so many rows from an offset on. -/
def ListRequest.paged (r : ListRequest) (limit offset : Int) : ListRequest :=
  { r with limit := .int limit, offset := .int offset }

/-- Pages that are read one after the other, each from where the one before says that there is more. -/
inductive Paged (r : ListRequest) (limit : Int) : Int → σ → List Page → Prop
  | last {offset s t page} (h : (e.getMany entity user (r.paged limit offset)).runOn s = (.ok (.page page), t))
      (hn : page.next? = none) : Paged r limit offset s [page]
  | more {offset next s t page pages}
      (h : (e.getMany entity user (r.paged limit offset)).runOn s = (.ok (.page page), t))
      (hn : page.next? = some next) (hp : Paged r limit next t pages) : Paged r limit offset s (page :: pages)

section Complete

variable {e entity user} {r r' : ListRequest} {edit : HookContext → HookContext} {p : Plan} {l : Listing ρ}
  {kept : σ → Prop} {within : Access σ} {limit : Int} {size : Nat} {s t : σ}

theorem pageSize_int (hn : 1 ≤ limit) : e.pageSize (.int limit) = .ok (min limit e.settings.resultLimit) := by
  have hpos : 0 < limit := by omega
  simp [pageSize, Paging.take, Value.isNull, hpos]
  rfl

/-- The work of a page reads its rows and counts all of them. -/
theorem listWork_run (hstore : e.storage.Lists within kept l entity p size) {offset : Nat}
    (ho : offset ≤ (l.listed p).length) (hs : kept s) : ∃ t, kept t ∧
      (e.listWork entity { p with take := some size, skip := some offset }).runOn s =
        (.ok ((l.page p size offset).records, ((l.listed p).length : Int)), t) := by
  obtain ⟨t, ht, hfind⟩ := hstore.findMany s offset hs ho
  obtain ⟨u, hu, hcount⟩ := hstore.count t ht
  rw [← (l.listed_perm p).length_eq] at hcount
  obtain ⟨v, hv, hrun⟩ := hstore.inTransaction (fun tx => do
      let records ← tx.findMany entity { p with take := some size, skip := some offset }
      let total ← tx.count entity p.filter
      return (records, total)) s u ((l.page p size offset).records, ((l.listed p).length : Int)) hs hu
    ((Act.runOn_bind_of hfind).trans (Act.runOn_bind_of hcount))
  exact ⟨v, hv, hrun⟩

/-- One page: the rows from its offset on, and no more than its size. -/
theorem getMany_page (hl : 1 ≤ e.settings.resultLimit) (hh : e.hooks.Steady kept edit entity)
    (hr : e.edited entity user edit r = .ok r') (hp : e.wholePlan entity user r' = .ok p)
    (hn : 1 ≤ limit) (hsize : (size : Int) = min limit e.settings.resultLimit)
    (hstore : e.storage.Lists within kept l entity p size) {offset : Nat} (ho : offset ≤ (l.listed p).length)
    (hs : kept s) : ∃ t, kept t ∧
      (e.getMany entity user (r.paged limit offset)).runOn s = (.ok (.page (l.page p size offset)), t) := by
  obtain ⟨path, hpath, hr⟩ := bind_ok_iff.mp hr
  obtain ⟨options, hoptions, hr⟩ := bind_ok_iff.mp hr
  have htake : e.pageSize (.int limit) = .ok (size : Int) := hsize ▸ pageSize_int hn
  have hpos : 1 ≤ (size : Int) := by omega
  have hagain : e.pageSize (.int size) = .ok (size : Int) := by
    rw [pageSize_int hpos]
    congr 1
    omega
  have hskip : Paging.skip (.int offset) = offset := by
    simp [Paging.skip]
  set before : HookContext := edit (listContext entity user r path options) with hbefore
  obtain ⟨t, ht, hedits⟩ := hh.edits
    { listContext entity user r path options with take := .int size, offset := .int offset } s rfl hs
  rw [hh.paging, ← hbefore] at hedits
  have hgoes : before.abort.isPresent = false := hh.continues _ rfl
  have hplan : e.listPlan entity user {
      query := before.query, includes := before.includes, fields := before.fields
      limit := if (Value.int size).isPresent then .int size else .int size
      offset := given (.int offset) (.int offset)
      sortBy := if before.sortBy.isPresent then before.sortBy else .text path
      sortOrder := if before.sortOrder.isPresent then before.sortOrder else r.sortOrder } =
      .ok { p with take := some (size : Int), skip := some (offset : Int) } := by
    cases pure_ok_iff.mp hr
    rw [ite_self, listPlan_eq]
    refine bind_ok_iff.mpr ⟨p, hp, bind_ok_iff.mpr ⟨size, hagain, ?_⟩⟩
    rw [show given (.int offset) (.int offset) = Value.int offset from rfl, hskip]
    rfl
  obtain ⟨u, hu, hpage⟩ := listWork_run (e := e) hstore ho ht
  obtain ⟨after, v, hv, hafter, hleaves⟩ := hh.leaves
    { entity, operation := "get_many", stage := "after", user := some user
      outcome := .page (l.page p size offset) } u rfl hu
  refine ⟨v, hv, ?_⟩
  rw [getMany]
  refine (Act.runOn_bind_of (congrArg (·, s) htake)).trans ?_
  refine (Act.runOn_bind_of (congrArg (·, s) hpath)).trans ?_
  refine (Act.runOn_bind_of (congrArg (·, s) hoptions)).trans ?_
  rw [show (r.paged limit offset).offset = .int offset from rfl, hskip]
  refine (Act.runOn_bind_of hedits).trans ?_
  simp only [hgoes, Bool.false_eq_true, ↓reduceIte]
  refine (Act.runOn_bind_of (congrArg (·, t) hplan)).trans ?_
  refine (Act.runOn_bind_of (ask_of hpage)).trans ?_
  refine (Act.runOn_bind_of hleaves).trans ?_
  rw [hafter]
  rfl

/-- A page of a list says that there is more until it reaches the end, and that the next one begins
where it ends. -/
theorem page_next (p : Plan) (size offset : Nat) : (l.page p size offset).next? =
    if offset + size < (l.listed p).length then some ((offset + size : Nat) : Int) else none := by
  have hlength : (l.page p size offset).records.length = min size ((l.listed p).length - offset) := by
    simp [Listing.page]
  rw [Page.next?_eq rfl, hlength]
  by_cases hlt : offset + size < (l.listed p).length
  · have hmin : min size ((l.listed p).length - offset) = size := by omega
    rw [hmin, if_pos hlt, if_pos (by simp only [Listing.page]; omega)]
    simp [Listing.page]
  · rw [if_neg hlt, if_neg (by simp only [Listing.page]; omega)]

/-- Reading goes on until the end is reached, by induction on the rows that are left. -/
theorem exists_paged (hpage : ∀ offset s, offset ≤ (l.listed p).length → kept s → ∃ t, kept t ∧
      (e.getMany entity user (r.paged limit offset)).runOn s = (.ok (.page (l.page p size offset)), t))
    (hpos : 1 ≤ size) {offset : Nat} (ho : offset ≤ (l.listed p).length) (hs : kept s) :
    ∃ pages, e.Paged entity user r limit offset s pages := by
  induction hleft : (l.listed p).length - offset using Nat.strong_induction_on generalizing offset s with
  | _ left ih =>
      obtain ⟨t, ht, hrun⟩ := hpage offset s ho hs
      have hnext := page_next (l := l) p size offset
      by_cases hlt : offset + size < (l.listed p).length
      · rw [if_pos hlt] at hnext
        have hless : (l.listed p).length - (offset + size) < left := by omega
        obtain ⟨pages, hpages⟩ := ih _ hless hlt.le ht rfl
        exact ⟨_, .more hrun hnext hpages⟩
      · rw [if_neg hlt] at hnext
        exact ⟨_, .last hrun hnext⟩

/-- The pages hold the rows from their first offset on, by induction on the reading. -/
theorem Paged.records (hpage : ∀ offset s, offset ≤ (l.listed p).length → kept s → ∃ t, kept t ∧
      (e.getMany entity user (r.paged limit offset)).runOn s = (.ok (.page (l.page p size offset)), t))
    {start : Int} {pages : List Page} (h : e.Paged entity user r limit start s pages) :
    ∀ offset : Nat, start = offset → offset ≤ (l.listed p).length → kept s →
      pages.flatMap Page.records = ((l.listed p).drop offset).map (l.shows p) := by
  induction h with
  | last h hn =>
      rintro offset rfl ho hs
      obtain ⟨t, _, hrun⟩ := hpage offset _ ho hs
      cases hrun.symm.trans h
      rw [page_next] at hn
      have hend : (l.listed p).length ≤ offset + size := by
        by_contra hlt
        rw [if_pos (by omega)] at hn
        cases hn
      have hrest : ((l.listed p).drop offset).take size = (l.listed p).drop offset :=
        List.take_of_length_le (by rw [List.length_drop]; omega)
      simp [Listing.page, hrest]
  | more h hn _ ih =>
      rintro offset rfl ho hs
      obtain ⟨t, ht, hrun⟩ := hpage offset _ ho hs
      cases hrun.symm.trans h
      rw [page_next] at hn
      split at hn
      · cases hn
        rw [List.flatMap_cons, ih (offset + size) rfl (by omega) ht]
        simp only [Listing.page]
        rw [← List.map_append, ← List.drop_drop, List.take_append_drop]
      · cases hn

end Complete

/-- Reading page after page is complete: it ends, and the pages together hold the records of all rows
that the guarded filter selects, each once and in order, whatever the limit of a page is. -/
theorem pages_complete (e : Engine σ) (entity : String) (user : User) {r r' : ListRequest}
    {edit : HookContext → HookContext} {p : Plan} {l : Listing ρ} {kept : σ → Prop} {within : Access σ}
    {limit : Int} {size : Nat} {s : σ} (hl : 1 ≤ e.settings.resultLimit)
    (hh : e.hooks.Steady kept edit entity) (hr : e.edited entity user edit r = .ok r')
    (hp : e.wholePlan entity user r' = .ok p) (hn : 1 ≤ limit)
    (hsize : (size : Int) = min limit e.settings.resultLimit)
    (hstore : e.storage.Lists within kept l entity p size) (hs : kept s) :
    e.readFilter entity user r'.query = .ok p.filter ∧
    (∃ pages, e.Paged entity user r limit 0 s pages) ∧
    ∀ pages, e.Paged entity user r limit 0 s pages → ∃ rows : List ρ,
      pages.flatMap Page.records = rows.map (l.shows p) ∧
      rows.Perm (l.rows.filter (l.selects p.filter)) ∧ rows.Pairwise fun a b => l.precedes p.order a b := by
  have hpage (offset : Nat) (s : σ) (ho : offset ≤ (l.listed p).length) (hs : kept s) : ∃ t, kept t ∧
      (e.getMany entity user (r.paged limit offset)).runOn s = (.ok (.page (l.page p size offset)), t) :=
    getMany_page hl hh hr hp hn hsize hstore ho hs
  refine ⟨?_, exists_paged hpage (by omega) (Nat.zero_le _) hs, fun pages hpages => ?_⟩
  · obtain ⟨_, _, hp⟩ := bind_ok_iff.mp hp
    obtain ⟨filter, hfilter, hp⟩ := bind_ok_iff.mp hp
    obtain ⟨_, _, hp⟩ := bind_ok_iff.mp hp
    obtain ⟨_, _, hp⟩ := bind_ok_iff.mp hp
    cases pure_ok_iff.mp hp
    exact hfilter
  · exact ⟨l.listed p, hpages.records hpage 0 rfl (Nat.zero_le _) hs, l.listed_perm p, l.listed_sorted p⟩

/-! Four comments, three of which were approved, read two at a time from the last one on. -/

def talkDatabase : Database := { tables := [("Comment",
  [[("id", .integer 1), ("body", .text "one"), ("approved", .integer 1), ("postId", .integer 3)],
    [("id", .integer 2), ("body", .text "two"), ("approved", .integer 0), ("postId", .integer 3)],
    [("id", .integer 3), ("body", .text "three"), ("approved", .integer 1), ("postId", .integer 3)],
    [("id", .integer 4), ("body", .text "four"), ("approved", .integer 1), ("postId", .integer 3)]])] }

def talkEngine : Engine Database :=
  { schema := Catalog.blogCatalog.schema, storage := Catalog.blogCatalog.storage, rules := Catalog.readerRules
    settings := { resultLimit := 2 } }

def talkRequest : ListRequest := { sortOrder := .text "desc" }

def talkPlan : Plan := { filter := [("approved", .bool true)], order := some [("id", .text "desc")] }

def commentRank (row : Row) : Int :=
  match row.get "id" with
  | .integer n => n
  | _ => 0

/-- The comments by falling number. -/
def talkListing : Listing Row where
  rows := talkDatabase.rows commentModel
  selects filter row := match Catalog.blogCatalog.condition commentModel (.object filter) with
    | .ok condition => condition.selects talkDatabase row
    | .error _ => false
  precedes _ a b := decide (commentRank b ≤ commentRank a)
  shows p row := match Catalog.blogCatalog.record talkDatabase p.levels commentModel p.loads p.shape row with
    | .ok record => .object record
    | .error _ => .null
  total _ a b := by
    simp only [Bool.or_eq_true, decide_eq_true_eq]
    omega
  trans _ a b c hab hbc := by
    simp only [decide_eq_true_eq] at *
    omega

theorem talkEngine_lists : talkEngine.storage.Lists Catalog.blogCatalog.calls (· = talkDatabase) talkListing "Comment"
    talkPlan 2 where
  findMany s offset hs ho := by
    subst hs
    have hlength : (talkListing.listed talkPlan).length = 3 := by cbv
    rw [hlength] at ho
    refine ⟨talkDatabase, rfl, ?_⟩
    interval_cases offset
    · cbv
    · cbv
    · cbv
    · cbv
  count s hs := by
    subst hs
    exact ⟨talkDatabase, rfl, by cbv⟩
  inTransaction work s t answer hs ht hrun := by
    subst hs ht
    have htransaction : (talkEngine.storage.inTransaction .null work).runOn talkDatabase =
        (.ok answer, talkDatabase) := by
      show (Query.transaction none (work Catalog.blogCatalog.calls)).runOn talkDatabase = _
      rw [Query.transaction_run, hrun]
    exact ⟨talkDatabase, rfl, htransaction⟩

/-- Asked for seven comments at a time but given two, the readers get the approved ones in two pages. -/
theorem talk_complete :
    1 ≤ talkEngine.settings.resultLimit ∧ talkEngine.hooks.Steady (· = talkDatabase) id "Comment" ∧
    talkEngine.edited "Comment" (.principal {}) id talkRequest =
      .ok { talkRequest with sortBy := .text "id" } ∧
    talkEngine.wholePlan "Comment" (.principal {}) { talkRequest with sortBy := .text "id" } = .ok talkPlan ∧
    ((2 : Nat) : Int) = min 7 talkEngine.settings.resultLimit ∧
    talkEngine.storage.Lists Catalog.blogCatalog.calls (· = talkDatabase) talkListing "Comment" talkPlan 2 ∧
    (∃ pages, talkEngine.Paged "Comment" (.principal {}) talkRequest 7 0 talkDatabase pages) ∧
    ∀ pages, talkEngine.Paged "Comment" (.principal {}) talkRequest 7 0 talkDatabase pages → ∃ rows : List Row,
      pages.flatMap Page.records = rows.map (talkListing.shows talkPlan) ∧
      rows.Perm (talkListing.rows.filter (talkListing.selects talkPlan.filter)) ∧
      rows.Pairwise fun a b => talkListing.precedes talkPlan.order a b := by
  have hl : 1 ≤ talkEngine.settings.resultLimit := by decide
  have hh : talkEngine.hooks.Steady (· = talkDatabase) id "Comment" := Registry.steady_none rfl
  have hr : talkEngine.edited "Comment" (.principal {}) id talkRequest =
      .ok { talkRequest with sortBy := .text "id" } := rfl
  have hp : talkEngine.wholePlan "Comment" (.principal {}) { talkRequest with sortBy := .text "id" } =
      .ok talkPlan := rfl
  have hsize : ((2 : Nat) : Int) = min 7 talkEngine.settings.resultLimit := by decide
  have hs : (fun db => db = talkDatabase) talkDatabase := rfl
  obtain ⟨_, hends, hall⟩ :=
    pages_complete talkEngine "Comment" (.principal {}) hl hh hr hp (by decide) hsize talkEngine_lists hs
  exact ⟨hl, hh, hr, hp, hsize, talkEngine_lists, hends, hall⟩

end Engine

end RecordGraph
