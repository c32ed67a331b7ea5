import RecordGraph.Proofs.Query.Filtering
import RecordGraph.Proofs.Query.Screening
import RecordGraph.Proofs.Text.Splitting

/-!
# Paths that are included

A list of paths includes a chain of relations exactly if a path starts with it, it is not too long, and the user may
read every entity that it reaches. Level by level the paths are grouped by their first names, and what goes on from a
name is a list of paths again.
-/

namespace RecordGraph

/-- A chain of relations leads from one entity to another, and the user may read every entity that it reaches. -/
inductive Viewpoint.Leads (v : Viewpoint) : String → List String → String → Prop
  | here {entity : String} : Leads v entity [] entity
  | hop {entity name target : String} {names : List String} {r : Relation}
    (hr : v.schema.relation? entity name = .ok (some r)) (hread : v.Readable r.target)
    (h : Leads v r.target names target) : Leads v entity (name :: names) target

/-- Whatever entity a user asks to read, the rules decide and say what is omitted. -/
def Viewpoint.Settles (v : Viewpoint) : Prop :=
  ∀ entity, (∃ d, v.decide .read entity = .ok d) ∧ ∃ omission, v.omission entity = .ok omission

namespace Include

/-! ## The names of a path -/

/-- Names without an empty one at the end. -/
def unended (names : List String) : List String := if names.getLast? = some "" then names.dropLast else names

/-- The names of a path, which stand between its dots. No name follows on a dot at the end. -/
def segments (path : String) : List String := unended ((splitText '.' path).map trimText)

/-- The first name of a path and what goes on from it; none if the path is blank. -/
def hop? (path : String) : Option (String × String) :=
  let cut := cutAt '.' (trim path.toList)
  if trim path.toList = [] then none else some (.ofList (trim cut.1), .ofList (cut.2.getD []))

theorem unended_cons {name : String} {names : List String} (h : names ≠ []) :
    unended (name :: names) = name :: unended names := by
  obtain ⟨next, rest, rfl⟩ := List.exists_cons_of_ne_nil h
  rw [unended, unended, List.getLast?_cons_cons, List.dropLast_cons_cons]
  split <;> rfl

/-- A chain that does not end with an empty name starts a path if it starts what stands between the dots. -/
theorem start_segments_iff {names : List String} (h : names.getLast? ≠ some "") (path : String) :
    names <+: segments path ↔ names <+: (splitText '.' path).map trimText := by
  rw [segments, unended]
  split
  · rename_i hend
    constructor
    · exact fun hstart => hstart.trans (List.dropLast_prefix _)
    · rintro ⟨rest, hrest⟩
      rw [← hrest] at hend ⊢
      have hne : rest ≠ [] := by
        rintro rfl
        rw [List.append_nil] at hend
        exact h hend
      rw [List.dropLast_append_of_ne_nil hne]
      exact List.prefix_append _ _
  · exact Iff.rfl

theorem segments_ofList (text : List Char) :
    segments (.ofList text) = unended (((splitAt '.' text).map trim).map .ofList) := by
  rw [segments, splitText, String.toList_ofList, List.map_map, List.map_map]
  congr 1
  exact List.map_congr_left fun part _ => by simp [trimText]

theorem segments_of_cutAt {text head : List Char} {rest : Option (List Char)} (hne : trim text ≠ [])
    (hcut : cutAt '.' text = (head, rest)) :
    segments (.ofList text) = .ofList (trim head) :: segments (.ofList (rest.getD [])) := by
  have hsplit := splitAt_of_cutAt hcut
  rw [segments_ofList, hsplit]
  cases rest with
  | some rest =>
      rw [Option.map_some, Option.getD_some, Option.getD_some, segments_ofList, List.map_cons, List.map_cons,
        unended_cons (by simp [splitAt_ne_nil])]
  | none =>
      -- the whole text is one name, and that is not empty
      have hhead : head = text := by
        have hjoin := joinWith_splitAt '.' text
        rwa [hsplit] at hjoin
      have hname : String.ofList (trim head) ≠ "" := by
        rw [hhead]
        simpa using hne
      simp only [unended, Option.map_none, Option.getD_none, List.map_cons, List.map_nil, List.getLast?_singleton,
        Option.some.injEq, hname, ↓reduceIte]
      rfl

theorem segments_eq (path : String) : segments path =
    match hop? path with
    | none => []
    | some (name, rest) => name :: segments rest := by
  have htrimmed : segments path = segments (.ofList (trim path.toList)) := by
    rw [segments_ofList, map_trim_splitAt_trim (by decide), ← segments_ofList, String.ofList_toList]
  rw [htrimmed, hop?]
  by_cases hblank : trim path.toList = []
  · rw [if_pos hblank, hblank]
    rfl
  · rw [if_neg hblank]
    exact segments_of_cutAt (trim_trim_ne_nil hblank) rfl

/-! ## Groups of paths -/

/-- The first names of the paths of a query, each with what goes on from it. -/
def hops (query : String) : List (String × String) := (splitText ',' query).filterMap hop?

theorem groupPaths_eq (query : String) : groupPaths query =
    (hops query).foldl (fun groups hop => addToGroup hop.1 hop.2 groups) [] := by
  rw [groupPaths, hops, List.foldl_filterMap]
  congr 1
  funext groups path
  unfold hop?
  by_cases hblank : trim path.toList = [] <;> simp [hblank]

/-- Some groups hold exactly what goes on from the names of some hops, name by name. -/
structure Grouped (hops : List (String × String)) (groups : List (String × List String)) : Prop where
  nodup : (groups.map Prod.fst).Nodup
  names : ∀ name, name ∈ groups.map Prod.fst ↔ ∃ rest, (name, rest) ∈ hops
  rests : ∀ name rests, (name, rests) ∈ groups → ∀ rest, rest ∈ rests ↔ rest ≠ "" ∧ (name, rest) ∈ hops

variable {groups : List (String × List String)} {name item : String}

theorem keys_addToGroup : (addToGroup name item groups).map Prod.fst =
    if name ∈ groups.map Prod.fst then groups.map Prod.fst else groups.map Prod.fst ++ [name] := by
  induction groups with
  | nil => rfl
  | cons group groups ih =>
      obtain ⟨n, items⟩ := group
      rw [addToGroup]
      by_cases hn : n = name
      · simp [hn]
      · simp only [hn, ↓reduceIte, List.map_cons, ih, List.mem_cons, Ne.symm hn, false_or]
        split <;> rfl

/-- An item is added to the group of its name, which may be new. -/
theorem mem_addToGroup {n : String} {items : List String} (hn : (groups.map Prod.fst).Nodup)
    (h : (n, items) ∈ addToGroup name item groups) : (n ≠ name ∧ (n, items) ∈ groups) ∨
      (n = name ∧ ∃ before, ((name, before) ∈ groups ∨ before = [] ∧ name ∉ groups.map Prod.fst) ∧
        ∀ rest, rest ∈ items ↔ rest ∈ before ∨ rest ≠ "" ∧ rest = item) := by
  induction groups with
  | nil =>
      obtain ⟨rfl, rfl⟩ := Prod.mk.inj (List.mem_singleton.mp h)
      refine .inr ⟨rfl, [], .inr ⟨rfl, List.not_mem_nil⟩, fun rest => ?_⟩
      by_cases hitem : item = ""
      · simp only [hitem, ↓reduceIte, List.not_mem_nil, false_or, false_iff, not_and, imp_self]
      · simp only [hitem, ↓reduceIte, List.mem_singleton, List.not_mem_nil, false_or]
        exact ⟨fun hrest => ⟨hrest ▸ hitem, hrest⟩, And.right⟩
  | cons group groups ih =>
      obtain ⟨first, before⟩ := group
      rw [List.map_cons, List.nodup_cons] at hn
      rw [addToGroup] at h
      split at h
      · rename_i hfirst
        rcases List.mem_cons.mp h with he | hin
        · obtain ⟨rfl, rfl⟩ := Prod.mk.inj he
          refine .inr ⟨hfirst, before, .inl (hfirst ▸ List.mem_cons_self), fun rest => ?_⟩
          split
          · rename_i hkept
            rw [List.contains_iff_mem] at hkept
            constructor
            · exact .inl
            · rintro (hrest | ⟨hne, rfl⟩)
              · exact hrest
              · exact hkept.resolve_left hne
          · rename_i hadded
            rw [not_or] at hadded
            rw [List.mem_append, List.mem_singleton]
            exact or_congr_right ⟨fun hrest => ⟨hrest ▸ hadded.1, hrest⟩, And.right⟩
        · refine .inl ⟨?_, List.mem_cons_of_mem _ hin⟩
          rintro rfl
          exact hn.1 (List.mem_map.mpr ⟨_, hin, hfirst.symm⟩)
      · rename_i hfirst
        rcases List.mem_cons.mp h with he | hin
        · obtain ⟨rfl, rfl⟩ := Prod.mk.inj he
          exact .inl ⟨hfirst, List.mem_cons_self⟩
        · rcases ih hn.2 hin with ⟨hne, hold⟩ | ⟨rfl, old, hold, hitems⟩
          · exact .inl ⟨hne, List.mem_cons_of_mem _ hold⟩
          · refine .inr ⟨rfl, old, hold.imp (List.mem_cons_of_mem _) (And.imp_right fun hnew => ?_), hitems⟩
            rw [List.map_cons, List.mem_cons, not_or]
            exact ⟨Ne.symm hfirst, hnew⟩

theorem Grouped.add {hops : List (String × String)} (h : Grouped hops groups) :
    Grouped (hops ++ [(name, item)]) (addToGroup name item groups) where
  nodup := by
    rw [keys_addToGroup]
    split
    · exact h.nodup
    · rename_i hnew
      exact List.nodup_append.mpr ⟨h.nodup, List.nodup_singleton _, fun a ha b hb hab =>
        hnew (List.mem_singleton.mp hb ▸ hab ▸ ha)⟩
  names other := by
    have hkeys : other ∈ (addToGroup name item groups).map Prod.fst ↔
        other ∈ groups.map Prod.fst ∨ other = name := by
      rw [keys_addToGroup]
      split
      · rename_i hold
        exact ⟨.inl, fun hother => hother.elim id fun he => he ▸ hold⟩
      · rw [List.mem_append, List.mem_singleton]
    rw [hkeys, h.names]
    simp only [List.mem_append, List.mem_singleton, Prod.mk.injEq, exists_or, exists_and_left, exists_eq, and_true]
  rests other rests hin rest := by
    rw [List.mem_append, List.mem_singleton, Prod.mk.injEq]
    rcases mem_addToGroup h.nodup hin with ⟨hne, hin⟩ | ⟨rfl, before, hbefore, hrests⟩
    · rw [h.rests other rests hin]
      simp [hne]
    · have hold : rest ∈ before ↔ rest ≠ "" ∧ (other, rest) ∈ hops := by
        rcases hbefore with hbefore | ⟨rfl, hnew⟩
        · exact h.rests other before hbefore rest
        · have hnone : (other, rest) ∉ hops := fun hhop => hnew ((h.names other).mpr ⟨rest, hhop⟩)
          simp [hnone]
      rw [hrests, hold, and_or_left]
      simp

/-- The groups of a query hold exactly what goes on from the first names of its paths. -/
theorem groupPaths_grouped (query : String) : Grouped (hops query) (groupPaths query) := by
  suffices h : ∀ hops before groups, Grouped before groups →
      Grouped (before ++ hops) (hops.foldl (fun groups hop => addToGroup hop.1 hop.2 groups) groups) by
    rw [groupPaths_eq]
    exact h (hops query) [] [] ⟨List.nodup_nil, by simp, by simp⟩
  intro hops
  induction hops with
  | nil => simp
  | cons hop hops ih =>
      intro before groups hgroups
      rw [List.append_cons]
      exact ih _ _ hgroups.add

/-! ## Listed chains -/

/-- A path of a query starts with a chain of names. -/
def Lists (query : String) (names : List String) : Prop := ∃ path ∈ splitText ',' query, names <+: segments path

variable {query : String} {names rests : List String}

theorem lists_cons_iff : Lists query (name :: names) ↔ ∃ rest, (name, rest) ∈ hops query ∧ names <+: segments rest := by
  simp only [Lists, hops, List.mem_filterMap]
  constructor
  · rintro ⟨path, hpath, hstart⟩
    rw [segments_eq] at hstart
    split at hstart
    · cases List.prefix_nil.mp hstart
    · rename_i first rest hhop
      obtain ⟨rfl, hrest⟩ := List.cons_prefix_cons.mp hstart
      exact ⟨rest, ⟨path, hpath, hhop⟩, hrest⟩
  · rintro ⟨rest, ⟨path, hpath, hhop⟩, hrest⟩
    refine ⟨path, hpath, ?_⟩
    rw [segments_eq, hhop]
    exact List.cons_prefix_cons.mpr ⟨rfl, hrest⟩

theorem not_comma_of_hop {rest : String} (h : (name, rest) ∈ hops query) : ',' ∉ rest.toList := by
  obtain ⟨path, hpath, hhop⟩ := List.mem_filterMap.mp h
  obtain ⟨part, hpart, rfl⟩ := List.mem_map.mp hpath
  have hcomma : ',' ∉ part := not_mem_of_mem_splitAt hpart
  rw [hop?] at hhop
  split at hhop
  · cases hhop
  · obtain ⟨_, hrest⟩ := Prod.mk.inj (Option.some.inj hhop)
    rw [← hrest, String.toList_ofList]
    intro h
    have hin := mem_of_mem_trim (mem_of_mem_cutAt h)
    rw [String.toList_ofList] at hin
    exact hcomma hin

theorem splitText_joinTexts (hne : rests ≠ []) (h : ∀ rest ∈ rests, ',' ∉ rest.toList) :
    splitText ',' (joinTexts "," rests) = rests := by
  have hsep : ",".toList = [','] := rfl
  rw [splitText, joinTexts, String.toList_ofList, hsep, splitAt_joinWith (by simpa using hne) (by simpa using h),
    List.map_map]
  simp

/-- What goes on from a name lists the chains that the query lists behind the name. -/
theorem lists_group_iff (h : (name, rests) ∈ groupPaths query) (hne : names ≠ []) :
    Lists query (name :: names) ↔ rests ≠ [] ∧ Lists (joinTexts "," rests) names := by
  have hrests := (groupPaths_grouped query).rests name rests h
  have hcommas : ∀ rest ∈ rests, ',' ∉ rest.toList := fun rest hrest => not_comma_of_hop ((hrests rest).mp hrest).2
  rw [lists_cons_iff]
  constructor
  · rintro ⟨rest, hhop, hstart⟩
    have hrest : rest ≠ "" := by
      rintro rfl
      exact hne (List.prefix_nil.mp hstart)
    have hin := (hrests rest).mpr ⟨hrest, hhop⟩
    have hsome : rests ≠ [] := List.ne_nil_of_mem hin
    exact ⟨hsome, rest, (splitText_joinTexts hsome hcommas).symm ▸ hin, hstart⟩
  · rintro ⟨hsome, rest, hin, hstart⟩
    rw [splitText_joinTexts hsome hcommas] at hin
    exact ⟨rest, ((hrests rest).mp hin).2, hstart⟩

theorem lists_single_iff : Lists query [name] ↔ ∃ rests, (name, rests) ∈ groupPaths query := by
  have hnames := (groupPaths_grouped query).names name
  simp only [List.mem_map, Prod.exists, exists_and_right, exists_eq_right] at hnames
  rw [lists_cons_iff, hnames]
  simp only [List.nil_prefix, and_true]

/-! ## Entries -/

/-- What an entry includes further down. -/
def below (x : Value) : Object := Shape.members (Object.get (Shape.members x) "include")

/-- The entry at the end of a chain of relations. -/
def node? : Object → List String → Option Value
  | _, [] => none
  | tree, [name] => Object.get? name tree
  | tree, name :: next :: names => (Object.get? name tree).bind fun x => node? (below x) (next :: names)

/-- An entry leaves out what the user never sees of an entity, and nothing else. -/
def Hides (v : Viewpoint) (entity : String) (x : Value) : Prop :=
  ∃ omission, v.omission entity = .ok omission ∧
    Object.get (Shape.members x) "omit" = if omission = [] then .null else .object omission

variable {v : Viewpoint} {entity parent : String} {r : Relation} {nested tree : Object} {x : Value}

theorem node?_empty : ∀ names, node? [] names = none
  | [] | [_] | _ :: _ :: _ => rfl

theorem entry_below (h : entry v parent r nested = .ok (some x)) : below x = nested := by
  obtain ⟨d, omission, _, _, _, rfl⟩ := entry_some_iff.mp h
  dsimp only
  rw [below, members_parts, (get_parts _ _ _).2.2.2]
  cases nested <;> rfl

theorem entry_hides (h : entry v parent r nested = .ok (some x)) : Hides v r.target x := by
  obtain ⟨d, omission, _, _, ho, rfl⟩ := entry_some_iff.mp h
  refine ⟨omission, ho, ?_⟩
  dsimp only
  rw [members_parts, (get_parts _ _ _).2.1]
  simp only [List.isEmpty_iff]

theorem entry_none (h : entry v parent r nested = .ok none) : ¬ v.Readable r.target := by
  rintro ⟨d, hd, hden⟩
  obtain ⟨d', hd', h⟩ := bind_ok_iff.mp h
  obtain rfl : d = d' := Except.ok.inj (hd.symm.trans hd')
  rw [hden, if_neg Bool.false_ne_true] at h
  obtain ⟨omission, _, h⟩ := bind_ok_iff.mp h
  cases pure_ok_iff.mp h

/-! ## Levels -/

variable {further : Relation → List String → Except Failure Object}

/-- What goes on from a name comes to a tree: nothing comes to an empty one. -/
def Comes (further : Relation → List String → Except Failure Object) (r : Relation) (rests : List String)
    (nested : Object) : Prop :=
  rests = [] ∧ nested = [] ∨ rests ≠ [] ∧ further r rests = .ok nested

/-- An entry is made from the group of its name. -/
def Made (v : Viewpoint) (further : Relation → List String → Except Failure Object) (entity : String)
    (groups : List (String × List String)) (name : String) (x : Value) : Prop :=
  ∃ rests r nested, (name, rests) ∈ groups ∧ v.schema.relation? entity name = .ok (some r) ∧
    Comes further r rests nested ∧ entry v entity r nested = .ok (some x)

/-- One group of a level adds the entry of its relation, if there is one that may be followed. -/
theorem group_added {e : Entity} {state next : Object} (he : v.schema.entity entity = .ok e)
    (h : (match e.relation? name with
      | none => pure state
      | some r => do
        let nested ← if rests.isEmpty then pure [] else further r rests
        match ← entry v entity r nested with
        | some x => return Object.set name x state
        | none => return state) = Except.ok next) :
    (next = state ∧ ∀ r, v.schema.relation? entity name = .ok (some r) → ¬ v.Readable r.target) ∨
      ∃ r nested x, v.schema.relation? entity name = .ok (some r) ∧ Comes further r rests nested ∧
        entry v entity r nested = .ok (some x) ∧ next = Object.set name x state := by
  rw [Schema.relation?_of_entity he]
  cases hr : e.relation? name with
  | none =>
      rw [hr] at h
      exact .inl ⟨(pure_ok_iff.mp h).symm, nofun⟩
  | some r =>
      rw [hr] at h
      have hcomes : ∃ nested, Comes further r rests nested ∧ (do
          match ← entry v entity r nested with
          | some x => return Object.set name x state
          | none => return state) = Except.ok next := by
        dsimp only at h
        split at h
        · rename_i hnone
          exact ⟨[], .inl ⟨List.isEmpty_iff.mp hnone, rfl⟩, h⟩
        · rename_i hsome
          obtain ⟨nested, hnested, h⟩ := bind_ok_iff.mp h
          exact ⟨nested, .inr ⟨by simpa using hsome, hnested⟩, h⟩
      obtain ⟨nested, hcomes, h⟩ := hcomes
      obtain ⟨made, hmade, h⟩ := bind_ok_iff.mp h
      cases made with
      | none =>
          refine .inl ⟨(pure_ok_iff.mp h).symm, fun r' hr' => ?_⟩
          cases hr'
          exact entry_none hmade
      | some x => exact .inr ⟨r, nested, x, rfl, hcomes, hmade, (pure_ok_iff.mp h).symm⟩

/-- The entries of a level are made from its groups, and each group of a relation that may be followed makes one. -/
theorem get?_level (h : level v further entity groups = .ok tree) (name : String) :
    (∀ x, Object.get? name tree = some x → Made v further entity groups name x) ∧
      ∀ rests r, (name, rests) ∈ groups → v.schema.relation? entity name = .ok (some r) → v.Readable r.target →
        ∃ x, Object.get? name tree = some x := by
  obtain ⟨e, he, h⟩ := bind_ok_iff.mp h
  have hlast := foldlM_ok_invariant (I := fun rest state =>
      (∀ x, Object.get? name state = some x → Made v further entity groups name x) ∧
      ∀ rests r, (name, rests) ∈ groups → (name, rests) ∉ rest → v.schema.relation? entity name = .ok (some r) →
        v.Readable r.target → ∃ x, Object.get? name state = some x) ?_ ?_ h
  · exact ⟨hlast.1, fun rests r hin => hlast.2 rests r hin List.not_mem_nil⟩
  · rintro ⟨other, rests⟩ rest state next hin ⟨hmade, hthere⟩ hstep
    have hstill (rests' : List String) (r : Relation) (hin' : (name, rests') ∈ groups) (hout : (name, rests') ∉ rest)
        (hne : (name, rests') ≠ (other, rests)) := hthere rests' r hin' (by simp [hne, hout])
    rcases group_added he hstep with ⟨rfl, hclosed⟩ | ⟨r, nested, x, hr, hcomes, hx, rfl⟩
    · refine ⟨hmade, fun rests' r hin' hout hr hread => ?_⟩
      by_cases heq : (name, rests') = (other, rests)
      · cases heq
        exact absurd hread (hclosed r hr)
      · exact hstill rests' r hin' hout heq hr hread
    · by_cases hname : other = name
      · subst hname
        rw [Object.get?_set_self]
        refine ⟨fun y hy => ?_, fun _ _ _ _ _ _ => ⟨x, rfl⟩⟩
        cases hy
        exact ⟨rests, r, nested, hin, hr, hcomes, hx⟩
      · rw [Object.get?_set_of_ne hname]
        exact ⟨hmade, fun rests' r hin' hout => hstill rests' r hin' hout fun heq => hname (Prod.mk.inj heq).1.symm⟩
  · exact ⟨by simp [Object.get?], fun rests r hin hout => absurd hin hout⟩

/-- The chains that a tree includes are listed, not too long, and lead where its entries say. -/
def Sound (v : Viewpoint) (depth : Nat) (entity query : String) (tree : Object) : Prop :=
  ∀ names x, node? tree names = some x →
    names.length ≤ depth ∧ Lists query names ∧ ∃ target, v.Leads entity names target ∧ Hides v target x

/-- A tree includes the chains that are listed, not too long and may be followed. -/
def Complete (v : Viewpoint) (depth : Nat) (entity query : String) (tree : Object) : Prop :=
  ∀ names target, names ≠ [] → names.length ≤ depth → Lists query names → v.Leads entity names target →
    ∃ x, node? tree names = some x

theorem level_sound {depth : Nat}
    (hfurther : ∀ r rests nested, further r rests = .ok nested → Sound v depth r.target (joinTexts "," rests) nested)
    (h : level v further entity (groupPaths query) = .ok tree) : Sound v (depth + 1) entity query tree := by
  intro names x hx
  match names with
  | [] => cases hx
  | [name] =>
      obtain ⟨rests, r, nested, hin, hr, _, hentry⟩ := (get?_level h name).1 x hx
      exact ⟨Nat.le_add_left 1 depth, lists_single_iff.mpr ⟨rests, hin⟩, r.target, .hop hr (entry_readable hentry) .here,
        entry_hides hentry⟩
  | name :: next :: names =>
      obtain ⟨first, hfirst, hx⟩ := Option.bind_eq_some_iff.mp hx
      obtain ⟨rests, r, nested, hin, hr, hcomes, hentry⟩ := (get?_level h name).1 first hfirst
      rw [entry_below hentry] at hx
      rcases hcomes with ⟨_, rfl⟩ | ⟨hne, hnested⟩
      · rw [node?_empty] at hx
        cases hx
      · obtain ⟨hlength, hlists, target, hleads, hhides⟩ := hfurther r rests nested hnested _ x hx
        exact ⟨Nat.succ_le_succ hlength, (lists_group_iff hin (List.cons_ne_nil _ _)).mpr ⟨hne, hlists⟩, target,
          .hop hr (entry_readable hentry) hleads, hhides⟩

theorem level_complete {depth : Nat}
    (hfurther : ∀ r rests nested, further r rests = .ok nested → Complete v depth r.target (joinTexts "," rests) nested)
    (h : level v further entity (groupPaths query) = .ok tree) : Complete v (depth + 1) entity query tree := by
  intro names target hne hlength hlists hleads
  cases hleads with
  | here => exact absurd rfl hne
  | @hop _ name _ names r hr hread hleads =>
      have hgroup : ∃ rests, (name, rests) ∈ groupPaths query := by
        obtain ⟨rest, hhop, _⟩ := lists_cons_iff.mp hlists
        exact lists_single_iff.mp (lists_cons_iff.mpr ⟨rest, hhop, List.nil_prefix⟩)
      obtain ⟨rests, hin⟩ := hgroup
      obtain ⟨first, hfirst⟩ := (get?_level h name).2 rests r hin hr hread
      cases names with
      | nil => exact ⟨first, hfirst⟩
      | cons next names =>
          obtain ⟨rests', r', nested, hin', hr', hcomes, hentry⟩ := (get?_level h name).1 first hfirst
          obtain rfl : r = r' := Option.some.inj (Except.ok.inj (hr.symm.trans hr'))
          obtain ⟨hsome, hlists⟩ := (lists_group_iff hin' (List.cons_ne_nil _ _)).mp hlists
          have hnested := (hcomes.resolve_left fun hnone => hsome hnone.1).2
          obtain ⟨x, hx⟩ := hfurther r rests' nested hnested _ target (List.cons_ne_nil _ _)
            (Nat.le_of_succ_le_succ hlength) hlists hleads
          refine ⟨x, Option.bind_eq_some_iff.mpr ⟨first, hfirst, ?_⟩⟩
          rw [entry_below hentry]
          exact hx

/-- The tree of a query includes exactly the chains that it lists, down to a depth, and that may be followed. -/
theorem paths_exact {depth : Nat} : ∀ {entity query : String} {tree : Object},
    paths v depth entity (groupPaths query) = .ok tree →
      Sound v (depth + 1) entity query tree ∧ Complete v (depth + 1) entity query tree := by
  induction depth with
  | zero =>
      intro entity query tree h
      refine ⟨level_sound (fun r rests nested hnested => ?_) h, level_complete (fun r rests nested hnested => ?_) h⟩
      · intro names x hx
        rw [← pure_ok_iff.mp hnested, node?_empty] at hx
        cases hx
      · intro names target hne hlength
        exact absurd (List.length_eq_zero_iff.mp (Nat.le_zero.mp hlength)) hne
  | succ depth ih =>
      intro entity query tree h
      exact ⟨level_sound (fun r rests nested hnested => (ih hnested).1) h,
        level_complete (fun r rests nested hnested => (ih hnested).2) h⟩

/-! ## Requests -/

variable {maxDepth : Int} {request : IncludeRequest}

theorem not_lists_blank (h : trimText query = "") : ¬ Lists query (name :: names) := by
  have htrim : trim query.toList = [] := by simpa [trimText] using h
  have hcomma : ',' ∉ query.toList := fun hin => by
    have hleft := mem_trim (by decide) hin
    rw [htrim] at hleft
    cases hleft
  have hsplit : splitText ',' query = [query] := by
    rw [splitText, splitAt_whole hcomma, List.map_singleton, String.ofList_toList]
  rw [lists_cons_iff, hops, hsplit]
  simp [hop?, htrim]

/-- Adds the conditions on one relation to its entry, if it is there. -/
def addCondition (tree : Object) (kv : String × Value) : Except Failure Object :=
  match Object.get? kv.1 tree with
  | some x =>
    if kv.2.isPresent then do return Object.set kv.1 (← restrictEntry kv.2 x) tree
    else return tree
  | none => return tree

theorem conditions_empty : ∀ conditions : Object, conditions.foldlM addCondition [] = .ok []
  | [] => rfl
  | _ :: rest => conditions_empty rest

/-- The tree of a query before conditions are added to its entries. -/
def unconditioned (v : Viewpoint) (maxDepth : Int) (entity : String) : Option String → Except Failure Object
  | none => pure []
  | some query =>
    if trimText query = "" then pure []
    else if trimText query = allRelations then everyRelation v entity
    else paths v (maxDepth - 1).toNat entity (groupPaths query)

/-- The tree of a request is that of its query, with the conditions added name by name. -/
theorem resolve_ok_iff {asked : Option String} (hasked : request.text? = .ok asked) :
    resolve v maxDepth entity request = .ok tree ↔ ∃ plain, unconditioned v maxDepth entity asked = .ok plain ∧
      request.conditions.foldlM addCondition plain = .ok tree := by
  have hempty : (pure [] : Except Failure Object) = .ok tree ↔ ∃ plain, (pure [] : Except Failure Object) = .ok plain ∧
      request.conditions.foldlM addCondition plain = .ok tree := by
    simp only [pure_ok_iff, exists_eq_left', conditions_empty, Except.ok.injEq]
  rw [resolve, hasked, bind_ok_iff]
  simp only [Except.ok.injEq, exists_eq_left']
  cases asked with
  | none => exact hempty
  | some query =>
      dsimp only [unconditioned]
      split
      · exact hempty
      · split <;> exact bind_ok_iff

theorem resolve_unconditioned {asked : Option String} {query : Value}
    (hasked : (⟨query, []⟩ : IncludeRequest).text? = .ok asked) :
    resolve v maxDepth entity ⟨query, []⟩ = .ok tree ↔ unconditioned v maxDepth entity asked = .ok tree := by
  rw [resolve_ok_iff hasked]
  simp only [List.foldlM_nil, pure_ok_iff, exists_eq_right]

theorem text?_of_text (htext : request.query = .text query) :
    request.text? = .ok (if query = "" then none else some query) := by
  rw [IncludeRequest.text?, htext]
  rfl

theorem unconditioned_text (hall : trimText query ≠ allRelations) :
    unconditioned v maxDepth entity (if query = "" then none else some query) =
      if trimText query = "" then pure [] else paths v (maxDepth - 1).toNat entity (groupPaths query) := by
  by_cases hempty : query = ""
  · subst hempty
    rfl
  · rw [if_neg hempty, unconditioned, if_neg hall]

/-- Adding conditions leaves each entry as it is, or restricts it by the one condition on its name. -/
theorem conditions_added {plain : Object} (hn : request.conditions.keys.Nodup)
    (h : request.conditions.foldlM addCondition plain = .ok tree) (name : String) :
    Object.get? name tree = Object.get? name plain ∨ ∃ condition x y, (name, condition) ∈ request.conditions ∧
      condition.isPresent = true ∧ Object.get? name plain = some x ∧ restrictEntry condition x = .ok y ∧
      Object.get? name tree = some y := by
  have hlast := foldlM_ok_invariant (I := fun rest state => (Object.keys rest).Nodup ∧
      (Object.get? name state = Object.get? name plain ∨ name ∉ Object.keys rest ∧ ∃ condition x y,
        (name, condition) ∈ request.conditions ∧ condition.isPresent = true ∧ Object.get? name plain = some x ∧
        restrictEntry condition x = .ok y ∧ Object.get? name state = some y)) ?_ ⟨hn, .inl rfl⟩ h
  · exact hlast.2.imp_right And.right
  · rintro ⟨other, condition⟩ rest state next hin ⟨hnodup, hstate⟩ hstep
    obtain ⟨hother, hrest⟩ := List.nodup_cons.mp hnodup
    have hkept := hstate.imp_right (And.imp_left fun hout hin => hout (List.mem_cons_of_mem other hin))
    refine ⟨hrest, ?_⟩
    rw [addCondition] at hstep
    split at hstep
    · rename_i x hx
      split at hstep
      · rename_i hpresent
        obtain ⟨y, hy, hstep⟩ := bind_ok_iff.mp hstep
        obtain rfl := pure_ok_iff.mp hstep
        by_cases hname : other = name
        · -- the name comes once, so the entry is still as it was
          subst hname
          have hplain := hstate.resolve_right fun hlater => hlater.1 List.mem_cons_self
          exact .inr ⟨hother, condition, x, y, hin, hpresent, hplain ▸ hx, hy, Object.get?_set_self _ _ _⟩
        · rw [Object.get?_set_of_ne hname]
          exact hkept
      · exact pure_ok_iff.mp hstep ▸ hkept
    · exact pure_ok_iff.mp hstep ▸ hkept

/-- A restricted entry shows what the entry shows, of no other rows. -/
def Narrowed (x y : Value) : Prop :=
  (∀ key, key ≠ "where" → Object.get (Shape.members y) key = Object.get (Shape.members x) key) ∧
    ∀ (c : Catalog) (m : Model) (db : Database) (row : Row),
      c.Satisfies m db row (filterOf y) → c.Satisfies m db row (filterOf x)

theorem Narrowed.refl (x : Value) : Narrowed x x := ⟨fun _ _ => rfl, fun _ _ _ _ => id⟩

namespace Narrowed

variable {before after : Option Value}

theorem rel_refl : ∀ before, Option.Rel Narrowed before before
  | none => .none
  | some x => .some (.refl x)

theorem exists_iff (h : Option.Rel Narrowed before after) : (∃ y, after = some y) ↔ ∃ x, before = some x := by
  cases h <;> simp

theorem of_some {y : Value} (h : Option.Rel Narrowed before (some y)) : ∃ x, before = some x ∧ Narrowed x y := by
  cases h with
  | some h => exact ⟨_, rfl, h⟩

end Narrowed

/-- The filter of an entry is what its target's decision comes to, whatever is included further down. -/
theorem filterOf_of_entry (h : entry v parent r nested = .ok (some x)) : ∃ d, v.decide .read r.target = .ok d ∧
    filterOf x = if (rowFilter parent r d).isPresent then rowFilter parent r d else .null := by
  obtain ⟨d, omission, hd, hden, ho, _⟩ := entry_some_iff.mp h
  obtain ⟨x', hx', hfilter⟩ := entry_filterOf parent nested hd hden ho
  cases h.symm.trans hx'
  exact ⟨d, hd, hfilter⟩

/-- The filter of an entry is null, or no key in it comes twice. -/
theorem entry_filter_proper (hr : v.rules.Proper) (h : entry v parent r nested = .ok (some x)) :
    filterOf x = .null ∨ (filterOf x).isPresent = true ∧ (filterOf x).Proper := by
  obtain ⟨d, hd, hfilter⟩ := filterOf_of_entry h
  rw [hfilter]
  by_cases hpresent : (rowFilter parent r d).isPresent = true
  · rw [if_pos hpresent]
    refine .inr ⟨hpresent, ?_⟩
    rw [rowFilter] at hpresent ⊢
    split
    · cases hleft : (Guard.withoutParent parent (.object d.filter)).bind Guard.clean with
      | none => trivial
      | some w =>
          obtain ⟨u, hu, hw⟩ := Option.bind_eq_some_iff.mp hleft
          exact Guard.clean_proper u (Guard.withoutParent_proper _ (Rules.decide_proper hr hd) u hu) w hw
    · trivial
  · rw [if_neg hpresent]
    exact .inl rfl

theorem restrictEntry_narrows {condition y : Value} (hr : v.rules.Proper) (hx : entry v parent r nested = .ok (some x))
    (h : restrictEntry condition x = .ok y) : Narrowed x y := by
  obtain ⟨own, guarded, rfl, hmembers, hguarded⟩ := restrictEntry_members h
  refine ⟨fun key hkey => ?_, fun c m db row hs => ?_⟩
  · rw [hmembers, Shape.get_set_where hkey]
  · have hy : filterOf y = .object guarded := by
      rw [filterOf, hmembers, Object.get, Object.get?_set_self, Option.getD_some]
    rcases entry_filter_proper hr hx with hnull | ⟨hpresent, hproper⟩
    · rw [hnull]
      exact Catalog.satisfies_absent rfl rfl
    · rcases hguarded with ⟨_, habsent⟩ | ⟨filter, hfilter, rfl⟩
      · exact absurd hpresent (by rw [filterOf, habsent]; decide)
      · rw [filterOf, hfilter] at hproper ⊢
        rw [hy] at hs
        exact Guard.merge_confines hproper.1 hs

/-- The chains of a tree are those of the tree before its entries were narrowed. -/
theorem node?_narrowed {plain : Object}
    (h : ∀ name, Option.Rel Narrowed (Object.get? name plain) (Object.get? name tree)) :
    ∀ names, Option.Rel Narrowed (node? plain names) (node? tree names)
  | [] => .none
  | [name] => h name
  | name :: next :: names => by
      have hname := h name
      rw [node?, node?]
      revert hname
      generalize Object.get? name plain = before, Object.get? name tree = after
      intro hname
      cases hname with
      | none => exact .none
      | @some x y hnarrowed =>
          have hbelow : below y = below x := by rw [below, below, hnarrowed.1 "include" (by decide)]
          rw [Option.bind_some, Option.bind_some, hbelow]
          exact Narrowed.rel_refl _

theorem conditions_narrow {plain : Object} (hr : v.rules.Proper) (hn : request.conditions.keys.Nodup)
    (hplain : ∀ name x, Object.get? name plain = some x → ∃ r nested, entry v entity r nested = .ok (some x))
    (h : request.conditions.foldlM addCondition plain = .ok tree) (name : String) :
    Option.Rel Narrowed (Object.get? name plain) (Object.get? name tree) := by
  rcases conditions_added hn h name with hkept | ⟨condition, x, y, _, _, hx, hrestrict, hy⟩
  · rw [hkept]
    exact Narrowed.rel_refl _
  · obtain ⟨r, nested, hentry⟩ := hplain name x hx
    rw [hx, hy]
    exact .some (restrictEntry_narrows hr hentry hrestrict)

/-! ## Trees that are there -/

theorem entry_succeeds (hv : v.Settles) (parent : String) (r : Relation) (nested : Object) :
    ∃ made, entry v parent r nested = .ok made := by
  obtain ⟨⟨d, hd⟩, omission, ho⟩ := hv r.target
  cases hden : d.denied with
  | false => exact ⟨_, entry_some_iff.mpr ⟨d, omission, hd, hden, ho, rfl⟩⟩
  | true =>
      refine ⟨none, bind_ok_iff.mpr ⟨d, hd, ?_⟩⟩
      rw [hden, if_pos rfl]
      rfl

theorem added_succeeds (hv : v.Settles) (parent name : String) (r : Relation) (nested tree : Object) :
    ∃ next, (do match ← entry v parent r nested with
      | some x => return Object.set name x tree
      | none => return tree) = Except.ok next := by
  obtain ⟨made, hmade⟩ := entry_succeeds hv parent r nested
  cases made with
  | none => exact ⟨tree, bind_ok_iff.mpr ⟨none, hmade, rfl⟩⟩
  | some x => exact ⟨Object.set name x tree, bind_ok_iff.mpr ⟨some x, hmade, rfl⟩⟩

theorem level_succeeds (hv : v.Settles) {e : Entity} (he : v.schema.entity entity = .ok e)
    (hfurther : ∀ r ∈ e.relations, ∀ rests, ∃ nested, further r rests = .ok nested) :
    ∃ tree, level v further entity groups = .ok tree := by
  suffices h : ∃ tree, _ ∧ True by
    obtain ⟨tree, htree, _⟩ := h
    exact ⟨tree, bind_ok_iff.mpr ⟨e, he, htree⟩⟩
  refine foldlM_succeeds (I := fun _ => True) (fun group _ state _ => ?_) trivial
  obtain ⟨name, rests⟩ := group
  simp only [and_true]
  cases hr : e.relation? name with
  | none => exact ⟨state, rfl⟩
  | some r =>
      dsimp only
      split
      · exact added_succeeds hv entity name r [] state
      · obtain ⟨nested, hnested⟩ := hfurther r (List.mem_of_find?_eq_some hr) rests
        obtain ⟨next, hnext⟩ := added_succeeds hv entity name r nested state
        exact ⟨next, bind_ok_iff.mpr ⟨nested, hnested, hnext⟩⟩

theorem paths_succeeds (hs : v.schema.Linked) (hv : v.Settles) {depth : Nat} : ∀ {entity : String}
    {groups : List (String × List String)}, (∃ e, v.schema.entity entity = .ok e) →
      ∃ tree, paths v depth entity groups = .ok tree := by
  induction depth with
  | zero =>
      rintro entity groups ⟨e, he⟩
      exact level_succeeds hv he fun _ _ _ => ⟨[], rfl⟩
  | succ depth ih =>
      rintro entity groups ⟨e, he⟩
      exact level_succeeds hv he fun r hin rests => ih (hs entity e he r hin)

/-! ## The tree of a request -/

theorem entry_of_paths {depth : Nat} (h : paths v depth entity groups = .ok tree) (hx : Object.get? name tree = some x) :
    ∃ r nested, entry v entity r nested = .ok (some x) := by
  cases depth with
  | zero | succ depth =>
      obtain ⟨_, r, nested, _, _, _, hentry⟩ := (get?_level h name).1 x hx
      exact ⟨r, nested, hentry⟩

/-- The tree of a request comes from a tree without its conditions, which includes exactly the chains to include. -/
theorem resolve_plain (htext : request.query = .text query) (hall : trimText query ≠ allRelations)
    (h : resolve v maxDepth entity request = .ok tree) : ∃ plain,
      resolve v maxDepth entity ⟨.text query, []⟩ = .ok plain ∧
      Sound v ((maxDepth - 1).toNat + 1) entity query plain ∧ Complete v ((maxDepth - 1).toNat + 1) entity query plain ∧
      (∀ name x, Object.get? name plain = some x → ∃ r nested, entry v entity r nested = .ok (some x)) ∧
      request.conditions.foldlM addCondition plain = .ok tree := by
  obtain ⟨plain, hplain, hadded⟩ := (resolve_ok_iff (text?_of_text htext)).mp h
  refine ⟨plain, (resolve_unconditioned (text?_of_text rfl)).mpr hplain, ?_⟩
  rw [unconditioned_text hall] at hplain
  split at hplain
  · rename_i hblank
    obtain rfl := pure_ok_iff.mp hplain
    refine ⟨fun names x hx => ?_, fun names target hne _ hlists => ?_, nofun, hadded⟩
    · rw [node?_empty] at hx
      cases hx
    · obtain ⟨name, names, rfl⟩ := List.exists_cons_of_ne_nil hne
      exact absurd hlists (not_lists_blank hblank)
  · obtain ⟨hsound, hcomplete⟩ := paths_exact hplain
    exact ⟨hsound, hcomplete, fun name x hx => entry_of_paths hplain hx, hadded⟩

/-- A request by paths includes exactly the chains of relations that a path starts with, that are no longer than the
depth allows and that lead over readable entities only. Each entry hides what is omitted of the entity that its chain
leads to, and conditions on a relation narrow the rows of its entry and change nothing else. -/
theorem resolve_exact (v : Viewpoint) (hr : v.rules.Proper) (maxDepth : Int) (entity : String) {request : IncludeRequest}
    {query : String} (htext : request.query = .text query) (hall : trimText query ≠ allRelations)
    (hn : request.conditions.keys.Nodup) :
    (v.schema.Linked → v.Settles → (∃ e, v.schema.entity entity = .ok e) →
      ∃ plain, resolve v maxDepth entity ⟨.text query, []⟩ = .ok plain) ∧
    ∀ tree, resolve v maxDepth entity request = .ok tree →
      (∀ names, names ≠ [] → ((∃ x, node? tree names = some x) ↔ names.length ≤ max 1 maxDepth ∧
        (∃ path ∈ splitText ',' query, names <+: segments path) ∧ ∃ target, v.Leads entity names target)) ∧
      (∀ names x, node? tree names = some x → ∃ target, v.Leads entity names target ∧ Hides v target x) ∧
      ∃ plain, resolve v maxDepth entity ⟨.text query, []⟩ = .ok plain ∧
        ∀ name y, Object.get? name tree = some y → ∃ x, Object.get? name plain = some x ∧ Narrowed x y ∧
          ((∀ condition, (name, condition) ∈ request.conditions → condition.isPresent = false) → y = x) := by
  constructor
  · intro hs hv he
    simp only [resolve_unconditioned (text?_of_text rfl), unconditioned_text hall]
    split
    · exact ⟨[], rfl⟩
    · exact paths_succeeds hs hv he
  intro tree h
  obtain ⟨plain, hplain, hsound, hcomplete, hentries, hadded⟩ := resolve_plain htext hall h
  have hnames := conditions_narrow hr hn hentries hadded
  have hlength (names : List String) :
      (names.length : Int) ≤ max 1 maxDepth ↔ names.length ≤ (maxDepth - 1).toNat + 1 := by omega
  refine ⟨fun names hne => ?_, fun names y hy => ?_, plain, hplain, fun name y hy => ?_⟩
  · rw [Narrowed.exists_iff (node?_narrowed hnames names), hlength]
    constructor
    · rintro ⟨x, hx⟩
      obtain ⟨hshort, hlists, target, hleads, _⟩ := hsound names x hx
      exact ⟨hshort, hlists, target, hleads⟩
    · rintro ⟨hshort, hlists, target, hleads⟩
      exact hcomplete names target hne hshort hlists hleads
  · obtain ⟨x, hx, hshows, _⟩ := Narrowed.of_some (hy ▸ node?_narrowed hnames names)
    obtain ⟨_, _, target, hleads, omission, ho, homit⟩ := hsound names x hx
    exact ⟨target, hleads, omission, ho, (hshows "omit" (by decide)).trans homit⟩
  · obtain ⟨x, hx, hnarrowed⟩ := Narrowed.of_some (hy ▸ hnames name)
    refine ⟨x, hx, hnarrowed, fun habsent => ?_⟩
    rcases conditions_added hn hadded name with hkept | ⟨condition, _, _, hin, hpresent, _⟩
    · exact Option.some.inj (hy.symm.trans (hkept.trans hx))
    · rw [habsent condition hin] at hpresent
      cases hpresent

/-! The author and the comments of a post, of which a reader is shown those that were approved. -/

def approvedOnly : Viewpoint := moderator [("approved", .bool true)]

/-- Comments of one post, and an author of comments, who is not known. -/
def postRequest : IncludeRequest :=
  ⟨.text "comments.author, author. ,comments", [("comments", .object [("postId", .int 3)])]⟩

def postTree : Object :=
  [("comments", .object [("where", .object [("postId", .int 3), ("approved", .bool true)])]), ("author", .bool true)]

theorem postTree_exact :
    approvedOnly.rules.Proper ∧ postRequest.query = .text "comments.author, author. ,comments" ∧
    trimText "comments.author, author. ,comments" ≠ allRelations ∧ postRequest.conditions.keys.Nodup ∧
    resolve approvedOnly 2 "Post" postRequest = .ok postTree ∧
    (∃ x, node? postTree ["author"] = some x) ∧ ¬ ∃ target, approvedOnly.Leads "Post" ["comments", "author"] target := by
  have hr : approvedOnly.rules.Proper := Rules.reading_proper (by decide)
  have hall : trimText "comments.author, author. ,comments" ≠ allRelations := by cbv
  have hn : postRequest.conditions.keys.Nodup := by decide
  have htree : resolve approvedOnly 2 "Post" postRequest = .ok postTree := by cbv
  obtain ⟨hchains, _, _⟩ := (resolve_exact approvedOnly hr 2 "Post" rfl hall hn).2 postTree htree
  refine ⟨hr, rfl, hall, hn, htree, ⟨.bool true, rfl⟩, fun hleads => ?_⟩
  have hsplit : splitText ',' "comments.author, author. ,comments" =
      ["comments.author", " author. ", "comments"] := by cbv
  have hsegments : segments "comments.author" = ["comments", "author"] := by cbv
  have hlisted : ∃ path ∈ splitText ',' "comments.author, author. ,comments", ["comments", "author"] <+: segments path :=
    ⟨"comments.author", by simp [hsplit], by rw [hsegments]⟩
  obtain ⟨x, hx⟩ := (hchains ["comments", "author"] (by simp)).mpr ⟨by decide, hlisted, hleads⟩
  cases hx

end Include

end RecordGraph
