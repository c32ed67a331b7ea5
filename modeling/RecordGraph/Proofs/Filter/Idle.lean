import RecordGraph.Proofs.Filter.Paths

/-!
# Clauses that say nothing

A clause without an operand, and one that denies that a required field is null, say nothing of the field at the end of
their path. Yet the path is entered in the tree: rows are asked for on the way, where the other clauses ask for none.
-/

namespace RecordGraph

/-! ## A clause among others -/

section Text

variable {text part : List Char} {parts before after : List (List Char)}

theorem mem_joinWith_iff {ch : Char} (hch : ch ≠ ',') : ch ∈ joinWith [','] parts ↔ ∃ part ∈ parts, ch ∈ part := by
  constructor
  · intro h
    by_contra hnone
    simp only [not_exists, not_and] at hnone
    exact not_mem_joinWith hch hnone h
  · rintro ⟨part, hpart, hin⟩
    exact mem_joinWith hpart hin

/-- The parts of a text are whole, and none but the first one closes a bracket before it opens one. -/
theorem splitClauses_parts (text : List Char) : (∀ part ∈ splitClauses text, splitClauses part = [part]) ∧
    ∀ part ∈ (splitClauses text).tail, closesNext part = false := by
  induction text with
  | nil => simp [splitClauses]
  | cons ch text ih =>
      obtain ⟨hwhole, hopen⟩ := ih
      have hjoin := joinWith_splitClauses text
      rw [splitClauses]
      split
      · rename_i hcut
        refine ⟨List.forall_mem_cons.mpr ⟨rfl, hwhole⟩, ?_⟩
        cases hsplit : splitClauses text with
        | nil => exact absurd hsplit (splitClauses_ne_nil text)
        | cons first rest =>
            rw [hsplit] at hopen hjoin
            refine List.forall_mem_cons.mpr ⟨?_, hopen⟩
            by_contra hcloses
            have hfirst : closesNext first = true := by simpa using hcloses
            have htext : closesNext text = true := by
              rw [← hjoin]
              cases rest with
              | nil => exact hfirst
              | cons next rest =>
                  rw [joinWith_cons]
                  exact closesNext_append hfirst
            rw [hcut.2] at htext
            cases htext
      · rename_i hkept
        cases hsplit : splitClauses text with
        | nil => exact absurd hsplit (splitClauses_ne_nil text)
        | cons first rest =>
            rw [hsplit] at hopen hwhole hjoin
            refine ⟨List.forall_mem_cons.mpr ⟨?_, (List.forall_mem_cons.mp hwhole).2⟩, hopen⟩
            refine splitClauses_cons (fun hcomma => ?_) (hwhole first List.mem_cons_self)
            by_contra hfirst
            have hfirst : closesNext first = false := by simpa using hfirst
            have htext : closesNext text = false := by
              rw [← hjoin]
              exact not_closesNext_joinWith (List.forall_mem_cons.mpr ⟨hfirst, hopen⟩)
            exact hkept ⟨hcomma, htext⟩

end Text

namespace Filter

section Text

variable {s : Schema} {entity : String} {tree : Object} {text skipped : List Char} {texts before after : List (List Char)}

theorem equals_of_read? {clause : Clause} (h : Clause.read? text = some clause) : '=' ∈ text := by
  unfold Clause.read? at h
  split at h
  · cases h
  · rename_i hcut
    exact mem_of_cutAt hcut

/-- Texts without clauses add nothing. -/
theorem foldlM_unread (h : ∀ text ∈ texts, '=' ∉ text) : texts.foldlM (addClause s entity) tree = .ok tree := by
  induction texts with
  | nil => rfl
  | cons text texts ih =>
      have hread : Clause.read? text = none :=
        Option.eq_none_iff_forall_ne_some.mpr fun _ hread => h text List.mem_cons_self (equals_of_read? hread)
      rw [List.foldlM_cons, addClause_skipped hread]
      exact ih fun text hin => h text (List.mem_cons_of_mem _ hin)

/-- A text that is joined from parts of another one is read part by part. -/
theorem parse_parts (hwhole : ∀ text ∈ texts, splitClauses text = [text])
    (hopen : ∀ text ∈ texts.tail, closesNext text = false) :
    parse s entity (joinWith [','] texts) = texts.foldlM (addClause s entity) [] := by
  by_cases hequals : '=' ∈ joinWith [','] texts
  · have hne : texts ≠ [] := by
      rintro rfl
      cases hequals
    rw [parse_split hequals, splitClauses_joinWith hwhole hne hopen]
  · have hunread : ∀ text ∈ texts, '=' ∉ text :=
      fun text hin hmem => hequals ((mem_joinWith_iff (by decide)).mpr ⟨text, hin, hmem⟩)
    rw [foldlM_unread hunread, parse]
    split
    · rfl
    · refine foldlM_unread fun part hin hmem => hequals ?_
      rw [← joinWith_splitClauses (joinWith [','] texts)]
      exact (mem_joinWith_iff (by decide)).mpr ⟨part, hin, hmem⟩

/-- What a text is read as, and what is left of it without one of its parts. -/
theorem parse_without (s : Schema) (entity : String) (hsplit : splitClauses text = before ++ skipped :: after) :
    parse s entity text = (do
      let tree ← before.foldlM (addClause s entity) []
      let tree ← addClause s entity tree skipped
      after.foldlM (addClause s entity) tree) ∧
    parse s entity (joinWith [','] (before ++ after)) = (do
      let tree ← before.foldlM (addClause s entity) []
      after.foldlM (addClause s entity) tree) := by
  obtain ⟨hwhole, hopen⟩ := splitClauses_parts text
  have htext : parse s entity (joinWith [','] (splitClauses text)) = _ := parse_parts hwhole hopen
  rw [joinWith_splitClauses, hsplit] at htext
  rw [hsplit] at hwhole hopen
  constructor
  · rw [htext, List.foldlM_append]
    simp only [List.foldlM_cons]
  · rw [parse_parts, List.foldlM_append]
    · intro part hin
      refine hwhole part ?_
      simp only [List.mem_append, List.mem_cons] at hin ⊢
      tauto
    · intro part hin
      refine hopen part ?_
      cases before with
      | nil => exact List.mem_of_mem_tail hin
      | cons first before =>
          simp only [List.cons_append, List.tail_cons, List.mem_append, List.mem_cons] at hin ⊢
          tauto

end Text

/-! ## Trees that clauses build -/

/-- Words that are looked for in the tree of a link. -/
def linkWords : List String := ["some", "is", "isNot"]

/-- A tree with distinct keys, none of which is a word that is looked for in the tree of a link. -/
structure Plain (tree : Object) : Prop where
  distinct : tree.keys.Nodup
  unworded : ∀ word ∈ linkWords, word ∉ tree.keys

section Plain

variable {tree other : Object} {key : String} {v : Value} {mark : Mark}

theorem plain_nil : Plain [] where
  distinct := List.nodup_nil
  unworded := by simp [Object.keys]

theorem Plain.set (h : Plain tree) (hkey : key ∉ linkWords) : Plain (Object.set key v tree) where
  distinct := Object.nodup_keys_set h.distinct
  unworded word hword hin := by
    rcases Object.mem_keys_set.mp hin with rfl | hin
    · exact hkey hword
    · exact h.unworded word hword hin

theorem Plain.get?_some (h : Plain tree) : Object.get? "some" tree = none :=
  Object.get?_eq_none_iff.mpr (h.unworded "some" (by decide))

theorem Plain.unasserted (h : Plain tree) : ∀ kv ∈ tree, kv.1 ∉ Link.assertions := by
  intro kv hin hword
  refine h.unworded kv.1 ?_ (List.mem_map_of_mem hin)
  simp only [Link.assertions, List.mem_cons, List.not_mem_nil, or_false] at hword
  rcases hword with hword | hword <;> rw [hword] <;> decide

/-- The key of the member that a mark changes. -/
def Mark.key? : Mark → Option String
  | none => Option.none
  | member name _ => some name
  | items key _ => some key

theorem Mark.get?_on_of_ne (h : mark.key? ≠ some key) : Object.get? key (mark.on tree) = Object.get? key tree := by
  cases mark with
  | none => rfl
  | member name v => exact Object.get?_set_of_ne (fun hname => h (congrArg some hname)) _ _
  | items name vs => exact Object.get?_set_of_ne (fun hname => h (congrArg some hname)) _ _

/-- A mark leaves the same under a key, if the same was there. -/
theorem Mark.get?_on_congr (h : Object.get? key tree = Object.get? key other) :
    Object.get? key (mark.on tree) = Object.get? key (mark.on other) := by
  by_cases hkey : mark.key? = some key
  · cases mark with
    | none => cases hkey
    | member name v =>
        cases hkey
        simp only [Mark.on, Object.get?_set_self]
    | items name vs =>
        cases hkey
        simp only [Mark.on, addTo, Object.get?_set_self, Object.get, h]
  · rw [get?_on_of_ne hkey, get?_on_of_ne hkey, h]

theorem Mark.plain_on (h : Plain tree) (hkey : ∀ key, mark.key? = some key → key ∉ linkWords) : Plain (mark.on tree) := by
  cases mark with
  | none => exact h
  | member name v => exact h.set (hkey name rfl)
  | items name vs => exact h.set (hkey name rfl)

end Plain

variable {c : Catalog} {m target : Model} {l : Link} {entity root final name : String} {path rest : List String}
  {operand : List Char} {tree wider inner next : Object} {change : String → Object → Except Failure Object}

/-- The tree that a tree has for the rows of a link. -/
inductive Held (l : Link) (tree : Object) : Object → Prop
  | absent (h : Object.get? l.name tree = none) : Held l tree []
  | present {inner : Object} (h : Object.get? l.name tree = some (hop l inner)) : Held l tree inner

theorem Held.congr {other : Object} (h : Held l tree inner) (hget : Object.get? l.name other = Object.get? l.name tree) :
    Held l other inner := by
  cases h with
  | absent h => exact .absent (hget.trans h)
  | present h => exact .present (hget.trans h)

/-- A change at the end of a path is a change of the tree for the link that the path begins with. -/
theorem alongPath_hop (hm : c.model? entity = some m) (hl : m.link? l.name = some l) (hheld : Held l tree inner)
    (hinner : Plain inner) : alongPath c.schema root change (l.name :: path) entity tree =
      (fun inner' => Object.set l.name (hop l inner') tree) <$>
        alongPath c.schema root change path (c.entityOf l.target) inner := by
  obtain ⟨hname, htarget, hlist⟩ := c.relationOf_facts l
  rw [alongPath, c.schema_relation? hm, hl]
  simp only [Option.map_some, bind, Except.bind, hname, htarget, hlist]
  cases hheld with
  | absent hget =>
      simp only [Object.get, hget, Option.getD_none]
      cases alongPath c.schema root change path (c.entityOf l.target) [] <;> rfl
  | present hget =>
      simp only [Object.get, hget, Option.getD_some, hop]
      cases l.isList with
      | true =>
          simp only [↓reduceIte, Object.get?]
          cases alongPath c.schema root change path (c.entityOf l.target) inner <;> rfl
      | false =>
          simp only [Bool.false_eq_true, ↓reduceIte, hinner.get?_some]
          cases alongPath c.schema root change path (c.entityOf l.target) inner <;> rfl

/-- A mark under a name of a model, or on what is collected. -/
inductive Mark.Under (m : Model) (first : String) : Mark → Prop
  | none : Under m first .none
  | member (hhas : m.Has first) (v : Value) : Under m first (.member first v)
  | items {key : String} (hkey : key ∈ collecting) (vs : List Value) : Under m first (.items key vs)

section Under

variable {mark : Mark} {first : String} {field : Field}

theorem Mark.Says.under (h : Mark.Says field operand mark) (hhas : m.Has field.name) : mark.Under m field.name := by
  cases h with
  | none => exact .none
  | missing | present | compared => exact .member hhas _
  | listed _ hkey => exact .items hkey _
  | excluded => exact .items (by decide) _

theorem not_linkWord (hc : c.Unreserved) (hm : ∃ e ∈ c.models, e.2 = m) (hhas : m.Has name) : name ∉ linkWords := by
  obtain ⟨e, he, rfl⟩ := hm
  intro hword
  refine hc e he name hhas ?_
  simp only [linkWords, List.mem_cons, List.not_mem_nil, or_false] at hword
  rcases hword with rfl | rfl | rfl <;> decide

theorem not_collecting (hc : c.Unreserved) (hm : ∃ e ∈ c.models, e.2 = m) (hhas : m.Has name) : name ∉ collecting := by
  obtain ⟨e, he, rfl⟩ := hm
  intro hword
  refine hc e he name hhas ?_
  simp only [collecting, List.mem_cons, List.not_mem_nil, or_false] at hword
  rcases hword with rfl | rfl <;> decide

theorem Mark.Under.plain_on (h : mark.Under m first) (hc : c.Unreserved) (hm : ∃ e ∈ c.models, e.2 = m) (htree : Plain tree) :
    Plain (mark.on tree) := by
  apply Mark.plain_on htree
  intro key hkey
  cases h with
  | none => cases hkey
  | member hhas v =>
      cases hkey
      exact not_linkWord hc hm hhas
  | items hcollected vs =>
      cases hkey
      simp only [collecting, List.mem_cons, List.not_mem_nil, or_false] at hcollected
      rcases hcollected with rfl | rfl <;> decide

/-- A mark that is not under the name of a link leaves what a tree has for the link. -/
theorem Mark.Under.key?_ne_link (h : mark.Under m first) (hc : c.Unreserved) (hm : ∃ e ∈ c.models, e.2 = m)
    (hl : m.link? name = some l) (hne : ∀ v, mark = .member first v → first ≠ name) : mark.key? ≠ some name := by
  intro hkey
  cases h with
  | none => cases hkey
  | member hhas v =>
      cases hkey
      exact hne v rfl rfl
  | items hcollected vs =>
      cases hkey
      exact not_collecting hc hm (.inl (Option.isSome_iff_exists.mpr ⟨l, hl⟩)) hcollected

end Under

/-- A clause leaves a mark under the name that it begins with, whatever else is in the tree. -/
theorem alongPath_mark (h : c.WellFormed) (hm : c.model? entity = some m)
    (hnext : alongPath c.schema root (fun entity => applyClause c.schema entity name operand) path entity tree = .ok next) :
    ∃ mark : Mark, mark.Under m (path.headD name) ∧ next = mark.on tree ∧
      ∀ other, (∀ first ∈ path.head?, Object.get? first other = Object.get? first tree) →
        alongPath c.schema root (fun entity => applyClause c.schema entity name operand) path entity other =
          .ok (mark.on other) := by
  cases path with
  | nil =>
      obtain ⟨e, field, mark, he, hf, hsays, rfl, hall⟩ := applyClause_mark hnext
      have hname : field.name = name := by simpa using List.find?_some hf
      subst hname
      cases (c.schema_entity hm).symm.trans he
      have hhas : m.Has field.name := by
        rcases field_cases h hm hf with ⟨_, l, hl⟩ | ⟨_, _, column, hcolumn⟩
        · exact .inl (Option.isSome_iff_exists.mpr ⟨l, hl⟩)
        · exact .inr (Option.isSome_iff_exists.mpr ⟨column, hcolumn⟩)
      exact ⟨mark, hsays.under hhas, rfl, fun other _ => hall other⟩
  | cons first path =>
      obtain ⟨e, r, he, hr, hname, henters⟩ := alongPath_cons_ok hnext
      obtain ⟨mark, hkey, rfl, hall⟩ := henters.mark
      have hother (other : Object) (hget : ∀ name ∈ (first :: path).head?, Object.get? name other = Object.get? name tree) :
          alongPath c.schema root (fun entity => applyClause c.schema entity name operand) (first :: path) entity other =
            .ok (mark.on other) := by
        refine alongPath_cons_ok_iff.mpr ⟨e, r, he, hr, hall other ?_⟩
        rw [Object.get, Object.get, hname, hget first rfl]
      refine ⟨mark, ?_, rfl, hother⟩
      rcases hkey with rfl | ⟨v, rfl⟩
      · exact .none
      · obtain ⟨l, hl, _⟩ := Catalog.link_of_relation hm he hr
        rw [hname]
        exact .member (.inl (Option.isSome_iff_exists.mpr ⟨l, hl⟩)) v

/-! ## A path that is entered -/

/-- A path leads through trees for links, or on from where the tree ends. -/
inductive Laid (c : Catalog) : Model → List String → Object → Prop
  | here {m : Model} {tree : Object} (htree : Plain tree) : Laid c m [] tree
  | step {m target : Model} {l : Link} {path : List String} {tree inner : Object} (htree : Plain tree)
    (hl : m.link? l.name = some l) (hn : c.named l.target = .ok target) (hheld : Held l tree inner)
    (hinner : Laid c target path inner) : Laid c m (l.name :: path) tree

/-- A tree has the members of another one, and more trees for the links on a path. -/
inductive Opened (c : Catalog) : Model → List String → Object → Object → Prop
  | same {m : Model} {path : List String} {tree wider : Object} (htree : Plain tree) (hwider : Plain wider)
    (hget : ∀ key, Object.get? key wider = Object.get? key tree) : Opened c m path tree wider
  | step {m target : Model} {l : Link} {path : List String} {tree wider inner inner' : Object} (htree : Plain tree)
    (hwider : Plain wider) (hl : m.link? l.name = some l) (hn : c.named l.target = .ok target)
    (hother : ∀ key, key ≠ l.name → Object.get? key wider = Object.get? key tree) (hheld : Held l tree inner)
    (hget : Object.get? l.name wider = some (hop l inner')) (hinner : Opened c target path inner inner') :
    Opened c m (l.name :: path) tree wider

theorem Laid.plain (h : Laid c m path tree) : Plain tree := by
  cases h with
  | here htree | step htree => exact htree

theorem Opened.plain (h : Opened c m path tree wider) : Plain tree ∧ Plain wider := by
  cases h with
  | same htree hwider | step htree hwider => exact ⟨htree, hwider⟩

theorem mem_of_model (hm : c.model? entity = some m) : ∃ e ∈ c.models, e.2 = m := ⟨_, Catalog.mem_of_model? hm, rfl⟩

theorem target_model (h : c.WellFormed) (hm : c.model? entity = some m) (hl : m.link? l.name = some l)
    (hn : c.named l.target = .ok target) : c.model? (c.entityOf l.target) = some target := by
  obtain ⟨found, hfound, hn'⟩ := Catalog.link_target h hm hl
  cases hn.symm.trans hn'
  exact hfound

theorem laid_nil (h : c.WellFormed) (hm : c.model? entity = some m) (hpath : c.schema.reached? entity path = some final) :
    Laid c m path [] := by
  induction path generalizing entity m with
  | nil => exact .here plain_nil
  | cons name path ih =>
      rw [Schema.reached?, c.schema_relation? hm] at hpath
      cases hl : m.link? name with
      | none => simp [hl] at hpath
      | some l =>
          simp only [hl, Option.map_some, (c.relationOf_facts l).2.1] at hpath
          obtain rfl : l.name = name := by simpa using List.find?_some hl
          obtain ⟨target, ht, hn⟩ := Catalog.link_target h hm hl
          exact .step plain_nil hl hn (.absent rfl) (ih ht hpath)

theorem applyClause_empty {s : Schema} (h : applyClause s entity name [] tree = .ok next) : next = tree := by
  unfold applyClause at h
  obtain ⟨e, _, h⟩ := bind_ok_iff.mp h
  cases hf : e.field? name with
  | none =>
      rw [hf] at h
      cases h
  | some field =>
      rw [hf] at h
      exact (Except.ok.inj h).symm

/-- A clause keeps a path laid, unless it has an operand and ends on a link of the path. -/
theorem Laid.clause (h : c.WellFormed) (hc : c.Unreserved) (hlaid : Laid c m path tree) (hm : c.model? entity = some m)
    {through : List String} (hclear : ∀ last l, c.along m through = some last → last.link? name = some l →
      through ++ [name] <+: path → operand = [])
    (hnext : alongPath c.schema root (fun entity => applyClause c.schema entity name operand) through entity tree = .ok next) :
    Laid c m path next := by
  induction hlaid generalizing entity through next with
  | here htree =>
      obtain ⟨mark, hunder, rfl, _⟩ := alongPath_mark h hm hnext
      exact .here (hunder.plain_on hc (mem_of_model hm) htree)
  | @step m target l path tree inner htree hl hn hheld hinner ih =>
      have hbeside (hne : through.headD name ≠ l.name) : Laid c m (l.name :: path) next := by
        obtain ⟨mark, hunder, rfl, _⟩ := alongPath_mark h hm hnext
        have hkey := hunder.key?_ne_link hc (mem_of_model hm) hl fun _ _ => hne
        exact .step (hunder.plain_on hc (mem_of_model hm) htree) hl hn (hheld.congr (Mark.get?_on_of_ne hkey)) hinner
      cases through with
      | nil =>
          by_cases hname : name = l.name
          · subst hname
            obtain rfl : operand = [] := hclear m l rfl hl ⟨path, rfl⟩
            obtain rfl : next = tree := applyClause_empty hnext
            exact .step htree hl hn hheld hinner
          · exact hbeside hname
      | cons first through =>
          by_cases hfirst : first = l.name
          · subst hfirst
            rw [alongPath_hop hm hl hheld hinner.plain] at hnext
            obtain ⟨inner', hrun, rfl⟩ := map_ok_iff.mp hnext
            have hclear' : ∀ last l, c.along target through = some last → last.link? name = some l →
                through ++ [name] <+: path → operand = [] := by
              intro last l' halong hl' hpre
              exact hclear last l' (by simp [Catalog.along, hl, hn, halong]) hl' (List.cons_prefix_cons.mpr ⟨rfl, hpre⟩)
            refine .step (htree.set ?_) hl hn (.present (Object.get?_set_self _ _ _))
              (ih (target_model h hm hl hn) hclear' hrun)
            exact not_linkWord hc (mem_of_model hm) (.inl (Option.isSome_iff_exists.mpr ⟨l, hl⟩))
          · exact hbeside hfirst

/-- A path that is entered to change nothing at its end is opened. -/
theorem Laid.opened (h : c.WellFormed) (hc : c.Unreserved) (hlaid : Laid c m path tree) (hm : c.model? entity = some m)
    (hidle : ∀ final, c.schema.reached? entity path = some final → ∀ tree, change final tree = .ok tree) :
    ∃ wider, alongPath c.schema root change path entity tree = .ok wider ∧ Opened c m path tree wider := by
  induction hlaid generalizing entity with
  | here htree => exact ⟨_, hidle entity rfl _, .same htree htree fun _ => rfl⟩
  | @step m target l path tree inner htree hl hn hheld hinner ih =>
      have hidle' : ∀ final, c.schema.reached? (c.entityOf l.target) path = some final →
          ∀ tree, change final tree = .ok tree := by
        intro final hfinal
        refine hidle final ?_
        rw [Schema.reached?, c.schema_relation? hm, hl]
        simp only [Option.map_some, (c.relationOf_facts l).2.1, hfinal]
      obtain ⟨inner', hrun, hopened⟩ := ih (target_model h hm hl hn) hidle'
      refine ⟨Object.set l.name (hop l inner') tree, ?_, ?_⟩
      · rw [alongPath_hop hm hl hheld hinner.plain, hrun]
        rfl
      · refine .step htree (htree.set ?_) hl hn ?_ hheld (Object.get?_set_self _ _ _) hopened
        · exact not_linkWord hc (mem_of_model hm) (.inl (Option.isSome_iff_exists.mpr ⟨l, hl⟩))
        · exact fun key hkey => Object.get?_set_of_ne hkey.symm _ _

/-- A clause that is added to both trees leaves one opened to the other. -/
theorem Opened.clause (h : c.WellFormed) (hc : c.Unreserved) (hopened : Opened c m path tree wider)
    (hm : c.model? entity = some m) {through : List String}
    (hnext : alongPath c.schema root (fun entity => applyClause c.schema entity name operand) through entity tree = .ok next) :
    ∃ next', alongPath c.schema root (fun entity => applyClause c.schema entity name operand) through entity wider =
      .ok next' ∧ Opened c m path next next' := by
  induction hopened generalizing entity through next with
  | same htree hwider hget =>
      obtain ⟨mark, hunder, rfl, hall⟩ := alongPath_mark h hm hnext
      refine ⟨_, hall _ fun first _ => hget first, .same ?_ ?_ fun key => Mark.get?_on_congr (hget key)⟩
      · exact hunder.plain_on hc (mem_of_model hm) htree
      · exact hunder.plain_on hc (mem_of_model hm) hwider
  | @step m target l path tree wider inner inner' htree hwider hl hn hother hheld hget hinner ih =>
      have hmodel := mem_of_model hm
      have hkept {mark : Mark} {first : String} (hunder : mark.Under m first) (hkey : mark.key? ≠ some l.name) :
          Opened c m (l.name :: path) (mark.on tree) (mark.on wider) := by
        refine .step (hunder.plain_on hc hmodel htree) (hunder.plain_on hc hmodel hwider) hl hn ?_
          (hheld.congr (Mark.get?_on_of_ne hkey)) ((Mark.get?_on_of_ne hkey).trans hget) hinner
        exact fun key hne => Mark.get?_on_congr (hother key hne)
      cases through with
      | nil =>
          obtain ⟨mark, hunder, rfl, hall⟩ := alongPath_mark h hm hnext
          refine ⟨_, hall wider (by simp), ?_⟩
          by_cases hset : ∃ v, mark = .member l.name v
          · obtain ⟨v, rfl⟩ := hset
            refine .same (hunder.plain_on hc hmodel htree) (hunder.plain_on hc hmodel hwider) fun key => ?_
            by_cases hkey : key = l.name
            · subst hkey
              simp only [Mark.on, Object.get?_set_self]
            · exact Mark.get?_on_congr (hother key hkey)
          · refine hkept hunder (hunder.key?_ne_link hc hmodel hl ?_)
            rintro v rfl rfl
            exact hset ⟨v, rfl⟩
      | cons first through =>
          by_cases hfirst : first = l.name
          · subst hfirst
            rw [alongPath_hop hm hl hheld hinner.plain.1] at hnext
            obtain ⟨next, hrun, rfl⟩ := map_ok_iff.mp hnext
            obtain ⟨next', hrun', hopened⟩ := ih (target_model h hm hl hn) hrun
            have hword : l.name ∉ linkWords := not_linkWord hc hmodel (.inl (Option.isSome_iff_exists.mpr ⟨l, hl⟩))
            refine ⟨Object.set l.name (hop l next') wider, ?_, ?_⟩
            · rw [alongPath_hop hm hl (.present hget) hinner.plain.2, hrun']
              rfl
            · refine .step (htree.set hword) (hwider.set hword) hl hn ?_ (.present (Object.get?_set_self _ _ _))
                (Object.get?_set_self _ _ _) hopened
              intro key hkey
              rw [Object.get?_set_of_ne hkey.symm, Object.get?_set_of_ne hkey.symm, hother key hkey]
          · obtain ⟨mark, hunder, rfl, hall⟩ := alongPath_mark h hm hnext
            refine ⟨_, hall wider fun other hin => ?_, hkept hunder (hunder.key?_ne_link hc hmodel hl fun _ _ => hfirst)⟩
            obtain rfl : first = other := Option.some.inj hin
            exact hother first hfirst

/-! ## Rows that are selected -/

variable {db : Database} {row : Row}

theorem satisfies_get?_iff {o : Object} (hn : o.keys.Nodup) : c.Satisfies m db row (.object o) ↔
    ∀ key v, Object.get? key o = some v → c.SatisfiesMember m db row (key, v) := by
  rw [Catalog.satisfies_object_iff]
  constructor
  · exact fun h key v hget => h (key, v) (Object.mem_of_get? hget)
  · exact fun h kv hin => h kv.1 kv.2 (Object.get?_of_mem hn hin)

theorem Opened.narrows (hc : c.Unreserved) (hopened : Opened c m path tree wider) (hm : ∃ e ∈ c.models, e.2 = m)
    (hsat : c.Satisfies m db row (.object wider)) : c.Satisfies m db row (.object tree) := by
  induction hopened generalizing row with
  | same htree hwider hget =>
      rw [satisfies_get?_iff htree.distinct]
      rw [satisfies_get?_iff hwider.distinct] at hsat
      exact fun key v hv => hsat key v ((hget key).trans hv)
  | @step m target l path tree wider inner inner' htree hwider hl hn hother hheld hget hinner ih =>
      rw [satisfies_get?_iff htree.distinct]
      rw [satisfies_get?_iff hwider.distinct] at hsat
      intro key v hv
      by_cases hkey : key = l.name
      · subst hkey
        obtain ⟨e, he, rfl⟩ := hm
        have hreserved : l.name ∉ reserved := hc e he l.name (.inl (Option.isSome_iff_exists.mpr ⟨l, hl⟩))
        cases hheld with
        | absent hnone =>
            rw [hnone] at hv
            cases hv
        | present hsome =>
            cases hsome.symm.trans hv
            obtain ⟨other, hin, hrest⟩ := (Catalog.satisfiesMember_hop_iff hreserved hl hn hinner.plain.2.unasserted).mp
              (hsat l.name _ hget)
            exact (Catalog.satisfiesMember_hop_iff hreserved hl hn hinner.plain.1.unasserted).mpr
              ⟨other, hin, ih (Catalog.mem_of_named hn) hrest⟩
      · exact hsat key v ((hother key hkey).trans hv)

/-- Where the tree of a row asks for no linked row on a path, there is one. -/
def Supplied (c : Catalog) (db : Database) : List String → Model → Object → Row → Prop
  | [], _, _, _ => True
  | name :: path, m, tree, row => ∀ l target inner, m.link? name = some l → c.named l.target = .ok target →
    Held l tree inner → (Object.get? name tree = none → db.linkedRows l row ≠ []) ∧
      ∀ other ∈ db.linkedRows l row, Supplied c db path target inner other

theorem Opened.satisfies (hc : c.Unreserved) (hopened : Opened c m path tree wider) (hm : ∃ e ∈ c.models, e.2 = m)
    (hrow : Supplied c db path m tree row) (hsat : c.Satisfies m db row (.object tree)) :
    c.Satisfies m db row (.object wider) := by
  induction hopened generalizing row with
  | same htree hwider hget =>
      rw [satisfies_get?_iff hwider.distinct]
      rw [satisfies_get?_iff htree.distinct] at hsat
      exact fun key v hv => hsat key v ((hget key).symm.trans hv)
  | @step m target l path tree wider inner inner' htree hwider hl hn hother hheld hget hinner ih =>
      obtain ⟨hlinked, hrest⟩ := hrow l target inner hl hn hheld
      rw [satisfies_get?_iff hwider.distinct]
      rw [satisfies_get?_iff htree.distinct] at hsat
      intro key v hv
      by_cases hkey : key = l.name
      · subst hkey
        cases hget.symm.trans hv
        obtain ⟨e, he, rfl⟩ := hm
        have hreserved : l.name ∉ reserved := hc e he l.name (.inl (Option.isSome_iff_exists.mpr ⟨l, hl⟩))
        apply (Catalog.satisfiesMember_hop_iff hreserved hl hn hinner.plain.2.unasserted).mpr
        cases hheld with
        | absent hnone =>
            obtain ⟨other, hin⟩ := List.exists_mem_of_ne_nil _ (hlinked hnone)
            exact ⟨other, hin, ih (Catalog.mem_of_named hn) (hrest other hin) Catalog.satisfies_empty⟩
        | present hsome =>
            obtain ⟨other, hin, hinside⟩ :=
              (Catalog.satisfiesMember_hop_iff hreserved hl hn hinner.plain.1.unasserted).mp (hsat l.name _ hsome)
            exact ⟨other, hin, ih (Catalog.mem_of_named hn) (hrest other hin) hinside⟩
      · exact hsat key v ((hother key hkey).symm.trans hv)

/-! ## Whole texts -/

/-- A text that is no clause, or one that says nothing of the field at the end of its path: it has no operand, or
denies that a required field is null. -/
def Idle (s : Schema) (entity : String) (text : List Char) : Prop :=
  ∀ clause, Clause.read? text = some clause → ∃ final e field, s.reached? entity clause.path = some final ∧
    s.entity final = .ok e ∧ e.field? clause.name = some field ∧
    (clause.operand = [] ∨ clause.operand = "not:#NULL".toList ∧ field.isRelation = false ∧ field.required = true)

section Whole

variable {s : Schema} {e : Entity} {field : Field} {clause : Clause} {text skipped : List Char} {before after : List (List Char)}

theorem applyClause_idle (he : s.entity entity = .ok e) (hf : e.field? name = some field)
    (hidle : operand = [] ∨ operand = "not:#NULL".toList ∧ field.isRelation = false ∧ field.required = true) :
    applyClause s entity name operand tree = .ok tree := by
  unfold applyClause
  simp only [he, bind, Except.bind, hf]
  rcases hidle with rfl | ⟨rfl, hscalar, hrequired⟩
  · rfl
  · have hnull : "not:#NULL".toList ≠ nullWord := by decide
    have hdenied : Operand.after? "not:" "not:#NULL".toList = some nullWord := rfl
    simp only [if_neg hnull, hdenied, applyNegated, hscalar, hrequired, ↓reduceIte, Bool.false_eq_true]
    rfl

/-- Without a path, a clause that says nothing leaves every tree as it is. -/
theorem addClause_idle (hidle : Idle s entity skipped) (hpath : ∀ clause, Clause.read? skipped = some clause → clause.path = []) :
    addClause s entity tree skipped = .ok tree := by
  cases hread : Clause.read? skipped with
  | none => exact addClause_skipped hread
  | some clause =>
      obtain ⟨final, e, field, hreached, he, hf, hsays⟩ := hidle clause hread
      rw [hpath clause hread] at hreached
      cases hreached
      rw [addClause_own he hread (hpath clause hread) hf]
      exact applyClause_idle he hf hsays

/-- Clauses that fit, before one whose path they do not end on, keep the path laid. -/
theorem laid_before (h : c.WellFormed) (hc : c.Unreserved) (hm : c.model? entity = some m)
    (hfits : Fits c m (before.filterMap Clause.read? ++ clause :: after.filterMap Clause.read?))
    (hlaid : Laid c m clause.path tree) (hrun : before.foldlM (addClause c.schema entity) tree = .ok next) :
    Laid c m clause.path next := by
  refine foldlM_ok_kept (I := Laid c m clause.path) ?_ hlaid hrun
  intro item state next hitem hlaid hadd
  cases hread : Clause.read? item with
  | none =>
      rw [addClause_skipped hread] at hadd
      cases hadd
      exact hlaid
  | some earlier =>
      have hin : earlier ∈ before.filterMap Clause.read? := List.mem_filterMap.mpr ⟨item, hitem, hread⟩
      refine hlaid.clause h hc hm ?_ (addClause_ok hread hadd)
      intro last l halong hl hpre
      rcases hfits.links earlier (List.mem_append_left _ hin) last l halong hl with hempty | ⟨htests, _⟩
      · exact hempty
      · have horder := (List.pairwise_append.mp hfits.order).2.2 earlier hin clause List.mem_cons_self htests
        exact absurd hpre horder

theorem opened_after (h : c.WellFormed) (hc : c.Unreserved) (hm : c.model? entity = some m)
    (hopened : Opened c m path tree wider) (hrun : after.foldlM (addClause c.schema entity) tree = .ok next) :
    ∃ next', after.foldlM (addClause c.schema entity) wider = .ok next' ∧ Opened c m path next next' := by
  induction after generalizing tree wider with
  | nil =>
      cases hrun
      exact ⟨wider, rfl, hopened⟩
  | cons item after ih =>
      rw [List.foldlM_cons] at hrun ⊢
      obtain ⟨state, hadd, hrun⟩ := bind_ok_iff.mp hrun
      cases hread : Clause.read? item with
      | none =>
          rw [addClause_skipped hread] at hadd ⊢
          cases hadd
          exact ih hopened hrun
      | some clause =>
          rw [addClause_eq (c.schema_entity hm) hread] at hadd ⊢
          split at hadd
          · cases hadd
          · obtain ⟨state', hadd', hopened⟩ := hopened.clause h hc hm hadd
            rw [if_neg ‹_›, hadd']
            exact ih hopened hrun

/-- A clause that says nothing and has no path leaves what a text is read as. With a path, the text is still read as a
tree if the others are and all of them fit. No row is selected that was not without it, and a row is still selected if,
wherever nothing else asks for a linked row on the path, there is one. -/
theorem idle_clause_narrows (h : c.WellFormed) (hc : c.Unreserved) (hm : c.model? entity = some m)
    (hsplit : splitClauses text = before ++ skipped :: after) (hidle : Idle c.schema entity skipped) :
    ((∀ clause, Clause.read? skipped = some clause → clause.path = []) →
      parse c.schema entity text = parse c.schema entity (joinWith [','] (before ++ after))) ∧
    ∀ tree, Fits c m ((splitClauses text).filterMap Clause.read?) →
      parse c.schema entity (joinWith [','] (before ++ after)) = .ok tree →
      ∃ wider, parse c.schema entity text = .ok wider ∧
        (∀ db row, c.Satisfies m db row (.object wider) → c.Satisfies m db row (.object tree)) ∧
        ∀ db row, (∀ clause, Clause.read? skipped = some clause → Supplied c db clause.path m tree row) →
          (c.Satisfies m db row (.object wider) ↔ c.Satisfies m db row (.object tree)) := by
  obtain ⟨hwith, hwithout⟩ := parse_without c.schema entity hsplit
  rw [hwith, hwithout]
  constructor
  · intro hpath
    congr 1
    funext tree
    rw [addClause_idle hidle hpath]
    rfl
  · intro tree hfits hparse
    obtain ⟨start, hstart, hrun⟩ := bind_ok_iff.mp hparse
    rw [hstart]
    cases hread : Clause.read? skipped with
    | none =>
        have hadded : addClause c.schema entity start skipped = .ok start := addClause_skipped hread
        exact ⟨tree, by simpa only [bind, Except.bind, hadded] using hrun, fun _ _ => id, fun _ _ _ => .rfl⟩
    | some clause =>
        obtain ⟨final, e, field, hpath, he, hf, hsays⟩ := hidle clause hread
        rw [hsplit, List.filterMap_append, List.filterMap_cons_some hread] at hfits
        have hlaid : Laid c m clause.path start := laid_before h hc hm hfits (laid_nil h hm hpath) hstart
        have hnothing : ∀ reached, c.schema.reached? entity clause.path = some reached →
            ∀ tree, applyClause c.schema reached clause.name clause.operand tree = .ok tree := by
          intro reached hreached tree
          cases hpath.symm.trans hreached
          exact applyClause_idle he hf hsays
        obtain ⟨entered, halong, hopened⟩ := hlaid.opened h hc hm hnothing
        have hadded : addClause c.schema entity start skipped = .ok entered := by
          rw [addClause_along (c.schema_entity hm) hread, halong]
          intro hnil
          rw [hnil] at hpath
          cases hpath
          cases (c.schema_entity hm).symm.trans he
          rw [Entity.hasField, hf]
          rfl
        obtain ⟨wider, hwider, hopened⟩ := opened_after h hc hm hopened hrun
        refine ⟨wider, by simpa only [bind, Except.bind, hadded] using hwider, ?_, ?_⟩
        · exact fun db row => hopened.narrows hc (mem_of_model hm)
        · exact fun db row hrow =>
            ⟨hopened.narrows hc (mem_of_model hm), hopened.satisfies hc (mem_of_model hm) (hrow clause rfl)⟩

end Whole

/-! Posts that are looked for by a clause that says nothing of their comments. -/

def idleText : List Char := "comments.body=,id=3".toList

def blogPost : Row := [("id", .integer 3), ("authorId", .integer 7)]

theorem comments_idle : Idle Catalog.blogCatalog.schema "Post" "comments.body=".toList := by
  intro clause hread
  have hclause : Clause.read? "comments.body=".toList = some ⟨["comments"], "body", []⟩ := rfl
  cases hclause.symm.trans hread
  exact ⟨"Comment", _, _, by cbv, rfl, rfl, .inl rfl⟩

theorem idleText_fits {m : Model} (hm : Catalog.blogCatalog.model? "Post" = some m) :
    Fits Catalog.blogCatalog m ((splitClauses idleText).filterMap Clause.read?) := by
  have hclauses : (splitClauses idleText).filterMap Clause.read? =
      [⟨["comments"], "body", []⟩, ⟨[], "id", "3".toList⟩] := rfl
  rw [hclauses]
  cases hm
  constructor
  · intro clause hin last l halong hl
    simp only [List.mem_cons, List.not_mem_nil, or_false] at hin
    rcases hin with rfl | rfl
    · exact .inl rfl
    · cases halong
      cases hl
  · simp only [List.pairwise_cons, List.forall_mem_cons]
    refine ⟨⟨?_, by simp⟩, by simp, .nil⟩
    intro _
    decide
  · intro clause hin vs hlisted
    simp only [List.mem_cons, List.not_mem_nil, or_false] at hin
    rcases hin with rfl | rfl <;> exact absurd hlisted (not_listed rfl rfl)

theorem blogPost_supplied {m : Model} {tree : Object} (hm : Catalog.blogCatalog.model? "Post" = some m) :
    Supplied Catalog.blogCatalog Catalog.blogDatabase ["comments"] m tree blogPost := by
  cases hm
  intro l target inner hl _ _
  cases hl
  exact ⟨fun _ => by decide, fun _ _ => trivial⟩

/-- A post with comments is found, whether the clause that says nothing of them stands there or not. -/
theorem commented_kept :
    ∃ m, Catalog.blogCatalog.model? "Post" = some m ∧
      splitClauses idleText = [] ++ "comments.body=".toList :: ["id=3".toList] ∧
      Idle Catalog.blogCatalog.schema "Post" "comments.body=".toList ∧
      Fits Catalog.blogCatalog m ((splitClauses idleText).filterMap Clause.read?) ∧
      parse Catalog.blogCatalog.schema "Post" "id=3".toList = .ok [("id", .object [("equals", .int 3)])] ∧
      Supplied Catalog.blogCatalog Catalog.blogDatabase ["comments"] m [("id", .object [("equals", .int 3)])] blogPost ∧
      ∃ wider, parse Catalog.blogCatalog.schema "Post" idleText = .ok wider ∧
        (Catalog.blogCatalog.Satisfies m Catalog.blogDatabase blogPost (.object wider) ↔
          Catalog.blogCatalog.Satisfies m Catalog.blogDatabase blogPost (.object [("id", .object [("equals", .int 3)])])) := by
  have hsplit : splitClauses idleText = [] ++ "comments.body=".toList :: ["id=3".toList] := rfl
  have hread : Clause.read? "comments.body=".toList = some ⟨["comments"], "body", []⟩ := rfl
  refine ⟨_, rfl, hsplit, comments_idle, idleText_fits rfl, rfl, blogPost_supplied rfl, ?_⟩
  obtain ⟨wider, hwider, _, hkept⟩ :=
    (idle_clause_narrows Catalog.blogCatalog_wellFormed blogCatalog_unreserved rfl hsplit comments_idle).2 _
      (idleText_fits rfl) rfl
  refine ⟨wider, hwider, hkept _ _ fun clause hclause => ?_⟩
  cases hread.symm.trans hclause
  exact blogPost_supplied rfl

/-- A post without comments is lost to the clause that says nothing of them. -/
theorem commentless_lost :
    Idle Catalog.blogCatalog.schema "Post" "comments.body=".toList ∧
    ∃ m, Catalog.blogCatalog.model? "Post" = some m ∧
      ∃ tree wider, parse Catalog.blogCatalog.schema "Post" [] = .ok tree ∧
        parse Catalog.blogCatalog.schema "Post" "comments.body=".toList = .ok wider ∧
        Catalog.blogCatalog.Satisfies m { tables := [("Post", [blogPost])] } blogPost (.object tree) ∧
        ¬ Catalog.blogCatalog.Satisfies m { tables := [("Post", [blogPost])] } blogPost (.object wider) := by
  refine ⟨comments_idle, _, rfl, [], [("comments", .object [("some", .object [])])], rfl, rfl, Catalog.satisfies_empty, ?_⟩
  rintro ⟨cond, hcond, hsel⟩
  have hread : .ok (.all [.all [.linked ⟨"comments", "Comment", .heldBy "postId" true, "id"⟩ (.all [])]]) =
    Except.ok cond := hcond
  cases hread
  revert hsel
  decide

end Filter

end RecordGraph
