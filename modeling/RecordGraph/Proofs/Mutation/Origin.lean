import RecordGraph.Proofs.Mutation.Acceptance
import RecordGraph.Proofs.Mutation.Updated

/-!
# The origin of bodies

Every body in a transformed payload is drawn from one given item. Its members were given with the
item, or are operations that the value of a relation was turned into, or stand for a foreign key of
the item. What the operations under a relation look like is said relative to a property of the
operations further down, so that a property of all bodies follows from a property of one.
-/

namespace RecordGraph

namespace Payload

/-- What a value was turned into: operations, or an object without any. -/
def Turned (v : Value) : Prop := v = .object [] ∨ isOperation v = true

theorem Turned.isOperation {v : Value} (h : Turned v) (hv : v.nests = true) :
    Payload.isOperation v = true := by
  rcases h with rfl | h
  · cases hv
  · exact h

end Payload

namespace Writer

/-- What comes of the value of a relation: operations that were given are kept. -/
def Yields (T : Relation → Value → Value → Prop) (r : Relation) (v ops : Value) : Prop :=
  (Payload.isOperation v = true ∧ ops = v) ∨
    (Payload.isOperation v = false ∧ T r v ops ∧ Payload.Turned ops)

section
variable (w : Writer) (T : Relation → Value → Value → Prop) (kind : BodyKind) (e : Entity) (A : Prop)
  (item : Object)

/-- Where the member of a body comes from. -/
inductive Member : String → Value → Prop
  | kept {key v} (hm : (key, v) ∈ item) : Member key v
  | nested {key v r ops} (hm : (key, v) ∈ item) (hr : e.relation? key = some r) (ht : T r v ops)
      (hops : Payload.Turned ops) (hv : v.nests = true) : Member key ops
  /-- A foreign key is no relation itself where names are apart. -/
  | linked {field v r ops} (hk : kind ≠ .prepared) (hf : field ∈ item.keys)
      (hv : (field, v) ∈ item ∨ (e.relation? field).isSome = true)
      (hr : e.relationForField? field = some r) (hc : w.connect r v = .ok ops) : Member r.name ops
  | cut {field r} (hk : kind = .changed) (hf : field ∈ item.keys)
      (hr : e.relationForField? field = some r) : Member r.name (.object [("disconnect", .bool true)])

/-- One step on a member of a body. -/
inductive Step (key : String) (v : Value) (body : Object) : Object → Prop
  | same (h : A → e.relation? key = none ∨ v.nests = false ∨ Payload.isOperation v = true) :
      Step key v body body
  | nested {r ops} (hr : e.relation? key = some r) (hv : v.nests = true) (hy : Yields T r v ops) :
      Step key v body (Object.set key ops body)
  | erased : Step key v body (Object.erase key body)
  | linked {r ops} (hk : kind ≠ .prepared) (hr : e.relationForField? key = some r) (hv : v ≠ .null)
      (hc : w.connect r v = .ok ops) : Step key v body (Object.set r.name ops (Object.erase key body))
  | cut {r} (hk : kind = .changed) (hr : e.relationForField? key = some r) :
      Step key v body (Object.set r.name (.object [("disconnect", .bool true)]) (Object.erase key body))

/-- A body that is drawn from an item. Where what is assumed of the item holds, no value of a
relation is left to be turned. -/
structure Drawn (body : Object) : Prop where
  member : ∀ kv ∈ body, w.Member T kind e item kv.1 kv.2
  nodup : A → body.keys.Nodup
  turned : A → ∀ kv ∈ body, (e.relation? kv.1).isSome = true → kv.2.nests = true →
    Payload.isOperation kv.2 = true

end

variable {w : Writer} {T : Relation → Value → Value → Prop} {kind : BodyKind} {r : Relation} {e : Entity}
  {A : Prop} {item body next : Object} {key : String} {v ops : Value} {kv : String × Value}

theorem Yields.isOperation (h : Yields T r v ops) (hops : ops.nests = true) :
    Payload.isOperation ops = true := by
  rcases h with ⟨hv, rfl⟩ | ⟨_, _, hturned⟩
  · exact hv
  · exact hturned.isOperation hops

theorem connect_isOperation (h : w.connect r v = .ok ops) : Payload.isOperation ops = true := by
  obtain ⟨_, _, _, rfl⟩ := connect_guarded h
  rfl

/-! ## Members -/

theorem Member.given (h : w.Member T kind e item key v) :
    (key, v) ∈ item ∨ (e.relation? key).isSome = true := by
  cases h with
  | kept hm => exact .inl hm
  | nested _ hr => exact .inr (by rw [hr]; rfl)
  | linked _ _ _ hr | cut _ _ hr => exact .inr (Entity.relation?_of_foreign hr)

theorem Member.turned (h : w.Member T kind e item key v) : (key, v) ∈ item ∨ Payload.Turned v := by
  cases h with
  | kept hm => exact .inl hm
  | nested _ _ _ hops => exact .inr hops
  | linked _ _ _ _ hc => exact .inr (.inr (connect_isOperation hc))
  | cut => exact .inr (.inr rfl)

theorem Member.nest (h : w.Member T kind e item key v) (hr : e.relation? key = some r)
    (hv : v.nests = true) (hy : Yields T r v ops) : w.Member T kind e item key ops := by
  rcases hy with ⟨_, rfl⟩ | ⟨hno, ht, hops⟩
  · exact h
  · rcases h.turned with hm | hturned
    · exact .nested hm hr ht hops hv
    · rw [hturned.isOperation hv] at hno
      cases hno

theorem Member.key_mem (h : w.Member T .prepared e item key v) : key ∈ item.keys := by
  cases h with
  | kept hm | nested hm => exact List.mem_map_of_mem hm
  | linked hk => exact absurd rfl hk
  | cut hk => cases hk

/-- What a prepared member is found in, it is found in without other fields, too. -/
theorem Member.without {dropped : List String} (h : w.Member T .prepared e item key v)
    (hkey : key ∉ dropped) : w.Member T .prepared e (item.without dropped) key v := by
  cases h with
  | kept hm => exact .kept (Object.mem_without_iff.mpr ⟨hm, hkey⟩)
  | nested hm hr ht hops hv => exact .nested (Object.mem_without_iff.mpr ⟨hm, hkey⟩) hr ht hops hv
  | linked hk => exact absurd rfl hk
  | cut hk => cases hk

theorem Member.prepared (h : w.Member T .prepared e item key v) : w.Member T kind e item key v := by
  cases h with
  | kept hm => exact .kept hm
  | nested hm hr ht hops hv => exact .nested hm hr ht hops hv
  | linked hk => exact absurd rfl hk
  | cut hk => cases hk

/-- Links are made from a prepared body as from the item itself. -/
theorem Member.trans (h : w.Member (fun _ _ _ => False) kind e body key v)
    (hb : ∀ kv ∈ body, w.Member T .prepared e item kv.1 kv.2) : w.Member T kind e item key v := by
  have hkeys : ∀ {field}, field ∈ body.keys → field ∈ item.keys := by
    intro field hf
    obtain ⟨kv, hkv, rfl⟩ := List.mem_map.mp hf
    exact (hb kv hkv).key_mem
  cases h with
  | kept hm => exact (hb _ hm).prepared
  | nested _ _ ht => exact ht.elim
  | linked hk hf hv hr hc =>
      refine .linked hk (hkeys hf) ?_ hr hc
      rcases hv with hv | hrel
      · exact (hb _ hv).given
      · exact .inr hrel
  | cut hk hf hr => exact .cut hk (hkeys hf) hr

/-! ## Steps -/

theorem Treats.step {kept : Prop} {nest : Relation → Value → Value → Prop}
    (h : w.Treats kind kept nest e key v body next) (hn : ∀ r ops, nest r v ops → Yields T r v ops)
    (hkept : kept → A → e.relation? key = none ∨ v.nests = false ∨ Payload.isOperation v = true) :
    w.Step T kind e A key v body next := by
  cases h with
  | kept h => exact .same (hkept h)
  | nested hr hv hnest => exact .nested hr hv (hn _ _ hnest)
  | erased => exact .erased
  | linked hk hr hv hc => exact .linked hk hr hv hc
  | cut hk hr => exact .cut hk hr

theorem KeptOnTop.flat (h : KeptOnTop e key v) (ha : e.Apart) :
    e.relation? key = none ∨ v.nests = false ∨ Payload.isOperation v = true := by
  rcases h with ⟨hscalar, _⟩ | ⟨_, _, habsent⟩
  · exact .inl (ha.relation?_eq_none hscalar)
  · exact .inr (.inl (by rw [Value.nests, habsent, Bool.false_and]))

theorem Step.nodup (h : w.Step T kind e A key v body next) (hn : body.keys.Nodup) : next.keys.Nodup := by
  have herase : (Object.erase key body).keys.Nodup := Object.nodup_keys_erase hn
  cases h with
  | same => exact hn
  | erased => exact herase
  | nested => exact Object.nodup_keys_set hn
  | linked | cut => exact Object.nodup_keys_set herase

theorem Step.member (h : w.Step T kind e A key v body next) (hk : key ∈ item.keys)
    (hv : v ≠ .null → w.Member T kind e item key v)
    (hb : ∀ kv ∈ body, w.Member T kind e item kv.1 kv.2) :
    ∀ kv ∈ next, w.Member T kind e item kv.1 kv.2 := by
  intro kv hkv
  cases h with
  | same => exact hb kv hkv
  | erased => exact hb kv (Object.mem_of_mem_erase hkv)
  | nested hr hnests hy =>
      rcases Object.mem_of_mem_set hkv with rfl | hkv
      · exact (hv (by rintro rfl; cases hnests)).nest hr hnests hy
      · exact hb kv hkv
  | linked hkind hr hne hc =>
      rcases Object.mem_of_mem_set hkv with rfl | hkv
      · exact .linked hkind hk (hv hne).given hr hc
      · exact hb kv (Object.mem_of_mem_erase hkv)
  | cut hkind hr =>
      rcases Object.mem_of_mem_set hkv with rfl | hkv
      · exact .cut hkind hk hr
      · exact hb kv (Object.mem_of_mem_erase hkv)

theorem Step.left (h : w.Step T kind e A key v body next) (hn : body.keys.Nodup) (hkv : kv ∈ next)
    (hr : (e.relation? kv.1).isSome = true) (hnests : kv.2.nests = true)
    (hno : Payload.isOperation kv.2 = false) : kv ∈ body ∧ (A → kv ≠ (key, v)) := by
  have herased : kv ∈ Object.erase key body → kv ∈ body ∧ (A → kv ≠ (key, v)) := fun hkv =>
    ⟨Object.mem_of_mem_erase hkv, fun _ he => Object.ne_of_mem_erase hn hkv (congrArg Prod.fst he)⟩
  cases h with
  | same hsame =>
      refine ⟨hkv, fun ha he => ?_⟩
      subst he
      rcases hsame ha with hnone | hflat | hop
      · rw [hnone] at hr; cases hr
      · rw [hflat] at hnests; cases hnests
      · rw [hop] at hno; cases hno
  | erased => exact herased hkv
  | nested hr' hv hy =>
      rcases Object.eq_or_ne_of_mem_set hn hkv with rfl | ⟨hne, hkv⟩
      · rw [hy.isOperation hnests] at hno; cases hno
      · exact ⟨hkv, fun _ he => hne (congrArg Prod.fst he)⟩
  | linked _ hr' hne hc =>
      rcases Object.mem_of_mem_set hkv with rfl | hkv
      · rw [connect_isOperation hc] at hno; cases hno
      · exact herased hkv
  | cut _ hr' =>
      rcases Object.mem_of_mem_set hkv with rfl | hkv
      · cases hno
      · exact herased hkv

/-! ## Bodies -/

/-- A loop of steps on the members of an item. -/
theorem drawn_of_steps {α : Type} (keyOf : α → String) (valueOf : Object → α → Value)
    {f : Object → α → Except Failure Object} {steps : List α} (hA : A → item.keys.Nodup)
    (hkeys : steps.map keyOf = item.keys)
    (hvalue : ∀ {a body}, a ∈ steps → valueOf body a ≠ .null →
      (keyOf a, valueOf body a) ∈ item ∨ (keyOf a, valueOf body a) ∈ body)
    (hself : ∀ {a body kv}, a ∈ steps → A → body.keys.Nodup → kv ∈ item → kv ∈ body →
      kv.1 = keyOf a → kv.2 = valueOf body a)
    (hf : ∀ {a body next}, a ∈ steps → f body a = .ok next →
      w.Step T kind e A (keyOf a) (valueOf body a) body next)
    (h : steps.foldlM f item = .ok body) : w.Drawn T kind e A item body := by
  have hmember : ∀ {a result next}, a ∈ steps →
      (∀ kv ∈ result, w.Member T kind e item kv.1 kv.2) → f result a = .ok next →
      ∀ kv ∈ next, w.Member T kind e item kv.1 kv.2 := by
    intro a result next ha hall hstep
    refine (hf ha hstep).member ?_ (fun hne => ?_) hall
    · rw [← hkeys]; exact List.mem_map_of_mem ha
    · rcases hvalue ha hne with hm | hm
      · exact .kept hm
      · exact hall _ hm
  refine ⟨foldlM_ok_kept hmember (fun kv hkv => .kept hkv) h, fun ha => ?_, fun ha kv hkv hr hnests => ?_⟩
  · exact foldlM_ok_kept (fun hin hi hstep => (hf hin hstep).nodup hi) (hA ha) h
  · by_contra hop
    have hno : Payload.isOperation kv.2 = false := by simpa using hop
    -- what is left to be turned was given, so the step on its key is still to come
    have hleft := foldlM_ok_invariant
      (I := fun rest result => result.keys.Nodup ∧
        (∀ kv ∈ result, w.Member T kind e item kv.1 kv.2) ∧ (kv ∈ result → kv.1 ∈ rest.map keyOf))
      (fun {a rest result next} hin hi hstep => ?_)
      ⟨hA ha, fun kv hkv => .kept hkv, fun hkv => ?_⟩ h
    · exact absurd (hleft.2.2 hkv) List.not_mem_nil
    · obtain ⟨hnodup, hall, hrest⟩ := hi
      have hs := hf hin hstep
      refine ⟨hs.nodup hnodup, hmember hin hall hstep, fun hnext => ?_⟩
      obtain ⟨hbody, hne⟩ := hs.left hnodup hnext hr hnests hno
      rcases List.mem_cons.mp (hrest hbody) with hkey | hlater
      · have hgiven : kv ∈ item := by
          rcases (hall kv hbody).turned with hm | hturned
          · exact hm
          · rw [hturned.isOperation hnests] at hno; cases hno
        exact absurd (Prod.ext hkey (hself hin ha hnodup hgiven hbody hkey)) (hne ha)
      · exact hlater
    · rw [hkeys]; exact List.mem_map_of_mem hkv

theorem drawn_of_keys {f : Object → String → Except Failure Object} (hA : A → item.keys.Nodup)
    (hf : ∀ {key body next}, f body key = .ok next → w.Step T kind e A key (body.get key) body next)
    (h : item.keys.foldlM f item = .ok body) : w.Drawn T kind e A item body := by
  refine drawn_of_steps (fun key => key) (fun body key => body.get key) hA (List.map_id _)
    (fun _ hne => .inr (Object.mem_of_get_ne_null hne)) ?_ (fun _ => hf) h
  rintro key body ⟨name, v⟩ _ _ hn _ hkv rfl
  rw [Object.get, Object.get?_of_mem hn hkv]
  rfl

theorem drawn_of_members {f : Object → String × Value → Except Failure Object} (hA : A → item.keys.Nodup)
    (hf : ∀ {kv body next}, kv ∈ item → f body kv = .ok next →
      w.Step T kind e A kv.1 kv.2 body next)
    (h : item.foldlM f item = .ok body) : w.Drawn T kind e A item body := by
  refine drawn_of_steps Prod.fst (fun _ kv => kv.2) hA rfl
    (fun hin _ => .inl hin) ?_ hf h
  intro given body kv hin ha _ hkv _ hkey
  exact Object.value_unique (hA ha) hkv (hkey ▸ hin)

/-- A field that is left out afterwards might as well not have been given. -/
theorem Drawn.without {dropped : List String} (h : w.Drawn T .prepared e A item body) :
    w.Drawn T .prepared e A (item.without dropped) (body.without dropped) where
  member kv hkv :=
    have hin := Object.mem_without_iff.mp hkv
    (h.member kv hin.1).without hin.2
  nodup ha := Object.nodup_keys_without (h.nodup ha)
  turned ha kv hkv := h.turned ha kv (Object.mem_of_mem_without hkv)

theorem Drawn.trans {out : Object} (h : w.Drawn T .prepared e A item body)
    (hout : w.Drawn (fun _ _ _ => False) kind e A body out) : w.Drawn T kind e A item out where
  member kv hkv := (hout.member kv hkv).trans h.member
  nodup := hout.nodup
  turned := hout.turned

theorem linkForeignKeys_drawn {entity : String} {updating : Bool} {out : Object}
    (he : w.view.schema.entity entity = .ok e) (hkind : kind = if updating then .changed else .created)
    (h : w.Drawn T .prepared e A item body) (hl : w.linkForeignKeys entity updating body = .ok out) :
    w.Drawn T kind e A item out := by
  obtain ⟨f, hl, hf⟩ := linkForeignKeys_treats he hl
  refine h.trans (drawn_of_members h.nodup (fun {kv _ _} hin hstep => ?_) hl)
  rw [hkind]
  refine (hf _ _ _ hstep).step (fun _ _ hno => hno.elim) fun _ ha => ?_
  by_contra hleft
  simp only [not_or, Bool.not_eq_false, Option.ne_none_iff_isSome] at hleft
  exact hleft.2.2 (h.turned ha _ hin hleft.1 hleft.2.1)

end Writer

end RecordGraph
