import RecordGraph.Proofs.Mutation.Stability
import RecordGraph.Proofs.Schema.Roles
import RecordGraph.Proofs.Value.Reordering

/-!
# The outcome of a loop

A body is worked out in a loop that writes under other keys than the one it is at: a foreign key writes under its
relation, before the loop gets there or after. What a key ends up with is told here by the item that the loop started
from alone. A foreign key prevails over the value of its relation, wherever the two stand.
-/

namespace RecordGraph

namespace Object

variable {o : Object} {key : String}

theorem get?_erase_self (hn : o.keys.Nodup) : get? key (erase key o) = none := by
  rw [get?_eq_none_iff]
  intro hkey
  obtain ⟨kv, hkv, rfl⟩ := List.mem_map.mp hkey
  exact ne_of_mem_erase hn hkv rfl

theorem get_eq_of_get? {o' : Object} (h : get? key o = get? key o') : o.get key = o'.get key := by
  rw [get, get, h]

end Object

namespace Writer

/-! ## Steps -/

section
variable (w : Writer) (updating : Bool) (nest : Relation → Value → Option Value → Prop) (role : String → Role)

/-- What a foreign key of a value writes under its relation, if anything. -/
inductive Links (r : Relation) : Value → Option Value → Prop
  | connect {v ops} (hv : v ≠ .null) (hc : w.connect r v = .ok ops) : Links r v (some ops)
  | cut (hu : updating = true) : Links r .null (some (.object [("disconnect", .bool true)]))
  | drop (hu : updating = false) : Links r .null none

/-- What a step does to a body, by what its key stands for. -/
inductive Acts (key : String) (v : Value) (body : Object) : Object → Prop
  | kept (h : role key = .plain ∨ ∃ r, role key = .relation r ∧ v.nests = false) : Acts key v body body
  | nested {r ops} (hr : role key = .relation r) (hv : v.nests = true) (hn : nest r v (some ops)) :
      Acts key v body (Object.set key ops body)
  | emptied {r} (hr : role key = .relation r) (hv : v.nests = true) (hn : nest r v none) :
      Acts key v body (Object.erase key body)
  | linked {r ops} (hr : role key = .foreign r) (hl : w.Links updating r v (some ops)) :
      Acts key v body (Object.set r.name ops (Object.erase key body))
  | unlinked {r} (hr : role key = .foreign r) (hl : w.Links updating r v none) :
      Acts key v body (Object.erase key body)

/-- What a key ends up with by what it stands for. -/
inductive Own (item : Object) (key : String) : Option Value → Prop
  | kept (h : role key = .plain ∨ ∃ r, role key = .relation r ∧ (item.get key).nests = false) :
      Own item key (Object.get? key item)
  | nested {r o} (hr : role key = .relation r) (hv : (item.get key).nests = true) (hn : nest r (item.get key) o) :
      Own item key o
  | foreign {r} (hr : role key = .foreign r) : Own item key none

/-- What is found under a key when the steps on some keys are done. -/
inductive Found (done : String → Prop) (item : Object) (key : String) : Option Value → Prop
  | linked {field r ops} (hd : done field) (hr : role field = .foreign r) (hname : r.name = key)
      (hl : w.Links updating r (item.get field) (some ops)) : Found done item key (some ops)
  | own {o} (hno : ∀ field r, done field → role field = .foreign r → r.name = key →
        w.Links updating r (item.get field) none)
      (hdone : done key → Own nest role item key o) (hleft : ¬ done key → o = Object.get? key item) :
      Found done item key o

/-- What a key ends up with when all steps are done. -/
def Ends (item : Object) (key : String) (o : Option Value) : Prop :=
  w.Found updating nest role (· ∈ item.keys) item key o

end

variable {w : Writer} {updating : Bool} {nest : Relation → Value → Option Value → Prop} {role : String → Role}
  {item body next out : Object} {key : String} {r : Relation} {v : Value} {o : Option Value}

theorem Links.operation {ops : Value} (h : w.Links updating r v (some ops)) : Payload.isOperation ops = true := by
  cases h with
  | connect _ hc =>
      obtain ⟨_, _, _, rfl⟩ := connect_guarded hc
      rfl
  | cut => rfl

theorem Found.mono {done done' : String → Prop} {at_ : String} (hd : ∀ k, done' k ↔ done k ∨ k = at_) (hne : key ≠ at_)
    (hlink : ∀ r, role at_ = .foreign r → r.name = key → w.Links updating r (item.get at_) none)
    (h : w.Found updating nest role done item key o) : w.Found updating nest role done' item key o := by
  cases h with
  | linked hf hr hname hl => exact .linked ((hd _).mpr (.inl hf)) hr hname hl
  | own hno hdone hleft =>
      refine .own (fun field r hf hr hname => ?_) (fun hk => hdone ?_) fun hk => hleft fun hk' => ?_
      · rcases (hd field).mp hf with hf | rfl
        · exact hno field r hf hr hname
        · exact hlink r hr hname
      · exact ((hd key).mp hk).resolve_right hne
      · exact hk ((hd key).mpr (.inl hk'))

/-- Until the loop gets to a key, it finds what was given there, or operations that a foreign key wrote. -/
theorem Found.before {done : String → Prop} (h : w.Found updating nest role done item key o) (hk : ¬ done key) :
    (∃ field r ops, done field ∧ role field = .foreign r ∧ r.name = key ∧
        w.Links updating r (item.get field) (some ops) ∧ o = some ops) ∨
      o = Object.get? key item ∧ ∀ field r, done field → role field = .foreign r → r.name = key →
        w.Links updating r (item.get field) none := by
  cases h with
  | linked hf hr hname hl => exact .inl ⟨_, _, _, hf, hr, hname, hl, rfl⟩
  | own hno _ hleft => exact .inr ⟨hleft hk, hno⟩

section
variable {done done' : String → Prop} {at_ : String} (hd : ∀ k, done' k ↔ done k ∨ k = at_)
include hd

/-- What is found under other keys changes only where the key is a foreign one. -/
theorem Acts.elsewhere (hne : key ≠ at_) (hgiven : ∀ r, role at_ = .foreign r → v = item.get at_)
    (hfound : w.Found updating nest role done item key (Object.get? key body))
    (h : w.Acts updating nest role at_ v body next) :
    w.Found updating nest role done' item key (Object.get? key next) := by
  have hplain : (∀ r, role at_ ≠ .foreign r) → w.Found updating nest role done' item key (Object.get? key body) :=
    fun hno => hfound.mono hd hne fun r hr => absurd hr (hno r)
  cases h with
  | kept h =>
      refine hplain fun r hr => ?_
      rcases h with h | ⟨_, h, _⟩ <;> rw [hr] at h <;> cases h
  | nested hr =>
      rw [Object.get?_set_of_ne hne.symm]
      exact hplain (Role.not_foreign hr)
  | emptied hr =>
      rw [Object.get?_erase_of_ne hne.symm]
      exact hplain (Role.not_foreign hr)
  | @linked r ops hr hl =>
      rw [hgiven r hr] at hl
      by_cases hname : key = r.name
      · subst hname
        rw [Object.get?_set_self]
        exact .linked ((hd at_).mpr (.inr rfl)) hr rfl hl
      · rw [Object.get?_set_of_ne fun he => hname he.symm, Object.get?_erase_of_ne hne.symm]
        refine hfound.mono hd hne fun r' hr' hname' => ?_
        rw [hr] at hr'
        cases hr'
        exact absurd hname'.symm hname
  | @unlinked r hr hl =>
      rw [hgiven r hr] at hl
      rw [Object.get?_erase_of_ne hne.symm]
      refine hfound.mono hd hne fun r' hr' _ => ?_
      rw [hr] at hr'
      cases hr'
      exact hl

variable (ha : Role.Apart role)
include ha

/-- Under its own key a step leaves what the key is to end up with, or what a foreign key wrote there before. -/
theorem Acts.here (hops : ∀ r v o, Payload.isOperation v = true → nest r v o → o = some v) (hn : body.keys.Nodup)
    (hleft : ¬ done at_) (hv : v = body.get at_)
    (hfound : w.Found updating nest role done item at_ (Object.get? at_ body))
    (h : w.Acts updating nest role at_ v body next) :
    w.Found updating nest role done' item at_ (Object.get? at_ next) := by
  have hdone : done' at_ := (hd at_).mpr (.inr rfl)
  have hself : ∀ {r field r'}, role at_ = .foreign r → role field = .foreign r' → r'.name = at_ → field = at_ :=
    fun hr hr' hname => (ha.named hr' (hname ▸ hr)).symm.trans hname
  have herased : Object.get? at_ (Object.erase at_ body) = none := Object.get?_erase_self hn
  rcases hfound.before hleft with ⟨field, r', ops', hf, hr', hname, hl, ho⟩ | ⟨hgiven, hlinks⟩
  · -- a foreign key wrote operations there, which are taken as they are
    have hlinked : w.Found updating nest role done' item at_ (some ops') :=
      .linked ((hd field).mpr (.inl hf)) hr' hname hl
    have hvalue : v = ops' := by rw [hv, Object.get, ho]; rfl
    have hnest : ∀ {r o}, nest r v o → o = some ops' := fun h => hvalue ▸ hops _ _ _ (hvalue ▸ hl.operation) h
    cases h with
    | kept => exact ho ▸ hlinked
    | nested _ _ h =>
        rw [Object.get?_set_self, hnest h]
        exact hlinked
    | emptied _ _ h => cases hnest h
    | linked hr | unlinked hr => exact absurd (hself hr hr' hname ▸ hf) hleft
  · have hvalue : v = item.get at_ := hv.trans (Object.get_eq_of_get? hgiven)
    subst hvalue
    have hown : ∀ {o}, (∀ r, role at_ ≠ .foreign r) → Own nest role item at_ o →
        w.Found updating nest role done' item at_ o := by
      refine fun hplain ho => .own (fun field r hf hr hname => ?_) (fun _ => ho) fun hk => absurd hdone hk
      rcases (hd field).mp hf with hf | rfl
      · exact hlinks field r hf hr hname
      · exact absurd hr (hplain r)
    have hforeign : ∀ {r}, role at_ = .foreign r → (r.name = at_ → w.Links updating r (item.get at_) none) →
        w.Found updating nest role done' item at_ none := by
      refine fun hr hnone => .own (fun field r' _ hr' hname => ?_) (fun _ => .foreign hr) fun hk => absurd hdone hk
      obtain rfl := hself hr hr' hname
      rw [hr] at hr'
      cases hr'
      exact hnone hname
    cases h with
    | kept h =>
        rw [hgiven]
        refine hown (fun r hr => ?_) (.kept h)
        rcases h with h | ⟨_, h, _⟩ <;> rw [hr] at h <;> cases h
    | nested hr hnests h =>
        rw [Object.get?_set_self]
        exact hown (Role.not_foreign hr) (.nested hr hnests h)
    | emptied hr hnests h =>
        rw [herased]
        exact hown (Role.not_foreign hr) (.nested hr hnests h)
    | @linked r ops hr hl =>
        by_cases hname : r.name = at_
        · rw [hname, Object.get?_set_self]
          exact .linked hdone hr hname hl
        · rw [Object.get?_set_of_ne hname, herased]
          exact hforeign hr fun he => absurd he hname
    | unlinked hr hl =>
        rw [herased]
        exact hforeign hr fun _ => hl

/-- A step on a key brings about what is found when it is done. The value that it works on is the one that stands in
the body, or the one that was given for a key that no other key writes under. -/
theorem Acts.found (hops : ∀ r v o, Payload.isOperation v = true → nest r v o → o = some v) (hn : body.keys.Nodup)
    (hleft : ¬ done at_)
    (hv : v = body.get at_ ∨ v = item.get at_ ∧ ∀ field r, role field = .foreign r → r.name = at_ → field = at_)
    (hfound : ∀ k, w.Found updating nest role done item k (Object.get? k body))
    (h : w.Acts updating nest role at_ v body next) :
    ∀ k, w.Found updating nest role done' item k (Object.get? k next) := by
  have hgiven : (∀ field r, role field = .foreign r → r.name = at_ → field = at_) → item.get at_ = body.get at_ := by
    intro hfixed
    rcases (hfound at_).before hleft with ⟨field, r, _, hf, hr, hname, _⟩ | ⟨hgiven, _⟩
    · exact absurd (hfixed field r hr hname ▸ hf) hleft
    · exact (Object.get_eq_of_get? hgiven).symm
  have hcurrent : v = body.get at_ := hv.elim id fun hv => hv.1.trans (hgiven hv.2)
  have hforeign : ∀ r, role at_ = .foreign r → v = item.get at_ := fun r hr =>
    hcurrent.trans (hgiven fun field r' hr' hname => (ha.named hr' (hname ▸ hr)).symm.trans hname).symm
  intro k
  by_cases hk : k = at_
  · subst hk
    exact h.here hd ha hops hn hleft hcurrent (hfound k)
  · exact h.elsewhere hd hk hforeign (hfound k)

end

theorem Acts.nodup (hn : body.keys.Nodup) (h : w.Acts updating nest role key v body next) : next.keys.Nodup := by
  have herase : (Object.erase key body).keys.Nodup := Object.nodup_keys_erase hn
  cases h with
  | kept => exact hn
  | nested => exact Object.nodup_keys_set hn
  | linked => exact Object.nodup_keys_set herase
  | emptied | unlinked => exact herase

/-- What a loop ends with. -/
theorem ends_of_steps {α : Type} (keyOf : α → String) {f : Object → α → Except Failure Object} {steps : List α}
    (ha : Role.Apart role) (hops : ∀ r v o, Payload.isOperation v = true → nest r v o → o = some v)
    (hn : item.keys.Nodup) (hkeys : steps.map keyOf = item.keys)
    (hf : ∀ {a body next}, a ∈ steps → f body a = .ok next → ∃ v, w.Acts updating nest role (keyOf a) v body next ∧
      (v = body.get (keyOf a) ∨
        v = item.get (keyOf a) ∧ ∀ field r, role field = .foreign r → r.name = keyOf a → field = keyOf a))
    (h : steps.foldlM f item = .ok out) :
    out.keys.Nodup ∧ ∀ key, w.Ends updating nest role item key (Object.get? key out) := by
  have hlast := foldlM_ok_invariant
    (I := fun rest body => body.keys.Nodup ∧ (rest.map keyOf).Nodup ∧ rest.map keyOf ⊆ item.keys ∧
      ∀ key, w.Found updating nest role (fun k => k ∈ item.keys ∧ k ∉ rest.map keyOf) item key (Object.get? key body))
    (fun {a rest body next} hin hi hstep => ?_) ⟨hn, hkeys ▸ hn, fun k hk => hkeys ▸ hk, fun key => ?_⟩ h
  · obtain ⟨hnodup, _, _, hfound⟩ := hlast
    refine ⟨hnodup, fun key => ?_⟩
    have hall : (fun k => k ∈ item.keys ∧ k ∉ ([] : List α).map keyOf) = (· ∈ item.keys) := by
      funext k
      simp
    rw [Ends, ← hall]
    exact hfound key
  · obtain ⟨hnodup, hrest, hsub, hfound⟩ := hi
    obtain ⟨v, hacts, hv⟩ := hf hin hstep
    obtain ⟨hnot, hrest⟩ := List.nodup_cons.mp hrest
    obtain ⟨hmem, hsub⟩ := List.cons_subset.mp hsub
    refine ⟨hacts.nodup hnodup, hrest, hsub, hacts.found (fun k => ?_) ha hops hnodup ?_ hv hfound⟩
    · by_cases hk : k = keyOf a
      · subst hk
        exact ⟨fun _ => .inr rfl, fun _ => ⟨hmem, hnot⟩⟩
      · simp only [List.map_cons, List.mem_cons, hk, false_or, or_false]
    · exact fun h => h.2 List.mem_cons_self
  · refine .own (fun field r hd => ?_) (fun hd => ?_) fun _ => rfl
    · exact absurd (hkeys ▸ hd.1) hd.2
    · exact absurd (hkeys ▸ hd.1) hd.2

/-- What a loop over the members ends with, if no foreign key stands for a relation that the loop turns. -/
theorem ends_of_members {f : Object → String × Value → Except Failure Object} (ha : Role.Apart role)
    (hops : ∀ r v o, Payload.isOperation v = true → nest r v o → o = some v) (hn : item.keys.Nodup)
    (hfixed : ∀ {key r field r'}, role key = .relation r → role field = .foreign r' → r'.name ≠ key)
    (hf : ∀ {kv body next}, f body kv = .ok next → w.Acts updating nest role kv.1 kv.2 body next)
    (h : item.foldlM f item = .ok out) :
    out.keys.Nodup ∧ ∀ key, w.Ends updating nest role item key (Object.get? key out) := by
  refine ends_of_steps Prod.fst ha hops hn rfl (fun {kv body next} hkv hstep => ?_) h
  have hv : kv.2 = item.get kv.1 := (Object.get_of_mem hn hkv).symm
  have hacts := hf hstep
  cases hrole : role kv.1 with
  | plain =>
      refine ⟨body.get kv.1, ?_, .inl rfl⟩
      cases hacts with
      | kept h => exact .kept (.inl hrole)
      | nested hr | emptied hr | linked hr | unlinked hr => rw [hrole] at hr; cases hr
  | relation r => exact ⟨kv.2, hacts, .inr ⟨hv, fun field r' hr' hname => absurd hname (hfixed hrole hr')⟩⟩
  | foreign r =>
      exact ⟨kv.2, hacts, .inr ⟨hv, fun field r' hr' hname => (ha.named hr' (hname ▸ hrole)).symm.trans hname⟩⟩

/-- What no step writes is left alone. -/
theorem Acts.keeps {at_ : String} (hrole : role key = .plain) (hname : ∀ r, role at_ = .foreign r → r.name ≠ key)
    (h : w.Acts updating nest role at_ v body next) : Object.get? key next = Object.get? key body := by
  by_cases hk : at_ = key
  · subst hk
    cases h with
    | kept => rfl
    | nested hr | emptied hr | linked hr | unlinked hr => rw [hrole] at hr; cases hr
  · cases h with
    | kept => rfl
    | nested => exact Object.get?_set_of_ne hk _ _
    | emptied | unlinked => exact Object.get?_erase_of_ne hk _
    | linked hr => rw [Object.get?_set_of_ne (hname _ hr), Object.get?_erase_of_ne hk]

theorem keeps_of_members {f : Object → String × Value → Except Failure Object} (hrole : role key = .plain)
    (hname : ∀ field ∈ item.keys, ∀ r, role field = .foreign r → r.name ≠ key)
    (hf : ∀ {kv body next}, f body kv = .ok next → w.Acts updating nest role kv.1 kv.2 body next)
    (h : item.foldlM f item = .ok out) : Object.get? key out = Object.get? key item :=
  foldlM_ok_kept (I := fun body => Object.get? key body = Object.get? key item)
    (fun hin hi hstep => ((hf hstep).keeps hrole (hname _ (List.mem_map_of_mem hin))).trans hi) rfl h

/-- A foreign key that is given prevails, whatever is given for its relation. -/
theorem Ends.connected (ha : Role.Apart role) {field : String} (hf : field ∈ item.keys) (hr : role field = .foreign r)
    (hne : item.get field ≠ .null) (h : w.Ends updating nest role item r.name o) :
    ∃ ops, w.connect r (item.get field) = .ok ops ∧ o = some ops := by
  have hconnects : ∀ {o}, w.Links updating r (item.get field) o → ∃ ops, w.connect r (item.get field) = .ok ops ∧
      o = some ops := by
    intro o hl
    cases hl' : item.get field with
    | null => exact absurd hl' hne
    | _ =>
        rw [hl'] at hl
        cases hl with
        | connect _ hc => exact ⟨_, hc, rfl⟩
  cases h with
  | linked _ hr' hname hl =>
      obtain rfl := ha.single hr' hr hname
      rw [hr] at hr'
      cases hr'
      exact hconnects hl
  | own hno =>
      obtain ⟨_, _, hnone⟩ := hconnects (hno field r hf hr rfl)
      cases hnone

/-- Where no foreign key writes under a key, it ends up with its own. -/
theorem Ends.owned (hno : ∀ field ∈ item.keys, ∀ r, role field = .foreign r → r.name ≠ key) (hk : key ∈ item.keys)
    (h : w.Ends updating nest role item key o) : Own nest role item key o := by
  cases h with
  | linked hf hr hname => exact absurd hname (hno _ hf _ hr)
  | own _ hdone => exact hdone hk

theorem Own.turned (hr : role key = .relation r) (hv : (item.get key).nests = true) (h : Own nest role item key o) :
    nest r (item.get key) o := by
  cases h with
  | kept h =>
      rcases h with h | ⟨_, _, hflat⟩
      · rw [hr] at h; cases h
      · rw [hv] at hflat; cases hflat
  | nested hr' _ h =>
      rw [hr] at hr'
      cases hr'
      exact h
  | foreign hr' => rw [hr] at hr'; cases hr'

/-- A key that is no relation and holds none of a relation is left alone. -/
theorem Ends.kept (hrole : role key = .plain) (hname : ∀ field ∈ item.keys, ∀ r, role field = .foreign r → r.name ≠ key)
    (h : w.Ends updating nest role item key o) : o = Object.get? key item := by
  by_cases hk : key ∈ item.keys
  · cases h.owned hname hk with
    | kept => rfl
    | nested hr | foreign hr => rw [hrole] at hr; cases hr
  · cases h with
    | linked hf hr hname' => exact absurd hname' (hname _ hf _ hr)
    | own _ _ hleft => exact hleft hk

/-! ## The loops -/

/-- What a nesting makes of the value of a relation, at whatever path. -/
def Nesting.Gives (nesting : Nesting) (r : Relation) (v : Value) (o : Option Value) : Prop :=
  ∃ path ops, nesting r v path = .ok ops ∧ o = some ops

def UpdateNesting.Gives (nesting : UpdateNesting) (r : Relation) (v : Value) (o : Option Value) : Prop :=
  nesting r v = .ok o

variable {e : Entity} {entity path : String} {levels : Nat} {parent : Value}

theorem createMember_acts {nesting : Nesting} (h : w.createMember nesting e path body key = .ok next) :
    w.Acts false nesting.Gives e.createRole key (body.get key) body next := by
  unfold createMember at h
  dsimp only at h
  split at h
  next r hr =>
    have hrole := Entity.createRole_of_some hr
    split at h
    next hnull => exact pure_ok_iff.mp h ▸ .unlinked hrole (hnull ▸ .drop rfl)
    next hne =>
      obtain ⟨ops, hc, h⟩ := bind_ok_iff.mp h
      exact pure_ok_iff.mp h ▸ .linked hrole (.connect hne hc)
  next hf =>
    have hrole := Entity.createRole_of_none hf
    split at h
    next r hr =>
      rw [Entity.relationRole_of_some hr] at hrole
      split at h
      next hv =>
        obtain ⟨ops, hops, h⟩ := bind_ok_iff.mp h
        exact pure_ok_iff.mp h ▸ .nested hrole hv ⟨_, _, hops, rfl⟩
      next hv => exact pure_ok_iff.mp h ▸ .kept (.inr ⟨r, hrole, Bool.eq_false_iff.mpr hv⟩)
    next hr =>
      rw [Entity.relationRole_of_none hr] at hrole
      exact pure_ok_iff.mp h ▸ .kept (.inl hrole)

theorem createTopMember_acts (h : w.createTopMember e body key = .ok next) :
    w.Acts false (w.createNested w.levels).Gives e.topRole key (body.get key) body next := by
  unfold createTopMember at h
  dsimp only at h
  split at h
  next hfield =>
    have hrole : e.topRole key = e.relationRole key := if_pos hfield
    split at h
    next => cases h
    next r hr =>
      rw [Entity.relationRole_of_some hr] at hrole
      split at h
      next hv =>
        obtain ⟨ops, hops, h⟩ := bind_ok_iff.mp h
        exact pure_ok_iff.mp h ▸ .nested hrole (createNested_nests hv hops) ⟨_, _, hops, rfl⟩
      next hv =>
        refine pure_ok_iff.mp h ▸ .kept (.inr ⟨r, hrole, ?_⟩)
        rw [Value.nests, Bool.eq_false_iff.mpr hv, Bool.false_and]
  next hfield =>
    have hrole : e.topRole key = e.foreignRole key := if_neg hfield
    split at h
    next hf => exact pure_ok_iff.mp h ▸ .kept (.inl (hrole.trans (Entity.foreignRole_of_none hf)))
    next r hr =>
      rw [Entity.foreignRole_of_some hr] at hrole
      split at h
      next hnull => exact pure_ok_iff.mp h ▸ .unlinked hrole (hnull ▸ .drop rfl)
      next hne =>
        obtain ⟨ops, hc, h⟩ := bind_ok_iff.mp h
        exact pure_ok_iff.mp h ▸ .linked hrole (.connect hne hc)

theorem updateTopMember_acts {id : Value} (h : w.updateTopMember e id body key = .ok next) :
    w.Acts true (w.updateNested w.levels id).Gives e.topRole key (body.get key) body next := by
  unfold updateTopMember at h
  dsimp only at h
  split at h
  next hfield =>
    have hrole : e.topRole key = e.relationRole key := if_pos hfield
    split at h
    next => cases h
    next r hr =>
      rw [Entity.relationRole_of_some hr] at hrole
      split at h
      next hv =>
        obtain ⟨o, ho, h⟩ := bind_ok_iff.mp h
        have hnests := updateNested_nests hv ho
        cases o with
        | none => exact pure_ok_iff.mp h ▸ .emptied hrole hnests ho
        | some ops => exact pure_ok_iff.mp h ▸ .nested hrole hnests ho
      next hv =>
        refine pure_ok_iff.mp h ▸ .kept (.inr ⟨r, hrole, ?_⟩)
        rw [Value.nests, Bool.eq_false_iff.mpr hv, Bool.false_and]
  next hfield =>
    have hrole : e.topRole key = e.foreignRole key := if_neg hfield
    split at h
    next hf => exact pure_ok_iff.mp h ▸ .kept (.inl (hrole.trans (Entity.foreignRole_of_none hf)))
    next r hr =>
      rw [Entity.foreignRole_of_some hr] at hrole
      split at h
      next hnull => exact pure_ok_iff.mp h ▸ .linked hrole (hnull ▸ .cut rfl)
      next hne =>
        obtain ⟨ops, hc, h⟩ := bind_ok_iff.mp h
        exact pure_ok_iff.mp h ▸ .linked hrole (.connect hne hc)

/-- The operations that stand for a relation are taken as they are. -/
theorem createNested_gives (h : Payload.isOperation v = true) (hg : (w.createNested levels).Gives r v o) :
    o = some v := by
  obtain ⟨path, ops, hops, rfl⟩ := hg
  cases levels with
  | zero => cases hops
  | succ levels =>
      rw [createNested_operation h] at hops
      rw [Except.ok.inj hops]

theorem updateNested_gives (h : Payload.isOperation v = true) (hg : (w.updateNested levels parent).Gives r v o) :
    o = some v := by
  cases levels with
  | zero => cases hg
  | succ levels =>
      rw [UpdateNesting.Gives, updateNested_operation h] at hg
      exact (Except.ok.inj hg).symm

theorem updateItem_acts {nesting : UpdateNesting} (he : w.view.schema.entity entity = .ok e)
    (h : w.updateItem nesting entity item = .ok out) :
    ∃ f : Object → String × Value → Except Failure Object, item.foldlM f item = .ok out ∧
      ∀ {kv body next}, f body kv = .ok next → w.Acts true nesting.Gives e.relationRole kv.1 kv.2 body next := by
  obtain ⟨e', he', h⟩ := bind_ok_iff.mp h
  rw [entity_unique he he'] at h
  refine ⟨_, h, fun {kv body next} hstep => ?_⟩
  dsimp only at hstep
  split at hstep
  next hr => exact pure_ok_iff.mp hstep ▸ .kept (.inl (Entity.relationRole_of_none hr))
  next r hr =>
    have hrole := Entity.relationRole_of_some hr
    split at hstep
    next hnests =>
      obtain ⟨o, ho, hstep⟩ := bind_ok_iff.mp hstep
      cases o with
      | none => exact pure_ok_iff.mp hstep ▸ .emptied hrole hnests ho
      | some ops => exact pure_ok_iff.mp hstep ▸ .nested hrole hnests ho
    next hflat => exact pure_ok_iff.mp hstep ▸ .kept (.inr ⟨r, hrole, Bool.eq_false_iff.mpr hflat⟩)

theorem linkForeignKeys_acts (he : w.view.schema.entity entity = .ok e)
    (h : w.linkForeignKeys entity updating item = .ok out) :
    ∃ f : Object → String × Value → Except Failure Object, item.foldlM f item = .ok out ∧
      ∀ {kv body next}, f body kv = .ok next →
        w.Acts updating (fun _ _ _ => False) e.foreignRole kv.1 kv.2 body next := by
  obtain ⟨e', he', h⟩ := bind_ok_iff.mp h
  rw [entity_unique he he'] at h
  refine ⟨_, h, fun {kv body next} hstep => ?_⟩
  dsimp only at hstep
  split at hstep
  next hr => exact pure_ok_iff.mp hstep ▸ .kept (.inl (Entity.foreignRole_of_none hr))
  next r hr =>
    have hrole := Entity.foreignRole_of_some hr
    split at hstep
    next hnull =>
      rw [hnull]
      split at hstep
      next hu => exact pure_ok_iff.mp hstep ▸ .linked hrole (.cut hu)
      next hu => exact pure_ok_iff.mp hstep ▸ .unlinked hrole (.drop (Bool.eq_false_iff.mpr hu))
    next hne =>
      obtain ⟨ops, hc, hstep⟩ := bind_ok_iff.mp hstep
      exact pure_ok_iff.mp hstep ▸ .linked hrole (.connect hne hc)

/-- No foreign key is turned while relations are. -/
theorem updateItem_ends (he : w.view.schema.entity entity = .ok e) (hn : item.keys.Nodup)
    (h : w.updateItem (w.updateNested levels parent) entity item = .ok out) :
    out.keys.Nodup ∧
      ∀ key, w.Ends true (w.updateNested levels parent).Gives e.relationRole item key (Object.get? key out) := by
  obtain ⟨f, h, hf⟩ := updateItem_acts he h
  exact ends_of_members Entity.relationRole_apart (fun _ _ _ => updateNested_gives) hn
    (fun _ hr => absurd hr Entity.not_foreign_relationRole) hf h

section
variable (hs : (e.relations.map (·.name)).Nodup) (hu : e.Unchained) (he : w.view.schema.entity entity = .ok e)
  (hn : item.keys.Nodup)
include hs hu he hn

theorem createItem_ends (h : w.createItem (w.createNested levels) entity path item = .ok out) :
    out.keys.Nodup ∧ ∀ key, w.Ends false (w.createNested levels).Gives e.createRole item key (Object.get? key out) := by
  obtain ⟨e', he', h⟩ := bind_ok_iff.mp h
  rw [entity_unique he he'] at h
  exact ends_of_steps (fun key => key) (Entity.roles_apart hs hu Entity.foreign_createRole)
    (fun _ _ _ => createNested_gives) hn (List.map_id _) (fun _ hstep => ⟨_, createMember_acts hstep, .inl rfl⟩) h

theorem linkForeignKeys_ends (h : w.linkForeignKeys entity updating item = .ok out) :
    out.keys.Nodup ∧
      ∀ key, w.Ends updating (fun _ _ _ => False) e.foreignRole item key (Object.get? key out) := by
  obtain ⟨f, h, hf⟩ := linkForeignKeys_acts he h
  have hapart : Role.Apart e.foreignRole := Entity.roles_apart hs hu Entity.foreign_foreignRole
  exact ends_of_members hapart (fun _ _ _ _ hno => hno.elim) hn
    (fun hr => absurd hr Entity.not_relation_foreignRole) hf h

end

section
variable (ha : Role.Apart e.topRole) (he : w.view.schema.entity entity = .ok e) {payload : Object}
  (hn : payload.keys.Nodup)
include ha he hn

theorem create_ends (h : w.create entity payload = .ok out) :
    ∃ omitted, w.view.omitted entity = .ok omitted ∧ out.keys.Nodup ∧ ∀ key,
      w.Ends false (w.createNested w.levels).Gives e.topRole (payload.without (omitted ++ w.auditFields)) key
        (Object.get? key out) := by
  obtain ⟨stripped, hst, h⟩ := bind_ok_iff.mp h
  obtain ⟨e', he', h⟩ := bind_ok_iff.mp h
  rw [entity_unique he he'] at h
  obtain ⟨omitted, ho, hst⟩ := bind_ok_iff.mp hst
  obtain rfl := pure_ok_iff.mp hst
  refine ⟨omitted, ho, ends_of_steps (fun key => key) ha (fun _ _ _ => createNested_gives)
    (Object.nodup_keys_without hn) (List.map_id _) (fun _ hstep => ⟨_, createTopMember_acts hstep, .inl rfl⟩) h⟩

theorem update_ends {id : Value} (h : w.update entity id payload = .ok out) :
    ∃ omitted, w.view.omitted entity = .ok omitted ∧ out.keys.Nodup ∧ ∀ key,
      w.Ends true (w.updateNested w.levels id).Gives e.topRole
        (payload.without (omitted ++ w.auditFields ++ e.keys)) key (Object.get? key out) := by
  obtain ⟨stripped, hst, h⟩ := bind_ok_iff.mp h
  obtain ⟨keys, hkeys, h⟩ := bind_ok_iff.mp h
  obtain ⟨e', he', h⟩ := bind_ok_iff.mp h
  obtain ⟨omitted, ho, hst⟩ := bind_ok_iff.mp hst
  obtain rfl := pure_ok_iff.mp hst
  rw [entity_unique he he', keys_of_entity he hkeys, Object.without_without] at h
  refine ⟨omitted, ho, ends_of_steps (fun key => key) ha (fun _ _ _ => updateNested_gives)
    (Object.nodup_keys_without hn) (List.map_id _) (fun _ hstep => ⟨_, updateTopMember_acts hstep, .inl rfl⟩) h⟩

end

end Writer

end RecordGraph
