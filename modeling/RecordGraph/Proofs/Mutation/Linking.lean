import RecordGraph.Proofs.Access.Conjunction
import RecordGraph.Proofs.Mutation.Outcome

/-!
# Links by foreign keys

A scalar field that holds, first of all, the key of a relation is turned into a connection of that relation. Only the
record that the field refers to satisfies its condition, whatever the rules add to it. A relation may be held by several
fields: the others are no part of the condition and are written as they were given.
-/

namespace RecordGraph

namespace Writer

variable {w : Writer} {entity field key : String} {e : Entity} {r : Relation} {v ops : Value} {filter out : Object}
  {item : Object} {updating : Bool} {nest : Relation → Value → Option Value → Prop} {omitted : List String}

theorem guarded_requires {condition : Object} (hr : w.view.rules.Proper) (hv : Object.get? key condition = some v)
    (h : w.guarded entity condition = .ok filter) : Requires (.object filter) key v := by
  obtain ⟨guard, hguard, h⟩ := bind_ok_iff.mp h
  obtain rfl := pure_ok_iff.mp h
  exact Guard.merge_requires (Rules.filterFor_nodup hr hguard) hv

/-- A record is connected by one value under one key, if the value is no object. -/
theorem connectWhere_single (hv : v.isObject = false) (h : w.connectWhere r v = .ok filter) :
    ∃ key, w.view.schema.connectKey r = .ok key ∧ w.guarded r.target [(key, v)] = .ok filter := by
  obtain ⟨keys, hkeys, h⟩ := bind_ok_iff.mp h
  split at h
  next hwhole =>
    obtain ⟨target, htarget, rfl⟩ := map_ok_iff.mp hkeys
    have hfirst : target.firstKey = target.keys.headD "" := by
      cases hk : target.keys with
      | nil => simp [hk] at hwhole
      | cons => simp [Entity.firstKey, hk]
    have hkey : w.view.schema.connectKey r = .ok (target.keys.headD "") := by
      rw [← hfirst]
      unfold Schema.connectKey Schema.connectKey.firstKey
      rw [htarget]
      cases hfk : r.foreignKey? with
      | none => rfl
      | some name =>
          have hempty : name = "" := by simpa [hfk] using hwhole.2
          exact if_pos hempty
    refine ⟨_, hkey, ?_⟩
    cases v with
    | object => cases hv
    | _ => exact h
  next =>
    obtain ⟨key, hkey, h⟩ := bind_ok_iff.mp h
    exact ⟨key, hkey, h⟩

/-- A body is linked by a relation to the record that a value is the key of, by the field that it refers to. -/
def LinksTo (w : Writer) (r : Relation) (v : Value) (body : Object) : Prop :=
  ∃ key filter, w.view.schema.connectKey r = .ok key ∧
    Object.get? r.name body = some (.object [("connect", .object filter)]) ∧ Requires (.object filter) key v

/-- A foreign key that is given links by its relation, and the other fields of the relation are left alone. -/
theorem Ends.links {role : String → Role} (hr : w.view.rules.Proper) (ha : Role.Apart role)
    (hf : role field = .foreign r) (hv : Object.get? field item = some v) (hne : v ≠ .null) (hflat : v.isObject = false)
    (h : w.Ends updating nest role item r.name (Object.get? r.name out)) : w.LinksTo r v out := by
  have hget : item.get field = v := by rw [Object.get, hv]; rfl
  have hin : field ∈ item.keys := List.mem_map_of_mem (Object.mem_of_get? hv)
  obtain ⟨ops, hc, ho⟩ := h.connected ha hin hf (hget ▸ hne)
  rw [hget] at hc
  obtain ⟨filter, hfilter, hops⟩ := bind_ok_iff.mp hc
  obtain rfl := pure_ok_iff.mp hops
  obtain ⟨key, hkey, hguarded⟩ := connectWhere_single hflat hfilter
  refine ⟨key, filter, hkey, ho, guarded_requires hr ?_ hguarded⟩
  rw [Object.get?, if_pos rfl]

/-- A record itself is linked by a field that is not left out, and fields that hold no relation first of all are left
as they are given. -/
theorem links_of_ends {payload : Object} {dropped : List String} (hr : w.view.rules.Proper)
    (ha : Role.Apart e.topRole) (hf : e.topRole field = .foreign r) (hv : Object.get? field payload = some v)
    (hne : v ≠ .null) (hflat : v.isObject = false) (hseen : field ∉ dropped)
    (h : ∀ key, w.Ends updating nest e.topRole (payload.without dropped) key (Object.get? key out)) :
    w.LinksTo r v out ∧ ∀ other ∈ r.fields, e.relation? other = none → e.relationForField? other = none →
      other ∉ dropped → Object.get? other out = Object.get? other payload := by
  refine ⟨(h r.name).links hr ha hf ((Object.get?_without hseen).trans hv) hne hflat, ?_⟩
  intro other _ hrelation hfree hkept
  have hleft := (h other).kept (Entity.topRole_of_none hrelation hfree) fun field _ =>
    Entity.ne_of_topRole hrelation field
  exact hleft.trans (Object.get?_without hkept)

/-- The scalar field that holds a relation, first of all its fields, links to the record that it refers to, in a new
record and in an update: the condition requires the field of the target that it refers to to have its value. The other
fields of the relation are written as they are given. -/
theorem foreign_key_links (w : Writer) (hr : w.view.rules.Proper) (hs : w.view.schema.Distinct)
    (ha : w.view.schema.ScalarsApart) {entity field : String} {e : Entity} {r : Relation} {omitted : List String}
    {payload : Object} {v : Value} (he : w.view.schema.entity entity = .ok e)
    (homitted : w.view.omitted entity = .ok omitted) (hf : e.relationForField? field = some r)
    (hscalar : e.IsScalar field) (hn : payload.keys.Nodup) (hv : Object.get? field payload = some v) (hne : v ≠ .null)
    (hflat : v.isObject = false) (hseen : field ∉ omitted ++ w.auditFields) :
    (∀ out, w.create entity payload = .ok out → w.LinksTo r v out ∧
      ∀ other ∈ r.fields, e.relation? other = none → e.relationForField? other = none →
        other ∉ omitted ++ w.auditFields → Object.get? other out = Object.get? other payload) ∧
    (field ∉ e.keys → ∀ id out, w.update entity id payload = .ok out → w.LinksTo r v out ∧
      ∀ other ∈ r.fields, e.relation? other = none → e.relationForField? other = none →
        other ∉ omitted ++ w.auditFields ++ e.keys → Object.get? other out = Object.get? other payload) := by
  have hapart : Role.Apart e.topRole := Entity.topRole_apart (hs _ _ he) (ha _ _ he)
  have hrole : e.topRole field = .foreign r :=
    (if_neg (Bool.eq_false_iff.mp hscalar)).trans (Entity.foreignRole_of_some hf)
  constructor
  · intro out h
    obtain ⟨_, ho, _, hends⟩ := create_ends hapart he hn h
    cases homitted.symm.trans ho
    exact links_of_ends hr hapart hrole hv hne hflat hseen hends
  · intro hkey id out h
    obtain ⟨_, ho, _, hends⟩ := update_ends hapart he hn h
    cases homitted.symm.trans ho
    have hkept : field ∉ omitted ++ w.auditFields ++ e.keys := fun hin =>
      (List.mem_append.mp hin).elim hseen hkey
    exact links_of_ends hr hapart hrole hv hne hflat hkept hends

/-! Orders that name a bin of a depot by its site and its number. -/

def depotSchema : Schema := ⟨[
  ("Order", .ok ⟨"Order", ["id"], [⟨"id", .scalar, "int", false, false, true, false⟩,
      ⟨"site", .scalar, "string", true, false, false, false⟩, ⟨"slot", .scalar, "string", true, false, false, false⟩,
      ⟨"bin", .relation, "Bin", true, false, false, false⟩],
    [⟨"bin", "Bin", .one, ["site", "slot"], ["place", "number"]⟩]⟩),
  ("Bin", .ok ⟨"Bin", ["place", "number"], [⟨"place", .scalar, "string", false, false, true, false⟩,
      ⟨"number", .scalar, "string", false, false, true, false⟩], []⟩)]⟩

def storekeeper : Writer := { view := ⟨depotSchema, ⟨[]⟩, .principal {}⟩ }

def orderBin : Relation := ⟨"bin", "Bin", .one, ["site", "slot"], ["place", "number"]⟩

def binOrder : Object := [("id", .int 1), ("site", .text "a"), ("slot", .text "b")]

def binLink : Object := [("place", .text "a")]

def binChanges : Object := [("slot", .text "b"), ("bin", .object [("connect", .object binLink)])]

theorem depotSchema_distinct : depotSchema.Distinct := Schema.distinct_of_all (by decide)

theorem depotSchema_scalarsApart : depotSchema.ScalarsApart := Schema.scalarsApart_of_all (by decide)

/-- An order is linked to a bin by the site, and its slot is written as it is given. -/
theorem binOrder_linked :
    storekeeper.view.rules.Proper ∧ depotSchema.Distinct ∧ depotSchema.ScalarsApart ∧
    let order := (depotSchema.entity "Order").toOption.getD default
    depotSchema.entity "Order" = .ok order ∧ storekeeper.view.omitted "Order" = .ok [] ∧
    order.relationForField? "site" = some orderBin ∧ order.IsScalar "site" ∧ binOrder.keys.Nodup ∧
    Object.get? "site" binOrder = some (.text "a") ∧ Value.text "a" ≠ .null ∧ (Value.text "a").isObject = false ∧
    "site" ∉ [] ++ storekeeper.auditFields ∧ "site" ∉ order.keys ∧
    storekeeper.create "Order" binOrder = .ok (("id", .int 1) :: binChanges) ∧
    storekeeper.LinksTo orderBin (.text "a") (("id", .int 1) :: binChanges) ∧
    storekeeper.update "Order" (.int 1) binOrder = .ok binChanges ∧
    storekeeper.LinksTo orderBin (.text "a") binChanges ∧
    Object.get? "slot" binChanges = Object.get? "slot" binOrder := by
  have hr : storekeeper.view.rules.Proper := Rules.nil_proper
  have hs := depotSchema_distinct
  have ha := depotSchema_scalarsApart
  let order := (depotSchema.entity "Order").toOption.getD default
  have he : depotSchema.entity "Order" = .ok order := rfl
  have hscalar : order.IsScalar "site" := rfl
  have hv : Object.get? "site" binOrder = some (.text "a") := rfl
  have hlinks := foreign_key_links storekeeper hr hs ha he rfl rfl hscalar (by decide) hv nofun rfl (by decide)
  have hc : storekeeper.create "Order" binOrder = .ok (("id", .int 1) :: binChanges) := rfl
  have hu : storekeeper.update "Order" (.int 1) binOrder = .ok binChanges := rfl
  have hupdated := hlinks.2 (by decide) _ _ hu
  exact ⟨hr, hs, ha, rfl, rfl, rfl, rfl, by decide, rfl, nofun, rfl, by decide, by decide, hc,
    (hlinks.1 _ hc).1, hu, hupdated.1, hupdated.2 "slot" (by decide) rfl rfl (by decide)⟩

def binModel : Model := ⟨"Bin", "bins", [⟨"place", .text, false, false, true, none⟩,
  ⟨"number", .text, false, false, true, none⟩], []⟩

/-- The bin of another number at the site satisfies the condition by which an order is linked. -/
theorem binNumber_not_required :
    storekeeper.create "Order" binOrder = .ok (("id", .int 1) :: binChanges) ∧
    storekeeper.update "Order" (.int 1) binOrder = .ok binChanges ∧
    Object.get? "bin" binChanges = some (.object [("connect", .object binLink)]) ∧
    ¬ ∀ fields ∈ orderBin.fields.zip orderBin.references,
      Requires (.object binLink) fields.2 (Object.get binOrder fields.1) := by
  refine ⟨rfl, rfl, rfl, fun h => ?_⟩
  have hnumber := h ("slot", "number") (by decide)
  have hsat : Catalog.Satisfies ⟨[("Bin", binModel)]⟩ binModel default
      [("place", .text "a"), ("number", .text "c")] (.object binLink) := ⟨_, rfl, by decide⟩
  obtain ⟨u, hu, cond, hcond, hselects⟩ := hnumber _ _ _ _ hsat
  have hb : u = .text "b" := by
    rcases hu with rfl | hsame
    · rfl
    · exact (Value.same_text_iff (s := "b")).mp hsame
  subst hb
  cases hcond
  revert hselects
  decide

end Writer

end RecordGraph
