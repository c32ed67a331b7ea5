import RecordGraph.Proofs.Access.Merge
import RecordGraph.Proofs.Mutation.Updated

/-!
# Permitted writes

The rules of a writer grant what is permitted under a relation, so that everything in a transformed
payload is.
-/

namespace RecordGraph.Writer

variable (w : Writer)

/-- The value of a relation holds no operations at all, at any depth. -/
def PlainUnder (r : Relation) (v : Value) : Prop :=
  Payload.isOperation v = false ∧ ∀ item, .object item ∈ v.asItems → w.Plain r.target item

/-- The value of a relation is as it was given or holds permitted operations. -/
def Ready (r : Relation) (v : Value) : Prop :=
  w.PermitsUnder r v ∧ (Payload.isOperation v = false → w.PlainUnder r v)

def ReadyBody (entity : String) (body : Object) : Prop :=
  ∀ key v r, (key, v) ∈ body → w.view.schema.relation? entity key = .ok (some r) → w.Ready r v

variable {w} {entity : String} {body payload out : Object} {key : String} {r : Relation} {v : Value}

theorem Plain.under (h : w.Plain entity body) (hr : w.view.schema.relation? entity key = .ok (some r))
    (hm : (key, v) ∈ body) : w.PlainUnder r v :=
  ⟨h v (.here hr hm), fun _ hi _ hn => h _ (.inside hr hm hi hn)⟩

theorem Plain.ready (h : w.Plain entity body) : w.ReadyBody entity body :=
  fun _ _ _ hm hr => settled_of_given (h.under hr hm).1 (h.under hr hm)

/-- Without relations there is nothing to hold operations. -/
theorem plain_of_scalars (h : ∀ kv ∈ body, w.view.schema.relation? entity kv.1 = .ok none) :
    w.Plain entity body := by
  intro v hn
  cases hn with
  | here hr hm | inside hr hm =>
      rw [h _ hm] at hr
      cases hr

theorem plain_nil : w.Plain entity [] := plain_of_scalars nofun

theorem plainUnder_nil : w.PlainUnder r (.object []) :=
  ⟨rfl, fun _ hi => by cases List.mem_singleton.mp hi; exact plain_nil⟩

theorem PlainUnder.inside {item : Object} {r' : Relation} {v' : Value} (h : w.PlainUnder r v)
    (hi : .object item ∈ v.asItems) (hr : w.view.schema.relation? r.target key = .ok (some r'))
    (hm : (key, v') ∈ item) : w.PlainUnder r' v' :=
  (h.2 _ hi).under hr hm

theorem ReadyBody.permits (h : w.ReadyBody entity body) : w.Permits entity body :=
  SettledBody.holds h

section
variable (hr : w.view.rules.Proper)
include hr

theorem guarded_confined {target : String} {condition filter : Object}
    (h : w.guarded target condition = .ok filter) : w.Confined .read target (.object filter) := by
  obtain ⟨guard, hg, he⟩ := bind_ok_iff.mp h
  rw [← pure_ok_iff.mp he]
  exact Rules.merge_confined hr hg

/-- Proper rules over a schema of distinct relations grant nothing that is not permitted. -/
theorem permitted_granted (hs : w.view.schema.Distinct) : w.Grants w.Permitted w.PlainUnder where
  plain h := h.1
  empty := plainUnder_nil
  inside h hi hrel hm := h.inside hi hrel hm
  linked he hf hrel hg := by
    obtain ⟨e', he', hrel⟩ := Schema.relation?_ok_iff.mp hrel
    rw [he] at he'; cases he'
    rw [hs.relation? he (List.mem_of_find?_eq_some hf)] at hrel
    cases hrel
    exact guarded_confined hr hg
  connected hg := guarded_confined hr hg
  created hc _ := ⟨_, hc⟩
  updated hg := Rules.merge_confined hr hg
  changed _ _ := trivial
  changedOne _ _ _ _ := trivial

theorem create_ready (hs : w.view.schema.Distinct) (hp : w.Plain entity payload)
    (h : w.create entity payload = .ok out) : w.ReadyBody entity out :=
  create_settled (permitted_granted hr hs) hp.ready h

theorem update_ready (hs : w.view.schema.Distinct) {id : Value} (hp : w.Plain entity payload)
    (h : w.update entity id payload = .ok out) : w.ReadyBody entity out :=
  update_settled (permitted_granted hr hs) hp.ready h

end

end RecordGraph.Writer
