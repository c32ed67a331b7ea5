import RecordGraph.Proofs.Relational.Session.Changing
import RecordGraph.Proofs.Relational.Undoing

/-!
# The vocabulary of a storage

Payloads in which each relation has operations of the shape that its kind takes, at every depth: on the
rows of a list those that come with items, on a single row those that come with one body or condition.
Whatever is said in this vocabulary is done by the storage, or refused with a fault.
-/

namespace RecordGraph

namespace Vocabulary

variable (c : Catalog)

mutual

/-- A payload for the objects of a model. The part of an operation that is left out is null. -/
inductive Body : Model → Value → Prop
  | absent {m} : Body m .null
  | members {m members}
      (hlink : ∀ kv ∈ members, ∀ l, m.link? kv.1 = some l → Under m l kv.2)
      (hcolumn : ∀ kv ∈ members, ∀ column, m.link? kv.1 = none → m.column? kv.1 = some column →
        column.Takes kv.2) : Body m (.object members)

/-- What can stand under a link. -/
inductive Under : Model → Link → Value → Prop
  /-- Nothing to do, or no operations. -/
  | flat {m l v} (h : v.isPresent = true → v.isObject = false) : Under m l v
  | many {m l target ops} (hlist : l.isList = true) (hnamed : c.named l.target = .ok target)
      (hne : ∀ op x, (op, x) ∈ ops → Work.itemsOf x ≠ [])
      (h : ∀ op x, (op, x) ∈ ops → ∀ item ∈ Work.itemsOf x, Item target op item) : Under m l (.object ops)
  | one {m l target ops} (hlist : l.isList = false) (hnamed : c.named l.target = .ok target)
      (h : ∀ op x, (op, x) ∈ ops → Single target op x) : Under m l (.object ops)

/-- An item of an operation on the rows of a list. -/
inductive Item : Model → String → Value → Prop
  | create {m body} (hb : Body m body) : Item m "create" body
  | connect {m filter} (hf : c.Answers m filter) : Item m "connect" filter
  | either {m filter body} (hf : c.Answers m filter) (hb : Body m body) :
      Item m "connectOrCreate" (.object [("where", filter), ("create", body)])
  | upsert {m filter body changes} (hf : c.Answers m filter) (hb : Body m body) (hc : Body m changes) :
      Item m "upsert" (.object [("where", filter), ("create", body), ("update", changes)])
  | update {m filter changes} (hf : c.Answers m filter) (hc : Body m changes) :
      Item m "update" (.object [("where", filter), ("data", changes)])

/-- An operation on a single row. -/
inductive Single : Model → String → Value → Prop
  | create {m body} (hb : Body m body) : Single m "create" body
  | connect {m filter} (hf : c.Answers m filter) : Single m "connect" filter
  | upsert {m} {item : Object} (hb : Body m (item.get "create")) (hc : Body m (item.get "update")) :
      Single m "upsert" (.object item)
  | disconnect {m v} : Single m "disconnect" v

end

variable {c}

open Work in
mutual

theorem Body.sets (hc : c.Sound) {m : Model} {v : Value} : Body c m v → Sets c m v
  | .absent => sets_null
  | .members hlink hcolumn => sets_of_members fun kv hkv =>
      ⟨fun l hl => (hlink kv hkv l hl).changes hc (List.mem_of_find?_eq_some hl), hcolumn kv hkv⟩

theorem Under.changes (hc : c.Sound) {m : Model} {l : Link} {v : Value} (h : Under c m l v) (hl : l ∈ m.links) :
    Changes c m l v :=
  match h with
  | .flat hflat => changes_flat hflat
  | .many hlist hnamed hne h => changes_many hc hl hlist hnamed fun op x hin =>
      ⟨hne op x hin, fun item hitem => (h op x hin item hitem).change hc⟩
  | .one hlist hnamed h => changes_record hc hl hlist hnamed fun op x hin => (h op x hin).change hc

theorem Item.change (hc : c.Sound) {m : Model} {op : String} {v : Value} : Item c m op v → ListChange c m op v
  | .create hb => hb.sets hc
  | .connect hf => hf
  | .either hf hb => ⟨_, _, rfl, hf, hb.sets hc⟩
  | .upsert hf hb hch => ⟨_, _, _, rfl, hf, hb.sets hc, hch.sets hc⟩
  | .update hf hch => ⟨_, _, rfl, hf, hch.sets hc⟩

theorem Single.change (hc : c.Sound) {m : Model} {op : String} {v : Value} : Single c m op v → RecordChange c m op v
  | .create hb => hb.sets hc
  | .connect hf => hf
  | .upsert hb hch => ⟨_, rfl, hb.sets hc, hch.sets hc⟩
  | .disconnect => trivial

end

end Vocabulary

/-! ## Calls -/

/-- A call that ended with a result or with a fault. -/
def Concludes {α : Type} (outcome : Except Failure α) : Prop :=
  (∃ a, outcome = .ok a) ∨ ∃ f, outcome = .error (.fault f)

namespace Query

variable {α : Type} {act : Query α} {db : Database} {name : Option String} {entity : String} {c : Catalog}

theorem told_storage {e : Failure} (h : e.OfStorage) : (told name e).OfStorage := by
  cases e with
  | fault f => exact trivial
  | engine e => exact trivial
  | _ => cases h

theorem transaction_concludes (h : Handed (fun _ => True) (act.runOn db).1) :
    Concludes ((transaction name act).runOn db).1 := by
  rw [transaction_run]
  rcases hrun : act.runOn db with ⟨failure | a, db'⟩
  · rw [hrun] at h
    cases failure with
    | fault f => exact .inr ⟨_, rfl⟩
    | engine e => exact .inr ⟨_, rfl⟩
    | _ => cases h
  · exact .inl ⟨a, rfl⟩

/-- What is worked out in a session is written, and then goes on. -/
theorem write_handed {β : Type} {work : Work α} {after : α → Query β}
    (hw : Work.Runs c { db } work fun _ _ => True)
    (hafter : ∀ a db', Handed (fun _ => True) ((after a).runOn db').1) :
    Handed (fun _ => True) ((write entity work >>= after).runOn db).1 := by
  rw [Act.runOn_bind, write_run]
  unfold Work.Runs at hw
  rcases hrun : work.runOn { db } with ⟨failure | a, s⟩
  · rw [hrun] at hw
    exact told_storage hw
  · exact hafter a s.db

end Query

namespace Catalog

open Vocabulary Work

variable {c : Catalog} {db : Database} {entity : String} {payload filter : Object}

theorem fresh_sound (hdb : db.Fits) : Session.Sound { db } c where
  objects _ ht := absurd ht List.not_mem_nil
  queue _ hr := absurd hr List.not_mem_nil
  db := hdb

theorem output_handed {m : Model} {key : List Cell} : Handed (fun _ => True) ((c.output m none key).runOn db).1 := by
  rw [output_plain]
  cases db.row? m key with
  | none => trivial
  | some row => trivial

theorem model_error {e : Failure} (h : c.model entity = .error e) : e.OfStorage := by
  unfold model at h
  split at h <;> cases h
  trivial

section
variable {s : Session} {ref : Ref} {m : Model} (hc : c.Sound)
include hc

theorem runs_written (hs : s.Sound c) (hr : s.Has ref m) : Runs c s (c.written ref) fun _ _ => True := by
  refine (runs_flush hc hs).bind fun _ s hs hg _ => ?_
  exact (runs_object hs (hr.mono hg)).bind fun _ s hs _ _ => runs_pure hs trivial

theorem runs_updated (hs : s.Sound c) (hr : s.Has ref m) (hb : Sets c m (.object payload)) :
    Runs c s (c.updated ref payload) fun _ _ => True :=
  (hb le_rfl hs hr).bind fun _ _ hs hg _ => runs_written hc hs (hr.mono hg)

theorem runs_created (hs : s.Sound c) (hm : c.Has m) (hb : Sets c m (.object payload)) :
    Runs c s (c.created m payload) fun _ _ => True := by
  refine (runs_build hs hm le_rfl hb).bind fun ref s hs _ hr => ?_
  exact (runs_attach hc hs hr).bind fun _ _ hs hg _ => runs_written hc hs (hr.mono hg)

end

section
variable (hc : c.Sound) (hdb : db.Fits) (hb : ∀ m, c.model? entity = some m → Body c m (.object payload))
include hc hdb hb

theorem create_concludes : Concludes ((c.storage.create entity payload none).runOn db).1 := by
  refine Query.transaction_concludes ?_
  rw [create, Act.runOn_bind, Act.runOn_liftM]
  cases hm : c.model entity with
  | error failure => exact model_error hm
  | ok m =>
      have hfound := model_ok_iff.mp hm
      refine Query.write_handed (c := c) ?_ fun _ _ => output_handed
      exact runs_created hc (fresh_sound hdb) ⟨entity, mem_of_model? hfound⟩ ((hb m hfound).sets hc)

theorem update_concludes (hf : ∀ m, c.model? entity = some m → c.Answers m (.object filter)) :
    Concludes ((c.storage.update entity filter payload none).runOn db).1 := by
  refine Query.transaction_concludes ?_
  rw [update, Act.runOn_bind, Act.runOn_liftM]
  cases hm : c.model entity with
  | error failure => exact model_error hm
  | ok m =>
      have hfound := model_ok_iff.mp hm
      refine Query.write_handed (c := c) ?_ fun key db' => ?_
      · have hhas : c.Has m := ⟨entity, mem_of_model? hfound⟩
        refine (runs_findOne hc (fresh_sound hdb) hhas (hf m hfound)).bind fun found s hs _ hfound' => ?_
        cases found with
        | none => exact runs_pure hs trivial
        | some ref => exact Runs.map (runs_updated hc hs (hfound' ref rfl) ((hb m hfound).sets hc))
      · cases key with
        | none => trivial
        | some key =>
            rw [Option.mapM_some, map_eq_pure_bind, Act.runOn_bind]
            have hout : Handed (fun _ => True) ((c.output m none key).runOn db').1 := output_handed
            rcases hrun : (c.output m none key).runOn db' with ⟨failure | record, db''⟩ <;> rw [hrun] at hout
            · exact hout
            · trivial

end

end Catalog

end RecordGraph
