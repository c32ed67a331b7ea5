import RecordGraph.Mutation.Create
import RecordGraph.Mutation.Update
import RecordGraph.Proofs.Failure.Success

/-!
# Lists of items

The items of a list relation that is updated are told apart by their kinds, and the entries of each kind are worked out
on their own. What becomes of the list is told here item by item, in the order of the list.
-/

namespace RecordGraph

theorem forall₂_comp {α β γ : Type} {R : α → β → Prop} {S : β → γ → Prop} {xs : List α} {ys : List β} {zs : List γ}
    (h : List.Forall₂ R xs ys) (h' : List.Forall₂ S ys zs) : List.Forall₂ (fun x z => ∃ y, R x y ∧ S y z) xs zs := by
  induction h generalizing zs with
  | nil =>
      cases h'
      exact .nil
  | cons hxy _ ih =>
      cases h' with
      | cons hyz hrest => exact .cons ⟨_, hxy, hyz⟩ (ih hrest)

theorem forall₂_square {α α' β β' : Type} {R : α → β → Prop} {R' : α' → β' → Prop} {S : α → α' → Prop} {xs : List α}
    {xs' : List α'} {ys : List β} {ys' : List β'} (hs : List.Forall₂ S xs xs') (h : List.Forall₂ R xs ys)
    (h' : List.Forall₂ R' xs' ys') : List.Forall₂ (fun y y' => ∃ x x', S x x' ∧ R x y ∧ R' x' y') ys ys' := by
  induction hs generalizing ys ys' with
  | nil =>
      cases h
      cases h'
      exact .nil
  | cons hs _ ih =>
      cases h with
      | cons hy hrest =>
          cases h' with
          | cons hy' hrest' => exact .cons ⟨_, _, hs, hy, hy'⟩ (ih hrest hrest')

/-- The entries of an operation among what became of the items of a list: operations with entries, or nothing. -/
def entriesOf (op : String) (placed : List (Option (String × Value))) : List Value :=
  placed.filterMap fun p => p.bind fun entry => if entry.1 = op then some entry.2 else none

/-- The operations that items of a list are told apart by. -/
def listKinds : List String := ["connect", "upsert", "update", "create"]

/-- The operations for what became of the items of a list. -/
def listOperations (placed : List (Option (String × Value))) : Object :=
  listKinds.flatMap fun op => Writer.Placement.member op (entriesOf op placed)

section
variable {op other : String} {entry : Value} {placed : List (Option (String × Value))}

@[simp]
theorem entriesOf_nil : entriesOf op [] = [] := rfl

@[simp]
theorem entriesOf_none : entriesOf op (none :: placed) = entriesOf op placed := rfl

@[simp]
theorem entriesOf_self : entriesOf op (some (op, entry) :: placed) = entry :: entriesOf op placed := by
  simp only [entriesOf, List.filterMap_cons, Option.bind_some, ↓reduceIte]

@[simp]
theorem entriesOf_of_ne (h : other ≠ op) : entriesOf op (some (other, entry) :: placed) = entriesOf op placed := by
  simp only [entriesOf, List.filterMap_cons, Option.bind_some, h, ↓reduceIte]

theorem mem_entriesOf : entry ∈ entriesOf op placed ↔ some (op, entry) ∈ placed := by
  simp only [entriesOf, List.mem_filterMap, Option.bind_eq_some_iff, Option.ite_none_right_eq_some, Option.some.injEq]
  constructor
  · rintro ⟨_, hp, ⟨_, _⟩, rfl, rfl, rfl⟩
    exact hp
  · exact fun hp => ⟨_, hp, _, rfl, rfl, rfl⟩

end

namespace Writer

variable {w : Writer} {r : Relation}

/-- What the entries of a list relation are worked out by, whatever the items are. -/
structure ListTerms (w : Writer) (r : Relation) where
  target : Entity
  joinKey : Option (List String)
  omitted : List String
  /-- Whether the writer may create a record of which nothing is known. -/
  canCreate : Bool
  target_eq : w.view.schema.entity r.target = .ok target
  joinKey_eq : w.view.schema.joinKey? r = .ok joinKey
  omitted_eq : w.view.omitted r.target = .ok omitted
  canCreate_eq : w.view.canCreate r.target .null = .ok canCreate

namespace ListTerms

/-- The fields of an item that are not written. -/
def dropped (t : w.ListTerms r) : List String := t.omitted ++ r.references

def kindOf (t : w.ListTerms r) (item : Object) : ItemKind := itemKind t.target.keys t.joinKey item

theorem unique (t t' : w.ListTerms r) : t = t' := by
  obtain ⟨target, joinKey, omitted, canCreate, htarget, hjoin, homitted, hcan⟩ := t
  obtain ⟨target', joinKey', omitted', canCreate', htarget', hjoin', homitted', hcan'⟩ := t'
  cases htarget.symm.trans htarget'
  cases hjoin.symm.trans hjoin'
  cases homitted.symm.trans homitted'
  cases hcan.symm.trans hcan'
  rfl

/-- What becomes of an item whose relations are turned: the entry of an operation, or nothing. -/
inductive Enters (t : w.ListTerms r) (parent : Value) (item : Object) : Option (String × Value) → Prop
  | connect {condition filter} (hk : t.kindOf item = .connect)
      (hc : itemWhere r t.target.keys t.joinKey parent item = .ok condition)
      (hf : w.guarded r.target condition = .ok filter) : Enters t parent item (some ("connect", .object filter))
  | upsert {guard entry} (hk : t.kindOf item = .upsert) (hg : w.updateGuard r.target = .ok guard)
      (he : w.upsertEntry r t.target.keys t.joinKey parent t.dropped t.canCreate guard item = .ok entry) :
      Enters t parent item (some (if t.canCreate then "upsert" else "update", entry))
  | create {body} (hk : t.kindOf item = .create) (hcan : t.canCreate = true)
      (hb : w.linkForeignKeys r.target false (item.without t.dropped) = .ok body) :
      Enters t parent item (some ("create", .object body))
  | left (hk : t.kindOf item = .create) (hcan : t.canCreate = false) : Enters t parent item none

variable {t : w.ListTerms r} {parent : Value} {prepared : List Object} {connects upserts creates : List Value}

theorem connects_forall₂ {items : List Object}
    (h : (items.mapM fun item => do
      return Value.object (← w.guarded r.target (← itemWhere r t.target.keys t.joinKey parent item))) = .ok connects) :
    List.Forall₂ (fun item entry => ∃ condition filter,
      itemWhere r t.target.keys t.joinKey parent item = .ok condition ∧ w.guarded r.target condition = .ok filter ∧
        Value.object filter = entry) items connects := by
  refine (mapM_ok_forall₂ h).imp fun item entry hentry => ?_
  obtain ⟨condition, hc, hentry⟩ := bind_ok_iff.mp hentry
  obtain ⟨filter, hf, hentry⟩ := bind_ok_iff.mp hentry
  exact ⟨condition, filter, hc, hf, pure_ok_iff.mp hentry⟩

theorem upsertEntries_forall₂ {items : List Object}
    (h : w.upsertEntries r t.target.keys t.joinKey parent t.dropped t.canCreate items = .ok upserts) :
    List.Forall₂ (fun item entry => ∃ guard, w.updateGuard r.target = .ok guard ∧
      w.upsertEntry r t.target.keys t.joinKey parent t.dropped t.canCreate guard item = .ok entry) items upserts := by
  unfold upsertEntries at h
  split at h
  · exact pure_ok_iff.mp h ▸ .nil
  · obtain ⟨guard, hg, h⟩ := bind_ok_iff.mp h
    exact (mapM_ok_forall₂ h).imp fun _ _ he => ⟨guard, hg, he⟩

/-- The entries of the kinds are those of the items one by one. -/
theorem enters_of_kinds
    (hconnects : List.Forall₂ (fun item entry => ∃ condition filter,
      itemWhere r t.target.keys t.joinKey parent item = .ok condition ∧ w.guarded r.target condition = .ok filter ∧
        Value.object filter = entry) (prepared.filter fun item => t.kindOf item == .connect) connects)
    (hupserts : List.Forall₂ (fun item entry => ∃ guard, w.updateGuard r.target = .ok guard ∧
      w.upsertEntry r t.target.keys t.joinKey parent t.dropped t.canCreate guard item = .ok entry)
      (prepared.filter fun item => t.kindOf item == .upsert) upserts)
    (hcreates : w.createBodies r t.dropped t.canCreate (prepared.filter fun item => t.kindOf item == .create) =
      .ok creates) :
    ∃ placed, List.Forall₂ (t.Enters parent) prepared placed ∧ entriesOf "connect" placed = connects ∧
      entriesOf "upsert" placed = (if t.canCreate then upserts else []) ∧
      entriesOf "update" placed = (if t.canCreate then [] else upserts) ∧ entriesOf "create" placed = creates := by
  induction prepared generalizing connects upserts creates with
  | nil =>
      cases hconnects
      cases hupserts
      have hnone : creates = [] := by
        unfold createBodies at hcreates
        split at hcreates <;> exact (pure_ok_iff.mp hcreates).symm
      exact ⟨[], .nil, rfl, by simp, by simp, hnone.symm⟩
  | cons item prepared ih =>
      simp only [List.filter_cons] at hconnects hupserts hcreates
      cases hk : t.kindOf item with
      | connect =>
          simp only [hk, beq_self_eq_true, ↓reduceIte, reduceCtorEq, beq_iff_eq] at hconnects hupserts hcreates
          obtain ⟨entry, connects, ⟨condition, filter, hc, hf, rfl⟩, hrest, rfl⟩ :=
            List.forall₂_cons_left_iff.mp hconnects
          obtain ⟨placed, henters, hof⟩ := ih hrest hupserts hcreates
          exact ⟨some ("connect", .object filter) :: placed, .cons (.connect hk hc hf) henters, by simpa using hof⟩
      | upsert =>
          simp only [hk, beq_self_eq_true, ↓reduceIte, reduceCtorEq, beq_iff_eq] at hconnects hupserts hcreates
          obtain ⟨entry, upserts, ⟨guard, hg, he⟩, hrest, rfl⟩ := List.forall₂_cons_left_iff.mp hupserts
          obtain ⟨placed, henters, hof⟩ := ih hconnects hrest hcreates
          refine ⟨some (if t.canCreate then "upsert" else "update", entry) :: placed,
            .cons (.upsert hk hg he) henters, ?_⟩
          cases hcan : t.canCreate <;> simpa [hcan] using hof
      | create =>
          simp only [hk, beq_self_eq_true, ↓reduceIte, reduceCtorEq, beq_iff_eq] at hconnects hupserts hcreates
          unfold createBodies at hcreates
          split at hcreates
          next hcan =>
            rw [List.mapM_cons] at hcreates
            obtain ⟨entry, hentry, hcreates⟩ := bind_ok_iff.mp hcreates
            obtain ⟨creates, hrest, hcreates⟩ := bind_ok_iff.mp hcreates
            obtain ⟨body, hb, hentry⟩ := bind_ok_iff.mp hentry
            obtain rfl := pure_ok_iff.mp hentry
            obtain rfl := pure_ok_iff.mp hcreates
            have hbodies : w.createBodies r t.dropped t.canCreate
                (prepared.filter fun item => t.kindOf item == .create) = .ok creates := by
              rw [createBodies, if_pos hcan]
              exact hrest
            obtain ⟨placed, henters, hof⟩ := ih hconnects hupserts hbodies
            exact ⟨some ("create", .object body) :: placed, .cons (.create hk hcan hb) henters, by simpa using hof⟩
          next hcan =>
            obtain rfl := pure_ok_iff.mp hcreates
            have hnone : w.createBodies r t.dropped t.canCreate
                (prepared.filter fun item => t.kindOf item == .create) = .ok [] := by
              rw [createBodies, if_neg hcan]
              rfl
            obtain ⟨placed, henters, hof⟩ := ih hconnects hupserts hnone
            exact ⟨none :: placed, .cons (.left hk (Bool.eq_false_iff.mpr hcan)) henters, hof⟩

end ListTerms

/-- What the items of a list become, one by one. -/
theorem updateMany_enters {nesting : UpdateNesting} {items : List Value} {parent ops : Value}
    (h : w.updateMany nesting r items parent = .ok ops) :
    ∃ (t : w.ListTerms r) (placed : List (Option (String × Value))),
      List.Forall₂ (fun given entry => ∃ item prepared, w.checkedItem r.target r.name given = .ok item ∧
        w.updateItem nesting r.target item = .ok prepared ∧ t.Enters parent prepared entry) items placed ∧
      ops = .object (listOperations placed) := by
  obtain ⟨keys, hkeys, h⟩ := bind_ok_iff.mp h
  obtain ⟨joinKey, hj, h⟩ := bind_ok_iff.mp h
  obtain ⟨omitted, ho, h⟩ := bind_ok_iff.mp h
  obtain ⟨prepared, hprep, h⟩ := bind_ok_iff.mp h
  obtain ⟨_, _, h⟩ := bind_ok_iff.mp h
  obtain ⟨canCreate, hcan, h⟩ := bind_ok_iff.mp h
  obtain ⟨connects, hconn, h⟩ := bind_ok_iff.mp h
  obtain ⟨upserts, hup, h⟩ := bind_ok_iff.mp h
  obtain ⟨creates, hcr, hout⟩ := bind_ok_iff.mp h
  obtain ⟨e, he, rfl⟩ := map_ok_iff.mp hkeys
  obtain rfl := pure_ok_iff.mp hout
  let t : w.ListTerms r := ⟨e, joinKey, omitted, canCreate, he, hj, ho, hcan⟩
  obtain ⟨placed, henters, rfl, hupserts, hupdates, rfl⟩ :=
    ListTerms.enters_of_kinds (t := t) (ListTerms.connects_forall₂ hconn) (ListTerms.upsertEntries_forall₂ hup) hcr
  refine ⟨t, placed, ?_, congrArg Value.object ?_⟩
  · refine (forall₂_comp (mapM_ok_forall₂ hprep) henters).imp fun given entry hentry => ?_
    obtain ⟨body, hbody, hentry⟩ := hentry
    obtain ⟨item, hitem, hbody⟩ := bind_ok_iff.mp hbody
    exact ⟨item, body, hitem, hbody, hentry⟩
  · show Placement.member "connect" (entriesOf "connect" placed)
      ++ Placement.member (if canCreate then "upsert" else "update") upserts
      ++ Placement.member "create" (entriesOf "create" placed) = listOperations placed
    cases canCreate <;> simp [listOperations, listKinds, hupserts, hupdates, t, Placement.member]

end Writer

end RecordGraph
