import RecordGraph.Proofs.Query.Selected
import RecordGraph.Relational.Record

/-!
# Columns that are shown

Which columns the records of a shape have: those that it selects, or all but those that it omits. A
request shows the columns that are not omitted and that its field list, if it has one, names.
-/

namespace RecordGraph

namespace Shape

/-- Whether records of a shape show a column. -/
def Shows (shape : Object) (name : String) : Prop :=
  match Object.get shape "select" with
  | .object tree => ∃ entry, (name, entry) ∈ tree ∧ entry.isPresent = true
  | _ => ∀ omitted, Object.get shape "omit" = .object omitted → (Object.get omitted name).isPresent = false

end Shape

namespace Plan

variable {p : Plan} {name : String}

theorem get_shape_select : Object.get p.shape "select" = ((p.selects.map Value.object).getD .null) := by
  unfold shape
  cases p.includes <;> cases p.selects <;> cases p.omits <;> simp [Object.get, Object.get?]

theorem get_shape_omit : Object.get p.shape "omit" = ((p.omits.map Value.object).getD .null) := by
  unfold shape
  cases p.includes <;> cases p.selects <;> cases p.omits <;> simp [Object.get, Object.get?]

theorem shows_selected {tree : Object} (h : p.selects = some tree) :
    Shape.Shows p.shape name ↔ ∃ entry, (name, entry) ∈ tree ∧ entry.isPresent = true := by
  rw [Shape.Shows, get_shape_select, h]
  rfl

theorem shows_unselected (h : p.selects = none) : Shape.Shows p.shape name ↔
    ∀ omitted, p.omits = some omitted → (Object.get omitted name).isPresent = false := by
  rw [Shape.Shows, get_shape_select, get_shape_omit, h]
  cases p.omits <;> simp

end Plan

namespace Selection

variable {v : Viewpoint} {entity name fields : String} {maxDepth : Int} {given includes : Value} {shape : Shape}
  {tree : Object}

/-- A name that stands for no relation is in the tree of a field list only if the list has it. -/
theorem mem_of_compile (hne : trimText fields ≠ "") (hr : v.schema.relation? entity name = .ok none)
    (h : compile v maxDepth entity (.text fields) includes = .ok { selects := some tree })
    (hm : name ∈ Object.keys tree) : name ∈ (parseFields fields).1 ∧ ¬ v.Omits entity name := by
  obtain ⟨request, query, available, omission, e, tree', _, _, _, ho, he, htree, heq⟩ := compile_ok hne h
  cases heq
  have hkept : name ∈ Object.keys tree → name ∈ Object.keys (scalarTree omission (parseFields fields).1) := by
    refine foldlM_ok_kept (I := fun state => name ∈ Object.keys state →
        name ∈ Object.keys (scalarTree omission (parseFields fields).1))
      (fun {other state next} _ hstate hstep hin => ?_) id htree
    rcases entered_ok he hstep with ⟨rfl, _⟩ | ⟨r, content, x, hrel, _, rfl, _⟩
    · exact hstate hin
    · rcases Object.mem_keys_set.mp hin with rfl | hin
      · rw [hr] at hrel; cases hrel
      · exact hstate hin
  obtain ⟨kv, hkv, rfl⟩ := List.mem_map.mp (hkept hm)
  obtain ⟨hn, hnot, _⟩ := mem_scalarTree ho hkv
  exact ⟨hn, hnot⟩

theorem text_of_fieldText (ht : fieldText given = .ok fields) (hb : trimText fields ≠ "") : given = .text fields := by
  cases given with
  | text s => rw [fieldText, pure_ok_iff] at ht; rw [ht]
  | _ =>
      simp only [fieldText] at ht
      split at ht
      · cases ht
      · cases ht; exact absurd rfl hb

/-- The shape for a blank field list selects nothing and omits what the user never sees. -/
theorem compile_blank (ht : fieldText given = .ok fields) (hb : trimText fields = "")
    (h : compile v maxDepth entity given includes = .ok shape) :
    ∃ request tree omission, IncludeRequest.ofValue includes = .ok request ∧
      Include.resolve v maxDepth entity request = .ok tree ∧ v.omission entity = .ok omission ∧
      shape = { includes := if tree.isEmpty then none else some tree
                omits := if omission.isEmpty then none else some omission } := by
  rw [compile, ht, bind_ok_iff] at h
  obtain ⟨_, hfields, h⟩ := h
  cases hfields
  simp only [hb, ↓reduceIte, bind_ok_iff, pure_ok_iff] at h
  obtain ⟨request, hrequest, tree, htree, omission, ho, rfl⟩ := h
  exact ⟨request, tree, omission, hrequest, htree, ho, rfl⟩

/-- A request shows a column exactly if it is not omitted and a field list has its name. -/
theorem compile_shows_iff (ht : fieldText given = .ok fields) (hr : v.schema.relation? entity name = .ok none)
    (h : compile v maxDepth entity given includes = .ok shape) {p : Plan}
    (hp : p.selects = shape.selects ∧ p.omits = shape.omits) :
    Shape.Shows p.shape name ↔
      ¬ v.Omits entity name ∧ (trimText fields ≠ "" → name ∈ (parseFields fields).1) := by
  obtain ⟨hsel, homit⟩ := hp
  by_cases hb : trimText fields = ""
  · obtain ⟨_, _, omission, _, _, ho, rfl⟩ := compile_blank ht hb h
    rw [Plan.shows_unselected hsel, homit]
    simp only [hb, ne_eq, not_true_eq_false, false_implies, and_true]
    rcases Viewpoint.get?_omission ho name with ⟨hom, hget⟩ | ⟨hno, hget⟩
    · have hne : omission.isEmpty = false := by
        cases omission with
        | nil => cases hget
        | cons => rfl
      simp [hom, hne, Object.get, hget, Value.isPresent]
    · simp [hno, Object.get, hget, Value.isPresent]
  · obtain rfl := text_of_fieldText ht hb
    obtain ⟨_, _, _, _, _, tree, _, _, _, _, _, _, rfl⟩ := compile_ok hb h
    rw [Plan.shows_selected hsel]
    constructor
    · rintro ⟨entry, hm, _⟩
      obtain ⟨hn, hno⟩ := mem_of_compile hb hr h (List.mem_map.mpr ⟨_, hm, rfl⟩)
      exact ⟨hno, fun _ => hn⟩
    · rintro ⟨hno, hn⟩
      have hget := compile_bare hb (hn hb) hno
        (fun _ _ _ _ _ _ _ r hrel => by rw [hr] at hrel; cases hrel) h
      exact ⟨_, Object.mem_of_get? hget, rfl⟩

end Selection

end RecordGraph
