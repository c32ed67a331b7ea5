import RecordGraph.Proofs.Mutation.Limits
import RecordGraph.Proofs.Mutation.Withheld

/-!
# The depth of operations

Operations stand under the relations of bodies, and in the bodies of these operations there are operations again. A
limit of so many levels is kept by the operations that the values of relations are turned into. A foreign key becomes a
link of its relation, wherever its body stands, and so the links of the innermost bodies are one level deeper.
-/

namespace RecordGraph

/-- The operations that stand so many levels of relations deep in a body, with the entity and the name of their
relation. -/
inductive OperationsAt (s : Schema) : Nat → String → Object → String → String → Object → Prop
  | here {entity body key ops r} (hr : s.relation? entity key = .ok (some r)) (hm : (key, .object ops) ∈ body)
      (hop : Payload.isOperation (.object ops) = true) : OperationsAt s 1 entity body entity key ops
  | inside {n entity body key ops r part inner target name more} (hr : s.relation? entity key = .ok (some r))
      (hm : (key, .object ops) ∈ body) (hp : part ∈ Part.ofOperations ops) (hb : part.body? = some (.object inner))
      (h : OperationsAt s n r.target inner target name more) : OperationsAt s (n + 1) entity body target name more

namespace Schema

/-- The link of a relation of an entity that a foreign key stands for: connected, or cut by a null. -/
def LinksByKey (s : Schema) (entity key : String) (ops : Object) : Prop :=
  ∃ e field r, s.entity entity = .ok e ∧ e.relationForField? field = some r ∧ r.name = key ∧
    ((∃ filter, ops = [("connect", .object filter)]) ∨ ops = [("disconnect", .bool true)])

/-- Operations stand no deeper than so many levels in a body, but for links by the foreign keys of the innermost
bodies. -/
def Within (s : Schema) (levels : Nat) (entity : String) (body : Object) : Prop :=
  ∀ n target key ops, OperationsAt s n entity body target key ops →
    n ≤ levels ∨ n = levels + 1 ∧ s.LinksByKey target key ops

theorem LinksByKey.bodiless {s : Schema} {entity key : String} {ops : Object} (h : s.LinksByKey entity key ops) :
    ∀ part ∈ Part.ofOperations ops, part.body? = none := by
  obtain ⟨_, _, _, _, _, _, ⟨filter, rfl⟩ | rfl⟩ := h
  · intro part hpart
    cases List.mem_singleton.mp hpart
    rfl
  · nofun

end Schema

namespace Writer

/-- The bodies of the operations for a given value keep within one level less. Without any level there are no
operations. -/
def NestsWithin (w : Writer) (entity : String) (payload : Object) : Nat → Relation → Value → Value → Prop
  | 0, _, _, _ => False
  | levels + 1, r, v, ops => Given w.view.schema entity payload r v → ∀ members, ops = .object members →
      ∀ part ∈ Part.ofOperations members, ∀ inner, part.body? = some (.object inner) →
        w.view.schema.Within levels r.target inner

variable {w : Writer} {kind : BodyKind} {e : Entity} {A : Prop} {entity target key : String}
  {payload item body out ops : Object} {dropped : List String} {r : Relation} {v : Value} {levels : Nat}

section
variable (hp : w.Plain entity payload)
include hp

/-- What stands under a relation of a drawn body is the link of a foreign key, or operations that a given value was
turned into, or it is none. -/
theorem Drawn.under {T : Relation → Value → Value → Prop} (he : w.view.schema.entity target = .ok e)
    (hitem : ∀ {key v r}, (key, v) ∈ item → w.view.schema.relation? target key = .ok (some r) →
      Given w.view.schema entity payload r v)
    (h : w.Drawn T kind e A (item.without dropped) body) (hm : (key, .object ops) ∈ body)
    (hr : w.view.schema.relation? target key = .ok (some r)) :
    Payload.isOperation (.object ops) = false ∨ w.view.schema.LinksByKey target key ops ∨
      ∃ v, Given w.view.schema entity payload r v ∧ T r v (.object ops) := by
  have hrelation : e.relation? key = some r := by
    rw [Schema.relation?_of_entity he] at hr
    exact Except.ok.inj hr
  have hmember := h.member _ hm
  dsimp only at hmember
  generalize hops : Value.object ops = found at hmember
  cases hmember with
  | kept hm =>
      subst hops
      exact .inl (hp.given (hitem (Object.mem_of_mem_without hm) hr)).1
  | nested hm hr' ht =>
      subst hops
      obtain rfl := Option.some.inj (hr'.symm.trans hrelation)
      exact .inr (.inr ⟨_, hitem (Object.mem_of_mem_without hm) hr, ht⟩)
  | linked _ _ _ hf hc =>
      obtain ⟨_, filter, _, rfl⟩ := connect_guarded hc
      cases hops
      exact .inr (.inl ⟨e, _, _, he, hf, rfl, .inl ⟨filter, rfl⟩⟩)
  | cut _ _ hf =>
      cases hops
      exact .inr (.inl ⟨e, _, _, he, hf, rfl, .inr rfl⟩)

theorem Drawn.within (he : w.view.schema.entity target = .ok e)
    (hitem : ∀ {key v r}, (key, v) ∈ item → w.view.schema.relation? target key = .ok (some r) →
      Given w.view.schema entity payload r v)
    (h : w.Drawn (w.NestsWithin entity payload levels) kind e A (item.without dropped) body) :
    w.view.schema.Within levels target body := by
  intro n _ _ _ hops
  cases hops with
  | here hr hm hop =>
      rcases h.under hp he hitem hm hr with hplain | hlink | ⟨v, _, ht⟩
      · rw [hop] at hplain; cases hplain
      · rcases Nat.eq_zero_or_pos levels with rfl | hpos
        · exact .inr ⟨rfl, hlink⟩
        · exact .inl hpos
      · cases levels with
        | zero => exact ht.elim
        | succ levels => exact .inl (by omega)
  | inside hr hm hpart hbody hinner =>
      rcases h.under hp he hitem hm hr with hplain | hlink | ⟨v, hgiven, ht⟩
      · rw [Part.ofOperations_eq_nil hplain] at hpart; cases hpart
      · rw [hlink.bodiless _ hpart] at hbody; cases hbody
      · cases levels with
        | zero => exact ht.elim
        | succ levels =>
            rcases ht hgiven _ rfl _ hpart _ hbody _ _ _ _ hinner with hle | ⟨rfl, hlink⟩
            · exact .inl (by omega)
            · exact .inr ⟨rfl, hlink⟩

/-- Operations keep within the levels if their bodies keep within one level less. -/
theorem turns_within {id ops : Value} {updating : Bool}
    (h : w.Turns (w.NestsWithin entity payload levels) id updating r v ops) :
    w.NestsWithin entity payload (levels + 1) r v ops := by
  rintro hgiven ops rfl part hpart inner hinner
  obtain ⟨e, item, he, hi, hof⟩ := h.part hpart
  cases hof with
  | found _ _ hc =>
      cases part with
      | connected | updated => cases hinner
      | created | changed => cases hc
  | created hb | changed hb =>
      cases hinner
      obtain ⟨_, _, _, _, _, hdrawn⟩ := hb
      exact hdrawn.within hp he fun hm hr => .inside hgiven hi hr hm

/-- The operations of a transformed payload keep within the levels that a payload may have. -/
theorem transform_within {id : Option Value} (h : w.transform entity payload id = .ok out) :
    w.view.schema.Within w.levels entity out := by
  have hone (parent : Value) (updating : Bool) (levels : Nat) (r : Relation) (v ops : Value)
      (_ : Payload.isOperation v = false)
      (h : w.Turns (w.NestsWithin entity payload levels) parent updating r v ops) :
      w.NestsWithin entity payload (levels + 1) r v ops := turns_within hp h
  cases id with
  | none =>
      have hn : Nesting.Turns (w.NestsWithin entity payload w.levels) (w.createNested w.levels) :=
        createNested_turns_at (hone .null false) w.levels
      obtain ⟨e, _, he, _, hdrawn⟩ := create_drawn_of_turns hn h
      exact hdrawn.within hp he fun hm hr => .here hr hm
  | some id =>
      have hn : UpdateNesting.Turns (w.NestsWithin entity payload w.levels) (w.updateNested w.levels id) :=
        updateNested_turns_at (hone id true) w.levels (.inl rfl)
      obtain ⟨e, _, he, _, hdrawn⟩ := update_drawn_of_turns hn h
      exact hdrawn.within hp he fun hm hr => .here hr hm

end

/-- The operations of a transformed payload are nested no deeper than one level below the limit, but for the links that
the foreign keys of the innermost bodies stand for. A payload that is gone into deeper than that ends in the error for
it, or in one that it ends in under every larger limit, too. -/
theorem nesting_bounded (w : Writer) (hlimit : 0 ≤ w.maxDepth) {entity : String} {payload : Object}
    (hp : w.Plain entity payload) (id : Option Value) :
    (∀ out, w.transform entity payload id = .ok out →
      ∀ n target key ops, OperationsAt w.view.schema n entity out target key ops →
        (n : Int) ≤ w.maxDepth + 1 ∨ (n : Int) = w.maxDepth + 2 ∧ w.view.schema.LinksByKey target key ops) ∧
    ∀ n : Nat, w.GoesInto entity payload id n → w.maxDepth + 1 < n →
      w.transform entity payload id = .error w.tooDeep ∨
      ∃ failure, ∀ depth, w.maxDepth ≤ depth → (w.allowing depth).transform entity payload id = .error failure := by
  have hlevels : (w.levels : Int) = w.maxDepth + 1 := by simp only [levels]; omega
  constructor
  · intro out h n target key ops hops
    rcases transform_within hp h n target key ops hops with hle | ⟨hn, hlink⟩
    · exact .inl (by omega)
    · exact .inr ⟨by omega, hlink⟩
  · intro n hgoes hdeep
    cases h : w.transform entity payload id with
    | ok out =>
        have hle := goesInto_le h hgoes
        omega
    | error failure =>
        by_cases htoo : failure = w.tooDeep
        · exact .inl (by rw [htoo])
        · refine .inr ⟨failure, fun depth hdepth => ?_⟩
          rcases transform_agrees hdepth entity payload id with hcut | hsame
          · rw [h] at hcut
            exact absurd (Except.error.inj hcut) htoo
          · rw [← hsame, h]

/-! Folders in folders, and their owners. A folder may be written with the folders in it, but not with what is in
these. -/

def innerFolders : Relation := ⟨"folders", "Folder", .many, [], ["parentId"]⟩

def folderEntity : Entity := ⟨"Folder", ["id"], [⟨"id", .scalar, "int", false, false, true, false⟩,
    ⟨"ownerId", .scalar, "int", true, false, false, false⟩, ⟨"owner", .relation, "User", true, false, false, false⟩,
    ⟨"folders", .relation, "Folder", false, false, false, true⟩],
  [⟨"owner", "User", .one, ["ownerId"], ["id"]⟩, innerFolders]⟩

def folderSchema : Schema := ⟨[("Folder", .ok folderEntity),
  ("User", .ok ⟨"User", ["id"], [⟨"id", .scalar, "int", false, false, true, false⟩], []⟩)]⟩

def filer : Writer := { view := ⟨folderSchema, ⟨[]⟩, .principal {}⟩, maxDepth := 0 }

def ownedFolder : Object := [("ownerId", .int 7)]

def folderOf (inner : Object) : Object := [("folders", .list [.object inner])]

/-- The folder of an owned folder, as it is created. -/
def filedFolder : Object := [("folders", .object [("create", .list [.object
  [("owner", .object [("connect", .object [("id", .int 7)])])]])])]

theorem ownedFolder_plain : filer.Plain "Folder" ownedFolder := by
  intro v hn
  cases hn with
  | here hr hm | inside hr hm => cases List.mem_singleton.mp hm; cases hr

theorem folderOf_plain {inner : Object} (h : filer.Plain "Folder" inner) : filer.Plain "Folder" (folderOf inner) := by
  intro v hn
  cases hn with
  | here _ hm => cases List.mem_singleton.mp hm; rfl
  | inside hr hm hi hn =>
      cases List.mem_singleton.mp hm
      cases hr
      cases List.mem_singleton.mp hi
      exact h _ hn

/-- What is in a folder is gone into with the folder. -/
theorem folderOf_works (inner : Object) : Works false folderEntity (folderOf inner) innerFolders (.list [.object inner]) :=
  @Works.created _ _ _ "folders" _ rfl rfl rfl ⟨[], [], rfl, nofun⟩ rfl

theorem folderOf_opens (inner : Object) :
    filer.Opens false innerFolders (.list [.object (folderOf inner)]) (folderOf inner) :=
  @Opens.created _ _ _ [] ["id"] none _ (folderOf inner) rfl rfl rfl rfl (List.mem_singleton.mpr rfl)
    (.inr (.inl ⟨"id", List.mem_singleton.mpr rfl, rfl⟩))

theorem deepFolder_entered : filer.GoesInto "Folder" (folderOf (folderOf ownedFolder)) none 2 :=
  ⟨folderEntity, [], "folders", innerFolders, folderOf (folderOf ownedFolder), rfl, rfl, rfl, rfl, rfl, ⟨[], [], rfl, nofun⟩,
    rfl, .further (folderOf_opens ownedFolder) rfl (folderOf_works ownedFolder) .here⟩

/-- A folder in a folder in a folder is refused. -/
theorem deepFolder_refused :
    0 ≤ filer.maxDepth ∧ filer.Plain "Folder" (folderOf (folderOf ownedFolder)) ∧
    filer.GoesInto "Folder" (folderOf (folderOf ownedFolder)) none 2 ∧
    filer.transform "Folder" (folderOf (folderOf ownedFolder)) none = .error filer.tooDeep := by
  have hp := folderOf_plain (folderOf_plain ownedFolder_plain)
  refine ⟨by decide, hp, deepFolder_entered, ?_⟩
  obtain ⟨-, hdeep⟩ := nesting_bounded filer (by decide) hp none
  rcases hdeep 2 deepFolder_entered (by decide) with hcut | ⟨failure, hsame⟩
  · exact hcut
  · -- one level more would do
    cases hsame 1 (by decide)

/-- The owner of a folder in a folder is connected two levels deep, where the limit is one level. -/
theorem filedFolder_deeper :
    filer.Plain "Folder" (folderOf ownedFolder) ∧ filer.create "Folder" (folderOf ownedFolder) = .ok filedFolder ∧
    OperationsAt folderSchema 2 "Folder" filedFolder "Folder" "owner" [("connect", .object [("id", .int 7)])] ∧
    ¬ (2 : Int) ≤ filer.maxDepth + 1 := by
  refine ⟨folderOf_plain ownedFolder_plain, rfl, ?_, by decide⟩
  have hpart : .created (.object [("owner", .object [("connect", .object [("id", .int 7)])])]) ∈
      Part.ofOperations [("create", .list [.object [("owner", .object [("connect", .object [("id", .int 7)])])]])] :=
    List.mem_singleton.mpr rfl
  exact .inside rfl (List.mem_singleton.mpr rfl) hpart rfl (.here rfl (List.mem_singleton.mpr rfl) rfl)

end Writer

end RecordGraph
