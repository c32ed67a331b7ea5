import RecordGraph.Mutation.Create
import RecordGraph.Mutation.Update
import RecordGraph.Query.Selection

/-!
# Rules that concur

Rules concur on a user if they answer every question about the user alike. What is worked out from a
request for that user, to read or to write, is then the same under both. All rules concur on the
system.
-/

namespace RecordGraph

structure Rules.Concur (rs rs' : Rules) (user : User) : Prop where
  decide : ∀ action entity, rs.decide action entity user = rs'.decide action entity user
  canCreate : ∀ entity payload, rs.canCreate entity user payload = rs'.canCreate entity user payload
  omitted : ∀ entity, rs.omitted entity user = rs'.omitted entity user

/-- The system is asked nothing. -/
theorem Rules.concur_system (rs rs' : Rules) : rs.Concur rs' .system :=
  ⟨fun _ _ => rfl, fun _ _ => rfl, fun _ => rfl⟩

variable {s : Schema} {rs rs' : Rules} {user : User} (h : rs.Concur rs' user)

include h

/-! ## Answers -/

namespace Rules.Concur

theorem viewDecide : Viewpoint.decide ⟨s, rs, user⟩ = Viewpoint.decide ⟨s, rs', user⟩ := by
  funext action entity
  exact h.decide action entity

theorem viewCanCreate : Viewpoint.canCreate ⟨s, rs, user⟩ = Viewpoint.canCreate ⟨s, rs', user⟩ := by
  funext entity payload
  exact h.canCreate entity payload

theorem viewOmitted : Viewpoint.omitted ⟨s, rs, user⟩ = Viewpoint.omitted ⟨s, rs', user⟩ := by
  funext entity
  exact h.omitted entity

theorem filterFor (action : Action) (entity : String) :
    rs.filterFor action entity user = rs'.filterFor action entity user := by
  simp only [Rules.filterFor, h.decide]

theorem ensureCanCreate (entity : String) (payload : Value) :
    rs.ensureCanCreate entity user payload = rs'.ensureCanCreate entity user payload := by
  simp only [Rules.ensureCanCreate, h.canCreate]

theorem viewFilterFor : Viewpoint.filterFor ⟨s, rs, user⟩ = Viewpoint.filterFor ⟨s, rs', user⟩ := by
  funext action entity
  exact h.filterFor action entity

theorem viewEnsureCanCreate :
    Viewpoint.ensureCanCreate ⟨s, rs, user⟩ = Viewpoint.ensureCanCreate ⟨s, rs', user⟩ := by
  funext entity payload
  exact h.ensureCanCreate entity payload

theorem omission : Viewpoint.omission ⟨s, rs, user⟩ = Viewpoint.omission ⟨s, rs', user⟩ := by
  funext entity
  simp only [Viewpoint.omission, h.viewOmitted]

/-! ## Reading -/

theorem entry : Include.entry ⟨s, rs, user⟩ = Include.entry ⟨s, rs', user⟩ := by
  funext parent r nested
  simp only [Include.entry, h.viewDecide, h.omission]

theorem level : Include.level ⟨s, rs, user⟩ = Include.level ⟨s, rs', user⟩ := by
  funext below entity groups
  simp only [Include.level, h.entry]

/-- The paths of an include list, by induction on how far down they go. -/
theorem paths : Include.paths ⟨s, rs, user⟩ = Include.paths ⟨s, rs', user⟩ := by
  funext depth
  induction depth with
  | zero => simp only [Include.paths, h.level]
  | succ depth ih => simp only [Include.paths, h.level, ih]

theorem everyRelation : Include.everyRelation ⟨s, rs, user⟩ = Include.everyRelation ⟨s, rs', user⟩ := by
  funext entity
  simp only [Include.everyRelation, h.entry]

theorem resolve : Include.resolve ⟨s, rs, user⟩ = Include.resolve ⟨s, rs', user⟩ := by
  funext maxDepth entity request
  simp only [Include.resolve, h.everyRelation, h.paths]

/-- The fields of a relation that are read, by induction on the dots that are left. -/
theorem relationSelect :
    Selection.relationSelect ⟨s, rs, user⟩ = Selection.relationSelect ⟨s, rs', user⟩ := by
  funext fuel
  induction fuel with
  | zero =>
      funext r rests content
      unfold Selection.relationSelect
      simp only [h.omission, h.entry]
  | succ fuel ih =>
      funext r rests content
      unfold Selection.relationSelect
      simp only [h.omission, h.entry, ih]

theorem compile : Selection.compile ⟨s, rs, user⟩ = Selection.compile ⟨s, rs', user⟩ := by
  funext maxDepth entity fields includes
  simp only [Selection.compile, h.resolve, h.omission, h.entry, h.relationSelect, Include.available]

/-! ## Writing -/

variable {audit : List String} {depth : Int}

theorem strip : Writer.strip ⟨⟨s, rs, user⟩, audit, depth⟩ = Writer.strip ⟨⟨s, rs', user⟩, audit, depth⟩ := by
  funext entity payload
  simp only [Writer.strip, h.viewOmitted]

theorem guarded :
    Writer.guarded ⟨⟨s, rs, user⟩, audit, depth⟩ = Writer.guarded ⟨⟨s, rs', user⟩, audit, depth⟩ := by
  funext target condition
  simp only [Writer.guarded, h.viewFilterFor]

theorem connect :
    Writer.connect ⟨⟨s, rs, user⟩, audit, depth⟩ = Writer.connect ⟨⟨s, rs', user⟩, audit, depth⟩ := by
  funext r value
  simp only [Writer.connect, Writer.connectWhere, h.guarded]

theorem linkForeignKeys : Writer.linkForeignKeys ⟨⟨s, rs, user⟩, audit, depth⟩ =
    Writer.linkForeignKeys ⟨⟨s, rs', user⟩, audit, depth⟩ := by
  funext entity updating body
  simp only [Writer.linkForeignKeys, h.connect]

theorem createItem : Writer.createItem ⟨⟨s, rs, user⟩, audit, depth⟩ =
    Writer.createItem ⟨⟨s, rs', user⟩, audit, depth⟩ := by
  funext nesting entity path item
  have hmember : Writer.createMember ⟨⟨s, rs, user⟩, audit, depth⟩ nesting =
      Writer.createMember ⟨⟨s, rs', user⟩, audit, depth⟩ nesting := by
    funext e path result key
    simp only [Writer.createMember, h.connect]
  simp only [Writer.createItem, hmember]

theorem createMany : Writer.createMany ⟨⟨s, rs, user⟩, audit, depth⟩ =
    Writer.createMany ⟨⟨s, rs', user⟩, audit, depth⟩ := by
  funext nesting r items path
  have hplace : Writer.placeItem ⟨⟨s, rs, user⟩, audit, depth⟩ nesting =
      Writer.placeItem ⟨⟨s, rs', user⟩, audit, depth⟩ nesting := by
    funext r path keys joined dropped item
    simp only [Writer.placeItem, Writer.checkedItem, h.viewEnsureCanCreate, h.createItem, h.guarded]
  simp only [Writer.createMany, h.viewOmitted, hplace]

theorem createOne : Writer.createOne ⟨⟨s, rs, user⟩, audit, depth⟩ =
    Writer.createOne ⟨⟨s, rs', user⟩, audit, depth⟩ := by
  funext nesting r item path
  simp only [Writer.createOne, Writer.checkedItem, h.viewEnsureCanCreate, h.viewOmitted, h.createItem]

/-- Nested records that are created, by induction on the levels that are left. -/
theorem createNested : Writer.createNested ⟨⟨s, rs, user⟩, audit, depth⟩ =
    Writer.createNested ⟨⟨s, rs', user⟩, audit, depth⟩ := by
  funext levels
  induction levels with
  | zero => rfl
  | succ levels ih => simp only [Writer.createNested, h.createMany, h.createOne, ih]

theorem create : Writer.create ⟨⟨s, rs, user⟩, audit, depth⟩ = Writer.create ⟨⟨s, rs', user⟩, audit, depth⟩ := by
  funext entity payload
  have hmember : Writer.createTopMember ⟨⟨s, rs, user⟩, audit, depth⟩ =
      Writer.createTopMember ⟨⟨s, rs', user⟩, audit, depth⟩ := by
    funext e result key
    simp only [Writer.createTopMember, Writer.levels, h.createNested, h.connect]
  simp only [Writer.create, h.strip, hmember]

theorem upsertEntries : Writer.upsertEntries ⟨⟨s, rs, user⟩, audit, depth⟩ =
    Writer.upsertEntries ⟨⟨s, rs', user⟩, audit, depth⟩ := by
  funext r keys joinKey parent dropped canCreate items
  have hentry : Writer.upsertEntry ⟨⟨s, rs, user⟩, audit, depth⟩ =
      Writer.upsertEntry ⟨⟨s, rs', user⟩, audit, depth⟩ := by
    funext r keys joinKey parent dropped canCreate guard item
    simp only [Writer.upsertEntry, h.linkForeignKeys]
  cases items with
  | nil => rfl
  | cons => simp only [Writer.upsertEntries, Writer.updateGuard, h.viewFilterFor, hentry]

theorem updateMany : Writer.updateMany ⟨⟨s, rs, user⟩, audit, depth⟩ =
    Writer.updateMany ⟨⟨s, rs', user⟩, audit, depth⟩ := by
  funext nesting r items parent
  simp only [Writer.updateMany, Writer.createBodies, Writer.updateItem, Writer.checkedItem, h.viewOmitted,
    h.viewEnsureCanCreate, h.viewCanCreate, h.guarded, h.upsertEntries, h.linkForeignKeys]

theorem updateOne : Writer.updateOne ⟨⟨s, rs, user⟩, audit, depth⟩ =
    Writer.updateOne ⟨⟨s, rs', user⟩, audit, depth⟩ := by
  funext nesting r item
  simp only [Writer.updateOne, Writer.updateItem, Writer.checkedItem, h.viewOmitted, h.viewEnsureCanCreate,
    h.linkForeignKeys]

/-- Nested records that are updated, by induction on the levels that are left. -/
theorem updateNested : Writer.updateNested ⟨⟨s, rs, user⟩, audit, depth⟩ =
    Writer.updateNested ⟨⟨s, rs', user⟩, audit, depth⟩ := by
  funext levels
  induction levels with
  | zero => rfl
  | succ levels ih =>
      funext parent
      simp only [Writer.updateNested, h.updateMany, h.updateOne, ih]

theorem update : Writer.update ⟨⟨s, rs, user⟩, audit, depth⟩ = Writer.update ⟨⟨s, rs', user⟩, audit, depth⟩ := by
  funext entity id payload
  have hmember : Writer.updateTopMember ⟨⟨s, rs, user⟩, audit, depth⟩ =
      Writer.updateTopMember ⟨⟨s, rs', user⟩, audit, depth⟩ := by
    funext e id result key
    simp only [Writer.updateTopMember, Writer.levels, h.updateNested, h.connect]
  simp only [Writer.update, h.strip, hmember]

end Rules.Concur

end RecordGraph
