import RecordGraph.Operation.Act
import RecordGraph.Query.Plan

/-!
# Storages

What operations ask of a storage: to read rows by a plan, to count and to write them. A record comes
back in the shape of its plan; an update or a deletion that no row answers to comes back with none.
-/

namespace RecordGraph

structure Access (σ : Type) where
  findMany : String → Plan → Act σ (List Value)
  findUnique : String → Plan → Act σ (Option Object)
  count : String → Object → Act σ Int
  create : String → Object → Option Plan → Act σ Object
  update : String → Object → Object → Option Plan → Act σ (Option Object)
  /-- Updates the row that a condition selects, or creates it: condition, new record, changes. -/
  upsert : String → Object → Object → Object → Option Plan → Act σ Object
  delete : String → Object → Option Plan → Act σ (Option Object)
  /-- Creates rows, passing over those that are there already, and counts the new ones. -/
  createMany : String → List Object → Act σ Int

/-- A storage, with a way to do some work in one transaction, given a limit of time. -/
structure Storage (σ : Type) extends Access σ where
  inTransaction : {α : Type} → Value → (Access σ → Act σ α) → Act σ α

end RecordGraph
