import RecordGraph.Proofs.Operation.Batches
import RecordGraph.Proofs.Operation.Reads

/-!
# The account of a batch

Whatever a storage answers, the numbers with which a batch ends add up to its rows.
-/

namespace RecordGraph

/-! ## Writes over a recorded storage -/

namespace FailedRow

/-- Rows that failed by themselves. -/
def Single (failed : List FailedRow) : Prop :=
  ∀ row ∈ failed, row.record.isSome = true ∧ row.records.isSome = false

variable {failed : List FailedRow}

theorem Single.filter_record (h : Single failed) : failed.filter (·.record.isSome) = failed :=
  List.filter_eq_self.mpr fun row hrow => (h row hrow).1

theorem Single.filter_records (h : Single failed) : failed.filter (·.records.isSome) = [] := by
  refine List.filter_eq_nil_iff.mpr fun row hrow => ?_
  rw [(h row hrow).2]
  exact Bool.false_ne_true

end FailedRow

def Call.isBulk : Call → Bool
  | .createMany .. => true
  | _ => false

namespace Deal

variable {σ : Type} {e : Engine σ} {entity : String}

/-- Whether several rows are written in one statement. -/
def isBulk : Deal → Bool
  | createMany .. => true
  | create .. | update .. => false

theorem call_isBulk (d : Deal) : (d.call entity).isBulk = d.isBulk := by cases d <;> rfl

theorem single_of_calls {deals : List Deal} {calls : List Call} (h : deals.map (call entity) = calls)
    (hc : ∀ c ∈ calls, c.isBulk = false) : ∀ d ∈ deals, d.isBulk = false := by
  intro d hd
  have hcall : (d.call entity).isBulk = false := hc _ (h ▸ List.mem_map_of_mem hd)
  rwa [call_isBulk] at hcall

/-- A write of one row is counted once, as created, as updated or as failed. -/
theorem counted_once {d : Deal} (h : d.isBulk = false) :
    d.created + d.updated + (d.failure? e).toList.length = 1 := by
  cases d with
  | createMany _ _ => cases h
  | create body answer => cases answer <;> rfl
  | update filter changes answer => rcases answer with f | _ | record <;> rfl

theorem sum_counted {deals : List Deal} (h : ∀ d ∈ deals, d.isBulk = false) :
    (deals.map created).sum + (deals.map updated).sum + (deals.filterMap (failure? e)).length =
      deals.length := by
  induction deals with
  | nil => rfl
  | cons d deals ih =>
      have hd := counted_once (e := e) (h d List.mem_cons_self)
      have hrest := ih fun d hd => h d (List.mem_cons_of_mem _ hd)
      cases hf : d.failure? e <;> rw [hf] at hd <;>
        simp only [List.map_cons, List.sum_cons, List.filterMap_cons, hf, List.length_cons, Option.toList_some,
          Option.toList_none, List.length_nil] at hd ⊢ <;>
        omega

/-- What failed by itself is listed by itself. -/
theorem failure_single {d : Deal} {row : FailedRow} (h : d.isBulk = false) (hf : d.failure? e = some row) :
    row.record.isSome = true ∧ row.records.isSome = false := by
  cases d with
  | createMany _ _ => cases h
  | create body answer =>
      cases answer with
      | error f => cases hf; exact ⟨rfl, rfl⟩
      | ok _ => cases hf
  | update filter changes answer =>
      rcases answer with f | _ | record
      · cases hf; exact ⟨rfl, rfl⟩
      · cases hf; exact ⟨rfl, rfl⟩
      · cases hf

theorem failures_single {deals : List Deal} (h : ∀ d ∈ deals, d.isBulk = false) :
    FailedRow.Single (deals.filterMap (failure? e)) := by
  intro row hrow
  obtain ⟨d, hd, hf⟩ := List.mem_filterMap.mp hrow
  exact failure_single (h d hd) hf

end Deal

theorem Fate.refusals_single {fates : List Fate} : FailedRow.Single (fates.filterMap refusal?) := by
  intro row hrow
  obtain ⟨fate, _, hf⟩ := List.mem_filterMap.mp hrow
  cases fate with
  | refuse _ => cases hf; exact ⟨rfl, rfl⟩
  | update _ _ | create _ => cases hf

theorem Dealt.recorded {σ : Type} {tx : Access σ} {entity : String} {s t : Recorded σ} {deals : List Deal}
    (h : Dealt tx.recorded entity s deals t) :
    Dealt tx entity s.state deals t.state ∧ t.calls = s.calls ++ deals.map (Deal.call entity) := by
  induction h with
  | nil => exact ⟨.nil, (List.append_nil _).symm⟩
  | @cons s u t d deals made _ ih =>
      have hstep : d.Made tx entity s.state u.state ∧ u.calls = s.calls ++ [d.call entity] := by
        cases d with
        | create body answer | createMany bodies answer | update filter changes answer =>
            obtain ⟨hout, hnext⟩ := Prod.mk.inj made
            subst hnext
            exact ⟨Prod.ext hout rfl, rfl⟩
      refine ⟨.cons hstep.1 ih.1, ?_⟩
      rw [ih.2, hstep.2, List.append_assoc]
      rfl

namespace Engine

section Account

variable {σ : Type} {e : Engine (Recorded σ)} {tx : Access σ} {entity : String} {user : User}
  {permission : Object} {key : Key.UniqueKey} {follow : Bool} {rows : List Value} {batch : Batch}
  {s t : Recorded σ}

/-- The look-up of a batch only reads. -/
theorem existingKeys_asks {payloads : List Object} :
    (existingKeys tx.recorded entity key payloads).Asks fun calls _ =>
      ∀ call ∈ calls, ∃ plan, call = .findMany entity plan := by
  rw [existingKeys_eq]
  split
  · exact Act.asks_pure nofun
  · have hfind : ((tx.findMany entity (key.lookup (payloads.filter key.isGiven))).noted
        (.findMany entity (key.lookup (payloads.filter key.isGiven)))).Asks fun calls _ =>
          ∀ call ∈ calls, ∃ plan, call = .findMany entity plan := by
      refine Act.asks_noted fun _ call hcall => ?_
      exact ⟨_, List.mem_singleton.mp hcall⟩
    refine hfind.bind (fun _ _ h => h) fun calls found h => ?_
    exact Act.asks_ofExcept (by rwa [List.append_nil])

/-- How the statement for all new rows enters an account. -/
inductive HandedOver (e : Engine (Recorded σ)) (handed : List Object) (deals : List Deal) (batch : Batch) : Prop where
  | idle (empty : handed = []) (asked : deals.filter Deal.isBulk = []) (created : batch.created = 0)
      (failed : batch.failed.filter (·.records.isSome) = [])
  | counted (n : Int) (asked : deals.filter Deal.isBulk = [.createMany handed (.ok n)])
      (created : batch.created = n) (failed : batch.failed.filter (·.records.isSome) = [])
  | faulted (f : StorageFault) (asked : deals.filter Deal.isBulk = [.createMany handed (.error f)])
      (created : batch.created = 0)
      (failed : batch.failed.filter (·.records.isSome) = [e.failedRow f none (some handed)])

theorem createCalls_following {bodies : List Object} :
    createCalls entity true bodies = bodies.map fun body => .create entity body none := by
  cases bodies <;> rfl

theorem upsertRows_accounts
    (hrun : (e.upsertRows tx.recorded entity user permission key follow rows).runOn s = (.ok batch, t)) :
    ∃ (looked : Recorded σ) (deals : List Deal),
      (∃ reads, looked.calls = s.calls ++ reads ∧ ∀ call ∈ reads, ∃ plan, call = .findMany entity plan) ∧
      Dealt tx entity looked.state deals t.state ∧ t.calls = looked.calls ++ deals.map (Deal.call entity) ∧
      batch.totalSuccess = batch.created + batch.updated ∧ batch.totalFailed = batch.failed.length ∧
      (follow = true → (∀ d ∈ deals, d.isBulk = false) ∧
        batch.created + batch.updated + batch.failed.length = rows.length) ∧
      (follow = false → ∃ handed, e.HandedOver handed deals batch ∧
        batch.updated + (batch.failed.filter (·.record.isSome)).length + handed.length = rows.length) := by
  obtain ⟨payloads, existing, looked, fates, deals, hpayloads, h⟩ := upsertRows_ok hrun
  have hrows : rows.length = fates.length :=
    (mapM_ok_forall₂ hpayloads).length_eq.trans h.sorted.length_eq
  have hparts := Fate.length_parts fates
  have hasks : (existingKeys tx.recorded entity key payloads).Asks _ := existingKeys_asks
  obtain ⟨reads, hreads, honly⟩ := hasks s
  rw [h.found] at hreads
  obtain ⟨hdealt, hcalls⟩ := h.dealt.recorded
  obtain ⟨news, changes, rfl, hnews, hchanges⟩ := h.parts
  have hsingle : ∀ d ∈ changes, d.isBulk = false := by
    intro d hd
    obtain ⟨_, _, _, rfl⟩ := updateCalls_made hchanges d hd
    rfl
  have hcount := Deal.sum_counted (e := e) hsingle
  have hlength : changes.length = (fates.filterMap Fate.update?).length := by
    simpa [updateCalls] using congrArg List.length hchanges
  obtain rfl := h.account
  refine ⟨looked, news ++ changes, ⟨reads, hreads, honly⟩, hdealt, hcalls, rfl, rfl, ?_, ?_⟩
  · rintro rfl
    rw [createCalls_following] at hnews
    have hnewsSingle := Deal.single_of_calls hnews (List.forall_mem_map.mpr fun _ _ => rfl)
    have hnewsCount := Deal.sum_counted (e := e) hnewsSingle
    have hnewsLength : news.length = (fates.filterMap Fate.create?).length := by
      simpa using congrArg List.length hnews
    refine ⟨fun d hd => (List.mem_append.mp hd).elim (hnewsSingle d) (hsingle d), ?_⟩
    simp only [account, Batch.finalize, List.map_append, List.sum_append, List.filterMap_append,
      List.length_append]
    omega
  · rintro rfl
    have hrefused : FailedRow.Single (fates.filterMap Fate.refusal?) := Fate.refusals_single
    have hfailed : FailedRow.Single (changes.filterMap (Deal.failure? e)) := Deal.failures_single hsingle
    have hasked : changes.filter Deal.isBulk = [] := by
      refine List.filter_eq_nil_iff.mpr fun d hd => ?_
      rw [hsingle d hd]
      exact Bool.false_ne_true
    have hcreated : (changes.map Deal.created).sum = 0 := updateCalls_created hchanges
    refine ⟨fates.filterMap Fate.create?, ?_⟩
    simp only [account, Batch.finalize, List.map_append, List.sum_append, List.filterMap_append, List.filter_append,
      hcreated, hrefused.filter_record, hfailed.filter_record, List.length_append]
    rcases createCalls_together hnews with ⟨hnone, rfl⟩ | ⟨f | n, rfl⟩
    · refine ⟨.idle hnone hasked rfl ?_, ?_⟩
      · simp [hrefused.filter_records, hfailed.filter_records]
      · simp only [List.map_nil, List.sum_nil, zero_add, List.filterMap_nil, List.filter_nil, List.length_nil,
          Int.natCast_add]
        omega
    · have hnewsFailed : [Deal.createMany (fates.filterMap Fate.create?) (.error f)].filterMap (Deal.failure? e) =
          [e.failedRow f none (some (fates.filterMap Fate.create?))] := rfl
      refine ⟨.faulted f ?_ rfl ?_, ?_⟩
      · rw [List.filter_append, hasked]
        rfl
      · simp [hrefused.filter_records, hfailed.filter_records, hnewsFailed, failedRow]
      · simp only [List.map_cons, Deal.updated, List.map_nil, List.sum_cons, List.sum_nil, add_zero, zero_add,
          hnewsFailed, failedRow, Option.getD_none, Option.isSome_none, Bool.false_eq_true, not_false_eq_true,
          List.filter_cons_of_neg, List.filter_nil, List.length_nil, Int.natCast_add]
        omega
    · have hnewsFailed : [Deal.createMany (fates.filterMap Fate.create?) (.ok n)].filterMap (Deal.failure? e) =
          [] := rfl
      refine ⟨.counted n ?_ ?_ ?_, ?_⟩
      · rw [List.filter_append, hasked]
        rfl
      · simp [Deal.created]
      · simp [hrefused.filter_records, hfailed.filter_records, hnewsFailed]
      · simp only [List.map_cons, Deal.updated, List.map_nil, List.sum_cons, List.sum_nil, add_zero, zero_add,
          hnewsFailed, List.filter_nil, List.length_nil, Int.natCast_add]
        omega

end Account

/-! A club with one member, whose storage is lost when new members are to be written. -/

def memberAccess : Access Unit :=
  { emptyAccess with
    findMany := fun _ _ => pure [.object [("id", .int 1)]]
    createMany := fun _ _ => throw (.faultOf .connectionFailed "The connection was lost") }

def members : List Value := [.object [("id", .int 1)], .object [("id", .int 2)], .object [("id", .int 3)]]

def membersBatch : Batch :=
  { failed := [
      { records := some [[("id", .int 2)], [("id", .int 3)]], code := some "connection_failed"
        message := "Connection to the database could not be established" },
      { record := some [], code := some "no_permission", message := "no_permission" }]
    totalFailed := 2 }

/-- One row was not updated, and two were handed over in vain. -/
theorem members_accounted :
    ∃ t, ((recorded emptyBackend clubSchema {} {} {}).upsertRows memberAccess.recorded "User" (.principal {}) []
      (.single "id") false members).runOn ⟨(), []⟩ = (.ok membersBatch, t) ∧
    ∃ handed deals, (recorded emptyBackend clubSchema {} {} {}).HandedOver handed deals membersBatch ∧
      membersBatch.updated + (membersBatch.failed.filter (·.record.isSome)).length + handed.length =
        members.length := by
  have hrun : ((recorded emptyBackend clubSchema {} {} {}).upsertRows memberAccess.recorded "User" (.principal {}) []
      (.single "id") false members).runOn ⟨(), []⟩ = (.ok membersBatch, _) := rfl
  obtain ⟨_, deals, _, _, _, _, _, _, hbulk⟩ := upsertRows_accounts hrun
  obtain ⟨handed, hover, hcount⟩ := hbulk rfl
  exact ⟨_, hrun, handed, deals, hover, hcount⟩

end Engine

end RecordGraph
