import SmBridge.PersistentStore

/-!
# Additions that are not persisted

The memory takes a delta before the durable write, and keeps it when the write raises. A cursor
below the durable rows is then answered from the table, and one above them from the memory.
-/
namespace FailedPersist

open Python
open Store
open Gateway
open OrderedLog
open StoreRuns
open PersistentStore
open PersistentDeltaStore

/-- A call of `add`, and what its `_persist` raises. -/
structure AddCall where
  action : Action
  agent : SmAgentFacts
  failure : Option PyError

/-- `PersistentDeltaStore.add`. A row whose write raises is not durable. -/
def addCall (store : PersistentDeltaStore) (call : AddCall) :
    PersistentDeltaStore × Except PyError SmAgentFactsDelta :=
  let (delta, store) := store.append call.action call.agent
  match call.failure with
  | some exc => (store, .error exc)
  | none => (store.persist delta, .ok delta)

def AddCall.apply (store : PersistentDeltaStore) (call : AddCall) : PersistentDeltaStore :=
  (addCall store call).1

/-- The store after calls, of which any may have raised. -/
def storeAfter (calls : List AddCall) : PersistentDeltaStore :=
  calls.foldl AddCall.apply PersistentDeltaStore.empty

/-- What a caller can see of the store is what it was. -/
structure Unchanged (store store' : PersistentDeltaStore) : Prop where
  nextSeq : store'.memory.nextSeq = store.memory.nextSeq
  snapshot : store'.memory.snapshot = store.memory.snapshot
  since : ∀ k, store'.since k = store.since k

/-- Every cursor sees the rows of one history. -/
def Consistent (store : PersistentDeltaStore) : Prop :=
  ∀ k, store.since k = (store.since 0).filter fun d => k < d.seq

/-- Of the calls, one that raises leaves the store unchanged, and the store is consistent at
every moment. -/
def AllOrNothing (calls : List AddCall) : Prop :=
  ∀ before, before <+: calls → Consistent (storeAfter before) ∧
    ∀ call, before ++ [call] <+: calls → call.failure ≠ none →
      Unchanged (storeAfter before) (storeAfter (before ++ [call]))

theorem storeAfter_concat (calls : List AddCall) (call : AddCall) :
    storeAfter (calls ++ [call]) = call.apply (storeAfter calls) := by
  rw [storeAfter, List.foldl_append]
  rfl

theorem apply_memory (store : PersistentDeltaStore) (call : AddCall) :
    (call.apply store).memory = store.memory.add call.action call.agent := by
  rw [AddCall.apply, addCall]
  cases call.failure <;> rfl

theorem apply_table (store : PersistentDeltaStore) (call : AddCall) :
    (call.apply store).table = store.table ++
      if call.failure = none then [⟨store.memory.seq + 1, call.action, call.agent⟩] else [] := by
  rw [AddCall.apply, addCall]
  cases call.failure with
  | none => rfl
  | some exc => exact (List.append_nil _).symm

/-! ## What the table holds -/

/-- The table holds deltas of the memory, in their order. -/
structure Recorded (store : PersistentDeltaStore) : Prop where
  memory : Gateway.Invariant store.memory
  table : store.table.Sublist store.memory.deltas

theorem apply_recorded {store : PersistentDeltaStore} (h : Recorded store) (call : AddCall) :
    Recorded (call.apply store) where
  memory := by
    rw [apply_memory]
    exact add_preserves_invariant h.memory call.action call.agent
  table := by
    rw [apply_table, apply_memory, DeltaStore.add_deltas]
    refine h.table.append ?_
    split
    · exact List.Sublist.refl _
    · exact List.nil_sublist _

theorem storeAfter_recorded (calls : List AddCall) : Recorded (storeAfter calls) := by
  induction calls using List.reverseRecOn with
  | nil => exact ⟨empty_invariant, List.Sublist.refl _⟩
  | append_singleton calls call ih =>
    rw [storeAfter_concat]
    exact apply_recorded ih call

/-- The table is the whole memory as long as nothing raises. -/
theorem table_of_none_raises {calls : List AddCall} (h : ∀ call ∈ calls, call.failure = none) :
    (storeAfter calls).table = (storeAfter calls).memory.deltas := by
  induction calls using List.reverseRecOn with
  | nil => rfl
  | append_singleton calls call ih =>
    rw [storeAfter_concat, apply_table, apply_memory, DeltaStore.add_deltas,
      ih fun c hc => h c (List.mem_append_left _ hc), if_pos (h call (by simp))]

section Recorded

variable {store : PersistentDeltaStore} (h : Recorded store)
include h

theorem table_increasing : store.table.Pairwise fun d d' => d.seq < d'.seq :=
  h.memory.increasing.sublist h.table

theorem loadSince_eq (k : ℤ) : store.loadSince k = store.table.filter fun d => k < d.seq := by
  rw [loadSince, List.mergeSort_of_pairwise]
  exact ((table_increasing h).filter _).imp fun hlt => decide_eq_true hlt.le

theorem since_of_table {k : ℤ} (hrows : (store.table.filter fun d => k < d.seq) ≠ []) :
    store.since k = store.table.filter fun d => k < d.seq := by
  rw [since, loadSince_eq h]
  exact if_neg fun hempty => hrows (List.isEmpty_iff.mp hempty)

theorem since_of_memory {k : ℤ} (hrows : (store.table.filter fun d => k < d.seq) = []) :
    store.since k = store.memory.since k := by
  rw [since, loadSince_eq h, hrows]
  rfl

theorem memory_since_zero : store.memory.since 0 = store.memory.deltas :=
  List.filter_eq_self.mpr fun d hd => decide_eq_true (h.memory.bounded d hd).1

theorem table_since_zero : (store.table.filter fun d => 0 < d.seq) = store.table :=
  List.filter_eq_self.mpr fun d hd => decide_eq_true (h.memory.bounded d (h.table.subset hd)).1

/-- What the cursor 0 sees. -/
theorem since_zero :
    store.since 0 = if store.table = [] then store.memory.deltas else store.table := by
  split
  · have hnone : (store.table.filter fun d => 0 < d.seq) = [] := by
      rw [table_since_zero h]
      assumption
    rw [since_of_memory h hnone, memory_since_zero h]
  · have hsome : (store.table.filter fun d => 0 < d.seq) ≠ [] := by
      rw [table_since_zero h]
      assumption
    rw [since_of_table h hsome, table_since_zero h]

/-- No row of the table is behind a delta exactly if none of the memory is. -/
def TableLast (store : PersistentDeltaStore) : Prop :=
  ∀ k, (store.table.filter fun d => k < d.seq) = [] → store.memory.since k = []

theorem consistent_of_table_ne_nil (hrows : store.table ≠ []) :
    Consistent store ↔ TableLast store := by
  refine forall_congr' fun k => ?_
  rw [since_zero h, if_neg hrows]
  by_cases hnone : (store.table.filter fun d => k < d.seq) = []
  · rw [since_of_memory h hnone, hnone]
    exact ⟨fun hsince _ => hsince, fun hsince => hsince rfl⟩
  · rw [since_of_table h hnone]
    exact iff_of_true rfl fun habs => absurd habs hnone

theorem tableLast_iff (hrows : store.table ≠ []) :
    TableLast store ↔ store.table.getLast? = store.memory.deltas.getLast? := by
  obtain ⟨row, hrow⟩ := Option.ne_none_iff_exists'.mp (mt List.getLast?_eq_none_iff.mp hrows)
  obtain ⟨hmem, hmax⟩ := (getLast?_eq_some_iff (table_increasing h)).mp hrow
  rw [hrow, eq_comm, getLast?_eq_some_iff h.memory.increasing]
  constructor
  · intro hlast
    refine ⟨h.table.subset hmem, fun d hd => ?_⟩
    have hnone : (store.table.filter fun d => row.seq < d.seq) = [] :=
      List.filter_eq_nil_iff.mpr fun d hd hlt => (hmax d hd).not_gt (of_decide_eq_true hlt)
    exact not_lt.mp fun hlt =>
      List.filter_eq_nil_iff.mp (hlast row.seq hnone) d hd (decide_eq_true hlt)
  · intro hlast k hnone
    have hle : row.seq ≤ k :=
      not_lt.mp fun hlt => List.filter_eq_nil_iff.mp hnone row hmem (decide_eq_true hlt)
    exact List.filter_eq_nil_iff.mpr fun d hd hlt =>
      ((hlast.2 d hd).trans hle).not_gt (of_decide_eq_true hlt)

/-- All cursors see one history exactly if nothing is durable, or the last delta is. -/
theorem consistent_iff :
    Consistent store ↔ store.table = [] ∨ store.table.getLast? = store.memory.deltas.getLast? := by
  by_cases hrows : store.table = []
  · refine iff_of_true (fun k => ?_) (Or.inl hrows)
    have hnone : ∀ k, (store.table.filter fun d => k < d.seq) = [] := fun k => by rw [hrows]; rfl
    rw [since_of_memory h (hnone k), since_of_memory h (hnone 0), memory_since_zero h]
    rfl
  · rw [consistent_of_table_ne_nil h hrows, tableLast_iff h hrows]
    exact ⟨Or.inr, fun hlast => hlast.resolve_left hrows⟩

end Recorded

/-! ## Runs of calls -/

/-- An addition that raises has taken a number. -/
theorem nextSeq_apply (store : PersistentDeltaStore) (call : AddCall) :
    (call.apply store).memory.nextSeq = store.memory.nextSeq + 1 := by
  rw [apply_memory]
  rfl

/-- Failed additions are all or nothing exactly if there are none. -/
theorem all_or_nothing_iff (calls : List AddCall) :
    AllOrNothing calls ↔ ∀ call ∈ calls, call.failure = none := by
  constructor
  · intro h call hcall
    by_contra hfailure
    obtain ⟨before, rest, rfl⟩ := List.append_of_mem hcall
    have hnext : before ++ [call] <+: before ++ call :: rest := ⟨rest, by simp⟩
    have hunchanged := (h before (List.prefix_append _ _)).2 call hnext hfailure
    have hseq := hunchanged.nextSeq
    rw [storeAfter_concat, nextSeq_apply] at hseq
    omega
  · intro h before hbefore
    have hbefore' : ∀ call ∈ before, call.failure = none := fun call hcall =>
      h call (hbefore.subset hcall)
    constructor
    · refine (consistent_iff (storeAfter_recorded before)).mpr (Or.inr ?_)
      rw [table_of_none_raises hbefore']
    · intro call hnext hfailure
      exact absurd (h call (hnext.subset (by simp))) hfailure

/-- After an addition all cursors see one history exactly if it is durable, or no addition is. -/
theorem consistent_after_iff (calls : List AddCall) (call : AddCall) :
    Consistent (storeAfter (calls ++ [call])) ↔
      call.failure = none ∨ (storeAfter calls).table = [] := by
  have hrecorded := storeAfter_recorded calls
  rw [consistent_iff (storeAfter_recorded _), storeAfter_concat, apply_table, apply_memory,
    DeltaStore.add_deltas, List.getLast?_concat]
  by_cases hfailure : call.failure = none
  · rw [if_pos hfailure, List.getLast?_concat]
    exact iff_of_true (Or.inr rfl) (Or.inl hfailure)
  · rw [if_neg hfailure, List.append_nil]
    refine ⟨fun h => Or.inr (h.resolve_right fun hlast => ?_),
      fun h => Or.inl (h.resolve_left hfailure)⟩
    -- the delta in memory only has a number above all that are durable
    have hmem := hrecorded.table.subset (List.mem_of_getLast? hlast)
    have hbound := (hrecorded.memory.bounded _ hmem).2
    change (storeAfter calls).memory.seq + 1 ≤ (storeAfter calls).memory.seq at hbound
    omega

/-! ## A write that fails after one that does not -/

def persisted (agent : SmAgentFacts) : AddCall := ⟨.upsert, agent, none⟩

def lost (agent : SmAgentFacts) : AddCall :=
  ⟨.upsert, agent, some (.other "OperationalError" "disk full")⟩

/-- The cursor 0 does not see the delta that the cursor 1 sees. -/
theorem lost_delta_not_all_or_nothing :
    ¬ AllOrNothing [persisted firstAgent, lost secondAgent] := by
  intro h
  have hconsistent := (h _ (List.prefix_refl _)).1
  rcases (consistent_after_iff [persisted firstAgent] (lost secondAgent)).mp hconsistent with
    hfailure | htable
  · cases hfailure
  · cases htable

end FailedPersist
