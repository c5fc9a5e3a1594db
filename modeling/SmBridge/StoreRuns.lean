import SmBridge.Gateway

/-!
# Runs of a delta store

Every call takes the store's lock, so the calls of any number of threads happen one after
another. What the store answers is determined by the additions since the last `clear`.
-/
namespace StoreRuns

open Store
open Gateway
open Replay

inductive Call where
  | add (action : Action) (agent : SmAgentFacts)
  | since (seq : ℤ)
  | get (seq : ℤ)
  | snapshot
  | clear

def Call.apply (store : DeltaStore) : Call → DeltaStore
  | .add action agent => store.add action agent
  | .clear => store.clear
  | .since _ => store
  | .get _ => store
  | .snapshot => store

def run (calls : List Call) : DeltaStore := calls.foldl Call.apply DeltaStore.empty

/-- The additions that a call leaves behind. -/
def Call.record (adds : List (Action × SmAgentFacts)) : Call → List (Action × SmAgentFacts)
  | .add action agent => adds ++ [(action, agent)]
  | .clear => []
  | .since _ => adds
  | .get _ => adds
  | .snapshot => adds

/-- The additions since the last `clear`, in order. -/
def recorded (calls : List Call) : List (Action × SmAgentFacts) := calls.foldl Call.record []

theorem run_concat (calls : List Call) (call : Call) :
    run (calls ++ [call]) = call.apply (run calls) := by
  rw [run, List.foldl_append]
  rfl

theorem recorded_concat (calls : List Call) (call : Call) :
    recorded (calls ++ [call]) = call.record (recorded calls) := by
  rw [recorded, List.foldl_append]
  rfl

theorem run_eq (calls : List Call) : run calls = storeOf (recorded calls) := by
  induction calls using List.reverseRecOn with
  | nil => rfl
  | append_singleton calls call ih =>
    rw [run_concat, recorded_concat, ih]
    cases call with
    | add action agent => rw [Call.apply, Call.record, storeOf_concat]
    | clear => rfl
    | since _ => rfl
    | get _ => rfl
    | snapshot => rfl

/-! ## What a store of additions answers -/

theorem storeOf_seq (adds : List (Action × SmAgentFacts)) :
    (storeOf adds).seq = adds.length := by
  induction adds using List.reverseRecOn with
  | nil => rfl
  | append_singleton adds add ih =>
    rw [storeOf_concat, DeltaStore.add_seq, ih, List.length_append, List.length_singleton]
    norm_cast

theorem storeOf_deltas (adds : List (Action × SmAgentFacts)) :
    (storeOf adds).deltas = adds.mapIdx fun i add => ⟨i + 1, add.1, add.2⟩ := by
  induction adds using List.reverseRecOn with
  | nil => rfl
  | append_singleton adds add ih =>
    rw [storeOf_concat, DeltaStore.add_deltas, ih, storeOf_seq, List.mapIdx_concat]

theorem storeOf_length (adds : List (Action × SmAgentFacts)) :
    (storeOf adds).deltas.length = adds.length := by
  rw [storeOf_deltas, List.length_mapIdx]

/-- The numbers count the additions. -/
theorem storeOf_numbers (adds : List (Action × SmAgentFacts)) :
    (storeOf adds).deltas.map SmAgentFactsDelta.seq =
      (List.range adds.length).map fun i : ℕ => (i + 1 : ℤ) := by
  induction adds using List.reverseRecOn with
  | nil => rfl
  | append_singleton adds add ih =>
    rw [storeOf_concat, DeltaStore.add_deltas, List.map_append, ih, List.length_append,
      List.length_singleton, List.range_succ, List.map_append, storeOf_seq]
    rfl

theorem storeOf_records (adds : List (Action × SmAgentFacts)) :
    ((storeOf adds).deltas.map fun d => (d.action, d.agent)) = adds := by
  induction adds using List.reverseRecOn with
  | nil => rfl
  | append_singleton adds add ih =>
    rw [storeOf_concat, DeltaStore.add_deltas, List.map_append, ih]
    rfl

/-- A poll gives a suffix of the log. -/
theorem since_eq_drop (adds : List (Action × SmAgentFacts)) (k : ℤ) :
    (storeOf adds).since k = (storeOf adds).deltas.drop k.toNat := by
  induction adds using List.reverseRecOn with
  | nil => simp [storeOf, DeltaStore.empty, DeltaStore.since]
  | append_singleton adds add ih =>
    rw [DeltaStore.since] at ih ⊢
    rw [storeOf_concat, DeltaStore.add_deltas, List.filter_append, ih, List.drop_append,
      storeOf_length, storeOf_seq]
    by_cases hk : k < adds.length + 1
    · rw [List.filter_cons_of_pos (by simpa using hk), List.filter_nil,
        show k.toNat - adds.length = 0 by omega, List.drop_zero]
    · have hnew : 1 ≤ k.toNat - adds.length := by omega
      rw [List.filter_cons_of_neg (by simpa using hk), List.filter_nil,
        List.drop_eq_nil_of_le (hnew.trans' (List.length_singleton).le)]

/-- The delta with a number stands at the place of the number. -/
theorem get_eq (adds : List (Action × SmAgentFacts)) (seq : ℤ) :
    (storeOf adds).get seq =
      if 1 ≤ seq then (storeOf adds).deltas[(seq - 1).toNat]? else none := by
  induction adds using List.reverseRecOn with
  | nil => simp [storeOf, DeltaStore.empty, DeltaStore.get]
  | append_singleton adds add ih =>
    rw [DeltaStore.get] at ih ⊢
    rw [storeOf_concat, DeltaStore.add_deltas, List.find?_append, ih, List.getElem?_append,
      storeOf_length, storeOf_seq, List.find?_singleton]
    have hlength := storeOf_length adds
    by_cases hlow : 1 ≤ seq
    · rw [if_pos hlow, if_pos hlow]
      by_cases hold : (seq - 1).toNat < adds.length
      · rw [if_pos hold, List.getElem?_eq_getElem (by omega), Option.some_or]
      · rw [if_neg hold, List.getElem?_eq_none (by omega), Option.none_or,
          List.getElem?_singleton]
        congr 1
        simp
        omega
    · rw [if_neg hlow, if_neg hlow, Option.none_or, if_neg]
      simp
      omega

theorem get_eq_since (adds : List (Action × SmAgentFacts)) (seq : ℤ) :
    (storeOf adds).get seq =
      if 1 ≤ seq ∧ seq ≤ adds.length then ((storeOf adds).since (seq - 1)).head? else none := by
  rw [get_eq, since_eq_drop, List.head?_drop]
  have hlength := storeOf_length adds
  by_cases hlow : 1 ≤ seq
  · by_cases hhigh : seq ≤ adds.length
    · rw [if_pos hlow, if_pos ⟨hlow, hhigh⟩]
    · rw [if_pos hlow, if_neg fun h => hhigh h.2, List.getElem?_eq_none (by omega)]
  · rw [if_neg hlow, if_neg fun h => hlow h.1]

/-- In a log with increasing numbers, the last delta is the one with the highest. -/
theorem getLast?_eq_some_iff {log : List SmAgentFactsDelta}
    (h : log.Pairwise fun d d' => d.seq < d'.seq) {d : SmAgentFactsDelta} :
    log.getLast? = some d ↔ d ∈ log ∧ ∀ d' ∈ log, d'.seq ≤ d.seq := by
  constructor
  · intro hlast
    obtain ⟨init, rfl⟩ := List.getLast?_eq_some_iff.mp hlast
    refine ⟨List.mem_append_right init (List.mem_singleton_self d), fun d' hd' => ?_⟩
    rcases List.mem_append.mp hd' with hd' | hd'
    · exact ((List.pairwise_append.mp h).2.2 d' hd' d (List.mem_singleton_self d)).le
    · exact (congrArg _ (List.mem_singleton.mp hd')).le
  · intro ⟨hmem, hmax⟩
    obtain ⟨init, e, rfl⟩ := (List.eq_nil_or_concat' log).resolve_left (List.ne_nil_of_mem hmem)
    have hle := hmax e (List.mem_append_right init (List.mem_singleton_self e))
    rcases List.mem_append.mp hmem with hd | hd
    · have hlt := (List.pairwise_append.mp h).2.2 d hd e (List.mem_singleton_self e)
      omega
    · rw [List.mem_singleton.mp hd, List.getLast?_concat]

/-- The snapshot holds the delta with the highest number of every agent. -/
theorem mem_snapshot {store : DeltaStore} (h : Invariant store) {d : SmAgentFactsDelta} :
    d ∈ store.snapshot ↔
      d ∈ store.deltas ∧ ∀ d' ∈ store.deltas, d'.agent.id = d.agent.id → d'.seq ≤ d.seq := by
  have hincreasing : (store.history d.agent.id).Pairwise fun d d' => d.seq < d'.seq :=
    h.increasing.sublist List.filter_sublist
  have hhistory : last agentOf (agentOf d) store.deltas = (store.history d.agent.id).getLast? := rfl
  rw [snapshot_eq h, mem_latest, hhistory, getLast?_eq_some_iff hincreasing]
  simp only [DeltaStore.mem_history, and_true, and_imp]

theorem snapshot_increasing {store : DeltaStore} (h : Invariant store) :
    store.snapshot.Pairwise fun d d' => d.seq < d'.seq := by
  rw [snapshot_eq h]
  exact h.increasing.sublist (latest_sublist _)

/-! ## Every run -/

/-- What a store holds and answers after additions. -/
structure Faithful (store : DeltaStore) (adds : List (Action × SmAgentFacts)) : Prop where
  records : (store.deltas.map fun d => (d.action, d.agent)) = adds
  numbers : store.deltas.map SmAgentFactsDelta.seq =
    (List.range adds.length).map fun i : ℕ => (i + 1 : ℤ)
  nextSeq : store.nextSeq = adds.length + 1
  mem_since : ∀ k d, d ∈ store.since k ↔ d ∈ store.deltas ∧ k < d.seq
  since : ∀ k : ℤ, store.since k = store.deltas.drop k.toNat
  get : ∀ seq : ℤ, store.get seq =
    if 1 ≤ seq ∧ seq ≤ adds.length then (store.since (seq - 1)).head? else none
  mem_snapshot : ∀ d, d ∈ store.snapshot ↔
    d ∈ store.deltas ∧ ∀ d' ∈ store.deltas, d'.agent.id = d.agent.id → d'.seq ≤ d.seq
  snapshot_increasing : store.snapshot.Pairwise fun d d' => d.seq < d'.seq

theorem storeOf_faithful (adds : List (Action × SmAgentFacts)) :
    Faithful (storeOf adds) adds where
  records := storeOf_records adds
  numbers := storeOf_numbers adds
  nextSeq := by rw [DeltaStore.nextSeq, storeOf_seq]
  mem_since k d := by rw [DeltaStore.since, List.mem_filter, decide_eq_true_eq]
  since := since_eq_drop adds
  get := get_eq_since adds
  mem_snapshot _ := mem_snapshot (storeOf_invariant adds)
  snapshot_increasing := snapshot_increasing (storeOf_invariant adds)

/-- At every moment of every run, the store holds and answers the additions since the last
`clear`. -/
theorem run_faithful (calls : List Call) : Faithful (run calls) (recorded calls) := by
  rw [run_eq]
  exact storeOf_faithful (recorded calls)

end StoreRuns
