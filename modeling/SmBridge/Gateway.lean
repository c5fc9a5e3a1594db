import SmBridge.Lib.Dict
import SmBridge.Lib.Replay
import SmBridge.Store
import SmBridge.Text

/-!
# The catalog gateway

The catalog maps slugs to agents. It is built from the latest delta of each agent; a full
replay of the log is what it stands for.
-/
namespace Gateway

open Text
open Dictionary
open Replay
open Store

def defaultSlug (facts : SmAgentFacts) : String :=
  match facts.handle with
  | some handle => if '/' ∈ handle.toList then lastPart '/' handle else lastPart ':' facts.id
  | none => lastPart ':' facts.id

def slugOf (slug : SmAgentFacts → String) (delta : SmAgentFactsDelta) : String := slug delta.agent

def agentOf (delta : SmAgentFactsDelta) : String := delta.agent.id

/-- What a delta leaves under its slug. -/
def shown (delta : SmAgentFactsDelta) : Option SmAgentFacts :=
  match delta.action with
  | .upsert => some delta.agent
  | .delete => none
  | .revoke => none

/-- The loop over deltas: an upsert sets the slug, a delete or revoke pops it. -/
def applyDeltas (slug : SmAgentFacts → String) (deltas : List SmAgentFactsDelta) :
    Dict String SmAgentFacts :=
  deltas.foldl (fun state delta => state.update (slugOf slug delta, shown delta)) Dict.empty

def currentFacts (store : DeltaStore) (slug : SmAgentFacts → String) : Dict String SmAgentFacts :=
  applyDeltas slug store.snapshot

/-- The mapping that a replay of the whole log gives. -/
def replayedFacts (store : DeltaStore) (slug : SmAgentFacts → String) :
    Dict String SmAgentFacts :=
  applyDeltas slug (store.since 0)

/-- `meta["identifier"]` of the agent's card. -/
def cardIdentifier (casing : Casing) (domain slug : String) : String :=
  "urn:air:" ++ casing.lower domain ++ ":agent:" ++ slug

theorem shown_eq_some {delta : SmAgentFactsDelta} {agent : SmAgentFacts} :
    shown delta = some agent ↔ delta.action = .upsert ∧ delta.agent = agent := by
  rw [shown]
  cases delta.action <;> simp

theorem shown_eq_none {delta : SmAgentFactsDelta} :
    shown delta = none ↔ delta.action ≠ .upsert := by
  rw [shown]
  cases delta.action <;> simp

theorem get_applyDeltas (slug : SmAgentFacts → String) (deltas : List SmAgentFactsDelta)
    (s : String) : (applyDeltas slug deltas).get s = replay (slugOf slug) shown s deltas := by
  have hfold : applyDeltas slug deltas =
      (deltas.map fun d => (slugOf slug d, shown d)).foldl Dict.update Dict.empty := by
    rw [List.foldl_map]
    rfl
  rw [hfold, Dict.get_foldl_update, List.filter_map, List.getLast?_map]
  change _ = (last (slugOf slug) s deltas).bind shown
  rw [last]
  simp only [Function.comp_def]
  cases (deltas.filter fun d => slugOf slug d = s).getLast? <;> rfl

/-! ## Stores built by additions -/

/-- The store after a run of additions. -/
def storeOf (adds : List (Action × SmAgentFacts)) : DeltaStore :=
  adds.foldl (fun store add => store.add add.1 add.2) DeltaStore.empty

theorem storeOf_concat (adds : List (Action × SmAgentFacts)) (add : Action × SmAgentFacts) :
    storeOf (adds ++ [add]) = (storeOf adds).add add.1 add.2 := by
  rw [storeOf, List.foldl_append]
  rfl

structure Invariant (store : DeltaStore) : Prop where
  indexed : store.Indexed
  increasing : store.deltas.Pairwise fun d d' => d.seq < d'.seq
  bounded : ∀ d ∈ store.deltas, 0 < d.seq ∧ d.seq ≤ store.seq
  nonnegative : 0 ≤ store.seq

theorem empty_invariant : Invariant DeltaStore.empty where
  indexed := DeltaStore.empty_indexed
  increasing := List.Pairwise.nil
  bounded := by simp [DeltaStore.empty]
  nonnegative := le_rfl

theorem add_preserves_invariant {store : DeltaStore} (h : Invariant store) (action : Action)
    (agent : SmAgentFacts) : Invariant (store.add action agent) where
  indexed := DeltaStore.add_indexed h.indexed action agent
  increasing := by
    rw [DeltaStore.add_deltas, List.pairwise_append]
    refine ⟨h.increasing, List.pairwise_singleton _ _, ?_⟩
    intro d hd d' hd'
    obtain rfl := List.mem_singleton.mp hd'
    have hle := (h.bounded d hd).2
    change d.seq < store.seq + 1
    omega
  bounded := by
    intro d hd
    have hnonneg := h.nonnegative
    rw [DeltaStore.add_seq]
    rcases List.mem_append.mp hd with hd | hd
    · have hbound := h.bounded d hd
      omega
    · obtain rfl := List.mem_singleton.mp hd
      change 0 < store.seq + 1 ∧ store.seq + 1 ≤ store.seq + 1
      omega
  nonnegative := by
    have hnonneg := h.nonnegative
    rw [DeltaStore.add_seq]
    omega

theorem storeOf_invariant (adds : List (Action × SmAgentFacts)) : Invariant (storeOf adds) := by
  induction adds using List.reverseRecOn with
  | nil => exact empty_invariant
  | append_singleton adds add ih =>
    rw [storeOf_concat]
    exact add_preserves_invariant ih add.1 add.2

theorem since_zero {store : DeltaStore} (h : Invariant store) : store.since 0 = store.deltas :=
  List.filter_eq_self.mpr fun d hd => decide_eq_true (h.bounded d hd).1

theorem seq_injective {store : DeltaStore} (h : Invariant store) {d d' : SmAgentFactsDelta}
    (hd : d ∈ store.deltas) (hd' : d' ∈ store.deltas) (heq : d.seq = d'.seq) : d = d' := by
  have hnodup : (store.deltas.map SmAgentFactsDelta.seq).Nodup :=
    List.pairwise_map.mpr (h.increasing.imp fun hlt => ne_of_lt hlt)
  exact List.inj_on_of_nodup_map hnodup hd hd' heq

theorem lookup_latest {store : DeltaStore} (h : Invariant store) (id : String) :
    store.latest.lookup id = last agentOf id store.deltas := h.indexed id

theorem mem_entries {store : DeltaStore} (h : Invariant store) {id : String}
    {d : SmAgentFactsDelta} (hmem : ⟨id, d⟩ ∈ store.latest.entries) :
    last agentOf id store.deltas = some d ∧ agentOf d = id := by
  have hlast := AList.mem_lookup_iff.mpr hmem
  rw [Option.mem_def, lookup_latest h] at hlast
  exact ⟨hlast, (of_last hlast).2⟩

theorem mem_latest_values {store : DeltaStore} (h : Invariant store) {d : SmAgentFactsDelta} :
    d ∈ store.latest.entries.map Sigma.snd ↔ d ∈ latest agentOf store.deltas := by
  rw [mem_latest, List.mem_map]
  constructor
  · rintro ⟨⟨id, d'⟩, hmem, rfl⟩
    obtain ⟨hlast, hid⟩ := mem_entries h hmem
    exact hid ▸ hlast
  · intro hlast
    rw [← lookup_latest h] at hlast
    exact ⟨⟨agentOf d, d⟩, AList.mem_lookup_iff.mp hlast, rfl⟩

theorem latest_values_nodup {store : DeltaStore} (h : Invariant store) :
    (store.latest.entries.map Sigma.snd).Nodup := by
  have hkeys : (store.latest.entries.map Sigma.snd).map agentOf =
      store.latest.entries.map Sigma.fst := by
    rw [List.map_map]
    exact List.map_congr_left fun entry hentry => (mem_entries h hentry).2
  have hnodup : (store.latest.entries.map Sigma.fst).Nodup := store.latest.nodupKeys
  exact List.Nodup.of_map agentOf (hkeys ▸ hnodup)

/-- The snapshot is the latest delta of every agent, in the order of the log. -/
theorem snapshot_eq {store : DeltaStore} (h : Invariant store) :
    store.snapshot = latest agentOf store.deltas := by
  have hsub : (latest agentOf store.deltas).Sublist store.deltas := latest_sublist _
  have hincreasing := h.increasing.sublist hsub
  have hnodup : (latest agentOf store.deltas).Nodup :=
    hincreasing.imp fun hlt heq => absurd (heq ▸ hlt) (lt_irrefl _)
  have hperm : List.Perm (store.latest.entries.map Sigma.snd) (latest agentOf store.deltas) :=
    (List.perm_ext_iff_of_nodup (latest_values_nodup h) hnodup).mpr fun d => mem_latest_values h
  have hsorted : store.snapshot.Pairwise fun a b => decide (a.seq ≤ b.seq) = true :=
    List.pairwise_mergeSort (fun a b c => by simpa using le_trans)
      (fun a b => by simpa using le_total a.seq b.seq) _
  refine List.Perm.eq_of_pairwise ?_ hsorted
    (hincreasing.imp fun hlt => decide_eq_true (le_of_lt hlt))
    ((List.mergeSort_perm _ _).trans hperm)
  intro d d' hd hd' hle hle'
  have hmem : d ∈ latest agentOf store.deltas :=
    hperm.subset ((List.mergeSort_perm _ _).subset hd)
  exact seq_injective h (hsub.subset hmem) (hsub.subset hd')
    (le_antisymm (of_decide_eq_true hle) (of_decide_eq_true hle'))

theorem get_currentFacts {store : DeltaStore} (h : Invariant store)
    (slug : SmAgentFacts → String) (s : String) :
    (currentFacts store slug).get s =
      replay (slugOf slug) shown s (latest agentOf store.deltas) := by
  rw [currentFacts, get_applyDeltas, snapshot_eq h]

theorem get_replayedFacts {store : DeltaStore} (h : Invariant store)
    (slug : SmAgentFacts → String) (s : String) :
    (replayedFacts store slug).get s = replay (slugOf slug) shown s store.deltas := by
  rw [replayedFacts, get_applyDeltas, since_zero h]

end Gateway
