import SmBridge.Json
import SmBridge.ProofResult
import Mathlib.Data.List.AList

/-!
# The delta store

Agents, deltas, and the append-only log with its index of the latest delta per agent.
Timestamps and signatures are left out, since nothing that is modelled reads them.
-/
namespace Store

open JsonValue
open Trust

/-- The fields of an agent record that the modelled code reads or writes. -/
def namedFields : List String := ["id", "handle", "proof"]

/-- An agent record. `record` holds the other fields, which are only ever copied. -/
structure SmAgentFacts where
  id : String
  handle : Option String
  proof : Option ProofResult
  record : List (String × Json)
  record_fields : ∀ field ∈ record, field.1 ∉ namedFields

inductive Action where
  | upsert
  | delete
  | revoke
  deriving DecidableEq, Repr

structure SmAgentFactsDelta where
  seq : ℤ
  action : Action
  agent : SmAgentFacts

structure DeltaStore where
  seq : ℤ
  deltas : List SmAgentFactsDelta
  /-- The most recent delta per agent id. -/
  latest : AList fun _ : String => SmAgentFactsDelta

namespace DeltaStore

def empty : DeltaStore := ⟨0, [], ∅⟩

def add (store : DeltaStore) (action : Action) (agent : SmAgentFacts) : DeltaStore :=
  let delta : SmAgentFactsDelta := ⟨store.seq + 1, action, agent⟩
  ⟨store.seq + 1, store.deltas ++ [delta], store.latest.insert agent.id delta⟩

def since (store : DeltaStore) (seq : ℤ) : List SmAgentFactsDelta :=
  store.deltas.filter fun d => seq < d.seq

def snapshot (store : DeltaStore) : List SmAgentFactsDelta :=
  (store.latest.entries.map Sigma.snd).mergeSort fun a b => a.seq ≤ b.seq

def get (store : DeltaStore) (seq : ℤ) : Option SmAgentFactsDelta :=
  store.deltas.find? fun d => d.seq == seq

def nextSeq (store : DeltaStore) : ℤ := store.seq + 1

def clear (_ : DeltaStore) : DeltaStore := ⟨0, [], ∅⟩

@[simp] theorem add_seq (store : DeltaStore) (action : Action) (agent : SmAgentFacts) :
    (store.add action agent).seq = store.seq + 1 := rfl

@[simp] theorem add_deltas (store : DeltaStore) (action : Action) (agent : SmAgentFacts) :
    (store.add action agent).deltas = store.deltas ++ [⟨store.seq + 1, action, agent⟩] := rfl

theorem add_latest (store : DeltaStore) (action : Action) (agent : SmAgentFacts) (id : String) :
    (store.add action agent).latest.lookup id =
      if id = agent.id then some ⟨store.seq + 1, action, agent⟩ else store.latest.lookup id := by
  split
  · subst id
    exact AList.lookup_insert _
  · exact AList.lookup_insert_ne ‹_›

def history (store : DeltaStore) (id : String) : List SmAgentFactsDelta :=
  store.deltas.filter fun d => d.agent.id = id

theorem mem_history {store : DeltaStore} {id : String} {delta : SmAgentFactsDelta} :
    delta ∈ store.history id ↔ delta ∈ store.deltas ∧ delta.agent.id = id := by
  simp [history]

theorem add_history (store : DeltaStore) (action : Action) (agent : SmAgentFacts) (id : String) :
    (store.add action agent).history id =
      store.history id ++ if agent.id = id then [⟨store.seq + 1, action, agent⟩] else [] := by
  by_cases hid : agent.id = id <;> simp [history, hid]

def Indexed (store : DeltaStore) : Prop :=
  ∀ id, store.latest.lookup id = (store.history id).getLast?

theorem empty_indexed : empty.Indexed := fun _ => rfl

theorem add_indexed {store : DeltaStore} (h : store.Indexed) (action : Action)
    (agent : SmAgentFacts) : (store.add action agent).Indexed := by
  intro id
  rw [add_latest, add_history]
  by_cases hid : agent.id = id
  · rw [if_pos hid.symm, if_pos hid, List.getLast?_concat]
  · rw [if_neg (Ne.symm hid), if_neg hid, List.append_nil, h id]

end DeltaStore

end Store
