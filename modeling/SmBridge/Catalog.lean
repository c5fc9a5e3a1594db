import SmBridge.Gateway

/-!
# What the catalog shows

The catalog is keyed by slug and the snapshot by agent. The two agree with a replay of the
log unless an agent has moved to another slug, and a removal takes away whatever its slug
shows.
-/
namespace Catalog

open Replay
open Store
open Gateway

/-- The delta's agent has a later one. -/
def MovedOn (log : List SmAgentFactsDelta) (delta : SmAgentFactsDelta) : Prop :=
  last agentOf (agentOf delta) log ≠ some delta

/-- Where an agent has moved on from the last delta of a slug, that delta is a removal, and no
upsert is left as the last one that the agents' latest deltas have under the slug. -/
def Settled (slug : SmAgentFacts → String) (log : List SmAgentFactsDelta) : Prop :=
  ∀ s delta, last (slugOf slug) s log = some delta → MovedOn log delta →
    delta.action ≠ .upsert ∧
      ∀ kept, last (slugOf slug) s (latest agentOf log) = some kept → kept.action ≠ .upsert

/-! ## The snapshot against a replay -/

theorem replay_eq_none {slug : SmAgentFacts → String} {s : String}
    {log : List SmAgentFactsDelta} :
    replay (slugOf slug) shown s log = none ↔
      ∀ delta, last (slugOf slug) s log = some delta → delta.action ≠ .upsert := by
  rw [replay, Option.bind_eq_none_iff]
  exact forall_congr' fun delta => imp_congr Iff.rfl shown_eq_none

theorem shown_agent {d d' : SmAgentFactsDelta} {agent : SmAgentFacts} (h : shown d = some agent)
    (h' : shown d' = some agent) : agentOf d = agentOf d' := by
  rw [agentOf, agentOf, (shown_eq_some.mp h).2, (shown_eq_some.mp h').2]

/-- Whatever is added to a store, its catalog is the replay of its log exactly when the log is
settled. -/
theorem snapshot_is_replay_iff (slug : SmAgentFacts → String)
    (adds : List (Action × SmAgentFacts)) :
    (∀ s, (currentFacts (storeOf adds) slug).get s = (replayedFacts (storeOf adds) slug).get s) ↔
      Settled slug (storeOf adds).deltas := by
  have hinv := storeOf_invariant adds
  simp only [get_currentFacts hinv, get_replayedFacts hinv]
  rw [replay_latest_iff fun d d' agent => shown_agent]
  simp only [shown_eq_none, replay_eq_none]
  rfl

/-- A log in which every agent keeps its slug is settled. -/
theorem settled_of_stable {slug : SmAgentFacts → String} {log : List SmAgentFactsDelta}
    (hstable : ∀ d ∈ log, ∀ d' ∈ log, agentOf d = agentOf d' → slugOf slug d = slugOf slug d') :
    Settled slug log := by
  intro s delta hlast hmoved
  obtain ⟨hmem, hslug⟩ := of_last hlast
  obtain ⟨later, hlater⟩ : ∃ later, last agentOf (agentOf delta) log = some later := by
    rw [← Option.isSome_iff_exists, last, List.getLast?_isSome]
    exact List.ne_nil_of_mem (List.mem_filter.mpr ⟨hmem, decide_eq_true rfl⟩)
  obtain ⟨hlmem, howner⟩ := of_last hlater
  have hsame := last_unique hlast hlater rfl
    ((hstable later hlmem delta hmem howner).trans hslug)
  exact absurd (hsame ▸ hlater) hmoved

def agentAt (id handle : String) : SmAgentFacts := ⟨id, some handle, none, [], nofun⟩

/-- One agent is listed, and then listed again under another handle. -/
def renamed : List (Action × SmAgentFacts) :=
  [(.upsert, agentAt "did:web:a.example:agents:one:x" "@a:one/first"),
    (.upsert, agentAt "did:web:a.example:agents:one:x" "@a:one/second")]

/-- The replay still has the first handle's slug, which the snapshot has lost. -/
theorem renamed_not_replayed :
    ¬ ∀ s, (currentFacts (storeOf renamed) defaultSlug).get s =
      (replayedFacts (storeOf renamed) defaultSlug).get s := by
  intro h
  have hfirst := congrArg Option.isSome (h "first")
  rw [get_currentFacts (storeOf_invariant renamed),
    get_replayedFacts (storeOf_invariant renamed)] at hfirst
  exact absurd hfirst (by decide)

/-! ## Removals -/

theorem latest_add (store : DeltaStore) (action : Action) (agent : SmAgentFacts) :
    latest agentOf (store.add action agent).deltas =
      (latest agentOf store.deltas).filter (fun d => agentOf d ≠ agent.id) ++
        [⟨store.seq + 1, action, agent⟩] := by
  rw [DeltaStore.add_deltas, latest_concat]
  rfl

/-- A removal leaves what other agents have under other slugs. -/
theorem removal_elsewhere {slug : SmAgentFacts → String} {store : DeltaStore}
    (hinv : Invariant store) {action : Action} {agent other : SmAgentFacts} {s : String}
    (hs : slug agent ≠ s) (hshown : (currentFacts store slug).get s = some other)
    (hother : other.id ≠ agent.id) :
    (currentFacts (store.add action agent) slug).get s = some other := by
  rw [get_currentFacts hinv] at hshown
  rw [get_currentFacts (add_preserves_invariant hinv action agent), replay, latest_add,
    last_concat, slugOf, if_neg hs]
  obtain ⟨delta, hlast, hdelta⟩ := Option.bind_eq_some_iff.mp hshown
  have hid : agentOf delta ≠ agent.id := by
    rw [agentOf, (shown_eq_some.mp hdelta).2]
    exact hother
  rw [last_filter hlast (decide_eq_true hid), Option.bind_some, hdelta]

theorem removal_pops {slug : SmAgentFacts → String} {store : DeltaStore} (hinv : Invariant store)
    {action : Action} (haction : action ≠ .upsert) (agent : SmAgentFacts) :
    (currentFacts (store.add action agent) slug).get (slug agent) = none := by
  rw [get_currentFacts (add_preserves_invariant hinv action agent), replay, latest_add,
    last_concat, slugOf, if_pos rfl, Option.bind_some, shown_eq_none]
  exact haction

/-- A removal leaves the entries of all other agents exactly when its slug does not show one of
them. -/
theorem removal_frame_iff (slug : SmAgentFacts → String) (adds : List (Action × SmAgentFacts))
    (action : Action) (haction : action ≠ .upsert) (agent : SmAgentFacts) :
    (∀ s other, (currentFacts (storeOf adds) slug).get s = some other → other.id ≠ agent.id →
      (currentFacts ((storeOf adds).add action agent) slug).get s = some other) ↔
    ∀ delta, last (slugOf slug) (slug agent) (latest agentOf (storeOf adds).deltas) = some delta →
      delta.action = .upsert → delta.agent.id = agent.id := by
  have hinv := storeOf_invariant adds
  constructor
  · intro hframe delta hlast hupsert
    by_contra hother
    have hshown : (currentFacts (storeOf adds) slug).get (slug agent) = some delta.agent := by
      rw [get_currentFacts hinv, replay, hlast, Option.bind_some]
      exact shown_eq_some.mpr ⟨hupsert, rfl⟩
    have hkept := hframe (slug agent) delta.agent hshown hother
    rw [removal_pops hinv haction] at hkept
    cases hkept
  · intro hown s other hshown hother
    by_cases hs : slug agent = s
    · subst s
      rw [get_currentFacts hinv] at hshown
      obtain ⟨delta, hlast, hdelta⟩ := Option.bind_eq_some_iff.mp hshown
      obtain ⟨hupsert, rfl⟩ := shown_eq_some.mp hdelta
      exact absurd (hown delta hlast hupsert) hother
    · exact removal_elsewhere hinv hs hshown hother

/-- Two agents of one name in two namespaces. -/
def twins : List (Action × SmAgentFacts) :=
  [(.upsert, agentAt "did:web:a.example:agents:one:x" "@a:one/x"),
    (.upsert, agentAt "did:web:a.example:agents:two:x" "@a:two/x")]

theorem removal_frame_iff_twins :
    (∀ s other, (currentFacts (storeOf twins) defaultSlug).get s = some other →
      other.id ≠ "did:web:a.example:agents:one:x" →
      (currentFacts ((storeOf twins).add .delete
        (agentAt "did:web:a.example:agents:one:x" "@a:one/x")) defaultSlug).get s = some other) ↔
    ∀ delta, last (slugOf defaultSlug) "x" (latest agentOf (storeOf twins).deltas) = some delta →
      delta.action = .upsert → delta.agent.id = "did:web:a.example:agents:one:x" :=
  removal_frame_iff defaultSlug twins .delete (by decide)
    (agentAt "did:web:a.example:agents:one:x" "@a:one/x")

/-- Removing the first twin takes the second one out of the catalog. -/
theorem twin_removed :
    ¬ ∀ s other, (currentFacts (storeOf twins) defaultSlug).get s = some other →
      other.id ≠ "did:web:a.example:agents:one:x" →
      (currentFacts ((storeOf twins).add .delete
        (agentAt "did:web:a.example:agents:one:x" "@a:one/x")) defaultSlug).get s =
          some other := by
  intro h
  have hkept := h "x" (agentAt "did:web:a.example:agents:two:x" "@a:two/x") (by
    rw [get_currentFacts (storeOf_invariant twins)]
    rfl) (by decide)
  have hdelete : Action.delete ≠ .upsert := by decide
  rw [show "x" = defaultSlug (agentAt "did:web:a.example:agents:one:x" "@a:one/x") from rfl,
    removal_pops (storeOf_invariant twins) hdelete] at hkept
  cases hkept

end Catalog
