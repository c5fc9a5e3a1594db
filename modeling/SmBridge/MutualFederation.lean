import SmBridge.FederationDelivery
import Mathlib.Logic.Function.Basic

/-!
# Two registries that poll each other

Each owns its agents, changes only these, and pulls the other's log into the store that it
serves. A pulled row is recorded like a local change, so changes travel back to their
owner. Local changes and echoes are ghost observations; no operation reads them.
-/
namespace MutualFederation

open Python
open JsonValue
open Store
open Federation

inductive Side where
  | a
  | b
  deriving DecidableEq, Repr

def Side.peer : Side → Side
  | .a => .b
  | .b => .a

structure System where
  stores : Side → DeltaStore
  pollers : Side → FederationPoller
  /-- The peer's answer on its way to this side. -/
  answers : Side → Option Json
  /-- The local changes that the owner of an id has made to it, oldest first. -/
  changes : String → List (Action × SmAgentFacts)
  /-- Since its last change the owner has pulled a row for the id. -/
  echoed : String → Bool

def initial (peerUrls : Side → String) (options : Side → PullOptions) : System :=
  ⟨fun _ => DeltaStore.empty, fun side => ⟨peerUrls side, 0, options side⟩, fun _ => none,
    fun _ => [], fun _ => false⟩

section Definitions

variable (codec : AgentCodec) (owner : String → Side)

def System.change (s : System) (side : Side) (action : Action) (agent : SmAgentFacts) : System :=
  { s with
    stores := Function.update s.stores side ((s.stores side).add action agent)
    changes := Function.update s.changes agent.id
      (s.changes agent.id ++ [content (action, agent)])
    echoed := Function.update s.echoed agent.id false }

def System.request (s : System) (side : Side) (registryId : String) : System :=
  { s with
    answers := Function.update s.answers side
      (some (smDeltas codec registryId (s.stores side.peer) (s.pollers side).since)) }

def written (before after : DeltaStore) : List SmAgentFactsDelta :=
  after.deltas.drop before.deltas.length

def System.pull (s : System) (side : Side) (data : Json) : System :=
  let result := (s.pollers side).syncOnce codec addInMemory (fun _ => .ok data) (s.stores side)
  { s with
    stores := Function.update s.stores side result.2.2
    pollers := Function.update s.pollers side result.2.1
    answers := Function.update s.answers side none
    echoed := fun id => s.echoed id ||
      (owner id = side && (written (s.stores side) result.2.2).any fun d => d.agent.id = id) }

inductive Step : System → System → Prop
  | change {s : System} (side : Side) (action : Action) (agent : SmAgentFacts)
      (howner : owner agent.id = side) (haction : action = .upsert ∨ action = .delete) :
      Step s (s.change side action agent)
  | request {s : System} (side : Side) (registryId : String) (hidle : s.answers side = none) :
      Step s (s.request codec side registryId)
  | pull {s : System} (side : Side) (data : Json) (h : s.answers side = some data) :
      Step s (s.pull codec owner side data)

inductive Reachable : System → Prop
  | init (peerUrls : Side → String) (options : Side → PullOptions)
      (hmode : ∀ side, (options side).cursorMode = .exclusive) :
      Reachable (initial peerUrls options)
  | step {s t : System} : Reachable s → Step codec owner s t → Reachable t

/-- The delta carries a change that the owner of its agent has made. -/
def Own (changes : String → List (Action × SmAgentFacts)) (delta : SmAgentFactsDelta) : Prop :=
  deltaContent delta ∈ changes delta.agent.id

structure Invariant (s : System) : Prop where
  indexed : ∀ side, (s.stores side).Indexed
  stored : ∀ side, ∀ d ∈ (s.stores side).deltas, Own s.changes d
  answered : ∀ side data, s.answers side = some data → ∃ deltas rows,
    data.get? "deltas" = some (.arr rows) ∧ List.Forall₂ (RowOf codec) deltas rows ∧
      ∀ d ∈ deltas, Own s.changes d
  recorded : ∀ id, ∀ c ∈ s.changes id, ∃ d ∈ (s.stores (owner id)).history id, deltaContent d = c
  fresh : ∀ id, s.echoed id = false →
    ((s.stores (owner id)).history id).getLast?.map deltaContent = (s.changes id).getLast?

end Definitions

variable {codec : AgentCodec} {owner : String → Side}

theorem initial_invariant (peerUrls : Side → String) (options : Side → PullOptions) :
    Invariant codec owner (initial peerUrls options) where
  indexed _ := DeltaStore.empty_indexed
  stored side d hd := by simp [initial, DeltaStore.empty] at hd
  answered side data h := by simp [initial] at h
  recorded id c hc := by simp [initial] at hc
  fresh id _ := rfl

theorem Own.change {s : System} {side : Side} {action : Action} {agent : SmAgentFacts}
    {delta : SmAgentFactsDelta} (h : Own s.changes delta) :
    Own (s.change side action agent).changes delta := by
  simp only [Own, System.change] at h ⊢
  by_cases hid : delta.agent.id = agent.id
  · rw [hid] at h ⊢
    rw [Function.update_self]
    exact List.mem_append_left _ h
  · rw [Function.update_of_ne hid]
    exact h

theorem change_preserves_invariant {s : System} (h : Invariant codec owner s) {side : Side}
    {action : Action} {agent : SmAgentFacts} (howner : owner agent.id = side) :
    Invariant codec owner (s.change side action agent) where
  indexed side' := by
    by_cases hside : side' = side
    · subst side'
      simp only [System.change, Function.update_self]
      exact DeltaStore.add_indexed (h.indexed side) action agent
    · simp only [System.change, Function.update_of_ne hside]
      exact h.indexed side'
  stored side' d hd := by
    by_cases hside : side' = side
    · subst side'
      simp only [System.change, Function.update_self, DeltaStore.add_deltas, List.mem_append,
        List.mem_singleton] at hd
      rcases hd with hd | rfl
      · exact (h.stored side d hd).change
      · simp [Own, System.change, deltaContent]
    · simp only [System.change, Function.update_of_ne hside] at hd
      exact (h.stored side' d hd).change
  answered side' data hdata := by
    obtain ⟨deltas, rows, hrows, hof, hown⟩ := h.answered side' data hdata
    exact ⟨deltas, rows, hrows, hof, fun d hd => (hown d hd).change⟩
  recorded id c hc := by
    by_cases hid : id = agent.id
    · subst id
      simp only [System.change, howner, Function.update_self, DeltaStore.add_history, if_true]
      simp only [System.change, Function.update_self, List.mem_append, List.mem_singleton] at hc
      rcases hc with hc | rfl
      · obtain ⟨d, hd, hdc⟩ := h.recorded agent.id c hc
        exact ⟨d, List.mem_append_left _ (howner ▸ hd), hdc⟩
      · exact ⟨_, List.mem_append_right _ (List.mem_singleton_self _), rfl⟩
    · simp only [System.change, Function.update_of_ne hid] at hc ⊢
      obtain ⟨d, hd, hdc⟩ := h.recorded id c hc
      refine ⟨d, ?_, hdc⟩
      by_cases hside : owner id = side
      · rw [hside] at hd ⊢
        rw [Function.update_self, DeltaStore.add_history, if_neg (Ne.symm hid), List.append_nil]
        exact hd
      · rw [Function.update_of_ne hside]
        exact hd
  fresh id hecho := by
    by_cases hid : id = agent.id
    · subst id
      simp [System.change, howner, DeltaStore.add_history, deltaContent]
    · simp only [System.change, Function.update_of_ne hid] at hecho ⊢
      rw [← h.fresh id hecho]
      by_cases hside : owner id = side
      · rw [hside, Function.update_self, DeltaStore.add_history, if_neg (Ne.symm hid),
          List.append_nil]
      · rw [Function.update_of_ne hside]

theorem request_preserves_invariant {s : System} (h : Invariant codec owner s) (side : Side)
    (registryId : String) : Invariant codec owner (s.request codec side registryId) where
  indexed := h.indexed
  stored := h.stored
  answered side' data hdata := by
    by_cases hside : side' = side
    · subst side'
      simp only [System.request, Function.update_self, Option.some.injEq] at hdata
      subst data
      refine ⟨(s.stores side.peer).since (s.pollers side).since, _, rfl, ?_, ?_⟩
      · rw [List.forall₂_map_right_iff]
        exact List.forall₂_same.mpr fun d _ => rowOf_deltaJson d
      · exact fun d hd => h.stored side.peer d (List.mem_of_mem_filter hd)
    · simp only [System.request, Function.update_of_ne hside] at hdata
      exact h.answered side' data hdata
  recorded := h.recorded
  fresh := h.fresh

/-- What a pull adds to a store are changes of the owners of the agents. -/
theorem syncOnce_own (hcodec : codec.RoundTrips) {s : System} (h : Invariant codec owner s)
    {side : Side} {data : Json} (hdata : s.answers side = some data) :
    let after := ((s.pollers side).syncOnce codec addInMemory (fun _ => .ok data)
      (s.stores side)).2.2
    after.Indexed ∧ (s.stores side).deltas <+: after.deltas ∧
      ∀ d ∈ after.deltas, Own s.changes d := by
  rcases syncOnce_inMemory codec (s.pollers side) (fun _ => .ok data) (s.stores side)
    with ⟨e, herr⟩ | ⟨data', prepared, cursor, hfetch, hpage, hok⟩
  · rw [herr]
    exact ⟨h.indexed side, List.prefix_rfl, h.stored side⟩
  · -- the page holds deltas of the peer, and they too carry changes of the owners
    obtain rfl := Except.ok.inj hfetch
    obtain ⟨deltas, rows, hrows, hof, hown⟩ := h.answered side data hdata
    obtain ⟨hcontent, -⟩ := preparePage_rowsOf hcodec hrows hof hpage
    rw [hok]
    refine ⟨addAll_indexed (h.indexed side) prepared, addAll_extends prepared (s.stores side), ?_⟩
    intro d hd
    have hmem : deltaContent d ∈ (addAll prepared (s.stores side)).deltas.map deltaContent :=
      List.mem_map_of_mem hd
    rw [addAll_content, hcontent, ← List.map_append] at hmem
    obtain ⟨d', hd', heq⟩ := List.mem_map.mp hmem
    have hid : d'.agent.id = d.agent.id := congrArg (fun c => c.2.id) heq
    rw [Own, ← heq, ← hid]
    rcases List.mem_append.mp hd' with hd' | hd'
    · exact h.stored side d' hd'
    · exact hown d' hd'

theorem pull_preserves_invariant (hcodec : codec.RoundTrips) {s : System}
    (h : Invariant codec owner s) {side : Side} {data : Json}
    (hdata : s.answers side = some data) :
    Invariant codec owner (s.pull codec owner side data) := by
  obtain ⟨hindexed, ⟨more, hmore⟩, hown⟩ := syncOnce_own hcodec h hdata
  simp only [System.pull]
  generalize ((s.pollers side).syncOnce codec addInMemory (fun _ => .ok data) (s.stores side)) =
    result at hindexed hmore hown ⊢
  have hwritten : written (s.stores side) result.2.2 = more := by
    rw [written, ← hmore, List.drop_left]
  have hhistory : ∀ id, result.2.2.history id =
      (s.stores side).history id ++ more.filter fun d => d.agent.id = id := fun id => by
    rw [DeltaStore.history, ← hmore, List.filter_append]
    rfl
  refine ⟨?_, ?_, ?_, ?_, ?_⟩
  · intro side'
    dsimp only
    by_cases hside : side' = side
    · subst side'
      rwa [Function.update_self]
    · rw [Function.update_of_ne hside]
      exact h.indexed side'
  · intro side' d hd
    dsimp only at hd
    by_cases hside : side' = side
    · subst side'
      rw [Function.update_self] at hd
      exact hown d hd
    · rw [Function.update_of_ne hside] at hd
      exact h.stored side' d hd
  · intro side' data' hdata'
    by_cases hside : side' = side
    · subst side'
      simp at hdata'
    · simp only [Function.update_of_ne hside] at hdata'
      exact h.answered side' data' hdata'
  · intro id c hc
    obtain ⟨d, hd, hdc⟩ := h.recorded id c hc
    refine ⟨d, ?_, hdc⟩
    by_cases hside : owner id = side
    · simp only [hside, Function.update_self, hhistory]
      exact List.mem_append_left _ (hside ▸ hd)
    · simp only [Function.update_of_ne hside]
      exact hd
  · intro id hecho
    simp only [Bool.or_eq_false_iff, Bool.and_eq_false_iff, decide_eq_false_iff_not, hwritten]
      at hecho
    obtain ⟨hbefore, hecho⟩ := hecho
    rw [← h.fresh id hbefore]
    by_cases hside : owner id = side
    · -- no row for the id was written, so its history is as before
      have hnone : more.filter (fun d => d.agent.id = id) = [] :=
        List.filter_eq_nil_iff.mpr fun d hd => by
          have hany := hecho.resolve_left (not_not_intro hside)
          simpa using List.any_eq_false.mp hany d hd
      simp only [hside, Function.update_self, hhistory, hnone, List.append_nil]
    · simp only [Function.update_of_ne hside]

theorem step_preserves_invariant (hcodec : codec.RoundTrips) {s t : System}
    (h : Invariant codec owner s) (step : Step codec owner s t) : Invariant codec owner t := by
  cases step with
  | change side action agent howner _ => exact change_preserves_invariant h howner
  | request side registryId _ => exact request_preserves_invariant h side registryId
  | pull side data hdata => exact pull_preserves_invariant hcodec h hdata

theorem reachable_invariant (hcodec : codec.RoundTrips) {s : System}
    (h : Reachable codec owner s) : Invariant codec owner s := by
  induction h with
  | init peerUrls options _ => exact initial_invariant peerUrls options
  | step _ step ih => exact step_preserves_invariant hcodec ih step

/-- In every reachable state the owner's latest delta for an id that it has changed carries one
of its own changes to the id. It is the last of them unless the owner has, since that
change, pulled a row for the id. -/
theorem latest_is_own_change (codec : AgentCodec) (hcodec : codec.RoundTrips)
    (owner : String → Side) (s : System) (h : Reachable codec owner s) (id : String) :
    (s.changes id ≠ [] → ∃ d, (s.stores (owner id)).latest.lookup id = some d) ∧
    (∀ d, (s.stores (owner id)).latest.lookup id = some d → deltaContent d ∈ s.changes id) ∧
    (s.echoed id = false →
      ((s.stores (owner id)).latest.lookup id).map deltaContent = (s.changes id).getLast?) := by
  have hinv := reachable_invariant hcodec h
  rw [hinv.indexed (owner id) id]
  refine ⟨?_, ?_, hinv.fresh id⟩
  · intro hne
    obtain ⟨c, hc⟩ := List.exists_mem_of_ne_nil _ hne
    obtain ⟨d, hd, -⟩ := hinv.recorded id c hc
    exact Option.isSome_iff_exists.mp
      (by rw [List.getLast?_isSome]; exact List.ne_nil_of_mem hd)
  · intro d hd
    obtain ⟨hmem, hid⟩ := DeltaStore.mem_history.mp (List.mem_of_getLast? hd)
    have hown := hinv.stored (owner id) d hmem
    rwa [Own, hid] at hown

/-! ## An echo -/

def onlyA : String → Side := fun _ => .a

def agentNamed (handle : String) : SmAgentFacts :=
  ⟨"urn:agent:1", some handle, none, [], by simp⟩

/-- One registry records a first version, and the other one polls it. -/
def firstVersion : System :=
  let s := (initial (fun _ => "https://peer.example") fun _ => {}).change .a .upsert
    (agentNamed "@a:agents/first")
  (s.request plainCodec .b "a").pull plainCodec onlyA .b
    (smDeltas plainCodec "a" (s.stores .a) 0)

def secondVersion : System :=
  let s := firstVersion.change .a .upsert (agentNamed "@a:agents/second")
  (s.request plainCodec .a "b").pull plainCodec onlyA .a
    (smDeltas plainCodec "b" (s.stores .b) 0)

theorem firstVersion_reachable : Reachable plainCodec onlyA firstVersion :=
  .step (.step (.step (.init _ _ fun _ => rfl) (.change .a .upsert _ rfl (Or.inl rfl)))
    (.request .b "a" rfl)) (.pull .b _ rfl)

theorem secondVersion_reachable : Reachable plainCodec onlyA secondVersion :=
  .step (.step (.step firstVersion_reachable (.change .a .upsert _ rfl (Or.inl rfl)))
    (.request .a "b" rfl)) (.pull .a _ rfl)

theorem latest_is_own_change_first :
    ((firstVersion.stores .a).latest.lookup "urn:agent:1").map deltaContent =
      (firstVersion.changes "urn:agent:1").getLast? :=
  (latest_is_own_change plainCodec plainCodec_roundTrips onlyA firstVersion firstVersion_reachable
    "urn:agent:1").2.2 rfl

/-- The first version comes back and replaces the second one in its owner's store. -/
theorem second_version_lost : ∃ s, Reachable plainCodec onlyA s ∧
    ((s.stores (onlyA "urn:agent:1")).latest.lookup "urn:agent:1").map deltaContent ≠
      (s.changes "urn:agent:1").getLast? := by
  refine ⟨secondVersion, secondVersion_reachable, fun h => ?_⟩
  have hhandle := congrArg (Option.map fun c => c.2.handle) h
  exact absurd hhandle (by decide +kernel)

end MutualFederation
