import SmBridge.CatalogRoutes
import SmBridge.FederationNetwork

/-!
# The catalogs of relays

A relay lists what its source listed at an earlier moment. Only the proofs of the agents do not
travel, and catalog entries do not show them.
-/
namespace FederatedCatalog

open Dictionary
open Replay
open Store
open Gateway
open StoreRuns
open Federation
open FederationNetwork
open CatalogRoutes

def unproved (facts : SmAgentFacts) : SmAgentFacts := { facts with proof := none }

/-- The rules for slugs and for listing do not look at proofs. -/
structure IgnoresProofs (router : GatewayRouter) : Prop where
  slug : ∀ facts, router.slugOf (unproved facts) = router.slugOf facts
  listed : ∀ slug facts, router.isListed slug (unproved facts) = router.isListed slug facts

/-- The entry as another gateway shows it. -/
def moved (base : String) (e : CatalogEntry) : CatalogEntry :=
  { e with url := base ++ "/cards/" ++ e.identifier ++ ".json" }

/-! ## Catalogs depend on the contents of the log -/

def rowDelta (row : Action × SmAgentFacts) : SmAgentFactsDelta := ⟨0, row.1, row.2⟩

theorem shown_rowDelta (delta : SmAgentFactsDelta) :
    shown (rowDelta (deltaContent delta)) = (shown delta).map unproved := by
  obtain ⟨seq, action, agent⟩ := delta
  cases action <;> rfl

theorem mapValues_applyDeltas {slug : SmAgentFacts → String}
    (hslug : ∀ facts, slug (unproved facts) = slug facts) (deltas : List SmAgentFactsDelta) :
    (applyDeltas slug deltas).mapValues unproved =
      applyDeltas slug (deltas.map fun d => rowDelta (deltaContent d)) := by
  have hfold : ∀ (deltas : List SmAgentFactsDelta) (d : Dict String SmAgentFacts),
      (deltas.foldl (fun state delta => state.update (slugOf slug delta, shown delta))
          d).mapValues unproved =
        (deltas.map fun d => rowDelta (deltaContent d)).foldl
          (fun state delta => state.update (slugOf slug delta, shown delta))
            (d.mapValues unproved) := by
    intro deltas
    induction deltas with
    | nil => exact fun _ => rfl
    | cons delta deltas ih =>
      intro d
      have hkey : slugOf slug (rowDelta (deltaContent delta)) = slugOf slug delta :=
        hslug delta.agent
      rw [List.foldl_cons, List.map_cons, List.foldl_cons, ih, Dict.mapValues_update, hkey,
        shown_rowDelta]
  exact hfold deltas Dict.empty

theorem snapshot_content {store : DeltaStore} (h : Gateway.Invariant store) :
    store.snapshot.map deltaContent =
      latest (fun row => row.2.id) (store.deltas.map deltaContent) := by
  rw [snapshot_eq h, latest_map]
  rfl

/-- Stores with the same contents show the same agents, up to their proofs. -/
theorem currentFacts_content {slug : SmAgentFacts → String}
    (hslug : ∀ facts, slug (unproved facts) = slug facts) {store other : DeltaStore}
    (hstore : Gateway.Invariant store) (hother : Gateway.Invariant other)
    (h : store.deltas.map deltaContent = other.deltas.map deltaContent) :
    (currentFacts store slug).mapValues unproved =
      (currentFacts other slug).mapValues unproved := by
  have hsnapshot : store.snapshot.map deltaContent = other.snapshot.map deltaContent := by
    rw [snapshot_content hstore, snapshot_content hother, h]
  have hrows : (store.snapshot.map fun d => rowDelta (deltaContent d)) =
      other.snapshot.map fun d => rowDelta (deltaContent d) := by
    simpa only [List.map_map, Function.comp_def] using congrArg (List.map rowDelta) hsnapshot
  rw [currentFacts, currentFacts, mapValues_applyDeltas hslug, mapValues_applyDeltas hslug, hrows]

theorem listedEntries_eq {router : GatewayRouter} (hproofs : IgnoresProofs router)
    (store : DeltaStore) : router.listedEntries store =
      ((currentFacts store router.slugOf).mapValues unproved).entries.filterMap
        fun (slug, facts) =>
          if router.isListed slug facts then some (toCatalogEntry facts slug router.base)
          else none := by
  change _ = ((currentFacts store router.slugOf).entries.map (Prod.map id unproved)).filterMap _
  rw [GatewayRouter.listedEntries, List.filterMap_map]
  refine List.filterMap_congr fun entry _ => ?_
  obtain ⟨slug, facts⟩ := entry
  simp only [Function.comp, Prod.map, id, hproofs.listed]
  rfl

theorem listedEntries_content {router : GatewayRouter} (hproofs : IgnoresProofs router)
    {store other : DeltaStore} (hstore : Gateway.Invariant store)
    (hother : Gateway.Invariant other)
    (h : store.deltas.map deltaContent = other.deltas.map deltaContent) :
    router.listedEntries store = router.listedEntries other := by
  rw [listedEntries_eq hproofs, listedEntries_eq hproofs,
    currentFacts_content hproofs.slug hstore hother h]

/-- Another gateway with the same rules shows the same entries under its own address. -/
theorem listedEntries_moved {router router' : GatewayRouter}
    (hslug : router'.slugOf = router.slugOf) (hlisted : router'.isListed = router.isListed)
    (store : DeltaStore) :
    router'.listedEntries store = (router.listedEntries store).map (moved router'.base) := by
  rw [GatewayRouter.listedEntries, GatewayRouter.listedEntries, hslug, hlisted,
    List.map_filterMap]
  refine List.filterMap_congr fun entry _ => ?_
  obtain ⟨slug, facts⟩ := entry
  dsimp only
  split <;> rfl

/-! ## Relays -/

section Relays

variable {ι ε : Type} {links : Links ι ε} {owns : ι → Prop} {s : System ι ε}

/-- Along a line of relays, whatever has happened so far, a gateway lists exactly what a gateway
at the start of the line would have listed after its first changes, as many as have arrived.
Where all have arrived the two gateways list the same agents in the same order. -/
theorem relayed_catalog (codec : AgentCodec) (hcodec : codec.RoundTrips) [DecidableEq ι]
    [DecidableEq ε] (links : Links ι ε) (owns : ι → Prop) (n : ℕ) (s : System ι ε)
    (h : FederationNetwork.Reachable codec links owns n s) (i j : ι)
    (hline : Relation.ReflTransGen (Feeds links owns) i j) (router router' : GatewayRouter)
    (hslug : router'.slugOf = router.slugOf) (hlisted : router'.isListed = router.isListed)
    (hproofs : IgnoresProofs router) :
    ∃ adds, s.stores i = storeOf adds ∧
      router'.listedEntries (s.stores j) =
        (router.listedEntries (storeOf (adds.take (s.stores j).deltas.length))).map
          (moved router'.base) ∧
      ((s.stores j).seq = (s.stores i).seq →
        router'.listedEntries (s.stores j) =
          (router.listedEntries (s.stores i)).map (moved router'.base)) := by
  have hinv := reachable_invariant hcodec h
  obtain ⟨adds, hadds⟩ := hinv.logged i
  obtain ⟨others, hothers⟩ := hinv.logged j
  have hcontents : ∀ adds, (storeOf adds).deltas.map deltaContent = adds.map content := by
    intro adds
    conv_rhs => rw [← storeOf_records adds]
    rw [List.map_map]
    rfl
  have hprefix := line_prefix hcodec h hline
  rw [hadds, hothers, hcontents, hcontents, List.prefix_iff_eq_take, List.length_map] at hprefix
  have htaken : (storeOf others).deltas.map deltaContent =
      (storeOf (adds.take others.length)).deltas.map deltaContent := by
    rw [hcontents, hcontents, hprefix, List.map_take]
  have hlists : router'.listedEntries (s.stores j) =
      (router.listedEntries (storeOf (adds.take (s.stores j).deltas.length))).map
        (moved router'.base) := by
    rw [listedEntries_moved hslug hlisted, hothers, storeOf_length,
      listedEntries_content hproofs (storeOf_invariant _) (storeOf_invariant _) htaken]
  refine ⟨adds, hadds, hlists, fun hseq => ?_⟩
  rw [hadds, hothers, storeOf_seq, storeOf_seq, Nat.cast_inj] at hseq
  rw [hlists, hothers, storeOf_length, hseq, List.take_length, hadds]

end Relays

theorem relayed_catalog_once :
    exampleRouter.listedEntries (relayedOnce.stores 1) =
      (exampleRouter.listedEntries (relayedOnce.stores 0)).map (moved exampleRouter.base) := by
  obtain ⟨-, -, -, hsame⟩ := relayed_catalog plainCodec plainCodec_roundTrips line (· = 0) 1
    relayedOnce relayedOnce_reachable 0 1
    (Relation.ReflTransGen.single ⟨0, ⟨Nat.succ_ne_zero 0, fun _ => Nat.succ.inj⟩, rfl, rfl⟩)
    exampleRouter exampleRouter rfl rfl ⟨fun _ => rfl, fun _ _ => rfl⟩
  exact hsame (by decide +kernel)

end FederatedCatalog
