import SmBridge.Federation
import SmBridge.StoreRuns
import Mathlib.Algebra.BigOperators.Group.Finset.Piecewise
import Mathlib.Algebra.BigOperators.Ring.Finset
import Mathlib.Algebra.Order.BigOperators.Group.Finset
import Mathlib.Data.Fintype.Basic

/-!
# A network of registries

Any number of registries, and any number of links along which one of them polls another. A
pulled row is recorded like a local change, so it is served to those who poll the reader.
The number of local changes is a ghost observation; no operation reads it.
-/
namespace FederationNetwork

open Python
open JsonValue
open Store
open Gateway
open StoreRuns
open Federation

/-- The ends of each link: the registry that is polled, and the one that polls it. -/
structure Links (ι ε : Type) where
  source : ε → ι
  sink : ε → ι

structure System (ι ε : Type) where
  stores : ι → DeltaStore
  pollers : ε → FederationPoller
  /-- The answer on its way along a link. -/
  answers : ε → Option Json

section Definitions

variable {ι ε : Type} [DecidableEq ι] [DecidableEq ε] (codec : AgentCodec) (links : Links ι ε)
  (owns : ι → Prop)

def initial (peerUrls : ε → String) (options : ε → PullOptions) : System ι ε :=
  ⟨fun _ => DeltaStore.empty, fun e => ⟨peerUrls e, 0, options e⟩, fun _ => none⟩

def System.change (s : System ι ε) (i : ι) (action : Action) (agent : SmAgentFacts) :
    System ι ε :=
  { s with stores := Function.update s.stores i ((s.stores i).add action agent) }

def System.request (s : System ι ε) (e : ε) (registryId : String) : System ι ε :=
  { s with
    answers := Function.update s.answers e
      (some (smDeltas codec registryId (s.stores (links.source e)) (s.pollers e).since)) }

def System.pull (s : System ι ε) (e : ε) (response : Except PyError Json) : System ι ε :=
  let result :=
    (s.pollers e).syncOnce codec addInMemory (fun _ => response) (s.stores (links.sink e))
  { stores := Function.update s.stores (links.sink e) result.2.2
    pollers := Function.update s.pollers e result.2.1
    answers := Function.update s.answers e none }

/-- The states that can be reached with a number of local changes by the registries that make
any. An answer may get lost, which the poller sees as an exception. -/
inductive Reachable : ℕ → System ι ε → Prop
  | init (peerUrls : ε → String) (options : ε → PullOptions)
      (hmode : ∀ e, (options e).cursorMode = .exclusive) :
      Reachable 0 (initial peerUrls options)
  | change {n : ℕ} {s : System ι ε} (i : ι) (action : Action) (agent : SmAgentFacts)
      (howns : owns i) : Reachable n s → Reachable (n + 1) (s.change i action agent)
  | request {n : ℕ} {s : System ι ε} (e : ε) (registryId : String)
      (hidle : s.answers e = none) :
      Reachable n s → Reachable n (s.request codec links e registryId)
  | pull {n : ℕ} {s : System ι ε} (e : ε) (data : Json) (h : s.answers e = some data) :
      Reachable n s → Reachable n (s.pull codec links e (.ok data))
  | failure {n : ℕ} {s : System ι ε} (e : ε) (exc : PyError) :
      Reachable n s → Reachable n (s.pull codec links e (.error exc))

/-- The rows at the source of a link that its sink has still to pull. -/
def unread (s : System ι ε) (e : ε) : ℤ := (s.stores (links.source e)).seq - (s.pollers e).since

structure Invariant (s : System ι ε) : Prop where
  logged : ∀ i, ∃ adds, s.stores i = storeOf adds
  mode : ∀ e, (s.pollers e).options.cursorMode = .exclusive
  cursor : ∀ e, 0 ≤ (s.pollers e).since ∧ (s.pollers e).since ≤ (s.stores (links.source e)).seq
  answered : ∀ e data, s.answers e = some data → ∃ deltas rows,
    data.get? "deltas" = some (.arr rows) ∧ List.Forall₂ (RowOf codec) deltas rows ∧
      deltas <+: (s.stores (links.source e)).since (s.pollers e).since

end Definitions

/-! ## Logs that grow -/

theorem addAll_storeOf (rows adds : List (Action × SmAgentFacts)) :
    addAll rows (storeOf adds) = storeOf (adds ++ rows) := by
  rw [storeOf, storeOf, List.foldl_append]
  rfl

/-- A reader that takes the next rows of a log moves its cursor by their number. -/
theorem advance_since {adds : List (Action × SmAgentFacts)} {since : ℤ} (hpos : 0 ≤ since)
    (hle : since ≤ (storeOf adds).seq) {deltas : List SmAgentFactsDelta}
    (h : deltas <+: (storeOf adds).since since) :
    OrderedLog.advance SmAgentFactsDelta.seq since deltas = since + deltas.length ∧
      since + deltas.length ≤ (storeOf adds).seq := by
  rw [storeOf_seq] at hle ⊢
  rw [since_eq_drop] at h
  have hlength := h.length_le
  rw [List.length_drop, storeOf_length] at hlength
  refine ⟨?_, by omega⟩
  rcases List.eq_nil_or_concat deltas with rfl | ⟨init, last, rfl⟩
  · simp
  · rw [List.concat_eq_append] at h ⊢
    obtain ⟨more, hmore⟩ := h
    have hlast : (storeOf adds).deltas[since.toNat + init.length]? = some last := by
      rw [← List.getElem?_drop, ← hmore, List.append_assoc, List.getElem?_append_right le_rfl,
        Nat.sub_self]
      rfl
    rw [storeOf_deltas, List.getElem?_mapIdx, Option.map_eq_some_iff] at hlast
    obtain ⟨add, -, rfl⟩ := hlast
    rw [OrderedLog.advance_concat, List.length_append, List.length_singleton]
    push_cast
    omega

/-- A store never forgets, so what it has served beyond a cursor stays in front. -/
theorem since_grows {before : DeltaStore} {rows : List (Action × SmAgentFacts)} (since : ℤ) :
    before.since since <+: (addAll rows before).since since := by
  obtain ⟨more, hmore⟩ := addAll_extends rows before
  rw [DeltaStore.since, DeltaStore.since, ← hmore, List.filter_append]
  exact List.prefix_append _ _

theorem addAll_seq (rows : List (Action × SmAgentFacts)) (store : DeltaStore) :
    (addAll rows store).seq = store.seq + rows.length := by
  induction rows generalizing store with
  | nil => simp [addAll]
  | cons row rows ih =>
    rw [addAll, List.foldl_cons, ← addAll, ih, DeltaStore.add_seq, List.length_cons]
    push_cast
    omega

section Steps

variable {ι ε : Type} {codec : AgentCodec} {links : Links ι ε} {owns : ι → Prop} {s : System ι ε}

/-! ## What a pull does -/

/-- A pull along a link has no effect but the loss of the answer, or it writes the next rows of
the source into the sink and moves the cursor by their number. -/
theorem pull_cases [DecidableEq ι] [DecidableEq ε] (hcodec : codec.RoundTrips)
    (h : Invariant codec links s) (e : ε)
    {response : Except PyError Json}
    (hresponse : ∀ data, response = .ok data → s.answers e = some data) :
    s.pull codec links e response = { s with answers := Function.update s.answers e none } ∨
    ∃ deltas rows, deltas <+: (s.stores (links.source e)).since (s.pollers e).since ∧
      rows.map content = deltas.map deltaContent ∧
      s.pull codec links e response =
        { stores := Function.update s.stores (links.sink e)
            (addAll rows (s.stores (links.sink e)))
          pollers := Function.update s.pollers e
            { s.pollers e with since := (s.pollers e).since + deltas.length }
          answers := Function.update s.answers e none } := by
  rcases syncOnce_inMemory codec (s.pollers e) (fun _ => response) (s.stores (links.sink e))
    with ⟨exc, herr⟩ | ⟨data, prepared, cursor, hfetch, hpage, hok⟩
  · refine Or.inl ?_
    rw [System.pull, herr, Function.update_eq_self, Function.update_eq_self]
  · obtain ⟨deltas, rows, hrows, hof, hfront⟩ := h.answered e data (hresponse data hfetch)
    obtain ⟨hcontent, hcursor⟩ := preparePage_rowsOf hcodec hrows hof hpage
    obtain ⟨adds, hadds⟩ := h.logged (links.source e)
    obtain ⟨hpos, hle⟩ := h.cursor e
    rw [hadds] at hle
    rw [h.mode e] at hcursor
    have hmoved := (advance_since hpos hle (hadds ▸ hfront)).1
    refine Or.inr ⟨deltas, prepared, hfront, hcontent, ?_⟩
    rw [System.pull, hok]
    obtain rfl : cursor = (s.pollers e).since + deltas.length := hcursor.trans hmoved
    rfl

theorem initial_invariant (peerUrls : ε → String) {options : ε → PullOptions}
    (hmode : ∀ e, (options e).cursorMode = .exclusive) :
    Invariant codec links (initial peerUrls options) where
  logged _ := ⟨[], rfl⟩
  mode := hmode
  cursor _ := ⟨le_rfl, le_rfl⟩
  answered e data h := by cases h

/-- What is written to one store, locally or by a pull, keeps the invariant of everything that
reads it. -/
theorem write_preserves_invariant [DecidableEq ι] (h : Invariant codec links s) (i : ι)
    (rows : List (Action × SmAgentFacts)) :
    Invariant codec links
      { s with stores := Function.update s.stores i (addAll rows (s.stores i)) } where
  logged j := by
    by_cases hj : j = i
    · subst j
      obtain ⟨adds, hadds⟩ := h.logged i
      refine ⟨adds ++ rows, ?_⟩
      simp only [Function.update_self, hadds, addAll_storeOf]
    · simpa only [Function.update_of_ne hj] using h.logged j
  mode := h.mode
  cursor e := by
    obtain ⟨hpos, hle⟩ := h.cursor e
    refine ⟨hpos, ?_⟩
    by_cases hj : links.source e = i
    · rw [hj] at hle
      simp only [hj, Function.update_self, addAll_seq]
      omega
    · simpa only [Function.update_of_ne hj] using hle
  answered e data hdata := by
    obtain ⟨deltas, rows', hrows, hof, hfront⟩ := h.answered e data hdata
    refine ⟨deltas, rows', hrows, hof, ?_⟩
    by_cases hj : links.source e = i
    · rw [hj] at hfront
      simp only [hj, Function.update_self]
      exact hfront.trans (since_grows _)
    · simpa only [Function.update_of_ne hj] using hfront

theorem request_preserves_invariant [DecidableEq ε] (h : Invariant codec links s) (e : ε)
    (registryId : String) :
    Invariant codec links (s.request codec links e registryId) where
  logged := h.logged
  mode := h.mode
  cursor := h.cursor
  answered e' data hdata := by
    by_cases he : e' = e
    · subst e'
      simp only [System.request, Function.update_self, Option.some.injEq] at hdata
      subst data
      refine ⟨(s.stores (links.source e)).since (s.pollers e).since, _, rfl, ?_, List.prefix_rfl⟩
      rw [List.forall₂_map_right_iff]
      exact List.forall₂_same.mpr fun d _ => rowOf_deltaJson d
    · simp only [System.request, Function.update_of_ne he] at hdata
      exact h.answered e' data hdata

/-- The answer of a link is gone, and its cursor has moved along the source's log. -/
theorem taken_preserves_invariant [DecidableEq ε] (h : Invariant codec links s) (e : ε) {since : ℤ}
    (hmoved : (s.pollers e).since ≤ since) (hle : since ≤ (s.stores (links.source e)).seq) :
    Invariant codec links
      { s with
        pollers := Function.update s.pollers e { s.pollers e with since := since }
        answers := Function.update s.answers e none } where
  logged := h.logged
  mode e' := by
    by_cases he : e' = e
    · subst e'
      simpa only [Function.update_self] using h.mode e
    · simpa only [Function.update_of_ne he] using h.mode e'
  cursor e' := by
    by_cases he : e' = e
    · subst e'
      simp only [Function.update_self]
      exact ⟨(h.cursor e).1.trans hmoved, hle⟩
    · simpa only [Function.update_of_ne he] using h.cursor e'
  answered e' data hdata := by
    by_cases he : e' = e
    · subst e'
      simp only [Function.update_self] at hdata
      cases hdata
    · simp only [Function.update_of_ne he] at hdata ⊢
      exact h.answered e' data hdata

theorem pull_preserves_invariant [DecidableEq ι] [DecidableEq ε] (hcodec : codec.RoundTrips)
    (h : Invariant codec links s) (e : ε)
    {response : Except PyError Json}
    (hresponse : ∀ data, response = .ok data → s.answers e = some data) :
    Invariant codec links (s.pull codec links e response) := by
  rcases pull_cases hcodec h e hresponse with heq | ⟨deltas, rows, hfront, -, heq⟩
  · rw [heq]
    have hsame := taken_preserves_invariant h e le_rfl (h.cursor e).2
    simpa only [Function.update_eq_self] using hsame
  · obtain ⟨adds, hadds⟩ := h.logged (links.source e)
    obtain ⟨hpos, hle⟩ := h.cursor e
    have hread : (s.pollers e).since + deltas.length ≤ (s.stores (links.source e)).seq := by
      rw [hadds] at hfront hle ⊢
      exact (advance_since hpos hle hfront).2
    rw [heq]
    exact write_preserves_invariant (taken_preserves_invariant h e (by omega) hread)
      (links.sink e) rows

theorem reachable_invariant [DecidableEq ι] [DecidableEq ε] (hcodec : codec.RoundTrips) {n : ℕ}
    (h : Reachable codec links owns n s) : Invariant codec links s := by
  induction h with
  | init peerUrls options hmode => exact initial_invariant peerUrls hmode
  | change i action agent _ _ ih => exact write_preserves_invariant ih i [(action, agent)]
  | request e registryId _ _ ih => exact request_preserves_invariant ih e registryId
  | pull e data hdata _ ih =>
    exact pull_preserves_invariant hcodec ih e fun data' hdata' => Except.ok.inj hdata' ▸ hdata
  | failure e exc _ ih =>
    exact pull_preserves_invariant hcodec ih e fun data hdata => by cases hdata

/-! ## Relays -/

/-- The sink of the link hears from nobody else, and makes no changes of its own. -/
def SoleFeed (links : Links ι ε) (owns : ι → Prop) (e : ε) : Prop :=
  ¬ owns (links.sink e) ∧ ∀ e', links.sink e' = links.sink e → e' = e

/-- One registry is the sole feed of the other. -/
def Feeds (links : Links ι ε) (owns : ι → Prop) (i j : ι) : Prop :=
  ∃ e, SoleFeed links owns e ∧ links.source e = i ∧ links.sink e = j

/-- The sink holds what it has read of the source, and nothing else. -/
def Relays (links : Links ι ε) (s : System ι ε) (e : ε) : Prop :=
  (s.stores (links.sink e)).deltas.map deltaContent =
    ((s.stores (links.source e)).deltas.take (s.pollers e).since.toNat).map deltaContent

theorem length_deltas (h : Invariant codec links s) (i : ι) :
    ((s.stores i).deltas.length : ℤ) = (s.stores i).seq := by
  obtain ⟨adds, hadds⟩ := h.logged i
  rw [hadds, storeOf_length, storeOf_seq]

/-- What is written elsewhere leaves a relay as it is, also where its source is written. -/
theorem write_relays [DecidableEq ι] (h : Invariant codec links s) {e : ε} {i : ι}
    (hi : links.sink e ≠ i) (hrelay : Relays links s e) (rows : List (Action × SmAgentFacts)) :
    Relays links { s with stores := Function.update s.stores i (addAll rows (s.stores i)) } e := by
  have hle := (h.cursor e).2
  have hlength := length_deltas h (links.source e)
  rw [Relays] at hrelay ⊢
  simp only [Function.update_of_ne hi, hrelay]
  by_cases hj : links.source e = i
  · obtain ⟨more, hmore⟩ := addAll_extends rows (s.stores i)
    simp only [hj, Function.update_self, ← hmore]
    rw [List.take_append_of_le_length]
    rw [hj] at hlength hle
    omega
  · simp only [Function.update_of_ne hj]

theorem pull_relays [DecidableEq ι] [DecidableEq ε] (hcodec : codec.RoundTrips)
    (h : Invariant codec links s) {e : ε} (hsole : SoleFeed links owns e)
    (hrelay : Relays links s e) (e' : ε) {response : Except PyError Json}
    (hresponse : ∀ data, response = .ok data → s.answers e' = some data) :
    Relays links (s.pull codec links e' response) e := by
  rcases pull_cases hcodec h e' hresponse with heq | ⟨deltas, rows, hfront, hcontent, heq⟩
  · rw [heq]
    exact hrelay
  rw [heq]
  by_cases he : e' = e
  · -- the rows that are written are those behind the cursor, which moves past them
    subst e'
    obtain ⟨adds, hadds⟩ := h.logged (links.source e)
    obtain ⟨hpos, hle⟩ := h.cursor e
    have hlength := length_deltas h (links.source e)
    obtain ⟨more, hmore⟩ := hfront
    have hnext : (s.stores (links.source e)).deltas.take
        ((s.pollers e).since + deltas.length).toNat =
          (s.stores (links.source e)).deltas.take (s.pollers e).since.toNat ++ deltas := by
      rw [hadds, since_eq_drop] at hmore
      rw [hadds, Int.toNat_add hpos (by omega), Int.toNat_natCast, List.take_add, ← hmore,
        List.take_left]
    have hwithin : ((s.pollers e).since + deltas.length).toNat ≤
        (s.stores (links.source e)).deltas.length := by
      have hserved := congrArg List.length hmore
      rw [hadds, since_eq_drop, List.length_append, List.length_drop, ← hadds] at hserved
      omega
    have hsource : (Function.update s.stores (links.sink e)
        (addAll rows (s.stores (links.sink e))) (links.source e)).deltas.take
          ((s.pollers e).since + deltas.length).toNat =
        (s.stores (links.source e)).deltas.take ((s.pollers e).since + deltas.length).toNat := by
      by_cases hj : links.source e = links.sink e
      · obtain ⟨later, hlater⟩ := addAll_extends rows (s.stores (links.sink e))
        rw [hj] at hwithin ⊢
        rw [Function.update_self, ← hlater, List.take_append_of_le_length hwithin]
      · rw [Function.update_of_ne hj]
    rw [Relays] at hrelay ⊢
    simp only [Function.update_self, hsource, hnext, addAll_content, List.map_append, hcontent,
      hrelay]
  · have hsink : links.sink e ≠ links.sink e' := fun hsink => he (hsole.2 e' hsink.symm)
    have hwritten := write_relays h hsink hrelay rows
    rw [Relays] at hwritten ⊢
    simpa only [Function.update_of_ne (Ne.symm he)] using hwritten

theorem reachable_relays [DecidableEq ι] [DecidableEq ε] (hcodec : codec.RoundTrips) {n : ℕ}
    (h : Reachable codec links owns n s) {e : ε} (hsole : SoleFeed links owns e) :
    Relays links s e := by
  induction h with
  | init peerUrls options hmode => rfl
  | change i action agent howns hreach ih =>
    have hinv := reachable_invariant hcodec hreach
    exact write_relays hinv (fun hi => hsole.1 (hi ▸ howns)) ih [(action, agent)]
  | request e' registryId _ _ ih => exact ih
  | pull e' data hdata hreach ih =>
    exact pull_relays hcodec (reachable_invariant hcodec hreach) hsole ih e'
      fun data' hdata' => Except.ok.inj hdata' ▸ hdata
  | failure e' exc hreach ih =>
    exact pull_relays hcodec (reachable_invariant hcodec hreach) hsole ih e'
      fun data hdata => by cases hdata

/-- What a registry holds that is fed along a line of relays is a front part of what the registry
at the start of the line holds. -/
theorem line_prefix [DecidableEq ι] [DecidableEq ε] (hcodec : codec.RoundTrips) {n : ℕ}
    (h : Reachable codec links owns n s) {i j : ι}
    (hline : Relation.ReflTransGen (Feeds links owns) i j) :
    (s.stores j).deltas.map deltaContent <+: (s.stores i).deltas.map deltaContent := by
  induction hline with
  | refl => exact List.prefix_rfl
  | tail _ hfeeds ih =>
    obtain ⟨e, hsole, rfl, rfl⟩ := hfeeds
    have hrelay := reachable_relays hcodec h hsole
    rw [Relays] at hrelay
    rw [hrelay]
    exact ((List.take_prefix _ _).map _).trans ih

/-- A row with its number, up to the proof of its agent. -/
def numbered (delta : SmAgentFactsDelta) : ℤ × Action × SmAgentFacts :=
  (delta.seq, deltaContent delta)

/-- Numbers are given out in order, so they add nothing to the contents of a log. -/
theorem numbered_deltas (h : Invariant codec links s) (i : ι) :
    (s.stores i).deltas.map numbered =
      ((s.stores i).deltas.map deltaContent).mapIdx fun k row => ((k : ℤ) + 1, row) := by
  obtain ⟨adds, hadds⟩ := h.logged i
  rw [hadds, storeOf_deltas]
  refine List.ext_getElem? fun k => ?_
  simp only [List.getElem?_map, List.getElem?_mapIdx, Option.map_map]
  rfl

end Steps

/-- Each registry polls the one before it, and the first one makes the changes. -/
def line : Links ℕ ℕ := ⟨id, Nat.succ⟩

theorem no_field_named : ∀ field ∈ ([] : List (String × Json)), field.1 ∉ namedFields :=
  List.forall_mem_nil _

def named : SmAgentFacts := ⟨"urn:agent:1", none, none, [], no_field_named⟩

/-- The page that a registry with one agent serves. -/
def onePage : Json := smDeltas plainCodec "a" (DeltaStore.empty.add .upsert named) 0

/-- A change has come from the first registry to the second. -/
def relayedOnce : System ℕ ℕ :=
  (((initial (fun _ => "https://peer.example") fun _ => {}).change 0 .upsert named).request
    plainCodec line 0 "a").pull plainCodec line 0 (.ok onePage)

theorem relayedOnce_reachable : Reachable plainCodec line (· = 0) 1 relayedOnce :=
  .pull 0 onePage rfl (.request 0 "a" rfl (.change 0 .upsert named rfl (.init _ _ fun _ => rfl)))

/-- The page that the second registry serves then. -/
def secondPage : Json := smDeltas plainCodec "b" (relayedOnce.stores 1) 0

/-- The change has come on to the third. -/
def relayedTwice : System ℕ ℕ :=
  (relayedOnce.request plainCodec line 1 "b").pull plainCodec line 1 (.ok secondPage)

theorem relayedTwice_reachable : Reachable plainCodec line (· = 0) 1 relayedTwice :=
  .pull 1 secondPage rfl (.request 1 "b" rfl relayedOnce_reachable)

section Echoes

variable {ι ε : Type} {codec : AgentCodec} {links : Links ι ε} {owns : ι → Prop} {s : System ι ε}

/-! ## Echoes -/

/-- The number of links that poll a registry. -/
def readers [DecidableEq ι] [Fintype ε] (links : Links ι ε) (i : ι) : ℕ :=
  (Finset.univ.filter fun e => links.source e = i).card

/-- What is written at a registry is unread on every link that polls it. -/
theorem sum_unread_write [DecidableEq ι] [Fintype ε] (links : Links ι ε) (s : System ι ε) (i : ι)
    (rows : List (Action × SmAgentFacts)) :
    ∑ e, unread links
        { s with stores := Function.update s.stores i (addAll rows (s.stores i)) } e =
      ∑ e, unread links s e + rows.length * readers links i := by
  have hunread : ∀ e, unread links
      { s with stores := Function.update s.stores i (addAll rows (s.stores i)) } e =
        unread links s e + if links.source e = i then (rows.length : ℤ) else 0 := by
    intro e
    by_cases hj : links.source e = i
    · simp only [unread, hj, Function.update_self, addAll_seq, if_true]
      omega
    · simp only [unread, Function.update_of_ne hj, if_neg hj, add_zero]
  simp only [hunread, Finset.sum_add_distrib, ← Finset.sum_filter, Finset.sum_const, nsmul_eq_mul,
    readers]
  ring

theorem sum_unread_taken [DecidableEq ε] [Fintype ε] (s : System ι ε) (e : ε) (k : ℤ)
    (answers : ε → Option Json) :
    ∑ e', unread links
        { s with
          pollers := Function.update s.pollers e { s.pollers e with
            since := (s.pollers e).since + k }
          answers := answers } e' =
      ∑ e', unread links s e' - k := by
  have hunread : ∀ e', unread links
      { s with
        pollers := Function.update s.pollers e { s.pollers e with since := (s.pollers e).since + k }
        answers := answers } e' = unread links s e' - if e' = e then k else 0 := by
    intro e'
    by_cases he : e' = e
    · subst e'
      simp only [unread, Function.update_self, if_true]
      omega
    · simp only [unread, Function.update_of_ne he, if_neg he, sub_zero]
  simp only [hunread, Finset.sum_sub_distrib, Finset.sum_ite_eq', Finset.mem_univ, if_true]

/-- A pull takes rows off one link and puts them on every link that polls the reader. -/
theorem sum_unread_pull [DecidableEq ι] [DecidableEq ε] [Fintype ε] (hcodec : codec.RoundTrips)
    (h : Invariant codec links s) (e : ε) (response : Except PyError Json)
    (hresponse : ∀ data, response = .ok data → s.answers e = some data) :
    ∃ k : ℕ, ∑ e', unread links (s.pull codec links e response) e' =
      ∑ e', unread links s e' + k * readers links (links.sink e) - k := by
  rcases pull_cases hcodec h e hresponse with heq | ⟨deltas, rows, -, hcontent, heq⟩
  · refine ⟨0, ?_⟩
    rw [heq, Nat.cast_zero, zero_mul, add_zero, sub_zero]
    rfl
  · have hlength : rows.length = deltas.length := by
      simpa only [List.length_map] using congrArg List.length hcontent
    refine ⟨deltas.length, ?_⟩
    have hwrite := sum_unread_write links { s with
      pollers := Function.update s.pollers e
        { s.pollers e with since := (s.pollers e).since + deltas.length }
      answers := Function.update s.answers e none } (links.sink e) rows
    rw [sum_unread_taken, hlength] at hwrite
    rw [heq, hwrite]
    ring

/-- What every local change and every pull does to the number of unread rows. -/
theorem unread_induction [DecidableEq ι] [DecidableEq ε] [Fintype ε] (hcodec : codec.RoundTrips)
    {P : ℕ → ℤ → Prop} (zero : P 0 0)
    (change : ∀ n unread i, P n unread → P (n + 1) (unread + readers links i))
    (pull : ∀ n unread i (k : ℕ), P n unread → P n (unread + k * readers links i - k))
    {n : ℕ} (h : Reachable codec links owns n s) : P n (∑ e, unread links s e) := by
  induction h with
  | init peerUrls options hmode => simpa [unread, initial, DeltaStore.empty] using zero
  | @change n s i action agent howns hreach ih =>
    have hwrite := sum_unread_write links s i [(action, agent)]
    rw [List.length_singleton, Nat.cast_one, one_mul] at hwrite
    exact hwrite.symm ▸ change _ _ i ih
  | request e registryId _ _ ih => exact ih
  | pull e data hdata hreach ih =>
    obtain ⟨k, hk⟩ := sum_unread_pull hcodec (reachable_invariant hcodec hreach) e
      (.ok data) fun data' hdata' => Except.ok.inj hdata' ▸ hdata
    exact hk.symm ▸ pull _ _ _ k ih
  | failure e exc hreach ih =>
    obtain ⟨k, hk⟩ := sum_unread_pull hcodec (reachable_invariant hcodec hreach) e
      (.error exc) fun _ hdata => by cases hdata
    exact hk.symm ▸ pull _ _ _ k ih

/-- Where everybody is polled by somebody, there are never fewer unread rows than local changes
were made, so the network does not come to rest. Where everybody is polled by exactly one, the
two numbers are the same at all times. -/
theorem unread_conserved (codec : AgentCodec) (hcodec : codec.RoundTrips) [DecidableEq ι]
    [DecidableEq ε] [Fintype ε] (links : Links ι ε) (owns : ι → Prop) (n : ℕ) (s : System ι ε)
    (h : Reachable codec links owns n s) :
    ((∀ i, 1 ≤ readers links i) →
      (n : ℤ) ≤ ∑ e, unread links s e ∧ (0 < n → ∃ e, 0 < unread links s e)) ∧
    ((∀ i, readers links i = 1) → ∑ e, unread links s e = n) := by
  constructor
  · intro hpolled
    have hbound : (n : ℤ) ≤ ∑ e, unread links s e := by
      refine unread_induction (P := fun n unread => (n : ℤ) ≤ unread) hcodec le_rfl ?_ ?_ h
      · intro n unread i ih
        have hi := hpolled i
        push_cast
        omega
      · intro n unread i k ih
        have hmore : (k : ℤ) * 1 ≤ k * readers links i :=
          mul_le_mul_of_nonneg_left (Nat.one_le_cast.mpr (hpolled i)) (Int.natCast_nonneg k)
        omega
    refine ⟨hbound, fun hpos => ?_⟩
    by_contra hrest
    have hnone : ∑ e, unread links s e ≤ 0 :=
      Finset.sum_nonpos fun e _ => Int.not_lt.mp fun he => hrest ⟨e, he⟩
    omega
  · intro hpolled
    refine unread_induction (P := fun n unread => unread = (n : ℤ)) hcodec rfl ?_ ?_ h
    · rintro n unread i rfl
      rw [hpolled i]
      push_cast
      rfl
    · rintro n unread i k rfl
      rw [hpolled i]
      push_cast
      omega

end Echoes

/-- Two registries that poll each other. -/
def pair : Links Bool Bool := ⟨not, id⟩

def echoedOnce : System Bool Bool :=
  (((initial (fun _ => "https://peer.example") fun _ => {}).change false .upsert named).request
    plainCodec pair true "a").pull plainCodec pair true (.ok onePage)

theorem echoedOnce_reachable : Reachable plainCodec pair (fun _ => True) 1 echoedOnce :=
  .pull true onePage rfl
    (.request true "a" rfl (.change false .upsert named trivial (.init _ _ fun _ => rfl)))

theorem unread_conserved_once : ∑ e, unread pair echoedOnce e = 1 :=
  (unread_conserved plainCodec plainCodec_roundTrips pair (fun _ => True) 1 echoedOnce
    echoedOnce_reachable).2 (by decide)

end FederationNetwork
