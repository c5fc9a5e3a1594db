import SmBridge.Federation
import Mathlib.Data.Int.Order.Basic

/-!
# Delivery from a growing source log

One poller reads a source log into a sink that nobody else writes. Appends at the source,
answers on their way, failures and refused pages interleave freely; the sink holds the
delivered part of the source log and nothing else.
-/
namespace FederationDelivery

open Python
open JsonValue
open Store
open Federation
open OrderedLog

variable (codec : AgentCodec)

/-- `data` is an answer of a source that holds `log` to a request for `since`. An exclusive
source sends all it has; an inclusive one may stop early. -/
inductive Serves (log : List SmAgentFactsDelta) (since : ℤ) (data : Json) : CursorMode → Prop
  | exclusive {rows : List Json} (hdata : data.get? "deltas" = some (.arr rows))
      (hrows : List.Forall₂ (RowOf codec) (log.filter fun d => since < d.seq) rows) :
      Serves log since data .exclusive
  | inclusive {deltas : List SmAgentFactsDelta} {rows : List Json}
      (hfront : deltas <+: log.filter fun d => since ≤ d.seq)
      (hempty : deltas = [] → (log.filter fun d => since ≤ d.seq) = [])
      (hdata : data.get? "deltas" = some (.arr rows))
      (hrows : List.Forall₂ (RowOf codec) deltas rows)
      (hnext : data.getInt? "next_seq" =
        some ((deltas.getLast?.map fun d => d.seq + 1).getD since)) :
      Serves log since data .inclusive

theorem smDeltas_serves (registryId : String) (store : DeltaStore) (since : ℤ) :
    Serves codec store.deltas since (smDeltas codec registryId store since) .exclusive := by
  have hdata : (smDeltas codec registryId store since).get? "deltas" =
      some (.arr ((store.since since).map (deltaJson codec))) := rfl
  refine .exclusive hdata ?_
  rw [List.forall₂_map_right_iff]
  exact List.forall₂_same.mpr fun d _ => rowOf_deltaJson d

/-! ## The system -/

structure System where
  source : List SmAgentFactsDelta
  poller : FederationPoller
  sink : DeltaStore
  /-- The answer to the request in flight. -/
  response : Option (Except PyError Json)

/-- The poller's answer is taken by `syncOnce` whenever it arrives. -/
def System.sync (s : System) (response : Except PyError Json) : System :=
  let result := s.poller.syncOnce codec addInMemory (fun _ => response) s.sink
  { s with poller := result.2.1, sink := result.2.2, response := none }

inductive Step : System → System → Prop
  | append {s : System} (delta : SmAgentFactsDelta) (hpos : 0 < delta.seq)
      (hlater : ∀ d ∈ s.source, d.seq < delta.seq) :
      Step s { s with source := s.source ++ [delta] }
  | answer {s : System} (data : Json) (hidle : s.response = none)
      (hserved : Serves codec s.source s.poller.since data s.poller.options.cursorMode) :
      Step s { s with response := some (.ok data) }
  | failure {s : System} (e : PyError) (hidle : s.response = none) :
      Step s { s with response := some (.error e) }
  | malformed {s : System} (data : Json) (e : PyError) (hidle : s.response = none)
      (hrefused : preparePage codec s.poller.options s.poller.since data = .error e) :
      Step s { s with response := some (.ok data) }
  | sync {s : System} (response : Except PyError Json) (h : s.response = some response) :
      Step s (s.sync codec response)

inductive Reachable : System → Prop
  | init (peerUrl : String) (options : PullOptions) :
      Reachable ⟨[], ⟨peerUrl, 0, options⟩, DeltaStore.empty, none⟩
  | step {s t : System} : Reachable s → Step codec s t → Reachable t

def System.taken (s : System) : ℤ := previousOf s.poller.options.cursorMode s.poller.since

/-- The page in flight will be refused, or it holds the next rows of the source. -/
def Answers (s : System) (data : Json) : Prop :=
  (∃ e, preparePage codec s.poller.options s.poller.since data = .error e) ∨
  ∃ deltas rows, deltas <+: beyond SmAgentFactsDelta.seq s.taken s.source ∧
    data.get? "deltas" = some (.arr rows) ∧ List.Forall₂ (RowOf codec) deltas rows

structure Invariant (s : System) : Prop where
  increasing : Increasing SmAgentFactsDelta.seq s.source
  ahead : ∀ seq, 0 < seq → (∀ d ∈ s.source, d.seq < seq) → s.taken < seq
  sink : s.sink.deltas.map deltaContent =
    (upTo SmAgentFactsDelta.seq s.taken s.source).map deltaContent
  response : ∀ data, s.response = some (.ok data) → Answers codec s data

variable {codec}

theorem answers_of_serves {s : System} {data : Json}
    (h : Serves codec s.source s.poller.since data s.poller.options.cursorMode) :
    Answers codec s data := by
  refine Or.inr ?_
  rw [System.taken]
  generalize s.poller.options.cursorMode = mode at h
  cases h with
  | exclusive hdata hrows => exact ⟨_, _, List.prefix_rfl, hdata, hrows⟩
  | @inclusive deltas rows hfront _ hdata hrows _ =>
    have hbeyond : beyond SmAgentFactsDelta.seq (previousOf .inclusive s.poller.since) s.source =
        s.source.filter fun d => s.poller.since ≤ d.seq := by
      refine List.filter_congr fun d _ => decide_eq_decide.mpr ?_
      simp only [previousOf]
      omega
    exact ⟨deltas, rows, hbeyond ▸ hfront, hdata, hrows⟩

theorem initial_invariant (peerUrl : String) (options : PullOptions) :
    Invariant codec ⟨[], ⟨peerUrl, 0, options⟩, DeltaStore.empty, none⟩ where
  increasing := List.Pairwise.nil
  ahead seq hpos _ := by
    simp only [System.taken]
    cases options.cursorMode <;> simp only [previousOf] <;> omega
  sink := rfl
  response data h := by simp at h

theorem append_preserves_invariant {s : System} (h : Invariant codec s) {delta : SmAgentFactsDelta}
    (hpos : 0 < delta.seq) (hlater : ∀ d ∈ s.source, d.seq < delta.seq) :
    Invariant codec { s with source := s.source ++ [delta] } where
  increasing := h.increasing.append (List.pairwise_singleton ..) fun d hd d' hd' => by
    rw [List.mem_singleton.mp hd']
    exact hlater d hd
  ahead seq hseq hall := h.ahead seq hseq fun d hd => hall d (List.mem_append_left _ hd)
  sink := by
    have hnew : upTo SmAgentFactsDelta.seq s.taken [delta] = [] :=
      upTo_eq_nil fun d hd => by
        rw [List.mem_singleton.mp hd]
        exact h.ahead delta.seq hpos hlater
    change _ = (upTo SmAgentFactsDelta.seq s.taken (s.source ++ [delta])).map deltaContent
    rw [upTo_append, hnew, List.append_nil]
    exact h.sink
  response data hdata := by
    rcases h.response data hdata with hrefused | ⟨deltas, rows, hfront, hrows⟩
    · exact Or.inl hrefused
    · exact Or.inr ⟨deltas, rows, hfront.trans (beyond_grows (List.prefix_append _ _)), hrows⟩

theorem sync_preserves_invariant (hcodec : codec.RoundTrips) {s : System} (h : Invariant codec s)
    {response : Except PyError Json} (hresponse : s.response = some response) :
    Invariant codec (s.sync codec response) := by
  rcases syncOnce_inMemory codec s.poller (fun _ => response) s.sink with
    ⟨e, herr⟩ | ⟨data, prepared, cursor, rfl, hpage, hok⟩
  · -- an in-memory store never fails, so the error came before the first write
    have hsync : s.sync codec response = { s with response := none } := by
      rw [System.sync, herr]
    rw [hsync]
    exact ⟨h.increasing, h.ahead, h.sink, fun data hdata => by cases hdata⟩
  · rcases h.response data hresponse with ⟨e, hrefused⟩ | ⟨deltas, rows, hfront, hdata, hrows⟩
    · rw [hrefused] at hpage
      cases hpage
    · -- the rows of the page are the next ones of the source, and the cut moves past them
      obtain ⟨hcontent, hcursor⟩ := preparePage_rowsOf hcodec hdata hrows hpage
      have htaken : (s.sync codec (.ok data)).taken =
          advance SmAgentFactsDelta.seq s.taken deltas := by
        rw [System.sync, hok]
        exact hcursor
      refine ⟨h.increasing, ?_, ?_, fun data hdata => by cases hdata⟩
      · intro seq hseq hall
        rw [htaken]
        rcases List.eq_nil_or_concat deltas with rfl | ⟨init, last, rfl⟩
        · exact h.ahead seq hseq hall
        · rw [List.concat_eq_append] at hfront ⊢
          rw [advance_concat]
          exact hall last (mem_beyond.mp (hfront.subset (by simp))).1
      · rw [htaken]
        change (s.sync codec (.ok data)).sink.deltas.map deltaContent =
          (upTo _ _ s.source).map deltaContent
        rw [upTo_advance h.increasing hfront, List.map_append, ← h.sink, ← hcontent, System.sync,
          hok]
        exact addAll_content prepared s.sink

theorem step_preserves_invariant (hcodec : codec.RoundTrips) {s t : System}
    (h : Invariant codec s) (step : Step codec s t) : Invariant codec t := by
  cases step with
  | append delta hpos hlater => exact append_preserves_invariant h hpos hlater
  | answer data _ hserved =>
    refine ⟨h.increasing, h.ahead, h.sink, fun data' hdata => ?_⟩
    obtain rfl : data = data' := by simpa using hdata
    exact answers_of_serves (s := s) hserved
  | failure e _ => exact ⟨h.increasing, h.ahead, h.sink, fun data hdata => by simp at hdata⟩
  | malformed data e _ hrefused =>
    refine ⟨h.increasing, h.ahead, h.sink, fun data' hdata => ?_⟩
    obtain rfl : data = data' := by simpa using hdata
    exact Or.inl ⟨e, hrefused⟩
  | sync response hresponse => exact sync_preserves_invariant hcodec h hresponse

theorem reachable_invariant (hcodec : codec.RoundTrips) {s : System} (h : Reachable codec s) :
    Invariant codec s := by
  induction h with
  | init peerUrl options => exact initial_invariant peerUrl options
  | step _ step ih => exact step_preserves_invariant hcodec ih step

def delivered (mode : CursorMode) (since : ℤ) (delta : SmAgentFactsDelta) : Bool :=
  match mode with
  | .exclusive => delta.seq ≤ since
  | .inclusive => delta.seq < since

/-- In every reachable state the sink's log is the delivered part of the source log: the same
rows, in order, each once, with the same action and the same agent up to the proof. -/
theorem delivered_exactly_once (codec : AgentCodec) (hcodec : codec.RoundTrips) (s : System)
    (h : Reachable codec s) :
    (s.source.Pairwise fun d d' => d.seq < d'.seq) ∧
    s.sink.deltas.map deltaContent =
      (s.source.filter (delivered s.poller.options.cursorMode s.poller.since)).map
        deltaContent := by
  have hinv := reachable_invariant hcodec h
  refine ⟨hinv.increasing, ?_⟩
  rw [hinv.sink, System.taken]
  congr 1
  refine List.filter_congr fun d _ => ?_
  cases s.poller.options.cursorMode with
  | exclusive => rfl
  | inclusive =>
    refine decide_eq_decide.mpr ?_
    simp only [previousOf]
    omega

/-- The second row is appended while the answer with the first one is on its way. -/
def laggingSync : System :=
  let agent : SmAgentFacts := ⟨"urn:agent:1", none, none, [("label", .str "one")], by decide⟩
  let store := DeltaStore.empty.add .upsert agent
  System.sync plainCodec ⟨(store.add .delete agent).deltas, ⟨"https://peer.example", 0, {}⟩,
    DeltaStore.empty, none⟩ (.ok (smDeltas plainCodec "peer" store 0))

theorem laggingSync_reachable : Reachable plainCodec laggingSync :=
  .step (.step (.step (.step (.init "https://peer.example" {})
    (.append ⟨1, .upsert, _⟩ (by decide) (by simp)))
    (.answer _ rfl (smDeltas_serves plainCodec "peer" (DeltaStore.empty.add .upsert _) 0)))
    (.append ⟨2, .delete, _⟩ (by decide) (by simp)))
    (.sync _ rfl)

theorem delivered_exactly_once_lagging :
    laggingSync.source.length = 2 ∧ laggingSync.poller.since = 1 ∧
    laggingSync.sink.deltas.map deltaContent =
      (laggingSync.source.filter (delivered .exclusive 1)).map deltaContent :=
  ⟨rfl, rfl, (delivered_exactly_once plainCodec plainCodec_roundTrips laggingSync
    laggingSync_reachable).2⟩

/-- Nothing is withheld: an exclusive poller that hears from the source as it is and has no
local verifier holds the whole source log afterwards. -/
theorem sync_catches_up (hcodec : codec.RoundTrips) {s : System} (h : Reachable codec s)
    (hmode : s.poller.options.cursorMode = .exclusive) (hverify : s.poller.options.reverify = none)
    (hcursor : 0 ≤ s.poller.since) {data : Json} (hresponse : s.response = some (.ok data))
    (hserved : Serves codec s.source s.poller.since data .exclusive) :
    (s.sync codec (.ok data)).sink.deltas.map deltaContent = s.source.map deltaContent := by
  have hinv := reachable_invariant hcodec h
  have hnext := reachable_invariant hcodec (.step h (.sync _ hresponse))
  cases hserved with
  | exclusive hdata hrows =>
    have hbeyond : ∀ d ∈ s.source.filter (fun d => s.poller.since < d.seq),
        s.poller.since < d.seq := fun d hd => by simpa using (List.mem_filter.mp hd).2
    obtain ⟨⟨prepared, cursor⟩, hpage⟩ := preparePage_accepts hcodec hmode hverify hdata hrows
      (List.Pairwise.filter _ hinv.increasing) hbeyond
    obtain ⟨hcontent, -⟩ := preparePage_rowsOf hcodec hdata hrows hpage
    have hsync : (s.sync codec (.ok data)).sink = addAll prepared s.sink := by
      simp only [System.sync, FederationPoller.syncOnce, pullDeltas,
        if_neg (Int.not_lt.mpr hcursor), hpage, addRows_inMemory]
    rw [hsync, addAll_content, hinv.sink, hcontent, System.taken, hmode, ← List.map_append]
    exact congrArg _ (upTo_append_beyond hinv.increasing)

end FederationDelivery
