import SmBridge.FederationProofs
import SmBridge.StoreRuns

/-!
# Retries after a failing store

A poller whose store raises keeps its cursor and pulls the same page again, or a longer one. The
rows of the failed attempts stay in the log, but the catalog only shows the last attempt.
-/
namespace FederationRetries

open Python
open JsonValue
open Dictionary
open Replay
open Store
open Gateway
open Federation
open FederationPages
open FederationProofs
open StoreRuns

/-! ## Failed attempts -/

/-- A store whose `add` works a number of times and then raises, before or after the delta has
been appended in memory. -/
structure FailingStore where
  store : DeltaStore
  left : ℕ
  appends : Bool

def failingAdd (e : PyError) (action : Action) (agent : SmAgentFacts) (failing : FailingStore) :
    Except PyError Unit × FailingStore :=
  match failing.left with
  | 0 =>
    (.error e,
      if failing.appends then { failing with store := failing.store.add action agent }
      else failing)
  | left + 1 => (.ok (), { failing with store := failing.store.add action agent, left := left })

/-- The rows of a page. -/
def pageOf (body : Json) : List Json :=
  match body.get? "deltas" with
  | some (.arr page) => page
  | _ => []

/-- Calls of `sync_once` that the store makes fail, with the bodies that they got. -/
inductive Retried (codec : AgentCodec) (start : Request × DeltaStore) :
    List Json → Request × DeltaStore → Prop
  | none : Retried codec start [] start
  | failed {bodies : List Json} {request request' : Request} {store : DeltaStore}
      (hbefore : Retried codec start bodies (request, store)) {body : Json} {left : ℕ}
      {appends : Bool} {e e' : PyError} {after : FailingStore}
      (hfailed : request.syncOnce codec (failingAdd e) (fun _ => .ok body)
        ⟨store, left, appends⟩ = (.error e', request', after)) :
      Retried codec start (bodies ++ [body]) (request', after.store)

variable {codec : AgentCodec} {request request' : Request} {store store' : DeltaStore}
  {bodies : List Json} {body last : Json} {page : List Json} {e e' : PyError}

/-- A run of additions stops behind a first part of them. -/
theorem addRows_failing (rows : List (Action × SmAgentFacts)) (failing : FailingStore) :
    ∃ applied, applied <+: rows ∧
      (addRows (failingAdd e) rows failing).2.store = addAll applied failing.store := by
  induction rows generalizing failing with
  | nil => exact ⟨[], List.prefix_rfl, rfl⟩
  | cons row rows ih =>
    obtain ⟨action, agent⟩ := row
    obtain ⟨store, left, appends⟩ := failing
    cases left with
    | zero =>
      cases appends with
      | false => exact ⟨[], List.nil_prefix, rfl⟩
      | true => exact ⟨[(action, agent)], List.prefix_append [(action, agent)] rows, rfl⟩
    | succ left =>
      obtain ⟨applied, hfront, hstore⟩ := ih ⟨store.add action agent, left, appends⟩
      exact ⟨(action, agent) :: applied, List.cons_prefix_cons.mpr ⟨rfl, hfront⟩, hstore⟩

/-- An agent that a row of the page brings in. -/
def Named (codec : AgentCodec) (page : List Json) (id : String) : Prop :=
  ∃ row ∈ page, ∃ json agent, row.get? "agent" = some json ∧
    codec.modelValidate json = .ok agent ∧ agent.id = id

theorem Named.mono {page page' : List Json} {id : String} (h : Named codec page id)
    (hfront : page <+: page') : Named codec page' id := by
  obtain ⟨row, hrow, hagent⟩ := h
  exact ⟨row, hfront.subset hrow, hagent⟩

theorem Accepted.named {fetch : String → Except PyError Json}
    {calls : List (Action × SmAgentFacts)} {cursor : ℤ}
    (h : Accepted codec request fetch page calls cursor) {call : Action × SmAgentFacts}
    (hcall : call ∈ calls) : Named codec page call.2.id := by
  obtain ⟨since, mode, data, -, -, -, -, hpage⟩ := h
  obtain ⟨row, hrow, -, json, agent, proof, hjson, hvalid, -, hagent⟩ :=
    forall₂_exists hpage.applied hcall
  exact ⟨row, hrow, json, agent, hjson, hvalid, by rw [hagent]⟩

theorem Accepted.mem_ids {fetch : String → Except PyError Json}
    {calls : List (Action × SmAgentFacts)} {cursor : ℤ}
    (h : Accepted codec request fetch page calls cursor) {id : String}
    (hid : Named codec page id) : id ∈ calls.map fun call => call.2.id := by
  obtain ⟨since, mode, data, -, -, -, -, hpage⟩ := h
  obtain ⟨row, hrow, json, agent, hjson, hvalid, rfl⟩ := hid
  obtain ⟨call, hcall, -, json', agent', proof, hjson', hvalid', -, hagent⟩ :=
    forall₂_exists hpage.applied.flip hrow
  obtain rfl := Option.some.inj (hjson.symm.trans hjson')
  obtain rfl := Except.ok.inj (hvalid.symm.trans hvalid')
  exact List.mem_map.mpr ⟨call, hcall, by rw [hagent]⟩

theorem Accepted.pageOf_eq {calls : List (Action × SmAgentFacts)} {cursor : ℤ}
    (h : Accepted codec request (fun _ => .ok body) page calls cursor) : pageOf body = page := by
  obtain ⟨since, mode, data, -, -, -, hbody, hpage⟩ := h
  obtain rfl := Except.ok.inj hbody
  rw [pageOf, hpage.deltas]

theorem storeOf_append (adds rows : List (Action × SmAgentFacts)) :
    addAll rows (storeOf adds) = storeOf (adds ++ rows) := by
  rw [storeOf, storeOf, List.foldl_append]
  rfl

/-- A failed attempt keeps the cursor and adds a first part of its page. -/
theorem syncOnce_failed {failing after : FailingStore}
    (h : request.syncOnce codec (failingAdd e) (fun _ => .ok body) failing =
      (.error e', request', after)) :
    request' = request ∧ ∃ applied, after.store = addAll applied failing.store ∧
      ∀ row ∈ applied, Named codec (pageOf body) row.2.id := by
  rw [Request.syncOnce] at h
  cases hprepare : request.prepare codec (fun _ => .ok body) with
  | error e =>
    rw [pull_of_refused hprepare] at h
    obtain ⟨rfl, rfl⟩ := Prod.mk.inj (Prod.mk.inj h).2
    exact ⟨rfl, [], rfl, fun _ hrow => absurd hrow List.not_mem_nil⟩
  | ok prepared =>
    obtain ⟨calls, cursor⟩ := prepared
    obtain ⟨page, hpage⟩ := prepare_eq_ok hprepare
    obtain ⟨applied, hfront, hstore⟩ := addRows_failing (e := e) calls failing
    rw [pull_of_prepared hprepare] at h
    rcases hadd : addRows (failingAdd e) calls failing with ⟨e | done, stopped⟩
    · rw [hadd] at h hstore
      obtain ⟨rfl, rfl⟩ := Prod.mk.inj (Prod.mk.inj h).2
      refine ⟨rfl, applied, hstore, fun row hrow => ?_⟩
      rw [Accepted.pageOf_eq hpage]
      exact Accepted.named hpage (hfront.subset hrow)
    · rw [hadd] at h
      cases (Prod.mk.inj h).1

/-- After failed attempts, the cursor is where it was, and the log has grown by rows of agents
that the page still names. -/
theorem retried_store {adds : List (Action × SmAgentFacts)} {page : List Json}
    (h : Retried codec (request, storeOf adds) bodies (request', store'))
    (hpages : ∀ body ∈ bodies, pageOf body <+: page) :
    request' = request ∧ ∃ stale, store' = storeOf (adds ++ stale) ∧
      ∀ row ∈ stale, Named codec page row.2.id := by
  generalize hstate : (request', store') = state at h
  induction h generalizing request' store' with
  | none =>
    obtain ⟨rfl, rfl⟩ := Prod.mk.inj hstate
    exact ⟨rfl, [], by rw [List.append_nil], fun _ hrow => absurd hrow List.not_mem_nil⟩
  | @failed bodies earlier request'' store hbefore body left appends e e' after hfailed ih =>
    obtain ⟨rfl, rfl⟩ := Prod.mk.inj hstate
    obtain ⟨rfl, stale, rfl, hstale⟩ := ih
      (fun b hb => hpages b (List.mem_append_left _ hb)) rfl
    obtain ⟨rfl, applied, happlied, hnamed⟩ := syncOnce_failed hfailed
    refine ⟨rfl, stale ++ applied, ?_, fun row hrow => ?_⟩
    · rw [happlied, storeOf_append, List.append_assoc]
    · rcases List.mem_append.mp hrow with hrow | hrow
      · exact hstale row hrow
      · exact (hnamed row hrow).mono
          (hpages body (List.mem_append_right _ (List.mem_singleton_self body)))

/-! ## The catalog -/

def agentId (add : Action × SmAgentFacts) : String := add.2.id

/-- The catalog only depends on the latest addition of every agent. -/
theorem currentFacts_congr {adds others : List (Action × SmAgentFacts)}
    (h : latest agentId adds = latest agentId others) (slug : SmAgentFacts → String) :
    currentFacts (storeOf adds) slug = currentFacts (storeOf others) slug := by
  have hfold : ∀ adds, currentFacts (storeOf adds) slug =
      (latest agentId adds).foldl (fun state add =>
        state.update (slug add.2, shown ⟨0, add.1, add.2⟩)) Dict.empty := by
    intro adds
    have hlatest : latest agentId adds = (latest agentOf (storeOf adds).deltas).map
        fun d => (d.action, d.agent) :=
      (congrArg (latest agentId) (storeOf_records adds).symm).trans (latest_map _ _)
    rw [currentFacts, applyDeltas, snapshot_eq (storeOf_invariant adds), hlatest, List.foldl_map]
    rfl
  rw [hfold, hfold, h]

theorem prefix_last {bodies : List Json} {last : Json}
    (h : (bodies ++ [last]).IsChain fun body body' => pageOf body <+: pageOf body') :
    ∀ body ∈ bodies, pageOf body <+: pageOf last := by
  have htrans : IsTrans Json fun body body' => pageOf body <+: pageOf body' :=
    ⟨fun _ _ _ => List.IsPrefix.trans⟩
  intro body hbody
  exact (List.pairwise_append.mp h.pairwise).2.2 body hbody last (List.mem_singleton_self last)

theorem syncOnce_prepared {fetch : String → Except PyError Json}
    {calls : List (Action × SmAgentFacts)} {cursor : ℤ}
    (h : request.prepare codec fetch = .ok (calls, cursor)) (store : DeltaStore) :
    request.syncOnce codec addInMemory fetch store =
      (.ok ⟨calls.length, cursor⟩, { request with since := .int cursor }, addAll calls store) := by
  rw [Request.syncOnce, pull_of_prepared h, addRows_inMemory]

/-- Whatever the failed attempts have left, the pull that succeeds gives the catalog that it
would have given at first. -/
theorem retries_converge (codec : AgentCodec) (request : Request) (calls : List Call)
    {bodies : List Json} {last : Json} {request' next : Request} {store' sink : DeltaStore}
    {result : PullResult} (hretried : Retried codec (request, run calls) bodies (request', store'))
    (hgrowing : (bodies ++ [last]).IsChain fun body body' => pageOf body <+: pageOf body')
    (hpull : request.syncOnce codec addInMemory (fun _ => .ok last) (run calls) =
      (.ok result, next, sink)) :
    ∃ sink', request'.syncOnce codec addInMemory (fun _ => .ok last) store' =
        (.ok result, next, sink') ∧
      ∀ slug, currentFacts sink' slug = currentFacts sink slug := by
  rw [run_eq] at hretried hpull
  obtain ⟨rfl, stale, rfl, hstale⟩ := retried_store hretried (prefix_last hgrowing)
  cases hprepare : request'.prepare codec (fun _ => .ok last) with
  | error e =>
    rw [Request.syncOnce, pull_of_refused hprepare] at hpull
    cases (Prod.mk.inj hpull).1
  | ok prepared =>
    obtain ⟨rows, cursor⟩ := prepared
    obtain ⟨page, hpage⟩ := prepare_eq_ok hprepare
    rw [syncOnce_prepared hprepare] at hpull
    obtain ⟨hresult, hrest⟩ := Prod.mk.inj hpull
    obtain rfl := Except.ok.inj hresult
    obtain ⟨rfl, rfl⟩ := Prod.mk.inj hrest
    refine ⟨_, syncOnce_prepared hprepare _, fun slug => ?_⟩
    rw [storeOf_append, storeOf_append]
    refine currentFacts_congr (latest_append_overwritten fun row hrow => ?_) slug
    exact Accepted.mem_ids hpage (Accepted.pageOf_eq hpage ▸ hstale row hrow)

def peerRow (seq : ℤ) (id : String) : Json :=
  .obj [("seq", .int seq), ("action", .str "upsert"), ("agent", .obj [("id", .str id)])]

def peerRows (rows : List Json) : Json := .obj [("deltas", .arr rows)]

/-- The first pull stops at its only row, which stays in memory; the second gets another one. -/
theorem retries_converge_twice : ∃ store' sink sink' result next,
    Retried plainCodec (defaultRequest, run []) [peerRows [peerRow 1 "a"]]
      (defaultRequest, store') ∧
    defaultRequest.syncOnce plainCodec addInMemory
      (fun _ => .ok (peerRows [peerRow 1 "a", peerRow 2 "b"])) (run []) =
        (.ok result, next, sink) ∧
    defaultRequest.syncOnce plainCodec addInMemory
      (fun _ => .ok (peerRows [peerRow 1 "a", peerRow 2 "b"])) store' =
        (.ok result, next, sink') ∧
      ∀ slug, currentFacts sink' slug = currentFacts sink slug := by
  have hfailed : defaultRequest.syncOnce plainCodec (failingAdd (.runtimeError "disk full"))
      (fun _ => .ok (peerRows [peerRow 1 "a"])) ⟨run [], 0, true⟩ =
        (.error (.runtimeError "disk full"), defaultRequest, _) := rfl
  have hretried := Retried.none.failed hfailed
  have hgrowing : ([peerRows [peerRow 1 "a"]] ++ [peerRows [peerRow 1 "a", peerRow 2 "b"]]).IsChain
      fun body body' => pageOf body <+: pageOf body' := by simp [pageOf, peerRows, Json.get?]
  obtain ⟨sink', hsink', hfacts⟩ :=
    retries_converge plainCodec defaultRequest [] hretried hgrowing rfl
  exact ⟨_, _, sink', _, _, hretried, rfl, hsink', hfacts⟩

end FederationRetries
