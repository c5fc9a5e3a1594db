import SmBridge.Federation

/-!
# Pages are applied as a whole

A pull with any cursor and any mode, against a store that keeps a record of the calls to its
`add`. A pull that fails before such a call has changed nothing, and one that returns has
applied every row of its page.
-/
namespace FederationPages

open Python
open Attempts
open JsonValue
open Trust
open Store
open Federation

/-- The arguments of `pull_deltas`; the cursor and its mode can be anything. -/
structure Request where
  peerUrl : String
  since : Json
  cursorMode : Json
  reverify : Option (SmAgentFacts → Json → Except PyError (Option ProofResult))
  trustPeerProof : Bool

def parseCursorMode : Json → Option CursorMode
  | .str "exclusive" => some .exclusive
  | .str "inclusive" => some .inclusive
  | _ => none

def Request.options (request : Request) (mode : CursorMode) : PullOptions where
  cursorMode := mode
  reverify := request.reverify
  trustPeerProof := request.trustPeerProof

section Definitions

variable (codec : AgentCodec) {S : Type} (add : Action → SmAgentFacts → S → Except PyError Unit × S)

/-- `pull_deltas` -/
def Request.pull (request : Request) (fetch : String → Except PyError Json) (store : S) :
    Except PyError PullResult × S :=
  match request.since with
  | .int since =>
    if since < 0 then (.error (.valueError "since must be a nonnegative integer"), store)
    else
      match parseCursorMode request.cursorMode with
      | none => (.error (.valueError "unsupported cursor mode"), store)
      | some mode => pullDeltas codec add (request.options mode) fetch request.peerUrl store since
  | _ => (.error (.valueError "since must be a nonnegative integer"), store)

/-- `sync_once`, of a poller with these arguments. -/
def Request.syncOnce (request : Request) (fetch : String → Except PyError Json) (store : S) :
    Except PyError PullResult × Request × S :=
  match request.pull codec add fetch store with
  | (.error e, store) => (.error e, request, store)
  | (.ok result, store) => (.ok result, { request with since := .int result.cursor }, store)

/-- What a pull does before its writes. -/
def Request.prepare (request : Request) (fetch : String → Except PyError Json) :
    Except PyError (List (Action × SmAgentFacts) × ℤ) :=
  match request.since with
  | .int since =>
    if since < 0 then .error (.valueError "since must be a nonnegative integer")
    else
      match parseCursorMode request.cursorMode with
      | none => .error (.valueError "unsupported cursor mode")
      | some mode => do
        let data ← fetch (rstrip '/' request.peerUrl ++ "/nanda/deltas?since=" ++ toString since)
        preparePage codec (request.options mode) since data
  | _ => .error (.valueError "since must be a nonnegative integer")

/-- A store with the calls to its `add`, and whether one of them has raised. -/
structure Recorded (S : Type) where
  store : S
  calls : List (Action × SmAgentFacts)
  raised : Bool

def Recorded.fresh (store : S) : Recorded S := ⟨store, [], false⟩

def recording (action : Action) (agent : SmAgentFacts) (recorded : Recorded S) :
    Except PyError Unit × Recorded S :=
  match add action agent recorded.store with
  | (.error e, store) => (.error e, ⟨store, recorded.calls ++ [(action, agent)], true⟩)
  | (.ok (), store) => (.ok (), ⟨store, recorded.calls ++ [(action, agent)], recorded.raised⟩)

end Definitions

/-! ## The writes -/

variable {codec : AgentCodec} {S : Type}
  {add : Action → SmAgentFacts → S → Except PyError Unit × S}
  {request : Request} {fetch : String → Except PyError Json} {store : S}
  {rows : List (Action × SmAgentFacts)} {recorded after : Recorded S} {cursor : ℤ} {e : PyError}

theorem pull_of_refused (h : request.prepare codec fetch = .error e) :
    request.pull codec add fetch store = (.error e, store) := by
  obtain ⟨peerUrl, since, cursorMode, reverify, trust⟩ := request
  cases since with
  | int since =>
    simp only [Request.prepare] at h
    simp only [Request.pull]
    split at h
    · rename_i hneg
      rw [if_pos hneg, Except.error.inj h]
    · rename_i hneg
      rw [if_neg hneg]
      split at h
      · rw [Except.error.inj h]
      · rw [pullDeltas, if_neg hneg]
        cases hfetch : fetch (rstrip '/' peerUrl ++ "/nanda/deltas?since=" ++ toString since) with
        | error e' =>
          rw [hfetch] at h
          rw [Except.error.inj h]
        | ok data =>
          rw [hfetch] at h
          change preparePage codec _ since data = .error e at h
          simp only [h]
  | _ => rw [Request.pull, Except.error.inj h]

theorem pull_of_prepared (h : request.prepare codec fetch = .ok (rows, cursor)) :
    request.pull codec add fetch store =
      match addRows add rows store with
      | (.error e, store) => (.error e, store)
      | (.ok (), store) => (.ok ⟨rows.length, cursor⟩, store) := by
  obtain ⟨peerUrl, since, cursorMode, reverify, trust⟩ := request
  cases since with
  | int since =>
    simp only [Request.prepare] at h
    simp only [Request.pull]
    split at h
    · cases h
    · rename_i hneg
      rw [if_neg hneg]
      split at h
      · cases h
      · obtain ⟨data, hfetch, hpage⟩ := bind_eq_ok.mp h
        rw [pullDeltas, if_neg hneg]
        rcases hadd : addRows add rows store with ⟨e | done, applied⟩
        · simp only [hfetch, hpage, hadd]
        · simp only [hfetch, hpage, hadd]
  | _ => cases h

/-- The record of the calls does not change what a pull does. -/
theorem addRows_recording (rows : List (Action × SmAgentFacts)) (recorded : Recorded S) :
    Prod.map id Recorded.store (addRows (recording add) rows recorded) =
      addRows add rows recorded.store := by
  induction rows generalizing recorded with
  | nil => rfl
  | cons row rows ih =>
    obtain ⟨action, agent⟩ := row
    rw [addRows, addRows, recording]
    match add action agent recorded.store with
    | (.error e, store) => rfl
    | (.ok (), store) => exact ih _

theorem pull_recording (request : Request) (fetch : String → Except PyError Json) (store : S) :
    Prod.map id Recorded.store (request.pull codec (recording add) fetch (.fresh store)) =
      request.pull codec add fetch store := by
  match hprepare : request.prepare codec fetch with
  | .error e => rw [pull_of_refused hprepare, pull_of_refused hprepare]; rfl
  | .ok (rows, cursor) =>
    have hrows : Prod.map id Recorded.store (addRows (recording add) rows (.fresh store)) =
        addRows add rows store := addRows_recording rows _
    rw [pull_of_prepared hprepare, pull_of_prepared hprepare, ← hrows]
    match addRows (recording add) rows (.fresh store) with
    | (.error e, after) => rfl
    | (.ok (), after) => rfl

theorem addRows_recording_ok (h : addRows (recording add) rows recorded = (.ok (), after)) :
    after.calls = recorded.calls ++ rows ∧ after.raised = recorded.raised := by
  induction rows generalizing recorded with
  | nil =>
    obtain rfl := (Prod.mk.inj h).2
    exact ⟨(List.append_nil _).symm, rfl⟩
  | cons row rows ih =>
    obtain ⟨action, agent⟩ := row
    rw [addRows, recording] at h
    match hadd : add action agent recorded.store with
    | (.error e, store) =>
      rw [hadd] at h
      cases (Prod.mk.inj h).1
    | (.ok (), store) =>
      rw [hadd] at h
      obtain ⟨hcalls, hraised⟩ := ih h
      exact ⟨hcalls.trans (List.append_assoc _ _ _), hraised⟩

theorem addRows_recording_error (h : addRows (recording add) rows recorded = (.error e, after)) :
    after.raised = true := by
  induction rows generalizing recorded with
  | nil => cases (Prod.mk.inj h).1
  | cons row rows ih =>
    obtain ⟨action, agent⟩ := row
    rw [addRows, recording] at h
    match hadd : add action agent recorded.store with
    | (.error e, store) =>
      rw [hadd] at h
      rw [← (Prod.mk.inj h).2]
    | (.ok (), store) =>
      rw [hadd] at h
      exact ih h

/-! ## The page -/

/-- A row and the call that applies it: its action, and its agent with the proof that this
registry has settled on. -/
def RowApplied (codec : AgentCodec) (options : PullOptions) (row : Json)
    (call : Action × SmAgentFacts) : Prop :=
  row.get? "action" = some (.str (actionText call.1)) ∧
    ∃ json agent proof, row.get? "agent" = some json ∧ codec.modelValidate json = .ok agent ∧
      resolveInboundProof options agent row = .ok proof ∧ call.2 = { agent with proof := proof }

/-- The cursor after a page: behind its last row, or where it was. -/
def NextCursor (mode : CursorMode) (since : ℤ) (rows : List Json) (cursor : ℤ) : Prop :=
  match rows.getLast? with
  | none => cursor = since
  | some row => ∃ seq, row.getInt? "seq" = some seq ∧ cursor = cursorAfter mode seq

theorem parseAction_eq_some {json : Json} {action : Action} (h : parseAction json = some action) :
    json = .str (actionText action) := by
  unfold parseAction at h
  split at h <;> cases h <;> rfl

theorem prepareRow_eq_ok {previous seq : ℤ} {row : Json} {action : Action} {agent : SmAgentFacts}
    (h : prepareRow codec previous row = .ok (seq, action, agent)) :
    row.getInt? "seq" = some seq ∧ row.get? "action" = some (.str (actionText action)) ∧
      ∃ json, row.get? "agent" = some json ∧ codec.modelValidate json = .ok agent := by
  unfold prepareRow at h
  split at h
  · cases h
  split at h
  · cases h
  rename_i hseq
  split at h
  · cases h
  split at h
  · cases h
  rename_i haction
  split at h
  · cases h
  rename_i json hagent
  obtain ⟨checked, hvalid, h⟩ := bind_eq_ok.mp h
  obtain ⟨rfl, rfl, rfl⟩ := Except.ok.inj h
  obtain ⟨text, htext, hparse⟩ := Option.bind_eq_some_iff.mp haction
  exact ⟨hseq, parseAction_eq_some hparse ▸ htext, json, hagent, hvalid⟩

theorem prepareRows_last {previous last : ℤ} {page : List Json}
    {prepared : List (Json × Action × SmAgentFacts)}
    (h : prepareRows codec previous page = .ok (prepared, last)) :
    match page.getLast? with
    | none => last = previous
    | some row => row.getInt? "seq" = some last := by
  induction page generalizing previous prepared with
  | nil => exact (Prod.mk.inj (Except.ok.inj h)).2.symm
  | cons row page ih =>
    obtain ⟨⟨seq, action, agent⟩, hrow, h⟩ := bind_eq_ok.mp h
    obtain ⟨⟨rest, last'⟩, hrest, h⟩ := bind_eq_ok.mp h
    obtain ⟨rfl, rfl⟩ := Prod.mk.inj (Except.ok.inj h)
    have hlast := ih hrest
    cases page with
    | nil =>
      change last' = seq at hlast
      rw [hlast]
      exact (prepareRow_eq_ok hrow).1
    | cons next page => rwa [List.getLast?_cons_cons]

/-- The two passes over the rows before the first write. -/
theorem prepareRows_applied {options : PullOptions} {previous last : ℤ} {page : List Json}
    {prepared : List (Json × Action × SmAgentFacts)}
    (h : prepareRows codec previous page = .ok (prepared, last))
    (hresolve : prepared.mapM (resolveRow options) = .ok rows) :
    List.Forall₂ (RowApplied codec options) page rows := by
  induction page generalizing previous prepared rows last with
  | nil =>
    obtain ⟨rfl, -⟩ := Prod.mk.inj (Except.ok.inj h)
    obtain rfl := Except.ok.inj hresolve
    exact List.Forall₂.nil
  | cons row page ih =>
    obtain ⟨⟨seq, action, agent⟩, hrow, h⟩ := bind_eq_ok.mp h
    obtain ⟨⟨rest, last'⟩, hrest, h⟩ := bind_eq_ok.mp h
    obtain ⟨rfl, -⟩ := Prod.mk.inj (Except.ok.inj h)
    rw [List.mapM_cons] at hresolve
    obtain ⟨call, hcall, hresolve⟩ := bind_eq_ok.mp hresolve
    obtain ⟨calls, hcalls, hresolve⟩ := bind_eq_ok.mp hresolve
    obtain rfl := Except.ok.inj hresolve
    obtain ⟨proof, hproof, hcall⟩ := bind_eq_ok.mp hcall
    obtain rfl := Except.ok.inj hcall
    obtain ⟨-, haction, json, hjson, hvalid⟩ := prepareRow_eq_ok hrow
    exact List.Forall₂.cons ⟨haction, json, agent, proof, hjson, hvalid, hproof, rfl⟩
      (ih hrest hcalls)

/-- What a page that passes the checks says, and the calls that apply it. -/
structure PageApplied (codec : AgentCodec) (options : PullOptions) (since : ℤ) (data : Json)
    (page : List Json) (calls : List (Action × SmAgentFacts)) (cursor : ℤ) : Prop where
  deltas : data.get? "deltas" = some (.arr page)
  applied : List.Forall₂ (RowApplied codec options) page calls
  next : NextCursor options.cursorMode since page cursor
  nextSeq : options.cursorMode = .inclusive → data.getInt? "next_seq" = some cursor

theorem preparePage_eq_ok {options : PullOptions} {since : ℤ} {data : Json}
    (h : preparePage codec options since data = .ok (rows, cursor)) :
    ∃ page, PageApplied codec options since data page rows cursor := by
  unfold preparePage at h
  split at h
  · rename_i page hpage
    obtain ⟨⟨prepared, last⟩, hprepared, h⟩ := bind_eq_ok.mp h
    have hlast := prepareRows_last hprepared
    dsimp only at h
    generalize hcursor : (if page = [] then since else cursorAfter options.cursorMode last) =
      next at h
    split at h
    · cases h
    rename_i hnext
    obtain ⟨resolved, hresolved, h⟩ := bind_eq_ok.mp h
    obtain ⟨rfl, rfl⟩ := Prod.mk.inj (Except.ok.inj h)
    refine ⟨page, hpage, prepareRows_applied hprepared hresolved, ?_, fun hmode => ?_⟩
    · cases page with
      | nil => exact hcursor.symm
      | cons row page =>
        rw [if_neg (List.cons_ne_nil row page)] at hcursor
        rw [List.getLast?_eq_some_getLast (List.cons_ne_nil row page)] at hlast
        rw [NextCursor, List.getLast?_eq_some_getLast (List.cons_ne_nil row page)]
        exact ⟨last, hlast, hcursor.symm⟩
    · exact not_not.mp fun hne => hnext ⟨hmode, hne⟩
  · cases h

/-- What `pull_deltas` accepts. -/
def Accepted (codec : AgentCodec) (request : Request) (fetch : String → Except PyError Json)
    (page : List Json) (calls : List (Action × SmAgentFacts)) (cursor : ℤ) : Prop :=
  ∃ since mode data, request.since = .int since ∧ 0 ≤ since ∧
    parseCursorMode request.cursorMode = some mode ∧
    fetch (rstrip '/' request.peerUrl ++ "/nanda/deltas?since=" ++ toString since) = .ok data ∧
    PageApplied codec (request.options mode) since data page calls cursor

theorem prepare_eq_ok (h : request.prepare codec fetch = .ok (rows, cursor)) :
    ∃ page, Accepted codec request fetch page rows cursor := by
  unfold Request.prepare at h
  split at h
  · rename_i since hsince
    split at h
    · cases h
    rename_i hneg
    split at h
    · cases h
    rename_i mode hmode
    obtain ⟨data, hfetch, hpage⟩ := bind_eq_ok.mp h
    obtain ⟨page, happlied⟩ := preparePage_eq_ok hpage
    exact ⟨page, since, mode, data, hsince, not_lt.mp hneg, hmode, hfetch, happlied⟩
  · cases h

/-! ## Refused or applied -/

/-- A pull that raises leaves the cursor, and the store too unless an `add` has raised. One that
returns has added every row of the page, in order, and moved the cursor behind it. -/
def Whole (codec : AgentCodec) (add : Action → SmAgentFacts → S → Except PyError Unit × S)
    (request : Request) (fetch : String → Except PyError Json) (store : S) :
    Except PyError PullResult × Request × Recorded S → Prop
  | (.error _, request', after) =>
    request' = request ∧ (after.raised = false → after = .fresh store)
  | (.ok result, request', after) =>
    after.raised = false ∧ addRows add after.calls store = (.ok (), after.store) ∧
      request' = { request with since := .int result.cursor } ∧
      ∃ page, Accepted codec request fetch page after.calls result.cursor ∧
        result.applied = page.length

theorem syncOnce_recording (request : Request) (fetch : String → Except PyError Json) (store : S) :
    Prod.map id (Prod.map id Recorded.store)
        (request.syncOnce codec (recording add) fetch (.fresh store)) =
      request.syncOnce codec add fetch store := by
  have hpull : Prod.map id Recorded.store
      (request.pull codec (recording add) fetch (.fresh store)) =
        request.pull codec add fetch store := pull_recording request fetch store
  rw [Request.syncOnce, Request.syncOnce, ← hpull]
  match request.pull codec (recording add) fetch (.fresh store) with
  | (.error e, after) => rfl
  | (.ok result, after) => rfl

/-- A refused page changes nothing, and an accepted one is applied as a whole. -/
theorem syncOnce_whole (codec : AgentCodec)
    (add : Action → SmAgentFacts → S → Except PyError Unit × S) (request : Request)
    (fetch : String → Except PyError Json) (store : S) :
    Whole codec add request fetch store
        (request.syncOnce codec (recording add) fetch (.fresh store)) ∧
      Prod.map id (Prod.map id Recorded.store)
          (request.syncOnce codec (recording add) fetch (.fresh store)) =
        request.syncOnce codec add fetch store := by
  refine ⟨?_, syncOnce_recording request fetch store⟩
  rw [Request.syncOnce]
  match hprepare : request.prepare codec fetch with
  | .error e =>
    rw [pull_of_refused hprepare]
    exact ⟨rfl, fun _ => rfl⟩
  | .ok (rows, cursor) =>
    obtain ⟨page, hpage⟩ := prepare_eq_ok hprepare
    have hrows : Prod.map id Recorded.store (addRows (recording add) rows (.fresh store)) =
        addRows add rows store := addRows_recording rows _
    rw [pull_of_prepared hprepare]
    match hadd : addRows (recording add) rows (.fresh store) with
    | (.error e, after) =>
      refine ⟨rfl, fun hraised => ?_⟩
      rw [addRows_recording_error hadd] at hraised
      cases hraised
    | (.ok (), after) =>
      obtain ⟨hcalls, hraised⟩ := addRows_recording_ok hadd
      rw [Recorded.fresh, List.nil_append] at hcalls
      rw [hadd] at hrows
      refine ⟨hraised, hcalls ▸ hrows.symm, rfl, page, hcalls ▸ hpage, ?_⟩
      obtain ⟨since, mode, data, -, -, -, -, happlied⟩ := hpage
      exact happlied.applied.length_eq.symm

end FederationPages
