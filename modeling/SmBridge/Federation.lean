import SmBridge.Store
import SmBridge.Lib.OrderedLog

/-!
# The delta sync client

`pullDeltas` checks a whole page before it writes anything. The store is a parameter,
and a failure returns the store as it then is. What pydantic does with an agent's JSON is
a parameter as well.
-/
namespace Federation

open Python
open Attempts
open JsonValue
open Trust
open Store

/-- `SmAgentFacts.model_dump` and `SmAgentFacts.model_validate`. -/
structure AgentCodec where
  modelDump : SmAgentFacts → Json
  modelValidate : Json → Except PyError SmAgentFacts

/-- Agents come back from their JSON form, except perhaps for the proof. -/
def AgentCodec.RoundTrips (codec : AgentCodec) : Prop :=
  ∀ agent, ∃ proof, codec.modelValidate (codec.modelDump agent) = .ok { agent with proof := proof }

inductive CursorMode where
  | exclusive
  | inclusive
  deriving DecidableEq, Repr

/-- The keyword arguments of `pull_deltas` that outlive one call. -/
structure PullOptions where
  cursorMode : CursorMode := .exclusive
  reverify : Option (SmAgentFacts → Json → Except PyError (Option ProofResult)) := none
  trustPeerProof : Bool := false

structure PullResult where
  applied : ℕ
  cursor : ℤ
  deriving DecidableEq, Repr

def actionText : Action → String
  | .upsert => "upsert"
  | .delete => "delete"
  | .revoke => "revoke"

def parseAction : Json → Option Action
  | .str "upsert" => some .upsert
  | .str "delete" => some .delete
  | .str "revoke" => some .revoke
  | _ => none

@[simp] theorem parseAction_actionText (action : Action) :
    parseAction (.str (actionText action)) = some action := by
  cases action <;> rfl

/-! ## The server's side -/

section Definitions

variable (codec : AgentCodec)

def deltaJson (delta : SmAgentFactsDelta) : Json :=
  .obj [("seq", .int delta.seq), ("action", .str (actionText delta.action)),
    ("agent", codec.modelDump delta.agent), ("signature", .null)]

def smDeltas (registryId : String) (store : DeltaStore) (since : ℤ) : Json :=
  .obj [("registry_id", .str registryId),
    ("deltas", .arr ((store.since since).map (deltaJson codec))),
    ("next_seq", .int store.nextSeq)]

/-! ## The client's side -/

/-- A peer's proof is kept only if the operator trusts the peer. -/
def resolveInboundProof (options : PullOptions) (agent : SmAgentFacts) (delta : Json) :
    Except PyError (Option ProofResult) := do
  let result ← match options.reverify with
    | some reverify => reverify agent delta
    | none => .ok none
  match result with
  | some proof => .ok (some proof)
  | none =>
    if options.trustPeerProof then .ok agent.proof
    else .ok (some (ProofResult.notVerified "federation" "federation-ingest"
      "proof asserted by a federated peer; not re-verified by this registry"))

/-- The checks on one row; `previous` is the sequence number before it. -/
def prepareRow (previous : ℤ) (delta : Json) : Except PyError (ℤ × Action × SmAgentFacts) :=
  if delta.isObj = false then .error (.valueError "invalid delta row")
  else
    match delta.getInt? "seq" with
    | none => .error (.valueError "delta sequences must increase within the requested range")
    | some seq =>
      if seq ≤ previous then
        .error (.valueError "delta sequences must increase within the requested range")
      else
        match (delta.get? "action").bind parseAction with
        | none => .error (.valueError "invalid delta action")
        | some action =>
          match delta.get? "agent" with
          | none => .error (.keyError "agent")
          | some agentJson => do
            let agent ← codec.modelValidate agentJson
            .ok (seq, action, agent)

def cursorAfter (mode : CursorMode) (seq : ℤ) : ℤ :=
  match mode with
  | .exclusive => seq
  | .inclusive => seq + 1

def previousOf (mode : CursorMode) (since : ℤ) : ℤ :=
  match mode with
  | .exclusive => since
  | .inclusive => since - 1

/-- The loop over the rows of a page, with the last sequence number at the end. -/
def prepareRows (previous : ℤ) :
    List Json → Except PyError (List (Json × Action × SmAgentFacts) × ℤ)
  | [] => .ok ([], previous)
  | delta :: rows => do
    let (seq, action, agent) ← prepareRow codec previous delta
    let (prepared, last) ← prepareRows seq rows
    .ok ((delta, action, agent) :: prepared, last)

def resolveRow (options : PullOptions) (row : Json × Action × SmAgentFacts) :
    Except PyError (Action × SmAgentFacts) := do
  let proof ← resolveInboundProof options row.2.2 row.1
  .ok (row.2.1, { row.2.2 with proof := proof })

/-- Everything that `pull_deltas` does between the answer and the first write. -/
def preparePage (options : PullOptions) (since : ℤ) (data : Json) :
    Except PyError (List (Action × SmAgentFacts) × ℤ) :=
  match data.get? "deltas" with
  | some (.arr rows) => do
    let (prepared, last) ← prepareRows codec (previousOf options.cursorMode since) rows
    let cursor := if rows = [] then since else cursorAfter options.cursorMode last
    if options.cursorMode = .inclusive ∧ data.getInt? "next_seq" ≠ some cursor then
      .error (.valueError "next_seq does not match the returned page")
    else do
      let resolved ← prepared.mapM (resolveRow options)
      .ok (resolved, cursor)
  | _ => .error (.valueError "invalid delta page")

variable {S : Type} (add : Action → SmAgentFacts → S → Except PyError Unit × S)

/-- The writes. Those before a failing one stay. -/
def addRows : List (Action × SmAgentFacts) → S → Except PyError Unit × S
  | [], store => (.ok (), store)
  | (action, agent) :: rows, store =>
    match add action agent store with
    | (.error e, store) => (.error e, store)
    | (.ok (), store) => addRows rows store

def pullDeltas (options : PullOptions) (fetch : String → Except PyError Json) (peerUrl : String)
    (store : S) (since : ℤ) : Except PyError PullResult × S :=
  if since < 0 then (.error (.valueError "since must be a nonnegative integer"), store)
  else
    match fetch (rstrip '/' peerUrl ++ "/nanda/deltas?since=" ++ toString since) with
    | .error e => (.error e, store)
    | .ok data =>
      match preparePage codec options since data with
      | .error e => (.error e, store)
      | .ok (prepared, cursor) =>
        match addRows add prepared store with
        | (.error e, store) => (.error e, store)
        | (.ok (), store) => (.ok ⟨prepared.length, cursor⟩, store)

structure FederationPoller where
  peerUrl : String
  since : ℤ := 0
  options : PullOptions := {}

/-- One pull; the cursor moves only when it succeeds. -/
def FederationPoller.syncOnce (poller : FederationPoller) (fetch : String → Except PyError Json)
    (store : S) : Except PyError PullResult × FederationPoller × S :=
  match pullDeltas codec add poller.options fetch poller.peerUrl store poller.since with
  | (.error e, store) => (.error e, poller, store)
  | (.ok result, store) => (.ok result, { poller with since := result.cursor }, store)

end Definitions

def addInMemory (action : Action) (agent : SmAgentFacts) (store : DeltaStore) :
    Except PyError Unit × DeltaStore :=
  (.ok (), store.add action agent)

/-- A codec that writes the fields of an agent side by side and drops the proof. -/
def plainCodec : AgentCodec where
  modelDump agent :=
    .obj (("id", .str agent.id) :: ("handle", (agent.handle.map .str).getD .null) :: agent.record)
  modelValidate
    | .obj fields =>
      match fields.lookup "id" with
      | some (.str id) =>
        let handle := match fields.lookup "handle" with
          | some (.str handle) => some handle
          | _ => none
        .ok ⟨id, handle, none, fields.filter fun field => field.1 ∉ namedFields, by simp⟩
      | _ => .error (.valueError "id must be a string")
    | _ => .error (.valueError "agent must be an object")

theorem plainCodec_roundTrips : plainCodec.RoundTrips := by
  rintro ⟨id, handle, proof, record, hrecord⟩
  refine ⟨none, ?_⟩
  have hkept : ∀ a b, (a, b) ∈ record → a ∉ namedFields := fun a b => hrecord (a, b)
  have hid : "id" ∈ namedFields := by simp [namedFields]
  have hhandle : "handle" ∈ namedFields := by simp [namedFields]
  cases handle <;> simpa [plainCodec, List.lookup_cons, hid, hhandle] using hkept

/-! ## What a pull does -/

/-- What is compared across registries: the action, and the agent up to its proof. -/
def content (row : Action × SmAgentFacts) : Action × SmAgentFacts :=
  (row.1, { row.2 with proof := none })

def deltaContent (delta : SmAgentFactsDelta) : Action × SmAgentFacts :=
  content (delta.action, delta.agent)

def addAll (rows : List (Action × SmAgentFacts)) (store : DeltaStore) : DeltaStore :=
  rows.foldl (fun store row => store.add row.1 row.2) store

theorem addRows_inMemory (rows : List (Action × SmAgentFacts)) (store : DeltaStore) :
    addRows addInMemory rows store = (.ok (), addAll rows store) := by
  induction rows generalizing store with
  | nil => rfl
  | cons row rows ih => exact ih _

theorem addAll_indexed {store : DeltaStore} (h : store.Indexed)
    (rows : List (Action × SmAgentFacts)) : (addAll rows store).Indexed := by
  induction rows generalizing store with
  | nil => exact h
  | cons row rows ih => exact ih (DeltaStore.add_indexed h row.1 row.2)

theorem addAll_extends (rows : List (Action × SmAgentFacts)) (store : DeltaStore) :
    store.deltas <+: (addAll rows store).deltas := by
  induction rows generalizing store with
  | nil => exact List.prefix_rfl
  | cons row rows ih => exact (List.prefix_append _ _).trans (ih (store.add row.1 row.2))

theorem addAll_content (rows : List (Action × SmAgentFacts)) (store : DeltaStore) :
    (addAll rows store).deltas.map deltaContent =
      store.deltas.map deltaContent ++ rows.map content := by
  induction rows generalizing store with
  | nil => simp [addAll]
  | cons row rows ih =>
    rw [addAll, List.foldl_cons, ← addAll, ih]
    simp [deltaContent]

variable {codec : AgentCodec}

/-- A pull that ends in an error has written nothing; one that returns has added the rows of
its page, and the page gives the cursor. -/
theorem syncOnce_inMemory (codec : AgentCodec) (poller : FederationPoller)
    (fetch : String → Except PyError Json) (store : DeltaStore) :
    (∃ e, poller.syncOnce codec addInMemory fetch store = (.error e, poller, store)) ∨
    ∃ data prepared cursor,
      fetch (rstrip '/' poller.peerUrl ++ "/nanda/deltas?since=" ++ toString poller.since) =
        .ok data ∧
      preparePage codec poller.options poller.since data = .ok (prepared, cursor) ∧
      poller.syncOnce codec addInMemory fetch store =
        (.ok ⟨prepared.length, cursor⟩, { poller with since := cursor },
          addAll prepared store) := by
  by_cases hneg : poller.since < 0
  · exact Or.inl ⟨.valueError "since must be a nonnegative integer", by
      simp only [FederationPoller.syncOnce, pullDeltas, if_pos hneg]⟩
  cases hfetch : fetch (rstrip '/' poller.peerUrl ++ "/nanda/deltas?since=" ++
      toString poller.since) with
  | error e =>
    exact Or.inl ⟨e, by simp only [FederationPoller.syncOnce, pullDeltas, if_neg hneg, hfetch]⟩
  | ok data =>
    cases hpage : preparePage codec poller.options poller.since data with
    | error e =>
      exact Or.inl ⟨e, by
        simp only [FederationPoller.syncOnce, pullDeltas, if_neg hneg, hfetch, hpage]⟩
    | ok page =>
      obtain ⟨prepared, cursor⟩ := page
      exact Or.inr ⟨data, prepared, cursor, rfl, hpage, by
        simp only [FederationPoller.syncOnce, pullDeltas, if_neg hneg, hfetch, hpage,
          addRows_inMemory]⟩

/-- A row as a peer serves it for a delta, whatever else the row holds. -/
structure RowOf (codec : AgentCodec) (delta : SmAgentFactsDelta) (row : Json) : Prop where
  seq : row.getInt? "seq" = some delta.seq
  action : row.get? "action" = some (.str (actionText delta.action))
  agent : row.get? "agent" = some (codec.modelDump delta.agent)

theorem rowOf_deltaJson (delta : SmAgentFactsDelta) : RowOf codec delta (deltaJson codec delta) :=
  ⟨rfl, rfl, rfl⟩

/-- The proof is all that changes between the checks and the writes. -/
theorem resolveRow_content {options : PullOptions} (row : Json × Action × SmAgentFacts)
    (resolved : Action × SmAgentFacts) (h : resolveRow options row = .ok resolved) :
    content resolved = content row.2 := by
  obtain ⟨proof, -, h⟩ := bind_eq_ok.mp h
  obtain rfl := Except.ok.inj h
  rfl

theorem prepareRow_rowOf (hcodec : codec.RoundTrips) {delta : SmAgentFactsDelta} {row : Json}
    (hrow : RowOf codec delta row) {previous seq : ℤ} {action : Action} {agent : SmAgentFacts}
    (h : prepareRow codec previous row = .ok (seq, action, agent)) :
    seq = delta.seq ∧ content (action, agent) = deltaContent delta := by
  obtain ⟨proof, hvalid⟩ := hcodec delta.agent
  rw [prepareRow, hrow.seq, hrow.action, hrow.agent] at h
  simp only [Option.bind_some, parseAction_actionText] at h
  split at h
  · cases h
  · split at h
    · cases h
    · rw [hvalid] at h
      obtain ⟨rfl, rfl, rfl⟩ : delta.seq = seq ∧ delta.action = action ∧
          { delta.agent with proof := proof } = agent := by
        simpa [bind, Except.bind] using h
      exact ⟨rfl, rfl⟩

theorem prepareRow_accepts (hcodec : codec.RoundTrips) {delta : SmAgentFactsDelta} {row : Json}
    (hrow : RowOf codec delta row) {previous : ℤ} (hseq : previous < delta.seq) :
    ∃ agent, prepareRow codec previous row = .ok (delta.seq, delta.action, agent) := by
  obtain ⟨proof, hvalid⟩ := hcodec delta.agent
  have hobj : row.isObj = true := by
    have hget := hrow.agent
    cases row <;> simp_all [Json.get?, Json.isObj]
  refine ⟨{ delta.agent with proof := proof }, ?_⟩
  rw [prepareRow, hrow.seq, hrow.action, hrow.agent, hobj]
  simp [Int.not_le.mpr hseq, hvalid, bind, Except.bind]

theorem prepareRows_rowsOf (hcodec : codec.RoundTrips) {deltas : List SmAgentFactsDelta}
    {rows : List Json} (hrows : List.Forall₂ (RowOf codec) deltas rows) {previous last : ℤ}
    {prepared : List (Json × Action × SmAgentFacts)}
    (h : prepareRows codec previous rows = .ok (prepared, last)) :
    prepared.map (fun row => content row.2) = deltas.map deltaContent ∧
      last = OrderedLog.advance SmAgentFactsDelta.seq previous deltas := by
  induction hrows generalizing previous prepared with
  | nil =>
    obtain ⟨rfl, rfl⟩ : [] = prepared ∧ previous = last := by simpa [prepareRows] using h
    exact ⟨rfl, rfl⟩
  | @cons delta row deltas rows hrow _ ih =>
    obtain ⟨⟨seq, action, agent⟩, hfirst, h⟩ := bind_eq_ok.mp h
    obtain ⟨⟨rest, last'⟩, hrest, h⟩ := bind_eq_ok.mp h
    obtain ⟨rfl, rfl⟩ : (row, action, agent) :: rest = prepared ∧ last' = last := by
      simpa using h
    obtain ⟨rfl, hcontent⟩ := prepareRow_rowOf hcodec hrow hfirst
    obtain ⟨hmap, rfl⟩ := ih hrest
    refine ⟨by rw [List.map_cons, List.map_cons, hmap, hcontent], ?_⟩
    rcases List.eq_nil_or_concat deltas with rfl | ⟨init, d, rfl⟩
    · simp [OrderedLog.advance]
    · rw [List.concat_eq_append, OrderedLog.advance_concat, ← List.cons_append,
        OrderedLog.advance_concat]

theorem prepareRows_accepts (hcodec : codec.RoundTrips) {deltas : List SmAgentFactsDelta}
    {rows : List Json} (hrows : List.Forall₂ (RowOf codec) deltas rows) {previous : ℤ}
    (hinc : deltas.Pairwise fun d d' => d.seq < d'.seq) (hseq : ∀ d ∈ deltas, previous < d.seq) :
    ∃ prepared last, prepareRows codec previous rows = .ok (prepared, last) := by
  induction hrows generalizing previous with
  | nil => exact ⟨[], previous, rfl⟩
  | @cons delta row deltas rows hrow _ ih =>
    obtain ⟨hfirst, hrest⟩ := List.pairwise_cons.mp hinc
    obtain ⟨agent, hagent⟩ := prepareRow_accepts hcodec hrow (hseq delta List.mem_cons_self)
    obtain ⟨prepared, last, hprepared⟩ := ih hrest hfirst
    refine ⟨(row, delta.action, agent) :: prepared, last, ?_⟩
    rw [prepareRows, hagent]
    simp only [bind, Except.bind]
    rw [hprepared]

theorem resolveRow_accepts {options : PullOptions} (hverify : options.reverify = none)
    (row : Json × Action × SmAgentFacts) : ∃ resolved, resolveRow options row = .ok resolved := by
  cases htrust : options.trustPeerProof <;>
    simp [resolveRow, resolveInboundProof, hverify, htrust, bind, Except.bind]

/-- A page of served rows that passes the checks gives their contents in order, and the
cursor after the last of them. -/
theorem preparePage_rowsOf (hcodec : codec.RoundTrips) {options : PullOptions} {since : ℤ}
    {data : Json} {deltas : List SmAgentFactsDelta} {rows : List Json}
    (hdata : data.get? "deltas" = some (.arr rows))
    (hrows : List.Forall₂ (RowOf codec) deltas rows) {prepared : List (Action × SmAgentFacts)}
    {cursor : ℤ} (h : preparePage codec options since data = .ok (prepared, cursor)) :
    prepared.map content = deltas.map deltaContent ∧
      previousOf options.cursorMode cursor =
        OrderedLog.advance SmAgentFactsDelta.seq (previousOf options.cursorMode since) deltas := by
  rw [preparePage, hdata] at h
  obtain ⟨⟨checked, last⟩, hchecked, h⟩ := bind_eq_ok.mp h
  obtain ⟨hmap, hlast⟩ := prepareRows_rowsOf hcodec hrows hchecked
  have hcursor : previousOf options.cursorMode
        (if rows = [] then since else cursorAfter options.cursorMode last) =
      OrderedLog.advance SmAgentFactsDelta.seq (previousOf options.cursorMode since) deltas := by
    cases hrows with
    | nil => rw [if_pos rfl, OrderedLog.advance_nil]
    | cons =>
      rw [if_neg (List.cons_ne_nil _ _), ← hlast]
      cases options.cursorMode <;> simp [previousOf, cursorAfter]
  dsimp only at h
  generalize (if rows = [] then since else cursorAfter options.cursorMode last) = next at h hcursor
  by_cases hnext : options.cursorMode = .inclusive ∧ data.getInt? "next_seq" ≠ some next
  · rw [if_pos hnext] at h
    cases h
  · rw [if_neg hnext] at h
    obtain ⟨resolved, hresolved, h⟩ := bind_eq_ok.mp h
    obtain ⟨rfl, rfl⟩ := Prod.mk.inj (Except.ok.inj h)
    exact ⟨(map_of_mapM_eq_ok resolveRow_content hresolved).trans hmap, hcursor⟩

/-- An exclusive page of served rows beyond the cursor passes the checks, unless a local
verifier stops it. -/
theorem preparePage_accepts (hcodec : codec.RoundTrips) {options : PullOptions}
    (hmode : options.cursorMode = .exclusive) (hverify : options.reverify = none) {since : ℤ}
    {data : Json} {deltas : List SmAgentFactsDelta} {rows : List Json}
    (hdata : data.get? "deltas" = some (.arr rows))
    (hrows : List.Forall₂ (RowOf codec) deltas rows)
    (hinc : deltas.Pairwise fun d d' => d.seq < d'.seq) (hseq : ∀ d ∈ deltas, since < d.seq) :
    ∃ page, preparePage codec options since data = .ok page := by
  obtain ⟨prepared, last, hprepared⟩ := prepareRows_accepts hcodec hrows hinc hseq
  obtain ⟨resolved, hresolved⟩ : ∃ resolved, prepared.mapM (resolveRow options) = .ok resolved :=
    exists_mapM_eq_ok.mpr fun row _ => resolveRow_accepts hverify row
  rw [preparePage, hdata]
  simp only [hmode, previousOf, hprepared, hresolved, bind, Except.bind, reduceCtorEq, false_and,
    ↓reduceIte]
  exact ⟨_, rfl⟩

end Federation
