import SmBridge.Converter
import SmBridge.FederationPages

/-!
# A peer's proofs stay outside

How the model of an agent reads the proof that a peer sends, and what is left of it in the
sink: nothing, unless the operator trusts the peer. A VERIFIED proof in the sink is one that a
local verifier has returned.
-/
namespace FederationProofs

open Python
open Attempts
open JsonValue
open Trust
open Store
open Federation
open FederationPages
open Converter (legacyProof)

/-! ## The proof field -/

/-- What pydantic does with the members of an agent's object. The members other than "proof" are
validated apart from it. -/
structure AgentModel where
  modelDump : SmAgentFacts → Json
  /-- Without a proof. -/
  validateFields : List (String × Json) → Except PyError SmAgentFacts
  /-- `ProofResult.model_validate` -/
  validateProof : Json → Except PyError ProofResult

/-- `_coerce_legacy_proof`: a value to be validated, or a result. -/
def coerceLegacyProof : Json → Json ⊕ ProofResult
  | .null => .inl .null
  | .obj fields =>
    if ["profile", "method", "status"].all fun key => fields.any fun field => field.1 == key then
      .inl (.obj fields)
    else .inr legacyProof
  | value => .inl value

section Definitions

variable (model : AgentModel)

/-- The field `proof: ProofResult | None = None` -/
def AgentModel.proofField : Option Json → Except PyError (Option ProofResult)
  | none => .ok none
  | some value =>
    match coerceLegacyProof value with
    | .inr result => .ok (some result)
    | .inl .null => .ok none
    | .inl value => do
      let result ← model.validateProof value
      .ok (some result)

def withoutProof (fields : List (String × Json)) : List (String × Json) :=
  fields.filter fun field => field.1 ≠ "proof"

def AgentModel.modelValidate : Json → Except PyError SmAgentFacts
  | .obj fields => do
    let agent ← model.validateFields (withoutProof fields)
    let proof ← model.proofField (fields.lookup "proof")
    .ok { agent with proof := proof }
  | _ => .error (.valueError "Input should be a valid dictionary or instance of SmAgentFacts")

def AgentModel.codec : AgentCodec := ⟨model.modelDump, model.modelValidate⟩

end Definitions

/-! ## Pages that only differ in proofs -/

/-- The same members but for the proof, which either may lack. -/
inductive AgentsAlike : Json → Json → Prop
  | obj {fields others : List (String × Json)} (h : withoutProof fields = withoutProof others) :
      AgentsAlike (.obj fields) (.obj others)
  | other {value : Json} : AgentsAlike value value

structure RowsAlike (row other : Json) : Prop where
  members : ∀ key, key ≠ "agent" → row.get? key = other.get? key
  agent : Option.Rel AgentsAlike (row.get? "agent") (other.get? "agent")

structure PagesAlike (data other : Json) : Prop where
  members : ∀ key, key ≠ "deltas" → data.get? key = other.get? key
  deltas : ∃ page others, data.get? "deltas" = some (.arr page) ∧
    other.get? "deltas" = some (.arr others) ∧ List.Forall₂ RowsAlike page others

variable {model : AgentModel} {options : PullOptions}

/-- The proof that a peer's agent gets without a local verifier. -/
def federationProof : ProofResult :=
  ProofResult.notVerified "federation" "federation-ingest"
    "proof asserted by a federated peer; not re-verified by this registry"

theorem modelValidate_alike {json other : Json} {agent agent' : SmAgentFacts}
    (hlike : AgentsAlike json other) (h : model.modelValidate json = .ok agent)
    (h' : model.modelValidate other = .ok agent') :
    { agent with proof := some federationProof } =
      { agent' with proof := some federationProof } := by
  cases hlike with
  | @obj fields others hfields =>
    obtain ⟨base, hbase, h⟩ := bind_eq_ok.mp h
    obtain ⟨proof, -, h⟩ := bind_eq_ok.mp h
    obtain ⟨base', hbase', h'⟩ := bind_eq_ok.mp h'
    obtain ⟨proof', -, h'⟩ := bind_eq_ok.mp h'
    obtain rfl := Except.ok.inj h
    obtain rfl := Except.ok.inj h'
    rw [hfields, hbase'] at hbase
    rw [Except.ok.inj hbase]
  | other => rw [Except.ok.inj (h.symm.trans h')]

theorem getInt?_congr {key : String} {json other : Json} (h : json.get? key = other.get? key) :
    json.getInt? key = other.getInt? key := by
  rw [Json.getInt?, Json.getInt?, h]

/-- A proof that is not the peer's: one of the local verifier, or none at all. -/
theorem resolveInboundProof_eq_ok (htrust : options.trustPeerProof = false) {agent : SmAgentFacts}
    {row : Json} {proof : Option ProofResult}
    (h : resolveInboundProof options agent row = .ok proof) :
    (∃ reverify result, options.reverify = some reverify ∧
      reverify agent row = .ok (some result) ∧ proof = some result) ∨
      proof = some federationProof := by
  unfold resolveInboundProof at h
  cases hverify : options.reverify with
  | none =>
    rw [hverify, htrust] at h
    exact Or.inr (Except.ok.inj h).symm
  | some reverify =>
    rw [hverify] at h
    obtain ⟨result, hresult, h⟩ := bind_eq_ok.mp h
    cases result with
    | some result => exact Or.inl ⟨reverify, result, rfl, hresult, (Except.ok.inj h).symm⟩
    | none =>
      rw [htrust] at h
      exact Or.inr (Except.ok.inj h).symm

theorem resolveInboundProof_default (hverify : options.reverify = none)
    (htrust : options.trustPeerProof = false) {agent : SmAgentFacts} {row : Json}
    {proof : Option ProofResult} (h : resolveInboundProof options agent row = .ok proof) :
    proof = some federationProof := by
  rcases resolveInboundProof_eq_ok htrust h with ⟨reverify, -, hsome, -⟩ | h
  · cases hverify.symm.trans hsome
  · exact h

theorem actionText_injective : Function.Injective actionText := by
  intro action other h
  have hparse := congrArg (fun text => parseAction (.str text)) h
  simpa using hparse

theorem rowApplied_alike {row other : Json} {call call' : Action × SmAgentFacts}
    (hverify : options.reverify = none) (htrust : options.trustPeerProof = false)
    (hlike : RowsAlike row other) (h : RowApplied model.codec options row call)
    (h' : RowApplied model.codec options other call') : call = call' := by
  obtain ⟨haction, json, agent, proof, hjson, hvalid, hproof, hcall⟩ := h
  obtain ⟨haction', json', agent', proof', hjson', hvalid', hproof', hcall'⟩ := h'
  have hagents := hlike.agent
  rw [hjson, hjson'] at hagents
  cases hagents with
  | some hagents =>
    rw [resolveInboundProof_default hverify htrust hproof] at hcall
    rw [resolveInboundProof_default hverify htrust hproof'] at hcall'
    rw [hlike.members "action" (by decide), haction'] at haction
    refine Prod.ext (actionText_injective ?_) ?_
    · exact (Json.str.inj (Option.some.inj haction)).symm
    · rw [hcall, hcall', modelValidate_alike hagents hvalid hvalid']

theorem rowsApplied_alike {page others : List Json} {calls calls' : List (Action × SmAgentFacts)}
    (hverify : options.reverify = none) (htrust : options.trustPeerProof = false)
    (hlike : List.Forall₂ RowsAlike page others)
    (h : List.Forall₂ (RowApplied model.codec options) page calls)
    (h' : List.Forall₂ (RowApplied model.codec options) others calls') : calls = calls' := by
  induction hlike generalizing calls calls' with
  | nil =>
    cases h
    cases h'
    rfl
  | cons hrow _ ih =>
    cases h with
    | cons hcall hcalls =>
      cases h' with
      | cons hcall' hcalls' =>
        rw [rowApplied_alike hverify htrust hrow hcall hcall', ih hcalls hcalls']

theorem getLast?_alike {page others : List Json} (h : List.Forall₂ RowsAlike page others) :
    Option.Rel RowsAlike page.getLast? others.getLast? := by
  induction h with
  | nil => exact Option.Rel.none
  | @cons row other page others hrow hrest ih =>
    cases hrest with
    | nil => exact Option.Rel.some hrow
    | cons => rwa [List.getLast?_cons_cons, List.getLast?_cons_cons]

theorem nextCursor_alike {mode : CursorMode} {since cursor cursor' : ℤ} {page others : List Json}
    (hlike : List.Forall₂ RowsAlike page others) (h : NextCursor mode since page cursor)
    (h' : NextCursor mode since others cursor') : cursor = cursor' := by
  have hlast := getLast?_alike hlike
  rw [NextCursor] at h h'
  generalize page.getLast? = last at h hlast
  generalize others.getLast? = last' at h' hlast
  cases hlast with
  | none => exact h.trans h'.symm
  | some hrow =>
    obtain ⟨seq, hseq, rfl⟩ := h
    obtain ⟨seq', hseq', rfl⟩ := h'
    rw [getInt?_congr (hrow.members "seq" (by decide)), hseq'] at hseq
    rw [Option.some.inj hseq]

/-! ## Pulls into memory -/

variable {codec : AgentCodec} {request : Request} {fetch : String → Except PyError Json}
  {store sink : DeltaStore} {result : PullResult}

theorem mem_addAll {rows : List (Action × SmAgentFacts)} {d : SmAgentFactsDelta}
    (h : d ∈ (addAll rows store).deltas) : d ∈ store.deltas ∨ (d.action, d.agent) ∈ rows := by
  induction rows generalizing store with
  | nil => exact Or.inl h
  | cons row rows ih =>
    rcases ih h with hold | hmem
    · rcases List.mem_append.mp hold with hold | hnew
      · exact Or.inl hold
      · rw [List.mem_singleton.mp hnew]
        exact Or.inr List.mem_cons_self
    · exact Or.inr (List.mem_cons_of_mem _ hmem)

/-- A pull either changes nothing or adds the rows of an accepted page. -/
theorem pull_inMemory (codec : AgentCodec) (request : Request)
    (fetch : String → Except PyError Json) (store : DeltaStore) :
    (∃ e, request.pull codec addInMemory fetch store = (.error e, store)) ∨
      ∃ page calls cursor, Accepted codec request fetch page calls cursor ∧
        request.pull codec addInMemory fetch store =
          (.ok ⟨calls.length, cursor⟩, addAll calls store) := by
  cases hprepare : request.prepare codec fetch with
  | error e => exact Or.inl ⟨e, pull_of_refused hprepare⟩
  | ok prepared =>
    obtain ⟨calls, cursor⟩ := prepared
    obtain ⟨page, hpage⟩ := prepare_eq_ok hprepare
    refine Or.inr ⟨page, calls, cursor, hpage, ?_⟩
    rw [pull_of_prepared hprepare, addRows_inMemory]

theorem pull_eq_ok (h : request.pull codec addInMemory fetch store = (.ok result, sink)) :
    ∃ page calls, Accepted codec request fetch page calls result.cursor ∧
      result.applied = calls.length ∧ sink = addAll calls store := by
  rcases pull_inMemory codec request fetch store with ⟨e, he⟩ | ⟨page, calls, cursor, hpage, hok⟩
  · cases (Prod.mk.inj (h.symm.trans he)).1
  · obtain ⟨hresult, rfl⟩ := Prod.mk.inj (h.symm.trans hok)
    obtain rfl := Except.ok.inj hresult
    exact ⟨page, calls, hpage, rfl, rfl⟩

/-- Two pages that only differ in proofs have one effect, and leave no proof of the peer's. -/
def ProofsIgnored (model : AgentModel) : Prop :=
  ∀ (request : Request) (data other : Json) (store : DeltaStore) (result result' : PullResult)
    (sink sink' : DeltaStore), request.trustPeerProof = false → request.reverify = none →
    PagesAlike data other →
    request.pull model.codec addInMemory (fun _ => .ok data) store = (.ok result, sink) →
    request.pull model.codec addInMemory (fun _ => .ok other) store = (.ok result', sink') →
    result = result' ∧ sink = sink' ∧
      ∀ d ∈ sink.deltas, d ∈ store.deltas ∨ d.agent.proof = some federationProof

theorem forall₂_exists {α β : Type*} {R : α → β → Prop} {xs : List α} {ys : List β}
    (h : List.Forall₂ R xs ys) {y : β} (hy : y ∈ ys) : ∃ x ∈ xs, R x y := by
  induction h with
  | nil => exact absurd hy List.not_mem_nil
  | cons hfirst _ ih =>
    rcases List.mem_cons.mp hy with rfl | hy
    · exact ⟨_, List.mem_cons_self, hfirst⟩
    · obtain ⟨x, hx, hR⟩ := ih hy
      exact ⟨x, List.mem_cons_of_mem _ hx, hR⟩

theorem proofs_ignored (model : AgentModel) : ProofsIgnored model := by
  intro request data other store result result' sink sink' htrust hverify hlike h h'
  obtain ⟨page, calls, ⟨since, mode, body, hsince, -, hmode, hbody, hpage⟩, happlied, rfl⟩ :=
    pull_eq_ok h
  obtain ⟨page', calls', ⟨since', mode', body', hsince', -, hmode', hbody', hpage'⟩, happlied',
    rfl⟩ := pull_eq_ok h'
  obtain rfl := Json.int.inj (hsince.symm.trans hsince')
  obtain rfl := Option.some.inj (hmode.symm.trans hmode')
  obtain rfl := Except.ok.inj hbody
  obtain rfl := Except.ok.inj hbody'
  obtain ⟨rows, rows', hrows, hrows', hrowsAlike⟩ := hlike.deltas
  obtain rfl := Json.arr.inj (Option.some.inj (hrows.symm.trans hpage.deltas))
  obtain rfl := Json.arr.inj (Option.some.inj (hrows'.symm.trans hpage'.deltas))
  obtain rfl := rowsApplied_alike hverify htrust hrowsAlike hpage.applied hpage'.applied
  have hcursor := nextCursor_alike hrowsAlike hpage.next hpage'.next
  refine ⟨?_, rfl, fun d hd => ?_⟩
  · obtain ⟨applied, cursor⟩ := result
    obtain ⟨applied', cursor'⟩ := result'
    obtain rfl : applied = applied' := happlied.trans happlied'.symm
    obtain rfl : cursor = cursor' := hcursor
    rfl
  · refine (mem_addAll hd).imp_right fun hcall => ?_
    obtain ⟨row, -, -, json, agent, proof, -, -, hproof, hagent⟩ :=
      forall₂_exists hpage.applied hcall
    change d.agent = _ at hagent
    rw [hagent, resolveInboundProof_default hverify htrust hproof]

/-! ## Runs of pulls -/

structure Pull where
  request : Request
  fetch : String → Except PyError Json

def Pull.apply (codec : AgentCodec) (store : DeltaStore) (pull : Pull) : DeltaStore :=
  (pull.request.pull codec addInMemory pull.fetch store).2

/-- The store after pulls, some of which may have failed. -/
def afterPulls (codec : AgentCodec) (pulls : List Pull) (store : DeltaStore) : DeltaStore :=
  pulls.foldl (Pull.apply codec) store

/-- The pull's verifier has returned the proof for the row that the delta was added from. -/
def Reverified (codec : AgentCodec) (pull : Pull) (d : SmAgentFactsDelta) (proof : ProofResult) :
    Prop :=
  ∃ page calls cursor row json agent reverify,
    Accepted codec pull.request pull.fetch page calls cursor ∧ row ∈ page ∧
      row.get? "action" = some (.str (actionText d.action)) ∧ row.get? "agent" = some json ∧
      codec.modelValidate json = .ok agent ∧ pull.request.reverify = some reverify ∧
      reverify agent row = .ok (some proof) ∧ d.agent = { agent with proof := some proof }

/-- A pull only adds proofs that its verifier has returned, or that say that there was none. -/
theorem pull_proofs (codec : AgentCodec) {pull : Pull}
    (htrust : pull.request.trustPeerProof = false) {d : SmAgentFactsDelta}
    (hd : d ∈ (pull.apply codec store).deltas) :
    d ∈ store.deltas ∨ d.agent.proof = some federationProof ∨
      ∃ proof, d.agent.proof = some proof ∧ Reverified codec pull d proof := by
  rcases pull_inMemory codec pull.request pull.fetch store with
    ⟨e, he⟩ | ⟨page, calls, cursor, haccepted, hok⟩
  · rw [Pull.apply, he] at hd
    exact Or.inl hd
  · rw [Pull.apply, hok] at hd
    refine (mem_addAll hd).imp_right fun hcall => ?_
    have hpage := haccepted
    obtain ⟨since, mode, data, -, -, -, -, hpage⟩ := hpage
    obtain ⟨row, hrow, haction, json, agent, proof, hjson, hvalid, hproof, hagent⟩ :=
      forall₂_exists hpage.applied hcall
    change d.agent = _ at hagent
    rcases resolveInboundProof_eq_ok htrust hproof with
      ⟨reverify, result, hverify, hresult, rfl⟩ | rfl
    · refine Or.inr ⟨result, by rw [hagent], ?_⟩
      exact ⟨page, calls, cursor, row, json, agent, reverify, haccepted, hrow, haction, hjson,
        hvalid, hverify, hresult, hagent⟩
    · exact Or.inl (by rw [hagent])

/-- A VERIFIED proof in the sink was there before, or a local verifier has returned it for the
row that it came with. -/
def VerifiedLocally (codec : AgentCodec) : Prop :=
  ∀ (pulls : List Pull) (store : DeltaStore),
    (∀ pull ∈ pulls, pull.request.trustPeerProof = false) →
    ∀ d ∈ (afterPulls codec pulls store).deltas, ∀ proof, d.agent.proof = some proof →
      proof.status = .verified →
      d ∈ store.deltas ∨ ∃ pull ∈ pulls, Reverified codec pull d proof

theorem verified_locally (codec : AgentCodec) : VerifiedLocally codec := by
  intro pulls store htrust d hd proof hproof hstatus
  induction pulls using List.reverseRecOn with
  | nil => exact Or.inl hd
  | append_singleton pulls pull ih =>
    rw [afterPulls, List.foldl_append] at hd
    have hlast := htrust pull (List.mem_append_right _ (List.mem_singleton_self _))
    rcases pull_proofs codec hlast hd with hold | hdefault | ⟨result, hresult, hrow⟩
    · have hbefore := ih (fun p hp => htrust p (List.mem_append_left _ hp)) hold
      exact hbefore.imp_right fun ⟨p, hp, hrow⟩ => ⟨p, List.mem_append_left _ hp, hrow⟩
    · rw [hproof, Option.some_inj] at hdefault
      rw [hdefault] at hstatus
      cases hstatus
    · rw [hproof, Option.some_inj] at hresult
      rw [hresult]
      exact Or.inr ⟨pull, List.mem_append_right _ (List.mem_singleton_self _), hrow⟩

/-- A peer's proof claims never reach the store. -/
theorem peer_proofs_stay_outside (model : AgentModel) :
    ProofsIgnored model ∧ VerifiedLocally model.codec :=
  ⟨proofs_ignored model, verified_locally model.codec⟩

/-! ## A forged proof -/

/-- A model whose agents have the fields of `plainCodec`, and proofs their four texts. -/
def plainModel : AgentModel where
  modelDump := plainCodec.modelDump
  validateFields fields := plainCodec.modelValidate (.obj fields)
  validateProof
    | .obj [("profile", .str profile), ("method", .str method), ("status", .str "VERIFIED"),
        ("evidence_ref", .str evidenceRef)] => ProofResult.verified profile method evidenceRef
    | _ => .error (.valueError "invalid proof")

def peerPage (proof : List (String × Json)) : Json :=
  .obj [("deltas", .arr [.obj [("seq", .int 1), ("action", .str "upsert"),
    ("agent", .obj (("id", .str "peer-agent") :: proof))]])]

def forgedProof : List (String × Json) :=
  [("proof", .obj [("profile", .str "ed25519-agentcard"), ("method", .str "ed25519-jcs"),
    ("status", .str "VERIFIED"), ("evidence_ref", .str "ed25519:totally-made-up")])]

theorem forged_alike : PagesAlike (peerPage forgedProof) (peerPage []) where
  members key hkey := by
    simp [peerPage, Json.get?, List.lookup_cons, beq_false_of_ne hkey]
  deltas := by
    refine ⟨_, _, rfl, rfl, List.Forall₂.cons ⟨fun key hkey => ?_, ?_⟩ List.Forall₂.nil⟩
    · simp [Json.get?, List.lookup_cons, beq_false_of_ne hkey]
    · exact Option.Rel.some (AgentsAlike.obj rfl)

def defaultRequest : Request := ⟨"https://peer.example", .int 0, .str "exclusive", none, false⟩

theorem peer_proofs_stay_outside_forged : ∃ result sink,
    defaultRequest.pull plainModel.codec addInMemory (fun _ => .ok (peerPage forgedProof))
      DeltaStore.empty = (.ok result, sink) ∧
    defaultRequest.pull plainModel.codec addInMemory (fun _ => .ok (peerPage []))
      DeltaStore.empty = (.ok result, sink) := by
  have hsame := (peer_proofs_stay_outside plainModel).1 defaultRequest (peerPage forgedProof)
    (peerPage []) DeltaStore.empty _ _ _ _ rfl rfl forged_alike rfl rfl
  exact ⟨_, _, rfl, by rw [hsame.1, hsame.2.1]; rfl⟩

end FederationProofs
