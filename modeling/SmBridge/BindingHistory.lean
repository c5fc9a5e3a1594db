import SmBridge.BindingEntries
import SmBridge.BindingRuns
import SmBridge.Lib.Replay

/-!
# Histories of writes

Requests handled one after another. The store holds what the applied writes say last; the log
names the fields of a write and not their values.
-/
namespace BindingHistory

open Python
open JsonValue
open Dictionary
open Hashing
open Tlog
open Replay
open BindingWrite
open BindingEntries
open BindingRuns

/-! ## What a history leaves -/

/-- A request, with the objects that answer while it is handled. -/
structure Call where
  authenticator : RequestAuthenticator
  authorizer : WriteAuthorizer
  body : BindingWriteRequest

section Definitions

variable (H : HashFunction) (python : Interpreter)

def handle (shared : Shared) (call : Call) : Shared :=
  (writeBinding H python call.authenticator call.authorizer shared call.body).1

/-- The state of a new router after the requests. -/
def handleAll (calls : List Call) : Shared := calls.foldl (handle H python) .empty

/-- Authenticated, of a new nonce, and authorized. -/
def Call.accepted (call : Call) (seenNonces : Finset (String × String)) : Bool :=
  let body := call.body
  match call.authenticator (canonicalPayload python body) body.storeDid body.storeSignature with
  | .ok true =>
    nonceKey body ∉ seenNonces &&
      match call.authorizer body.grant (writeRequest body) body.issuedAt body.storeDid with
      | .ok verdict => (refusal verdict).isNone
      | .error _ => false
  | _ => false

/-- The writes that are applied. -/
def appliedFrom : Shared → List Call → List BindingWriteRequest
  | _, [] => []
  | shared, call :: calls =>
    if call.accepted python shared.seenNonces then
      call.body :: appliedFrom (handle H python shared call) calls
    else appliedFrom (handle H python shared call) calls

def applied (calls : List Call) : List BindingWriteRequest := appliedFrom H python .empty calls

/-- The entries that writes append to the log, in their order. -/
def entriesFrom : BindingStore → List BindingWriteRequest → List Bytes
  | _, [] => []
  | store, body :: bodies =>
    canonicalLogEntry python (logEntry body (store.versionOf body.subject + 1)) ::
      entriesFrom (store.apply body) bodies

end Definitions

section Handling

variable {H : HashFunction} {python : Interpreter}

/-- An accepted request writes to the store and to the log, and any other one to neither. -/
theorem handle_eq (H : HashFunction) (python : Interpreter) (shared : Shared) (call : Call) :
    (call.accepted python shared.seenNonces = true ∧
      (handle H python shared call).store = shared.store.apply call.body ∧
      (handle H python shared call).log = shared.log.append H (canonicalLogEntry python
        (logEntry call.body (shared.store.versionOf call.body.subject + 1)))) ∨
    (call.accepted python shared.seenNonces = false ∧
      (handle H python shared call).store = shared.store ∧
      (handle H python shared call).log = shared.log) := by
  simp only [handle, writeBinding, Call.accepted]
  cases call.authenticator (canonicalPayload python call.body) call.body.storeDid
      call.body.storeSignature with
  | error e => exact Or.inr ⟨rfl, rfl, rfl⟩
  | ok answer =>
    cases answer with
    | false => exact Or.inr ⟨rfl, rfl, rfl⟩
    | true =>
      by_cases hseen : nonceKey call.body ∈ shared.seenNonces
      · simp [hseen]
      · simp only [hseen, if_false, not_false_eq_true, decide_true, Bool.true_and]
        cases call.authorizer call.body.grant (writeRequest call.body) call.body.issuedAt
            call.body.storeDid with
        | error e => exact Or.inr ⟨rfl, rfl, rfl⟩
        | ok verdict =>
          dsimp only
          cases refusal verdict with
          | some exception => exact Or.inr ⟨rfl, rfl, rfl⟩
          | none => exact Or.inl ⟨rfl, rfl, rfl⟩

theorem store_foldl_handle (calls : List Call) (shared : Shared) :
    (calls.foldl (handle H python) shared).store =
      (appliedFrom H python shared calls).foldl BindingStore.apply shared.store := by
  induction calls generalizing shared with
  | nil => rfl
  | cons call calls ih =>
    rw [List.foldl_cons, ih, appliedFrom]
    rcases handle_eq H python shared call with
      ⟨haccepted, hstore, -⟩ | ⟨haccepted, hstore, -⟩
    · rw [if_pos haccepted, hstore, List.foldl_cons]
    · rw [if_neg (by simp [haccepted]), hstore]

theorem entries_foldl_handle (calls : List Call) (shared : Shared) :
    (calls.foldl (handle H python) shared).log.entries =
      shared.log.entries ++
        entriesFrom python shared.store (appliedFrom H python shared calls) := by
  induction calls generalizing shared with
  | nil => exact (List.append_nil _).symm
  | cons call calls ih =>
    rw [List.foldl_cons, ih, appliedFrom]
    rcases handle_eq H python shared call with
      ⟨haccepted, hstore, hlog⟩ | ⟨haccepted, hstore, hlog⟩
    · rw [if_pos haccepted, hstore, hlog, entriesFrom, MerkleLog.append, List.append_assoc]
      rfl
    · rw [if_neg (by simp [haccepted]), hstore, hlog]

theorem store_handleAll (calls : List Call) : (handleAll H python calls).store =
    (applied H python calls).foldl BindingStore.apply .empty :=
  store_foldl_handle calls .empty

theorem entries_handleAll (calls : List Call) : (handleAll H python calls).log.entries =
    entriesFrom python .empty (applied H python calls) :=
  entries_foldl_handle calls .empty

end Handling

/-! ## What a record holds -/

def writesTo (subject : String) (bodies : List BindingWriteRequest) : List BindingWriteRequest :=
  bodies.filter fun body => body.subject = subject

/-- One write over a record. -/
def overwrite (record : BindingRecord) (body : BindingWriteRequest) : BindingRecord :=
  { record with
    fields := merge record.fields body.fields
    version := record.version + 1
    targetHost := body.targetHost.or record.targetHost
    agentRole := body.agentRole.or record.agentRole
    lifecycleState := lifecycleOf body.op }

theorem written_eq (store : BindingStore) (body : BindingWriteRequest) :
    store.written body = overwrite (store.recordOf body.subject) body := rfl

theorem recordOf_apply (store : BindingStore) (body : BindingWriteRequest) (subject : String) :
    (store.apply body).recordOf subject =
      if body.subject = subject then overwrite (store.recordOf subject) body
      else store.recordOf subject := by
  rw [BindingStore.recordOf, BindingStore.get_apply]
  by_cases h : body.subject = subject
  · subst subject
    rw [if_pos rfl, if_pos rfl]
    exact written_eq store body
  · rw [if_neg (Ne.symm h), if_neg h]
    rfl

/-- A record is made of the writes to its subject. -/
theorem recordOf_foldl (subject : String) (bodies : List BindingWriteRequest)
    (store : BindingStore) :
    (bodies.foldl BindingStore.apply store).recordOf subject =
      (writesTo subject bodies).foldl overwrite (store.recordOf subject) := by
  induction bodies generalizing store with
  | nil => rfl
  | cons body bodies ih =>
    rw [List.foldl_cons, ih, recordOf_apply, writesTo, writesTo, List.filter_cons]
    by_cases h : body.subject = subject
    · rw [if_pos h, if_pos (decide_eq_true h), List.foldl_cons]
    · rw [if_neg h, if_neg (by simpa using h)]

theorem get_foldl_eq_none (subject : String) (bodies : List BindingWriteRequest)
    (store : BindingStore) :
    (bodies.foldl BindingStore.apply store).records.get subject = none ↔
      store.records.get subject = none ∧ writesTo subject bodies = [] := by
  induction bodies generalizing store with
  | nil => simp [writesTo]
  | cons body bodies ih =>
    rw [List.foldl_cons, ih, BindingStore.get_apply, writesTo, writesTo, List.filter_cons]
    by_cases h : body.subject = subject
    · simp [h]
    · simp [h, Ne.symm h]

section Records

variable (bodies : List BindingWriteRequest) (record : BindingRecord)

theorem foldl_overwrite_subject : (bodies.foldl overwrite record).subject = record.subject := by
  induction bodies generalizing record with
  | nil => rfl
  | cons body bodies ih => exact ih _

theorem foldl_overwrite_version :
    (bodies.foldl overwrite record).version = record.version + bodies.length := by
  induction bodies generalizing record with
  | nil => rfl
  | cons body bodies ih =>
    rw [List.foldl_cons, ih, List.length_cons]
    exact Nat.succ_add_eq_add_succ _ _

theorem foldl_overwrite_lifecycleState : (bodies.foldl overwrite record).lifecycleState =
    (((bodies.map BindingWriteRequest.op).getLast?).map lifecycleOf).getD
      record.lifecycleState := by
  induction bodies using List.reverseRecOn with
  | nil => rfl
  | append_singleton bodies body _ =>
    rw [List.foldl_append, List.map_append, List.map_singleton, List.getLast?_concat]
    rfl

theorem foldl_overwrite_targetHost : (bodies.foldl overwrite record).targetHost =
    (lastGiven BindingWriteRequest.targetHost bodies).or record.targetHost :=
  foldl_given BindingRecord.targetHost (fun _ _ => rfl) bodies record

theorem foldl_overwrite_agentRole : (bodies.foldl overwrite record).agentRole =
    (lastGiven BindingWriteRequest.agentRole bodies).or record.agentRole :=
  foldl_given BindingRecord.agentRole (fun _ _ => rfl) bodies record

theorem foldl_overwrite_fields (key : String) :
    (bodies.foldl overwrite record).fields.get key =
      (lastGiven (fun body => body.fields.get key) bodies).or (record.fields.get key) :=
  foldl_given (fun record => record.fields.get key)
    (fun _ body => Dict.get_foldl_set body.fields.nodup _ _) bodies record

end Records

/-! ## What the log tells -/

/-- What the log tells of a write whatever its values are. -/
def logged (body : BindingWriteRequest) : String × String := (body.subject, body.op)

theorem logged_of_entries {python : Interpreter} {bodies bodies' : List BindingWriteRequest}
    {store store' : BindingStore}
    (h : entriesFrom python store bodies = entriesFrom python store' bodies') :
    bodies.map logged = bodies'.map logged := by
  induction bodies generalizing bodies' store store' with
  | nil =>
    cases bodies' with
    | nil => rfl
    | cons => cases h
  | cons body bodies ih =>
    cases bodies' with
    | nil => cases h
    | cons body' bodies' =>
      obtain ⟨hhead, htail⟩ := List.cons.inj h
      have hsame := canonicalLogEntry_inj hhead
      rw [List.map_cons, List.map_cons, ih htail]
      exact congrArg (· :: _) (Prod.ext hsame.subject hsame.op)

theorem ops_of_logged {bodies bodies' : List BindingWriteRequest}
    (h : bodies.map logged = bodies'.map logged) (subject : String) :
    (writesTo subject bodies).map BindingWriteRequest.op =
      (writesTo subject bodies').map BindingWriteRequest.op := by
  have hops : ∀ bodies : List BindingWriteRequest,
      (writesTo subject bodies).map BindingWriteRequest.op =
        ((bodies.map logged).filter fun e => e.1 = subject).map Prod.snd := by
    intro bodies
    rw [List.filter_map, List.map_map]
    rfl
  rw [hops, hops, h]

/-! ## Two histories -/

/-- Both are missing, or both are there and Python's `==` holds between them. -/
def SameField (value value' : Option Json) : Prop :=
  Option.Rel (fun v v' => v.eq v' = true) value value'

/-- `record == record'` -/
structure SameRecord (record record' : BindingRecord) : Prop where
  subject : record.subject = record'.subject
  version : record.version = record'.version
  lifecycleState : record.lifecycleState = record'.lifecycleState
  fields : ∀ key, SameField (record.fields.get key) (record'.fields.get key)
  targetHost : record.targetHost = record'.targetHost
  agentRole : record.agentRole = record'.agentRole

/-- Equality of stores, as Python compares dictionaries of records. -/
def SameStore (store store' : BindingStore) : Prop :=
  ∀ subject, Option.Rel SameRecord (store.records.get subject) (store'.records.get subject)

/-- The values that are given last. -/
structure SameLast (bodies bodies' : List BindingWriteRequest) : Prop where
  fields : ∀ key, SameField (lastGiven (fun body => body.fields.get key) bodies)
    (lastGiven (fun body => body.fields.get key) bodies')
  targetHost : lastGiven BindingWriteRequest.targetHost bodies =
    lastGiven BindingWriteRequest.targetHost bodies'
  agentRole : lastGiven BindingWriteRequest.agentRole bodies =
    lastGiven BindingWriteRequest.agentRole bodies'

/-- Over writes that the log cannot tell apart, a record differs in the values alone. -/
theorem sameRecord_iff {bodies bodies' : List BindingWriteRequest} (subject : String)
    (hops : bodies.map BindingWriteRequest.op = bodies'.map BindingWriteRequest.op) :
    SameRecord (bodies.foldl overwrite (BindingStore.empty.recordOf subject))
        (bodies'.foldl overwrite (BindingStore.empty.recordOf subject)) ↔
      SameLast bodies bodies' := by
  have hlength : bodies.length = bodies'.length := by
    simpa using congrArg List.length hops
  constructor
  · intro h
    constructor
    · intro key
      have hkey := h.fields key
      rw [foldl_overwrite_fields, foldl_overwrite_fields] at hkey
      change SameField (Option.or _ none) (Option.or _ none) at hkey
      rwa [Option.or_none, Option.or_none] at hkey
    · have hhost := h.targetHost
      rw [foldl_overwrite_targetHost, foldl_overwrite_targetHost] at hhost
      exact Option.or_none.symm.trans (hhost.trans Option.or_none)
    · have hrole := h.agentRole
      rw [foldl_overwrite_agentRole, foldl_overwrite_agentRole] at hrole
      exact Option.or_none.symm.trans (hrole.trans Option.or_none)
  · intro h
    constructor
    · rw [foldl_overwrite_subject, foldl_overwrite_subject]
    · rw [foldl_overwrite_version, foldl_overwrite_version, hlength]
    · rw [foldl_overwrite_lifecycleState, foldl_overwrite_lifecycleState, hops]
    · intro key
      rw [foldl_overwrite_fields, foldl_overwrite_fields]
      change SameField (Option.or _ none) (Option.or _ none)
      rw [Option.or_none, Option.or_none]
      exact h.fields key
    · rw [foldl_overwrite_targetHost, foldl_overwrite_targetHost, h.targetHost]
    · rw [foldl_overwrite_agentRole, foldl_overwrite_agentRole, h.agentRole]

theorem get_foldl (subject : String) (bodies : List BindingWriteRequest) :
    (bodies.foldl BindingStore.apply .empty).records.get subject =
      if writesTo subject bodies = [] then none
      else some ((writesTo subject bodies).foldl overwrite
        (BindingStore.empty.recordOf subject)) := by
  have hnone := get_foldl_eq_none subject bodies .empty
  have hrecord := recordOf_foldl subject bodies .empty
  split
  · exact hnone.mpr ⟨rfl, ‹_›⟩
  · rw [← hrecord, BindingStore.recordOf]
    cases hget : (bodies.foldl BindingStore.apply BindingStore.empty).records.get subject with
    | none => exact absurd (hnone.mp hget).2 ‹_›
    | some record => rfl

/-- Two histories with the same log leave the same store if and only if they give the same
values last. -/
theorem log_determines_iff {H : HashFunction} {python : Interpreter} {calls calls' : List Call}
    (hlog : (handleAll H python calls).log.entries = (handleAll H python calls').log.entries) :
    SameStore (handleAll H python calls).store (handleAll H python calls').store ↔
      ∀ subject, SameLast (writesTo subject (applied H python calls))
        (writesTo subject (applied H python calls')) := by
  rw [entries_handleAll, entries_handleAll] at hlog
  rw [store_handleAll, store_handleAll]
  refine forall_congr' fun subject => ?_
  have hops := ops_of_logged (logged_of_entries hlog) subject
  rw [← sameRecord_iff subject hops, get_foldl, get_foldl]
  by_cases hnone : writesTo subject (applied H python calls) = []
  · have hnone' : writesTo subject (applied H python calls') = [] := by
      rw [hnone] at hops
      exact List.map_eq_nil_iff.mp hops.symm
    rw [if_pos hnone, if_pos hnone', hnone, hnone']
    exact iff_of_true Option.Rel.none ⟨rfl, rfl, rfl, fun _ => Option.Rel.none, rfl, rfl⟩
  · have hnone' : writesTo subject (applied H python calls') ≠ [] := by
      intro hnone'
      rw [hnone'] at hops
      exact hnone (List.map_eq_nil_iff.mp hops)
    rw [if_neg hnone, if_neg hnone']
    exact ⟨fun h => by cases h; assumption, Option.Rel.some⟩

open Converter (plainPython)

/-- A call that every check lets through. -/
def granted (body : BindingWriteRequest) : Call :=
  ⟨fun _ _ _ => .ok true, fun _ _ _ _ => .ok { status := "SATISFIED" }, body⟩

def johnsCard (nonce : String) (card : Json) : BindingWriteRequest :=
  { johnsWrite with fields := ⟨[("agent_card", card)], by simp⟩, nonce := nonce }

/-- One card, with its fields in two orders. -/
def cardNamed (name : String) : Json := .obj [("name", .str name), ("skills", .int 1)]
def cardTurned (name : String) : Json := .obj [("skills", .int 1), ("name", .str name)]

theorem log_determines_iff_john :
    let calls := [granted (johnsCard "n1" (cardNamed "Old John")),
      granted (johnsCard "n2" (cardNamed "John"))]
    let calls' := [granted (johnsCard "n1" (cardNamed "John's agent")),
      granted (johnsCard "n2" (cardTurned "John"))]
    SameStore (handleAll sha256 plainPython calls).store
        (handleAll sha256 plainPython calls').store ↔
      ∀ subject, SameLast (writesTo subject (applied sha256 plainPython calls))
        (writesTo subject (applied sha256 plainPython calls')) :=
  log_determines_iff rfl

/-- The log is the same for two values of one field. -/
theorem values_not_logged : ¬ ∀ calls calls' : List Call,
    (handleAll sha256 plainPython calls).log.entries =
      (handleAll sha256 plainPython calls').log.entries →
    SameStore (handleAll sha256 plainPython calls).store
      (handleAll sha256 plainPython calls').store := by
  intro h
  have hsame := h [granted (johnsCard "n1" (.str "https://old.example"))]
    [granted (johnsCard "n1" (.str "https://cards.example"))] rfl "john@hotmail.com"
  change Option.Rel SameRecord
    (some (BindingStore.empty.written (johnsCard "n1" (.str "https://old.example"))))
    (some (BindingStore.empty.written (johnsCard "n1" (.str "https://cards.example")))) at hsame
  cases hsame with
  | some hrecord =>
    have hfield : SameField (some (.str "https://old.example"))
        (some (.str "https://cards.example")) := hrecord.fields "agent_card"
    cases hfield with
    | some heq => exact absurd (Json.str.inj (Json.eq_str.mp heq)) (by decide)

end BindingHistory
