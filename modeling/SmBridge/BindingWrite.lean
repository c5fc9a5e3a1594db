import SmBridge.Dumps
import SmBridge.Lib.Dict
import SmBridge.Tlog
import Mathlib.Data.Finset.Insert

/-!
# Delegated writes to a binding

A write is authenticated, checked for replay, authorized, applied to the store and appended
to the transparency log. The authenticator and the authorizer are parameters.
-/
namespace BindingWrite

open Python
open JsonValue
open Dictionary
open Hashing
open Tlog
open Dumps

structure WriteVerdict where
  status : String
  reason : String := "ok"
  detail : String := ""
  deriving DecidableEq, Repr

structure HTTPException where
  statusCode : ℕ
  detail : Json

structure BindingWriteRequest where
  grant : Dict String Json
  op : String
  subject : String
  fields : Dict String Json := Dict.empty
  targetHost : Option String := none
  agentRole : Option String := none
  issuedAt : String
  nonce : String
  storeDid : String
  storeSignature : String

/-! ## The store -/

inductive LifecycleState where
  | active
  | suspended
  | revoked
  deriving DecidableEq, Repr

/-- The last two keys are absent from a record until a write gives them. -/
structure BindingRecord where
  subject : String
  version : ℕ
  lifecycleState : LifecycleState
  fields : Dict String Json
  targetHost : Option String
  agentRole : Option String

structure BindingStore where
  records : Dict String BindingRecord

/-- `{**old, **new}` -/
def merge (old new : Dict String Json) : Dict String Json :=
  new.entries.foldl (fun d e => d.set e.1 e.2) old

def lifecycleOf (op : String) : LifecycleState :=
  if op = "binding.suspend" then .suspended
  else if op = "binding.revoke" then .revoked
  else .active

namespace BindingStore

def empty : BindingStore := ⟨Dict.empty⟩

def recordOf (store : BindingStore) (subject : String) : BindingRecord :=
  (store.records.get subject).getD ⟨subject, 0, .active, Dict.empty, none, none⟩

/-- The record that a write leaves. -/
def written (store : BindingStore) (body : BindingWriteRequest) : BindingRecord :=
  let record := store.recordOf body.subject
  { record with
    fields := merge record.fields body.fields
    version := record.version + 1
    targetHost := body.targetHost.or record.targetHost
    agentRole := body.agentRole.or record.agentRole
    lifecycleState := lifecycleOf body.op }

def apply (store : BindingStore) (body : BindingWriteRequest) : BindingStore :=
  ⟨store.records.set body.subject (store.written body)⟩

def versionOf (store : BindingStore) (subject : String) : ℕ := (store.recordOf subject).version

/-- The sum of the versions of all records. -/
def totalVersion (store : BindingStore) : ℕ := store.records.total BindingRecord.version

@[simp] theorem versionOf_empty (subject : String) : empty.versionOf subject = 0 := rfl

@[simp] theorem totalVersion_empty : empty.totalVersion = 0 := rfl

theorem get_apply (store : BindingStore) (body : BindingWriteRequest) (subject : String) :
    (store.apply body).records.get subject =
      if subject = body.subject then some (store.written body) else store.records.get subject :=
  Dict.get_set _ _ _ _

theorem written_version (store : BindingStore) (body : BindingWriteRequest) :
    (store.written body).version = store.versionOf body.subject + 1 := rfl

theorem versionOf_apply (store : BindingStore) (body : BindingWriteRequest) (subject : String) :
    (store.apply body).versionOf subject =
      if subject = body.subject then store.versionOf subject + 1 else store.versionOf subject := by
  rw [versionOf, recordOf, get_apply]
  split
  · subst subject
    exact written_version store body
  · rfl

/-- Each application counts once in the sum of the versions. -/
theorem totalVersion_apply (store : BindingStore) (body : BindingWriteRequest) :
    (store.apply body).totalVersion = store.totalVersion + 1 := by
  have htotal := Dict.total_set BindingRecord.version store.records body.subject
    (store.written body)
  have hold : ((store.records.get body.subject).map BindingRecord.version).getD 0 =
      store.versionOf body.subject := by
    rw [versionOf, recordOf]
    cases store.records.get body.subject <;> rfl
  rw [hold, written_version] at htotal
  change (store.records.set body.subject (store.written body)).total BindingRecord.version =
    store.records.total BindingRecord.version + 1
  omega

end BindingStore

/-! ## What is signed and what is logged -/

/-- `sorted(fields.keys())` -/
def sortedKeys (fields : Dict String Json) : List String :=
  fields.keys.insertionSort (· ≤ ·)

def optional : Option String → Json
  | some s => .str s
  | none => .null

structure LogEntry where
  op : String
  subject : String
  fields : List String
  storeDid : String
  grantId : Json
  issuedAt : String
  nonce : String
  version : ℕ

def grantIdOf (body : BindingWriteRequest) : Json := (body.grant.get "grant_id").getD .null

def logEntry (body : BindingWriteRequest) (version : ℕ) : LogEntry :=
  ⟨body.op, body.subject, sortedKeys body.fields, body.storeDid, grantIdOf body, body.issuedAt,
    body.nonce, version⟩

def writeRequest (body : BindingWriteRequest) : Json :=
  .obj [("category", .str body.op),
    ("binding", .obj [("subject", .str body.subject),
      ("fields", .arr ((sortedKeys body.fields).map .str)),
      ("target_host", optional body.targetHost), ("agent_role", optional body.agentRole)])]

section Definitions

variable (python : Interpreter)

def canonicalPayload (body : BindingWriteRequest) : Bytes :=
  let grantId := if (grantIdOf body).truthy then grantIdOf body else .str ""
  dumpsBytes python (.obj
    [("grant_id", grantId), ("op", .str body.op), ("subject", .str body.subject),
      ("fields", .obj body.fields.entries), ("target_host", optional body.targetHost),
      ("agent_role", optional body.agentRole), ("issued_at", .str body.issuedAt),
      ("nonce", .str body.nonce)])

def canonicalLogEntry (entry : LogEntry) : Bytes :=
  dumpsBytes python (.obj
    [("op", .str entry.op), ("subject", .str entry.subject),
      ("fields", .arr (entry.fields.map .str)), ("store_did", .str entry.storeDid),
      ("grant_id", entry.grantId), ("issued_at", .str entry.issuedAt),
      ("nonce", .str entry.nonce), ("version", .int entry.version)])

end Definitions

/-! ## The handler -/

/-- What the handlers of one router share. -/
structure Shared where
  seenNonces : Finset (String × String)
  store : BindingStore
  log : MerkleLog

def Shared.empty : Shared := ⟨∅, .empty, { origin := "sm-bridge/bindings" }⟩

structure WriteResponse where
  binding : BindingRecord
  leafIndex : ℕ
  treeSize : ℕ
  rootB64 : String

/-- How a request ends. An exception of an injected object is not caught. -/
inductive Outcome where
  | applied (response : WriteResponse)
  | failed (exception : HTTPException)
  | raised (error : PyError)

def nonceKey (body : BindingWriteRequest) : String × String := (body.storeDid, body.nonce)

def signatureInvalid : HTTPException := ⟨401, .obj [("reason", .str "store_signature_invalid")]⟩

def nonceReplayed : HTTPException := ⟨409, .obj [("reason", .str "nonce_replayed")]⟩

/-- The exception for any verdict but SATISFIED. -/
def refusal (verdict : WriteVerdict) : Option HTTPException :=
  let detail : Json := .obj [("reason", .str verdict.reason), ("detail", .str verdict.detail)]
  if verdict.status = "VIOLATED" then some ⟨403, detail⟩
  else if verdict.status = "INDETERMINATE" then some ⟨409, detail⟩
  else if verdict.status ≠ "SATISFIED" then
    some ⟨500, .obj [("reason", .str "unknown_verdict"), ("detail", .str verdict.status)]⟩
  else none

theorem refusal_eq_none {verdict : WriteVerdict} :
    refusal verdict = none ↔ verdict.status = "SATISFIED" := by
  rw [refusal]
  constructor
  · intro h
    by_contra hstatus
    by_cases hviolated : verdict.status = "VIOLATED"
    · simp [hviolated] at h
    · by_cases hindeterminate : verdict.status = "INDETERMINATE"
      · simp [hindeterminate] at h
      · simp [hviolated, hindeterminate, hstatus] at h
  · intro h
    simp [h]

/-- `authenticate(payload, store_did, signature)` -/
abbrev RequestAuthenticator := Bytes → String → String → Except PyError Bool

/-- `authorize(grant, request, issued_at, store_did)` -/
abbrev WriteAuthorizer := Dict String Json → Json → String → String → Except PyError WriteVerdict

/-- The handler of one request, when no other one runs. -/
def writeBinding (H : HashFunction) (python : Interpreter) (authenticator : RequestAuthenticator)
    (authorizer : WriteAuthorizer) (shared : Shared) (body : BindingWriteRequest) :
    Shared × Outcome :=
  match authenticator (canonicalPayload python body) body.storeDid body.storeSignature with
  | .error e => (shared, .raised e)
  | .ok false => (shared, .failed signatureInvalid)
  | .ok true =>
    if nonceKey body ∈ shared.seenNonces then (shared, .failed nonceReplayed)
    else
      let shared := { shared with seenNonces := insert (nonceKey body) shared.seenNonces }
      match authorizer body.grant (writeRequest body) body.issuedAt body.storeDid with
      | .error e => (shared, .raised e)
      | .ok verdict =>
        match refusal verdict with
        | some exception => (shared, .failed exception)
        | none =>
          let record := shared.store.written body
          let log := shared.log.append H (canonicalLogEntry python (logEntry body record.version))
          ({ shared with store := shared.store.apply body, log := log },
            .applied ⟨record, log.size - 1, log.size, log.rootB64 H⟩)

end BindingWrite
