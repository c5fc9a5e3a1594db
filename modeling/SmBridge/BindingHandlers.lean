import SmBridge.BindingWrite
import SmBridge.Lib.Workers

/-!
# Handlers of concurrent writes

The handlers of one router run at the same time. Each step below is one that a lock, or a
single call, makes atomic; the answers of the authenticator and the authorizer are open.
-/
namespace BindingHandlers

open Python
open JsonValue
open Dictionary
open Hashing
open Tlog
open BindingWrite
open Runs
open Workers

/-- How far a handler has come. -/
inductive Phase where
  | received
  | authenticated
  | fresh
  | authorized
  | applied (record : BindingRecord)
  | appended (record : BindingRecord) (size : ℕ)
  | ended (outcome : Outcome)

/-- A call that a handler makes, with its arguments and the answer of an injected object. -/
inductive Action where
  | authenticate (payload : Bytes) (storeDid storeSignature : String)
    (answer : Except PyError Bool)
  | checkNonce
  | authorize (grant : Dict String Json) (request : Json) (issuedAt storeDid : String)
    (answer : Except PyError WriteVerdict)
  | apply
  | append (entry : LogEntry)
  | rootB64

section Definitions

variable (H : HashFunction) (python : Interpreter) (body : BindingWriteRequest)

def authentication (answer : Except PyError Bool) : Action :=
  .authenticate (canonicalPayload python body) body.storeDid body.storeSignature answer

def authorization (answer : Except PyError WriteVerdict) : Action :=
  .authorize body.grant (writeRequest body) body.issuedAt body.storeDid answer

def commit (shared : Shared) (entry : LogEntry) : Shared :=
  { shared with log := shared.log.append H (canonicalLogEntry python entry) }

/-- The steps of `write_binding`. -/
inductive Handles : Phase → Shared → Action → Phase → Shared → Prop
  | authenticated {shared : Shared} :
      Handles .received shared (authentication python body (.ok true)) .authenticated shared
  | unauthenticated {shared : Shared} :
      Handles .received shared (authentication python body (.ok false))
        (.ended (.failed signatureInvalid)) shared
  | authenticatorRaised {shared : Shared} {e : PyError} :
      Handles .received shared (authentication python body (.error e)) (.ended (.raised e)) shared
  | fresh {shared : Shared} (hfresh : nonceKey body ∉ shared.seenNonces) :
      Handles .authenticated shared .checkNonce .fresh
        { shared with seenNonces := insert (nonceKey body) shared.seenNonces }
  | replayed {shared : Shared} (hreplayed : nonceKey body ∈ shared.seenNonces) :
      Handles .authenticated shared .checkNonce (.ended (.failed nonceReplayed)) shared
  | authorized {shared : Shared} {verdict : WriteVerdict} (hverdict : refusal verdict = none) :
      Handles .fresh shared (authorization body (.ok verdict)) .authorized shared
  | refused {shared : Shared} {verdict : WriteVerdict} {exception : HTTPException}
      (hverdict : refusal verdict = some exception) :
      Handles .fresh shared (authorization body (.ok verdict)) (.ended (.failed exception)) shared
  | authorizerRaised {shared : Shared} {e : PyError} :
      Handles .fresh shared (authorization body (.error e)) (.ended (.raised e)) shared
  | applied {shared : Shared} :
      Handles .authorized shared .apply (.applied (shared.store.written body))
        { shared with store := shared.store.apply body }
  | appended {shared : Shared} {record : BindingRecord} :
      Handles (.applied record) shared (.append (logEntry body record.version))
        (.appended record (commit H python shared (logEntry body record.version)).log.size)
        (commit H python shared (logEntry body record.version))
  | responded {shared : Shared} {record : BindingRecord} {size : ℕ} :
      Handles (.appended record size) shared .rootB64
        (.ended (.applied ⟨record, size - 1, size, shared.log.rootB64 H⟩)) shared

end Definitions

/-- The requests that a router receives, in any number, and the steps of their handlers. -/
abbrev HandlerStep {ι : Type} [DecidableEq ι] (H : HashFunction) (python : Interpreter)
    (requests : ι → BindingWriteRequest) :
    System ι Phase Shared → ι × Action → System ι Phase Shared → Prop :=
  Step fun i => Handles H python (requests i)

/-- A router whose handlers have not started. -/
abbrev router {ι : Type} (shared : Shared) : System ι Phase Shared := started .received shared

namespace Phase

/-- The nonce is taken and the request has not failed. -/
def Admitted : Phase → Prop
  | fresh | authorized | applied _ | appended _ _ | ended (.applied _) => True
  | _ => False

/-- The store holds the write. -/
def Written : Phase → Prop
  | applied _ | appended _ _ | ended (.applied _) => True
  | _ => False

/-- Between the store and the log. -/
def Pending : Phase → Prop
  | applied _ => True
  | _ => False

/-- Started and not ended. -/
def InFlight : Phase → Prop
  | received | ended _ => False
  | _ => True

/-- Ended with an error or an exception. -/
def Refused : Phase → Prop
  | ended (.failed _) | ended (.raised _) => True
  | _ => False

/-- The version that the store has given to the write. -/
def version : Phase → Option ℕ
  | applied record | appended record _ => some record.version
  | ended (.applied response) => some response.binding.version
  | _ => none

/-- The log holds the write. -/
def Logged : Phase → Prop
  | appended _ _ | ended (.applied _) => True
  | _ => False

theorem logged_of_version {phase : Phase} (hversion : phase.version.isSome)
    (hnot : ¬ phase.InFlight) : phase.Logged := by
  cases phase with
  | ended outcome =>
    cases outcome with
    | applied => trivial
    | _ => cases hversion
  | received => cases hversion
  | _ => exact absurd trivial hnot

theorem Written.admitted {phase : Phase} (h : phase.Written) : phase.Admitted := by
  cases phase with
  | ended outcome =>
    cases outcome with
    | applied => trivial
    | _ => exact h
  | applied | appended => trivial
  | _ => exact h.elim

end Phase

section Steps

variable {H : HashFunction} {python : Interpreter} {body : BindingWriteRequest}
  {phase phase' : Phase} {shared shared' : Shared} {action : Action}

/-! ## What one step can do -/

theorem Handles.store (h : Handles H python body phase shared action phase' shared') :
    action ≠ .apply ∧ shared'.store = shared.store ∨
      action = .apply ∧ phase = .authorized ∧ phase' = .applied (shared.store.written body) ∧
        shared'.store = shared.store.apply body := by
  cases h
  case applied => exact Or.inr ⟨rfl, rfl, rfl, rfl⟩
  all_goals exact Or.inl ⟨by simp [authentication, authorization], rfl⟩

theorem Handles.log (h : Handles H python body phase shared action phase' shared') :
    (∀ entry, action ≠ .append entry) ∧ shared'.log = shared.log ∨
      ∃ record, action = .append (logEntry body record.version) ∧ phase = .applied record ∧
        phase' = .appended record shared'.log.size ∧
        shared'.log =
          shared.log.append H (canonicalLogEntry python (logEntry body record.version)) := by
  cases h
  case appended record => exact Or.inr ⟨record, rfl, rfl, rfl, rfl⟩
  all_goals exact Or.inl ⟨by simp [authentication, authorization], rfl⟩

theorem Handles.nonces (h : Handles H python body phase shared action phase' shared') :
    action ≠ .checkNonce ∧ shared'.seenNonces = shared.seenNonces ∧
        (phase'.Admitted → phase.Admitted) ∨
      action = .checkNonce ∧ nonceKey body ∈ shared.seenNonces ∧
        shared'.seenNonces = shared.seenNonces ∧ ¬ phase'.Admitted ∨
      action = .checkNonce ∧ nonceKey body ∉ shared.seenNonces ∧
        shared'.seenNonces = insert (nonceKey body) shared.seenNonces := by
  cases h
  case fresh hfresh => exact Or.inr (Or.inr ⟨rfl, hfresh, rfl⟩)
  case replayed hreplayed =>
    exact Or.inr (Or.inl ⟨rfl, hreplayed, rfl, by simp [Phase.Admitted]⟩)
  all_goals
    exact Or.inl ⟨by simp [authentication, authorization], rfl,
      by simp [Phase.Admitted]⟩

/-- Each application and each append counts once. -/
theorem Handles.counts (h : Handles H python body phase shared action phase' shared') :
    shared'.log.size = shared.log.size ∧
        shared'.store.totalVersion = shared.store.totalVersion ∧
        (phase'.Pending ↔ phase.Pending) ∨
      shared'.log.size = shared.log.size ∧
        shared'.store.totalVersion = shared.store.totalVersion + 1 ∧
        ¬ phase.Pending ∧ phase'.Pending ∨
      shared'.log.size = shared.log.size + 1 ∧
        shared'.store.totalVersion = shared.store.totalVersion ∧
        phase.Pending ∧ ¬ phase'.Pending := by
  cases h
  case applied =>
    exact Or.inr (Or.inl ⟨rfl, BindingStore.totalVersion_apply _ _, id, trivial⟩)
  case appended =>
    exact Or.inr (Or.inr ⟨MerkleLog.size_append _ _, rfl, trivial, id⟩)
  all_goals exact Or.inl ⟨rfl, rfl, Iff.rfl⟩

/-- A write gets its version from the store and takes it to the log. -/
theorem Handles.versions (h : Handles H python body phase shared action phase' shared') :
    action ≠ .apply ∧ (∀ entry, action ≠ .append entry) ∧ phase'.version = phase.version ∧
        (phase'.Logged ↔ phase.Logged) ∧ shared'.store = shared.store ∧
        shared'.log = shared.log ∨
      action = .apply ∧ phase.version = none ∧
        phase'.version = some (shared.store.versionOf body.subject + 1) ∧
        (phase'.Logged ↔ phase.Logged) ∧ shared'.store = shared.store.apply body ∧
        shared'.log = shared.log ∨
      ∃ version, action = .append (logEntry body version) ∧ phase.version = some version ∧
        phase'.version = some version ∧ phase'.Logged ∧ shared'.store = shared.store ∧
        shared'.log = shared.log.append H (canonicalLogEntry python (logEntry body version)) := by
  cases h
  case applied => exact Or.inr (Or.inl ⟨rfl, rfl, rfl, Iff.rfl, rfl, rfl⟩)
  case appended record =>
    exact Or.inr (Or.inr ⟨record.version, rfl, rfl, rfl, trivial, rfl, rfl⟩)
  all_goals
    exact Or.inl ⟨by simp [BindingHandlers.authentication, authorization],
      by simp [BindingHandlers.authentication, authorization], rfl, Iff.rfl, rfl, rfl⟩

/-- The label decides the step. -/
theorem Handles.unique {phase₁ phase₂ : Phase} {shared₁ shared₂ : Shared}
    (h₁ : Handles H python body phase shared action phase₁ shared₁)
    (h₂ : Handles H python body phase shared action phase₂ shared₂) :
    phase₁ = phase₂ ∧ shared₁ = shared₂ := by
  cases h₁ <;> cases h₂ <;> first
    | exact ⟨rfl, rfl⟩
    | contradiction
    | simp_all

theorem Handles.authentication {answer : Except PyError Bool}
    (h : Handles H python body phase shared (authentication python body answer) phase' shared') :
    shared' = shared := by
  generalize hlabel : BindingHandlers.authentication python body answer = action at h
  cases h with
  | fresh | applied | appended => cases hlabel
  | _ => rfl

/-! ## What a handler has done -/

/-- The calls of a handler that has failed. -/
def FailedHistory (python : Interpreter) (body : BindingWriteRequest) (actions : List Action) :
    Prop :=
  (∃ answer, answer ≠ .ok true ∧ actions = [authentication python body answer]) ∨
  actions = [authentication python body (.ok true), .checkNonce] ∨
  ∃ answer, actions = [authentication python body (.ok true), .checkNonce,
    authorization body answer]

/-- The phase of a handler tells the calls that it has made. -/
def History (python : Interpreter) (body : BindingWriteRequest) : Phase → List Action → Prop
  | .received, actions => actions = []
  | .authenticated, actions => actions = [authentication python body (.ok true)]
  | .fresh, actions => actions = [authentication python body (.ok true), .checkNonce]
  | .authorized, actions => ∃ verdict, refusal verdict = none ∧
      actions = [authentication python body (.ok true), .checkNonce,
        authorization body (.ok verdict)]
  | .applied _, actions => ∃ verdict, refusal verdict = none ∧
      actions = [authentication python body (.ok true), .checkNonce,
        authorization body (.ok verdict), .apply]
  | .appended record _, actions => ∃ verdict, refusal verdict = none ∧
      actions = [authentication python body (.ok true), .checkNonce,
        authorization body (.ok verdict), .apply, .append (logEntry body record.version)]
  | .ended (.applied response), actions => ∃ verdict, refusal verdict = none ∧
      actions = [authentication python body (.ok true), .checkNonce,
        authorization body (.ok verdict), .apply,
        .append (logEntry body response.binding.version), .rootB64]
  | .ended _, actions => FailedHistory python body actions

theorem history_of_run {actions : List Action}
    (h : Run (Alone (Handles H python body)) .received actions phase) :
    History python body phase actions := by
  induction h with
  | nil => rfl
  | concat _ hlast ih =>
    obtain ⟨_, _, hlast⟩ := hlast
    cases hlast with
    | authenticated =>
      obtain rfl := ih
      rfl
    | unauthenticated =>
      obtain rfl := ih
      exact Or.inl ⟨.ok false, by simp, rfl⟩
    | authenticatorRaised =>
      obtain rfl := ih
      exact Or.inl ⟨_, by simp, rfl⟩
    | fresh =>
      obtain rfl := ih
      rfl
    | replayed =>
      obtain rfl := ih
      exact Or.inr (Or.inl rfl)
    | authorized hverdict =>
      obtain rfl := ih
      exact ⟨_, hverdict, rfl⟩
    | refused =>
      obtain rfl := ih
      exact Or.inr (Or.inr ⟨_, rfl⟩)
    | authorizerRaised =>
      obtain rfl := ih
      exact Or.inr (Or.inr ⟨_, rfl⟩)
    | applied =>
      obtain ⟨verdict, hverdict, rfl⟩ := ih
      exact ⟨verdict, hverdict, rfl⟩
    | appended =>
      obtain ⟨verdict, hverdict, rfl⟩ := ih
      exact ⟨verdict, hverdict, rfl⟩
    | responded =>
      obtain ⟨verdict, hverdict, rfl⟩ := ih
      exact ⟨verdict, hverdict, rfl⟩

theorem authentication_inj {answer answer' : Except PyError Bool}
    (h : authentication python body answer = authentication python body answer') :
    answer = answer' := by
  simpa [authentication] using h

/-- A request that is not authenticated makes no further call. -/
theorem History.unauthenticated {actions : List Action} {answer : Except PyError Bool}
    (h : History python body phase actions) (hmem : authentication python body answer ∈ actions)
    (hanswer : answer ≠ .ok true) : actions = [authentication python body answer] := by
  have hpassed : ∀ rest, (∀ action ∈ rest, ∀ answer, action ≠ authentication python body answer) →
      authentication python body answer ∉ authentication python body (.ok true) :: rest := by
    intro rest hrest hmem
    rcases List.mem_cons.mp hmem with heq | hmem
    · exact hanswer (authentication_inj heq)
    · exact hrest _ hmem answer rfl
  cases phase with
  | received =>
    obtain rfl := h
    cases hmem
  | authenticated =>
    obtain rfl := h
    exact absurd hmem (hpassed _ (by simp))
  | fresh =>
    obtain rfl := h
    exact absurd hmem (hpassed _ (by simp [authentication]))
  | authorized =>
    obtain ⟨verdict, -, rfl⟩ := h
    exact absurd hmem (hpassed _ (by simp [authentication, authorization]))
  | applied =>
    obtain ⟨verdict, -, rfl⟩ := h
    exact absurd hmem (hpassed _ (by simp [authentication, authorization]))
  | appended =>
    obtain ⟨verdict, -, rfl⟩ := h
    exact absurd hmem (hpassed _ (by simp [authentication, authorization]))
  | ended outcome =>
    have hfailed : FailedHistory python body actions →
        actions = [authentication python body answer] := by
      rintro (⟨answer', -, rfl⟩ | rfl | ⟨answer', rfl⟩)
      · rw [List.mem_singleton.mp hmem]
      · exact absurd hmem (hpassed _ (by simp [authentication]))
      · exact absurd hmem (hpassed _ (by simp [authentication, authorization]))
    cases outcome with
    | applied response =>
      obtain ⟨verdict, -, rfl⟩ := h
      exact absurd hmem (hpassed _ (by simp [authentication, authorization]))
    | failed => exact hfailed h
    | raised => exact hfailed h

theorem FailedHistory.not_written {actions : List Action} (h : FailedHistory python body actions) :
    Action.apply ∉ actions ∧ ∀ entry, Action.append entry ∉ actions := by
  rcases h with ⟨answer, -, rfl⟩ | rfl | ⟨answer, rfl⟩ <;> simp [authentication, authorization]

/-- A request that has been written has not failed. -/
theorem History.written {actions : List Action} (h : History python body phase actions)
    (hmem : Action.apply ∈ actions) : phase.Written := by
  cases phase with
  | received =>
    obtain rfl := h
    cases hmem
  | authenticated | fresh =>
    obtain rfl := h
    simp [authentication] at hmem
  | authorized =>
    obtain ⟨verdict, -, rfl⟩ := h
    simp [authentication, authorization] at hmem
  | applied | appended => trivial
  | ended outcome =>
    cases outcome with
    | applied => trivial
    | failed => exact (FailedHistory.not_written h).1 hmem
    | raised => exact (FailedHistory.not_written h).1 hmem

/-- A request that is refused has not been written. -/
theorem History.refused {actions : List Action} (h : History python body phase actions)
    (hrefused : phase.Refused) :
    Action.apply ∉ actions ∧ ∀ entry, Action.append entry ∉ actions := by
  cases phase with
  | ended outcome =>
    cases outcome with
    | applied => cases hrefused
    | failed => exact FailedHistory.not_written h
    | raised => exact FailedHistory.not_written h
  | _ => cases hrefused

end Steps

end BindingHandlers
