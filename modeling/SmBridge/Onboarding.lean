import SmBridge.Json
import SmBridge.Lib.Dict
import SmBridge.ProofResult

/-!
# Onboarding a registry-scale source

A source joins as one entry. Its attestation is verified when it joins, and the outcome is
stamped into the entry. The profiles of the trust registry are parameters.
-/
namespace Onboarding

open Python
open JsonValue
open Dictionary
open Trust

inductive ConformanceLevel where
  | basic
  | auditable
  | witnessed
  deriving DecidableEq, Repr

def conformanceLevel (hasLiveTlog checkpointVerifies : Bool) : ConformanceLevel :=
  if hasLiveTlog ∧ checkpointVerifies then .auditable else .basic

structure RegistryEntry where
  registryName : String
  displayName : Option String := none
  resolverEndpoint : String
  mediaType : Option String := none
  tlCheckpoint : Option String := none
  rootKeys : List String := []
  lastAudited : Option ℤ := none
  conformanceLevel : ConformanceLevel := .basic
  trustProfile : Option String := none
  metadata : List (String × Json) := []
  proof : Option ProofResult := none

/-- The entry carries a VERIFIED proof. -/
def Stamped (entry : RegistryEntry) : Prop :=
  ∃ proof, entry.proof = some proof ∧ proof.status = .verified

/-- What a profile answers about a subject and its evidence. -/
abbrev TrustProfile := RegistryEntry → Json → Except PyError ProofResult

structure TrustRegistry where
  profiles : Dict String TrustProfile

def TrustRegistry.verify (registry : TrustRegistry) (profileId : String) (subject : RegistryEntry)
    (evidence : Json) : Except PyError ProofResult :=
  match registry.profiles.get profileId with
  | some profile => profile subject evidence
  | none =>
    .ok (ProofResult.notVerified profileId "dispatch"
      ("no trust profile registered for '" ++ profileId ++ "'"))

/-- A converter whose object has the state `σ`. An admission that returns has stamped the
entry. -/
structure EntryModeConverter (σ : Type) where
  toEntry : σ → RegistryEntry
  /-- `none` for a converter without this method. -/
  admit_ : Option (TrustRegistry → Bool → σ → σ × Except PyError ProofResult)
  stamps : ∀ method ∈ admit_, ∀ registry required state state' proof,
    method registry required state = (state', .ok proof) → (toEntry state').proof = some proof

/-! ## ANS registries -/

structure ANSEntryConverter where
  registryName : String
  resolverEndpoint : String
  displayName : Option String
  tlCheckpoint : Option String
  rootKeys : List String
  mediaType : String
  trustProfile : String
  metadata : List (String × Json)
  admissionEvidence : Option Json
  proof : Option ProofResult

namespace ANSEntryConverter

def new (registryName resolverEndpoint : String) (displayName tlCheckpoint : Option String)
    (rootKeys : List String) (mediaType trustProfile : String) (metadata : List (String × Json))
    (admissionEvidence : Option Json) : ANSEntryConverter :=
  { registryName, resolverEndpoint := rstrip '/' resolverEndpoint, displayName, tlCheckpoint,
    rootKeys, mediaType, trustProfile, metadata, admissionEvidence, proof := none }

def toEntry (self : ANSEntryConverter) (checkpointVerifies : Bool := false) : RegistryEntry where
  registryName := self.registryName
  displayName := self.displayName
  resolverEndpoint := self.resolverEndpoint
  mediaType := some self.mediaType
  tlCheckpoint := self.tlCheckpoint
  rootKeys := self.rootKeys
  conformanceLevel := conformanceLevel
    (self.tlCheckpoint.getD "" ≠ "" ∧ self.rootKeys ≠ []) checkpointVerifies
  trustProfile := some self.trustProfile
  metadata := self.metadata
  proof := self.proof

/-- The check that an admission makes. -/
def attest (registry : TrustRegistry) (self : ANSEntryConverter) : Except PyError ProofResult :=
  match self.admissionEvidence with
  | some evidence =>
    if self.trustProfile = "" then .ok unattested
    else registry.verify self.trustProfile self.toEntry evidence
  | none => .ok unattested
where
  unattested : ProofResult :=
    ProofResult.notVerified (if self.trustProfile = "" then "entry" else self.trustProfile)
      "admission" "no admission evidence supplied; source joined unattested"

def admit_ (registry : TrustRegistry) (requireVerified : Bool) (self : ANSEntryConverter) :
    ANSEntryConverter × Except PyError ProofResult :=
  match attest registry self with
  | .error e => (self, .error e)
  | .ok proof =>
    if requireVerified ∧ proof.status ≠ .verified then
      (self, .error (.other "AdmissionError" ("registry '" ++ self.registryName ++
        "' failed admission verification: " ++ proof.failureReason.getD "None")))
    else ({ self with proof := some proof }, .ok proof)

theorem admit_eq_ok {registry : TrustRegistry} {requireVerified : Bool}
    {self self' : ANSEntryConverter} {proof : ProofResult}
    (h : admit_ registry requireVerified self = (self', .ok proof)) :
    self'.proof = some proof ∧ (requireVerified = true → proof.status = .verified) := by
  rw [admit_] at h
  split at h
  · cases h
  · split at h
    · cases h
    · rename_i hverified
      obtain ⟨rfl, hproof⟩ := Prod.mk.inj h
      obtain rfl := Except.ok.inj hproof
      refine ⟨rfl, fun hrequired => ?_⟩
      by_contra hstatus
      exact hverified ⟨hrequired, hstatus⟩

end ANSEntryConverter

def ansEntryConverter : EntryModeConverter ANSEntryConverter where
  toEntry self := self.toEntry
  admit_ := some ANSEntryConverter.admit_
  stamps method hmethod registry required state state' proof h := by
    obtain rfl := Option.some.inj hmethod
    exact (ANSEntryConverter.admit_eq_ok h).1

end Onboarding
