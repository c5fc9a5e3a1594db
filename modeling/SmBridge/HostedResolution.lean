import SmBridge.Identifiers
import SmBridge.Lib.Attempts

/-!
# Two ways to resolve a hosted agent

The switchboard and the resolve endpoint look an agent up in the same converter and ask the same
trust registry. The endpoint puts the proof that it gets into the record, and the switchboard
returns it beside the record.
-/
namespace HostedResolution

open Python
open JsonValue
open Dictionary
open Text
open Trust
open Store
open Attempts
open Identifiers
open Converter (plainPython)

/-- A converter of hosted agents. What it supplies as evidence names a profile. -/
structure AgentConverter (α : Type) where
  getAgent : String → Option α
  isPublic : α → Bool
  toSm : α → Except PyError SmAgentFacts
  /-- `none` for a converter without this method. -/
  trustEvidence : Option (α → Except PyError (Option (String × Json)))

abbrev TrustProfile := SmAgentFacts → Json → Except PyError ProofResult

structure TrustRegistry where
  profiles : Dict String TrustProfile

def TrustRegistry.verify (registry : TrustRegistry) (profileId : String) (subject : SmAgentFacts)
    (evidence : Json) : Except PyError ProofResult :=
  match registry.profiles.get profileId with
  | some profile => profile subject evidence
  | none =>
    .ok (ProofResult.notVerified profileId "dispatch"
      ("no trust profile registered for '" ++ profileId ++ "'"))

structure DelegationResolution where
  registryName : String
  resolverEndpoint : String
  agent : String
  mediaType : Option String

inductive Kind where
  | delegated
  | hosted
  deriving DecidableEq, Repr

structure SwitchboardResult where
  registry : String
  kind : Kind
  delegation : Option DelegationResolution := none
  agent : Option SmAgentFacts := none
  proof : Option ProofResult := none

/-- `entry` holds the method `delegate` of each entry-mode converter. -/
structure Switchboard (α : Type) where
  entry : Dict String (String → Except PyError DelegationResolution)
  hosting : Dict String (AgentConverter α)
  trust : Option TrustRegistry

inductive ResolveError where
  | http (status : ℕ) (detail : String)
  | raised (exc : PyError)

section Definitions

variable {α : Type} (casing : Casing) (conv : AgentConverter α)
  (trustRegistry : Option TrustRegistry)

/-- The hosted branch of `Switchboard.resolve`, once the agent is found. -/
def resolveHosted (registry : String) (internal : α) : Except PyError SwitchboardResult := do
  let facts ← conv.toSm internal
  let proof ← match trustRegistry, conv.trustEvidence with
    | some trust, some hook => do
      let supplied ← hook internal
      match supplied with
      | some (profileId, evidence) => do
        let proof ← trust.verify profileId facts evidence
        .ok (some proof)
      | none => .ok facts.proof
    | _, _ => .ok facts.proof
  .ok { registry := registry, kind := .hosted, agent := some facts, proof := proof }

def Switchboard.resolve (board : Switchboard α) (registry agent : String) :
    Except PyError SwitchboardResult :=
  match board.entry.get registry with
  | some delegate => do
    let delegation ← delegate agent
    .ok { registry := registry, kind := .delegated, delegation := some delegation }
  | none =>
    match board.hosting.get registry with
    | some conv =>
      match (conv.getAgent agent).filter conv.isPublic with
      | some internal => resolveHosted conv board.trust registry internal
      | none => .error (.keyError
          ("agent '" ++ agent ++ "' not found in hosting registry '" ++ registry ++ "'"))
    | none => .error (.keyError ("no registry '" ++ registry ++ "' on this switchboard"))

/-- What `sm_resolve` does once the agent is found. -/
def resolveInternal (internal : α) : Except PyError SmAgentFacts := do
  let facts ← conv.toSm internal
  match trustRegistry, conv.trustEvidence with
  | some trust, some hook => do
    let supplied ← hook internal
    match supplied with
    | some (profileId, evidence) => do
      let proof ← trust.verify profileId facts evidence
      .ok { facts with proof := some proof }
    | none => .ok facts
  | _, _ => .ok facts

def smResolve (registryId providerUrl agent : String) : Except ResolveError SmAgentFacts :=
  match parseAgentIdentifier casing agent registryId providerUrl with
  | none => .error (.http 400 "Agent identifier is not scoped to this registry")
  | some agentId =>
    match conv.getAgent agentId with
    | none => .error (.http 404 "Agent not found")
    | some internal =>
      if conv.isPublic internal = false then .error (.http 403 "Agent is not public")
      else (resolveInternal conv trustRegistry internal).mapError ResolveError.raised

/-- What the trust registry says about the agent, if it is asked. -/
def verdict (internal : α) (facts : SmAgentFacts) : Except PyError (Option ProofResult) :=
  match trustRegistry, conv.trustEvidence with
  | some trust, some hook => do
    let supplied ← hook internal
    match supplied with
    | some (profileId, evidence) => do
      let proof ← trust.verify profileId facts evidence
      .ok (some proof)
    | none => .ok none
  | _, _ => .ok none

/-- The record that the converter makes carries the proof that the trust registry gives. -/
def ProofKept (internal : α) : Prop :=
  ∀ facts proof, conv.toSm internal = .ok facts →
    verdict conv trustRegistry internal facts = .ok (some proof) → facts.proof = some proof

end Definitions

/-- Both calls fail, or the record of both is the same, and the proof beside it is the one in
it. -/
def Agree (result : Except PyError SwitchboardResult) (facts : Except ResolveError SmAgentFacts) :
    Prop :=
  result.toOption.map (fun r => (r.agent, r.proof)) =
    facts.toOption.map fun f => (some f, f.proof)

variable {α : Type} {casing : Casing} {conv : AgentConverter α} {board : Switchboard α}
  {trustRegistry : Option TrustRegistry} {internal : α} {facts : SmAgentFacts}

/-! ## One verdict -/

/-- The record with the proof, where there is one. -/
def attach (facts : SmAgentFacts) (verdict : Option ProofResult) : SmAgentFacts :=
  { facts with proof := verdict.or facts.proof }

/-- What follows the question to the trust registry, with a proof or without one. -/
def afterVerdict {β : Type} (conv : AgentConverter α) (trustRegistry : Option TrustRegistry)
    (internal : α) (facts : SmAgentFacts) (plain : Except PyError β)
    (proved : ProofResult → Except PyError β) : Except PyError β :=
  match trustRegistry, conv.trustEvidence with
  | some trust, some hook => do
    let supplied ← hook internal
    match supplied with
    | some (profileId, evidence) => do
      let proof ← trust.verify profileId facts evidence
      proved proof
    | none => plain
  | _, _ => plain

theorem afterVerdict_eq {β : Type} {plain : Except PyError β}
    {proved : ProofResult → Except PyError β} :
    afterVerdict conv trustRegistry internal facts plain proved =
      verdict conv trustRegistry internal facts >>= fun found => found.elim plain proved := by
  unfold afterVerdict verdict
  cases trustRegistry with
  | none => rfl
  | some trust =>
    cases conv.trustEvidence with
    | none => rfl
    | some hook =>
      dsimp only
      cases hook internal with
      | error exc => rfl
      | ok supplied =>
        cases supplied with
        | none => rfl
        | some given =>
          change (trust.verify given.1 facts given.2 >>= _) =
            (trust.verify given.1 facts given.2 >>= _) >>= _
          cases trust.verify given.1 facts given.2 <;> rfl

theorem resolveInternal_eq : resolveInternal conv trustRegistry internal =
    conv.toSm internal >>= fun facts =>
      verdict conv trustRegistry internal facts >>= fun proof => .ok (attach facts proof) := by
  have hbody : resolveInternal conv trustRegistry internal = conv.toSm internal >>= fun facts =>
      afterVerdict conv trustRegistry internal facts (.ok facts) fun proof =>
        .ok { facts with proof := some proof } := rfl
  rw [hbody]
  refine congrArg (conv.toSm internal >>= ·) (funext fun facts => ?_)
  rw [afterVerdict_eq]
  refine congrArg (verdict conv trustRegistry internal facts >>= ·) (funext fun found => ?_)
  cases found <;> rfl

theorem resolveHosted_eq (registry : String) :
    resolveHosted conv trustRegistry registry internal =
      conv.toSm internal >>= fun facts =>
        verdict conv trustRegistry internal facts >>= fun proof =>
          .ok { registry := registry, kind := .hosted, agent := some facts,
                proof := proof.or facts.proof } := by
  have hbody : resolveHosted conv trustRegistry registry internal =
      conv.toSm internal >>= fun facts =>
        afterVerdict conv trustRegistry internal facts
          (.ok { registry := registry, kind := .hosted, agent := some facts, proof := facts.proof })
          fun proof =>
            .ok { registry := registry, kind := .hosted, agent := some facts,
                  proof := some proof } := rfl
  rw [hbody]
  refine congrArg (conv.toSm internal >>= ·) (funext fun facts => ?_)
  rw [afterVerdict_eq]
  refine congrArg (verdict conv trustRegistry internal facts >>= ·) (funext fun found => ?_)
  cases found <;> rfl

theorem attach_eq_self {proof : Option ProofResult} :
    attach facts proof = facts ↔ ∀ p, proof = some p → facts.proof = some p := by
  cases proof with
  | none => simp [attach]
  | some p =>
    constructor
    · rintro h q hq
      rw [← h, ← hq]
      rfl
    · intro h
      rw [attach, Option.some_or, ← h p rfl]

/-- The two bodies agree exactly if the verdict is what the record carries. -/
theorem agree_bodies_iff (registry : String) :
    Agree (resolveHosted conv trustRegistry registry internal)
        ((resolveInternal conv trustRegistry internal).mapError ResolveError.raised) ↔
      ProofKept conv trustRegistry internal := by
  rw [resolveInternal_eq, resolveHosted_eq]
  cases hfacts : conv.toSm internal with
  | error exc =>
    refine iff_of_true rfl fun facts _ h => ?_
    cases hfacts.symm.trans h
  | ok facts =>
    have hkept : ProofKept conv trustRegistry internal ↔
        ∀ proof, verdict conv trustRegistry internal facts = .ok (some proof) →
          facts.proof = some proof := by
      constructor
      · exact fun h proof => h facts proof hfacts
      · intro h facts' proof hfacts'
        obtain rfl := Except.ok.inj (hfacts.symm.trans hfacts')
        exact h proof
    rw [hkept]
    change Agree (verdict conv trustRegistry internal facts >>= _)
      (Except.mapError _ (verdict conv trustRegistry internal facts >>= _)) ↔ _
    cases verdict conv trustRegistry internal facts with
    | error exc =>
      refine iff_of_true rfl fun proof h => ?_
      cases h
    | ok proof =>
      have hsame : (some (some facts, proof.or facts.proof) : Option _) =
          some (some (attach facts proof), (attach facts proof).proof) ↔
            attach facts proof = facts := by
        simp only [Option.some.injEq, Prod.mk.injEq]
        exact ⟨fun h => h.1.symm, fun h => ⟨h.symm, rfl⟩⟩
      refine hsame.trans (attach_eq_self.trans ?_)
      simp only [Except.ok.injEq]

section Found

variable {registry registryId providerUrl id query : String}

theorem resolve_found (hentry : board.entry.get registry = none)
    (hhosting : board.hosting.get registry = some conv)
    (hagent : conv.getAgent id = some internal) (hpublic : conv.isPublic internal = true) :
    board.resolve registry id = resolveHosted conv board.trust registry internal := by
  simp only [Switchboard.resolve, hentry, hhosting, hagent, Option.filter_some, if_pos hpublic]

theorem smResolve_found (hagent : conv.getAgent id = some internal)
    (hpublic : conv.isPublic internal = true)
    (hquery : parseAgentIdentifier casing query registryId providerUrl = some id) :
    smResolve casing conv trustRegistry registryId providerUrl query =
      (resolveInternal conv trustRegistry internal).mapError ResolveError.raised := by
  simp only [smResolve, hquery, hagent, hpublic, Bool.true_eq_false, if_false]

end Found

/-- For a public agent of a hosting converter, the switchboard and the endpoint, asked for its id
in any spelling that the endpoint reads, agree exactly if the record that the converter makes
carries the proof already. -/
theorem agree_iff (casing : Casing) (board : Switchboard α) (conv : AgentConverter α)
    (registry registryId providerUrl id query : String) (internal : α)
    (hentry : board.entry.get registry = none)
    (hhosting : board.hosting.get registry = some conv)
    (hagent : conv.getAgent id = some internal) (hpublic : conv.isPublic internal = true)
    (hquery : parseAgentIdentifier casing query registryId providerUrl = some id) :
    Agree (board.resolve registry id)
        (smResolve casing conv board.trust registryId providerUrl query) ↔
      ProofKept conv board.trust internal := by
  rw [resolve_found hentry hhosting hagent hpublic, smResolve_found hagent hpublic hquery]
  exact agree_bodies_iff registry

/-! ## A catalog with one agent -/

theorem no_field_named : ∀ field ∈ ([] : List (String × Json)), field.1 ∉ namedFields :=
  List.forall_mem_nil _

def finance : SmAgentFacts where
  id := "did:web:acme.example:agents:default:finance"
  handle := none
  proof := none
  record := []
  record_fields := no_field_named

def catalog : AgentConverter SmAgentFacts where
  getAgent id := if id = "finance" then some finance else none
  isPublic _ := true
  toSm := .ok
  trustEvidence := some fun _ => .ok (some ("ed25519-agentcard", .null))

def verdictOnFinance : ProofResult :=
  ProofResult.failed "ed25519-agentcard" "ed25519-jcs" "signature does not verify"

def trusting : TrustRegistry where
  profiles := Dict.empty.set "ed25519-agentcard" fun _ _ => .ok verdictOnFinance

def acmeBoard : Switchboard SmAgentFacts where
  entry := Dict.empty
  hosting := Dict.empty.set "acme-catalog" catalog
  trust := some trusting

theorem finance_query :
    parseAgentIdentifier asciiCasing "finance" "acme-catalog" "https://acme.example" =
      some "finance" := by
  decide +kernel

theorem agree_iff_finance :
    Agree (acmeBoard.resolve "acme-catalog" "finance")
        (smResolve asciiCasing catalog acmeBoard.trust "acme-catalog" "https://acme.example"
          "finance") ↔
      ProofKept catalog acmeBoard.trust finance :=
  agree_iff asciiCasing acmeBoard catalog "acme-catalog" "acme-catalog" "https://acme.example"
    "finance" "finance" finance rfl rfl rfl rfl finance_query

/-- The record of the switchboard lacks the proof that stands beside it. -/
theorem finance_without_proof :
    ¬ Agree (acmeBoard.resolve "acme-catalog" "finance")
        (smResolve asciiCasing catalog acmeBoard.trust "acme-catalog" "https://acme.example"
          "finance") := by
  have hboard : acmeBoard.resolve "acme-catalog" "finance" =
      resolveHosted catalog acmeBoard.trust "acme-catalog" finance :=
    resolve_found rfl rfl rfl rfl
  have hendpoint : smResolve asciiCasing catalog acmeBoard.trust "acme-catalog"
      "https://acme.example" "finance" =
        (resolveInternal catalog acmeBoard.trust finance).mapError ResolveError.raised :=
    smResolve_found rfl rfl finance_query
  rw [hboard, hendpoint, agree_bodies_iff]
  intro hkept
  cases hkept finance verdictOnFinance rfl rfl

end HostedResolution
