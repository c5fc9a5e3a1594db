import SmBridge.DelegationRules
import Mathlib.Data.List.Chain

/-!
# Who may extend a chain

The key of a hop comes with the evidence, and the issuer of a hop is never compared with the
subject of its predecessor. A chain with room below it can be extended by anyone.
-/
namespace DelegationAuthority

open Python
open Attempts
open JsonValue
open Jcs
open Es256
open Trust
open Delegation
open DelegationRules

/-! ## What a VERIFIED chain says about a hop -/

section Hops

variable {python : Interpreter} {Key : Type} {crypto : Cryptography Key}

def Points (parent cred : Json) : Prop :=
  ∃ parentPtr prevId, cred.get "parentDelegation" = .ok parentPtr ∧
    parent.item "delegationId" = .ok prevId ∧ parentPtr.eq prevId = true

/-- The signature that the evidence supplies for the hop is one of the supplied key over the
canonical bytes of the hop. -/
def SignedAsSupplied (crypto : Cryptography Key) (signatures : List (String × Json)) (cred : Json) :
    Prop :=
  ∃ did entry sigB64 signerPubkey payload raw key, cred.item "delegationId" = .ok did ∧
    Json.lookupKey signatures did = .ok (.obj entry) ∧ entry.lookup "sig_b64" = some sigB64 ∧
    entry.lookup "signer_pubkey" = some signerPubkey ∧ jcsCanonical cred = .ok payload ∧
    b64urlDecodeValue sigB64 = .ok raw ∧ raw.length = 64 ∧
    loadEcP256Public crypto signerPubkey = .ok key ∧
    crypto.verifyEcdsa key (intFromBytes (raw.take 32)) (intFromBytes (raw.drop 32))
      (signingInput headerB64 payload) = true

theorem signedAsSupplied_of_checkSignature {signatures : List (String × Json)} {cred : Json}
    (h : checkSignature python crypto signatures cred = .ok none) :
    SignedAsSupplied crypto signatures cred := by
  obtain ⟨fields, did, entry, sigB64, signerPubkey, payload, rfl, hdid, -, hentry, hsig, hkey,
    hpayload, haccepted⟩ := checkSignature_eq_none.mp h
  obtain ⟨raw, key, hraw, hlength, hload, hok⟩ := verifyEs256_eq_true.mp haccepted
  exact ⟨did, entry, sigB64, signerPubkey, payload, raw, key, Json.item_obj_of_lookup hdid, hentry,
    hsig, hkey, hpayload, hraw, hlength, hload, hok⟩

variable {providerScopes : List Json} {statusTokens : List (String × Json)} {now : ℤ}
  {nowTs : PyFloat}

theorem points_of_validateHop {parent cred : Json} {below : ℕ}
    (h : validateHop python providerScopes statusTokens now nowTs (some parent) cred below =
      .ok ()) : Points parent cred := by
  simp only [validateHop, validateLinkage, bind_eq_ok, raiseIf_eq_ok, Bool.not_eq_true',
    Bool.not_eq_false] at h
  obtain ⟨-, -, did, -, -, ⟨parentPtr, hptr, prevId, hprev, heq⟩, -⟩ := h
  exact ⟨parentPtr, prevId, hptr, hprev, heq⟩

theorem isChain_of_validateChain {parent : Json} {chain : List Json}
    (h : validateChain python providerScopes statusTokens now nowTs (some parent) chain = .ok ()) :
    List.IsChain Points (parent :: chain) := by
  induction chain generalizing parent with
  | nil => exact List.IsChain.singleton parent
  | cons cred chain ih =>
    rw [validateChain, bind_eq_ok] at h
    obtain ⟨u, hhop, htail⟩ := h
    exact List.isChain_cons_cons.mpr ⟨points_of_validateHop hhop, ih htail⟩

/-- In VERIFIED evidence of any shape, each hop after the root names its predecessor and is
signed under the key that the evidence itself supplies for it. -/
theorem verified_hop_signed (python : Interpreter) (crypto : Cryptography Key) (evidence : Json)
    (h : Verified (verify python crypto evidence)) :
    ∃ chain signatures, evidence.get "chain" = .ok (.arr chain) ∧
      evidence.get "signatures" = .ok (.obj signatures) ∧
      ∀ i (hi : i + 1 < chain.length),
        Points chain[i] chain[i + 1] ∧ SignedAsSupplied crypto signatures chain[i + 1] := by
  obtain ⟨root, rest, signatures, providerScopes, statusTokens, nowTs, now, hchain, -, hsignatures,
    -, -, -, -, hsigned, hvalid⟩ := verify_verified.mp h
  rw [validateChain, bind_eq_ok] at hvalid
  obtain ⟨u, -, hrest⟩ := hvalid
  have hlinked := List.isChain_iff_getElem.mp (isChain_of_validateChain hrest)
  exact ⟨root :: rest, signatures, hchain, hsignatures, fun i hi =>
    ⟨hlinked i hi, signedAsSupplied_of_checkSignature (hsigned _ (List.getElem_mem hi))⟩⟩

end Hops

/-! ## One more hop -/

section Extension

variable {python : Interpreter} {Key : Type} {crypto : Cryptography Key}

/-- A hop to be put below the last one, under an identifier that is not in use. -/
structure Extension (e : Evidence python) where
  cred : Credential python
  sigB64 : Json
  signerPubkey : Json
  exp : ℤ
  short : e.chain.length < 64
  newSignature : e.signatures.lookup cred.delegationId = none
  newToken : e.statusTokens.lookup cred.delegationId = none

namespace Extension

variable {e : Evidence python} (x : Extension e)

def entry : List (String × Json) := [("sig_b64", x.sigB64), ("signer_pubkey", x.signerPubkey)]

def token : List (String × Json) := [("status", .str "ACTIVE"), ("exp", .int x.exp)]

def signatures : List (String × Json) := e.signatures ++ [(x.cred.delegationId, .obj x.entry)]

def statusTokens : List (String × Json) := e.statusTokens ++ [(x.cred.delegationId, .obj x.token)]

theorem lookup_signatures {id : String} {value : Json} (h : e.signatures.lookup id = some value) :
    x.signatures.lookup id = some value := by
  rw [signatures, List.lookup_append, h, Option.some_or]

theorem lookup_statusTokens {id : String} {value : Json}
    (h : e.statusTokens.lookup id = some value) : x.statusTokens.lookup id = some value := by
  rw [statusTokens, List.lookup_append, h, Option.some_or]

theorem hasSignature : HasSignature x.signatures x.cred.delegationId x.sigB64 x.signerPubkey := by
  refine ⟨x.entry, ?_, rfl, rfl⟩
  rw [signatures, List.lookup_append, x.newSignature]
  simp

theorem isActive : IsActive x.statusTokens x.cred.delegationId x.exp := by
  refine ⟨x.token, ?_, rfl, rfl⟩
  rw [statusTokens, List.lookup_append, x.newToken]
  simp

def evidence : Evidence python where
  fields :=
    [("chain", .arr ((e.chain ++ [x.cred]).map Credential.json)),
      ("signatures", .obj x.signatures), ("status_tokens", .obj x.statusTokens),
      ("provider_scopes", .arr (e.providerScopes.map .str)), ("now", .int e.now)]
  chain := e.chain ++ [x.cred]
  signatures := x.signatures
  providerScopes := e.providerScopes
  statusTokens := x.statusTokens
  now := e.now
  chain_ne := by simp
  chain_le := by
    rw [List.length_append]
    exact Nat.succ_le_of_lt x.short
  chain_eq := rfl
  signatures_eq := rfl
  signed := by
    intro cred hcred
    rcases List.mem_append.mp hcred with hold | hnew
    · obtain ⟨sigB64, signerPubkey, entry, hentry, hsig, hkey⟩ := e.signed cred hold
      exact ⟨sigB64, signerPubkey, entry, x.lookup_signatures hentry, hsig, hkey⟩
    · obtain rfl := List.mem_singleton.mp hnew
      exact ⟨_, _, x.hasSignature⟩
  providerScopes_eq := rfl
  statusTokens_eq := rfl
  tokens := by
    intro cred hcred value hvalue
    rw [statusTokens, List.lookup_append] at hvalue
    cases hlookup : e.statusTokens.lookup cred.delegationId with
    | some old =>
      rcases List.mem_append.mp hcred with hold | hnew
      · rw [hlookup, Option.some_or, Option.some.injEq] at hvalue
        exact hvalue ▸ e.tokens cred hold old hlookup
      · obtain rfl := List.mem_singleton.mp hnew
        exact absurd (x.newToken.symm.trans hlookup) (by simp)
    | none =>
      rw [hlookup, Option.none_or, List.lookup_cons] at hvalue
      split at hvalue
      · exact ⟨x.token, x.exp, (Option.some.inj hvalue).symm, rfl⟩
      · cases hvalue
  now_eq := rfl

/-- What is asked of the new hop: nothing about its issuer or about whose key signed it. -/
structure Fits (crypto : Cryptography Key) : Prop where
  room : ∀ i (h : i < e.chain.length), (e.chain.length : ℤ) - i ≤ e.chain[i].maxDepth
  wellFormed : WellFormed x.cred
  linked : ∀ last ∈ e.chain.getLast?, x.cred.parent = some last.delegationId
  within : ∀ last ∈ e.chain.getLast?, Within last x.cred
  current : x.cred.issued ≤ e.now * 10 ^ 6 ∧ e.now * 10 ^ 6 < x.cred.expires
  fresh : e.now ≤ x.exp ∧ Floatable x.exp
  accepted : ∃ payload, jcsCanonical (.obj x.cred.fields) = .ok payload ∧
    verifyEs256 crypto headerB64 payload x.sigB64 x.signerPubkey = true

end Extension

/-- A VERIFIED chain with room below it stays VERIFIED with any hop that fits, whoever signs
that hop. -/
theorem verified_extension {e : Evidence python} {x : Extension e}
    (h : Verified (verify python crypto e.json)) (hfits : x.Fits crypto) :
    Verified (verify python crypto x.evidence.json) := by
  obtain ⟨root, rest, hchain⟩ := List.exists_cons_of_ne_nil e.chain_ne
  obtain ⟨hrules, hyear, hfloat⟩ := verified_iff.mp h
  obtain ⟨haccepted, hsound, hbudget, hroot, hprovided, hfollows⟩ :=
    (rules_iff hchain).mp ⟨hrules, hfloat⟩
  have hchain' : x.evidence.chain = root :: (rest ++ [x.cred]) := by
    change e.chain ++ [x.cred] = _
    rw [hchain, List.cons_append]
  suffices hloop : Rules crypto x.evidence ∧ ExpsFloatable x.evidence from
    verified_iff.mpr ⟨hloop.1, hyear, hloop.2⟩
  refine (rules_iff hchain').mpr ⟨?_, ?_, ?_, hroot, hprovided, ?_⟩
  · intro cred hcred
    rcases List.mem_append.mp hcred with hold | hnew
    · obtain ⟨sigB64, signerPubkey, payload, ⟨entry, hentry, hsig, hkey⟩, hok⟩ :=
        haccepted cred hold
      exact ⟨sigB64, signerPubkey, payload, ⟨entry, x.lookup_signatures hentry, hsig, hkey⟩, hok⟩
    · obtain rfl := List.mem_singleton.mp hnew
      obtain ⟨payload, hpayload, hok⟩ := hfits.accepted
      exact ⟨_, _, payload, x.hasSignature, hpayload, hok⟩
  · intro cred hcred
    rcases List.mem_append.mp hcred with hold | hnew
    · obtain ⟨hformed, ⟨exp, ⟨token, htoken, hactive⟩, hfresh⟩, hcurrent⟩ := hsound cred hold
      exact ⟨hformed, ⟨exp, ⟨token, x.lookup_statusTokens htoken, hactive⟩, hfresh⟩, hcurrent⟩
    · obtain rfl := List.mem_singleton.mp hnew
      exact ⟨hfits.wellFormed, ⟨x.exp, x.isActive, hfits.fresh⟩, hfits.current⟩
  · intro i hi
    change i < (e.chain ++ [x.cred]).length at hi
    change ((e.chain ++ [x.cred]).length : ℤ) - 1 - i ≤ (e.chain ++ [x.cred])[i].maxDepth
    simp only [List.length_append, List.length_singleton] at hi ⊢
    by_cases hold : i < e.chain.length
    · have hroom := hfits.room i hold
      rw [List.getElem_append_left hold]
      omega
    · have hdepth := hfits.wellFormed.maxDepth
      rw [List.getElem_append_right (by omega), List.getElem_singleton]
      omega
  · refine List.isChain_append.mpr ⟨hfollows, List.IsChain.singleton _, ?_⟩
    intro last hlast cred hcred
    obtain rfl := Option.some.inj hcred
    exact ⟨hfits.linked last hlast, hfits.within last hlast⟩

end Extension

/-! ## Alice's chain in Mallory's hands -/

def aliceKey : ℕ × ℕ :=
  (3674564914734238612018029308877056121380894535437889229003767819146576294677,
    70461278272307688792358744612641864727993679967924545757638935867611667756704)

def malloryKey : ℕ × ℕ :=
  (104808272292837742967537070368129155341136191105468713572018360491826887078669,
    101854441862415835192016331323265364965457366350189158719313059467471125897588)

def malloryDid : String := "did:key:zDnaeg2VQXhXzzW7S1VGY6hLD8zgvL4Ehq5GBFtFP6yimvgBe"

/-- Mallory passes on to herself what the provider gave to Alice. -/
def malloryFields : List (String × Json) :=
  [("delegationId", .str "d-child"), ("schemaVersion", .str "DELEGATION-V1"),
    ("issuer", .obj [("ansName", .str "mallory.ans"), ("agentId", .str "agent-mallory"),
      ("did", .str malloryDid)]),
    ("subject", .obj [("did", .str malloryDid)]), ("scopes", .arr [.str "mail.send"]),
    ("issuedAt", .str "2027-01-15T00:00:00Z"), ("expiresAt", .str "2027-01-16T00:00:00Z"),
    ("maxRedelegationDepth", .int 0), ("parentDelegation", .str "d-root")]

def malloryPayload : Bytes := (jcsCanonical (.obj malloryFields)).toOption.getD []

def mallorySignature : ℕ × ℕ :=
  (62314710304241953758688256725269618791310892001025292216226694914389089604132,
    9675105082126176563261286248051763769393828292995861211790893414409346999017)

/-- The curve, with both signatures that were made. Alice made none. -/
def malloryCurve : Cryptography (ℕ × ℕ) :=
  recordedCurve [providerKey, aliceKey, malloryKey]
    [(providerKey, rootSignature.1, rootSignature.2, signingInput headerB64 rootPayload),
      (malloryKey, mallorySignature.1, mallorySignature.2, signingInput headerB64 malloryPayload)]

def malloryCredential : Credential isoPython where
  fields := malloryFields
  delegationId := "d-child"
  subjectDid := some malloryDid
  scopes := ["mail.send"]
  maxDepth := 0
  parent := some "d-root"
  issued := 1799971200000000
  expires := 1800057600000000
  delegationId_eq := rfl
  subjectDid_eq := ⟨_, rfl, rfl⟩
  scopes_eq := rfl
  maxDepth_eq := rfl
  parent_eq := rfl
  window_eq := by decide +kernel

def malloryHop : Extension (singleHop 1800003600) where
  cred := malloryCredential
  sigB64 := .str (wireSignature mallorySignature.1 mallorySignature.2)
  signerPubkey := jwk malloryKey.1 malloryKey.2
  exp := 1800003600
  short := by decide
  newSignature := rfl
  newToken := rfl

theorem malloryPayload_eq : jcsCanonical (.obj malloryFields) = .ok malloryPayload :=
  eq_ok_of_isSome (by decide +kernel) []

theorem malloryKey_loaded :
    loadEcP256Public malloryCurve (jwk malloryKey.1 malloryKey.2) = .ok malloryKey :=
  loadEcP256Public_jwk (by decide +kernel) (by decide +kernel)
    (by simp [malloryCurve, recordedCurve]) rfl

theorem singleHop_verified :
    Verified (verify isoPython malloryCurve (singleHop 1800003600).json) := by
  have haccepted : Accepted malloryCurve [("d-root", rootEntry)] rootFields "d-root" :=
    accepted_of_recorded rfl rootPayload_eq (by simp) (by simp) (by decide +kernel)
      (by decide +kernel) (by decide +kernel) (by decide +kernel)
  have hyear : InYearRange 1800000000 := by simp [InYearRange, minSeconds, maxSeconds]
  have hfloat : Floatable 1800003600 := floatable_of_lt (by decide)
  exact verified_iff.mpr
    ⟨singleHop_rules haccepted (by norm_num), hyear, expsFloatable_singleHop.mpr hfloat⟩

theorem malloryHop_fits : malloryHop.Fits malloryCurve where
  room := by
    intro i hi
    obtain rfl : i = 0 := by simpa [singleHop] using hi
    simp [singleHop, rootCredential]
  wellFormed := ⟨by decide, rfl, ⟨_, rfl, by decide⟩, by decide, by decide, by decide⟩
  linked := by
    intro last hlast
    obtain rfl : rootCredential = last := Option.some.inj hlast
    rfl
  within := by
    intro last hlast
    obtain rfl : rootCredential = last := Option.some.inj hlast
    refine ⟨fun c hc => ⟨"mail", List.mem_singleton.mpr rfl, ?_⟩, le_rfl, le_rfl⟩
    rw [List.mem_singleton.mp hc, Covers, scopeCovers_str]
    decide +kernel
  current := by simp [malloryHop, malloryCredential, singleHop]
  fresh := ⟨by simp [malloryHop, singleHop], floatable_of_lt (by decide)⟩
  accepted := by
    refine ⟨malloryPayload, malloryPayload_eq, ?_⟩
    rw [malloryHop, verifyEs256_wireSignature (by decide +kernel) (by decide +kernel)
      malloryKey_loaded]
    simp [malloryCurve, recordedCurve]

theorem verified_hop_signed_mallory :
    ∃ chain signatures, malloryHop.evidence.json.get "chain" = .ok (.arr chain) ∧
      malloryHop.evidence.json.get "signatures" = .ok (.obj signatures) ∧
      ∀ i (hi : i + 1 < chain.length),
        Points chain[i] chain[i + 1] ∧ SignedAsSupplied malloryCurve signatures chain[i + 1] :=
  verified_hop_signed isoPython malloryCurve malloryHop.evidence.json
    (verified_extension singleHop_verified malloryHop_fits)

def issuerDid (cred : Json) : Option Json := (cred.get? "issuer").bind (Json.get? "did")
def subjectDid (cred : Json) : Option Json := (cred.get? "subject").bind (Json.get? "did")

/-- Mallory's hop below Alice's credential is VERIFIED. Its issuer is not Alice, and the key it
is accepted under is not the one that Alice's DID denotes. -/
theorem mallory_extends_verified :
    Verified (verify isoPython malloryCurve malloryHop.evidence.json) ∧
      malloryHop.evidence.chain = [rootCredential, malloryCredential] ∧
      issuerDid malloryCredential.json ≠ subjectDid rootCredential.json ∧
      ∃ did, subjectDid rootCredential.json = some (.str did) ∧
        loadEcP256Public malloryCurve (.str did) = .ok aliceKey ∧
        HasSignature malloryHop.evidence.signatures "d-child" malloryHop.sigB64
          malloryHop.signerPubkey ∧
        loadEcP256Public malloryCurve malloryHop.signerPubkey = .ok malloryKey ∧
        malloryKey ≠ aliceKey := by
  refine ⟨verified_extension singleHop_verified malloryHop_fits, rfl, ?_, _, rfl, ?_,
    malloryHop.hasSignature, malloryKey_loaded, by decide⟩
  · intro h
    have hdid := Json.str.inj (Option.some.inj h)
    exact absurd hdid (by decide)
  · decide +kernel

end DelegationAuthority
