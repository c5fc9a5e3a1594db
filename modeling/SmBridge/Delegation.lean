import SmBridge.Jcs
import SmBridge.Es256
import SmBridge.ProofResult

/-!
# The delegation profile

The chain comes root first. Each hop is checked against its predecessor only, and the first
rule that is broken ends the check.
-/
namespace Delegation

open Python
open Attempts
open JsonValue
open Jcs
open Es256
open Trust

def schemaVersion : String := "DELEGATION-V1"

def jwsHeader : Json := .obj [("alg", .str "ES256"), ("typ", .str "delegation+jws")]

def headerB64 : String := b64url ((jcsCanonical jwsHeader).toOption.getD [])

example : headerB64 = "eyJhbGciOiJFUzI1NiIsInR5cCI6ImRlbGVnYXRpb24randzIn0" := by
  decide +kernel

/-! ## Scopes -/

/-- `t == s or t.startswith(s + ".")` -/
def scopeCovers (s t : Json) : Except PyError Bool :=
  if t.eq s then .ok true
  else
    match t, s with
    | .str t, .str s => .ok ((s.toList ++ ['.']).isPrefixOf t.toList)
    | .str _, .arr _ => .error (.typeError "can only concatenate list (not \"str\") to list")
    | .str _, s =>
      .error (.typeError ("unsupported operand type(s) for +: '" ++ s.typeName ++ "' and 'str'"))
    | t, _ =>
      .error (.attributeError ("'" ++ t.typeName ++ "' object has no attribute 'startswith'"))

def anyCovers (c : Json) : List Json → Except PyError Bool
  | [] => .ok false
  | p :: ps => do
    if ← scopeCovers p c then .ok true else anyCovers c ps

def firstUncovered (parentScopes : Json) : List Json → Except PyError (Option Json)
  | [] => .ok none
  | c :: cs => do
    let ps ← parentScopes.elements
    if ← anyCovers c ps then firstUncovered parentScopes cs else .ok (some c)

def scopeSubset (childScopes parentScopes : Json) : Except PyError (Option Json) := do
  firstUncovered parentScopes (← childScopes.elements)

/-! ## Rule failures -/

def chainError (reason : String) : PyError := .other "_ChainError" reason

/-- `except _ChainError as exc`, for `str(exc)`. -/
def chainReason? : PyError → Option String
  | .other name reason => if name = "_ChainError" then some reason else none
  | _ => none

/-- `if broken: raise _ChainError(reason)` -/
def raiseIf (broken : Prop) [Decidable broken] (reason : String) : Except PyError Unit :=
  if broken then .error (chainError reason) else .ok ()

@[simp] theorem raiseIf_eq_ok {broken : Prop} [Decidable broken] {reason : String} {u : Unit} :
    raiseIf broken reason = .ok u ↔ ¬ broken := by
  rw [raiseIf]
  split <;> simp [*]

section Definitions

variable (python : Interpreter)

/-! ## Validity windows -/

/-- A final `Z`, and with it every other, is spelled as an offset. Without an offset the time
is UTC. -/
def parseRfc3339 (value : Json) : Except PyError ℤ :=
  match value with
  | .str s =>
    let normalized :=
      if s.toList.getLast? = some 'Z' then
        String.ofList (s.toList.flatMap fun c => if c = 'Z' then "+00:00".toList else [c])
      else s
    match python.fromIsoFormat normalized with
    | .error text => .error (.valueError text)
    | .ok (fields, offset) => .ok (fields - offset.getD 0)
  | value =>
    .error (.attributeError ("'" ++ value.typeName ++ "' object has no attribute 'endswith'"))

def window (cred : Json) : Except PyError (ℤ × ℤ) := do
  let issued ← parseRfc3339 python (← cred.item "issuedAt")
  let expires ← parseRfc3339 python (← cred.item "expiresAt")
  .ok (issued, expires)

/-- `except (KeyError, ValueError)` around the window. -/
def structureWindow (cred : Json) : Except PyError (ℤ × ℤ) :=
  let bad (text : String) : PyError :=
    chainError ("malformed credential: bad validity window (" ++ text ++ ")")
  match window python cred with
  | .error (.keyError key) => .error (bad (python.repr (.str key)))
  | .error (.valueError text) => .error (bad text)
  | .error e => .error e
  | .ok times => .ok times

/-! ## Rules -/

def maxRedelegationDepth (cred : Json) : Except PyError ℤ := do
  python.int (← cred.getD "maxRedelegationDepth" (.int 0))

def validateStructure (cred : Json) : Except PyError Unit := do
  raiseIf (!(← cred.get "delegationId").truthy) "malformed credential: delegationId empty"
  let version ← cred.get "schemaVersion"
  raiseIf (!version.eq (.str schemaVersion))
    ("malformed credential: schemaVersion " ++ python.repr version ++ " (want " ++
      python.repr (.str schemaVersion) ++ ")")
  let subject ← cred.getD "subject" (.obj [])
  raiseIf (!(← subject.get "did").truthy) "malformed credential: subject.did empty"
  raiseIf (!(← cred.get "scopes").truthy) "malformed credential: scopes empty"
  raiseIf ((← maxRedelegationDepth python cred) < 0)
    "malformed credential: maxRedelegationDepth negative"
  let (issued, expires) ← structureWindow python cred
  raiseIf (¬ expires > issued) "malformed credential: expiresAt not after issuedAt"

def validateLinkage (parent : Option Json) (cred did : Json) : Except PyError Unit := do
  let parentPtr ← cred.get "parentDelegation"
  match parent with
  | none =>
    raiseIf (!parentPtr.isNull)
      ("chain parentDelegation linkage broken: root credential " ++ python.str did ++
        " has parentDelegation " ++ python.repr parentPtr)
  | some parent =>
    let prevId ← parent.item "delegationId"
    raiseIf (!parentPtr.eq prevId)
      ("chain parentDelegation linkage broken: credential " ++ python.str did ++
        " does not point at parent " ++ python.str prevId)

/-- `exp is None or float(exp) < now_ts` -/
def expired (exp : Json) (nowTs : PyFloat) : Except PyError Bool :=
  if exp.isNull then .ok true
  else do
    let x ← python.float exp
    .ok (x.lt nowTs)

/-- The check of `status != "ACTIVE"`. A credential has been serialized when its values come into
a message, which takes a deeper recursion than `repr`; the status token has not. -/
def requireActive (did status : Json) : Except PyError Unit :=
  if status.eq (.str "ACTIVE") then .ok ()
  else do
    let text ← python.rendered status
    .error (chainError ("stale status token: " ++ python.str did ++ " status " ++ text ++
      " is not ACTIVE"))

def validateToken (statusTokens : List (String × Json)) (did : Json) (nowTs : PyFloat) :
    Except PyError Unit := do
  let tok ← Json.lookupKey statusTokens did
  raiseIf tok.isNull ("stale status token: no status token for " ++ python.str did)
  let status ← tok.get "status"
  raiseIf (status.eq (.str "REVOKED"))
    ("revoked credential in chain: " ++ python.str did ++ " (chain broken)")
  requireActive python did status
  let exp ← tok.get "exp"
  if ← expired python exp nowTs then
    .error (chainError ("stale status token: " ++ python.str did ++ " exp " ++ python.str exp ++
      " < now " ++ toString (← nowTs.toInt)))
  else .ok ()

/-- `cred[key]` in a message, where it is known to be there. -/
def shown (cred : Json) (key : String) : String := python.str ((cred.get? key).getD .null)

def validateScopes (providerScopes : List Json) (parent : Option Json) (cred did : Json) :
    Except PyError Unit := do
  let scopes ← cred.item "scopes"
  match parent with
  | none =>
    match ← scopeSubset scopes (.arr providerScopes) with
    | none => .ok ()
    | some uncovered =>
      .error (chainError ("scope escalation: " ++ python.repr uncovered ++
        " not covered by provider scopes"))
  | some parent =>
    match ← scopeSubset scopes (← parent.item "scopes") with
    | none => .ok ()
    | some uncovered =>
      .error (chainError ("scope escalation: " ++ python.repr uncovered ++ " of " ++
        python.str did ++ " not covered by parent " ++ shown python parent "delegationId" ++
        " scopes"))

def validateNesting (parent : Option Json) (cred did : Json) (issued expires : ℤ) :
    Except PyError Unit :=
  match parent with
  | none => .ok ()
  | some parent => do
    let (parentIssued, parentExpires) ← window python parent
    raiseIf (issued < parentIssued ∨ expires > parentExpires)
      ("child validity window not nested in parent window: " ++ python.str did ++ " [" ++
        shown python cred "issuedAt" ++ ", " ++ shown python cred "expiresAt" ++
        "] not inside parent " ++ shown python parent "delegationId" ++ " [" ++
        shown python parent "issuedAt" ++ ", " ++ shown python parent "expiresAt" ++ "]")

variable (providerScopes : List Json) (statusTokens : List (String × Json)) (now : ℤ)
  (nowTs : PyFloat)

/-- One turn of the loop: the hop after `parent`, with `below` more hops to come. -/
def validateHop (parent : Option Json) (cred : Json) (below : ℕ) : Except PyError Unit := do
  validateStructure python cred
  let did ← cred.item "delegationId"
  validateLinkage python parent cred did
  validateToken python statusTokens did nowTs
  let (issued, expires) ← window python cred
  raiseIf (now < issued ∨ ¬ now < expires)
    ("credential outside its validity window at evaluation time: " ++ python.str did ++
      " (window " ++ shown python cred "issuedAt" ++ " .. " ++ shown python cred "expiresAt" ++
      ", now " ++ python.isoFormat now ++ ")")
  let maxDepth ← maxRedelegationDepth python cred
  raiseIf (below > maxDepth)
    ("redelegation depth exceeded: credential " ++ python.str did ++ " allows depth " ++
      toString maxDepth ++ " but has " ++ toString below ++ " redelegation(s) below it")
  validateScopes python providerScopes parent cred did
  validateNesting python parent cred did issued expires

/-- `_validate_chain`, from the hop after `parent` on. -/
def validateChain (parent : Option Json) : List Json → Except PyError Unit
  | [] => .ok ()
  | cred :: rest => do
    validateHop python providerScopes statusTokens now nowTs parent cred rest.length
    validateChain (some cred) rest

/-! ## The profile -/

def profileId : String := "nanda-delegation"
def method : String := "delegation-chain"
def maxChain : ℕ := 64

def failed (reason : String) : ProofResult := ProofResult.failed profileId method reason
def notVerified (reason : String) : ProofResult := ProofResult.notVerified profileId method reason

variable {Key : Type} (crypto : Cryptography Key)

section Serializer

variable (canonical : Json → Except PyError Bytes)

/-- The signature of one credential, with `canonical` as its serializer: `none` if it is
accepted, and the result that ends the check otherwise. -/
def checkSignatureBy (signatures : List (String × Json)) (cred : Json) :
    Except PyError (Option ProofResult) :=
  match cred with
  | .obj fields => do
    let did := (fields.lookup "delegationId").getD .null
    if !did.truthy then .ok (some (failed "malformed credential: delegationId empty"))
    else
      let noMaterial := notVerified ("no signature material for credential " ++ python.str did)
      match ← Json.lookupKey signatures did with
      | .obj entry =>
        match entry.lookup "sig_b64", entry.lookup "signer_pubkey" with
        | some sigB64, some signerPubkey =>
          let payload ← canonical (.obj fields)
          if !verifyEs256 crypto headerB64 payload sigB64 signerPubkey then
            .ok (some (failed ("forged signature: JWS verification failed for credential " ++
              python.str did)))
          else .ok none
        | _, _ => .ok (some noMaterial)
      | _ => .ok (some noMaterial)
  | _ => .ok (some (failed "malformed credential: delegationId empty"))

def checkSignaturesBy (signatures : List (String × Json)) :
    List Json → Except PyError (Option ProofResult)
  | [] => .ok none
  | cred :: rest => do
    match ← checkSignatureBy python crypto canonical signatures cred with
    | some result => .ok (some result)
    | none => checkSignaturesBy signatures rest

def verifyChainBy (root : Json) (rest : List Json) (signatures : List (String × Json)) :
    Except PyError ProofResult := do
  match ← checkSignaturesBy python crypto canonical signatures (root :: rest) with
  | some result => .ok result
  | none =>
    match validateChain python providerScopes statusTokens now nowTs none (root :: rest) with
    | .error e =>
      -- only `_ChainError` is caught; any other exception leaves `verify`
      match chainReason? e with
      | some reason => .ok (failed reason)
      | none => .error e
    | .ok () =>
      let rootId ← root.item "delegationId"
      ProofResult.verified profileId method ("deleg:" ++ python.str rootId)

def statusTokensOf : Json → List (String × Json)
  | .obj tokens => tokens
  | _ => []

def nowTimestamp (evidence : Json) : Except PyError PyFloat :=
  match evidence.get? "now" with
  | some now => python.float now
  | none => .ok python.time

def verifyBy (evidence : Json) : Except PyError ProofResult := do
  match ← evidence.get "chain" with
  | .arr (root :: rest) =>
    if (root :: rest).length > maxChain then
      .ok (failed ("delegation chain length " ++ toString (root :: rest).length ++
        " exceeds cap " ++ toString maxChain ++ " (DoS guard)"))
    else
      match ← evidence.get "signatures" with
      | .obj signatures =>
        match ← evidence.get "provider_scopes" with
        | .arr providerScopes =>
          let statusTokens := statusTokensOf (← evidence.get "status_tokens")
          let nowTs ← nowTimestamp python evidence
          let now ← fromTimestamp nowTs
          verifyChainBy python providerScopes statusTokens now nowTs crypto canonical root rest
            signatures
        | _ => .ok (notVerified "no provider_scopes supplied to anchor issuance coverage")
      | _ => .ok (notVerified "no signatures supplied for delegation chain")
  | _ => .ok (notVerified "no delegation chain supplied")

end Serializer

abbrev checkSignature := checkSignatureBy python crypto jcsCanonical

abbrev checkSignatures := checkSignaturesBy python crypto jcsCanonical

abbrev verifyChain :=
  verifyChainBy python providerScopes statusTokens now nowTs crypto jcsCanonical

/-- `NandaDelegationProfile.verify`, for values that can be serialized up to their floats. -/
abbrev verify := verifyBy python crypto jcsCanonical

end Definitions

/-! ## VERIFIED evidence -/

variable {python : Interpreter} {providerScopes : List Json} {statusTokens : List (String × Json)}
  {now : ℤ} {nowTs : PyFloat} {Key : Type} {crypto : Cryptography Key}
  {signatures : List (String × Json)} {canonical : Json → Except PyError Bytes}

@[simp] theorem failed_status (reason : String) : (failed reason).status = .failed := rfl

@[simp] theorem notVerified_status (reason : String) :
    (notVerified reason).status = .notVerified := rfl

theorem checkSignature_eq_none {cred : Json} :
    checkSignatureBy python crypto canonical signatures cred = .ok none ↔
      ∃ fields did entry sigB64 signerPubkey payload, cred = .obj fields ∧
        fields.lookup "delegationId" = some did ∧ did.truthy = true ∧
        Json.lookupKey signatures did = .ok (.obj entry) ∧
        entry.lookup "sig_b64" = some sigB64 ∧ entry.lookup "signer_pubkey" = some signerPubkey ∧
        canonical cred = .ok payload ∧
        verifyEs256 crypto headerB64 payload sigB64 signerPubkey = true := by
  constructor
  · intro h
    cases cred with
    | obj fields =>
      rw [checkSignatureBy] at h
      by_cases hid : ((fields.lookup "delegationId").getD .null).truthy = true
      · obtain ⟨did, hdid⟩ : ∃ did, fields.lookup "delegationId" = some did := by
          cases hlookup : fields.lookup "delegationId" with
          | none => simp [hlookup, Json.truthy] at hid
          | some did => exact ⟨did, rfl⟩
        rw [hdid, Option.getD_some] at h hid
        simp only [hid, Bool.not_true, Bool.false_eq_true, if_false, bind_eq_ok] at h
        obtain ⟨value, hentry, h⟩ := h
        split at h
        · rename_i entry
          split at h
          · rename_i sigB64 signerPubkey hsig hkey
            obtain ⟨payload, hpayload, h⟩ := bind_eq_ok.mp h
            cases haccepted : verifyEs256 crypto headerB64 payload sigB64 signerPubkey with
            | true =>
              exact ⟨fields, did, entry, sigB64, signerPubkey, payload, rfl, hdid, hid, hentry,
                hsig, hkey, hpayload, haccepted⟩
            | false => simp [haccepted] at h
          · cases h
        · cases h
      · simp [hid] at h
    | _ => cases h
  · rintro ⟨fields, did, entry, sigB64, signerPubkey, payload, rfl, hdid, hid, hentry, hsig, hkey,
      hpayload, haccepted⟩
    simp [checkSignatureBy, hdid, hid, hentry, hsig, hkey, hpayload, haccepted, bind, Except.bind]

theorem checkSignature_some {cred : Json} {result : ProofResult}
    (h : checkSignatureBy python crypto canonical signatures cred = .ok (some result)) :
    result.status ≠ .verified := by
  cases cred with
  | obj fields =>
    rw [checkSignatureBy] at h
    split at h
    · cases h
      simp
    obtain ⟨value, -, h⟩ := bind_eq_ok.mp h
    split at h
    · split at h
      · obtain ⟨payload, -, h⟩ := bind_eq_ok.mp h
        split at h
        · cases h
          simp
        · cases h
      · cases h
        simp
    · cases h
      simp
  | _ =>
    cases h
    simp

theorem checkSignatures_eq_none {creds : List Json} :
    checkSignaturesBy python crypto canonical signatures creds = .ok none ↔
      ∀ cred ∈ creds, checkSignatureBy python crypto canonical signatures cred = .ok none := by
  induction creds with
  | nil => simp [checkSignaturesBy]
  | cons cred creds ih =>
    rw [checkSignaturesBy, bind_eq_ok, List.forall_mem_cons, ← ih]
    constructor
    · rintro ⟨outcome, hcred, hrest⟩
      cases outcome with
      | none => exact ⟨hcred, hrest⟩
      | some result => cases hrest
    · rintro ⟨hcred, hrest⟩
      exact ⟨none, hcred, hrest⟩

theorem checkSignatures_some {creds : List Json} {result : ProofResult}
    (h : checkSignaturesBy python crypto canonical signatures creds = .ok (some result)) :
    result.status ≠ .verified := by
  induction creds with
  | nil => cases h
  | cons cred creds ih =>
    rw [checkSignaturesBy, bind_eq_ok] at h
    obtain ⟨outcome, hcred, hrest⟩ := h
    cases outcome with
    | none => exact ih hrest
    | some result' =>
      obtain rfl : result' = result := Option.some.inj (Except.ok.inj hrest)
      exact checkSignature_some hcred

theorem evidenceRef_not_blank (rootId : String) : isBlank ("deleg:" ++ rootId) = false := by
  simp [isBlank, isSpace]

theorem verifyChain_verified {root : Json} {rest : List Json} :
    Verified (verifyChain python providerScopes statusTokens now nowTs crypto root rest signatures)
      ↔ (∀ cred ∈ root :: rest, checkSignature python crypto signatures cred = .ok none) ∧
        validateChain python providerScopes statusTokens now nowTs none (root :: rest) =
          .ok () := by
  rw [verifyChain, verifyChainBy, verified_bind, ← checkSignatures_eq_none]
  constructor
  · rintro ⟨outcome, hsignatures, hverified⟩
    cases outcome with
    | some result => exact absurd (verified_ok.mp hverified) (checkSignatures_some hsignatures)
    | none =>
      refine ⟨hsignatures, ?_⟩
      cases hchain : validateChain python providerScopes statusTokens now nowTs none (root :: rest)
        with
      | ok u => rfl
      | error e =>
        simp only [hchain] at hverified
        cases hreason : chainReason? e <;> simp [hreason] at hverified
  · rintro ⟨hsignatures, hchain⟩
    refine ⟨none, hsignatures, ?_⟩
    obtain ⟨fields, did, -, -, -, -, rfl, hdid, -⟩ :=
      checkSignature_eq_none.mp (checkSignatures_eq_none.mp hsignatures root (by simp))
    simp only [hchain, verified_bind]
    exact ⟨did, Json.item_obj_of_lookup hdid, verified_of_not_blank (evidenceRef_not_blank _)⟩

/-- Evidence is VERIFIED when all its parts are there, the time is one a `datetime` can hold,
every signature is accepted, and the loop over the chain passes. -/
theorem verify_verified {evidence : Json} :
    Verified (verify python crypto evidence) ↔
      ∃ root rest signatures providerScopes statusTokens nowTs now,
        evidence.get "chain" = .ok (.arr (root :: rest)) ∧ (root :: rest).length ≤ maxChain ∧
        evidence.get "signatures" = .ok (.obj signatures) ∧
        evidence.get "provider_scopes" = .ok (.arr providerScopes) ∧
        evidence.get "status_tokens" = .ok statusTokens ∧
        nowTimestamp python evidence = .ok nowTs ∧ fromTimestamp nowTs = .ok now ∧
        (∀ cred ∈ root :: rest, checkSignature python crypto signatures cred = .ok none) ∧
        validateChain python providerScopes (statusTokensOf statusTokens) now nowTs none
          (root :: rest) = .ok () := by
  simp only [← verifyChain_verified]
  constructor
  · intro h
    rw [verify, verifyBy, verified_bind] at h
    obtain ⟨chain, hchain, h⟩ := h
    split at h
    · rename_i root rest
      split at h
      · simp at h
      rename_i hlength
      obtain ⟨signatures, hsignatures, h⟩ := verified_bind.mp h
      split at h
      · rename_i signatures
        obtain ⟨providerScopes, hscopes, h⟩ := verified_bind.mp h
        split at h
        · rename_i providerScopes
          obtain ⟨statusTokens, htokens, h⟩ := verified_bind.mp h
          obtain ⟨nowTs, hnowTs, h⟩ := verified_bind.mp h
          obtain ⟨now, hnow, h⟩ := verified_bind.mp h
          exact ⟨root, rest, signatures, providerScopes, statusTokens, nowTs, now, hchain,
            not_lt.mp hlength, hsignatures, hscopes, htokens, hnowTs, hnow, h⟩
        · simp at h
      · simp at h
    · simp at h
  · rintro ⟨root, rest, signatures, providerScopes, statusTokens, nowTs, now, hchain, hlength,
      hsignatures, hscopes, htokens, hnowTs, hnow, h⟩
    rw [verify, verifyBy, verified_bind]
    refine ⟨_, hchain, ?_⟩
    simp only [if_neg (not_lt.mpr hlength), verified_bind]
    refine ⟨_, hsignatures, ?_⟩
    simp only [verified_bind]
    refine ⟨_, hscopes, ?_⟩
    simp only [verified_bind]
    exact ⟨_, htokens, _, hnowTs, _, hnow, h⟩

end Delegation
