import SmBridge.DelegationChecks

/-!
# Exceptions of the delegation profile

Only the rule failures of the loop are caught, so a value of a wrong type leaves `verify` as an
exception, provided that all checks before it have passed. So does a credential that has to be
serialized and cannot be: a text with a lone surrogate has no UTF-8 form, and a deep nesting
goes beyond the interpreter's recursion. Which values these are is a parameter, as is the depth
from which `repr` fails on the status of a token.
-/
namespace DelegationCrashes

open Python
open JsonValue
open Jcs
open Es256
open Trust
open Delegation
open DelegationRules (isoPython providerCurve)
open DelegationTypes
open DelegationChecks
open Checks

variable {python : Interpreter} {providerScopes : List Json} {statusTokens : Fields} {now : ℤ}
  {nowTs : PyFloat}

/-! ## The profile -/

section Profile

variable (python : Interpreter) {Key : Type} (crypto : Cryptography Key)
  (limits : Json → Option PyError)

/-- `jcs_canonical`, where `limits` gives the exception for a value that has a text without a
UTF-8 form or is nested too deeply. -/
def canonicalWithin (x : Json) : Except PyError Bytes :=
  match limits x with
  | some e => .error e
  | none => jcsCanonical x

/-- The signature and the key that an entry holds. -/
def material : Json → Option (Json × Json)
  | .obj entry =>
    match entry.lookup "sig_b64", entry.lookup "signer_pubkey" with
    | some sigB64, some signerPubkey => some (sigB64, signerPubkey)
    | _, _ => none
  | _ => none

def Accepted (signatures : Fields) (cred : Json) : Prop :=
  ∃ sigB64 signerPubkey payload,
    material (entryOf signatures (value (fieldsOf cred) "delegationId")) =
      some (sigB64, signerPubkey) ∧
    canonicalWithin limits cred = .ok payload ∧
    verifyEs256 crypto headerB64 payload sigB64 signerPubkey = true

def signatureChecks (signatures : Fields) (cred : Json) : List Check :=
  let did := value (fieldsOf cred) "delegationId"
  [.rule (cred.isObj = true), .rule (did.truthy = true), .needs (hashable did = true),
    .rule ((material (entryOf signatures did)).isSome = true), .needs (limits cred = none),
    .needs (hasFloat cred = false), .rule (Accepted crypto limits signatures cred)]

def evidenceChecks (providerScopes : List Json) (statusTokens : Fields) (now : ℤ)
    (nowTs : PyFloat) (signatures : Fields) (creds : List Json) : List Check :=
  creds.flatMap (signatureChecks crypto limits signatures) ++
    chainChecks python providerScopes statusTokens now nowTs none (creds.map fieldsOf)

end Profile

variable {Key : Type} {crypto : Cryptography Key} {limits : Json → Option PyError}
  {signatures : Fields}

theorem canonicalWithin_returns (limits : Json → Option PyError) (x : Json) :
    (∃ b, canonicalWithin limits x = .ok b) ↔ limits x = none ∧ hasFloat x = false := by
  rw [canonicalWithin]
  cases limits x with
  | none => simpa using jcsCanonical_returns x
  | some e => simp

theorem checkSignature_obj (fields : Fields) :
    checkSignatureBy python crypto (canonicalWithin limits) signatures (.obj fields) =
      if !(value fields "delegationId").truthy then
        .ok (some (failed "malformed credential: delegationId empty"))
      else
        Json.lookupKey signatures (value fields "delegationId") >>= fun entry =>
          match material entry with
          | some (sigB64, signerPubkey) =>
            canonicalWithin limits (.obj fields) >>= fun payload =>
              if !verifyEs256 crypto headerB64 payload sigB64 signerPubkey then
                .ok (some (failed ("forged signature: JWS verification failed for credential " ++
                  python.str (value fields "delegationId"))))
              else .ok none
          | none => .ok (some (notVerified ("no signature material for credential " ++
              python.str (value fields "delegationId")))) := by
  rw [checkSignatureBy]
  refine if_congr Iff.rfl rfl ?_
  refine congrArg _ (funext fun entry => ?_)
  cases entry with
  | obj entry =>
    simp only [material]
    cases entry.lookup "sig_b64" with
    | none => rfl
    | some sigB64 => cases entry.lookup "signer_pubkey" <;> rfl
  | _ => rfl

theorem performs_checkSignature (cred : Json) :
    Performs (fun _ => False) (· = none)
      (checkSignatureBy python crypto (canonicalWithin limits) signatures cred)
      (signatureChecks crypto limits signatures cred) := by
  cases cred with
  | obj fields =>
    rw [checkSignature_obj]
    have hobj : (Json.obj fields).isObj = true := rfl
    by_cases hid : (value fields "delegationId").truthy = true
    · rw [if_neg (by simp [hid])]
      by_cases hhash : hashable (value fields "delegationId") = true
      · rw [lookupKey_entryOf _ hhash, ok_bind]
        cases hmaterial : material (entryOf signatures (value fields "delegationId")) with
        | none =>
          exact ⟨by simp [signatureChecks, Runs, fieldsOf, hhash, hmaterial],
            by simp [signatureChecks, Check.Holds, fieldsOf, hmaterial]⟩
        | some pair =>
          obtain ⟨sigB64, signerPubkey⟩ := pair
          have hfloat := canonicalWithin_returns limits (.obj fields)
          cases hpayload : canonicalWithin limits (.obj fields) with
          | error e =>
            simp only [hpayload, reduceCtorEq, exists_false, false_iff] at hfloat
            rcases not_and_or.mp hfloat with hraised | hraised <;>
            exact ⟨by simp [signatureChecks, Runs, fieldsOf, hobj, hid, hhash, hmaterial, hraised,
                bind, Except.bind],
              by simp [signatureChecks, Check.Holds, fieldsOf, hraised, bind, Except.bind]⟩
          | ok payload =>
            simp only [hpayload, Except.ok.injEq, exists_eq', true_iff] at hfloat
            cases hverified : verifyEs256 crypto headerB64 payload sigB64 signerPubkey <;>
            exact ⟨by simp [signatureChecks, Runs, fieldsOf, hhash, hfloat, hverified, ok_bind],
              by simp [signatureChecks, Check.Holds, fieldsOf, hobj, hid, hhash, hmaterial, hfloat,
                Accepted, hpayload, hverified, ok_bind]⟩
      · have hnone : ¬ ∃ entry, Json.lookupKey signatures (value fields "delegationId") =
            .ok entry := fun h => hhash ((needs_lookupKey _ _).returns.mp h)
        cases hentry : Json.lookupKey signatures (value fields "delegationId") with
        | ok entry => exact absurd ⟨entry, hentry⟩ hnone
        | error e =>
          exact ⟨by simp [signatureChecks, Runs, fieldsOf, hobj, hid, hhash, bind, Except.bind],
            by simp [signatureChecks, Check.Holds, fieldsOf, hhash, bind, Except.bind]⟩
    · rw [if_pos (by simp [hid])]
      exact ⟨by simp [signatureChecks, Runs, fieldsOf, hid],
        by simp [signatureChecks, Check.Holds, fieldsOf, hid]⟩
  | _ => exact ⟨by simp [checkSignatureBy, signatureChecks, Runs, Json.isObj],
      by simp [checkSignatureBy, signatureChecks, Check.Holds, Json.isObj]⟩

theorem performs_checkSignatures (creds : List Json) :
    Performs (fun _ => False) (· = none)
      (checkSignaturesBy python crypto (canonicalWithin limits) signatures creds)
      (creds.flatMap (signatureChecks crypto limits signatures)) := by
  induction creds with
  | nil => exact Performs.ok rfl
  | cons cred creds ih =>
    rw [checkSignaturesBy, List.flatMap_cons]
    refine (performs_checkSignature cred).bind ?_ ?_
    · intro outcome _ hsome
      cases outcome with
      | none => exact absurd rfl hsome
      | some result => exact ⟨by simp, by simp⟩
    · intro outcome _ hnone _
      rw [hnone]
      exact ih

/-- The accepted credentials are objects whose `delegationId` can be looked up. -/
theorem signatureChecks_hold {creds : List Json}
    (h : AllHold (creds.flatMap (signatureChecks crypto limits signatures))) :
    (creds.map fieldsOf).map .obj = creds ∧
      ∀ fields ∈ creds.map fieldsOf, hashable (value fields "delegationId") = true ∧
        (value fields "delegationId").truthy = true := by
  have hcred : ∀ cred ∈ creds, Json.obj (fieldsOf cred) = cred ∧
      hashable (value (fieldsOf cred) "delegationId") = true ∧
        (value (fieldsOf cred) "delegationId").truthy = true := by
    intro cred hmem
    have hchecks : AllHold (signatureChecks crypto limits signatures cred) :=
      fun c hc => h c (List.mem_flatMap.mpr ⟨cred, hmem, hc⟩)
    simp only [signatureChecks, allHold_cons, Check.Holds] at hchecks
    obtain ⟨hobj, hid, hhash, -⟩ := hchecks
    cases cred with
    | obj fields => exact ⟨rfl, hhash, hid⟩
    | _ => cases hobj
  refine ⟨?_, ?_⟩
  · rw [List.map_map]
    exact (List.map_congr_left fun cred hmem => (hcred cred hmem).1).trans (List.map_id' creds)
  · intro fields hfields
    obtain ⟨cred, hmem, rfl⟩ := List.mem_map.mp hfields
    exact (hcred cred hmem).2

/-- The verdict on a chain whose signatures are accepted: the loop's rule failures are caught. -/
theorem performs_verdict {root : Json} {creds : List Json} {checks : List Check}
    (hchain : Performs Caught (fun _ => True)
      (validateChain python providerScopes statusTokens now nowTs none creds) checks)
    {rootId : Json} (hroot : root.item "delegationId" = .ok rootId) :
    Performs (fun _ => False) (fun result : ProofResult => result.status = .verified)
      (match validateChain python providerScopes statusTokens now nowTs none creds with
        | .error e =>
          match chainReason? e with
          | some reason => .ok (failed reason)
          | none => .error e
        | .ok () => do
          let rootId ← root.item "delegationId"
          ProofResult.verified profileId method ("deleg:" ++ python.str rootId)) checks := by
  have hverified :
      Verified (ProofResult.verified profileId method ("deleg:" ++ python.str rootId)) :=
    verified_of_not_blank (evidenceRef_not_blank _)
  obtain ⟨result, hresult, hstatus⟩ := hverified
  refine ⟨?_, ?_⟩
  · rw [← hchain.settled]
    cases validateChain python providerScopes statusTokens now nowTs none creds with
    | ok u => simp [hroot, ok_bind, hresult]
    | error e => cases hreason : chainReason? e <;> simp [Caught, hreason]
  · rw [← hchain.passes]
    cases validateChain python providerScopes statusTokens now nowTs none creds with
    | ok u => simp [hroot, ok_bind, hresult, hstatus]
    | error e => cases hreason : chainReason? e <;> simp [hreason]

theorem performs_verifyChain (hnow : ∃ n, nowTs.toInt = .ok n) (root : Json) (rest : List Json) :
    Performs (fun _ => False) (fun result : ProofResult => result.status = .verified)
      (verifyChainBy python providerScopes statusTokens now nowTs crypto (canonicalWithin limits)
        root rest signatures)
      (evidenceChecks python crypto limits providerScopes statusTokens now nowTs signatures
        (root :: rest)) := by
  unfold verifyChainBy
  refine (performs_checkSignatures (root :: rest)).bind ?_ ?_
  · intro outcome houtcome hsome
    cases outcome with
    | none => exact absurd rfl hsome
    | some result =>
      refine ⟨settled_ok _, fun other hother => ?_⟩
      obtain rfl := Except.ok.inj hother
      exact checkSignatures_some houtcome
  · intro outcome _ hnone hall
    rw [hnone]
    obtain ⟨hobjects, hids⟩ := signatureChecks_hold hall
    have hroot : root.item "delegationId" = .ok (value (fieldsOf root) "delegationId") := by
      have hfirst : Json.obj (fieldsOf root) = root := by
        rw [List.map_cons, List.map_cons] at hobjects
        exact (List.cons.inj hobjects).1
      rw [← hfirst]
      exact Json.item_obj_of_lookup (lookup_of_truthy (hids (fieldsOf root) (by simp)).2)
    have hchain : Performs Caught (fun _ => True)
        (validateChain python providerScopes statusTokens now nowTs (Option.map Json.obj none)
          (((root :: rest).map fieldsOf).map .obj))
        (chainChecks python providerScopes statusTokens now nowTs none
          ((root :: rest).map fieldsOf)) :=
      performs_validateChain hnow _ none (by simp) fun fields hfields => (hids fields hfields).1
    rw [hobjects, Option.map_none] at hchain
    exact performs_verdict hchain hroot

/-! ## The evidence -/

/-- Evidence with the parts that are checked before the time is read. -/
structure Presented (evidence : Fields) (root : Json) (rest : List Json) (signatures : Fields)
    (providerScopes : List Json) : Prop where
  chain : value evidence "chain" = .arr (root :: rest)
  length : (root :: rest).length ≤ Delegation.maxChain
  signatures : value evidence "signatures" = .obj signatures
  providerScopes : value evidence "provider_scopes" = .arr providerScopes

/-- The times that a `datetime` can hold. -/
def IsTimestamp : PyFloat → Prop
  | .finite q => InYearRange (microseconds q / 10 ^ 6)
  | _ => False

theorem fromTimestamp_returns (x : PyFloat) :
    (∃ now, fromTimestamp x = .ok now) ↔ IsTimestamp x := by
  cases x with
  | finite q =>
    simp only [fromTimestamp, IsTimestamp]
    generalize microseconds q / 10 ^ 6 = seconds
    by_cases hyear : InYearRange seconds
    · have hrange := hyear
      simp only [InYearRange, minSeconds, maxSeconds] at hrange
      rw [if_neg (by omega), if_neg (by simp only [minGmtime, maxGmtime]; omega),
        if_neg (by simp only [minSeconds, maxSeconds]; omega)]
      exact ⟨fun _ => hyear, fun _ => ⟨_, rfl⟩⟩
    · have hrange : seconds < minSeconds ∨ maxSeconds < seconds := by
        rw [InYearRange] at hyear
        omega
      rw [if_pos hrange]
      constructor
      · intro hreturns
        obtain ⟨now, hnow⟩ := hreturns
        split_ifs at hnow
      · intro h
        exact absurd h hyear
  | _ => simp [fromTimestamp, IsTimestamp]

theorem toInt_returns {x : PyFloat} (h : IsTimestamp x) : ∃ n, x.toInt = .ok n := by
  cases x with
  | finite q => exact ⟨_, rfl⟩
  | _ => cases h

theorem nowTimestamp_returns (python : Interpreter) (evidence : Fields) :
    (∃ nowTs, nowTimestamp python (.obj evidence) = .ok nowTs) ↔
      ∀ now ∈ evidence.lookup "now", FloatLike python now := by
  rw [nowTimestamp, Json.get?]
  cases evidence.lookup "now" with
  | none => simp
  | some now => simpa using (needs_float python now).returns

/-- Whatever the checks before it let through has the types that the next check needs: `now`
is a number that `float` and `datetime` convert, and so on for each credential, its signature
and its status token. A credential with an entry for its signature has no float, no lone
surrogate and no nesting beyond the interpreter's recursion, and a status that comes into a
message is not nested beyond it either. -/
def NeverStuck (python : Interpreter) {Key : Type} (crypto : Cryptography Key)
    (limits : Json → Option PyError) (evidence : Fields) : Prop :=
  ∀ root rest signatures providerScopes,
    Presented evidence root rest signatures providerScopes →
      (∀ now ∈ evidence.lookup "now", FloatLike python now) ∧
        ∀ nowTs, nowTimestamp python (.obj evidence) = .ok nowTs →
          IsTimestamp nowTs ∧ ∀ now, fromTimestamp nowTs = .ok now →
            Runs (evidenceChecks python crypto limits providerScopes
              (fieldsOf (value evidence "status_tokens")) now nowTs signatures (root :: rest))

theorem verify_presented {evidence : Fields} {root : Json} {rest : List Json}
    (h : Presented evidence root rest signatures providerScopes) :
    verifyBy python crypto (canonicalWithin limits) (.obj evidence) =
      nowTimestamp python (.obj evidence) >>= fun nowTs =>
        fromTimestamp nowTs >>= fun now =>
          verifyChainBy python providerScopes (fieldsOf (value evidence "status_tokens")) now nowTs
            crypto (canonicalWithin limits) root rest signatures := by
  have htokens : ∀ x, statusTokensOf x = fieldsOf x := fun x => by cases x <;> rfl
  have hget : ∀ key, (Json.obj evidence).get key = .ok (value evidence key) := fun _ => rfl
  simp only [verifyBy, hget, h.chain, h.signatures, h.providerScopes, ok_bind,
    if_neg (not_lt.mpr h.length), htokens]

/-- Evidence that lacks a part gets a result without any check. -/
theorem verify_not_presented {evidence : Fields}
    (h : ∀ root rest signatures providerScopes,
      ¬ Presented evidence root rest signatures providerScopes) :
    ∃ result, verifyBy python crypto (canonicalWithin limits) (.obj evidence) = .ok result := by
  have hget : ∀ key, (Json.obj evidence).get key = .ok (value evidence key) := fun _ => rfl
  simp only [verifyBy, hget, ok_bind]
  split
  · rename_i root rest hchain
    split
    · exact ⟨_, rfl⟩
    · rename_i hlength
      split
      · rename_i signatures hsignatures
        split
        · rename_i providerScopes hscopes
          exact absurd ⟨hchain, not_lt.mp hlength, hsignatures, hscopes⟩
            (h root rest signatures providerScopes)
        · exact ⟨_, rfl⟩
      · exact ⟨_, rfl⟩
  · exact ⟨_, rfl⟩

theorem verify_presented_returns {evidence : Fields} {root : Json} {rest : List Json}
    (h : Presented evidence root rest signatures providerScopes) :
    (∃ result, verifyBy python crypto (canonicalWithin limits) (.obj evidence) = .ok result) ↔
      (∀ now ∈ evidence.lookup "now", FloatLike python now) ∧
        ∀ nowTs, nowTimestamp python (.obj evidence) = .ok nowTs →
          IsTimestamp nowTs ∧ ∀ now, fromTimestamp nowTs = .ok now →
            Runs (evidenceChecks python crypto limits providerScopes
              (fieldsOf (value evidence "status_tokens")) now nowTs signatures
              (root :: rest)) := by
  rw [verify_presented h, ← nowTimestamp_returns]
  cases nowTimestamp python (.obj evidence) with
  | error e => simp [bind, Except.bind]
  | ok nowTs =>
    rw [ok_bind]
    simp only [Except.ok.injEq, exists_eq', true_and, forall_eq', ← fromTimestamp_returns]
    cases hnow : fromTimestamp nowTs with
    | error e => simp [bind, Except.bind]
    | ok now =>
      have hfinite := toInt_returns ((fromTimestamp_returns nowTs).mp ⟨now, hnow⟩)
      rw [ok_bind, ← settled_iff_returns, (performs_verifyChain hfinite root rest).settled]
      simp

/-- `verify` returns a result exactly on the evidence whose values have the types that the
checks reached need, and whose credentials can be serialized and statuses shown where that is
reached. -/
theorem returns_iff (python : Interpreter) {Key : Type} (crypto : Cryptography Key)
    (limits : Json → Option PyError) (evidence : Fields) :
    (∃ result, verifyBy python crypto (canonicalWithin limits) (.obj evidence) = .ok result) ↔
      NeverStuck python crypto limits evidence := by
  constructor
  · intro hreturns root rest signatures providerScopes hpresented
    exact (verify_presented_returns hpresented).mp hreturns
  · intro hstuck
    by_cases h : ∃ root rest signatures providerScopes,
        Presented evidence root rest signatures providerScopes
    · obtain ⟨root, rest, signatures, providerScopes, hpresented⟩ := h
      exact (verify_presented_returns hpresented).mpr
        (hstuck root rest signatures providerScopes hpresented)
    · simp only [not_exists] at h
      exact verify_not_presented h

/-- A chain of one credential with an empty entry for its signature. -/
def hostile (cred : Fields) (rest : Fields) : Fields :=
  [("chain", .arr [.obj cred]),
    ("signatures", .obj [("d", .obj [("sig_b64", .str ""), ("signer_pubkey", .str "")])]),
    ("provider_scopes", .arr [])] ++ rest

/-- What the serializer raises on a credential leaves `verify`. -/
theorem unserializable_raises (python : Interpreter) {Key : Type} (crypto : Cryptography Key)
    (limits : Json → Option PyError) {cred rest : Fields} {e : PyError} {nowTs : PyFloat} {now : ℤ}
    (hid : cred.lookup "delegationId" = some (.str "d")) (h : limits (.obj cred) = some e)
    (hnowTs : nowTimestamp python (.obj (hostile cred rest)) = .ok nowTs)
    (hnow : fromTimestamp nowTs = .ok now) :
    verifyBy python crypto (canonicalWithin limits) (.obj (hostile cred rest)) = .error e := by
  have hpresented : Presented (hostile cred rest) (.obj cred) []
      [("d", .obj [("sig_b64", .str ""), ("signer_pubkey", .str "")])] [] :=
    ⟨rfl, Nat.le_add_left 1 63, rfl, rfl⟩
  rw [verify_presented hpresented, hnowTs, ok_bind, hnow, ok_bind, verifyChainBy,
    checkSignaturesBy, checkSignature_obj, value, hid, canonicalWithin, h]
  rfl

/-- A time that is null, an identifier that is a list, and a number with a fraction in a
credential. -/
theorem hostile_evidence_raises :
    verify isoPython providerCurve
        (.obj (hostile [("delegationId", .str "d")] [("now", .null)])) =
      .error (.typeError "float() argument must be a string or a real number, not 'NoneType'") ∧
    verify isoPython providerCurve (.obj (hostile [("delegationId", .arr [.str "d"])] [])) =
      .error (.typeError "unhashable type: 'list'") ∧
    verify isoPython providerCurve
        (.obj (hostile [("delegationId", .str "d"), ("weight", .float (.finite (1 / 2)))] [])) =
      .error (.typeError
        "JCS: floating-point values are not part of the delegation schema") :=
  ⟨rfl, rfl, rfl⟩

end DelegationCrashes
