import SmBridge.AnsScitt
import SmBridge.CanonicalJson
import SmBridge.Converter
import SmBridge.Tlog

/-!
# The agent card profile

A card is signed without its own `signature` field. Keys are loaded by the `cryptography`
package, whose parts are parameters.
-/
namespace AgentCardProfile

open Python
open Attempts
open JsonValue
open Trust
open Tlog
open Hashing
open AnsScitt (PublicKeyArg isPem)
open Ed25519AgentCard (canonicalize)
open CanonicalJson
open KeyedTrees

def profileId : String := "ed25519-agentcard"
def method : String := "ed25519-jcs"
def signatureField : String := "signature"

def notVerified (reason : String) : ProofResult := ProofResult.notVerified profileId method reason

/-- `ProofResult.failed` with the reference to what was checked. -/
def failed (reason evidenceRef : String) : ProofResult :=
  ⟨profileId, method, .failed, some evidenceRef, some reason, by simp [Honest]⟩

/-- What `binascii.a2b_base64` has against a text in its strict mode. `pos` counts the digits of
the current group, `pads` the padding behind them, and `started` tells whether there was any. -/
def strictFault (pos pads digits : ℕ) (started : Bool) : List Char → Option String
  | [] =>
    if pos = 0 then none
    else if pos = 1 then
      some ("Invalid base64-encoded string: number of data characters (" ++ toString digits ++
        ") cannot be 1 more than a multiple of 4")
    else some "Incorrect padding"
  | c :: cs =>
    if c = '=' then
      if pos < 2 then strictFault pos pads digits true cs
      else if pos + (pads + 1) < 4 then strictFault pos (pads + 1) digits true cs
      else if cs.isEmpty then none
      else some "Excess data after padding"
    else
      match Base64.decodeDigit c with
      | none => some "Only base64 data is allowed"
      | some _ =>
        if started then some "Discontinuous padding not allowed"
        else strictFault ((pos + 1) % 4) 0 (digits + 1) false cs

/-- `base64.b64decode(s, validate=True)`. A text without a fault is decoded as ever. -/
def b64decodeStrict (s : String) : Except String Bytes :=
  if s.toList.any fun c => 128 ≤ c.toNat then
    .error "string argument should contain only ASCII characters"
  else if s.toList.head? = some '=' then .error "Leading padding not allowed"
  else
    match strictFault 0 0 0 false s.toList with
    | some fault => .error fault
    | none => .ok ((Base64.decode s.toList).getD [])

/-- Loading of keys. A PEM text may hold a key of another type, of which only the name is read. -/
structure KeyLoading (PublicKey : Type) where
  loadPem : Bytes → Except PyError (PublicKey ⊕ String)
  /-- `Ed25519PublicKey.from_public_bytes` -/
  fromPublicBytes : Bytes → Except PyError PublicKey

structure Evidence (PublicKey : Type) where
  payload : Option Json
  signatureB64 : Option Json
  publicKey : Option (PublicKeyArg PublicKey)

section Definitions

variable (H : HashFunction) (python : Interpreter) {PrivateKey PublicKey : Type}
  (ed25519 : Ed25519 PrivateKey PublicKey) (loading : KeyLoading PublicKey)

def onlyEd25519 : PublicKey ⊕ String → Except PyError PublicKey
  | .inl key => .ok key
  | .inr typeName => .error (.valueError ("expected an ed25519 public key, got " ++ typeName))

/-- `_load_ed25519_public_key` -/
def loadEd25519PublicKey : PublicKeyArg PublicKey → Except PyError PublicKey
  | .key key => .ok key
  | .text s => do onlyEd25519 (← loading.loadPem (encodeUtf8 s))
  | .bytes raw =>
    if isPem raw then do onlyEd25519 (← loading.loadPem raw)
    else if raw.length = 32 then loading.fromPublicBytes raw
    else
      .error (.valueError ("raw ed25519 public key must be 32 bytes, got " ++
        toString raw.length))
  | .other typeName => .error (.typeError ("unsupported public_key type " ++ typeName))

/-- `except (ValueError, TypeError)`: the text of the error, if it is one of these. -/
def caught? : PyError → Option String
  | .valueError msg | .typeError msg => some msg
  | _ => none

/-- The card without its signature. -/
def unsigned (payload : List (String × Json)) : Json :=
  .obj (payload.filter fun field => field.1 ≠ signatureField)

def evidenceRef (signature : Bytes) : String :=
  "ed25519:" ++ sliceStr (hex (H.digest signature)) 16

/-- The real check, on a card, a key and a signature that could all be read. -/
def checkCard (publicKey : PublicKey) (signature : Bytes) (payload : List (String × Json)) :
    Except PyError ProofResult :=
  match canonicalize python (unsigned payload) with
  | .error e =>
    match caught? e with
    | some text => .ok (notVerified ("agent-card payload is not canonicalizable: " ++ text))
    | none => .error e
  | .ok message =>
    if ed25519.verify publicKey signature message then
      ProofResult.verified profileId method (evidenceRef H signature)
    else .ok (failed "ed25519 signature verification failed" (evidenceRef H signature))

/-- `Ed25519AgentCardProfile.verify` -/
def verify (evidence : Evidence PublicKey) : Except PyError ProofResult :=
  match evidence.payload with
  | some (.obj payload) =>
    match evidence.signatureB64 with
    | some (.str signatureB64) =>
      if signatureB64 = "" then
        .ok (notVerified "no signature supplied in evidence['signature_b64']")
      else
        match evidence.publicKey with
        | none => .ok (notVerified "no public key supplied in evidence['public_key']")
        | some publicKey =>
          match loadEd25519PublicKey loading publicKey with
          | .error e =>
            match caught? e with
            | some text => .ok (notVerified ("unusable ed25519 public key: " ++ text))
            | none => .error e
          | .ok publicKey =>
            match b64decodeStrict signatureB64 with
            | .error text => .ok (notVerified ("signature is not valid base64: " ++ text))
            | .ok signature => checkCard H python ed25519 publicKey signature payload
    | _ => .ok (notVerified "no signature supplied in evidence['signature_b64']")
  | _ => .ok (notVerified "no agent-card payload supplied in evidence['payload']")

end Definitions

/-! ## Encoded signatures -/

theorem strictFault_digit {v : ℕ} (hv : v < 64) (pos pads digits : ℕ) (cs : List Char) :
    strictFault pos pads digits false (Base64.encodeDigit v :: cs) =
      strictFault ((pos + 1) % 4) 0 (digits + 1) false cs := by
  rw [strictFault, if_neg (Base64.encodeDigit_ne_pad v hv), Base64.decodeDigit_encodeDigit v hv]
  rfl

theorem strictFault_encode (m : Bytes) (digits : ℕ) :
    strictFault 0 0 digits false (Base64.encode m) = none := by
  induction m using Base64.encode.induct generalizing digits with
  | case1 => rfl
  | case2 a =>
    have ha := a.toNat_lt
    rw [Base64.encode, strictFault_digit (by omega), strictFault_digit (by omega)]
    rfl
  | case3 a b =>
    have ha := a.toNat_lt
    have hb := b.toNat_lt
    rw [Base64.encode, strictFault_digit (by omega), strictFault_digit (by omega),
      strictFault_digit (by omega)]
    rfl
  | case4 a b c m ih =>
    have ha := a.toNat_lt
    have hb := b.toNat_lt
    have hc := c.toNat_lt
    rw [Base64.encode, strictFault_digit (by omega), strictFault_digit (by omega),
      strictFault_digit (by omega), strictFault_digit (by omega)]
    exact ih _

theorem head_encode (m : Bytes) : (Base64.encode m).head? ≠ some '=' := by
  have hdigit : ∀ a : UInt8, Base64.encodeDigit (a.toNat / 4) ≠ '=' := fun a =>
    Base64.encodeDigit_ne_pad _ (by have := a.toNat_lt; omega)
  cases m using Base64.encode.induct with
  | case1 => simp [Base64.encode]
  | case2 a => simpa [Base64.encode] using hdigit a
  | case3 a b => simpa [Base64.encode] using hdigit a
  | case4 a b c m => simpa [Base64.encode] using hdigit a

theorem b64decodeStrict_b64encode (b : Bytes) : b64decodeStrict (b64encode b) = .ok b := by
  have hascii : ((b64encode b).toList.any fun c => 128 ≤ c.toNat) = false := by
    rw [List.any_eq_false]
    intro c hc
    rw [b64encode, String.toList_ofList] at hc
    simpa using Base64.encode_ascii b c hc
  rw [b64decodeStrict, hascii, if_neg Bool.false_ne_true, b64encode, String.toList_ofList,
    if_neg (head_encode b), strictFault_encode, Base64.decode_encode]
  rfl

/-! ## Signed cards -/

/-- A card whose owner has signed it, without the signature. -/
structure SignedCard where
  card : PlainJson
  signature : Bytes

def SignedCard.message (c : SignedCard) : Bytes :=
  bytes (c.card.tree.normalize fun a b => a ≤ b)

/-- The key accepts what was signed with it, and nothing but what was signed with it. -/
structure Signs {PrivateKey PublicKey : Type} (ed25519 : Ed25519 PrivateKey PublicKey)
    (pub : PublicKey) (signed : List SignedCard) : Prop where
  accepts : ∀ c ∈ signed, ed25519.verify pub c.signature c.message = true
  unforged : ∀ signature message, ed25519.verify pub signature message = true →
    ∃ c ∈ signed, c.message = message

/-- The record without the field that a signature stands in. -/
def unsignedFields (fields : List (String × Tree Scalar String)) :
    List (String × Tree Scalar String) :=
  fields.filter fun field => field.1 ≠ signatureField

def unsignedBytes (fields : List (String × Tree Scalar String)) : Bytes :=
  bytes ((Tree.record (unsignedFields fields)).normalize fun a b => a ≤ b)

section Checks

theorem unsigned_json (fields : List (String × Tree Scalar String)) :
    unsigned (jsonFields fields) = json (.record (unsignedFields fields)) := by
  rw [unsigned, json, unsignedFields, jsonFields_eq, jsonFields_eq, List.filter_map]
  rfl

theorem unsignedFields_distinct {fields : List (String × Tree Scalar String)}
    (h : (Tree.record fields).Distinct) : (Tree.record (unsignedFields fields)).Distinct := by
  refine .record ?_ fun field hfield => h.values field (List.mem_filter.mp hfield).1
  exact h.keys.sublist (List.filter_sublist.map Prod.fst)

theorem evidenceRef_not_blank (H : HashFunction) (signature : Bytes) :
    isBlank (evidenceRef H signature) = false := by
  simp [isBlank, evidenceRef, isSpace]

/-- A check on a readable card gives VERIFIED or FAILED, as the key decides. -/
theorem checkCard_json (H : HashFunction) (python : Interpreter) {PrivateKey PublicKey : Type}
    (ed25519 : Ed25519 PrivateKey PublicKey) (pub : PublicKey) (signature : Bytes)
    (fields : List (String × Tree Scalar String)) :
    ∃ result, checkCard H python ed25519 pub signature (jsonFields fields) = .ok result ∧
      result.evidenceRef = some (evidenceRef H signature) ∧
      result.status =
        if ed25519.verify pub signature (unsignedBytes fields) then .verified else .failed := by
  have hcanonical : canonicalize python (json (.record (unsignedFields fields))) =
      .ok (unsignedBytes fields) := canonicalize_json python _
  simp only [checkCard, unsigned_json, hcanonical]
  split
  · obtain ⟨result, hresult, hstatus⟩ : Verified (ProofResult.verified profileId method
        (evidenceRef H signature)) := verified_of_not_blank (evidenceRef_not_blank H signature)
    exact ⟨result, hresult, (ProofResult.verified_eq_ok.mp hresult).2.2.2.2.1, hstatus⟩
  · exact ⟨_, rfl, rfl, rfl⟩

theorem verify_read (H : HashFunction) (python : Interpreter) {PrivateKey PublicKey : Type}
    (ed25519 : Ed25519 PrivateKey PublicKey) {loading : KeyLoading PublicKey} {pub : PublicKey}
    {publicKey : PublicKeyArg PublicKey}
    (hload : loadEd25519PublicKey loading publicKey = .ok pub) (payload : List (String × Json))
    {sig : String} (hsig : sig ≠ "") :
    verify H python ed25519 loading ⟨some (.obj payload), some (.str sig), some publicKey⟩ =
      match b64decodeStrict sig with
      | .error text => .ok (notVerified ("signature is not valid base64: " ++ text))
      | .ok signature => checkCard H python ed25519 pub signature payload := by
  simp only [verify, if_neg hsig, hload]

/-- Whatever stands in the field of the signature, a card with a signature that can be read is
VERIFIED if it is the signed one, however its fields are ordered, and FAILED if it is the same
as none that was signed. What cannot be read is NOT_VERIFIED and never FAILED. -/
theorem card_tampering_detected (H : HashFunction) (python : Interpreter)
    {PrivateKey PublicKey : Type} (ed25519 : Ed25519 PrivateKey PublicKey)
    (loading : KeyLoading PublicKey) (pub : PublicKey) (signed : List SignedCard)
    (hsigns : Signs ed25519 pub signed) (publicKey : PublicKeyArg PublicKey)
    (hload : loadEd25519PublicKey loading publicKey = .ok pub)
    (fields : List (String × Tree Scalar String)) (hfields : (Tree.record fields).Distinct)
    (sig : String) (hsig : sig ≠ "") :
    ∃ result, verify H python ed25519 loading
        ⟨some (.obj (jsonFields fields)), some (.str sig), some publicKey⟩ = .ok result ∧
      (result.status = .verified →
        ∃ c ∈ signed, c.card.tree.Same (.record (unsignedFields fields))) ∧
      (∀ c ∈ signed, sig = b64encode c.signature →
        c.card.tree.Same (.record (unsignedFields fields)) → result.status = .verified) ∧
      (result.status = .notVerified ↔ ∃ text, b64decodeStrict sig = .error text) ∧
      ∀ signature, b64decodeStrict sig = .ok signature →
        result.evidenceRef = some (evidenceRef H signature) := by
  have hread := verify_read H python ed25519 hload (jsonFields fields) hsig
  have hdistinct := unsignedFields_distinct hfields
  cases hdecode : b64decodeStrict sig with
  | error text =>
    rw [hdecode] at hread
    refine ⟨_, hread, (fun h => by cases h), ?_, by simp [notVerified, ProofResult.notVerified], ?_⟩
    · rintro c - rfl -
      rw [b64decodeStrict_b64encode] at hdecode
      cases hdecode
    · intro signature h
      cases h
  | ok signature =>
    obtain ⟨result, hcheck, href, hstatus⟩ := checkCard_json H python ed25519 pub signature fields
    rw [hdecode] at hread
    refine ⟨result, hread.trans hcheck, ?_, ?_, ?_, ?_⟩
    · intro h
      have haccepted : ed25519.verify pub signature (unsignedBytes fields) = true := by
        by_contra hrejected
        rw [hstatus, if_neg hrejected] at h
        cases h
      obtain ⟨c, hc, hmessage⟩ := hsigns.unforged _ _ haccepted
      exact ⟨c, hc, (Tree.normalize_eq_iff_same c.card.distinct hdistinct).mp
        (bytes_injective hmessage)⟩
    · rintro c hc rfl hsame
      obtain rfl : c.signature = signature :=
        Except.ok.inj ((b64decodeStrict_b64encode _).symm.trans hdecode)
      have hmessage := hsigns.accepts c hc
      rw [SignedCard.message, (Tree.normalize_eq_iff_same c.card.distinct hdistinct).mpr hsame,
        ← unsignedBytes] at hmessage
      rw [hstatus, if_pos hmessage]
    · rw [hstatus]
      split <;> simp
    · rintro signature' h
      rw [href, Except.ok.inj h]

end Checks

/-! ## A changed card -/

/-- A key as far as what was signed with it goes. -/
def recordedKey (signed : List SignedCard) : Ed25519 Unit Unit where
  publicKey _ := ()
  sign _ _ := []
  verify _ signature message := (signature, message) ∈ signed.map fun c => (c.signature, c.message)

theorem recordedKey_signs (signed : List SignedCard) : Signs (recordedKey signed) () signed where
  accepts c hc := decide_eq_true (List.mem_map_of_mem hc)
  unforged signature message h := by
    obtain ⟨c, hc, heq⟩ := List.mem_map.mp (of_decide_eq_true h)
    exact ⟨c, hc, congrArg Prod.snd heq⟩

def named (name : String) : List (String × Tree Scalar String) := [("name", .leaf (.str name))]

theorem named_distinct (name : String) : (Tree.record (named name)).Distinct :=
  .record (List.nodup_singleton _) fun _ hfield =>
    List.mem_singleton.mp hfield ▸ .leaf trivial

def aliceCard : SignedCard where
  card := ⟨.record (named "Alice"), named_distinct "Alice"⟩
  signature := [0x01]

/-- A loader for a caller who has the key already. -/
def noLoading : KeyLoading Unit where
  loadPem _ := .error (.valueError "Unable to load PEM file.")
  fromPublicBytes _ := .error (.valueError "An Ed25519 public key is 32 bytes long")

theorem card_tampering_detected_name : ∃ result,
    verify sha256 Converter.plainPython (recordedKey [aliceCard]) noLoading
      ⟨some (.obj (jsonFields (named "Mallory"))), some (.str (b64encode [0x01])),
        some (.key ())⟩ = .ok result ∧ result.status = .failed := by
  obtain ⟨result, hverify, hsigned, -, hunread, -⟩ :=
    card_tampering_detected sha256 Converter.plainPython (recordedKey [aliceCard]) noLoading ()
      [aliceCard] (recordedKey_signs _) (.key ()) rfl (named "Mallory") (named_distinct _)
      (b64encode [0x01]) (by decide +kernel)
  refine ⟨result, hverify, ?_⟩
  cases hstatus : result.status with
  | failed => rfl
  | verified =>
    obtain ⟨c, hc, hsame⟩ := hsigned hstatus
    rw [List.mem_singleton.mp hc] at hsame
    have hname := Tree.same_leaf_iff.mp
      (hsame.value (List.mem_singleton_self _) (List.mem_singleton_self _))
    exact absurd hname (by decide)
  | notVerified =>
    obtain ⟨text, htext⟩ := hunread.mp hstatus
    rw [b64decodeStrict_b64encode] at htext
    cases htext

end AgentCardProfile
