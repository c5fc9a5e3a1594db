import SmBridge.Rfc9162
import SmBridge.Json
import SmBridge.Cryptography
import SmBridge.ProofResult

/-!
# The receipt profile

A receipt is a COSE_Sign1 array. Its signature covers the protected header and the payload;
the inclusion proof lies in the unprotected header. CBOR decoding and the elliptic curve
are parameters.
-/
namespace AnsScitt

open Python
open Hashing
open Trust
open Rfc9162

/-! ## Decoded CBOR -/

/-- What `cbor2.loads` returns. `number` is a float, a fraction or a decimal, and equals an
integer of the same value as a dictionary key does. -/
inductive Cbor where
  | int (n : ℤ)
  | bool (b : Bool)
  | number (q : Rat)
  | bytes (b : Bytes)
  | text (s : String)
  | array (xs : List Cbor)
  | map (entries : List (Cbor × Cbor))
  | tag (number : ℕ) (value : Cbor)
  | null
  | other

/-- `key == label` -/
def Cbor.isLabel (label : ℤ) : Cbor → Bool
  | .int n => n == label
  | .bool b => (if b then 1 else 0) == label
  | .number q => q == label
  | _ => false

def getLabel (label : ℤ) (entries : List (Cbor × Cbor)) : Option Cbor :=
  (entries.find? fun entry => entry.1.isLabel label).map Prod.snd

def labelVdp : ℤ := 396
def vdpTreeSize : ℤ := -1
def vdpLeafIndex : ℤ := -2
def vdpHashPath : ℤ := -3
def vdpRootHash : ℤ := -4

def sha256Size : ℕ := 32
def coseSign1Tag : ℕ := 18
def p1363SigLen : ℕ := 64
def maxReceiptBytes : ℕ := 256 * 1024

/-! ## Parsing -/

structure ParsedReceipt where
  protectedBytes : Bytes
  unprotected : List (Cbor × Cbor)
  payload : Option Bytes
  signature : Bytes

structure ProofFields where
  treeSize : ℤ
  leafIndex : ℤ
  path : List Bytes
  rootHash : Bytes
  deriving DecidableEq, Repr

inductive BytesArg where
  | bytes (b : Bytes)
  | other (typeName : String)

/-- The four elements; the inner byte strings are taken over as they are. -/
def coseFields (xs : List Cbor) : Except String ParsedReceipt :=
  match xs with
  | [protectedHeader, unprotected, payload, signature] =>
    match protectedHeader with
    | .bytes protectedBytes =>
      match unprotected with
      | .map entries =>
        match payload, signature with
        | .null, .bytes sig => .ok ⟨protectedBytes, entries, none, sig⟩
        | .bytes body, .bytes sig => .ok ⟨protectedBytes, entries, some body, sig⟩
        | .null, _ => .error "signature must be a byte string"
        | .bytes _, _ => .error "signature must be a byte string"
        | _, _ => .error "payload must be a byte string or null"
      | _ => .error "unprotected header must be a map"
    | _ => .error "protected header must be a byte string"
  | _ => .error "COSE_Sign1 must be a 4-element array"

def coseArray (obj : Cbor) : Except String Cbor :=
  match obj with
  | .tag number value =>
    if number ≠ coseSign1Tag then
      .error ("unexpected CBOR tag " ++ toString number ++ ", want " ++ toString coseSign1Tag)
    else .ok value
  | obj => .ok obj

def parseCoseSign1 (loads : Bytes → Except String Cbor) (data : BytesArg) :
    Except String ParsedReceipt :=
  match data with
  | .other typeName => .error ("receipt must be CBOR bytes, got " ++ typeName)
  | .bytes data =>
    if data.length > maxReceiptBytes then
      .error ("receipt is " ++ toString data.length ++ " bytes, over the " ++
        toString maxReceiptBytes ++ "-byte cap (DoS guard)")
    else
      match loads data with
      | .error text => .error ("receipt is not valid CBOR: " ++ text)
      | .ok obj => do
        match ← coseArray obj with
        | .array xs => coseFields xs
        | _ => .error "COSE_Sign1 must be a 4-element array"

/-- The loop over the path, from element `i` on. -/
def pathElements (i : ℕ) : List Cbor → Except String (List Bytes)
  | [] => .ok []
  | .bytes b :: xs => do
    let path ← pathElements (i + 1) xs
    .ok (b :: path)
  | _ :: _ => .error ("VDP hashPath element " ++ toString i ++ " is not bytes")

def requireLabel (label : ℤ) (missing : String) (entries : List (Cbor × Cbor)) :
    Except String Cbor :=
  match getLabel label entries with
  | none => .error missing
  | some value => .ok value

/-- An `int` that is no Boolean. -/
def requireInt (message : String) : Cbor → Except String ℤ
  | .int n => .ok n
  | _ => .error message

def extractInclusionProof (unprotected : List (Cbor × Cbor)) : Except String ProofFields := do
  let vdp ← requireLabel labelVdp
    ("unprotected header missing VDP (label " ++ toString labelVdp ++ ")") unprotected
  match vdp with
  | .map vdp =>
    let treeSize ← requireLabel vdpTreeSize "VDP missing treeSize" vdp
    let leafIndex ← requireLabel vdpLeafIndex "VDP missing leafIndex" vdp
    let rawPath ← requireLabel vdpHashPath "VDP missing hashPath" vdp
    let rootHash ← requireLabel vdpRootHash "VDP missing rootHash" vdp
    let treeSize ← requireInt "VDP treeSize is not an integer" treeSize
    let leafIndex ← requireInt "VDP leafIndex is not an integer" leafIndex
    match rawPath with
    | .array xs =>
      let path ← pathElements 0 xs
      match rootHash with
      | .bytes rootHash => .ok ⟨treeSize, leafIndex, path, rootHash⟩
      | _ => .error "VDP rootHash is not bytes"
    | _ => .error "VDP hashPath is not an array"
  | _ => .error "VDP is not a map"

/-! ## Signature -/

inductive PublicKeyArg (Key : Type) where
  | key (key : Key)
  | text (s : String)
  | bytes (b : Bytes)
  | other (typeName : String)

def isPem (b : Bytes) : Bool :=
  (encodeUtf8 "-----BEGIN").isPrefixOf (b.dropWhile [0x20, 0x09, 0x0a, 0x0d, 0x0b, 0x0c].contains)

def loadPublicKey {Key : Type} (crypto : Cryptography Key) (pub : PublicKeyArg Key) :
    Except String Key := do
  let key ← match pub with
    | .key key => .ok key
    | .text s => crypto.loadPem (encodeUtf8 s)
    | .bytes raw => if isPem raw then crypto.loadPem raw else crypto.loadDer raw
    | .other typeName => .error ("public_key must be PEM/DER bytes or str, got " ++ typeName)
  match crypto.curve key with
  | none => .error "public_key is not an ECDSA key"
  | some curve =>
    if curve ≠ "secp256r1" then
      .error ("public_key curve is " ++ curve ++ ", want secp256r1 (P-256)")
    else .ok key

/-- The head of a CBOR item, in the shortest form. -/
def cborHead (major : UInt8) (n : ℕ) : Bytes :=
  let byte (k : ℕ) : UInt8 := UInt8.ofNat (n / 256 ^ k)
  if n < 24 then [major <<< 5 ||| byte 0]
  else if n < 256 then [major <<< 5 ||| 24, byte 0]
  else if n < 256 ^ 2 then [major <<< 5 ||| 25, byte 1, byte 0]
  else if n < 256 ^ 4 then [major <<< 5 ||| 26, byte 3, byte 2, byte 1, byte 0]
  else [major <<< 5 ||| 27, byte 7, byte 6, byte 5, byte 4, byte 3, byte 2, byte 1, byte 0]

def cborBytes (b : Bytes) : Bytes := cborHead 2 b.length ++ b

def cborText (s : String) : Bytes := cborHead 3 (encodeUtf8 s).length ++ encodeUtf8 s

/-- The canonical CBOR of `["Signature1", protected, b"", payload]`. -/
def sigStructureBytes (protectedBytes payload : Bytes) : Bytes :=
  cborHead 4 4 ++ cborText "Signature1" ++ cborBytes protectedBytes ++ cborBytes [] ++
    cborBytes payload

example : sigStructureBytes [0xa1, 0x01, 0x26] [0x61] =
    [0x84, 0x6a, 0x53, 0x69, 0x67, 0x6e, 0x61, 0x74, 0x75, 0x72, 0x65, 0x31, 0x43, 0xa1, 0x01, 0x26,
      0x40, 0x41, 0x61] := by
  decide +kernel

def verifyEs256 {Key : Type} (crypto : Cryptography Key) (publicKey : Key)
    (protectedBytes payload signature : Bytes) : Bool :=
  if signature.length ≠ p1363SigLen then false
  else
    crypto.verifyEcdsa publicKey (intFromBytes (signature.take 32))
      (intFromBytes (signature.drop 32)) (sigStructureBytes protectedBytes payload)

/-! ## The profile -/

structure Evidence (Key : Type) where
  receipt : Option BytesArg
  publicKey : Option (PublicKeyArg Key)

def profileId : String := "ans-scitt"
def method : String := "scitt-cose-merkle"

def failed (reason : String) : ProofResult := ProofResult.failed profileId method reason
def notVerified (reason : String) : ProofResult := ProofResult.notVerified profileId method reason

def evidenceRef (rootHash : Bytes) : String := "scitt:" ++ sliceStr (hex rootHash) 16

section Definitions

variable (H : HashFunction) {Key : Type} (crypto : Cryptography Key)
  (loads : Bytes → Except String Cbor)

def verifyParsed (publicKey : Key) (parsed : ParsedReceipt) : Except PyError ProofResult :=
  match parsed.payload with
  | none => .ok (failed "detached payloads not supported: payload must be attached")
  | some payload =>
    if payload.length = 0 then
      .ok (failed "detached payloads not supported: payload must be attached")
    else
      match extractInclusionProof parsed.unprotected with
      | .error text => .ok (notVerified ("receipt has no usable inclusion proof: " ++ text))
      | .ok proof =>
        if proof.rootHash.length ≠ sha256Size then
          .ok (failed ("invalid root hash length " ++ toString proof.rootHash.length))
        else
          match rfc9162RootFromProof H (rfc9162LeafHash H payload) proof.leafIndex proof.treeSize
              proof.path with
          | .error (.valueError text) => .ok (failed ("inclusion proof walk failed: " ++ text))
          | .error e => .error e
          | .ok computedRoot =>
            if computedRoot ≠ proof.rootHash then
              .ok (failed "computed root does not match proof root")
            else if parsed.signature.length ≠ p1363SigLen then
              .ok (failed ("invalid ES256 signature length " ++ toString parsed.signature.length))
            else if
                verifyEs256 crypto publicKey parsed.protectedBytes payload parsed.signature = false
                then
              .ok (failed "ECDSA signature invalid")
            else ProofResult.verified profileId method (evidenceRef proof.rootHash)

/-- `AnsScittProfile.verify`; the evidence is `none` when it is no dictionary. -/
def verify (evidence : Option (Evidence Key)) : Except PyError ProofResult :=
  match evidence with
  | none => .ok (notVerified "evidence must be a dict with 'receipt' and 'public_key'")
  | some evidence =>
    match evidence.receipt with
    | none => .ok (notVerified "no receipt supplied in evidence")
    | some receipt =>
      match evidence.publicKey with
      | none => .ok (notVerified "no public_key supplied in evidence")
      | some pub =>
        match loadPublicKey crypto pub with
        | .error text => .ok (notVerified ("cannot load public_key: " ++ text))
        | .ok publicKey =>
          match parseCoseSign1 loads receipt with
          | .error text => .ok (notVerified ("unparseable receipt: " ++ text))
          | .ok parsed => verifyParsed H crypto publicKey parsed

end Definitions

variable {H : HashFunction} {Key : Type} {crypto : Cryptography Key}
  {loads : Bytes → Except String Cbor}

theorem evidenceRef_not_blank (rootHash : Bytes) : isBlank (evidenceRef rootHash) = false := by
  simp [isBlank, evidenceRef, isSpace]

theorem not_verified_of_failed {reason : String} {result : ProofResult} :
    ¬ ((Except.ok (failed reason) : Except PyError ProofResult) = .ok result ∧
      result.status = .verified) := by
  rintro ⟨h, hs⟩
  rw [← Except.ok.inj h] at hs
  cases hs

theorem not_verified_of_notVerified {reason : String} {result : ProofResult} :
    ¬ ((Except.ok (notVerified reason) : Except PyError ProofResult) = .ok result ∧
      result.status = .verified) := by
  rintro ⟨h, hs⟩
  rw [← Except.ok.inj h] at hs
  cases hs

/-- The parsed receipt is VERIFIED exactly when its walk ends at its root and its signature
over the protected header and the payload is accepted. -/
theorem verifyParsed_verified {publicKey : Key} {parsed : ParsedReceipt} {result : ProofResult} :
    verifyParsed H crypto publicKey parsed = .ok result ∧ result.status = .verified ↔
      ∃ payload proof, parsed.payload = some payload ∧ payload ≠ [] ∧
        extractInclusionProof parsed.unprotected = .ok proof ∧ proof.rootHash.length = 32 ∧
        rfc9162RootFromProof H (rfc9162LeafHash H payload) proof.leafIndex proof.treeSize
          proof.path = .ok proof.rootHash ∧
        parsed.signature.length = 64 ∧
        verifyEs256 crypto publicKey parsed.protectedBytes payload parsed.signature = true ∧
        ProofResult.verified profileId method (evidenceRef proof.rootHash) = .ok result := by
  constructor
  · intro h
    rw [verifyParsed] at h
    cases hpayload : parsed.payload with
    | none => exact absurd (hpayload ▸ h) not_verified_of_failed
    | some payload =>
      simp only [hpayload] at h
      by_cases hempty : payload.length = 0
      · rw [if_pos hempty] at h
        exact absurd h not_verified_of_failed
      rw [if_neg hempty] at h
      cases hproof : extractInclusionProof parsed.unprotected with
      | error text => exact absurd (hproof ▸ h) not_verified_of_notVerified
      | ok proof =>
        simp only [hproof] at h
        by_cases hlen : proof.rootHash.length ≠ sha256Size
        · rw [if_pos hlen] at h
          exact absurd h not_verified_of_failed
        rw [if_neg hlen] at h
        cases hwalk : rfc9162RootFromProof H (rfc9162LeafHash H payload) proof.leafIndex
            proof.treeSize proof.path with
        | error e =>
          -- `verify` catches the walk's ValueError only
          rw [hwalk] at h
          cases e with
          | valueError text => exact absurd h not_verified_of_failed
          | _ => exact absurd h.1 (by simp)
        | ok computedRoot =>
          simp only [hwalk] at h
          by_cases hroot : computedRoot ≠ proof.rootHash
          · rw [if_pos hroot] at h
            exact absurd h not_verified_of_failed
          rw [if_neg hroot] at h
          by_cases hsig : parsed.signature.length ≠ p1363SigLen
          · rw [if_pos hsig] at h
            exact absurd h not_verified_of_failed
          rw [if_neg hsig] at h
          by_cases hes : verifyEs256 crypto publicKey parsed.protectedBytes payload
              parsed.signature = false
          · rw [if_pos hes] at h
            exact absurd h not_verified_of_failed
          rw [if_neg hes] at h
          refine ⟨payload, proof, rfl, fun hnil => hempty (by rw [hnil]; rfl), rfl,
            not_not.mp hlen, ?_, not_not.mp hsig, by simpa using hes, h.1⟩
          rw [hwalk, not_not.mp hroot]
  · rintro ⟨payload, proof, hpayload, hne, hproof, hlen, hwalk, hsig, hes, hresult⟩
    refine ⟨?_, (ProofResult.verified_eq_ok.mp hresult).2.2.2.1⟩
    have hempty : ¬ payload.length = 0 := fun h => hne (List.length_eq_zero_iff.mp h)
    simp only [verifyParsed, hpayload, hproof, hwalk, hes, hresult, if_neg hempty, sha256Size, hlen,
      p1363SigLen, hsig, ne_eq, not_true_eq_false, ↓reduceIte, Bool.true_eq_false]

end AnsScitt
