import SmBridge.AnsScitt
import SmBridge.Lib.Attempts

/-!
# What a verified receipt binds

The signature does not cover the inclusion proof. Whoever holds one receipt can move its
event into a tree of their own, so the receipts of one signature name one tree only when
none of them is VERIFIED at all: not even the smallest one fits the size cap, or its signature
is not accepted.
-/
namespace ReceiptMalleability

open Python
open Hashing
open Trust
open Rfc9162
open AnsScitt
open Attempts

section Definitions

variable (H : HashFunction) {Key : Type} (crypto : Cryptography Key)
  (loads : Bytes → Except String Cbor) (pub : PublicKeyArg Key)

/-- `data` carries the given signed parts and `proof`, and is VERIFIED with `result`. -/
structure VerifiedReceipt (protectedBytes : Bytes) (payload : Option Bytes) (signature : Bytes)
    (data : Bytes) (proof : ProofFields) (result : ProofResult) : Prop where
  carries : ∃ unprotected,
    parseCoseSign1 loads (.bytes data) = .ok ⟨protectedBytes, unprotected, payload, signature⟩ ∧
    extractInclusionProof unprotected = .ok proof
  returns : verify H crypto loads (some ⟨some (.bytes data), some pub⟩) = .ok result
  verified : result.status = .verified

/-- All VERIFIED receipts with these signed parts name the same root, tree size and index. -/
def NonMalleable (protectedBytes : Bytes) (payload : Option Bytes) (signature : Bytes) : Prop :=
  ∀ data proof result data' proof' result',
    VerifiedReceipt H crypto loads pub protectedBytes payload signature data proof result →
    VerifiedReceipt H crypto loads pub protectedBytes payload signature data' proof' result' →
    result.evidenceRef = result'.evidenceRef ∧ proof.treeSize = proof'.treeSize ∧
      proof.leafIndex = proof'.leafIndex

def unprotectedHeader (proof : ProofFields) : List (Cbor × Cbor) :=
  [(.int labelVdp, .map [(.int vdpTreeSize, .int proof.treeSize),
    (.int vdpLeafIndex, .int proof.leafIndex),
    (.int vdpHashPath, .array (proof.path.map .bytes)),
    (.int vdpRootHash, .bytes proof.rootHash)])]

def receiptValue (protectedBytes : Bytes) (proof : ProofFields) (payload signature : Bytes) :
    Cbor :=
  .tag coseSign1Tag (.array [.bytes protectedBytes, .map (unprotectedHeader proof),
    .bytes payload, .bytes signature])

/-- `data` is the CBOR of a receipt with these parts, of whatever length. -/
def DecodesTo (data : Bytes) (parsed : ParsedReceipt) : Prop :=
  ∃ obj xs, loads data = .ok obj ∧ coseArray obj = .ok (.array xs) ∧ coseFields xs = .ok parsed

def aloneTree (payload : Bytes) : ProofFields := ⟨1, 0, [], rfc9162LeafHash H payload⟩

/-- A path too short for its tree, which the walk accepts. -/
def shortTree (payload : Bytes) : ProofFields := ⟨2, 0, [], rfc9162LeafHash H payload⟩

def twiceTree (payload : Bytes) : ProofFields :=
  ⟨2, 0, [rfc9162LeafHash H payload],
    hashChildren H (rfc9162LeafHash H payload) (rfc9162LeafHash H payload)⟩

/-- CBOR can carry each of the two smallest proofs in place of any other, and needs no more
bytes for it. -/
def Rewritable (protectedBytes event signature : Bytes) : Prop :=
  ∀ data unprotected proof,
    DecodesTo loads data ⟨protectedBytes, unprotected, some event, signature⟩ →
    extractInclusionProof unprotected = .ok proof → proof.rootHash.length = sha256Size →
    ∀ small ∈ [aloneTree H event, shortTree H event], ∃ data', data'.length ≤ data.length ∧
      DecodesTo loads data' ⟨protectedBytes, unprotectedHeader small, some event, signature⟩

end Definitions

variable {H : HashFunction} {Key : Type} {crypto : Cryptography Key}
  {loads : Bytes → Except String Cbor} {pub : PublicKeyArg Key}

theorem pathElements_bytes (path : List Bytes) (i : ℕ) :
    pathElements i (path.map .bytes) = .ok path := by
  induction path generalizing i with
  | nil => rfl
  | cons b path ih => simp [pathElements, ih, bind, Except.bind]

theorem extract_unprotectedHeader (proof : ProofFields) :
    extractInclusionProof (unprotectedHeader proof) = .ok proof := by
  have hpath := pathElements_bytes proof.path 0
  simp [extractInclusionProof, unprotectedHeader, requireLabel, getLabel, Cbor.isLabel, requireInt,
    labelVdp, vdpTreeSize, vdpLeafIndex, vdpHashPath, vdpRootHash, hpath, bind, Except.bind]

/-- A receipt is parsed when it decodes and is within the cap. -/
theorem parse_eq_ok {data : Bytes} {parsed : ParsedReceipt} :
    parseCoseSign1 loads (.bytes data) = .ok parsed ↔
      data.length ≤ maxReceiptBytes ∧ DecodesTo loads data parsed := by
  rw [parseCoseSign1]
  by_cases hcap : data.length ≤ maxReceiptBytes
  · rw [if_neg (Nat.not_lt.mpr hcap)]
    constructor
    · intro h
      refine ⟨hcap, ?_⟩
      cases hloads : loads data with
      | error text => simp [hloads] at h
      | ok obj =>
        simp only [hloads] at h
        obtain ⟨value, harray, hfields⟩ := bind_eq_ok.mp h
        cases value with
        | array xs => exact ⟨obj, xs, hloads, harray, hfields⟩
        | _ => cases hfields
    · rintro ⟨-, obj, xs, hloads, harray, hfields⟩
      simp only [hloads, harray]
      exact hfields
  · rw [if_pos (Nat.not_le.mp hcap)]
    constructor
    · intro h
      cases h
    · intro h
      exact absurd h.1 hcap

theorem decodesTo_receiptValue {data protectedBytes payload signature : Bytes}
    {proof : ProofFields}
    (hloads : loads data = .ok (receiptValue protectedBytes proof payload signature)) :
    DecodesTo loads data ⟨protectedBytes, unprotectedHeader proof, some payload, signature⟩ :=
  ⟨_, _, hloads, rfl, rfl⟩

theorem alone_walk (payload : Bytes) :
    rfc9162RootFromProof H (rfc9162LeafHash H payload) (aloneTree H payload).leafIndex
      (aloneTree H payload).treeSize (aloneTree H payload).path =
      .ok (aloneTree H payload).rootHash := rfl

theorem short_walk (payload : Bytes) :
    rfc9162RootFromProof H (rfc9162LeafHash H payload) (shortTree H payload).leafIndex
      (shortTree H payload).treeSize (shortTree H payload).path =
      .ok (shortTree H payload).rootHash := rfl

theorem twice_walk (payload : Bytes) :
    rfc9162RootFromProof H (rfc9162LeafHash H payload) (twiceTree H payload).leafIndex
      (twiceTree H payload).treeSize (twiceTree H payload).path =
      .ok (twiceTree H payload).rootHash := by
  simp [rfc9162RootFromProof, twiceTree, maxProofPath, pathLoop, rfc9162LeafHash, bind, Except.bind]

/-- An event with an accepted signature is VERIFIED with any proof that walks to its root. -/
theorem verifiedReceipt_of_walk {key : Key} (hkey : loadPublicKey crypto pub = .ok key)
    {protectedBytes payload signature : Bytes} (hpayload : payload ≠ [])
    (hsig : signature.length = 64)
    (hes : verifyEs256 crypto key protectedBytes payload signature = true) {proof : ProofFields}
    (hroot : proof.rootHash.length = 32)
    (hwalk : rfc9162RootFromProof H (rfc9162LeafHash H payload) proof.leafIndex proof.treeSize
      proof.path = .ok proof.rootHash)
    {data : Bytes} (hcap : data.length ≤ maxReceiptBytes)
    (hdecodes : DecodesTo loads data
      ⟨protectedBytes, unprotectedHeader proof, some payload, signature⟩) :
    ∃ result, VerifiedReceipt H crypto loads pub protectedBytes (some payload) signature data proof
      result := by
  have hparse := parse_eq_ok.mpr ⟨hcap, hdecodes⟩
  have hproof := extract_unprotectedHeader proof
  obtain ⟨result, hresult, -⟩ :
      Verified (ProofResult.verified profileId method (evidenceRef proof.rootHash)) :=
    verified_of_not_blank (evidenceRef_not_blank proof.rootHash)
  have hverified : verifyParsed H crypto key
      ⟨protectedBytes, unprotectedHeader proof, some payload, signature⟩ = .ok result ∧
        result.status = .verified :=
    verifyParsed_verified.mpr ⟨payload, proof, rfl, hpayload, hproof, hroot, hwalk, hsig, hes,
      hresult⟩
  refine ⟨result, ⟨_, hparse, hproof⟩, ?_, hverified.2⟩
  simp only [verify, hkey, hparse]
  exact hverified.1

/-- For every key and all signed parts, all VERIFIED receipts agree on the tree only if there
is none: the event is empty or absent, its signature is not accepted, or no encoding of even the
smallest receipt is within the cap. -/
theorem nonmalleable_iff (H : HashFunction) (crypto : Cryptography Key)
    (loads : Bytes → Except String Cbor) (pub : PublicKeyArg Key) (key : Key)
    (hkey : loadPublicKey crypto pub = .ok key) (protectedBytes : Bytes) (payload : Option Bytes)
    (signature : Bytes)
    (hwire : ∀ event ∈ payload, Rewritable H loads protectedBytes event signature) :
    NonMalleable H crypto loads pub protectedBytes payload signature ↔
      ∀ event ∈ payload, event = [] ∨ signature.length ≠ 64 ∨
        verifyEs256 crypto key protectedBytes event signature = false ∨
        ∀ data, DecodesTo loads data
            ⟨protectedBytes, unprotectedHeader (aloneTree H event), some event, signature⟩ →
          maxReceiptBytes < data.length := by
  constructor
  · rintro hsame event rfl
    by_contra hnot
    simp only [not_or, ne_eq, not_not, Bool.not_eq_false, not_forall, not_lt] at hnot
    obtain ⟨hevent, hsig, hes, data, hdecodes, hcap⟩ := hnot
    -- an accepted event is VERIFIED alone in a tree and, as briefly, in a tree of two
    have hroot : (rfc9162LeafHash H event).length = 32 := H.digest_length _
    obtain ⟨data', hshorter, hdecodes'⟩ := hwire event rfl data _ _ hdecodes
      (extract_unprotectedHeader _) hroot (shortTree H event) (by simp)
    obtain ⟨result, halone⟩ := verifiedReceipt_of_walk hkey hevent hsig hes hroot
      (alone_walk event) hcap hdecodes
    obtain ⟨result', hshort⟩ := verifiedReceipt_of_walk hkey hevent hsig hes hroot
      (short_walk event) (hshorter.trans hcap) hdecodes'
    have hsize : (1 : ℤ) = 2 := (hsame _ _ _ _ _ _ halone hshort).2.1
    exact absurd hsize (by decide)
  · intro hnone data proof result data' proof' result' h _
    obtain ⟨⟨unprotected, hparse, -⟩, hreturns, hverified⟩ := h
    obtain ⟨hcap, hdecodes⟩ := parse_eq_ok.mp hparse
    simp only [verify, hkey, hparse] at hreturns
    obtain ⟨event, proof, hpayload, hevent, hproof, hroot, -, hsig, hes, -⟩ :=
      verifyParsed_verified.mp ⟨hreturns, hverified⟩
    obtain rfl : payload = some event := hpayload
    rcases hnone event rfl with h | h | h | h
    · exact absurd h hevent
    · exact absurd hsig h
    · rw [hes] at h
      cases h
    · obtain ⟨data'', hshorter, hdecodes'⟩ := hwire event rfl data unprotected proof hdecodes
        hproof hroot (aloneTree H event) (by simp)
      exact absurd (h data'' hdecodes') (Nat.not_lt.mpr (hshorter.trans hcap))

/-! ## One signature, two trees -/

def protectedEs256 : Bytes := [0xa1, 0x01, 0x26]

def signatureSevens : Bytes := List.replicate 64 7

/-- A curve on which one key has signed one event. -/
def oneSignature : Cryptography Unit where
  loadPem _ := .error "no PEM key"
  loadDer _ := .error "no DER key"
  fromNumbers _ _ := .error "not a curve point"
  fromEncodedPoint _ := .error "not a curve point"
  curve _ := some "secp256r1"
  verifyEcdsa _ r s message :=
    r = intFromBytes (List.replicate 32 7) ∧ s = intFromBytes (List.replicate 32 7) ∧
      message = sigStructureBytes protectedEs256 [0x61]

def proofBytes (proof : ProofFields) : Bytes :=
  cborHead 5 4 ++ cborHead 1 0 ++ cborHead 0 proof.treeSize.toNat ++
    cborHead 1 1 ++ cborHead 0 proof.leafIndex.toNat ++
    cborHead 1 2 ++ cborHead 4 proof.path.length ++ proof.path.flatMap cborBytes ++
    cborHead 1 3 ++ cborBytes proof.rootHash

/-- The CBOR of `receiptValue`, for a size and an index below 2^64. -/
def receiptBytes (protectedBytes : Bytes) (proof : ProofFields) (payload signature : Bytes) :
    Bytes :=
  cborHead 6 coseSign1Tag ++ cborHead 4 4 ++ cborBytes protectedBytes ++
    (cborHead 5 1 ++ cborHead 0 labelVdp.toNat ++ proofBytes proof) ++
    cborBytes payload ++ cborBytes signature

/-- The receipt of the event `a` with a given proof. -/
def receiptOf (proof : ProofFields) : Bytes :=
  receiptBytes protectedEs256 proof [0x61] signatureSevens

/-- A decoder that knows the receipts with the given proofs. -/
def readReceipts (proofs : List ProofFields) (data : Bytes) : Except String Cbor :=
  match proofs.find? fun proof => receiptOf proof == data with
  | some proof => .ok (receiptValue protectedEs256 proof [0x61] signatureSevens)
  | none => .error "not a known receipt"

theorem readReceipts_eq {proofs : List ProofFields}
    (hdistinct : proofs.Pairwise fun a b => receiptOf a ≠ receiptOf b) {proof : ProofFields}
    (h : proof ∈ proofs) :
    readReceipts proofs (receiptOf proof) =
      .ok (receiptValue protectedEs256 proof [0x61] signatureSevens) := by
  induction proofs with
  | nil => cases h
  | cons first proofs ih =>
    obtain ⟨hfirst, hdistinct⟩ := List.pairwise_cons.mp hdistinct
    rcases List.mem_cons.mp h with rfl | h
    · simp only [readReceipts, List.find?_cons, beq_self_eq_true]
    · have hne : (receiptOf first == receiptOf proof) = false :=
        beq_eq_false_iff_ne.mpr (hfirst proof h)
      simp only [readReceipts, List.find?_cons, hne]
      exact ih hdistinct h

theorem decodesTo_readReceipts {proofs : List ProofFields} {data : Bytes} {parsed : ParsedReceipt}
    (h : DecodesTo (readReceipts proofs) data parsed) :
    ∃ proof ∈ proofs, receiptOf proof = data := by
  obtain ⟨obj, xs, hloads, -⟩ := h
  rw [readReceipts] at hloads
  cases hfind : proofs.find? fun proof => receiptOf proof == data with
  | none => rw [hfind] at hloads; cases hloads
  | some proof =>
    have hfound := List.find?_some hfind
    exact ⟨proof, List.mem_of_find?_eq_some hfind, eq_of_beq hfound⟩

/-- The two smallest proofs of the event `a`, and one that names another root. -/
def heldProofs : List ProofFields :=
  [aloneTree sha256 [0x61], shortTree sha256 [0x61], twiceTree sha256 [0x61]]

theorem held_distinct : heldProofs.Pairwise fun a b => receiptOf a ≠ receiptOf b := by
  decide +kernel

theorem decodesTo_held {proof : ProofFields} (h : proof ∈ heldProofs) :
    DecodesTo (readReceipts heldProofs) (receiptOf proof)
      ⟨protectedEs256, unprotectedHeader proof, some [0x61], signatureSevens⟩ :=
  decodesTo_receiptValue (readReceipts_eq held_distinct h)

theorem held_rewritable :
    Rewritable sha256 (readReceipts heldProofs) protectedEs256 [0x61] signatureSevens := by
  intro data unprotected proof hdecodes _ _ small hsmall
  obtain ⟨held, hheld, rfl⟩ := decodesTo_readReceipts hdecodes
  have hlengths : ∀ small ∈ [aloneTree sha256 [0x61], shortTree sha256 [0x61]],
      ∀ held ∈ heldProofs, (receiptOf small).length ≤ (receiptOf held).length := by
    decide +kernel
  have hmem : small ∈ heldProofs := List.mem_append_left [_] hsmall
  exact ⟨receiptOf small, hlengths small hsmall held hheld, decodesTo_held hmem⟩

theorem nonmalleable_iff_held :
    NonMalleable sha256 oneSignature (readReceipts heldProofs) (.key ()) protectedEs256
        (some [0x61]) signatureSevens ↔
      ∀ event ∈ some [0x61], event = [] ∨ signatureSevens.length ≠ 64 ∨
        verifyEs256 oneSignature () protectedEs256 event signatureSevens = false ∨
        ∀ data, DecodesTo (readReceipts heldProofs) data ⟨protectedEs256,
            unprotectedHeader (aloneTree sha256 event), some event, signatureSevens⟩ →
          maxReceiptBytes < data.length := by
  refine nonmalleable_iff sha256 oneSignature (readReceipts heldProofs) (.key ()) () rfl
    protectedEs256 (some [0x61]) signatureSevens ?_
  rintro event ⟨⟩
  exact held_rewritable

theorem sevens_verified {loads : Bytes → Except String Cbor} {proof : ProofFields}
    (hroot : proof.rootHash.length = 32)
    (hwalk : rfc9162RootFromProof sha256 (rfc9162LeafHash sha256 [0x61]) proof.leafIndex
      proof.treeSize proof.path = .ok proof.rootHash)
    {data : Bytes} (hcap : data.length ≤ maxReceiptBytes)
    (hdecodes : DecodesTo loads data
      ⟨protectedEs256, unprotectedHeader proof, some [0x61], signatureSevens⟩) :
    ∃ result, VerifiedReceipt sha256 oneSignature loads (.key ()) protectedEs256
      (some [0x61]) signatureSevens data proof result := by
  have hkey : loadPublicKey oneSignature (.key ()) = .ok () := rfl
  have hes : verifyEs256 oneSignature () protectedEs256 [0x61] signatureSevens = true := by
    decide +kernel
  exact verifiedReceipt_of_walk hkey (by decide) (by decide) hes hroot hwalk hcap hdecodes

/-- One signature is VERIFIED for a tree of one leaf and for a tree of two. -/
theorem one_signature_two_trees :
    ¬ NonMalleable sha256 oneSignature (readReceipts heldProofs) (.key ()) protectedEs256
      (some [0x61]) signatureSevens := by
  intro hsame
  obtain ⟨result, halone⟩ := sevens_verified (sha256.digest_length _) (alone_walk [0x61])
    (by decide +kernel) (decodesTo_held (by simp [heldProofs]))
  obtain ⟨result', htwice⟩ := sevens_verified (sha256.digest_length _) (twice_walk [0x61])
    (by decide +kernel) (decodesTo_held (by simp [heldProofs]))
  have hsize : (1 : ℤ) = 2 := (hsame _ _ _ _ _ _ halone htwice).2.1
  exact absurd hsize (by decide)

end ReceiptMalleability
