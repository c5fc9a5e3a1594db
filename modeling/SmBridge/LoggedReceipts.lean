import SmBridge.LogHistory
import SmBridge.ReceiptMalleability
import SmBridge.InclusionProofs

/-!
# What a receipt says about a log

The tree size and the index of a receipt are not signed, and the walk accepts wrong ones. What
is left is membership: a VERIFIED receipt that names the root of a log is about one of its
records.
-/
namespace LoggedReceipts

open Python
open Hashing
open MerkleTree
open MerkleWalk
open Tlog
open ConsistencyProofs
open Rfc9162
open AnsScitt
open Trust
open InclusionProofs
open LogHistory
open ReceiptMalleability

section Definitions

variable (H : HashFunction)

/-- The strings that the check of a receipt hashes. -/
def receiptInputs (payload : Bytes) (proof : ProofFields) : List Bytes :=
  leafInput payload ::
    walkInputs H (rfc9162LeafHash H payload) proof.leafIndex.toNat proof.treeSize.toNat proof.path

/-- What the log itself puts into a receipt for the record at an index. -/
def servedProof (log : MerkleLog) (index : ℕ) (path : List Bytes) : ProofFields :=
  ⟨log.size, index, path, log.root H⟩

end Definitions

variable {H : HashFunction}

/-! ## The walk -/

theorem index_of_walk {leaf root : Bytes} {index size : ℤ} {path : List Bytes}
    (h : rfc9162RootFromProof H leaf index size path = .ok root) : 0 ≤ index ∧ index < size := by
  rw [rfc9162RootFromProof] at h
  split at h
  · cases h
  split at h
  · cases h
  split at h
  · cases h
  exact ⟨by omega, by omega⟩

/-- A walk to the root of a tree starts at one of its leaves, whatever size and index it was
given. -/
theorem logged_of_walk {entries : List Bytes} {payload : Bytes} {proof : ProofFields}
    (hpos : 0 < entries.length)
    (hcf : CollisionFree H (receiptInputs H payload proof ++ treeInputs H entries))
    (h : rfc9162RootFromProof H (rfc9162LeafHash H payload) proof.leafIndex proof.treeSize
      proof.path = .ok (merkleRoot H (entries.map (leafHash H)))) :
    ∃ j : ℕ, entries[j]? = some payload := by
  obtain ⟨hindex, hsize⟩ := index_of_walk h
  obtain ⟨i, hi⟩ := Int.eq_ofNat_of_zero_le hindex
  obtain ⟨n, hn⟩ := Int.eq_ofNat_of_zero_le (hindex.trans hsize.le)
  rw [hi, hn] at h
  rw [receiptInputs, hi, hn, Int.toNat_natCast, Int.toNat_natCast, List.cons_append] at hcf
  have hlt : i < n := by omega
  obtain ⟨-, h32, -, hroot⟩ := (rfc9162RootFromProof_eq_ok hlt).mp h
  rw [merkleRoot_eq] at hroot
  have hmono : CollisionFree H (treeInputs H entries ++
      walkInputs H (leafHash H payload) i n proof.path) :=
    hcf.mono (List.subset_cons_of_subset _ (List.append_subset.mpr
      ⟨List.subset_append_right _ _, List.subset_append_left _ _⟩))
  have hsafe := safe_of_collisionFree (walkSteps_length h32) hmono
  obtain ⟨ys, hat, hleaf, -⟩ :=
    climb_eq_root (by rwa [List.length_map]) hsafe hroot.symm
  obtain ⟨j, -, hget, -⟩ := leaf_of_subtree hpos
    (hcf.mono (List.cons_subset_cons _ (List.subset_append_right _ _))) hat hleaf
  exact ⟨j, hget⟩

theorem walk_served {log : MerkleLog} (hlog : MerkleLog.Reachable H log)
    (hsize : log.size ≤ 2 ^ 64) {i : ℕ} {payload : Bytes} (hget : log.entries[i]? = some payload)
    (hi : i < log.leaves.length) :
    rfc9162RootFromProof H (rfc9162LeafHash H payload) i log.size
        (Tlog.inclusionProof H log.leaves i) = .ok (log.root H) ∧
      walkInputs H (rfc9162LeafHash H payload) i log.size (Tlog.inclusionProof H log.leaves i) ⊆
        treeInputs H log.entries := by
  have hleaf : rfc9162LeafHash H payload = log.leaves[i] := leaf_of_entry hlog hi hget
  have hsubset := List.cons_subset.mp (served_inputs hlog hi hget)
  have hlength := generated_length (H := H) hi
  have hdeep := MerkleShape.turns_length_le _ i hi 64 hsize
  refine ⟨?_, (List.append_subset.mp hsubset.2).2⟩
  rw [hleaf]
  refine (rfc9162RootFromProof_eq_ok hi).mpr ⟨?_, ?_, ?_, climb_generated hi⟩
  · rw [hlength]
    exact hdeep
  · exact generated_elements (MerkleLog.reachable_leaves_length hlog) hi
  · rw [hlength, List.drop_length]
    exact List.forall_mem_nil _

/-! ## Receipts -/

section Receipts

variable {Key : Type} {crypto : Cryptography Key} {loads : Bytes → Except String Cbor}
  {pub : PublicKeyArg Key}

theorem walk_of_verified {receipt : BytesArg} {parsed : ParsedReceipt} {payload : Bytes}
    {proof : ProofFields} (hparsed : parseCoseSign1 loads receipt = .ok parsed)
    (hpayload : parsed.payload = some payload)
    (hproof : extractInclusionProof parsed.unprotected = .ok proof)
    (h : Verified (verify H crypto loads (some ⟨some receipt, some pub⟩))) :
    rfc9162RootFromProof H (rfc9162LeafHash H payload) proof.leafIndex proof.treeSize proof.path =
      .ok proof.rootHash := by
  obtain ⟨result, hresult, hverified⟩ := h
  simp only [verify] at hresult
  cases hkey : loadPublicKey crypto pub with
  | error text => exact absurd ⟨hkey ▸ hresult, hverified⟩ not_verified_of_notVerified
  | ok key =>
    simp only [hkey, hparsed] at hresult
    obtain ⟨payload', proof', hpayload', -, hproof', -, hwalk, -⟩ :=
      verifyParsed_verified.mp ⟨hresult, hverified⟩
    obtain rfl : payload = payload' := Option.some.inj (hpayload.symm.trans hpayload')
    obtain rfl : proof = proof' := Except.ok.inj (hproof.symm.trans hproof')
    exact hwalk

/-- For an event with an accepted signature whose receipts fit the size cap, there is a VERIFIED
receipt that names the root of the log exactly if the event is one of the log's records. -/
theorem receipt_exact (H : HashFunction) (crypto : Cryptography Key)
    (loads : Bytes → Except String Cbor) (pub : PublicKeyArg Key) (key : Key)
    (hkey : loadPublicKey crypto pub = .ok key) (log : MerkleLog)
    (hlog : MerkleLog.Reachable H log) (hpos : 0 < log.size) (hsize : log.size ≤ 2 ^ 64)
    (hserved : log.minProofSize ≤ log.size) (hcf : CollisionFree H (treeInputs H log.entries))
    (protectedBytes payload signature : Bytes) (hpayload : payload ≠ [])
    (hsig : signature.length = 64)
    (hes : verifyEs256 crypto key protectedBytes payload signature = true)
    (dumps : ProofFields → Bytes)
    (hcodec : ∀ (i : ℕ) path, log.entries[i]? = some payload →
      log.inclusionProof H i = .ok path →
      loads (dumps (servedProof H log i path)) =
        .ok (receiptValue protectedBytes (servedProof H log i path) payload signature))
    (hcap : ∀ (i : ℕ) path, log.entries[i]? = some payload → log.inclusionProof H i = .ok path →
      (dumps (servedProof H log i path)).length ≤ maxReceiptBytes) :
    (∃ data proof result, proof.rootHash = log.root H ∧
        CollisionFree H (receiptInputs H payload proof ++ treeInputs H log.entries) ∧
        VerifiedReceipt H crypto loads pub protectedBytes (some payload) signature data proof
          result) ↔
      payload ∈ log.entries := by
  have hleaves := MerkleLog.reachable_leaves hlog
  have hcount := size_entries hlog
  constructor
  · rintro ⟨data, proof, result, hroot, hcf', ⟨unprotected, hparse, hproof⟩, hreturns, hverified⟩
    have hwalk := walk_of_verified hparse rfl hproof ⟨result, hreturns, hverified⟩
    rw [hroot, MerkleLog.root, hleaves] at hwalk
    obtain ⟨j, hget⟩ := logged_of_walk (hcount ▸ hpos) hcf' hwalk
    exact List.mem_of_getElem? hget
  · intro hmem
    obtain ⟨i, hi, rfl⟩ := List.mem_iff_getElem.mp hmem
    have hget : log.entries[i]? = some log.entries[i] := List.getElem?_eq_getElem hi
    have hin : i < log.leaves.length := by
      rw [hleaves, List.length_map]
      exact hi
    have hpath := served_proof (H := H) hserved hin
    obtain ⟨hwalk, hhashed⟩ := walk_served hlog hsize hget hin
    have hroot : (log.root H).length = 32 := by
      rw [MerkleLog.root, merkleRoot_eq]
      exact root_length (MerkleLog.reachable_leaves_length hlog)
    let proof := servedProof H log i (Tlog.inclusionProof H log.leaves i)
    have hproof : proof.rootHash.length = 32 := hroot
    obtain ⟨result, hreceipt⟩ := verifiedReceipt_of_walk hkey hpayload hsig hes hproof hwalk
      (hcap i _ hget hpath) (decodesTo_receiptValue (hcodec i _ hget hpath))
    refine ⟨_, proof, result, rfl, hcf.mono ?_, hreceipt⟩
    rw [receiptInputs, List.cons_append]
    refine List.cons_subset.mpr ⟨?_, List.append_subset.mpr ⟨hhashed, List.Subset.refl _⟩⟩
    exact List.mem_append_left _ (List.mem_map_of_mem hmem)

/-- A log of the event `a` alone, which serves proofs from the first record on. -/
def oneRecord : MerkleLog := MerkleLog.append sha256 ⟨"sm-bridge/tlog", 1, [], []⟩ [0x61]

theorem oneRecord_reachable : MerkleLog.Reachable sha256 oneRecord := .append _ (.new _ _)

theorem oneRecord_root : oneRecord.root sha256 = rfc9162LeafHash sha256 [0x61] := by
  rw [MerkleLog.root, merkleRoot_eq]
  exact root_singleton _

def twoRecords : MerkleLog := MerkleLog.append sha256 oneRecord [0x62]

/-- The proof for the first of the two records. -/
def firstProof : ProofFields := servedProof sha256 twoRecords 0 [leafHash sha256 [0x62]]

theorem firstProof_path (x y : Bytes) : Tlog.inclusionProof sha256 [x, y] 0 = [y] := by
  have hsplit : splitPoint [x, y].length = 1 := rfl
  have hfirst : Tlog.inclusionProof sha256 [x] 0 = [] := by
    rw [Tlog.inclusionProof]
    rfl
  rw [Tlog.inclusionProof, hsplit]
  change Tlog.inclusionProof sha256 [x] 0 ++ [merkleRoot sha256 [y]] = [y]
  rw [hfirst, merkleRoot_eq, root_singleton, List.nil_append]

theorem first_served {i : ℕ} {path : List Bytes} (hget : twoRecords.entries[i]? = some [0x61])
    (hpath : twoRecords.inclusionProof sha256 i = .ok path) :
    servedProof sha256 twoRecords i path = firstProof := by
  obtain ⟨hi, -⟩ := List.getElem?_eq_some_iff.mp hget
  obtain rfl : i = 0 := by
    have hlt : i < 2 := hi
    have hone : i ≠ 1 := by
      rintro rfl
      exact absurd hget (by decide)
    omega
  have hgenerated : twoRecords.inclusionProof sha256 0 =
      .ok (Tlog.inclusionProof sha256 twoRecords.leaves 0) :=
    served_proof (by decide) (by decide)
  obtain rfl := Except.ok.inj (hpath.symm.trans hgenerated)
  rw [firstProof, show Tlog.inclusionProof sha256 twoRecords.leaves 0 = _ from firstProof_path _ _]

theorem receipt_exact_two :
    (∃ data proof result, proof.rootHash = twoRecords.root sha256 ∧
        CollisionFree sha256 (receiptInputs sha256 [0x61] proof ++
          treeInputs sha256 twoRecords.entries) ∧
        VerifiedReceipt sha256 oneSignature (readReceipts [firstProof]) (.key ()) protectedEs256
          (some [0x61]) signatureSevens data proof result) ↔
      [0x61] ∈ twoRecords.entries := by
  refine receipt_exact sha256 oneSignature (readReceipts [firstProof]) (.key ()) () rfl twoRecords
    (.append _ oneRecord_reachable) (by decide) (by decide) (by decide)
    (three_collisionFree.mono twoAppended_inputs) protectedEs256 [0x61] signatureSevens
    (by decide) (by decide) (by decide +kernel) receiptOf ?_ ?_
  · intro i path hget hpath
    rw [first_served hget hpath]
    exact readReceipts_eq (List.pairwise_singleton _ _) List.mem_cons_self
  · intro i path hget hpath
    rw [first_served hget hpath]
    decide +kernel

/-- A VERIFIED receipt outlives its log: where a monitor has followed the log whose root the
receipt names, every log it has accepted since holds the event in one and the same place. -/
theorem receipt_survives (H : HashFunction) (crypto : Cryptography Key)
    (loads : Bytes → Except String Cbor) (pub : PublicKeyArg Key) {receipt : BytesArg}
    {parsed : ParsedReceipt} {payload : Bytes} {proof : ProofFields}
    (hparsed : parseCoseSign1 loads receipt = .ok parsed)
    (hpayload : parsed.payload = some payload)
    (hproof : extractInclusionProof parsed.unprotected = .ok proof)
    (h : Verified (verify H crypto loads (some ⟨some receipt, some pub⟩)))
    (start : MerkleLog) (rounds : List Round) (hstart : MerkleLog.Reachable H start)
    (hpos : 0 < start.size) (hroot : proof.rootHash = start.root H)
    (hlogs : ∀ round ∈ rounds, MerkleLog.Reachable H round.log)
    (h32 : ∀ round ∈ rounds, ∀ p ∈ round.proof, p.length = 32)
    (hcf : CollisionFree H (receiptInputs H payload proof ++
      (treeInputs H start.entries ++ followedInputs H start rounds)))
    (hfollowed : Followed H start rounds) :
    ∃ j : ℕ, ∀ log ∈ start :: rounds.map Round.log, log.entries[j]? = some payload := by
  have hleaves := MerkleLog.reachable_leaves hstart
  have hwalk := walk_of_verified hparsed hpayload hproof h
  rw [hroot, MerkleLog.root, hleaves] at hwalk
  have hcount : 0 < start.entries.length := by
    rwa [MerkleLog.size, hleaves, List.length_map] at hpos
  obtain ⟨j, hget⟩ := logged_of_walk hcount (hcf.mono (List.append_subset.mpr
    ⟨List.subset_append_left _ _,
      List.subset_append_of_subset_right _ (List.subset_append_left _ _)⟩)) hwalk
  have hkept := kept_of_followed hstart hlogs h32 (hcf.mono
    (List.subset_append_of_subset_right _ (List.subset_append_right _ _))) hfollowed
  refine ⟨j, List.forall_mem_cons.mpr ⟨hget, fun later hlater => ?_⟩⟩
  obtain ⟨more, hmore⟩ := hkept later hlater
  obtain ⟨hj, -⟩ := List.getElem?_eq_some_iff.mp hget
  rw [← hmore, List.getElem?_append_left hj, hget]

theorem subproof_one (x y : Bytes) : subproof sha256 1 [x, y] true = [y] := by
  have hsplit : splitPoint [x, y].length = 1 := rfl
  have hfull : subproof sha256 1 [x] true = [] := by
    rw [subproof]
    rfl
  rw [subproof, hsplit]
  change subproof sha256 1 [x] true ++ [merkleRoot sha256 [y]] = [y]
  rw [hfull, merkleRoot_eq, root_singleton, List.nil_append]

theorem twoRecords_proof : subproof sha256 1 twoRecords.leaves true = [leafHash sha256 [0x62]] :=
  subproof_one _ _

theorem twoRecords_followed :
    Followed sha256 oneRecord [⟨twoRecords, [leafHash sha256 [0x62]]⟩] := by
  have hpos : 0 < oneRecord.size := by decide
  have hlt : oneRecord.size < twoRecords.size := by decide
  have haccepts := accepts_served (H := sha256) hpos hlt rfl
  rw [show subproof sha256 oneRecord.size twoRecords.leaves true = _ from twoRecords_proof]
    at haccepts
  exact ⟨haccepts, trivial⟩

theorem twoRecords_inputs : receiptInputs sha256 [0x61] (aloneTree sha256 [0x61]) ++
    (treeInputs sha256 oneRecord.entries ++
      followedInputs sha256 oneRecord [⟨twoRecords, [leafHash sha256 [0x62]]⟩]) ⊆
        treeInputs sha256 twoRecords.entries := by
  have hone : 1 < twoRecords.leaves.length := by decide
  have hclient := served_clientInputs (H := sha256) Nat.one_pos hone
  rw [twoRecords_proof] at hclient
  have hleaf : [leafInput [0x61]] ⊆ treeInputs sha256 twoRecords.entries :=
    List.cons_subset.mpr ⟨List.mem_cons_self, List.nil_subset _⟩
  have hfirst : treeInputs sha256 oneRecord.entries ⊆ treeInputs sha256 twoRecords.entries := by
    have hshort : rootInputs sha256 oneRecord.leaves = [] := rootInputs_short Nat.one_lt_two
    exact List.append_subset.mpr ⟨hleaf, hshort ▸ List.nil_subset _⟩
  refine List.append_subset.mpr ⟨hleaf, List.append_subset.mpr ⟨hfirst, ?_⟩⟩
  rw [followedInputs, followedInputs, List.append_nil, roundInputs]
  refine List.append_subset.mpr ⟨List.append_subset.mpr ⟨List.append_subset.mpr
    ⟨hfirst, List.Subset.refl _⟩, ?_⟩, List.subset_append_of_subset_right _ hclient⟩
  exact List.Subset.trans (List.subset_append_right _ _) hfirst

/-- The receipt for the first record, after one more record and one accepted checkpoint. -/
theorem receipt_survives_two :
    ∃ j : ℕ, ∀ log ∈ [oneRecord, twoRecords], log.entries[j]? = some [0x61] := by
  have hroot : (aloneTree sha256 [0x61]).rootHash.length = 32 := sha256.digest_length _
  have hcf : CollisionFree sha256 (treeInputs sha256 twoRecords.entries) :=
    three_collisionFree.mono twoAppended_inputs
  obtain ⟨result, ⟨unprotected, hparsed, hproof⟩, hreturns, hverified⟩ :=
    sevens_verified hroot (alone_walk [0x61]) (by decide +kernel)
      (decodesTo_held List.mem_cons_self)
  exact receipt_survives sha256 oneSignature (readReceipts heldProofs) (.key ()) hparsed rfl hproof
    ⟨result, hreturns, hverified⟩ oneRecord [⟨twoRecords, [leafHash sha256 [0x62]]⟩]
    oneRecord_reachable (by decide) oneRecord_root.symm
    (List.forall_mem_singleton.mpr (.append _ oneRecord_reachable))
    (List.forall_mem_singleton.mpr (List.forall_mem_singleton.mpr (sha256.digest_length _)))
    (hcf.mono twoRecords_inputs) twoRecords_followed

end Receipts

end LoggedReceipts
