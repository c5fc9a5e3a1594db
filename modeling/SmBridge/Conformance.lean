import SmBridge.Tlog

/-!
# The conformance audit

The auditor recomputes roots from the live leaves and compares them with two signed
checkpoints. Over honest checkpoints the three checks pass for no other leaves.
-/
namespace Conformance

open Python
open Hashing
open MerkleTree
open Tlog

structure CheckResult where
  name : String
  ok : Bool
  detail : String
  deriving DecidableEq, Repr

structure ConformanceReport where
  checks : List CheckResult
  deriving DecidableEq, Repr

def ConformanceReport.passed (report : ConformanceReport) : Bool := report.checks.all (·.ok)

section Definitions

variable (H : HashFunction) {PrivateKey PublicKey : Type} (ed : Ed25519 PrivateKey PublicKey)

def checkpointSignature (checkpoint : Checkpoint) (publicKey : PublicKey) : CheckResult :=
  let sigOk := MerkleLog.verifyCheckpoint ed checkpoint publicKey
  ⟨"checkpoint-signature", sigOk,
    if sigOk then "verifies against root key" else "signature INVALID"⟩

def rootRecomputation (log : MerkleLog) (checkpoint : Checkpoint) : CheckResult :=
  let liveRootB64 := log.rootB64 H
  let rootOk := liveRootB64 = checkpoint.rootB64 ∧ (log.size : ℤ) = checkpoint.size
  ⟨"root-recomputation", rootOk,
    if rootOk then "recomputed root matches signed checkpoint"
    else "DIVERGENT: live " ++ sliceStr liveRootB64 16 ++ "…/" ++ toString log.size ++
      " vs signed " ++ sliceStr checkpoint.rootB64 16 ++ "…/" ++ toString checkpoint.size⟩

def appendOnly (log : MerkleLog) (pinned : Checkpoint) : CheckResult :=
  let recomputed := b64encode (merkleRoot H (sliceTo log.leaves pinned.size))
  let grewOk := pinned.size ≤ log.size ∧ recomputed = pinned.rootB64
  ⟨"append-only", grewOk,
    if grewOk then "old tree is a prefix of the new (history only grew)"
    else "APPEND-ONLY VIOLATION: prior tree is not a prefix of the current log"⟩

def audit (log : MerkleLog) (checkpoint : Checkpoint) (publicKey : PublicKey)
    (pinned : Option Checkpoint) : ConformanceReport :=
  ⟨[checkpointSignature ed checkpoint publicKey, rootRecomputation H log checkpoint] ++
    pinned.toList.map (appendOnly H log)⟩

end Definitions

variable {H : HashFunction} {PrivateKey PublicKey : Type} {ed : Ed25519 PrivateKey PublicKey}

theorem verifyCheckpoint_signCheckpoint
    (hed : ∀ key message, ed.verify (ed.publicKey key) (ed.sign key message) message = true)
    (log : MerkleLog) (key : PrivateKey) :
    MerkleLog.verifyCheckpoint ed (log.signCheckpoint H ed key) (ed.publicKey key) = true := by
  simp only [MerkleLog.verifyCheckpoint, MerkleLog.signCheckpoint, b64decode_b64encode]
  exact hed key _

theorem root_of_size_iff {xs ys : List Bytes} (hxs : ∀ l ∈ xs, l.length = 32)
    (hys : ∀ l ∈ ys, l.length = 32) (hcf : CollisionFree H (rootInputs H xs ++ rootInputs H ys)) :
    (b64encode (merkleRoot H xs) = b64encode (merkleRoot H ys) ∧ xs.length = ys.length) ↔
      xs = ys := by
  constructor
  · rintro ⟨hroot, hlen⟩
    rw [b64encode_injective.eq_iff, merkleRoot_eq, merkleRoot_eq] at hroot
    exact root_injective hlen (nodes_separate hxs hys hcf) hroot
  · rintro rfl
    exact ⟨rfl, rfl⟩

variable (ed) in
theorem rootRecomputation_iff {log signed : MerkleLog} (key : PrivateKey)
    (hlog : ∀ l ∈ log.leaves, l.length = 32) (hsigned : MerkleLog.Reachable H signed)
    (hcf : CollisionFree H (rootInputs H log.leaves ++ rootInputs H signed.leaves)) :
    (rootRecomputation H log (signed.signCheckpoint H ed key)).ok = true ↔
      log.leaves = signed.leaves := by
  rw [← root_of_size_iff hlog (MerkleLog.reachable_leaves_length hsigned) hcf]
  exact decide_eq_true_iff.trans (and_congr_right fun _ => Int.ofNat_inj)

variable (ed) in
theorem appendOnly_iff {log signed : MerkleLog} (key : PrivateKey)
    (hlog : ∀ l ∈ log.leaves, l.length = 32) (hsigned : MerkleLog.Reachable H signed)
    (hcf : CollisionFree H
      (rootInputs H (log.leaves.take signed.size) ++ rootInputs H signed.leaves)) :
    (appendOnly H log (signed.signCheckpoint H ed key)).ok = true ↔
      signed.leaves <+: log.leaves := by
  have hroot := root_of_size_iff (fun l hl => hlog l (List.mem_of_mem_take hl))
    (MerkleLog.reachable_leaves_length hsigned) hcf
  have hok : (appendOnly H log (signed.signCheckpoint H ed key)).ok = true ↔
      b64encode (merkleRoot H (log.leaves.take signed.size)) =
          b64encode (merkleRoot H signed.leaves) ∧
        (log.leaves.take signed.size).length = signed.leaves.length := by
    have hlen : ((signed.size : ℤ) ≤ log.size) ↔
        (log.leaves.take signed.size).length = signed.leaves.length := by
      rw [List.length_take, MerkleLog.size, MerkleLog.size]
      omega
    rw [← hlen, and_comm]
    exact decide_eq_true_iff
  rw [hok, hroot, List.prefix_iff_eq_take, eq_comm]
  rfl

/-- Against an honest checkpoint and an honest pinned checkpoint, the audit passes exactly
when the log holds the signed leaves and the pinned leaves are a prefix of them. -/
theorem audit_exact (H : HashFunction) (ed : Ed25519 PrivateKey PublicKey)
    (hed : ∀ key message, ed.verify (ed.publicKey key) (ed.sign key message) message = true)
    (log signed old : MerkleLog) (hlog : ∀ l ∈ log.leaves, l.length = 32)
    (hsigned : MerkleLog.Reachable H signed) (hold : MerkleLog.Reachable H old)
    (key oldKey : PrivateKey)
    (hcf : CollisionFree H (rootInputs H log.leaves ++ rootInputs H signed.leaves ++
      (rootInputs H (log.leaves.take old.size) ++ rootInputs H old.leaves))) :
    (audit H ed log (signed.signCheckpoint H ed key) (ed.publicKey key)
        (some (old.signCheckpoint H ed oldKey))).passed = true ↔
      log.leaves = signed.leaves ∧ old.leaves <+: log.leaves := by
  have hroot := rootRecomputation_iff ed key hlog hsigned
    (hcf.mono (List.subset_append_left _ _))
  have hfront := appendOnly_iff ed oldKey hlog hold
    (hcf.mono (List.subset_append_right _ _))
  have hsig : (checkpointSignature ed (signed.signCheckpoint H ed key) (ed.publicKey key)).ok =
      true := verifyCheckpoint_signCheckpoint hed signed key
  rw [← hroot, ← hfront]
  simp [audit, ConformanceReport.passed, hsig]

/-- A keyed digest in the place of the signature; it accepts what it signed. -/
def keyedDigest : Ed25519 Bytes Bytes where
  publicKey := sha256.digest
  sign key message := sha256.digest (sha256.digest key ++ message)
  verify publicKey signature message := signature = sha256.digest (publicKey ++ message)

theorem audit_exact_grown :
    let old : MerkleLog := MerkleLog.append sha256 {} [0x61]
    let log := old.append sha256 [0x62]
    (audit sha256 keyedDigest log (log.signCheckpoint sha256 keyedDigest [0x01])
      (keyedDigest.publicKey [0x01])
      (some (old.signCheckpoint sha256 keyedDigest [0x01]))).passed = true :=
  (audit_exact sha256 keyedDigest (by simp [keyedDigest]) _ _ _ (by decide +kernel)
    (.append _ (.append _ (.new _ _))) (.append _ (.new _ _)) [0x01] [0x01]
    (by decide +kernel)).mpr ⟨rfl, by decide +kernel⟩

end Conformance
