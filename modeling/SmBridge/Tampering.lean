import SmBridge.Conformance
import SmBridge.Lib.MerkleBottom

/-!
# Tampering with the log

The audit recomputes the root from the cached leaf hashes and does not read the records. Of
the leaf hashes the root determines the joined siblings only, as their lengths are not checked.
-/
namespace Tampering

open Python
open Hashing
open MerkleTree
open MerkleBottom
open Tlog
open Conformance

/-- `log'` has as many records as `log`, and the bytes of some of them or of their leaves
are others. -/
structure Tampered (log log' : MerkleLog) : Prop where
  entries_length : log'.entries.length = log.entries.length
  leaves_length : log'.leaves.length = log.leaves.length
  changed : log'.entries ≠ log.entries ∨ log'.leaves ≠ log.leaves

section Definitions

variable (H : HashFunction) {PrivateKey PublicKey : Type} (ed : Ed25519 PrivateKey PublicKey)

/-- No audit of the log against the checkpoint passes, whatever else it is given. -/
def Detected (log : MerkleLog) (checkpoint : Checkpoint) : Prop :=
  ∀ (publicKey : PublicKey) (pinned : Option Checkpoint),
    (audit H ed log checkpoint publicKey pinned).passed = false

end Definitions

variable {H : HashFunction} {PrivateKey PublicKey : Type} {ed : Ed25519 PrivateKey PublicKey}

/-! ## The root check decides -/

theorem passed_iff {log : MerkleLog} {checkpoint : Checkpoint} {publicKey : PublicKey} :
    (audit H ed log checkpoint publicKey none).passed = true ↔
      MerkleLog.verifyCheckpoint ed checkpoint publicKey = true ∧
        (rootRecomputation H log checkpoint).ok = true := by
  simp [audit, ConformanceReport.passed, checkpointSignature]

theorem detected_iff
    (hed : ∀ key message, ed.verify (ed.publicKey key) (ed.sign key message) message = true)
    {log signed : MerkleLog} (key : PrivateKey) :
    Detected H ed log (signed.signCheckpoint H ed key) ↔
      (rootRecomputation H log (signed.signCheckpoint H ed key)).ok = false := by
  constructor
  · intro hdetected
    have hfailed := hdetected (ed.publicKey key) none
    rw [← Bool.not_eq_true, passed_iff, verifyCheckpoint_signCheckpoint hed] at hfailed
    simpa using hfailed
  · intro hroot publicKey pinned
    simp [audit, ConformanceReport.passed, hroot]

theorem rootRecomputation_ok_iff {log signed : MerkleLog} (key : PrivateKey)
    (hlen : log.leaves.length = signed.leaves.length) :
    (rootRecomputation H log (signed.signCheckpoint H ed key)).ok = true ↔
      merkleRoot H log.leaves = merkleRoot H signed.leaves := by
  have hok : (rootRecomputation H log (signed.signCheckpoint H ed key)).ok = true ↔
      b64encode (merkleRoot H log.leaves) = b64encode (merkleRoot H signed.leaves) ∧
        (log.size : ℤ) = signed.size := decide_eq_true_iff
  have hsize : log.size = signed.size := hlen
  rw [hok, hsize, b64encode_injective.eq_iff]
  simp

/-- Leaf lists of one length, of leaves of any form, have the same root exactly when their
sibling leaves have the same concatenations. -/
theorem merkleRoot_eq_iff {xs ys : List Bytes} (hlen : xs.length = ys.length)
    (hcf : CollisionFree H (rootInputs H xs ++ rootInputs H ys)) :
    merkleRoot H xs = merkleRoot H ys ↔ bottom (· ++ ·) xs = bottom (· ++ ·) ys := by
  rw [merkleRoot_eq, merkleRoot_eq]
  refine root_eq_iff (fun joined => H.digest (0x01 :: joined)) (fun b => b.length = 32)
    (fun _ => H.digest_length _) ?_ hlen ?_
  · intro a b c d ha hc happ
    exact List.append_inj happ (ha.trans hc.symm)
  · intro p hp q hq hdigest
    have hin := hcf (nodeInput p.1 p.2) (List.mem_append_left _ (List.mem_map_of_mem hp))
      (nodeInput q.1 q.2) (List.mem_append_right _ (List.mem_map_of_mem hq)) hdigest
    exact (List.cons.inj hin).2

/-! ## What is detected -/

theorem detected_of_root
    (hed : ∀ key message, ed.verify (ed.publicKey key) (ed.sign key message) message = true)
    {log log' : MerkleLog} (key : PrivateKey) (hlen : log'.leaves.length = log.leaves.length)
    (hcf : CollisionFree H (rootInputs H log'.leaves ++ rootInputs H log.leaves)) :
    Detected H ed log' (log.signCheckpoint H ed key) ↔
      bottom (· ++ ·) log'.leaves ≠ bottom (· ++ ·) log.leaves := by
  rw [detected_iff hed, ← Bool.not_eq_true, rootRecomputation_ok_iff key hlen,
    merkleRoot_eq_iff hlen hcf]

/-- Leaf hashes that are replaced by other digests are detected. -/
theorem digests_detected
    (hed : ∀ key message, ed.verify (ed.publicKey key) (ed.sign key message) message = true)
    {log log' : MerkleLog} (hlog : MerkleLog.Reachable H log)
    (hlog' : ∀ l ∈ log'.leaves, l.length = 32) (key : PrivateKey)
    (hlen : log'.leaves.length = log.leaves.length)
    (hcf : CollisionFree H (rootInputs H log'.leaves ++ rootInputs H log.leaves)) :
    Detected H ed log' (log.signCheckpoint H ed key) ↔ log'.leaves ≠ log.leaves := by
  rw [detected_of_root hed key hlen hcf]
  refine not_congr ⟨fun hjoined => ?_, fun heq => congrArg _ heq⟩
  exact bottom_injective (fun _ _ _ _ ha hc happ => List.append_inj happ (ha.trans hc.symm))
    hlog' (MerkleLog.reachable_leaves_length hlog) hlen hjoined

/-- A single leaf hash that is replaced, by bytes of any length, is detected. -/
theorem one_leaf_detected
    (hed : ∀ key message, ed.verify (ed.publicKey key) (ed.sign key message) message = true)
    {log log' : MerkleLog} (key : PrivateKey) (k : ℕ) (leaf : Bytes)
    (hset : log'.leaves = log.leaves.set k leaf) (hchanged : log'.leaves ≠ log.leaves)
    (hcf : CollisionFree H (rootInputs H log'.leaves ++ rootInputs H log.leaves)) :
    Detected H ed log' (log.signCheckpoint H ed key) := by
  have hlen : log'.leaves.length = log.leaves.length := by rw [hset, List.length_set]
  rw [detected_of_root hed key hlen hcf, hset]
  rw [hset] at hchanged
  intro hjoined
  refine hchanged (bottom_set ?_ ?_ hjoined)
  · intro a b c h
    exact List.append_cancel_right h
  · intro a b c h
    exact List.append_cancel_left h

/-- Records that are replaced together with their leaf hashes are detected. -/
theorem records_detected
    (hed : ∀ key message, ed.verify (ed.publicKey key) (ed.sign key message) message = true)
    {log log' : MerkleLog} (hlog : MerkleLog.Reachable H log)
    (hlog' : log'.leaves = log'.entries.map (leafHash H)) (key : PrivateKey)
    (hlen : log'.entries.length = log.entries.length) (hchanged : log'.entries ≠ log.entries)
    (hcf : CollisionFree H (treeInputs H log'.entries ++ treeInputs H log.entries)) :
    Detected H ed log' (log.signCheckpoint H ed key) := by
  have hleaves := MerkleLog.reachable_leaves hlog
  have hroots : rootInputs H log'.leaves ++ rootInputs H log.leaves ⊆
      treeInputs H log'.entries ++ treeInputs H log.entries := by
    rw [hlog', hleaves]
    exact List.append_subset.mpr
      ⟨List.subset_append_of_subset_left _ (List.subset_append_right _ _),
        List.subset_append_of_subset_right _ (List.subset_append_right _ _)⟩
  rw [digests_detected hed hlog (by rw [hlog']; simp) key (by rw [hlog', hleaves]; simp [hlen])
    (hcf.mono hroots), hlog', hleaves]
  intro hhashes
  have hpoint : ∀ e ∈ log'.entries, ∀ f ∈ log.entries, leafHash H e = leafHash H f → e = f := by
    intro e he f hf hhash
    have hin := hcf (leafInput e)
      (List.mem_append_left _ (List.mem_append_left _ (List.mem_map_of_mem he))) (leafInput f)
      (List.mem_append_right _ (List.mem_append_left _ (List.mem_map_of_mem hf))) hhash
    exact (List.cons.inj hin).2
  refine hchanged (List.ext_getElem hlen fun k hk hk' => ?_)
  refine hpoint _ (List.getElem_mem hk) _ (List.getElem_mem hk') ?_
  have hget := congrArg (·[k]?) hhashes
  simpa [hk, hk'] using hget

/-- Tampering is detected exactly when it changes the concatenation of two sibling leaf
hashes, or an unpaired last leaf hash. -/
theorem tampering_detected_iff (H : HashFunction) (ed : Ed25519 PrivateKey PublicKey)
    (hed : ∀ key message, ed.verify (ed.publicKey key) (ed.sign key message) message = true)
    (log log' : MerkleLog) (htampered : Tampered log log') (key : PrivateKey)
    (hcf : CollisionFree H (rootInputs H log'.leaves ++ rootInputs H log.leaves)) :
    Detected H ed log' (log.signCheckpoint H ed key) ↔
      bottom (· ++ ·) log'.leaves ≠ bottom (· ++ ·) log.leaves :=
  detected_of_root hed key htampered.leaves_length hcf

def signedLog : MerkleLog :=
  ((MerkleLog.append sha256 {} [0x61]).append sha256 [0x62]).append sha256 [0x63]

theorem signedLog_reachable : MerkleLog.Reachable sha256 signedLog :=
  .append _ (.append _ (.append _ (.new _ _)))

theorem tampering_detected_iff_leaf :
    let log' : MerkleLog := { signedLog with leaves := signedLog.leaves.set 1 [0xff] }
    Detected sha256 keyedDigest log' (signedLog.signCheckpoint sha256 keyedDigest [0x01]) ↔
      bottom (· ++ ·) log'.leaves ≠ bottom (· ++ ·) signedLog.leaves :=
  tampering_detected_iff sha256 keyedDigest (by simp [keyedDigest]) signedLog
    { signedLog with leaves := signedLog.leaves.set 1 [0xff] }
    ⟨rfl, List.length_set, .inr (by decide +kernel)⟩ [0x01] (by decide +kernel)

/-- The first record is replaced and its leaf hash is not, and the audit passes. -/
theorem replaced_record_passes :
    let log' : MerkleLog := { signedLog with entries := [[0x7a], [0x62], [0x63]] }
    MerkleLog.Reachable sha256 signedLog ∧ Tampered signedLog log' ∧
      CollisionFree sha256 (treeInputs sha256 signedLog.entries) ∧
      (audit sha256 keyedDigest log' (signedLog.signCheckpoint sha256 keyedDigest [0x01])
        (keyedDigest.publicKey [0x01]) none).passed = true := by
  refine ⟨signedLog_reachable, ⟨rfl, rfl, .inl (by decide)⟩, three_collisionFree, ?_⟩
  rw [passed_iff]
  exact ⟨verifyCheckpoint_signCheckpoint (by simp [keyedDigest]) signedLog [0x01],
    (rootRecomputation_ok_iff [0x01] rfl).mpr rfl⟩

end Tampering
