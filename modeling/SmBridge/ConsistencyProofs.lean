import SmBridge.Tlog
import SmBridge.Lib.MerkleConsistency

/-!
# Consistency proofs

The repository generates them and has no verifier for them. They are checked here against
the client's algorithm of RFC 9162 §2.1.4.2, written out from the RFC.
-/
namespace ConsistencyProofs

open Python
open Hashing
open MerkleShape
open MerkleWalk
open MerkleTree
open MerkleConsistency
open Tlog

/-! ## The client's algorithm -/

section Definitions

variable (H : HashFunction)

/-- The steps for one element after another; `fr` and `sr` are the two roots so far. -/
def clientLoop : List Bytes → ℕ → ℕ → Bytes → Bytes → Option (ℕ × Bytes × Bytes)
  | [], _, sn, fr, sr => some (sn, fr, sr)
  | c :: path, fn, sn, fr, sr =>
    if sn = 0 then none
    else if fn % 2 = 1 ∨ fn = sn then
      let q := if fn % 2 = 0 then skipEven fn sn else (fn, sn)
      clientLoop path (q.1 / 2) (q.2 / 2) (nodeHash H c fr) (nodeHash H c sr)
    else clientLoop path (fn / 2) (sn / 2) fr (nodeHash H sr c)

/-- The two reconstructed roots, once they have been compared with the given ones. -/
def clientVerify (first second : ℕ) (firstHash secondHash : Bytes) (consistencyPath : List Bytes) :
    Option (Bytes × Bytes) :=
  if consistencyPath = [] then none
  else
    let path := if first = 2 ^ first.log2 then firstHash :: consistencyPath else consistencyPath
    match path with
    | [] => none
    | start :: rest =>
      let q := skipOdd (first - 1) (second - 1)
      match clientLoop H rest q.1 q.2 start start with
      | none => none
      | some (sn, fr, sr) =>
        if fr = firstHash ∧ sr = secondHash ∧ sn = 0 then some (fr, sr) else none

end Definitions

variable {H : HashFunction}

/-- The loop climbs to both roots and uses up the size counter. -/
theorem clientLoop_eq {path : List Bytes} {fn sn : ℕ} (hle : fn ≤ sn)
    (hlen : path.length = (turns (sn + 1) fn).length) (fr sr : Bytes) :
    clientLoop H path fn sn fr sr =
      some (0, climbLeft (node H) fr ((turns (sn + 1) fn).zip path),
        climb (node H) sr ((turns (sn + 1) fn).zip path)) := by
  induction path generalizing fn sn fr sr with
  | nil =>
    have hnil := List.length_eq_zero_iff.mp hlen.symm
    rw [hnil, (turns_eq_nil fn sn hle).mp hnil]
    rfl
  | cons c path ih =>
    have hsn : sn ≠ 0 := fun h => by
      rw [(turns_eq_nil fn sn hle).mpr h] at hlen
      exact absurd hlen (by simp)
    obtain ⟨hadv, hturns⟩ := turns_advance fn sn hle hsn
    rw [hturns, List.length_cons, List.length_cons] at hlen
    have hnext := ih hadv (Nat.succ.inj hlen)
    rw [hturns, clientLoop, if_neg hsn]
    have hright : (fn % 2 = 1 ∨ fn = sn) ↔ isRight fn sn = true := by
      simp only [isRight, Bool.or_eq_true, beq_iff_eq]
    have hskip : (if fn % 2 = 0 then skipEven fn sn else (fn, sn)) = skipEven fn sn := by
      split
      · rfl
      · exact (skipEven_odd (by omega) sn).symm
    by_cases hr : isRight fn sn = true
    · have hadvance : advance (fn, sn) = ((skipEven fn sn).1 / 2, (skipEven fn sn).2 / 2) := by
        simp [advance, hr]
      rw [hadvance] at hnext
      simp only [if_pos (hright.mpr hr), hskip, hnext, hadvance, List.zip_cons_cons, climbLeft,
        climb, pairUp, hr, ↓reduceIte, nodeHash_eq]
    · have hadvance : advance (fn, sn) = (fn / 2, sn / 2) := by simp [advance, hr]
      rw [hadvance] at hnext
      simp only [if_neg (fun h => hr (hright.mp h)), hnext, hadvance, List.zip_cons_cons, climbLeft,
        climb, pairUp, hr, ↓reduceIte, nodeHash_eq, Bool.false_eq_true]

/-! ## Generated proofs -/

/-- The generator omits the root of the boundary's subtree when the client knows it. -/
theorem subproof_eq (n m : ℕ) (hm : 0 < m) (hmn : m ≤ n) :
    ∀ leaves : List Bytes, leaves.length = n → ∀ ys, subtreeAt leaves (boundary n m) = some ys →
      ∀ b, subproof H m leaves b =
        (if b = true ∧ ∀ t ∈ boundary n m, t = false then []
          else [root (node H) (H.digest []) ys]) ++
          siblings (node H) (H.digest []) leaves (boundary n m) := by
  revert n m
  apply boundary_induction
  · rintro n _ leaves rfl ys hat b
    rw [boundary_self, subtreeAt, Option.some.injEq] at hat
    rw [subproof, if_pos rfl, boundary_self, hat, merkleRoot_eq]
    cases b <;> simp [siblings]
  · rintro n m hn hpos hm ih leaves rfl ys hat b
    have hlt := split_lt hn
    rw [boundary_left hn hm, subtreeAt, if_pos hn] at hat
    have hside := ih _ (side_length false hn) ys hat b
    simp only [side, Bool.false_eq_true, ↓reduceIte] at hside
    rw [subproof, if_neg (by omega), if_neg (by omega), splitPoint_eq hn, if_pos hm, hside,
      boundary_left hn hm, siblings, merkleRoot_eq]
    simp [side]
  · rintro n m hn hm hlt ih leaves rfl ys hat b
    rw [boundary_right hn hm hlt, subtreeAt, if_pos hn] at hat
    have hside := ih _ (side_length true hn) ys hat false
    simp only [side, ↓reduceIte] at hside
    rw [subproof, if_neg (by omega), if_neg (by omega), splitPoint_eq hn, if_neg (by omega), hside,
      boundary_right hn hm hlt, siblings, merkleRoot_eq]
    simp [side]

theorem isPowerOfTwo_iff {m : ℕ} : m = 2 ^ m.log2 ↔ ∃ e, m = 2 ^ e := by
  constructor
  · exact fun h => ⟨_, h⟩
  · rintro ⟨e, rfl⟩
    rw [Nat.log2_two_pow]

theorem clientLoop_boundary {leaves ys : List Bytes} {m : ℕ} (hm : 0 < m) (hlt : m < leaves.length)
    (hat : subtreeAt leaves (boundary leaves.length m) = some ys) :
    clientLoop H (siblings (node H) (H.digest []) leaves (boundary leaves.length m))
        (skipOdd (m - 1) (leaves.length - 1)).1 (skipOdd (m - 1) (leaves.length - 1)).2
        (root (node H) (H.digest []) ys) (root (node H) (H.digest []) ys) =
      some (0, merkleRoot H (leaves.take m), merkleRoot H leaves) := by
  have hle := Nat.le_of_lt hlt
  obtain ⟨⟨w, hw⟩, e, he⟩ := boundary_complete _ m hm hle hlt
  have hsize : leaves.length - 1 + 1 = leaves.length := Nat.sub_add_cancel (by omega)
  have hback : (boundary leaves.length m).reverse = false :: w.reverse := by rw [hw]; simp
  have hturns := turns_boundary _ m hm hle
  rw [he, turns_last_pow, hback, ← hsize] at hturns
  obtain ⟨hskip, hrest⟩ := skipOdd_turns (m - 1) (leaves.length - 1) (by omega) e w.reverse hturns
  rw [← hback] at hrest
  rw [clientLoop_eq (Nat.le_of_lt hskip)
      (by rw [hrest, siblings_length, List.length_reverse]), hrest,
    climbLeft_boundary _ m hm hle leaves rfl ys hat, climb_siblings _ _ hat, merkleRoot_eq,
    merkleRoot_eq]

theorem clientVerify_subproof {leaves : List Bytes} {m : ℕ} (hm : 0 < m) (hlt : m < leaves.length) :
    clientVerify H m leaves.length (merkleRoot H (leaves.take m)) (merkleRoot H leaves)
        (subproof H m leaves true) =
      some (merkleRoot H (leaves.take m), merkleRoot H leaves) := by
  have hle := Nat.le_of_lt hlt
  obtain ⟨ys, hat⟩ := subtreeAt_boundary _ m hm hle leaves rfl
  have hproof := subproof_eq (H := H) _ m hm hle leaves rfl ys hat true
  have hloop := clientLoop_boundary (H := H) hm hlt hat
  by_cases hleft : ∀ t ∈ boundary leaves.length m, t = false
  · -- the old tree is complete, and the client prepends the root that it knows
    have hpow := isPowerOfTwo_iff.mpr ((boundary_all_left _ m hm hle hlt).mp hleft)
    have hys : leaves.take m = ys :=
      Option.some.inj ((subtreeAt_all_left _ m hm hle hleft leaves rfl).symm.trans hat)
    have hne : siblings (node H) (H.digest []) leaves (boundary leaves.length m) ≠ [] := fun h => by
      obtain ⟨⟨w, hw⟩, _⟩ := boundary_complete _ m hm hle hlt
      have hlen := siblings_length (node H) (H.digest []) leaves
        (boundary leaves.length m)
      rw [h, hw] at hlen
      exact absurd hlen (by simp)
    rw [if_pos ⟨rfl, hleft⟩, List.nil_append] at hproof
    rw [← hys, ← merkleRoot_eq] at hloop
    rw [hproof, clientVerify, if_neg hne, if_pos hpow]
    simp only [hloop, and_self, ↓reduceIte]
  · have hpow : ¬ m = 2 ^ m.log2 := fun h =>
      hleft ((boundary_all_left _ m hm hle hlt).mpr (isPowerOfTwo_iff.mp h))
    rw [if_neg (fun h => hleft h.2), List.singleton_append] at hproof
    rw [hproof, clientVerify, if_neg (List.cons_ne_nil _ _), if_neg hpow]
    simp only [hloop, and_self, ↓reduceIte]

/-! ## The log's proofs -/

/-- The proof that the log serves for size `m` passes the client's algorithm with the root
over the first `m` leaves and the log's own root. -/
def ConsistencyValid (H : HashFunction) (log : MerkleLog) (m : ℕ) : Prop :=
  ∃ proof, log.consistencyProof H m = .ok proof ∧
    clientVerify H m log.size (merkleRoot H (log.leaves.take m)) (log.root H) proof =
      some (merkleRoot H (log.leaves.take m), log.root H)

theorem consistencyProof_eq {log : MerkleLog} (hserved : log.minProofSize ≤ log.size) {m : ℕ}
    (hm : 0 < m) (hmn : m ≤ log.size) :
    log.consistencyProof H m = .ok (subproof H m log.leaves true) := by
  rw [MerkleLog.consistencyProof, MerkleLog.guardProofs, if_neg (by omega)]
  simp only [bind, Except.bind]
  rw [Tlog.consistencyProof, if_neg (by omega), sliceTo_natCast, Int.toNat_natCast,
    MerkleLog.size, List.take_length]

theorem consistencyProof_full {log : MerkleLog} (hserved : log.minProofSize ≤ log.size)
    (hpos : 0 < log.size) : log.consistencyProof H log.size = .ok [] := by
  rw [consistencyProof_eq hserved hpos le_rfl, subproof, MerkleLog.size, if_pos rfl, if_pos rfl]

/-- A log that serves proofs proves every earlier size to the client. For its own size it
serves the empty proof, and there the two roots are the same. -/
theorem consistency_complete (H : HashFunction) (log : MerkleLog)
    (hserved : log.minProofSize ≤ log.size) (m : ℕ)
    (hm : 0 < m) :
    (m < log.size → ConsistencyValid H log m) ∧
    (m = log.size → log.consistencyProof H m = .ok [] ∧
      merkleRoot H (log.leaves.take m) = log.root H) := by
  constructor
  · intro hlt
    exact ⟨_, consistencyProof_eq hserved hm (Nat.le_of_lt hlt), clientVerify_subproof hm hlt⟩
  · rintro rfl
    refine ⟨consistencyProof_full hserved hm, ?_⟩
    rw [MerkleLog.root, MerkleLog.size, List.take_length]

def sevenRecords : MerkleLog :=
  (List.replicate 7 []).foldl (MerkleLog.append sha256) {}

theorem consistency_complete_seven :
    ConsistencyValid sha256 sevenRecords 6 :=
  (consistency_complete sha256 sevenRecords (by decide) 6 (by decide)).1 (by decide)

/-- The empty proof of a log's own size fails in the client's first step, and a log below its
minimum size serves no proof at all. -/
theorem consistency_invalid :
    MerkleLog.Reachable sha256 sevenRecords ∧ 3 ≤ sevenRecords.size ∧
      ¬ ConsistencyValid sha256 sevenRecords sevenRecords.size ∧
      ¬ ConsistencyValid sha256 { sevenRecords with minProofSize := 8 } 6 := by
  refine ⟨?_, by decide, ?_, ?_⟩
  · exact .append _ (.append _ (.append _ (.append _ (.append _ (.append _ (.append _
      (.new _ _)))))))
  · rintro ⟨proof, hproof, hok⟩
    rw [consistencyProof_full (by decide) (by decide), Except.ok.injEq] at hproof
    subst hproof
    exact absurd hok (by simp [clientVerify])
  · rintro ⟨proof, hproof, -⟩
    exact absurd hproof (by simp [MerkleLog.consistencyProof, MerkleLog.guardProofs, bind,
      Except.bind, sevenRecords, MerkleLog.size, MerkleLog.append])

end ConsistencyProofs
