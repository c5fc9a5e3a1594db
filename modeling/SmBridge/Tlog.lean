import SmBridge.Hashing

/-!
# The transparency log

The Merkle tree over the record bytes, its proofs, and the signed checkpoint. The
roots and paths computed here are those of the general tree.
-/
namespace Tlog

open Python
open Hashing
open MerkleShape
open MerkleTree
open MerkleWalk

/-! ## Roots and proofs -/

/-- `while k << 1 < n: k <<= 1` -/
def doubleBelow (n : ℕ) : ℕ → ℕ → ℕ
  | 0, k => k
  | fuel + 1, k => if k <<< 1 < n then doubleBelow n fuel (k <<< 1) else k

/-- The loop that every function below runs from `k = 1`; `n` doublings are enough. -/
def splitPoint (n : ℕ) : ℕ := doubleBelow n n 1

theorem doubleBelow_eq {n : ℕ} (fuel e : ℕ) (hlo : 2 ^ e < n) (hhi : n ≤ 2 ^ (e + 1 + fuel)) :
    doubleBelow n fuel (2 ^ e) = split n := by
  induction fuel generalizing e with
  | zero => exact (split_unique hlo hhi).symm
  | succ fuel ih =>
    have hdouble : 2 ^ e <<< 1 = 2 ^ (e + 1) := by rw [Nat.shiftLeft_eq, Nat.pow_succ]; rfl
    rw [doubleBelow, hdouble]
    split
    · exact ih (e + 1) ‹_› (by rwa [Nat.add_right_comm _ 1 fuel, Nat.add_assoc])
    · exact (split_unique hlo (by omega)).symm

theorem splitPoint_eq {n : ℕ} (h : 2 ≤ n) : splitPoint n = split n := by
  have hpow : n < 2 ^ n := Nat.lt_two_pow_self
  exact doubleBelow_eq n 0 h
    (hpow.le.trans (Nat.pow_le_pow_right (by decide) (by omega)))

theorem splitPoint_lt {n : ℕ} (h : 2 ≤ n) : splitPoint n < n := splitPoint_eq h ▸ split_lt h

theorem splitPoint_pos {n : ℕ} (h : 2 ≤ n) : 0 < splitPoint n := splitPoint_eq h ▸ split_pos n

section Definitions

variable (H : HashFunction)

def leafHash (entry : Bytes) : Bytes := H.digest (0x00 :: entry)

def nodeHash (left right : Bytes) : Bytes := H.digest (0x01 :: (left ++ right))

def merkleRoot (leaves : List Bytes) : Bytes :=
  if leaves.length = 0 then H.digest []
  else if h : leaves.length = 1 then leaves[0]
  else
    nodeHash H (merkleRoot (leaves.take (splitPoint leaves.length)))
      (merkleRoot (leaves.drop (splitPoint leaves.length)))
termination_by leaves.length
decreasing_by
  · have := splitPoint_lt (n := leaves.length) (by omega)
    simp only [List.length_take]; omega
  · have := splitPoint_pos (n := leaves.length) (by omega)
    simp only [List.length_drop]; omega

def inclusionProof (leaves : List Bytes) (m : ℕ) : List Bytes :=
  if leaves.length ≤ 1 then []
  else if m < splitPoint leaves.length then
    inclusionProof (leaves.take (splitPoint leaves.length)) m ++
      [merkleRoot H (leaves.drop (splitPoint leaves.length))]
  else
    inclusionProof (leaves.drop (splitPoint leaves.length)) (m - splitPoint leaves.length) ++
      [merkleRoot H (leaves.take (splitPoint leaves.length))]
termination_by leaves.length
decreasing_by
  · have := splitPoint_lt (n := leaves.length) (by omega)
    simp only [List.length_take]; omega
  · have := splitPoint_pos (n := leaves.length) (by omega)
    simp only [List.length_drop]; omega

/-- The loop of `rootFromInclusion` over the proof. -/
def inclusionLoop : List Bytes → ℕ → ℕ → Bytes → Except PyError (ℕ × ℕ × Bytes)
  | [], fn, sn, r => .ok (fn, sn, r)
  | p :: proof, fn, sn, r =>
    if p.length ≠ 32 then .error (.valueError "proof element must be 32 bytes")
    else if fn = sn ∨ fn &&& 1 ≠ 0 then
      let q := if fn &&& 1 = 0 then shiftWhileEven fn sn else (fn, sn)
      inclusionLoop proof (q.1 >>> 1) (q.2 >>> 1) (nodeHash H p r)
    else inclusionLoop proof (fn >>> 1) (sn >>> 1) (nodeHash H r p)

def rootFromInclusion (leaf : Bytes) (index size : ℤ) (proof : List Bytes) :
    Except PyError Bytes :=
  if size ≤ 0 ∨ index < 0 ∨ index ≥ size then
    .error (.valueError "invalid index/size for inclusion proof")
  else do
    let (_, sn, r) ← inclusionLoop H proof index.toNat (size - 1).toNat leaf
    if sn ≠ 0 then .error (.valueError "proof too short for tree size") else .ok r

/-- The callers keep `0 < m ≤ len(leaves)`, so the second test never holds before the first. -/
def subproof (m : ℕ) (leaves : List Bytes) (b : Bool) : List Bytes :=
  if m = leaves.length then if b then [] else [merkleRoot H leaves]
  else if leaves.length ≤ 1 then []
  else if m ≤ splitPoint leaves.length then
    subproof m (leaves.take (splitPoint leaves.length)) b ++
      [merkleRoot H (leaves.drop (splitPoint leaves.length))]
  else
    subproof (m - splitPoint leaves.length) (leaves.drop (splitPoint leaves.length)) false ++
      [merkleRoot H (leaves.take (splitPoint leaves.length))]
termination_by leaves.length
decreasing_by
  · have := splitPoint_lt (n := leaves.length) (by omega)
    simp only [List.length_take]; omega
  · have := splitPoint_pos (n := leaves.length) (by omega)
    simp only [List.length_drop]; omega

def consistencyProof (leaves : List Bytes) (m n : ℤ) : List Bytes :=
  if m ≤ 0 ∨ m > n then [] else subproof H m.toNat (sliceTo leaves n) true

end Definitions

/-! ## The log -/

structure MerkleLog where
  origin : String := "sm-bridge/tlog"
  minProofSize : ℤ := 3
  leaves : List Bytes := []
  entries : List Bytes := []
  deriving DecidableEq, Repr

/-- A signed commitment to the log's state at a given size. -/
structure Checkpoint where
  origin : String
  size : ℤ
  rootB64 : String
  signatureB64 : String
  deriving DecidableEq, Repr

def Checkpoint.noteBody (cp : Checkpoint) : String :=
  cp.origin ++ "\n" ++ toString cp.size ++ "\n" ++ cp.rootB64 ++ "\n"

def Checkpoint.signedBytes (cp : Checkpoint) : Bytes := encodeUtf8 cp.noteBody

/-- The Ed25519 operations of the `cryptography` package. -/
structure Ed25519 (PrivateKey PublicKey : Type) where
  publicKey : PrivateKey → PublicKey
  sign : PrivateKey → Bytes → Bytes
  /-- `verify pk signature message`; `false` stands for `InvalidSignature`. -/
  verify : PublicKey → Bytes → Bytes → Bool

namespace MerkleLog

variable (H : HashFunction)

def size (log : MerkleLog) : ℕ := log.leaves.length

def append (log : MerkleLog) (entry : Bytes) : MerkleLog :=
  { log with
    entries := log.entries ++ [entry]
    leaves := log.leaves ++ [leafHash H entry] }

def root (log : MerkleLog) : Bytes := merkleRoot H log.leaves

def rootB64 (log : MerkleLog) : String := b64encode (log.root H)

def guardProofs (log : MerkleLog) : Except PyError Unit :=
  if (log.size : ℤ) < log.minProofSize then
    .error (.valueError ("refusing to serve proofs at treeSize=" ++ toString log.size ++ " (< " ++
      toString log.minProofSize ++
      "); a degenerate tree yields trivial/self-referential proofs"))
  else .ok ()

def inclusionProof (log : MerkleLog) (index : ℤ) : Except PyError (List Bytes) := do
  log.guardProofs
  if ¬ (0 ≤ index ∧ index < log.size) then .error (.valueError "index out of range")
  else .ok (Tlog.inclusionProof H log.leaves index.toNat)

def consistencyProof (log : MerkleLog) (oldSize : ℤ) : Except PyError (List Bytes) := do
  log.guardProofs
  .ok (Tlog.consistencyProof H log.leaves oldSize log.size)

variable {PrivateKey PublicKey : Type} (ed : Ed25519 PrivateKey PublicKey)

def signCheckpoint (log : MerkleLog) (privateKey : PrivateKey) : Checkpoint :=
  let cp : Checkpoint := ⟨log.origin, log.size, log.rootB64 H, ""⟩
  { cp with signatureB64 := b64encode (ed.sign privateKey cp.signedBytes) }

def verifyCheckpoint (cp : Checkpoint) (publicKey : PublicKey) : Bool :=
  match b64decode cp.signatureB64 with
  | none => false
  | some signature => ed.verify publicKey signature cp.signedBytes

/-- The logs that a run of appends can reach, whatever the two settings of the log are. -/
inductive Reachable : MerkleLog → Prop where
  | new (origin : String) (minProofSize : ℤ) : Reachable ⟨origin, minProofSize, [], []⟩
  | append {log : MerkleLog} (entry : Bytes) : Reachable log → Reachable (log.append H entry)

end MerkleLog

/-! ## Agreement with the general tree -/

variable {H : HashFunction}

theorem nodeHash_eq (left right : Bytes) : nodeHash H left right = node H left right := rfl

@[simp] theorem leafHash_length (entry : Bytes) : (leafHash H entry).length = 32 :=
  H.digest_length _

theorem merkleRoot_eq (leaves : List Bytes) :
    merkleRoot H leaves = root (node H) (H.digest []) leaves := by
  induction hn : leaves.length using Nat.strong_induction_on generalizing leaves with
  | h n ih =>
    subst hn
    rw [merkleRoot]
    by_cases h2 : 2 ≤ leaves.length
    · rw [if_neg (by omega), dif_neg (by omega), splitPoint_eq h2, root_split h2, nodeHash_eq]
      have hl := ih _ (side_length_lt false h2) _ rfl
      have hr := ih _ (side_length_lt true h2) _ rfl
      simp only [side, Bool.false_eq_true, ↓reduceIte] at hl hr ⊢
      rw [hl, hr]
    · rcases leaves with _ | ⟨l, _ | ⟨l', leaves⟩⟩
      · simp
      · simp
      · simp at h2

theorem inclusionProof_eq : ∀ n i, i < n → ∀ leaves : List Bytes, leaves.length = n →
    inclusionProof H leaves i = auditPath (node H) (H.digest []) leaves i := by
  apply leaf_induction
  · intro leaves hn
    rw [inclusionProof, if_pos (by omega), auditPath, hn, turns_one]
    rfl
  · rintro n i hn hi ih leaves rfl
    have hside := ih _ (side_length false hn)
    rw [inclusionProof, if_neg (by omega), splitPoint_eq hn, if_pos hi, merkleRoot_eq, auditPath,
      turns_left hn hi, List.reverse_append, List.reverse_singleton, List.singleton_append,
      siblings]
    rw [auditPath, side_length false hn] at hside
    simp only [side, Bool.false_eq_true, ↓reduceIte, Bool.not_false] at hside ⊢
    rw [hside]
  · rintro n i hn hi _ ih leaves rfl
    have hside := ih _ (side_length true hn)
    rw [inclusionProof, if_neg (by omega), splitPoint_eq hn, if_neg (by omega), merkleRoot_eq,
      auditPath, turns_right hn hi, List.reverse_append, List.reverse_singleton,
      List.singleton_append, siblings]
    rw [auditPath, side_length true hn] at hside
    simp only [side, Bool.false_eq_true, ↓reduceIte, Bool.not_true] at hside ⊢
    rw [hside]

/-- The loop is the general walk: it rejects exactly a proof with an element of another
length, and otherwise climbs along the walk's turns. -/
theorem inclusionLoop_eq_ok {proof : List Bytes} {fn sn : ℕ} {r : Bytes} {out : ℕ × ℕ × Bytes} :
    inclusionLoop H proof fn sn r = .ok out ↔
      (∀ p ∈ proof, p.length = 32) ∧
      out = ((after proof.length (fn, sn)).1, (after proof.length (fn, sn)).2,
        climb (node H) r ((walkTurns proof.length (fn, sn)).zip proof)) := by
  induction proof generalizing fn sn r with
  | nil => simp [inclusionLoop, after, walkTurns, climb, eq_comm]
  | cons p proof ih =>
    by_cases hp : p.length = 32
    · have hright : (fn = sn ∨ fn &&& 1 ≠ 0) ↔ isRight fn sn = true := by
        simp only [isRight, Nat.and_one_is_mod, Bool.or_eq_true, beq_iff_eq]
        omega
      have hskip : fn &&& 1 ≠ 0 → shiftWhileEven fn sn = (fn, sn) := by
        intro hodd
        rw [shiftWhileEven, if_neg fun h => hodd h.2]
      by_cases hr : isRight fn sn = true
      · have hq : (if fn &&& 1 = 0 then shiftWhileEven fn sn else (fn, sn)) = skipEven fn sn := by
          rw [← shiftWhileEven_eq]
          split
          · rfl
          · exact (hskip ‹_›).symm
        rw [inclusionLoop, if_neg (by simp [hp]), if_pos (hright.mpr hr), hq, ih]
        simp [hp, after, walkTurns, climb, advance, hr, pairUp, nodeHash_eq, Nat.shiftRight_one]
      · rw [inclusionLoop, if_neg (by simp [hp]), if_neg (fun h => hr (hright.mp h)), ih]
        simp [hp, after, walkTurns, climb, advance, hr, pairUp, nodeHash_eq, Nat.shiftRight_one]
    · simp [inclusionLoop, hp]

/-- `rootFromInclusion` returns exactly when the elements have the digest length and there
are at least as many as leaf `i` has turns. -/
theorem rootFromInclusion_eq_ok {leaf r : Bytes} {i n : ℕ} {proof : List Bytes} (hi : i < n) :
    rootFromInclusion H leaf i n proof = .ok r ↔
      (∀ p ∈ proof, p.length = 32) ∧ (turns n i).length ≤ proof.length ∧
      r = climb (node H) leaf (walkSteps i n proof) := by
  have hrange : ¬ ((n : ℤ) ≤ 0 ∨ (i : ℤ) < 0 ∨ (i : ℤ) ≥ n) := by omega
  have hsize : ((n : ℤ) - 1).toNat = n - 1 := by omega
  have hzero := after_snd_eq_zero proof.length i (n - 1) (by omega)
  rw [Nat.sub_add_cancel (by omega)] at hzero
  rw [rootFromInclusion, if_neg hrange, hsize, Int.toNat_natCast, walkSteps]
  cases hloop : inclusionLoop H proof i (n - 1) leaf with
  | error e =>
    have hbad : ¬ ∀ p ∈ proof, p.length = 32 := fun h => by
      rw [inclusionLoop_eq_ok.mpr ⟨h, rfl⟩] at hloop
      exact absurd hloop (by simp)
    simp [bind, Except.bind, hbad]
  | ok out =>
    obtain ⟨h32, rfl⟩ := inclusionLoop_eq_ok.mp hloop
    simp only [bind, Except.bind, ne_eq, hzero, ite_not]
    split <;> simp_all [eq_comm]

namespace MerkleLog

@[simp] theorem size_append (log : MerkleLog) (entry : Bytes) :
    (log.append H entry).size = log.size + 1 :=
  List.length_append

theorem reachable_leaves {log : MerkleLog} (h : Reachable H log) :
    log.leaves = log.entries.map (leafHash H) := by
  induction h with
  | new => rfl
  | append entry _ ih => simp [MerkleLog.append, ih]

theorem reachable_leaves_length {log : MerkleLog} (h : Reachable H log) :
    ∀ l ∈ log.leaves, l.length = 32 := by
  rw [reachable_leaves h]
  simp

end MerkleLog

end Tlog
