import SmBridge.Hashing

/-!
# The Merkle walk of the receipt verifier

Written apart from the log's own verifier. It caps the path and tests the index counter
at the end, where the log's verifier tests the size counter.
-/
namespace Rfc9162

open Python
open Hashing
open MerkleShape
open MerkleTree
open MerkleWalk

section Definitions

variable (H : HashFunction)

def rfc9162LeafHash (entry : Bytes) : Bytes := H.digest (0x00 :: entry)

def hashChildren (left right : Bytes) : Bytes := H.digest (0x01 :: (left ++ right))

/-- The cap on the path, whatever tree size the receipt declares. -/
def maxProofPath : ℕ := 64

/-- The loop of `rfc9162RootFromProof` over the path. -/
def pathLoop : List Bytes → ℕ → ℕ → Bytes → Except PyError (ℕ × ℕ × Bytes)
  | [], fn, sn, r => .ok (fn, sn, r)
  | p :: path, fn, sn, r =>
    if p.length ≠ 32 then
      .error (.valueError ("path element wrong length: " ++ toString p.length))
    else if fn &&& 1 = 1 ∨ fn = sn then
      let q := shiftWhileEven fn sn
      pathLoop path (q.1 >>> 1) (q.2 >>> 1) (hashChildren H p r)
    else pathLoop path (fn >>> 1) (sn >>> 1) (hashChildren H r p)

def rfc9162RootFromProof (leafHash : Bytes) (leafIndex treeSize : ℤ) (path : List Bytes) :
    Except PyError Bytes :=
  if treeSize = 0 then .error (.valueError "tree size is zero")
  else if leafIndex ≥ treeSize then
    .error (.valueError ("leaf index " ++ toString leafIndex ++ " >= tree size " ++
      toString treeSize))
  else if leafIndex < 0 then
    .error (.valueError ("leaf index " ++ toString leafIndex ++ " is negative"))
  else if path.length > maxProofPath then
    .error (.valueError ("inclusion path length " ++ toString path.length ++ " exceeds cap " ++
      toString maxProofPath ++ " (DoS guard)"))
  else do
    let (fn, _, r) ← pathLoop H path leafIndex.toNat (treeSize - 1).toNat leafHash
    if fn ≠ 0 then .error (.valueError "proof path too short") else .ok r

end Definitions

variable {H : HashFunction}

theorem hashChildren_eq (left right : Bytes) : hashChildren H left right = node H left right := rfl

theorem pathLoop_eq_ok {path : List Bytes} {fn sn : ℕ} {r : Bytes} {out : ℕ × ℕ × Bytes} :
    pathLoop H path fn sn r = .ok out ↔
      (∀ p ∈ path, p.length = 32) ∧
      out = ((after path.length (fn, sn)).1, (after path.length (fn, sn)).2,
        climb (node H) r ((walkTurns path.length (fn, sn)).zip path)) := by
  induction path generalizing fn sn r with
  | nil => simp [pathLoop, after, walkTurns, climb, eq_comm]
  | cons p path ih =>
    by_cases hp : p.length = 32
    · have hright : (fn &&& 1 = 1 ∨ fn = sn) ↔ isRight fn sn = true := by
        simp only [isRight, Nat.and_one_is_mod, Bool.or_eq_true, beq_iff_eq]
      by_cases hr : isRight fn sn = true
      · rw [pathLoop, if_neg (by simp [hp]), if_pos (hright.mpr hr), shiftWhileEven_eq, ih]
        simp [hp, after, walkTurns, climb, advance, hr, pairUp, hashChildren_eq, Nat.shiftRight_one]
      · rw [pathLoop, if_neg (by simp [hp]), if_neg (fun h => hr (hright.mp h)), ih]
        simp [hp, after, walkTurns, climb, advance, hr, pairUp, hashChildren_eq, Nat.shiftRight_one]
    · simp [pathLoop, hp]

/-- `rfc9162RootFromProof` returns exactly when the path is short enough, its elements have
the digest length, and all turns that it leaves out are left turns. -/
theorem rfc9162RootFromProof_eq_ok {leaf r : Bytes} {i n : ℕ} {path : List Bytes} (hi : i < n) :
    rfc9162RootFromProof H leaf i n path = .ok r ↔
      path.length ≤ maxProofPath ∧ (∀ p ∈ path, p.length = 32) ∧
      (∀ t ∈ (turns n i).drop path.length, t = false) ∧
      r = climb (node H) leaf (walkSteps i n path) := by
  have hsize : ((n : ℤ) - 1).toNat = n - 1 := by omega
  have hzero := after_fst_eq_zero path.length i (n - 1) (by omega)
  rw [Nat.sub_add_cancel (by omega)] at hzero
  rw [rfc9162RootFromProof, if_neg (by omega), if_neg (by omega), if_neg (by omega)]
  by_cases hcap : path.length ≤ maxProofPath
  · rw [if_neg (by omega), hsize, Int.toNat_natCast, walkSteps]
    cases hloop : pathLoop H path i (n - 1) leaf with
    | error e =>
      have hbad : ¬ ∀ p ∈ path, p.length = 32 := fun h => by
        rw [pathLoop_eq_ok.mpr ⟨h, rfl⟩] at hloop
        exact absurd hloop (by simp)
      simp [bind, Except.bind, hbad]
    | ok out =>
      obtain ⟨h32, rfl⟩ := pathLoop_eq_ok.mp hloop
      simp only [bind, Except.bind, ne_eq, hzero, ite_not]
      split <;> simp_all [eq_comm]
  · rw [if_pos (by omega)]
    simp [hcap]

end Rfc9162
