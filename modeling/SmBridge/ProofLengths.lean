import SmBridge.InclusionProofs

/-!
# Lengths of inclusion proofs

RFC 9162 rejects an inclusion proof through two tests of the size counter: before an
element is consumed and at the end. The log's verifier keeps only the second, so no proof
is too long for it. The receipt verifier keeps neither and tests the index counter, so a
proof may also end early where only left turns are missing.
-/
namespace ProofLengths

open Python
open Hashing
open MerkleShape
open MerkleTree
open MerkleWalk
open Tlog
open Rfc9162

variable {H : HashFunction}

/-- The length of the audit path of leaf `i` in a tree of `n` leaves. -/
def auditPathLength (n i : ℕ) : ℕ := (turns n i).length

/-- Every proof that the log generates has this length. -/
theorem inclusionProof_length {leaves : List Bytes} {i : ℕ} (hi : i < leaves.length) :
    (Tlog.inclusionProof H leaves i).length = auditPathLength leaves.length i := by
  rw [inclusionProof_eq _ i hi leaves rfl, auditPath_length]
  rfl

/-- A verifier's result on a path: the path has the exact length, or it is rejected. -/
def LengthExact (n i : ℕ) (path : List Bytes) (result : Except PyError Bytes) : Prop :=
  path.length = auditPathLength n i ∨ ∃ msg, result = .error (.valueError msg)

/-! ## Rejections -/

theorem inclusionLoop_error {proof : List Bytes} {fn sn : ℕ} {r : Bytes} {e : PyError}
    (h : inclusionLoop H proof fn sn r = .error e) : ∃ msg, e = .valueError msg := by
  induction proof generalizing fn sn r with
  | nil => simp [inclusionLoop] at h
  | cons p proof ih =>
    rw [inclusionLoop] at h
    split at h
    · exact ⟨_, (Except.error.inj h).symm⟩
    · split at h
      · exact ih h
      · exact ih h

theorem pathLoop_error {path : List Bytes} {fn sn : ℕ} {r : Bytes} {e : PyError}
    (h : pathLoop H path fn sn r = .error e) : ∃ msg, e = .valueError msg := by
  induction path generalizing fn sn r with
  | nil => simp [pathLoop] at h
  | cons p path ih =>
    rw [pathLoop] at h
    split at h
    · exact ⟨_, (Except.error.inj h).symm⟩
    · split at h
      · exact ih h
      · exact ih h

/-- Whatever the log's verifier raises is a `ValueError`. -/
theorem rootFromInclusion_error {leaf : Bytes} {index size : ℤ} {proof : List Bytes} {e : PyError}
    (h : rootFromInclusion H leaf index size proof = .error e) : ∃ msg, e = .valueError msg := by
  rw [rootFromInclusion] at h
  split at h
  · exact ⟨_, (Except.error.inj h).symm⟩
  · cases hloop : inclusionLoop H proof index.toNat (size - 1).toNat leaf with
    | error e' =>
      rw [hloop] at h
      obtain rfl := Except.error.inj h
      exact inclusionLoop_error hloop
    | ok out =>
      rw [hloop] at h
      simp only [bind, Except.bind] at h
      split at h
      · exact ⟨_, (Except.error.inj h).symm⟩
      · cases h

/-- Whatever the receipt verifier raises is a `ValueError`. -/
theorem rfc9162RootFromProof_error {leaf : Bytes} {index size : ℤ} {path : List Bytes}
    {e : PyError} (h : rfc9162RootFromProof H leaf index size path = .error e) :
    ∃ msg, e = .valueError msg := by
  unfold rfc9162RootFromProof at h
  split_ifs at h
  iterate 4 exact ⟨_, (Except.error.inj h).symm⟩
  cases hloop : pathLoop H path index.toNat (size - 1).toNat leaf with
  | error e' =>
    rw [hloop] at h
    obtain rfl := Except.error.inj h
    exact pathLoop_error hloop
  | ok out =>
    rw [hloop] at h
    simp only [bind, Except.bind] at h
    split at h
    · exact ⟨_, (Except.error.inj h).symm⟩
    · cases h

/-- A result whose errors are all `ValueError`s is one exactly when it is no root. -/
theorem rejected_iff {result : Except PyError Bytes}
    (herror : ∀ e, result = .error e → ∃ msg, e = .valueError msg) :
    (∃ msg, result = .error (.valueError msg)) ↔ ∀ root, result ≠ .ok root := by
  cases result with
  | ok root => simp
  | error e =>
    obtain ⟨msg, rfl⟩ := herror e rfl
    simp

/-! ## Which lengths are rejected -/

/-- The log's verifier rejects the proofs that are too short, and no others. -/
theorem rootFromInclusion_rejects {leaf : Bytes} {i n : ℕ} {proof : List Bytes} (hi : i < n)
    (h32 : ∀ p ∈ proof, p.length = 32) :
    (∃ msg, rootFromInclusion H leaf i n proof = .error (.valueError msg)) ↔
      proof.length < auditPathLength n i := by
  rw [rejected_iff fun e h => rootFromInclusion_error h]
  simp only [ne_eq, rootFromInclusion_eq_ok hi, auditPathLength]
  constructor
  · intro hnone
    by_contra hlong
    exact hnone _ ⟨h32, Nat.le_of_not_lt hlong, rfl⟩
  · intro hshort root hok
    exact absurd hok.2.1 (Nat.not_le_of_lt hshort)

/-- The receipt verifier rejects the proofs that leave out a right turn, and no others. -/
theorem rfc9162RootFromProof_rejects {leaf : Bytes} {i n : ℕ} {path : List Bytes} (hi : i < n)
    (h32 : ∀ p ∈ path, p.length = 32) (hcap : path.length ≤ maxProofPath) :
    (∃ msg, rfc9162RootFromProof H leaf i n path = .error (.valueError msg)) ↔
      ∃ t ∈ (turns n i).drop path.length, t = true := by
  rw [rejected_iff fun e h => rfc9162RootFromProof_error h]
  simp only [ne_eq, rfc9162RootFromProof_eq_ok hi]
  constructor
  · intro hnone
    by_contra hleft
    refine hnone _ ⟨hcap, h32, fun t ht => ?_, rfl⟩
    exact Bool.eq_false_iff.mpr fun htrue => hleft ⟨t, ht, htrue⟩
  · intro hright root hok
    obtain ⟨t, ht, rfl⟩ := hright
    exact absurd (hok.2.2.1 true ht) (by decide)

/-- The two verifiers hold a path to the exact length under these conditions: no longer than
the audit path for the log's verifier; for the receipt verifier the exact length, or a
missing step at which the leaf lies to the right. -/
theorem length_exact_iff (H : HashFunction) (leaf : Bytes) (n i : ℕ) (hi : i < n)
    (path : List Bytes) (h32 : ∀ p ∈ path, p.length = 32) :
    (LengthExact n i path (rootFromInclusion H leaf i n path) ↔
      path.length ≤ auditPathLength n i) ∧
    (path.length ≤ 64 →
      (LengthExact n i path (rfc9162RootFromProof H leaf i n path) ↔
        path.length = auditPathLength n i ∨ ∃ t ∈ (turns n i).drop path.length, t = true)) := by
  constructor
  · rw [LengthExact, rootFromInclusion_rejects hi h32]
    exact (Nat.le_iff_lt_or_eq.trans or_comm).symm
  · intro hcap
    rw [LengthExact, rfc9162RootFromProof_rejects hi h32 hcap]

theorem length_exact_iff_four :
    (LengthExact 4 3 [List.replicate 32 0]
        (rootFromInclusion sha256 [] 3 4 [List.replicate 32 0]) ↔ 1 ≤ auditPathLength 4 3) ∧
    (1 ≤ 64 →
      (LengthExact 4 3 [List.replicate 32 0]
          (rfc9162RootFromProof sha256 [] 3 4 [List.replicate 32 0]) ↔
        1 = auditPathLength 4 3 ∨ ∃ t ∈ (turns 4 3).drop 1, t = true)) :=
  length_exact_iff sha256 [] 4 3 (by decide) [List.replicate 32 0] (by decide)

/-- The audit path of the only record is empty, and both verifiers take one element for it.
The path of the first of two records has one element, and the receipt verifier takes none. -/
theorem other_lengths_accepted :
    ¬ LengthExact 1 0 [List.replicate 32 0]
        (rootFromInclusion sha256 [] 0 1 [List.replicate 32 0]) ∧
    ¬ LengthExact 1 0 [List.replicate 32 0]
        (rfc9162RootFromProof sha256 [] 0 1 [List.replicate 32 0]) ∧
    ¬ LengthExact 2 0 [] (rfc9162RootFromProof sha256 [] 0 2 []) := by
  have h32 : ∀ p ∈ [(List.replicate 32 0 : Bytes)], p.length = 32 := by decide
  have hone : auditPathLength 1 0 = 0 := by rw [auditPathLength, turns_one]; rfl
  have hleft : turns 2 0 = [false] := by decide +kernel
  refine ⟨?_, ?_, ?_⟩
  · intro hexact
    rcases hexact with hlen | hrejected
    · exact absurd (hlen.trans hone) (by decide)
    · have hshort := (rootFromInclusion_rejects (i := 0) (n := 1) (by decide) h32).mp hrejected
      exact absurd (hone ▸ hshort) (by decide)
  · intro hexact
    rcases hexact with hlen | hrejected
    · exact absurd (hlen.trans hone) (by decide)
    · obtain ⟨t, ht, -⟩ :=
        (rfc9162RootFromProof_rejects (i := 0) (n := 1) (by decide) h32 (by decide)).mp hrejected
      rw [turns_one] at ht
      simp at ht
  · intro hexact
    rcases hexact with hlen | hrejected
    · rw [auditPathLength, hleft] at hlen
      exact absurd hlen (by decide)
    · obtain ⟨t, ht, htrue⟩ :=
        (rfc9162RootFromProof_rejects (i := 0) (n := 2) (by decide) (by decide)
          (by decide)).mp hrejected
      rw [hleft, htrue] at ht
      exact absurd ht (by decide)

end ProofLengths
