import SmBridge.Python
import SmBridge.Lib.MerkleTree
import SmBridge.Lib.Sha256

/-!
# Hashing of leaves and nodes

The hash is a parameter with 32-byte digests. Since such a function has collisions, a
theorem that needs it to be collision free asks this of the strings hashed in its own
statement only.
-/
namespace Hashing

open Python
open MerkleTree

structure HashFunction where
  digest : Bytes → Bytes
  digest_length : ∀ b, (digest b).length = 32

attribute [simp] HashFunction.digest_length

def sha256 : HashFunction := ⟨Sha256.sha256, Sha256.sha256_length⟩

/-- No two different strings of the list have the same digest. -/
def CollisionFree (H : HashFunction) (inputs : List Bytes) : Prop :=
  ∀ x ∈ inputs, ∀ y ∈ inputs, H.digest x = H.digest y → x = y

instance (H : HashFunction) (inputs : List Bytes) : Decidable (CollisionFree H inputs) :=
  inferInstanceAs (Decidable (∀ x ∈ inputs, ∀ y ∈ inputs, H.digest x = H.digest y → x = y))

theorem CollisionFree.mono {H : HashFunction} {S T : List Bytes} (h : CollisionFree H T)
    (hST : S ⊆ T) : CollisionFree H S :=
  fun x hx y hy => h x (hST hx) y (hST hy)

theorem CollisionFree.of_forall_eq {H : HashFunction} {inputs : List Bytes} {c : Bytes}
    (h : ∀ x ∈ inputs, x = c) : CollisionFree H inputs :=
  fun x hx y hy _ => (h x hx).trans (h y hy).symm

def leafInput (entry : Bytes) : Bytes := 0x00 :: entry

def nodeInput (left right : Bytes) : Bytes := 0x01 :: (left ++ right)

/-- `while fn and not fn & 1: fn >>= 1; sn >>= 1`, the loop that both verifiers run. -/
def shiftWhileEven (fn sn : ℕ) : ℕ × ℕ :=
  if fn ≠ 0 ∧ fn &&& 1 = 0 then shiftWhileEven (fn >>> 1) (sn >>> 1) else (fn, sn)
termination_by fn
decreasing_by
  rw [Nat.shiftRight_one]
  omega

theorem shiftWhileEven_eq (fn sn : ℕ) : shiftWhileEven fn sn = MerkleWalk.skipEven fn sn := by
  induction fn using Nat.strong_induction_on generalizing sn with
  | h fn ih =>
    rw [shiftWhileEven, MerkleWalk.skipEven]
    simp only [Nat.and_one_is_mod, Nat.shiftRight_one]
    split
    · exact ih _ (by omega) _
    · rfl

variable (H : HashFunction)

def node (left right : Bytes) : Bytes := H.digest (nodeInput left right)

/-- The steps of a walk from leaf `i` of `n` along `proof`. -/
def walkSteps (i n : ℕ) (proof : List Bytes) : List (Bool × Bytes) :=
  (MerkleWalk.walkTurns proof.length (i, n - 1)).zip proof

def rootInputs (leaves : List Bytes) : List Bytes :=
  (nodes (node H) (H.digest []) leaves).map fun p => nodeInput p.1 p.2

def climbInputs (r : Bytes) (steps : List (Bool × Bytes)) : List Bytes :=
  (climbed (node H) r steps).map fun p => nodeInput p.1 p.2

def treeInputs (entries : List Bytes) : List Bytes :=
  entries.map leafInput ++ rootInputs H (entries.map fun e => H.digest (leafInput e))

def walkInputs (leaf : Bytes) (i n : ℕ) (proof : List Bytes) : List Bytes :=
  climbInputs H leaf (walkSteps i n proof)

/-- A log of three records, for which the runs on concrete logs need it. -/
theorem three_collisionFree :
    CollisionFree sha256 (treeInputs sha256 [[0x61], [0x62], [0x63]]) := by
  decide +kernel

variable {H}

@[simp] theorem node_length (left right : Bytes) : (node H left right).length = 32 :=
  H.digest_length _

theorem leafInput_ne_nodeInput (entry left right : Bytes) :
    leafInput entry ≠ nodeInput left right := by
  simp [leafInput, nodeInput]

/-- A node input is cut back into its two halves once either half has the digest length. -/
theorem nodeInput_injective {a b c d : Bytes} (h : nodeInput a b = nodeInput c d)
    (hab : a.length = 32 ∨ b.length = 32) (hc : c.length = 32) (hd : d.length = 32) :
    (a, b) = (c, d) := by
  have happ : a ++ b = c ++ d := by simpa [nodeInput] using h
  have hlen := congrArg List.length happ
  simp only [List.length_append] at hlen
  obtain ⟨rfl, rfl⟩ := List.append_inj happ (by omega)
  rfl

theorem root_length {leaves : List Bytes} (h32 : ∀ l ∈ leaves, l.length = 32) :
    (root (node H) (H.digest []) leaves).length = 32 := by
  by_cases h2 : 2 ≤ leaves.length
  · rw [root_split h2]
    exact node_length _ _
  · rcases leaves with _ | ⟨l, _ | ⟨l', leaves⟩⟩
    · simp
    · simpa using h32
    · simp at h2

theorem nodes_length {leaves : List Bytes} (h32 : ∀ l ∈ leaves, l.length = 32) :
    ∀ p ∈ nodes (node H) (H.digest []) leaves, p.1.length = 32 ∧ p.2.length = 32 := by
  induction hn : leaves.length using Nat.strong_induction_on generalizing leaves with
  | h n ih =>
    subst hn
    by_cases h2 : 2 ≤ leaves.length
    · have h32side : ∀ t, ∀ l ∈ side t leaves, l.length = 32 :=
        fun t l hl => h32 l (side_subset t leaves hl)
      intro p hp
      rw [nodes_split h2] at hp
      rcases List.mem_cons.mp hp with rfl | hp
      · exact ⟨root_length (h32side false), root_length (h32side true)⟩
      · rcases List.mem_append.mp hp with hp | hp
        · exact ih _ (side_length_lt false h2) (h32side false) rfl p hp
        · exact ih _ (side_length_lt true h2) (h32side true) rfl p hp
    · intro p hp
      rw [nodes, if_neg h2] at hp
      exact absurd hp (by simp)

theorem rootInputs_short {leaves : List Bytes} (h : leaves.length < 2) :
    rootInputs H leaves = [] := by
  rw [rootInputs, nodes, if_neg (Nat.not_le.mpr h)]
  rfl

theorem rootInputs_pair (left right : Bytes) :
    rootInputs H [left, right] = [nodeInput left right] := by
  have hleft : side false [left, right] = [left] := rfl
  have hright : side true [left, right] = [right] := rfl
  have hsingle : ∀ leaf : Bytes, nodes (node H) (H.digest []) [leaf] = [] := by
    intro leaf
    rw [nodes]
    rfl
  have htwo : 2 ≤ [left, right].length := Nat.le_refl 2
  rw [rootInputs, nodes_split htwo, hleft, hright, hsingle, hsingle, root_singleton,
    root_singleton]
  rfl

theorem rootInputs_side {leaves : List Bytes} (h : 2 ≤ leaves.length) (right : Bool) :
    rootInputs H (side right leaves) ⊆ rootInputs H leaves :=
  List.map_subset _ (nodes_side_subset right h)

theorem climbed_length {r : Bytes} {steps : List (Bool × Bytes)}
    (h32 : ∀ s ∈ steps, s.2.length = 32) :
    ∀ p ∈ climbed (node H) r steps, p.1.length = 32 ∨ p.2.length = 32 := by
  induction steps generalizing r with
  | nil => simp [climbed]
  | cons s steps ih =>
    intro p hp
    rcases List.mem_cons.mp hp with rfl | hp
    · have hs := h32 s (by simp)
      cases hb : s.1 <;> simp [pairUp, hs]
    · exact ih (fun t ht => h32 t (by simp [ht])) p hp

theorem nodes_separate {xs ys : List Bytes} (hxs : ∀ l ∈ xs, l.length = 32)
    (hys : ∀ l ∈ ys, l.length = 32) (hcf : CollisionFree H (rootInputs H xs ++ rootInputs H ys)) :
    ∀ p ∈ nodes (node H) (H.digest []) xs, ∀ q ∈ nodes (node H) (H.digest []) ys,
      node H p.1 p.2 = node H q.1 q.2 → p = q := by
  intro p hp q hq h
  have hin := hcf _ (List.mem_append_left _ (List.mem_map_of_mem hp)) _
    (List.mem_append_right _ (List.mem_map_of_mem hq)) h
  have hq32 := nodes_length hys q hq
  exact nodeInput_injective hin (Or.inl (nodes_length hxs p hp).1) hq32.1 hq32.2

/-- The assumption on SHA-256 as the tree theorems need it: leaves are leaf hashes, and
the climb joins 32-byte siblings. -/
theorem safe_of_collisionFree {entries : List Bytes} {r : Bytes} {steps : List (Bool × Bytes)}
    (h32 : ∀ s ∈ steps, s.2.length = 32)
    (hcf : CollisionFree H (treeInputs H entries ++ climbInputs H r steps)) :
    Safe (node H) (H.digest []) (climbed (node H) r steps)
      (entries.map fun e => H.digest (leafInput e)) where
  pairs p hp q hq h := by
    have hin := hcf _ (List.mem_append_right _ (List.mem_map_of_mem hp)) _
      (List.mem_append_left _ (List.mem_append_right _ (List.mem_map_of_mem hq))) h
    have hq32 := nodes_length (by simp) q hq
    exact nodeInput_injective hin (climbed_length h32 p hp) hq32.1 hq32.2
  leaves p hp x hx h := by
    obtain ⟨e, he, rfl⟩ := List.mem_map.mp hx
    have hin := hcf _ (List.mem_append_right _ (List.mem_map_of_mem hp)) _
      (List.mem_append_left _ (List.mem_append_left _ (List.mem_map_of_mem he))) h
    exact leafInput_ne_nodeInput _ _ _ hin.symm

theorem safe_of_trees {xs ys : List Bytes}
    (hcf : CollisionFree H (treeInputs H xs ++ treeInputs H ys)) :
    Safe (node H) (H.digest [])
      (nodes (node H) (H.digest []) (xs.map fun e => H.digest (leafInput e)))
      (ys.map fun e => H.digest (leafInput e)) where
  pairs := nodes_separate (by simp) (by simp) (hcf.mono (List.append_subset.mpr
    ⟨List.subset_append_of_subset_left _ (List.subset_append_right _ _),
      List.subset_append_of_subset_right _ (List.subset_append_right _ _)⟩))
  leaves p hp y hy h := by
    obtain ⟨e, he, rfl⟩ := List.mem_map.mp hy
    have hin := hcf _ (List.mem_append_left _ (List.mem_append_right _ (List.mem_map_of_mem hp))) _
      (List.mem_append_right _ (List.mem_append_left _ (List.mem_map_of_mem he))) h
    exact leafInput_ne_nodeInput _ _ _ hin.symm

/-- A root names the leaves, and with them their number. -/
theorem leaves_of_root_eq {xs ys : List Bytes} (hxs : xs ≠ []) (hys : ys ≠ [])
    (hcf : CollisionFree H (treeInputs H xs ++ treeInputs H ys))
    (h : root (node H) (H.digest []) (xs.map fun e => H.digest (leafInput e)) =
      root (node H) (H.digest []) (ys.map fun e => H.digest (leafInput e))) :
    xs.map (fun e => H.digest (leafInput e)) = ys.map fun e => H.digest (leafInput e) := by
  have hswap : CollisionFree H (treeInputs H ys ++ treeInputs H xs) :=
    hcf.mono (List.append_subset.mpr ⟨List.subset_append_right _ _, List.subset_append_left _ _⟩)
  exact root_determines (by simpa using hxs) (by simpa using hys) (safe_of_trees hcf)
    (safe_of_trees hswap) h

end Hashing
