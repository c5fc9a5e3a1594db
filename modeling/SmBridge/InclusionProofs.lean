import SmBridge.Tlog
import SmBridge.Rfc9162

/-!
# Inclusion proofs

Both verifiers accept every proof that the log generates. The log's own verifier accepts
nothing else. The receipt verifier also accepts some proofs for another position, and
the positions for which it does are determined exactly.
-/
namespace InclusionProofs

open Python
open Hashing
open MerkleShape
open MerkleTree
open MerkleWalk
open Tlog
open Rfc9162

variable {H : HashFunction}

/-! ## Completeness -/

theorem walkSteps_exact {i n : ℕ} {proof : List Bytes} (hi : i < n)
    (hlen : proof.length = (turns n i).length) : walkSteps i n proof = (turns n i).zip proof := by
  rw [walkSteps, walkTurns_eq _ _ _ (by omega), Nat.sub_add_cancel (by omega),
    List.take_append_of_le_length (by omega), List.take_of_length_le (by omega)]

theorem climb_auditPath {leaves : List Bytes} {i : ℕ} (hi : i < leaves.length) {leaf : Bytes}
    (hleaf : leaves[i]? = some leaf) :
    climb (node H) leaf
      ((turns leaves.length i).zip (auditPath (node H) (H.digest []) leaves i)) =
      root (node H) (H.digest []) leaves := by
  have h := climb_siblings (node H) (H.digest [])
    (subtreeAt_turns _ i hi leaves rfl leaf hleaf)
  rwa [root_singleton, List.reverse_reverse] at h

theorem siblings_elements {leaves : List Bytes} (h32 : ∀ l ∈ leaves, l.length = 32)
    (w : List Bool) : ∀ p ∈ siblings (node H) (H.digest []) leaves w, p.length = 32 := by
  induction w generalizing leaves with
  | nil => simp [siblings]
  | cons t w ih =>
    intro p hp
    have hside : ∀ t, ∀ l ∈ side t leaves, l.length = 32 :=
      fun t l hl => h32 l (side_subset t leaves hl)
    rcases List.mem_append.mp hp with hp | hp
    · exact ih (hside t) p hp
    · rw [List.mem_singleton.mp hp]
      exact root_length (hside _)

theorem walkSteps_generated {leaves : List Bytes} {i : ℕ} (hi : i < leaves.length) :
    walkSteps i leaves.length (inclusionProof H leaves i) =
      (turns leaves.length i).zip (auditPath (node H) (H.digest []) leaves i) := by
  have hpath := inclusionProof_eq (H := H) _ i hi leaves rfl
  rw [walkSteps_exact hi (by rw [hpath, auditPath_length]), hpath]

theorem climb_generated {leaves : List Bytes} {i : ℕ} (hi : i < leaves.length) :
    merkleRoot H leaves =
      climb (node H) leaves[i] (walkSteps i leaves.length (inclusionProof H leaves i)) := by
  rw [walkSteps_generated hi, climb_auditPath hi (List.getElem?_eq_getElem hi), merkleRoot_eq]

theorem generated_elements {leaves : List Bytes} (h32 : ∀ l ∈ leaves, l.length = 32) {i : ℕ}
    (hi : i < leaves.length) : ∀ p ∈ inclusionProof H leaves i, p.length = 32 := by
  rw [inclusionProof_eq _ i hi leaves rfl]
  exact siblings_elements h32 _

theorem generated_length {leaves : List Bytes} {i : ℕ} (hi : i < leaves.length) :
    (inclusionProof H leaves i).length = (turns leaves.length i).length := by
  rw [inclusionProof_eq _ i hi leaves rfl, auditPath_length]

/-- What the walk along a generated proof hashes is hashed for the root as well. -/
theorem generated_inputs {leaves : List Bytes} {i : ℕ} (hi : i < leaves.length) :
    walkInputs H leaves[i] i leaves.length (inclusionProof H leaves i) ⊆ rootInputs H leaves := by
  have hclimbed := climbed_siblings (node H) (H.digest [])
    (subtreeAt_turns _ i hi leaves rfl leaves[i] (List.getElem?_eq_getElem hi))
  rw [root_singleton, List.reverse_reverse] at hclimbed
  rw [walkInputs, climbInputs, walkSteps_generated hi, auditPath]
  exact List.map_subset _ hclimbed

/-- Both verifiers reconstruct the root from every generated proof, and the generated
proof of a log of at most `2 ^ 64` leaves stays within the receipt verifier's cap. -/
theorem inclusion_complete (H : HashFunction) (leaves : List Bytes)
    (h32 : ∀ l ∈ leaves, l.length = 32) (hsize : leaves.length ≤ 2 ^ 64) (i : ℕ)
    (hi : i < leaves.length) :
    rootFromInclusion H leaves[i] i leaves.length (inclusionProof H leaves i) =
        .ok (merkleRoot H leaves) ∧
    rfc9162RootFromProof H leaves[i] i leaves.length (inclusionProof H leaves i) =
        .ok (merkleRoot H leaves) ∧
    (inclusionProof H leaves i).length ≤ 64 := by
  have hlen := generated_length (H := H) hi
  have hdeep := turns_length_le _ i hi 64 hsize
  have hel := generated_elements (H := H) h32 hi
  have hclimb := climb_generated (H := H) hi
  refine ⟨(rootFromInclusion_eq_ok hi).mpr ⟨hel, hlen.ge, hclimb⟩,
    (rfc9162RootFromProof_eq_ok hi).mpr ⟨?_, hel, ?_, hclimb⟩, by omega⟩
  · rw [hlen]
    exact hdeep
  · rw [hlen, List.drop_length]
    simp

def threeRecords : MerkleLog :=
  [[0x61], [0x62], [0x63]].foldl (MerkleLog.append sha256) {}

theorem threeRecords_reachable : MerkleLog.Reachable sha256 threeRecords :=
  .append _ (.append _ (.append _ (.new _ _)))

theorem inclusion_complete_three :
    rootFromInclusion sha256 (leafHash sha256 [0x62]) 1 3
        (inclusionProof sha256 threeRecords.leaves 1) = .ok (threeRecords.root sha256) :=
  (inclusion_complete sha256 threeRecords.leaves
    (MerkleLog.reachable_leaves_length threeRecords_reachable) (by decide) 1 (by decide)).1

/-! ## Soundness of the log's verifier -/

section Served

variable {log : MerkleLog}

theorem size_entries (hlog : MerkleLog.Reachable H log) : log.size = log.entries.length := by
  rw [MerkleLog.size, MerkleLog.reachable_leaves hlog, List.length_map]

theorem leaf_of_entry (hlog : MerkleLog.Reachable H log) {i : ℕ} (hi : i < log.leaves.length)
    {entry : Bytes} (hget : log.entries[i]? = some entry) : leafHash H entry = log.leaves[i] := by
  have hmap := congrArg (·[i]?) (MerkleLog.reachable_leaves hlog)
  simp only [List.getElem?_map, hget, Option.map_some, List.getElem?_eq_getElem hi,
    Option.some.injEq] at hmap
  exact hmap.symm

/-- Whoever checks the generated proof of a record hashes what is hashed for the root. -/
theorem served_inputs (hlog : MerkleLog.Reachable H log) {i : ℕ} (hi : i < log.leaves.length)
    {entry : Bytes} (hget : log.entries[i]? = some entry) :
    leafInput entry :: (treeInputs H log.entries ++
      walkInputs H (leafHash H entry) i log.size (inclusionProof H log.leaves i)) ⊆
        treeInputs H log.entries := by
  have hwalk := generated_inputs (H := H) hi
  rw [← leaf_of_entry hlog hi hget, MerkleLog.reachable_leaves hlog] at hwalk
  refine List.cons_subset.mpr ⟨?_, List.append_subset.mpr ⟨List.Subset.refl _, ?_⟩⟩
  · exact List.mem_append_left _ (List.mem_map_of_mem (List.mem_of_getElem? hget))
  · rw [MerkleLog.size, MerkleLog.reachable_leaves hlog]
    exact List.Subset.trans hwalk (List.subset_append_right _ _)

end Served

theorem walkSteps_turns (i n : ℕ) (proof : List Bytes) :
    (walkSteps i n proof).map Prod.fst = walkTurns proof.length (i, n - 1) := by
  rw [walkSteps, List.map_fst_zip (by simp)]

theorem walkSteps_siblings (i n : ℕ) (proof : List Bytes) :
    (walkSteps i n proof).map Prod.snd = proof := by
  rw [walkSteps, List.map_snd_zip (by simp)]

theorem walkSteps_length {i n : ℕ} {proof : List Bytes} (h32 : ∀ p ∈ proof, p.length = 32) :
    ∀ s ∈ walkSteps i n proof, s.2.length = 32 :=
  fun s hs => h32 s.2 (walkSteps_siblings i n proof ▸ List.mem_map_of_mem hs)

/-- A walk that ends at the root of the tree over `entries` has passed through its nodes
only, on the way that leaf `i` takes. -/
theorem walk_position {entries : List Bytes} {i : ℕ} (hi : i < entries.length) {leaf : Bytes}
    {proof : List Bytes} (h32 : ∀ p ∈ proof, p.length = 32)
    (hcf : CollisionFree H (treeInputs H entries ++ walkInputs H leaf i entries.length proof))
    (h : climb (node H) leaf (walkSteps i entries.length proof) =
      merkleRoot H (entries.map (leafHash H))) :
    proof.length ≤ (turns entries.length i).length ∧
    ∃ ys, subtreeAt (entries.map (leafHash H))
        ((turns entries.length i).take proof.length).reverse = some ys ∧
      leaf = root (node H) (H.digest []) ys ∧
      proof = siblings (node H) (H.digest []) (entries.map (leafHash H))
        ((turns entries.length i).take proof.length).reverse := by
  rw [merkleRoot_eq] at h
  have hsafe := safe_of_collisionFree (walkSteps_length h32) hcf
  have hpos : 0 < (entries.map (leafHash H)).length := by rw [List.length_map]; omega
  have hfound := climb_eq_root hpos hsafe h
  rw [walkSteps_turns, walkSteps_siblings] at hfound
  obtain ⟨ys, hat, hleaf, hsib⟩ := hfound
  have hsub : entries.length - 1 + 1 = entries.length := Nat.sub_add_cancel (by omega)
  have hinside := subtreeAt_position hat
  rw [List.length_map, ← hsub, Nat.add_sub_cancel] at hinside
  have hlen := walkTurns_inside (by omega) hinside
  rw [walkTurns_take (by omega) hlen, hsub] at hat hsib
  exact ⟨hsub ▸ hlen, ys, hat, hleaf, hsib⟩

/-- Whatever the log's verifier accepts for index `i` is the stored leaf and its own
audit path, for leaves of any length and proofs of any length. -/
theorem inclusion_sound (H : HashFunction) (log : MerkleLog) (hlog : MerkleLog.Reachable H log)
    (i : ℕ) (hi : i < log.size) (leaf : Bytes) (proof : List Bytes)
    (hcf : CollisionFree H (treeInputs H log.entries ++ walkInputs H leaf i log.size proof))
    (h : rootFromInclusion H leaf i log.size proof = .ok (log.root H)) :
    log.leaves[i]? = some leaf ∧ proof = inclusionProof H log.leaves i := by
  have hleaves := MerkleLog.reachable_leaves hlog
  have hsize : log.size = log.entries.length := by
    rw [MerkleLog.size, hleaves, List.length_map]
  have hn : log.leaves.length = log.entries.length := hsize
  rw [hsize] at hi hcf h
  obtain ⟨h32, hlong, hroot⟩ := (rootFromInclusion_eq_ok hi).mp h
  rw [MerkleLog.root, hleaves] at hroot
  obtain ⟨-, ys, hat, hleaf, hsib⟩ := walk_position hi h32 hcf hroot.symm
  -- the size counter is used up, so the walk has taken all turns of the leaf
  rw [List.take_of_length_le hlong, ← hleaves] at hat hsib
  have hget : log.leaves[i]? = some log.leaves[i] := List.getElem?_eq_getElem (by omega)
  rw [subtreeAt_turns _ i hi log.leaves hn _ hget] at hat
  obtain rfl : [log.leaves[i]] = ys := Option.some.inj hat
  rw [root_singleton] at hleaf
  refine ⟨hleaf ▸ hget, ?_⟩
  rw [inclusionProof_eq _ i (by omega) log.leaves hn, auditPath, hn]
  exact hsib

theorem inclusionProof_three (x y z : Bytes) : inclusionProof H [x, y, z] 1 = [x, z] := by
  have hsplit : splitPoint [x, y, z].length = 2 := rfl
  have hpair : inclusionProof H [x, y] 1 = [x] := by
    have hsplit : splitPoint [x, y].length = 1 := rfl
    have hlast : inclusionProof H [y] 0 = [] := by
      rw [inclusionProof]
      rfl
    rw [inclusionProof, hsplit]
    change inclusionProof H [y] 0 ++ [merkleRoot H [x]] = [x]
    rw [hlast, merkleRoot_eq, root_singleton, List.nil_append]
  rw [inclusionProof, hsplit]
  change inclusionProof H [x, y] 1 ++ [merkleRoot H [z]] = [x, z]
  rw [hpair, merkleRoot_eq, root_singleton]
  rfl

theorem inclusion_sound_three :
    threeRecords.leaves[1]? = some (leafHash sha256 [0x62]) ∧
      [leafHash sha256 [0x61], leafHash sha256 [0x63]] =
        inclusionProof sha256 threeRecords.leaves 1 := by
  have hone : 1 < threeRecords.leaves.length := by decide
  have hproof : inclusionProof sha256 threeRecords.leaves 1 =
      [leafHash sha256 [0x61], leafHash sha256 [0x63]] := inclusionProof_three _ _ _
  have hinputs := (List.cons_subset.mp (served_inputs threeRecords_reachable hone rfl)).2
  have helements := generated_elements (H := sha256)
    (MerkleLog.reachable_leaves_length threeRecords_reachable) hone
  have haccepted := (rootFromInclusion_eq_ok hone).mpr
    ⟨helements, (generated_length hone).ge, climb_generated hone⟩
  rw [hproof] at hinputs haccepted
  exact inclusion_sound sha256 threeRecords threeRecords_reachable 1 hone _ _
    (three_collisionFree.mono hinputs) haccepted

/-! ## Positions of the receipt verifier

It tests the index counter where RFC 9162 has it test the size counter, so a walk may end
early, below left turns only. -/

/-- Whatever the receipt verifier accepts for index `i` is entry `i` with its audit path. -/
def PositionallySound (H : HashFunction) (entries : List Bytes) (i : ℕ) : Prop :=
  ∀ (payload : Bytes) (path : List Bytes), path.length ≤ 64 → (∀ p ∈ path, p.length = 32) →
    CollisionFree H (leafInput payload :: (treeInputs H entries ++
      walkInputs H (rfc9162LeafHash H payload) i entries.length path)) →
    rfc9162RootFromProof H (rfc9162LeafHash H payload) i entries.length path =
      .ok (merkleRoot H (entries.map (leafHash H))) →
    entries[i]? = some payload ∧ path = inclusionProof H (entries.map (leafHash H)) i

/-- Leaf `j` is found at index `i` when `i` takes the turns of `j` and then left turns only. -/
def Shadowed (n i j : ℕ) : Prop := ∃ c, turns n i = turns n j ++ List.replicate (c + 1) false

/-- All leaves of a complete tree are equally deep, so none is shadowed. -/
theorem not_shadowed_pow {e i j : ℕ} (hi : i < 2 ^ e) (hj : j < 2 ^ e) :
    ¬ Shadowed (2 ^ e) i j := by
  rintro ⟨c, hturns⟩
  have hlen := congrArg List.length hturns
  rw [List.length_append, turns_pow_length e i hi, turns_pow_length e j hj,
    List.length_replicate] at hlen
  omega

theorem leaf_of_subtree {entries ys : List Bytes} {payload : Bytes} {w : List Bool}
    (hpos : 0 < entries.length)
    (hcf : CollisionFree H (leafInput payload :: treeInputs H entries))
    (hat : subtreeAt (entries.map (leafHash H)) w = some ys)
    (hleaf : rfc9162LeafHash H payload = root (node H) (H.digest []) ys) :
    ∃ j, j < entries.length ∧ entries[j]? = some payload ∧
      w = (turns entries.length j).reverse := by
  have hys := subtreeAt_length_pos (by rwa [List.length_map]) hat
  by_cases h2 : 2 ≤ ys.length
  · rw [root_split h2] at hleaf
    have hnode := subtreeAt_nodes (node H) (H.digest []) hat
      (by rw [nodes_split h2]; exact List.mem_cons_self)
    have hin := hcf _ List.mem_cons_self _
      (List.mem_cons_of_mem _ (List.mem_append_right _ (List.mem_map_of_mem hnode))) hleaf
    exact absurd hin (leafInput_ne_nodeInput _ _ _)
  · obtain ⟨y, rfl⟩ := List.length_eq_one_iff.mp (show ys.length = 1 by omega)
    rw [root_singleton] at hleaf
    obtain ⟨j, hj, hget, hw⟩ := turns_of_subtreeAt (by rwa [List.length_map]) hat
    rw [List.length_map] at hj hw
    refine ⟨j, hj, ?_, hw⟩
    rw [List.getElem?_map, List.getElem?_eq_getElem hj, Option.map_some, Option.some.injEq,
      ← hleaf] at hget
    have hin := hcf (leafInput entries[j])
      (List.mem_cons_of_mem _ (List.mem_append_left _ (List.mem_map_of_mem (by simp)))) _
      List.mem_cons_self hget
    rw [List.getElem?_eq_getElem hj, (List.cons.inj hin).2]

theorem shadowed_accepted {entries : List Bytes} {i j : ℕ} (hsize : entries.length ≤ 2 ^ 64)
    (hi : i < entries.length) (hj : j < entries.length) (hshadow : Shadowed entries.length i j) :
    rfc9162RootFromProof H (rfc9162LeafHash H entries[j]) i entries.length
        (inclusionProof H (entries.map (leafHash H)) j) =
      .ok (merkleRoot H (entries.map (leafHash H))) ∧
    walkInputs H (rfc9162LeafHash H entries[j]) i entries.length
      (inclusionProof H (entries.map (leafHash H)) j) ⊆ treeInputs H entries := by
  obtain ⟨c, hturns⟩ := hshadow
  have hn : (entries.map (leafHash H)).length = entries.length := List.length_map _
  have hpath := inclusionProof_eq (H := H) _ j hj (entries.map (leafHash H)) hn
  have hlen : (inclusionProof H (entries.map (leafHash H)) j).length =
      (turns entries.length j).length := by rw [hpath, auditPath_length, hn]
  have hget : (entries.map (leafHash H))[j]? = some (rfc9162LeafHash H entries[j]) := by
    rw [List.getElem?_map, List.getElem?_eq_getElem hj]
    rfl
  have hsteps : walkSteps i entries.length (inclusionProof H (entries.map (leafHash H)) j) =
      (turns entries.length j).zip
        (auditPath (node H) (H.digest []) (entries.map (leafHash H)) j) := by
    rw [walkSteps, walkTurns_take (by omega) ?_, Nat.sub_add_cancel (by omega), hturns, hlen,
      List.take_left, hpath]
    rw [Nat.sub_add_cancel (by omega), hturns, hlen, List.length_append]
    omega
  have hat := subtreeAt_turns _ j hj (entries.map (leafHash H)) hn _ hget
  refine ⟨(rfc9162RootFromProof_eq_ok hi).mpr ⟨?_, ?_, ?_, ?_⟩, ?_⟩
  · rw [hlen]
    exact turns_length_le _ j hj 64 hsize
  · rw [hpath]
    exact siblings_elements (by simp) _
  · rw [hlen, hturns, List.drop_left]
    exact fun t ht => List.eq_of_mem_replicate ht
  · rw [hsteps, merkleRoot_eq]
    have hclimb := climb_auditPath (H := H) (by rwa [hn]) hget
    rw [hn] at hclimb
    exact hclimb.symm
  · have hclimbed := climbed_siblings (node H) (H.digest []) hat
    rw [root_singleton, List.reverse_reverse] at hclimbed
    rw [walkInputs, climbInputs, hsteps, auditPath, hn]
    exact List.Subset.trans (List.map_subset _ hclimbed) (List.subset_append_right _ _)

/-- A shadowed leaf is accepted for an index that is not its own. -/
theorem not_sound_of_shadowed {entries : List Bytes} {i j : ℕ} (hsize : entries.length ≤ 2 ^ 64)
    (hi : i < entries.length) (hj : j < entries.length) (hshadow : Shadowed entries.length i j)
    (hcf : CollisionFree H (treeInputs H entries)) : ¬ PositionallySound H entries i := by
  intro hsound
  have hn : (entries.map (leafHash H)).length = entries.length := List.length_map _
  have hlength : ∀ k < entries.length,
      (inclusionProof H (entries.map (leafHash H)) k).length = (turns entries.length k).length := by
    intro k hk
    rw [generated_length (by rwa [hn]), hn]
  obtain ⟨hok, hsub⟩ := shadowed_accepted (H := H) hsize hi hj hshadow
  have hin : leafInput entries[j] ∈ treeInputs H entries :=
    List.mem_append_left _ (List.mem_map_of_mem (by simp))
  have hcap : (inclusionProof H (entries.map (leafHash H)) j).length ≤ 64 := by
    rw [hlength j hj]
    exact turns_length_le _ j hj 64 hsize
  have h32 : ∀ p ∈ inclusionProof H (entries.map (leafHash H)) j, p.length = 32 :=
    generated_elements (by simp) (by rwa [hn])
  have hhashed := List.cons_subset.mpr
    ⟨hin, List.append_subset.mpr ⟨List.Subset.refl (treeInputs H entries), hsub⟩⟩
  obtain ⟨-, heq⟩ := hsound entries[j] _ hcap h32 (hcf.mono hhashed) hok
  -- equal paths have equal lengths, but `i` takes more turns than `j`
  obtain ⟨c, hturns⟩ := hshadow
  have hlens := congrArg List.length heq
  rw [hlength j hj, hlength i hi, hturns, List.length_append, List.length_replicate] at hlens
  omega

/-- The receipt verifier binds index `i` exactly when no other leaf is shadowed there. -/
theorem positionally_sound_iff (H : HashFunction) (entries : List Bytes)
    (hsize : entries.length ≤ 2 ^ 64) (i : ℕ) (hi : i < entries.length)
    (hcf : CollisionFree H (treeInputs H entries)) :
    PositionallySound H entries i ↔ ∀ j < entries.length, ¬ Shadowed entries.length i j := by
  have hn : (entries.map (leafHash H)).length = entries.length := List.length_map _
  constructor
  · intro hsound j hj hshadow
    exact not_sound_of_shadowed hsize hi hj hshadow hcf hsound
  · intro hfree payload path _ _ hcf' hok
    obtain ⟨-, h32, hleft, hroot⟩ := (rfc9162RootFromProof_eq_ok hi).mp hok
    obtain ⟨hshort, ys, hat, hleaf, hsib⟩ := walk_position hi h32
      (hcf'.mono (List.subset_cons_self _ _)) hroot.symm
    obtain ⟨j, hj, hget, hw⟩ := leaf_of_subtree (by omega)
      (hcf'.mono (List.cons_subset_cons _ (List.subset_append_left _ _))) hat hleaf
    have hturns : turns entries.length i =
        turns entries.length j ++ List.replicate ((turns entries.length i).length - path.length)
          false := by
      rw [← List.reverse_inj.mp hw, ← List.length_drop, ← List.eq_replicate_of_mem hleft,
        List.take_append_drop]
    cases hextra : (turns entries.length i).length - path.length with
    | succ c => exact absurd ⟨c, hextra ▸ hturns⟩ (hfree j hj)
    | zero =>
      rw [hextra, List.replicate_zero, List.append_nil] at hturns
      obtain rfl := turns_injective _ i hi j hj hturns
      refine ⟨hget, ?_⟩
      rw [inclusionProof_eq (H := H) _ i hi _ hn, auditPath, hn, ← hw]
      exact hsib

theorem positionally_sound_iff_three :
    PositionallySound sha256 [[0x61], [0x62], [0x63]] 1 ↔ ∀ j < 3, ¬ Shadowed 3 1 j :=
  positionally_sound_iff sha256 [[0x61], [0x62], [0x63]] (by decide) 1 (by decide)
    three_collisionFree

/-- The third record is accepted as the second one. -/
theorem third_record_at_index_one : ¬ PositionallySound sha256 [[0x61], [0x62], [0x63]] 1 := by
  have hshadow : Shadowed 3 1 2 := ⟨0, by decide +kernel⟩
  exact not_sound_of_shadowed (by decide) (by decide) (by decide) hshadow three_collisionFree

/-! ## Proofs that a log serves -/

section Served

variable {log : MerkleLog}

theorem served_proof (hserved : log.minProofSize ≤ log.size) {i : ℕ} (hi : i < log.size) :
    log.inclusionProof H i = .ok (inclusionProof H log.leaves i) := by
  have hguard : ¬ (log.size : ℤ) < log.minProofSize := not_lt.mpr hserved
  have hrange : ¬ ¬ (0 ≤ (i : ℤ) ∧ (i : ℤ) < log.size) := by omega
  simp only [MerkleLog.inclusionProof, MerkleLog.guardProofs, if_neg hguard, if_neg hrange,
    bind, Except.bind, Int.toNat_natCast]

/-- For a record, the log's verifier accepts its index with the generated proof alone. -/
theorem accepted_iff (hlog : MerkleLog.Reachable H log) {i : ℕ} (hi : i < log.size) {entry : Bytes}
    {proof : List Bytes}
    (hcf : CollisionFree H (leafInput entry :: (treeInputs H log.entries ++
      walkInputs H (leafHash H entry) i log.size proof))) :
    rootFromInclusion H (leafHash H entry) i log.size proof = .ok (log.root H) ↔
      log.entries[i]? = some entry ∧ proof = inclusionProof H log.leaves i := by
  have hleaves := MerkleLog.reachable_leaves hlog
  have hsize := size_entries hlog
  have hn : log.leaves.length = log.entries.length := hsize
  have hi' : i < log.entries.length := hsize ▸ hi
  constructor
  · intro h
    rw [hsize] at hi hcf h
    obtain ⟨h32, hlong, hroot⟩ := (rootFromInclusion_eq_ok hi).mp h
    rw [MerkleLog.root, hleaves] at hroot
    obtain ⟨-, ys, hat, hleaf, hsib⟩ :=
      walk_position hi h32 (hcf.mono (List.subset_cons_self _ _)) hroot.symm
    rw [List.take_of_length_le hlong] at hat hsib
    obtain ⟨j, hj, hget, hturns⟩ := leaf_of_subtree (by omega)
      (hcf.mono (List.cons_subset_cons _ (List.subset_append_left _ _))) hat hleaf
    obtain rfl := turns_injective _ i hi j hj (List.reverse_inj.mp hturns)
    refine ⟨hget, ?_⟩
    rw [inclusionProof_eq _ i (by omega) log.leaves hn, auditPath, hn, hleaves]
    exact hsib
  · rintro ⟨hget, rfl⟩
    rw [leaf_of_entry hlog hi hget]
    refine (rootFromInclusion_eq_ok hi).mpr ⟨?_, ?_, climb_generated hi⟩
    · exact generated_elements (MerkleLog.reachable_leaves_length hlog) hi
    · exact (generated_length hi).ge

end Served

end InclusionProofs
