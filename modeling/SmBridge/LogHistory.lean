import SmBridge.ConsistencyProofs

/-!
# What a consistency proof rules out

Against the root of a log, a client accepts one old root and one proof for each earlier size.
So a log that a monitor has followed from checkpoint to checkpoint has kept all its records.
-/
namespace LogHistory

open Python
open Hashing
open MerkleShape
open MerkleWalk
open MerkleTree
open MerkleConsistency
open Tlog
open ConsistencyProofs

section Definitions

variable (H : HashFunction)

/-- The strings that the client hashes on its way to the second root. -/
def clientInputs (first second : ℕ) (firstHash : Bytes) (consistencyPath : List Bytes) :
    List Bytes :=
  match if first = 2 ^ first.log2 then firstHash :: consistencyPath else consistencyPath with
  | [] => []
  | start :: rest =>
    let q := skipOdd (first - 1) (second - 1)
    walkInputs H start q.1 (q.2 + 1) rest

/-- A later state of a monitored log, and the proof that was served for it. -/
structure Round where
  log : MerkleLog
  proof : List Bytes

/-- The client's verdict on a round. Two logs of one size must show one root. -/
def accepts (old : MerkleLog) (round : Round) : Bool :=
  if old.size = round.log.size then old.root H = round.log.root H
  else 0 < old.size ∧ old.size < round.log.size ∧
    (clientVerify H old.size round.log.size (old.root H) (round.log.root H) round.proof).isSome

/-- Every round is accepted against the one before it. -/
def Followed : MerkleLog → List Round → Prop
  | _, [] => True
  | old, round :: rounds => accepts H old round = true ∧ Followed round.log rounds

/-- The strings hashed in a round, the old tree and the first leaves of the new one included. -/
def roundInputs (old : MerkleLog) (round : Round) : List Bytes :=
  treeInputs H old.entries ++ treeInputs H round.log.entries ++
    rootInputs H (round.log.leaves.take old.size) ++
    clientInputs H old.size round.log.size (old.root H) round.proof

def followedInputs : MerkleLog → List Round → List Bytes
  | _, [] => []
  | old, round :: rounds => roundInputs H old round ++ followedInputs round.log rounds

end Definitions

variable {H : HashFunction}

/-! ## What the client's loop returns -/

theorem clientLoop_cons {c : Bytes} {path : List Bytes} {fn sn : ℕ} (hsn : sn ≠ 0)
    (fr sr : Bytes) :
    clientLoop H (c :: path) fn sn fr sr =
      clientLoop H path (advance (fn, sn)).1 (advance (fn, sn)).2
        (if isRight fn sn then nodeHash H c fr else fr)
        (if isRight fn sn then nodeHash H c sr else nodeHash H sr c) := by
  have hright : (fn % 2 = 1 ∨ fn = sn) ↔ isRight fn sn = true := by
    simp only [isRight, Bool.or_eq_true, beq_iff_eq]
  have hskip : (if fn % 2 = 0 then skipEven fn sn else (fn, sn)) = skipEven fn sn := by
    split
    · rfl
    · exact (skipEven_odd (by omega) sn).symm
  rw [clientLoop, if_neg hsn]
  by_cases hr : isRight fn sn = true
  · simp only [if_pos (hright.mpr hr), hskip, advance, hr, ↓reduceIte]
  · simp only [if_neg fun h => hr (hright.mp h), advance, hr, ↓reduceIte, Bool.false_eq_true]

/-- The size counter is used up only by a path of the right length. -/
theorem clientLoop_length {path : List Bytes} {fn sn : ℕ} (hle : fn ≤ sn)
    {fr sr fr' sr' : Bytes} (h : clientLoop H path fn sn fr sr = some (0, fr', sr')) :
    path.length = (turns (sn + 1) fn).length := by
  induction path generalizing fn sn fr sr with
  | nil =>
    obtain rfl : sn = 0 := (Prod.mk.inj (Option.some.inj h)).1
    rw [(turns_eq_nil fn 0 hle).mpr rfl]
    rfl
  | cons c path ih =>
    by_cases hsn : sn = 0
    · rw [clientLoop, if_pos hsn] at h
      cases h
    · obtain ⟨hadv, hturns⟩ := turns_advance fn sn hle hsn
      rw [clientLoop_cons hsn] at h
      rw [hturns, List.length_cons, List.length_cons, ih hadv h]

theorem clientLoop_eq_some {path : List Bytes} {fn sn : ℕ} (hle : fn ≤ sn)
    {fr sr fr' sr' : Bytes} (h : clientLoop H path fn sn fr sr = some (0, fr', sr')) :
    path.length = (turns (sn + 1) fn).length ∧
      fr' = climbLeft (node H) fr ((turns (sn + 1) fn).zip path) ∧
      sr' = climb (node H) sr ((turns (sn + 1) fn).zip path) := by
  have hlength := clientLoop_length hle h
  rw [clientLoop_eq hle hlength, Option.some.injEq, Prod.mk.injEq, Prod.mk.injEq] at h
  exact ⟨hlength, h.2.1.symm, h.2.2.symm⟩

theorem clientVerify_isSome {first second : ℕ} {firstHash secondHash : Bytes}
    {path : List Bytes}
    (h : (clientVerify H first second firstHash secondHash path).isSome = true) :
    ∃ start rest,
      (if first = 2 ^ first.log2 then firstHash :: path else path) = start :: rest ∧
      clientLoop H rest (skipOdd (first - 1) (second - 1)).1 (skipOdd (first - 1) (second - 1)).2
        start start = some (0, firstHash, secondHash) := by
  rw [clientVerify] at h
  split at h
  · cases h
  · dsimp only at h
    split at h
    · cases h
    · rename_i start rest hpath
      refine ⟨start, rest, hpath, ?_⟩
      split at h
      · cases h
      · rename_i sn fr sr hloop
        split at h
        · rename_i hroots
          obtain ⟨rfl, rfl, rfl⟩ := hroots
          exact hloop
        · cases h

/-! ## One proof for each size -/

/-- A path that leads to the root of the tree holds the siblings of the boundary, and starts at
the root of the boundary's subtree. -/
theorem boundary_of_loop {entries : List Bytes} {m : ℕ} (hm : 0 < m) (hlt : m < entries.length)
    {start firstHash : Bytes} {rest : List Bytes} (h32 : ∀ p ∈ rest, p.length = 32)
    (hcf : CollisionFree H (treeInputs H entries ++
      walkInputs H start (skipOdd (m - 1) (entries.length - 1)).1
        ((skipOdd (m - 1) (entries.length - 1)).2 + 1) rest))
    (h : clientLoop H rest (skipOdd (m - 1) (entries.length - 1)).1
        (skipOdd (m - 1) (entries.length - 1)).2 start start =
      some (0, firstHash, merkleRoot H (entries.map (leafHash H)))) :
    firstHash = merkleRoot H ((entries.map (leafHash H)).take m) ∧
    ∃ ys, subtreeAt (entries.map (leafHash H)) (boundary entries.length m) = some ys ∧
      start = root (node H) (H.digest []) ys ∧
      rest = siblings (node H) (H.digest []) (entries.map (leafHash H))
        (boundary entries.length m) := by
  have hn : (entries.map (leafHash H)).length = entries.length := List.length_map _
  obtain ⟨hskip, hturns⟩ := skipOdd_boundary hm hlt
  obtain ⟨hlength, hfirst, hsecond⟩ := clientLoop_eq_some hskip h
  have hsteps : walkSteps (skipOdd (m - 1) (entries.length - 1)).1
      ((skipOdd (m - 1) (entries.length - 1)).2 + 1) rest =
        (boundary entries.length m).reverse.zip rest := by
    rw [walkSteps, Nat.add_sub_cancel, walkTurns_take hskip hlength.le, hlength,
      List.take_length, hturns]
  rw [hturns] at hlength hfirst hsecond
  have hfst : ((boundary entries.length m).reverse.zip rest).map Prod.fst =
      (boundary entries.length m).reverse := List.map_fst_zip hlength.ge
  have hsnd : ((boundary entries.length m).reverse.zip rest).map Prod.snd = rest :=
    List.map_snd_zip hlength.le
  rw [walkInputs, hsteps] at hcf
  have hsafe := safe_of_collisionFree
    (fun s hs => h32 s.2 (hsnd ▸ List.mem_map_of_mem hs)) hcf
  rw [merkleRoot_eq] at hsecond
  obtain ⟨ys, hat, hstart, hrest⟩ := climb_eq_root (by rw [List.length_map]; omega) hsafe
    hsecond.symm
  rw [hfst, List.reverse_reverse] at hat hrest
  rw [hsnd] at hrest
  refine ⟨?_, ys, hat, hstart, hrest⟩
  rw [hfirst, hstart, hrest, merkleRoot_eq]
  exact climbLeft_boundary _ m hm (Nat.le_of_lt hlt) _ hn ys hat

/-- Whatever the client accepts is the root over the log's first leaves and the log's own proof. -/
theorem proof_of_clientVerify {log : MerkleLog} (hlog : MerkleLog.Reachable H log) {m : ℕ}
    (hm : 0 < m) (hlt : m < log.size) {firstHash : Bytes} {proof : List Bytes}
    (hfirst : firstHash.length = 32) (h32 : ∀ p ∈ proof, p.length = 32)
    (hcf : CollisionFree H (treeInputs H log.entries ++
      clientInputs H m log.size firstHash proof))
    (h : (clientVerify H m log.size firstHash (log.root H) proof).isSome = true) :
    firstHash = merkleRoot H (log.leaves.take m) ∧ proof = subproof H m log.leaves true := by
  have hleaves := MerkleLog.reachable_leaves hlog
  have hsize : log.size = log.entries.length := by
    rw [MerkleLog.size, hleaves, List.length_map]
  obtain ⟨start, rest, hpath, hloop⟩ := clientVerify_isSome h
  have hpath32 : ∀ p ∈ start :: rest, p.length = 32 := by
    rw [← hpath]
    split
    · exact List.forall_mem_cons.mpr ⟨hfirst, h32⟩
    · exact h32
  rw [clientInputs, hpath] at hcf
  rw [MerkleLog.root, hleaves, hsize] at hloop
  rw [hsize] at hlt hcf
  obtain ⟨hold, ys, hat, hstart, hrest⟩ :=
    boundary_of_loop hm hlt (fun p hp => hpath32 p (List.mem_cons_of_mem _ hp)) hcf hloop
  have hproof := subproof_eq (H := H) _ m hm (Nat.le_of_lt hlt) _ (List.length_map _) ys hat true
  rw [← hstart, ← hrest] at hproof
  rw [hleaves]
  refine ⟨hold, ?_⟩
  rw [hproof]
  by_cases hpow : m = 2 ^ m.log2
  · have hleft := (boundary_all_left _ m hm (Nat.le_of_lt hlt) hlt).mpr (isPowerOfTwo_iff.mp hpow)
    rw [if_pos hpow] at hpath
    rw [if_pos ⟨rfl, hleft⟩, List.nil_append]
    exact (List.cons.inj hpath).2
  · have hright := mt (boundary_all_left _ m hm (Nat.le_of_lt hlt) hlt).mp
      (mt isPowerOfTwo_iff.mpr hpow)
    rw [if_neg hpow] at hpath
    rw [if_neg fun hleft => hright hleft.2, List.singleton_append]
    exact hpath

/-- For each earlier size, the client accepts exactly one old root and one proof: the root over
the log's first leaves and the proof that the log serves. -/
theorem consistency_exact (H : HashFunction) (log : MerkleLog) (hlog : MerkleLog.Reachable H log)
    (hserved : log.minProofSize ≤ log.size) (m : ℕ) (hm : 0 < m) (hlt : m < log.size)
    (firstHash : Bytes) (proof : List Bytes) (hfirst : firstHash.length = 32)
    (h32 : ∀ p ∈ proof, p.length = 32)
    (hcf : CollisionFree H (treeInputs H log.entries ++
      clientInputs H m log.size firstHash proof)) :
    (clientVerify H m log.size firstHash (log.root H) proof).isSome = true ↔
      firstHash = merkleRoot H (log.leaves.take m) ∧ log.consistencyProof H m = .ok proof := by
  rw [consistencyProof_eq hserved hm (Nat.le_of_lt hlt), Except.ok.injEq]
  constructor
  · intro h
    obtain ⟨hold, hproof⟩ := proof_of_clientVerify hlog hm hlt hfirst h32 hcf h
    exact ⟨hold, hproof.symm⟩
  · rintro ⟨rfl, rfl⟩
    have hverify := clientVerify_subproof (H := H) hm hlt
    rw [MerkleLog.root, MerkleLog.size, hverify]
    rfl

/-! ## What the log's own proofs hash -/

/-- The client starts from the root of the boundary's subtree and climbs past its siblings. -/
theorem served_start {leaves : List Bytes} {m : ℕ} (hm : 0 < m) (hlt : m < leaves.length) :
    ∃ ys, subtreeAt leaves (boundary leaves.length m) = some ys ∧
      (if m = 2 ^ m.log2 then merkleRoot H (leaves.take m) :: subproof H m leaves true
        else subproof H m leaves true) =
        root (node H) (H.digest []) ys ::
          siblings (node H) (H.digest []) leaves (boundary leaves.length m) := by
  have hle := Nat.le_of_lt hlt
  obtain ⟨ys, hat⟩ := subtreeAt_boundary _ m hm hle leaves rfl
  have hleft := boundary_all_left _ m hm hle hlt
  refine ⟨ys, hat, ?_⟩
  rw [subproof_eq _ m hm hle leaves rfl ys hat true]
  by_cases hpow : m = 2 ^ m.log2
  · have hall := hleft.mpr (isPowerOfTwo_iff.mp hpow)
    rw [if_pos hpow, if_pos ⟨rfl, hall⟩, List.nil_append, merkleRoot_eq,
      Option.some.inj ((subtreeAt_all_left _ m hm hle hall leaves rfl).symm.trans hat)]
  · rw [if_neg hpow, if_neg fun h => hpow (isPowerOfTwo_iff.mpr (hleft.mp h.2)),
      List.singleton_append]

/-- What the client hashes for the log's own proof is hashed for the root as well. -/
theorem served_clientInputs {leaves : List Bytes} {m : ℕ} (hm : 0 < m) (hlt : m < leaves.length) :
    clientInputs H m leaves.length (merkleRoot H (leaves.take m)) (subproof H m leaves true) ⊆
      rootInputs H leaves := by
  obtain ⟨ys, hat, hpath⟩ := served_start (H := H) hm hlt
  obtain ⟨hskip, hturns⟩ := skipOdd_boundary hm hlt
  have hlength : (siblings (node H) (H.digest []) leaves (boundary leaves.length m)).length =
      (boundary leaves.length m).reverse.length := by
    rw [siblings_length, List.length_reverse]
  rw [clientInputs, hpath]
  dsimp only
  rw [walkInputs, climbInputs, walkSteps, Nat.add_sub_cancel,
    walkTurns_take hskip (by rw [hturns, hlength]), hturns, hlength, List.take_length]
  exact List.map_subset _ (climbed_siblings _ _ hat)

def threeAppended : MerkleLog :=
  [[0x61], [0x62], [0x63]].foldl (MerkleLog.append sha256) {}

theorem threeAppended_reachable : MerkleLog.Reachable sha256 threeAppended :=
  .append _ (.append _ (.append _ (.new _ _)))

theorem subproof_three (x y z : Bytes) : subproof H 2 [x, y, z] true = [z] := by
  have hsplit : splitPoint [x, y, z].length = 2 := rfl
  have hfull : subproof H 2 [x, y] true = [] := by
    rw [subproof]
    rfl
  rw [subproof, hsplit]
  change subproof H 2 [x, y] true ++ [merkleRoot H [z]] = [z]
  rw [hfull, merkleRoot_eq, root_singleton, List.nil_append]

theorem threeAppended_proof :
    subproof sha256 2 threeAppended.leaves true = [leafHash sha256 [0x63]] :=
  subproof_three _ _ _

theorem threeAppended_client : clientInputs sha256 2 3
    (merkleRoot sha256 (threeAppended.leaves.take 2)) [leafHash sha256 [0x63]] ⊆
      treeInputs sha256 threeAppended.entries := by
  have htwo : 2 < threeAppended.leaves.length := by decide
  have hclient := served_clientInputs (H := sha256) Nat.two_pos htwo
  rw [threeAppended_proof] at hclient
  exact List.Subset.trans hclient (List.subset_append_right _ _)

theorem consistency_exact_three :
    (clientVerify sha256 2 3 (merkleRoot sha256 (threeAppended.leaves.take 2))
        (threeAppended.root sha256) [leafHash sha256 [0x63]]).isSome = true ↔
      merkleRoot sha256 (threeAppended.leaves.take 2) =
          merkleRoot sha256 (threeAppended.leaves.take 2) ∧
        threeAppended.consistencyProof sha256 2 = .ok [leafHash sha256 [0x63]] := by
  have hcf : CollisionFree sha256 (treeInputs sha256 threeAppended.entries) := three_collisionFree
  have hleaves := MerkleLog.reachable_leaves_length threeAppended_reachable
  refine consistency_exact sha256 threeAppended threeAppended_reachable (by decide) 2 (by decide)
    (by decide) (merkleRoot sha256 (threeAppended.leaves.take 2)) [leafHash sha256 [0x63]] ?_ ?_ ?_
  · rw [merkleRoot_eq]
    exact root_length fun l hl => hleaves l (List.mem_of_mem_take hl)
  · exact List.forall_mem_singleton.mpr (sha256.digest_length _)
  · exact hcf.mono (List.append_subset.mpr ⟨List.Subset.refl _, threeAppended_client⟩)

/-! ## What a monitor has followed -/

/-- Logs whose leaf hashes extend each other hold records that extend each other. -/
theorem entries_prefix {old new : MerkleLog} (hold : MerkleLog.Reachable H old)
    (hnew : MerkleLog.Reachable H new)
    (hcf : CollisionFree H (treeInputs H old.entries ++ treeInputs H new.entries))
    (h : old.leaves = new.leaves.take old.size) : old.entries <+: new.entries := by
  have hpoint : ∀ e ∈ old.entries, ∀ f ∈ new.entries, leafHash H e = leafHash H f → e = f := by
    intro e he f hf hhash
    have hin := hcf (leafInput e)
      (List.mem_append_left _ (List.mem_append_left _ (List.mem_map_of_mem he))) (leafInput f)
      (List.mem_append_right _ (List.mem_append_left _ (List.mem_map_of_mem hf))) hhash
    exact (List.cons.inj hin).2
  have hsize : old.size = old.entries.length := by
    rw [MerkleLog.size, MerkleLog.reachable_leaves hold, List.length_map]
  rw [MerkleLog.reachable_leaves hold, MerkleLog.reachable_leaves hnew, hsize,
    ← List.map_take] at h
  have hlen : old.entries.length = (new.entries.take old.entries.length).length := by
    simpa only [List.length_map] using congrArg List.length h
  rw [List.prefix_iff_eq_take]
  refine List.ext_getElem hlen fun k hk hk' => ?_
  refine hpoint _ (List.getElem_mem hk) _ (List.mem_of_mem_take (List.getElem_mem hk')) ?_
  have hget := congrArg (·[k]?) h
  simpa only [List.getElem?_map, List.getElem?_eq_getElem hk, List.getElem?_eq_getElem hk',
    Option.map_some, Option.some.injEq] using hget

/-- What a log holds when a round is accepted is still in the log of the round. -/
theorem kept_of_accepts {old : MerkleLog} {round : Round} (hold : MerkleLog.Reachable H old)
    (hnew : MerkleLog.Reachable H round.log) (h32 : ∀ p ∈ round.proof, p.length = 32)
    (hcf : CollisionFree H (roundInputs H old round)) (h : accepts H old round = true) :
    old.entries <+: round.log.entries := by
  have hleaves := MerkleLog.reachable_leaves hold
  have hle : old.size ≤ round.log.size := by
    rw [accepts] at h
    split at h
    · exact Nat.le_of_eq ‹_›
    · exact Nat.le_of_lt (of_decide_eq_true h).2.1
  have hroots : old.root H = merkleRoot H (round.log.leaves.take old.size) := by
    rw [accepts] at h
    split at h
    · rename_i hsize
      rw [of_decide_eq_true h, hsize, MerkleLog.root, MerkleLog.size, List.take_length]
    · obtain ⟨hpos, hlt, haccepted⟩ := of_decide_eq_true h
      refine (proof_of_clientVerify hnew hpos hlt ?_ h32 (hcf.mono ?_) haccepted).1
      · rw [MerkleLog.root, merkleRoot_eq]
        exact root_length (MerkleLog.reachable_leaves_length hold)
      · refine List.append_subset.mpr ⟨?_, List.subset_append_right _ _⟩
        exact List.subset_append_of_subset_left _
          (List.subset_append_of_subset_left _ (List.subset_append_right _ _))
  refine entries_prefix hold hnew (hcf.mono ?_) ?_
  · exact List.subset_append_of_subset_left _ (List.subset_append_left _ _)
  · have hlen : old.leaves.length = (round.log.leaves.take old.size).length := by
      rw [List.length_take]
      exact (Nat.min_eq_left hle).symm
    rw [MerkleLog.root, merkleRoot_eq, merkleRoot_eq] at hroots
    refine root_injective hlen (nodes_separate (MerkleLog.reachable_leaves_length hold)
      (fun l hl => MerkleLog.reachable_leaves_length hnew l (List.mem_of_mem_take hl))
      (hcf.mono ?_)) hroots
    refine List.append_subset.mpr ⟨?_, ?_⟩
    · rw [hleaves]
      exact List.subset_append_of_subset_left _ (List.subset_append_of_subset_left _
        (List.subset_append_of_subset_left _ (List.subset_append_right _ _)))
    · exact List.subset_append_of_subset_left _ (List.subset_append_right _ _)

/-- What a log holds at the start of a run of accepted rounds, all logs of the run hold. -/
theorem kept_of_followed {start : MerkleLog} {rounds : List Round}
    (hstart : MerkleLog.Reachable H start)
    (hlogs : ∀ round ∈ rounds, MerkleLog.Reachable H round.log)
    (h32 : ∀ round ∈ rounds, ∀ p ∈ round.proof, p.length = 32)
    (hcf : CollisionFree H (followedInputs H start rounds)) (h : Followed H start rounds) :
    ∀ later ∈ rounds.map Round.log, start.entries <+: later.entries := by
  induction rounds generalizing start with
  | nil => exact List.forall_mem_nil _
  | cons round rounds ih =>
    obtain ⟨hnew, hlogs⟩ := List.forall_mem_cons.mp hlogs
    obtain ⟨h32, hrest32⟩ := List.forall_mem_cons.mp h32
    have hstep := kept_of_accepts hstart hnew h32 (hcf.mono (List.subset_append_left _ _)) h.1
    have hrest := ih hnew hlogs hrest32 (hcf.mono (List.subset_append_right _ _)) h.2
    exact List.forall_mem_cons.mpr ⟨hstep, fun later hlater => hstep.trans (hrest later hlater)⟩

/-- Along a run of accepted rounds, however the logs came about, every log holds the records of
all logs before it, in their places. -/
theorem history_kept (H : HashFunction) (start : MerkleLog) (rounds : List Round)
    (hstart : MerkleLog.Reachable H start)
    (hlogs : ∀ round ∈ rounds, MerkleLog.Reachable H round.log)
    (h32 : ∀ round ∈ rounds, ∀ p ∈ round.proof, p.length = 32)
    (hcf : CollisionFree H (followedInputs H start rounds)) (h : Followed H start rounds) :
    (start :: rounds.map Round.log).Pairwise fun old new => old.entries <+: new.entries := by
  induction rounds generalizing start with
  | nil => exact List.pairwise_singleton _ _
  | cons round rounds ih =>
    have hkept := kept_of_followed hstart hlogs h32 hcf h
    obtain ⟨hnew, hlogs⟩ := List.forall_mem_cons.mp hlogs
    obtain ⟨-, h32⟩ := List.forall_mem_cons.mp h32
    exact List.pairwise_cons.mpr
      ⟨hkept, ih round.log hnew hlogs h32 (hcf.mono (List.subset_append_right _ _)) h.2⟩

/-- A log that has grown passes with the proof that it serves. -/
theorem accepts_served {old new : MerkleLog} (hpos : 0 < old.size) (hlt : old.size < new.size)
    (hleaves : old.leaves = new.leaves.take old.size) :
    accepts H old ⟨new, subproof H old.size new.leaves true⟩ = true := by
  have hverify := clientVerify_subproof (H := H) hpos hlt
  rw [← hleaves] at hverify
  rw [accepts, if_neg (Nat.ne_of_lt hlt)]
  exact decide_eq_true ⟨hpos, hlt, Option.isSome_iff_exists.mpr ⟨_, hverify⟩⟩

def twoAppended : MerkleLog := [[0x61], [0x62]].foldl (MerkleLog.append sha256) {}

theorem twoAppended_inputs :
    treeInputs sha256 twoAppended.entries ⊆ treeInputs sha256 threeAppended.entries := by
  refine List.append_subset.mpr ⟨?_, ?_⟩
  · exact List.subset_append_of_subset_left _ (List.map_subset _ (List.subset_append_left _ _))
  · have htwo : 2 ≤ threeAppended.leaves.length := by decide
    exact List.subset_append_of_subset_right _ (rootInputs_side htwo false)

theorem history_kept_three :
    [twoAppended, threeAppended].Pairwise fun old new => old.entries <+: new.entries := by
  have hcf : CollisionFree sha256 (treeInputs sha256 threeAppended.entries) := three_collisionFree
  have hpos : 0 < twoAppended.size := by decide
  have hlt : twoAppended.size < threeAppended.size := by decide
  have haccepts := accepts_served (H := sha256) hpos hlt rfl
  rw [show subproof sha256 twoAppended.size threeAppended.leaves true = _ from
    threeAppended_proof] at haccepts
  refine history_kept sha256 twoAppended [⟨threeAppended, [leafHash sha256 [0x63]]⟩]
    (.append _ (.append _ (.new _ _)))
    (List.forall_mem_singleton.mpr threeAppended_reachable) ?_ (hcf.mono ?_) ⟨haccepts, trivial⟩
  · exact List.forall_mem_singleton.mpr
      (List.forall_mem_singleton.mpr (sha256.digest_length _))
  · rw [followedInputs, followedInputs, List.append_nil, roundInputs]
    refine List.append_subset.mpr ⟨List.append_subset.mpr ⟨List.append_subset.mpr
      ⟨twoAppended_inputs, List.Subset.refl _⟩, ?_⟩, threeAppended_client⟩
    exact List.Subset.trans (List.subset_append_right _ _) twoAppended_inputs

end LogHistory
