import SmBridge.CanonicalJson
import SmBridge.Conformance
import Mathlib.Data.List.Chain

/-!
# What a checkpoint pins

The note that is signed has the origin, the size and the root of a log, one below the other. It
tells the three apart unless a line of the origin reads as a number. Where it does, an auditor
who takes checkpoints from anybody accepts only the logs that were signed, each as the
beginning of the next.
-/
namespace CheckpointNotes

open Python
open Hashing
open MerkleTree
open Tlog
open Conformance

/-! ## Lines -/

def lines (s : String) : List (List Char) := s.toList.splitOn '\n'

def unlines (ls : List (List Char)) : String := String.ofList (List.intercalate ['\n'] ls)

/-- The same origin, size and root, whatever the signature is. -/
structure SameTree (cp cp' : Checkpoint) : Prop where
  origin : cp.origin = cp'.origin
  size : cp.size = cp'.size
  rootB64 : cp.rootB64 = cp'.rootB64

/-- No line of an origin but the first one reads as a number. -/
def Unambiguous (origin : String) : Prop :=
  ∀ before after (n : ℤ), lines origin = before ++ (toString n).toList :: after → before = []

theorem lines_ne_nil (s : String) : lines s ≠ [] := List.splitOn_ne_nil _ _

theorem lines_injective : Function.Injective lines := by
  intro s t h
  have htext := congrArg (List.intercalate ['\n']) h
  rw [lines, lines, List.intercalate_splitOn, List.intercalate_splitOn] at htext
  exact String.toList_injective htext

theorem newline_notMem_lines (s : String) : ∀ l ∈ lines s, '\n' ∉ l :=
  Segments.notMem_of_mem_splitOn

theorem lines_unlines {ls : List (List Char)} (hne : ls ≠ []) (h : ∀ l ∈ ls, '\n' ∉ l) :
    lines (unlines ls) = ls := by
  rw [lines, unlines, String.toList_ofList, List.splitOn_intercalate _ h hne]

theorem newline_notMem_int (n : ℤ) : '\n' ∉ (toString n).toList := by
  intro h
  cases CanonicalJson.numberChar_int h

theorem lines_noteBody (cp : Checkpoint) : lines cp.noteBody =
    lines cp.origin ++ (toString cp.size).toList :: (lines cp.rootB64 ++ [[]]) := by
  have htext : cp.noteBody.toList = cp.origin.toList ++ '\n' :: ((toString cp.size).toList ++
      '\n' :: (cp.rootB64.toList ++ '\n' :: [])) := by
    simp [Checkpoint.noteBody]
  rw [lines, htext, List.splitOn_append_cons_self, List.splitOn_append_cons_self,
    List.splitOn_append_cons_self, List.splitOn_eq_singleton (newline_notMem_int _)]
  rfl

theorem signedBytes_eq_iff {cp cp' : Checkpoint} : cp.signedBytes = cp'.signedBytes ↔
    lines cp.origin ++ (toString cp.size).toList :: lines cp.rootB64 =
      lines cp'.origin ++ (toString cp'.size).toList :: lines cp'.rootB64 := by
  rw [Checkpoint.signedBytes, Checkpoint.signedBytes, encodeUtf8_injective.eq_iff,
    ← lines_injective.eq_iff, lines_noteBody, lines_noteBody]
  have hlast : ∀ xs ys : List (List Char), ∀ n : List Char,
      xs ++ n :: (ys ++ [[]]) = (xs ++ n :: ys) ++ [[]] := by simp
  rw [hlast, hlast, List.append_left_inj]

theorem newline_notMem_b64encode (b : Bytes) : '\n' ∉ (b64encode b).toList := by
  obtain ⟨digits, k, hencode, -, -, hdigits⟩ := Base64.encode_eq_append b
  rw [b64encode, String.toList_ofList, hencode]
  intro h
  rcases List.mem_append.mp h with h | h
  · exact absurd (hdigits _ h) (by decide +kernel)
  · exact absurd (List.eq_of_mem_replicate h) (by decide)

theorem unambiguous_of_plain {origin : String} (h : '\n' ∉ origin.toList) :
    Unambiguous origin := by
  intro before after n hlines
  rw [lines, List.splitOn_eq_singleton h] at hlines
  exact (List.append_eq_singleton_iff.mp hlines.symm).elim And.left fun heq => by simp at heq

/-- Two lists, of which the second one ends in two items. -/
theorem append_cons_eq {α : Type} {xs ys zs : List α} {a b c : α} (hzs : zs ≠ [])
    (h : xs ++ a :: zs = ys ++ [b, c]) :
    xs = ys ∧ a = b ∧ zs = [c] ∨ ∃ more, ys = xs ++ a :: more := by
  rcases List.append_eq_append_iff.mp h with ⟨more, rfl, hrest⟩ | ⟨more, rfl, hrest⟩
  · cases more with
    | nil =>
      obtain ⟨rfl, rfl⟩ := List.cons.inj hrest
      exact Or.inl ⟨(List.append_nil xs).symm, rfl, rfl⟩
    | cons x more =>
      obtain ⟨rfl, -⟩ := List.cons.inj hrest
      exact Or.inr ⟨more, rfl⟩
  · cases more with
    | nil =>
      obtain ⟨rfl, rfl⟩ := List.cons.inj hrest
      exact Or.inl ⟨List.append_nil ys, rfl, rfl⟩
    | cons x more =>
      have hlength := congrArg List.length hrest
      have hpos := List.length_pos_iff.mpr hzs
      simp only [List.length_append, List.length_cons, List.length_nil] at hlength
      exact absurd hlength (by omega)

/-- The signature pins origin, size and root exactly if the origin is unambiguous. -/
theorem note_pins_iff (cp : Checkpoint) (hroot : '\n' ∉ cp.rootB64.toList) :
    (∀ cp' : Checkpoint, cp'.signedBytes = cp.signedBytes → SameTree cp' cp) ↔
      Unambiguous cp.origin := by
  have hone : lines cp.rootB64 = [cp.rootB64.toList] := List.splitOn_eq_singleton hroot
  constructor
  · intro h before after n hlines
    by_contra hne
    -- The rest of the origin, the size and the root together take the place of the root.
    let moved := after ++ [(toString cp.size).toList, cp.rootB64.toList]
    have hparts : ∀ l ∈ before ++ (toString n).toList :: after, '\n' ∉ l :=
      hlines ▸ newline_notMem_lines cp.origin
    have hbefore : lines (unlines before) = before :=
      lines_unlines hne fun l hl => hparts l (List.mem_append_left _ hl)
    have hmoved : lines (unlines moved) = moved := by
      refine lines_unlines (by simp [moved]) fun l hl => ?_
      rcases List.mem_append.mp hl with hl | hl
      · exact hparts l (List.mem_append_right _ (List.mem_cons_of_mem _ hl))
      · rcases List.mem_pair.mp hl with rfl | rfl
        · exact newline_notMem_int _
        · exact hroot
    have hsame := h ⟨unlines before, n, unlines moved, ""⟩ (by
      rw [signedBytes_eq_iff, hbefore, hmoved, hone, hlines]
      simp [moved])
    have horigin := congrArg (fun s => (lines s).length) hsame.origin
    simp only [hbefore, hlines, List.length_append, List.length_cons] at horigin
    omega
  · intro h cp' hbytes
    rw [signedBytes_eq_iff, hone] at hbytes
    rcases append_cons_eq (lines_ne_nil _) hbytes with ⟨horigin, hsize, hroot'⟩ | ⟨more, horigin⟩
    · refine ⟨lines_injective horigin, CanonicalJson.toList_int_inj hsize, ?_⟩
      exact lines_injective (hroot'.trans hone.symm)
    · exact absurd (h _ more cp'.size horigin) (lines_ne_nil _)

/-- What is signed for a log tells its origin, size and root exactly if the origin is
unambiguous. -/
theorem signature_pins_iff (H : HashFunction) {PrivateKey PublicKey : Type}
    (ed : Ed25519 PrivateKey PublicKey) (log : MerkleLog) (key : PrivateKey) :
    (∀ cp : Checkpoint, cp.signedBytes = (log.signCheckpoint H ed key).signedBytes →
      SameTree cp (log.signCheckpoint H ed key)) ↔ Unambiguous log.origin :=
  note_pins_iff _ (newline_notMem_b64encode _)

/-! ## Audits of one log after another -/

/-- A log as it stands at an audit, with the checkpoint that comes with it. -/
structure Audited where
  log : MerkleLog
  checkpoint : Checkpoint

section Definitions

variable (H : HashFunction) {PrivateKey PublicKey : Type} (ed : Ed25519 PrivateKey PublicKey)
  (pub : PublicKey)

/-- What is signed for a log. -/
def note (log : MerkleLog) : Checkpoint := ⟨log.origin, log.size, log.rootB64 H, ""⟩

/-- The key accepts notes of these logs, and nothing else. -/
def SignsOnly (signed : List MerkleLog) : Prop :=
  ∀ signature message, ed.verify pub signature message = true →
    ∃ log ∈ signed, message = (note H log).signedBytes

/-- Each audit passes, against the checkpoint of the audit before it. -/
def Passed : Option Audited → List Audited → Prop
  | _, [] => True
  | pinned, a :: rounds =>
    (audit H ed a.log a.checkpoint pub (pinned.map Audited.checkpoint)).passed = true ∧
      Passed (some a) rounds

/-- The checkpoint carries a signature of the key and names a signed log, whose leaves are
those of the audited one. -/
def Pinned (signed : List MerkleLog) (a : Audited) : Prop :=
  MerkleLog.verifyCheckpoint ed a.checkpoint pub = true ∧
    ∃ log ∈ signed, SameTree a.checkpoint (note H log) ∧ a.log.leaves = log.leaves

/-- What is hashed for the signed logs and at the audits. -/
def auditInputs (signed : List MerkleLog) (rounds : List Audited) : List Bytes :=
  (signed.flatMap fun log => rootInputs H log.leaves) ++
    rounds.flatMap fun a => rootInputs H a.log.leaves ++
      rounds.flatMap fun b => rootInputs H (b.log.leaves.take a.log.size)

end Definitions

section Audits

variable {H : HashFunction} {PrivateKey PublicKey : Type} {ed : Ed25519 PrivateKey PublicKey}
  {pub : PublicKey} {signed : List MerkleLog} {log : MerkleLog} {cp : Checkpoint} {a b : Audited}
  {rounds : List Audited}

theorem audit_passed_iff {pinned : Option Checkpoint} :
    (audit H ed log cp pub pinned).passed = true ↔
      MerkleLog.verifyCheckpoint ed cp pub = true ∧ (rootRecomputation H log cp).ok = true ∧
        ∀ p ∈ pinned, (appendOnly H log p).ok = true := by
  cases pinned <;> simp [audit, ConformanceReport.passed, checkpointSignature]

/-- An accepted checkpoint names a signed log. -/
theorem named_of_verify (hsigns : SignsOnly H ed pub signed)
    (horigins : ∀ log ∈ signed, Unambiguous log.origin)
    (h : MerkleLog.verifyCheckpoint ed cp pub = true) :
    ∃ log ∈ signed, SameTree cp (note H log) := by
  rw [MerkleLog.verifyCheckpoint] at h
  split at h
  · cases h
  · obtain ⟨log, hlog, hbytes⟩ := hsigns _ _ h
    exact ⟨log, hlog, (note_pins_iff (note H log) (newline_notMem_b64encode _)).mpr
      (horigins log hlog) cp hbytes⟩

theorem recomputed_iff {tree : MerkleLog} (hsame : SameTree cp (note H tree))
    (hlog : ∀ l ∈ log.leaves, l.length = 32) (htree : ∀ l ∈ tree.leaves, l.length = 32)
    (hcf : CollisionFree H (rootInputs H log.leaves ++ rootInputs H tree.leaves)) :
    (rootRecomputation H log cp).ok = true ↔ log.leaves = tree.leaves := by
  have hroot := root_of_size_iff hlog htree hcf
  rw [← hroot]
  refine decide_eq_true_iff.trans ?_
  rw [hsame.rootB64, hsame.size]
  exact and_congr_right fun _ => Int.ofNat_inj

theorem grown_iff {leaves : List Bytes} (hsize : cp.size = leaves.length)
    (hroot : cp.rootB64 = b64encode (merkleRoot H leaves))
    (hlog : ∀ l ∈ log.leaves, l.length = 32) (hleaves : ∀ l ∈ leaves, l.length = 32)
    (hcf : CollisionFree H (rootInputs H (log.leaves.take leaves.length) ++ rootInputs H leaves)) :
    (appendOnly H log cp).ok = true ↔ leaves <+: log.leaves := by
  have hsame := root_of_size_iff (fun l hl => hlog l (List.mem_of_mem_take hl)) hleaves hcf
  have hlength : ((leaves.length : ℤ) ≤ log.size) ↔
      (log.leaves.take leaves.length).length = leaves.length := by
    rw [List.length_take, MerkleLog.size]
    omega
  refine decide_eq_true_iff.trans ?_
  rw [hsize, hroot, sliceTo_natCast, hlength, and_comm, hsame, List.prefix_iff_eq_take, eq_comm]

/-- One audit, behind one that has pinned its own log. -/
theorem audit_step {pinned : Option Audited} (hsigns : SignsOnly H ed pub signed)
    (horigins : ∀ log ∈ signed, Unambiguous log.origin)
    (hsigned : ∀ log ∈ signed, ∀ l ∈ log.leaves, l.length = 32)
    (hpinned : ∀ p ∈ pinned, Pinned H ed pub signed p) (ha : ∀ l ∈ a.log.leaves, l.length = 32)
    (hroots : ∀ log ∈ signed,
      CollisionFree H (rootInputs H a.log.leaves ++ rootInputs H log.leaves))
    (hfronts : ∀ p ∈ pinned, CollisionFree H
      (rootInputs H (a.log.leaves.take p.log.size) ++ rootInputs H p.log.leaves)) :
    (audit H ed a.log a.checkpoint pub (pinned.map Audited.checkpoint)).passed = true ↔
      Pinned H ed pub signed a ∧ ∀ p ∈ pinned, p.log.leaves <+: a.log.leaves := by
  have hfront : ∀ p ∈ pinned,
      ((appendOnly H a.log p.checkpoint).ok = true ↔ p.log.leaves <+: a.log.leaves) := by
    intro p hp
    obtain ⟨-, log, hlog, hsame, hleaves⟩ := hpinned p hp
    refine grown_iff ?_ ?_ ha (hleaves ▸ hsigned log hlog) (hfronts p hp)
    · rw [hleaves]
      exact hsame.size
    · rw [hleaves]
      exact hsame.rootB64
  have hfronts' : (∀ p ∈ pinned.map Audited.checkpoint, (appendOnly H a.log p).ok = true) ↔
      ∀ p ∈ pinned, p.log.leaves <+: a.log.leaves := by
    constructor
    · intro h p hp
      exact (hfront p hp).mp (h _ (Option.mem_map_of_mem _ hp))
    · intro h cp hcp
      obtain ⟨p, hp, rfl⟩ := Option.mem_map.mp hcp
      exact (hfront p hp).mpr (h p hp)
  rw [audit_passed_iff, hfronts', ← and_assoc]
  refine and_congr_left fun _ => ?_
  constructor
  · rintro ⟨hverify, hroot⟩
    obtain ⟨log, hlog, hsame⟩ := named_of_verify hsigns horigins hverify
    exact ⟨hverify, log, hlog, hsame,
      (recomputed_iff hsame ha (hsigned log hlog) (hroots log hlog)).mp hroot⟩
  · rintro ⟨hverify, log, hlog, hsame, hleaves⟩
    exact ⟨hverify,
      (recomputed_iff hsame ha (hsigned log hlog) (hroots log hlog)).mpr hleaves⟩

theorem signed_subset (hlog : log ∈ signed) :
    rootInputs H log.leaves ⊆ auditInputs H signed rounds := fun _ hx =>
  List.mem_append_left _ (List.mem_flatMap.mpr ⟨log, hlog, hx⟩)

theorem live_subset (ha : a ∈ rounds) :
    rootInputs H a.log.leaves ⊆ auditInputs H signed rounds := fun _ hx =>
  List.mem_append_right _ (List.mem_flatMap.mpr ⟨a, ha, List.mem_append_left _ hx⟩)

theorem front_subset (ha : a ∈ rounds) (hb : b ∈ rounds) :
    rootInputs H (b.log.leaves.take a.log.size) ⊆ auditInputs H signed rounds := fun _ hx =>
  List.mem_append_right _ (List.mem_flatMap.mpr
    ⟨a, ha, List.mem_append_right _ (List.mem_flatMap.mpr ⟨b, hb, hx⟩)⟩)

theorem auditInputs_mono {rounds' : List Audited} (h : rounds' ⊆ rounds) :
    auditInputs H signed rounds' ⊆ auditInputs H signed rounds := by
  refine List.append_subset.mpr ⟨List.subset_append_left _ _, fun x hx => ?_⟩
  obtain ⟨a, ha, hx⟩ := List.mem_flatMap.mp hx
  rcases List.mem_append.mp hx with hx | hx
  · exact live_subset (h ha) hx
  · obtain ⟨b, hb, hx⟩ := List.mem_flatMap.mp hx
    exact front_subset (h ha) (h hb) hx

theorem passed_iff (pinned : Option Audited) (hsigns : SignsOnly H ed pub signed)
    (horigins : ∀ log ∈ signed, Unambiguous log.origin)
    (hsigned : ∀ log ∈ signed, ∀ l ∈ log.leaves, l.length = 32)
    (hpinned : ∀ p ∈ pinned, Pinned H ed pub signed p)
    (hrounds : ∀ a ∈ rounds, ∀ l ∈ a.log.leaves, l.length = 32)
    (hcf : CollisionFree H (auditInputs H signed (pinned.toList ++ rounds))) :
    Passed H ed pub pinned rounds ↔ (∀ a ∈ rounds, Pinned H ed pub signed a) ∧
      (pinned.toList ++ rounds).IsChain fun a b => a.log.leaves <+: b.log.leaves := by
  induction rounds generalizing pinned with
  | nil =>
    refine iff_of_true trivial ⟨List.forall_mem_nil _, ?_⟩
    cases pinned with
    | none => exact .nil
    | some p => exact .singleton p
  | cons a rounds ih =>
    obtain ⟨ha, hrounds⟩ := List.forall_mem_cons.mp hrounds
    have hmem : a ∈ pinned.toList ++ a :: rounds := List.mem_append_right _ List.mem_cons_self
    have hroots : ∀ log ∈ signed,
        CollisionFree H (rootInputs H a.log.leaves ++ rootInputs H log.leaves) := fun log hlog =>
      hcf.mono (List.append_subset.mpr ⟨live_subset hmem, signed_subset hlog⟩)
    have hfronts : ∀ p ∈ pinned, CollisionFree H
        (rootInputs H (a.log.leaves.take p.log.size) ++ rootInputs H p.log.leaves) := by
      intro p hp
      have hp' : p ∈ pinned.toList ++ a :: rounds :=
        List.mem_append_left _ (Option.mem_toList.mpr hp)
      exact hcf.mono (List.append_subset.mpr ⟨front_subset hp' hmem, live_subset hp'⟩)
    have hlater : auditInputs H signed (a :: rounds) ⊆
        auditInputs H signed (pinned.toList ++ a :: rounds) :=
      auditInputs_mono (List.subset_append_right _ _)
    rw [Passed, audit_step hsigns horigins hsigned hpinned ha hroots hfronts,
      List.forall_mem_cons, and_assoc, and_assoc]
    refine and_congr_right fun hpin => ?_
    rw [ih (some a) (fun p hp => Option.some.inj hp ▸ hpin) hrounds (hcf.mono hlater),
      and_left_comm]
    refine and_congr_right fun _ => ?_
    cases pinned with
    | none => exact and_iff_right fun _ hp => absurd hp (Option.not_mem_none _)
    | some p => simp [List.isChain_cons_cons]

/-- Audits with checkpoints from anybody pass, one after another, exactly if each checkpoint
carries a signature of the key and names a signed log with the leaves of the audited one, and
each audited log is the beginning of all later ones. -/
theorem audits_pin (H : HashFunction) (ed : Ed25519 PrivateKey PublicKey) (pub : PublicKey)
    (signed : List MerkleLog) (rounds : List Audited) (hsigns : SignsOnly H ed pub signed)
    (horigins : ∀ log ∈ signed, Unambiguous log.origin)
    (hsigned : ∀ log ∈ signed, MerkleLog.Reachable H log)
    (hrounds : ∀ a ∈ rounds, ∀ l ∈ a.log.leaves, l.length = 32)
    (hcf : CollisionFree H (auditInputs H signed rounds)) :
    Passed H ed pub none rounds ↔ (∀ a ∈ rounds, Pinned H ed pub signed a) ∧
      (rounds.map fun a => a.log.leaves).Pairwise (· <+: ·) := by
  have htrans : Trans (· <+: · : List Bytes → List Bytes → Prop) (· <+: ·) (· <+: ·) :=
    ⟨List.IsPrefix.trans⟩
  have hpassed := passed_iff none hsigns horigins
    (fun log hlog => MerkleLog.reachable_leaves_length (hsigned log hlog))
    (fun _ hp => absurd hp (Option.not_mem_none _)) hrounds hcf
  rw [hpassed, ← List.isChain_iff_pairwise, List.isChain_map]
  rfl

end Audits

/-- A key that accepts exactly the notes of these logs. -/
def recordedNotes (signed : List MerkleLog) : Ed25519 Unit Unit where
  publicKey _ := ()
  sign _ _ := []
  verify _ _ message := message ∈ signed.map fun log => (note sha256 log).signedBytes

theorem recordedNotes_signs (signed : List MerkleLog) :
    SignsOnly sha256 (recordedNotes signed) () signed := by
  intro _ message h
  obtain ⟨log, hlog, heq⟩ := List.mem_map.mp (of_decide_eq_true h)
  exact ⟨log, hlog, heq.symm⟩

def oneEntry : MerkleLog := MerkleLog.append sha256 {} [0x61]

def twoEntries : MerkleLog := MerkleLog.append sha256 oneEntry [0x62]

/-- The only node that the two audits hash is the root of both leaves. -/
theorem auditInputs_grown : ∀ x ∈ auditInputs sha256 [oneEntry, twoEntries]
    ([oneEntry, twoEntries].map fun log => Audited.mk log (note sha256 log)),
    x = nodeInput (leafHash sha256 [0x61]) (leafHash sha256 [0x62]) := by
  have honly : ∀ k, ∀ x ∈ rootInputs sha256 (twoEntries.leaves.take k),
      x = nodeInput (leafHash sha256 [0x61]) (leafHash sha256 [0x62]) := by
    intro k x hx
    rcases Nat.lt_or_ge k 2 with hk | hk
    · rw [rootInputs_short ((List.length_take_le _ _).trans_lt hk)] at hx
      exact absurd hx List.not_mem_nil
    · rw [List.take_of_length_le hk] at hx
      exact List.mem_singleton.mp (rootInputs_pair (H := sha256) _ _ ▸ hx)
  have hfront : ∀ log ∈ [oneEntry, twoEntries], ∃ k, log.leaves = twoEntries.leaves.take k :=
    List.forall_mem_cons.mpr ⟨⟨1, rfl⟩, List.forall_mem_singleton.mpr ⟨2, rfl⟩⟩
  intro x hx
  rcases List.mem_append.mp hx with hx | hx
  · obtain ⟨log, hlog, hx⟩ := List.mem_flatMap.mp hx
    obtain ⟨k, hk⟩ := hfront log hlog
    exact honly k x (hk ▸ hx)
  · obtain ⟨a, ha, hx⟩ := List.mem_flatMap.mp hx
    obtain ⟨log, hlog, rfl⟩ := List.mem_map.mp ha
    rcases List.mem_append.mp hx with hx | hx
    · obtain ⟨k, hk⟩ := hfront log hlog
      exact honly k x (hk ▸ hx)
    · obtain ⟨b, hb, hx⟩ := List.mem_flatMap.mp hx
      obtain ⟨later, hlater, rfl⟩ := List.mem_map.mp hb
      obtain ⟨k, hk⟩ := hfront later hlater
      refine honly (min log.size k) x ?_
      rw [← List.take_take, ← hk]
      exact hx

theorem audits_pin_grown :
    let rounds := [oneEntry, twoEntries].map fun log => Audited.mk log (note sha256 log)
    (∀ a ∈ rounds, Pinned sha256 (recordedNotes [oneEntry, twoEntries]) ()
        [oneEntry, twoEntries] a) ∧
      (rounds.map fun a => a.log.leaves).Pairwise (· <+: ·) := by
  have hplain : Unambiguous "sm-bridge/tlog" := unambiguous_of_plain (by decide +kernel)
  have horigins : ∀ log ∈ [oneEntry, twoEntries], Unambiguous log.origin :=
    List.forall_mem_cons.mpr ⟨hplain, List.forall_mem_singleton.mpr hplain⟩
  have hone : MerkleLog.Reachable sha256 oneEntry := .append _ (.new _ _)
  have htwo : MerkleLog.Reachable sha256 twoEntries := .append _ hone
  have hown : ∀ log ∈ [oneEntry, twoEntries],
      MerkleLog.verifyCheckpoint (recordedNotes [oneEntry, twoEntries]) (note sha256 log) () =
        true ∧ (rootRecomputation sha256 log (note sha256 log)).ok = true :=
    fun log hlog => ⟨decide_eq_true (List.mem_map_of_mem hlog), decide_eq_true ⟨rfl, rfl⟩⟩
  refine (audits_pin sha256 (recordedNotes _) () [oneEntry, twoEntries] _ (recordedNotes_signs _)
    horigins (List.forall_mem_cons.mpr ⟨hone, List.forall_mem_singleton.mpr htwo⟩) ?_
    (CollisionFree.of_forall_eq auditInputs_grown)).mp ⟨?_, ?_, trivial⟩
  · exact List.forall_mem_cons.mpr ⟨MerkleLog.reachable_leaves_length hone,
      List.forall_mem_singleton.mpr (MerkleLog.reachable_leaves_length htwo)⟩
  · have hfirst := hown _ List.mem_cons_self
    exact audit_passed_iff.mpr ⟨hfirst.1, hfirst.2, fun _ hp => absurd hp (Option.not_mem_none _)⟩
  · have hsecond := hown _ (List.mem_cons_of_mem _ List.mem_cons_self)
    refine audit_passed_iff.mpr ⟨hsecond.1, hsecond.2, fun p hp => ?_⟩
    obtain rfl := Option.mem_some_iff.mp hp
    exact decide_eq_true ⟨by decide, rfl⟩

end CheckpointNotes
