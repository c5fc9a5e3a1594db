import SmBridge.BindingRuns

/-!
# The log block of a write response

A handler appends its leaf and then reads the root in a step of its own. The block is a true
receipt where no other handler appends in between.
-/
namespace BindingReceipts

open Python
open JsonValue
open Hashing
open Tlog
open BindingWrite
open BindingHandlers
open BindingRuns
open Runs
open Workers

/-- The response names its own leaf and the root of the tree that ends with it. -/
structure TrueReceipt (H : HashFunction) (python : Interpreter) (body : BindingWriteRequest)
    (log : MerkleLog) (response : WriteResponse) : Prop where
  leaf : log.leaves[response.leafIndex]? =
    some (leafHash H (canonicalLogEntry python (logEntry body response.binding.version)))
  size : response.treeSize = response.leafIndex + 1
  root : response.rootB64 = b64encode (merkleRoot H (log.leaves.take response.treeSize))

/-- The leaf of an appended write is where the handler has seen the log end. -/
def Receipted (H : HashFunction) (python : Interpreter) (body : BindingWriteRequest)
    (log : MerkleLog) : Phase → Prop
  | .appended record size => 0 < size ∧ log.leaves[size - 1]? =
      some (leafHash H (canonicalLogEntry python (logEntry body record.version)))
  | .ended (.applied response) => TrueReceipt H python body log response
  | _ => True

section Steps

variable {H : HashFunction} {python : Interpreter} {body : BindingWriteRequest}
  {log log' : MerkleLog} {phase phase' : Phase} {shared shared' : Shared} {action : Action}
  {response : WriteResponse}

theorem leaf_mono {n : ℕ} {leaf : Bytes} (hlog : log.leaves <+: log'.leaves)
    (h : log.leaves[n]? = some leaf) : log'.leaves[n]? = some leaf := by
  obtain ⟨hn, hleaf⟩ := List.getElem?_eq_some_iff.mp h
  rw [List.prefix_iff_getElem?.mp hlog n hn, hleaf]

/-- A longer log keeps the receipt. -/
theorem TrueReceipt.mono (hlog : log.leaves <+: log'.leaves)
    (h : TrueReceipt H python body log response) : TrueReceipt H python body log' response where
  leaf := leaf_mono hlog h.leaf
  size := h.size
  root := by
    obtain ⟨rest, hrest⟩ := hlog
    have hindex := (List.getElem?_eq_some_iff.mp h.leaf).1
    have hsize : response.treeSize ≤ log.leaves.length := by
      rw [h.size]
      exact hindex
    rw [h.root, ← hrest, List.take_append_of_le_length hsize]

theorem Receipted.mono (hlog : log.leaves <+: log'.leaves)
    (h : Receipted H python body log phase) : Receipted H python body log' phase := by
  cases phase with
  | appended => exact ⟨h.1, leaf_mono hlog h.2⟩
  | ended outcome =>
    cases outcome with
    | applied => exact TrueReceipt.mono hlog h
    | _ => trivial
  | _ => trivial

theorem Handles.extends (h : Handles H python body phase shared action phase' shared') :
    shared.log.leaves <+: shared'.log.leaves := by
  rcases h.log with ⟨-, hsame⟩ | ⟨record, -, -, -, hlog⟩
  · rw [hsame]
  · rw [hlog]
    exact List.prefix_append _ _

/-- A handler that reads the root of its own append gets a true receipt. -/
theorem Handles.receipted (h : Handles H python body phase shared action phase' shared')
    (hold : Receipted H python body shared.log phase)
    (hread : action = .rootB64 → ∀ record size, phase = .appended record size →
      shared.log.size = size) :
    Receipted H python body shared'.log phase' := by
  cases h
  case appended record =>
    have hsize : (commit H python shared (logEntry body record.version)).log.size =
        shared.log.leaves.length + 1 := MerkleLog.size_append _ _
    refine ⟨by omega, ?_⟩
    rw [hsize]
    exact List.getElem?_concat_length
  case responded record size =>
    have hsize : shared.log.leaves.length = size := hread rfl record size rfl
    constructor
    · exact hold.2
    · exact (Nat.sub_add_cancel hold.1).symm
    · change _ = b64encode (merkleRoot H (shared.log.leaves.take size))
      rw [← hsize, List.take_length]
      rfl
  all_goals trivial

end Steps

section Runs

variable {ι : Type} [DecidableEq ι] {H : HashFunction} {python : Interpreter}
  {requests : ι → BindingWriteRequest} {start : Shared} {trace : List (ι × Action)}
  {s t : System ι Phase Shared} {label : ι × Action}

/-- A handler reads the root only while the log ends with its own leaf. -/
def Undisturbed (s : System ι Phase Shared) (label : ι × Action) : Prop :=
  label.2 = .rootB64 → ∀ record size, s.phase label.1 = .appended record size →
    s.shared.log.size = size

/-- The steps of the handlers where no append falls between an append and its reading of the
root. -/
def UndisturbedStep (H : HashFunction) (python : Interpreter)
    (requests : ι → BindingWriteRequest) (s : System ι Phase Shared) (label : ι × Action)
    (t : System ι Phase Shared) : Prop :=
  HandlerStep H python requests s label t ∧ Undisturbed s label

def AllReceipted (H : HashFunction) (python : Interpreter) (requests : ι → BindingWriteRequest)
    (s : System ι Phase Shared) : Prop :=
  ∀ i, Receipted H python (requests i) s.shared.log (s.phase i)

theorem receipted_step (hs : AllReceipted H python requests s)
    (hstep : UndisturbedStep H python requests s label t) :
    AllReceipted H python requests t := by
  obtain ⟨k, action⟩ := label
  obtain ⟨⟨phase, hworker, hphase⟩, hundisturbed⟩ := hstep
  rw [AllReceipted, hphase]
  refine (Function.forall_update_iff _
    fun i => Receipted H python (requests i) t.shared.log).mpr ⟨?_, ?_⟩
  · exact Handles.receipted hworker (hs k) hundisturbed
  · intro i _
    exact (hs i).mono (Handles.extends hworker)

theorem receipts_true {i : ι} {response : WriteResponse}
    (h : Run (UndisturbedStep H python requests) (router start) trace s)
    (hended : s.phase i = .ended (.applied response)) :
    TrueReceipt H python (requests i) s.shared.log response := by
  have hstart : AllReceipted H python requests (router start) := fun _ => trivial
  have hreceipt := h.invariant hstart (fun _ _ _ => receipted_step) i
  rwa [hended] at hreceipt

omit [DecidableEq ι] in
/-- A response that names the root of its own tree was not overtaken, but for a collision. -/
theorem size_of_true {i : ι} {record : BindingRecord} {size : ℕ} {log : MerkleLog}
    (hlog : MerkleLog.Reachable H log) (hfront : s.shared.log.leaves <+: log.leaves)
    (hcf : ∀ m n, CollisionFree H
      (treeInputs H (log.entries.take m) ++ treeInputs H (log.entries.take n)))
    (hplaced : Receipted H python (requests i) s.shared.log (.appended record size))
    (htrue : s.shared.log.rootB64 H = b64encode (merkleRoot H (log.leaves.take size))) :
    s.shared.log.size = size := by
  have hleaves := MerkleLog.reachable_leaves hlog
  obtain ⟨hpos, hleaf⟩ := hplaced
  have hsize : size - 1 < s.shared.log.leaves.length := (List.getElem?_eq_some_iff.mp hleaf).1
  have hlength : s.shared.log.leaves.length ≤ log.entries.length := by
    have hle := hfront.length_le
    rwa [hleaves, List.length_map] at hle
  have hroot := b64encode_injective htrue
  rw [MerkleLog.root, List.prefix_iff_eq_take.mp hfront, merkleRoot_eq, merkleRoot_eq, hleaves,
    ← List.map_take, ← List.map_take] at hroot
  have hsame := leaves_of_root_eq (List.ne_nil_of_length_pos (by rw [List.length_take]; omega))
    (List.ne_nil_of_length_pos (by rw [List.length_take]; omega)) (hcf _ _) hroot
  have hcount := congrArg List.length hsame
  simp only [List.length_map, List.length_take] at hcount
  change s.shared.log.leaves.length = size
  omega

/-- The runs whose responses are all true receipts are the undisturbed ones, but for a
collision. -/
theorem undisturbed_of_receipts
    (h : Run (HandlerStep H python requests) (router start) trace s) {log : MerkleLog}
    (hlog : MerkleLog.Reachable H log) (hfront : s.shared.log.leaves <+: log.leaves)
    (hcf : ∀ m n, CollisionFree H
      (treeInputs H (log.entries.take m) ++ treeInputs H (log.entries.take n)))
    (htrue : ∀ i response, s.phase i = .ended (.applied response) →
      TrueReceipt H python (requests i) log response) :
    Run (UndisturbedStep H python requests) (router start) trace s := by
  induction h with
  | nil => exact Run.nil
  | @concat trace u v label _ hlast ih =>
    obtain ⟨k, action⟩ := label
    obtain ⟨phase, hworker, hphase⟩ := id hlast
    -- a handler that has ended takes no further step
    have hended : ∀ i response, u.phase i = .ended (.applied response) →
        v.phase i = .ended (.applied response) := by
      intro i response hi
      by_cases hik : i = k
      · subst i
        rw [hi] at hworker
        cases hworker
      · rw [hphase, Function.update_of_ne hik, hi]
    have hrun := ih ((Handles.extends hworker).trans hfront)
      fun i response hi => htrue i response (hended i response hi)
    refine hrun.concat ⟨hlast, ?_⟩
    rintro rfl record size hk
    have hplaced := hrun.invariant (fun _ => trivial) (fun _ _ _ => receipted_step) k
    have hread := hworker
    rw [hk] at hplaced hread
    obtain ⟨rfl, -⟩ := hread.unique Handles.responded
    have hreceipt := htrue k _ (by rw [hphase, Function.update_self])
    exact size_of_true hlog ((Handles.extends hworker).trans hfront) hcf hplaced hreceipt.root

/-- In the runs of a new router the responses are true receipts exactly if no append falls
between an append and its reading of the root, but for a collision. -/
theorem receipts_true_iff (h : Run (HandlerStep H python requests) (router .empty) trace s)
    (hcf : ∀ m n, CollisionFree H
      (treeInputs H (s.shared.log.entries.take m) ++ treeInputs H (s.shared.log.entries.take n))) :
    (∀ i response, s.phase i = .ended (.applied response) →
        TrueReceipt H python (requests i) s.shared.log response) ↔
      Run (UndisturbedStep H python requests) (router .empty) trace s := by
  constructor
  · exact undisturbed_of_receipts h (log_reachable h) (List.prefix_refl _) hcf
  · intro hrun i response hended
    have hreceipt := hrun.invariant (fun _ => trivial) (fun _ _ _ => receipted_step) i
    rwa [hended] at hreceipt

/-- Where nobody reads the root, nothing can come between. -/
theorem undisturbed_run (h : Run (HandlerStep H python requests) s trace t)
    (hnone : ∀ label ∈ trace, label.2 ≠ .rootB64) :
    Run (UndisturbedStep H python requests) s trace t := by
  induction h with
  | nil => exact Run.nil
  | @concat trace u v label _ hlast ih =>
    have hlabel := hnone label (List.mem_append_right _ List.mem_cons_self)
    exact (ih fun label hmem => hnone label (List.mem_append_left _ hmem)).concat
      ⟨hlast, fun hroot => absurd hroot hlabel⟩

/-- A handler that another one overtakes reads the root of a longer log. -/
theorem run_overtaken (H : HashFunction) (python : Interpreter)
    (requests : ι → BindingWriteRequest) {i j : ι} (hij : i ≠ j)
    (hkeys : nonceKey (requests i) ≠ nonceKey (requests j)) :
    ∃ trace s response, Run (HandlerStep H python requests) (router .empty) trace s ∧
      s.phase i = .ended (.applied response) ∧ response.treeSize = 1 ∧
      s.shared.log.leaves =
        [leafHash H (canonicalLogEntry python (logEntry (requests i) 1)),
          leafHash H (canonicalLogEntry python (logEntry (requests j)
            ((BindingStore.empty.apply (requests i)).written (requests j)).version))] ∧
      response.rootB64 = s.shared.log.rootB64 H := by
  obtain ⟨trace, s, hrun, -, hi, hj, hlog⟩ :=
    run_both_applied H python hij hkeys
  have hi' := run_appended (i := i) hrun hi
  have hj' := run_appended (i := j) hi' ((Function.update_of_ne hij.symm _ _).trans hj)
  have hread := hj'.concat (step_responded (i := i)
    ((Function.update_of_ne hij _ _).trans (Function.update_self _ _ _)))
  refine ⟨_, _, _, hread, Function.update_self _ _ _, ?_, ?_, rfl⟩
  · rw [hlog]
    rfl
  · simp only [commit, MerkleLog.append, hlog]
    rfl

omit [DecidableEq ι] in
theorem undisturbed_of_phase {i : ι} {record : BindingRecord} {size : ℕ}
    (hi : s.phase i = .appended record size) (hsize : s.shared.log.size = size) :
    Undisturbed s (i, .rootB64) := by
  intro _ record' size' hi'
  rw [hi] at hi'
  rwa [← (Phase.appended.inj hi').2]

end Runs

open Converter (plainPython)

theorem receipts_true_john : ∃ trace s response,
    Run (UndisturbedStep sha256 plainPython replayedWrites) (router .empty) trace s ∧
    s.phase false = .ended (.applied response) ∧ (s.phase true).Refused ∧
    TrueReceipt sha256 plainPython johnsWrite s.shared.log response := by
  obtain ⟨trace, s, hrun, hnone, happlied, hrefused, -⟩ := run_one_replayed sha256 plainPython
    replayedWrites Bool.false_ne_true rfl
  have happended := run_appended (i := false) hrun happlied
  have hundisturbed := undisturbed_run happended (List.forall_mem_append.mpr
    ⟨hnone, List.forall_mem_singleton.mpr (by simp)⟩)
  have hread := hundisturbed.concat ⟨step_responded (i := false) rfl,
    undisturbed_of_phase rfl (MerkleLog.size_append _ _)⟩
  refine ⟨_, _, _, hread, rfl, ?_, receipts_true (i := false) hread rfl⟩
  change (s.phase true).Refused
  rw [hrefused]
  trivial

/-- With two writes at a time a response can carry the root of a tree of another size. -/
theorem overtaken_receipt_untrue : ¬ ∀ trace s i response,
    Run (HandlerStep sha256 plainPython johnsWrites) (router .empty) trace s →
    s.phase i = .ended (.applied response) →
    TrueReceipt sha256 plainPython (johnsWrites i) s.shared.log response := by
  intro h
  have hkeys : nonceKey (johnsWrites false) ≠ nonceKey (johnsWrites true) := by decide
  obtain ⟨trace, s, response, hrun, hended, hsize, hleaves, hroot⟩ :=
    run_overtaken sha256 plainPython johnsWrites Bool.false_ne_true hkeys
  have htrue := (h trace s false response hrun hended).root
  rw [hroot, MerkleLog.rootB64, MerkleLog.root, hsize, hleaves] at htrue
  have hroots := b64encode_injective htrue
  simp only [canonicalLogEntry, Dumps.dumpsBytes, encodeUtf8_ofList] at hroots
  exact absurd hroots (by decide +kernel)

end BindingReceipts
