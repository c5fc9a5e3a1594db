import SmBridge.BindingLinearization
import SmBridge.InclusionProofs
import SmBridge.SignedPayload

/-!
# Auditing the bindings

An auditor reads the log and its proofs, and not the store. What it accepts as included is an
authorised write, and once no write is on its way to the log it computes the version, the state
and the field names of every record, in whatever order the leaves are.
-/
namespace BindingAudit

open Python
open JsonValue
open Dictionary
open Hashing
open Tlog
open KeyedTrees
open TreeText
open Replay
open Dumps
open BindingWrite
open BindingEntries
open BindingHandlers
open BindingRuns
open BindingHistory
open BindingOrder
open BindingLinearization
open InclusionProofs
open Runs
open Workers

/-! ## What an auditor computes -/

/-- The last version of a subject among the entries. -/
def lastEntry (logged : List LogEntry) (subject : String) : Option LogEntry :=
  (logged.filter fun entry => entry.subject = subject).argmax LogEntry.version

def audited (logged : List LogEntry) (subject : String) : Option (ℕ × LifecycleState) :=
  (lastEntry logged subject).map fun entry => (entry.version, lifecycleOf entry.op)

/-- All field names that the entries of a subject list. -/
def auditedFields (logged : List LogEntry) (subject : String) : List String :=
  (logged.filter fun entry => entry.subject = subject).flatMap LogEntry.fields

/-! ## The fields of an entry -/

section Fields

variable {python : Interpreter}

def textList (names : List String) : Tree CanonicalJson.Scalar String :=
  .list (names.map fun name => .leaf (.str name))

theorem dumps_textList (python : Interpreter) (names : List String) :
    Dumps.dumps python (.arr (names.map .str)) =
      SignedPayload.asciiFormat.write (textList names) := by
  have hjson : CanonicalJson.json (textList names) = .arr (names.map .str) := by
    rw [textList, CanonicalJson.json, CanonicalJson.jsonElements_eq, List.map_map]
    rfl
  have hnormal : (textList names).normalize (fun a b => a ≤ b) = textList names := by
    rw [textList, Tree.normalize_list, List.map_map]
    rfl
  rw [← hjson, SignedPayload.dumps_json, hnormal]

theorem textList_injective : Function.Injective textList := by
  intro names names' h
  refine List.map_injective_iff.mpr (fun name name' heq => ?_) (Tree.list.inj h)
  exact CanonicalJson.Scalar.str.inj (Tree.leaf.inj heq)

/-- The list of field names is read back from the front of an entry. -/
theorem fields_of_canonicalLogEntry {entry entry' : LogEntry}
    (h : canonicalLogEntry python entry = canonicalLogEntry python entry') :
    entry.fields = entry'.fields := by
  rw [canonicalLogEntry_eq, canonicalLogEntry_eq] at h
  have htext := congrArg String.toList (encodeUtf8_injective h)
  rw [String.toList_ofList, String.toList_ofList, entryText, entryText, entryFront, entryFront,
    dumps_textList, dumps_textList] at htext
  simp only [List.cons_append, List.append_assoc, List.cons.injEq, true_and] at htext
  have hlist := (List.cons.inj (List.append_cancel_left htext)).2
  have hreadable := CanonicalJson.formatBy_readable SignedPayload.dumpsStr_quotes
  exact textList_injective
    (hreadable.write_inj (Format.ends_comma _) (Format.ends_comma _) hlist)

/-- All that an auditor reads of an entry. -/
structure SameEntry (entry entry' : LogEntry) : Prop extends SameWrite entry entry' where
  fields : entry.fields = entry'.fields

theorem sameEntry_of_eq {entry entry' : LogEntry}
    (h : canonicalLogEntry python entry = canonicalLogEntry python entry') :
    SameEntry entry entry' := ⟨canonicalLogEntry_inj h, fields_of_canonicalLogEntry h⟩

end Fields

/-! ## The entries of a run -/

section Runs

variable {ι : Type} [DecidableEq ι] {H : HashFunction} {python : Interpreter}
  {requests : ι → BindingWriteRequest} {trace : List (ι × Action)} {s : System ι Phase Shared}
  {logged : List LogEntry}

theorem reads_appenders (h : Run (HandlerStep H python requests) (router .empty) trace s) :
    Reads python s.shared.log ((appenders trace).map fun i =>
      logEntry (requests i) ((s.phase i).version.getD 0)) := by
  rw [Reads, (behind_run h).log, List.map_map]
  rfl

theorem entry_of_mem (h : Run (HandlerStep H python requests) (router .empty) trace s)
    (hreads : Reads python s.shared.log logged) {entry : LogEntry} (hmem : entry ∈ logged) :
    ∃ i version, (s.phase i).version = some version ∧
      SameEntry entry (logEntry (requests i) version) := by
  have hbehind := behind_run h
  have hbytes : canonicalLogEntry python entry ∈ s.shared.log.entries := by
    rw [hreads]
    exact List.mem_map_of_mem hmem
  rw [hbehind.log] at hbytes
  obtain ⟨i, hi, hleaf⟩ := List.mem_map.mp hbytes
  obtain ⟨version, hversion⟩ := (written_iff_version (s.phase i)).mp
    ((written_iff _).mpr (Or.inl ((hbehind.logged i).mp hi)))
  rw [leafOf, hversion, Option.getD_some] at hleaf
  exact ⟨i, version, hversion, sameEntry_of_eq hleaf.symm⟩

theorem mem_of_version (h : Run (HandlerStep H python requests) (router .empty) trace s)
    (hnone : ∀ i, ¬ (s.phase i).Pending) (hreads : Reads python s.shared.log logged) {i : ι}
    {version : ℕ} (hversion : (s.phase i).version = some version) :
    ∃ entry ∈ logged, SameEntry entry (logEntry (requests i) version) := by
  have hbehind := behind_run h
  have hi : i ∈ appenders trace := by
    have hwritten := (written_iff_version _).mpr ⟨version, hversion⟩
    rw [hbehind.logged]
    exact ((written_iff _).mp hwritten).resolve_right (hnone i)
  have hbytes : leafOf python requests s i ∈ s.shared.log.entries := by
    rw [hbehind.log]
    exact List.mem_map_of_mem hi
  rw [hreads] at hbytes
  obtain ⟨entry, hmem, hentry⟩ := List.mem_map.mp hbytes
  rw [leafOf, hversion, Option.getD_some] at hentry
  exact ⟨entry, hmem, sameEntry_of_eq hentry⟩

/-- The writes to a subject that are in the store. -/
def writes (requests : ι → BindingWriteRequest) (trace : List (ι × Action)) (subject : String) :
    List BindingWriteRequest := writesTo subject ((appliers trace).map requests)

theorem get_record (h : Run (HandlerStep H python requests) (router .empty) trace s)
    (subject : String) : s.shared.store.records.get subject =
      if writes requests trace subject = [] then none
      else some ((writes requests trace subject).foldl overwrite
        (BindingStore.empty.recordOf subject)) := by
  rw [(behind_run h).store, storeOf, get_foldl]
  rfl

/-- The version of a write counts the writes up to it. -/
theorem writes_of_version (h : Run (HandlerStep H python requests) (router .empty) trace s) {i : ι}
    {version : ℕ} (hversion : (s.phase i).version = some version) : ∃ before after,
      writes requests trace (requests i).subject = before ++ requests i :: after ∧
        version = before.length + 1 := by
  rw [version_eq, Option.map_eq_some_iff] at hversion
  obtain ⟨record, hanswer, rfl⟩ := hversion
  obtain ⟨before, after, horder, rfl⟩ := (behind_run h).answers i record hanswer
  refine ⟨writesTo (requests i).subject (before.map requests),
    writesTo (requests i).subject (after.map requests), ?_, ?_⟩
  · rw [writes, horder, List.map_append, List.map_cons, writesTo, writesTo, writesTo,
      List.filter_append, List.filter_cons, if_pos (decide_eq_true rfl)]
  · rw [BindingStore.written_version, BindingStore.versionOf, storeOf, recordOf_foldl,
      foldl_overwrite_version]
    exact congrArg (· + 1) (Nat.zero_add _)

theorem mem_writes (h : Run (HandlerStep H python requests) (router .empty) trace s)
    {subject : String} {body : BindingWriteRequest} :
    body ∈ writes requests trace subject ↔ ∃ i version, (s.phase i).version = some version ∧
      requests i = body ∧ body.subject = subject := by
  rw [writes, writesTo, List.mem_filter, List.mem_map, decide_eq_true_eq]
  constructor
  · rintro ⟨⟨i, hi, heq⟩, hsubject⟩
    obtain ⟨version, hversion⟩ := (written_iff_version _).mp (((behind_run h).written i).mp hi)
    exact ⟨i, version, hversion, heq, hsubject⟩
  · rintro ⟨i, version, hversion, heq, hsubject⟩
    have hi := ((behind_run h).written i).mpr ((written_iff_version _).mpr ⟨version, hversion⟩)
    exact ⟨⟨i, hi, heq⟩, hsubject⟩

/-- Every version up to the last one has been given to a write. -/
theorem exists_version (h : Run (HandlerStep H python requests) (router .empty) trace s)
    {subject : String} (hne : writes requests trace subject ≠ []) :
    ∃ i, (requests i).subject = subject ∧
      (s.phase i).version = some (writes requests trace subject).length := by
  obtain ⟨tickets, hfollows, hvalid⟩ := tracked_run h
  have hcounter : tickets.counter subject = (writes requests trace subject).length := by
    rw [hfollows.counter, (behind_run h).store, BindingStore.versionOf, storeOf, recordOf_foldl,
      foldl_overwrite_version]
    exact Nat.zero_add _
  obtain ⟨i, hsubject, hdrawn⟩ := hvalid.covered subject _
    (List.length_pos_iff.mpr hne) hcounter.ge
  exact ⟨i, hsubject, (hfollows.drawn i).symm.trans hdrawn⟩

/-! ## The audit -/

theorem lastEntry_none (h : Run (HandlerStep H python requests) (router .empty) trace s)
    (hreads : Reads python s.shared.log logged) {subject : String}
    (hnil : writes requests trace subject = []) : lastEntry logged subject = none := by
  rw [lastEntry, List.argmax_eq_none, List.filter_eq_nil_iff]
  intro entry hmem hsubject
  obtain ⟨i, version, hversion, hsame⟩ := entry_of_mem h hreads hmem
  have hbody : requests i ∈ writes requests trace subject := by
    refine (mem_writes h).mpr ⟨i, version, hversion, rfl, ?_⟩
    exact hsame.subject.symm.trans (of_decide_eq_true hsubject)
  rw [hnil] at hbody
  cases hbody

/-- The last entry of a subject is that of the last write to it. -/
theorem lastEntry_last (h : Run (HandlerStep H python requests) (router .empty) trace s)
    (hnone : ∀ i, ¬ (s.phase i).Pending) (hreads : Reads python s.shared.log logged)
    {subject : String} (hne : writes requests trace subject ≠ []) :
    ∃ entry before body, lastEntry logged subject = some entry ∧
      writes requests trace subject = before ++ [body] ∧
      entry.version = (writes requests trace subject).length ∧ entry.op = body.op := by
  obtain ⟨j, hsubject, hversion⟩ := exists_version h hne
  obtain ⟨last, hlast, hsame⟩ := mem_of_version h hnone hreads hversion
  have hmem : last ∈ logged.filter fun entry => entry.subject = subject :=
    List.mem_filter.mpr ⟨hlast, decide_eq_true (hsame.subject.trans hsubject)⟩
  cases hfound : lastEntry logged subject with
  | none => exact absurd hmem (List.argmax_eq_none.mp hfound ▸ List.not_mem_nil)
  | some entry =>
    obtain ⟨hentry, hof⟩ := List.mem_filter.mp (List.argmax_mem hfound)
    have hle : last.version ≤ entry.version := List.le_of_mem_argmax hmem hfound
    obtain ⟨i, version, hversion', hsame'⟩ := entry_of_mem h hreads hentry
    obtain ⟨before, after, hwrites, rfl⟩ := writes_of_version h hversion'
    have hsubject' : (requests i).subject = subject :=
      hsame'.subject.symm.trans (of_decide_eq_true hof)
    rw [hsubject'] at hwrites
    have hlength := congrArg List.length hwrites
    rw [List.length_append, List.length_cons] at hlength
    have hversions : last.version = (writes requests trace subject).length ∧
        entry.version = before.length + 1 := ⟨hsame.version, hsame'.version⟩
    have hafter : after = [] := List.length_eq_zero_iff.mp (by omega)
    rw [hafter] at hwrites
    exact ⟨entry, before, requests i, rfl, hwrites, by omega, hsame'.op⟩

theorem mem_keys_foldl (bodies : List BindingWriteRequest) (record : BindingRecord) (key : String) :
    key ∈ (bodies.foldl overwrite record).fields.keys ↔
      key ∈ record.fields.keys ∨ ∃ body ∈ bodies, key ∈ body.fields.keys := by
  rw [← not_iff_not, ← Dict.get_eq_none, foldl_overwrite_fields, Option.or_eq_none_iff,
    lastGiven_eq_none, Dict.get_eq_none, and_comm]
  simp only [Dict.get_eq_none, not_or, not_exists, not_and]

/-- Once no write is on its way to the log, whoever reads the log alone knows the version, the
state and the field names of every record in the store, whatever the order of the leaves is. -/
theorem audit_reconstructs (h : Run (HandlerStep H python requests) (router .empty) trace s)
    (hnone : ∀ i, ¬ (s.phase i).Pending) (hreads : Reads python s.shared.log logged)
    (subject : String) :
    (s.shared.store.records.get subject).map
        (fun record => (record.version, record.lifecycleState)) = audited logged subject ∧
      ∀ key, (∃ record, s.shared.store.records.get subject = some record ∧
        key ∈ record.fields.keys) ↔ key ∈ auditedFields logged subject := by
  rw [get_record h]
  constructor
  · split
    · rw [audited, lastEntry_none h hreads ‹_›]
      rfl
    · obtain ⟨entry, before, body, hfound, hwrites, hversion, hop⟩ :=
        lastEntry_last h hnone hreads ‹_›
      rw [audited, hfound, Option.map_some, Option.map_some, foldl_overwrite_version,
        foldl_overwrite_lifecycleState, hversion, hop, hwrites, List.map_append,
        List.map_singleton, List.getLast?_concat]
      exact congrArg some (Prod.ext (Nat.zero_add _) rfl)
  · intro key
    have hfields : (∃ record, (if writes requests trace subject = [] then none
          else some ((writes requests trace subject).foldl overwrite
            (BindingStore.empty.recordOf subject))) = some record ∧ key ∈ record.fields.keys) ↔
        ∃ body ∈ writes requests trace subject, key ∈ body.fields.keys := by
      split
      · simp [‹writes requests trace subject = []›]
      · simp only [Option.some.injEq, exists_eq_left', mem_keys_foldl]
        exact or_iff_right List.not_mem_nil
    rw [hfields]
    constructor
    · rintro ⟨body, hbody, hkey⟩
      obtain ⟨i, version, hversion, rfl, hsubject⟩ := (mem_writes h).mp hbody
      obtain ⟨entry, hmem, hsame⟩ := mem_of_version h hnone hreads hversion
      refine List.mem_flatMap.mpr ⟨entry, List.mem_filter.mpr
        ⟨hmem, decide_eq_true (hsame.subject.trans hsubject)⟩, ?_⟩
      rw [hsame.fields]
      exact (List.mem_insertionSort _).mpr hkey
    · intro hkey
      obtain ⟨entry, hentry, hkey⟩ := List.mem_flatMap.mp hkey
      obtain ⟨hmem, hof⟩ := List.mem_filter.mp hentry
      obtain ⟨i, version, hversion, hsame⟩ := entry_of_mem h hreads hmem
      refine ⟨requests i, (mem_writes h).mpr ⟨i, version, hversion, rfl,
        hsame.subject.symm.trans (of_decide_eq_true hof)⟩, ?_⟩
      rw [hsame.fields] at hkey
      exact (List.mem_insertionSort _).mp hkey

/-! ## Proofs -/

/-- An entry of an authenticated and authorised write, with the version that the store gave. -/
structure AuthorisedWrite (python : Interpreter) (requests : ι → BindingWriteRequest)
    (trace : List (ι × Action)) (s : System ι Phase Shared) (i : ι) (entry : Bytes) : Prop where
  authenticated : (i, authentication python (requests i) (.ok true)) ∈ trace
  authorised : ∃ verdict, verdict.status = "SATISFIED" ∧
    (i, authorization (requests i) (.ok verdict)) ∈ trace
  applied : (i, .apply) ∈ trace
  entry : ∃ version, (s.phase i).version = some version ∧
    entry = canonicalLogEntry python (logEntry (requests i) version)

theorem authorisedWrite (h : Run (HandlerStep H python requests) (router .empty) trace s) {i : ι}
    (hi : i ∈ appenders trace) :
    AuthorisedWrite python requests trace s i (leafOf python requests s i) := by
  have hwritten := (written_iff _).mpr (Or.inl (((behind_run h).logged i).mp hi))
  have happly := mem_appliers.mp (((behind_run h).written i).mpr hwritten)
  obtain ⟨before, after, htrace⟩ := List.append_of_mem happly
  have hbefore : before ++ [(i, .apply)] <+: trace := ⟨after, by rw [htrace]; simp⟩
  obtain ⟨t, ht⟩ := h.of_prefix hbefore
  obtain ⟨u, hu, hlast⟩ := run_concat.mp ht
  obtain ⟨hauthenticated, verdict, hstatus, hauthorised⟩ := authorised_of_applied hu hlast
  have hsubset : before ⊆ trace := fun _ hmem => hbefore.subset (List.mem_append_left _ hmem)
  obtain ⟨version, hversion⟩ := (written_iff_version _).mp hwritten
  refine ⟨hsubset hauthenticated, ⟨verdict, hstatus, hsubset hauthorised⟩, happly,
    version, hversion, ?_⟩
  rw [leafOf, hversion, Option.getD_some]

/-- An entry is accepted at an index, with the log's own proof, exactly if it is that of the
authorised write that was appended there. -/
theorem writes_provable (H : HashFunction)
    (h : Run (HandlerStep H python requests) (router .empty) trace s)
    (hserved : s.shared.log.minProofSize ≤ s.shared.log.size) {j : ℕ} (hj : j < s.shared.log.size)
    {entry : Bytes} {proof : List Bytes}
    (hcf : CollisionFree H (leafInput entry :: (treeInputs H s.shared.log.entries ++
      walkInputs H (leafHash H entry) j s.shared.log.size proof))) :
    rootFromInclusion H (leafHash H entry) j s.shared.log.size proof = .ok (s.shared.log.root H) ↔
      s.shared.log.inclusionProof H j = .ok proof ∧ ∃ i, (appenders trace)[j]? = some i ∧
        AuthorisedWrite python requests trace s i entry := by
  rw [accepted_iff (log_reachable h) hj hcf, served_proof hserved hj, Except.ok.injEq,
    (behind_run h).log, List.getElem?_map, Option.map_eq_some_iff, and_comm]
  refine and_congr eq_comm (exists_congr fun i => and_congr_right fun hi => ?_)
  have hwrite := authorisedWrite h (List.mem_of_getElem? hi)
  constructor
  · rintro rfl
    exact hwrite
  · intro hentry
    obtain ⟨version, hversion, heq⟩ := hwrite.entry
    obtain ⟨version', hversion', rfl⟩ := hentry.entry
    obtain rfl := Option.some.inj (hversion.symm.trans hversion')
    exact heq

end Runs

open Converter (plainPython)

/-- Two writes to one subject, of which the later one comes to the log first. -/
theorem audit_reconstructs_john : ∃ trace s logged,
    Run (HandlerStep sha256 plainPython johnsWrites) (router .empty) trace s ∧
    Reads plainPython s.shared.log logged ∧ ∀ subject,
      (s.shared.store.records.get subject).map
          (fun record => (record.version, record.lifecycleState)) = audited logged subject ∧
        ∀ key, (∃ record, s.shared.store.records.get subject = some record ∧
          key ∈ record.fields.keys) ↔ key ∈ auditedFields logged subject := by
  have hkeys : nonceKey (johnsWrites false) ≠ nonceKey (johnsWrites true) := by decide
  obtain ⟨trace, s, hrun, -, hi, hj, -⟩ :=
    run_both_applied sha256 plainPython Bool.false_ne_true hkeys
  have hj' := run_appended (i := true) hrun hj
  have hi' := run_appended (i := false) hj' hi
  refine ⟨_, _, _, hi', reads_appenders hi', audit_reconstructs hi' (fun i => ?_)
    (reads_appenders hi')⟩
  cases i with
  | false => exact id
  | true => exact id

def writeOf (nonce : String) : BindingWriteRequest where
  grant := Dict.empty
  op := "create"
  subject := "john"
  issuedAt := ""
  nonce := nonce
  storeDid := ""
  storeSignature := ""

def threeWrites : Fin 3 → BindingWriteRequest
  | 0 => writeOf "1"
  | 1 => writeOf "2"
  | 2 => writeOf "3"

/-- The log of the three writes. -/
def threeLog : MerkleLog :=
  [canonicalLogEntry plainPython (logEntry (threeWrites 0) 1),
    canonicalLogEntry plainPython (logEntry (threeWrites 1) 2),
    canonicalLogEntry plainPython (logEntry (threeWrites 2) 3)].foldl (MerkleLog.append sha256)
      Shared.empty.log

def grantAll (shared : Shared) (i : Fin 3) : Shared :=
  (writeBinding sha256 plainPython (granted (threeWrites i)).authenticator
    (granted (threeWrites i)).authorizer shared (threeWrites i)).1

theorem run_next {trace : List (Fin 3 × Action)} {s : System (Fin 3) Phase Shared}
    (h : Run (HandlerStep sha256 plainPython threeWrites) (router .empty) trace s) {i : Fin 3}
    (hi : s.phase i = .received) : ∃ trace' t,
      Run (HandlerStep sha256 plainPython threeWrites) (router .empty) trace' t ∧
        (∀ j, j ≠ i → t.phase j = s.phase j) ∧ t.shared = grantAll s.shared i := by
  obtain ⟨actions, -, hrun⟩ := writeBinding_run sha256 plainPython threeWrites
    (granted (threeWrites i)).authenticator (granted (threeWrites i)).authorizer hi
  exact ⟨_, _, h.append hrun, fun j hj => Function.update_of_ne hj _ _, rfl⟩

theorem run_threeWrites : ∃ trace s,
    Run (HandlerStep sha256 plainPython threeWrites) (router .empty) trace s ∧
      s.shared.log = threeLog := by
  obtain ⟨_, _, hrun, hothers, hshared⟩ := run_next Run.nil (i := 0) rfl
  obtain ⟨_, _, hrun', hothers', hshared'⟩ := run_next hrun (i := 1) (hothers 1 (by decide))
  obtain ⟨_, _, hrun'', -, hshared''⟩ :=
    run_next hrun' (i := 2) ((hothers' 2 (by decide)).trans (hothers 2 (by decide)))
  refine ⟨_, _, hrun'', ?_⟩
  rw [hshared'', hshared', hshared]
  rfl

def secondEntry : Bytes := canonicalLogEntry plainPython (logEntry (threeWrites 1) 2)

theorem threeLog_collisionFree : CollisionFree sha256 (treeInputs sha256 threeLog.entries) := by
  have hentries : threeLog.entries =
      [canonicalLogEntry plainPython (logEntry (threeWrites 0) 1),
        canonicalLogEntry plainPython (logEntry (threeWrites 1) 2),
        canonicalLogEntry plainPython (logEntry (threeWrites 2) 3)] := rfl
  simp only [hentries, canonicalLogEntry, dumpsBytes, encodeUtf8_ofList]
  decide +kernel

/-- The second of three writes, with the proof that the log serves. -/
theorem writes_provable_three : ∃ trace s proof i,
    Run (HandlerStep sha256 plainPython threeWrites) (router .empty) trace s ∧
      s.shared.log.inclusionProof sha256 1 = .ok proof ∧ (appenders trace)[1]? = some i ∧
      AuthorisedWrite plainPython threeWrites trace s i secondEntry := by
  obtain ⟨trace, s, hrun, hlog⟩ := run_threeWrites
  have hserved : threeLog.minProofSize ≤ threeLog.size := by decide +kernel
  have hone : 1 < threeLog.size := by decide +kernel
  have hget : threeLog.entries[1]? = some secondEntry := rfl
  have hfree := threeLog_collisionFree
  rw [← hlog] at hserved hone hget hfree
  have hcf := hfree.mono (served_inputs (log_reachable hrun) hone hget)
  have hroot := (accepted_iff (log_reachable hrun) hone hcf).mpr ⟨hget, rfl⟩
  obtain ⟨hproof, i, hi, hwrite⟩ := (writes_provable sha256 hrun hserved hone hcf).mp hroot
  exact ⟨trace, s, _, i, hrun, hproof, hi, hwrite⟩

end BindingAudit
