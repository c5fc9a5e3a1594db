import SmBridge.BindingHistory
import SmBridge.BindingOrder

/-!
# The history behind the handlers

Handlers that run at the same time leave what the applied writes leave when one router handles
them one after another, in the order in which they reached the store. Only the leaves of the
log can stand in another order.
-/
namespace BindingLinearization

open Python
open JsonValue
open Dictionary
open Hashing
open Tlog
open BindingWrite
open BindingHandlers
open BindingRuns
open BindingHistory
open Runs
open Workers

/-- The record that the store has given back for the write. -/
def answer : Phase → Option BindingRecord
  | .applied record | .appended record _ => some record
  | .ended (.applied response) => some response.binding
  | _ => none

theorem version_eq (phase : Phase) : phase.version = (answer phase).map BindingRecord.version := by
  cases phase with
  | ended outcome => cases outcome <;> rfl
  | _ => rfl

section Definitions

variable {ι : Type}

variable (python : Interpreter) (requests : ι → BindingWriteRequest)

/-- The leaf of a write, with the version that it has got from the store. -/
def leafOf (s : System ι Phase Shared) (i : ι) : Bytes :=
  canonicalLogEntry python (logEntry (requests i) ((s.phase i).version.getD 0))

def storeOf (order : List ι) : BindingStore :=
  (order.map requests).foldl BindingStore.apply .empty

/-- What the writes in the store and in the log say of the state. -/
structure Behind (order appended : List ι) (s : System ι Phase Shared) : Prop where
  written : ∀ i, i ∈ order ↔ (s.phase i).Written
  nodup : order.Nodup
  logged : ∀ i, i ∈ appended ↔ (s.phase i).Logged
  appended_nodup : appended.Nodup
  store : s.shared.store = storeOf requests order
  answers : ∀ i record, answer (s.phase i) = some record → ∃ before after,
    order = before ++ i :: after ∧ record = (storeOf requests before).written (requests i)
  leaves : entriesFrom python .empty (order.map requests) = order.map (leafOf python requests s)
  log : s.shared.log.entries = appended.map (leafOf python requests s)

end Definitions

/-! ## What one step can do -/

theorem handles_effects {H : HashFunction} {python : Interpreter} {body : BindingWriteRequest}
    {phase phase' : Phase} {shared shared' : Shared} {action : Action}
    (h : Handles H python body phase shared action phase' shared') :
    action ≠ .apply ∧ (∀ entry, action ≠ .append entry) ∧ answer phase' = answer phase ∧
        (phase'.Written ↔ phase.Written) ∧ (phase'.Logged ↔ phase.Logged) ∧
        shared'.store = shared.store ∧ shared'.log = shared.log ∨
      action = .apply ∧ ¬ phase.Written ∧ ¬ phase.Logged ∧
        phase' = .applied (shared.store.written body) ∧
        shared'.store = shared.store.apply body ∧ shared'.log = shared.log ∨
      ∃ record, action = .append (logEntry body record.version) ∧ phase = .applied record ∧
        phase' = .appended record shared'.log.size ∧ shared'.store = shared.store ∧
        shared'.log =
          shared.log.append H (canonicalLogEntry python (logEntry body record.version)) := by
  cases h
  case applied => exact Or.inr (Or.inl ⟨rfl, id, id, rfl, rfl, rfl⟩)
  case appended record => exact Or.inr (Or.inr ⟨record, rfl, rfl, rfl, rfl, rfl⟩)
  all_goals
    exact Or.inl ⟨by simp [authentication, authorization],
      by simp [authentication, authorization], rfl, Iff.rfl, Iff.rfl, rfl, rfl⟩

section Runs

variable {ι : Type} [DecidableEq ι] {H : HashFunction} {python : Interpreter}
  {requests : ι → BindingWriteRequest} {trace : List (ι × Action)} {order appended : List ι}
  {s u : System ι Phase Shared} {k : ι} {phase : Phase}

omit [DecidableEq ι] in
theorem behind_started : Behind python requests [] [] (router .empty) where
  written _ := ⟨nofun, fun h => h.elim⟩
  nodup := List.nodup_nil
  logged _ := ⟨nofun, fun h => h.elim⟩
  appended_nodup := List.nodup_nil
  store := rfl
  answers _ _ h := nomatch h
  leaves := rfl
  log := rfl

/-- A leaf depends on the phase through the record alone. -/
theorem leafOf_update (hphase : u.phase = Function.update s.phase k phase) {i : ι}
    (hi : i = k → answer phase = answer (s.phase k)) :
    leafOf python requests u i = leafOf python requests s i := by
  rw [leafOf, leafOf, version_eq, version_eq, hphase]
  by_cases hik : i = k
  · rw [hik, Function.update_self, hi hik]
  · rw [Function.update_of_ne hik]

theorem Behind.stay (h : Behind python requests order appended s)
    (hphase : u.phase = Function.update s.phase k phase)
    (hanswer : answer phase = answer (s.phase k)) (hwritten : phase.Written ↔ (s.phase k).Written)
    (hlogged : phase.Logged ↔ (s.phase k).Logged) (hstore : u.shared.store = s.shared.store)
    (hlog : u.shared.log = s.shared.log) : Behind python requests order appended u := by
  have hleaf : ∀ i ∈ order, leafOf python requests s i = leafOf python requests u i :=
    fun _ _ => (leafOf_update hphase fun _ => hanswer).symm
  have hphases : ∀ i, answer (u.phase i) = answer (s.phase i) ∧
      ((u.phase i).Written ↔ (s.phase i).Written) ∧ ((u.phase i).Logged ↔ (s.phase i).Logged) := by
    rw [hphase]
    refine (Function.forall_update_iff _ fun i (p : Phase) => answer p = answer (s.phase i) ∧
      (p.Written ↔ (s.phase i).Written) ∧ (p.Logged ↔ (s.phase i).Logged)).mpr ⟨?_, ?_⟩
    · exact ⟨hanswer, hwritten, hlogged⟩
    · intro i _
      exact ⟨rfl, Iff.rfl, Iff.rfl⟩
  constructor
  · intro i
    rw [(hphases i).2.1, h.written]
  · exact h.nodup
  · intro i
    rw [(hphases i).2.2, h.logged]
  · exact h.appended_nodup
  · rw [hstore, h.store]
  · intro i record hi
    rw [(hphases i).1] at hi
    exact h.answers i record hi
  · rw [h.leaves]
    exact List.map_congr_left hleaf
  · rw [hlog, h.log]
    exact List.map_congr_left fun _ _ => (leafOf_update hphase fun _ => hanswer).symm

theorem entriesFrom_append (python : Interpreter) (bodies bodies' : List BindingWriteRequest)
    (store : BindingStore) : entriesFrom python store (bodies ++ bodies') =
      entriesFrom python store bodies ++
        entriesFrom python (bodies.foldl BindingStore.apply store) bodies' := by
  induction bodies generalizing store with
  | nil => rfl
  | cons body bodies ih =>
    rw [List.cons_append, entriesFrom, entriesFrom, ih, List.cons_append, List.foldl_cons]

omit [DecidableEq ι] in
theorem storeOf_concat (order : List ι) (k : ι) :
    storeOf requests (order ++ [k]) = (storeOf requests order).apply (requests k) := by
  rw [storeOf, List.map_append, List.foldl_append]
  rfl

theorem Behind.apply (h : Behind python requests order appended s)
    (hphase : u.phase = Function.update s.phase k
      (.applied (s.shared.store.written (requests k))))
    (hwritten : ¬ (s.phase k).Written) (hlogged : ¬ (s.phase k).Logged)
    (hstore : u.shared.store = s.shared.store.apply (requests k))
    (hlog : u.shared.log = s.shared.log) :
    Behind python requests (order ++ [k]) appended u := by
  have hnot : k ∉ order := fun hk => hwritten ((h.written k).mp hk)
  have hnotLogged : k ∉ appended := fun hk => hlogged ((h.logged k).mp hk)
  have hleaf : ∀ i, i ≠ k → leafOf python requests u i = leafOf python requests s i :=
    fun i hi => leafOf_update hphase fun heq => absurd heq hi
  constructor
  · rw [hphase]
    refine (Function.forall_update_iff _ fun i (p : Phase) =>
      i ∈ order ++ [k] ↔ p.Written).mpr ⟨?_, ?_⟩
    · exact iff_of_true List.mem_concat_self trivial
    · intro i hi
      rw [List.mem_append, List.mem_singleton, or_iff_left hi]
      exact h.written i
  · rw [← List.concat_eq_append]
    exact h.nodup.concat hnot
  · rw [hphase]
    refine (Function.forall_update_iff _ fun i (p : Phase) => i ∈ appended ↔ p.Logged).mpr ⟨?_, ?_⟩
    · exact iff_of_false hnotLogged id
    · intro i _
      exact h.logged i
  · exact h.appended_nodup
  · rw [hstore, h.store, storeOf_concat]
  · rw [hphase]
    refine (Function.forall_update_iff _ fun i (p : Phase) => ∀ record, answer p = some record →
      ∃ before after, order ++ [k] = before ++ i :: after ∧
        record = (storeOf requests before).written (requests i)).mpr ⟨?_, ?_⟩
    · intro record hrecord
      refine ⟨order, [], rfl, ?_⟩
      rw [← h.store]
      exact (Option.some.inj hrecord).symm
    · intro i _ record hrecord
      obtain ⟨before, after, horder, heq⟩ := h.answers i record hrecord
      exact ⟨before, after ++ [k], by rw [horder, List.append_assoc, List.cons_append], heq⟩
  · have hversion : (u.phase k).version =
        some (s.shared.store.versionOf (requests k).subject + 1) := by
      rw [hphase, Function.update_self, version_eq]
      rfl
    have hnew : leafOf python requests u k = canonicalLogEntry python
        (logEntry (requests k) ((storeOf requests order).versionOf (requests k).subject + 1)) := by
      rw [leafOf, hversion, Option.getD_some, h.store]
    have hold : order.map (leafOf python requests u) = order.map (leafOf python requests s) := by
      refine List.map_congr_left fun i hi => hleaf i ?_
      rintro rfl
      exact hnot hi
    rw [List.map_append, entriesFrom_append, h.leaves, List.map_append, hold, List.map_singleton,
      List.map_singleton, hnew, entriesFrom, entriesFrom, storeOf]
  · rw [hlog, h.log]
    refine List.map_congr_left fun i hi => (hleaf i ?_).symm
    rintro rfl
    exact hnotLogged hi

theorem Behind.append {record : BindingRecord} {size : ℕ}
    (h : Behind python requests order appended s) (hk : s.phase k = .applied record)
    (hphase : u.phase = Function.update s.phase k (.appended record size))
    (hstore : u.shared.store = s.shared.store)
    (hlog : u.shared.log =
      s.shared.log.append H (canonicalLogEntry python (logEntry (requests k) record.version))) :
    Behind python requests order (appended ++ [k]) u := by
  have hnotLogged : k ∉ appended := by
    intro hmem
    have hlogged := (h.logged k).mp hmem
    rw [hk] at hlogged
    exact hlogged
  have hleaf : ∀ i, leafOf python requests u i = leafOf python requests s i := fun i =>
    leafOf_update hphase fun _ => by
      rw [hk]
      rfl
  constructor
  · rw [hphase]
    refine (Function.forall_update_iff _ fun i (p : Phase) => i ∈ order ↔ p.Written).mpr ⟨?_, ?_⟩
    · refine iff_of_true ((h.written k).mpr ?_) trivial
      rw [hk]
      trivial
    · intro i _
      exact h.written i
  · exact h.nodup
  · rw [hphase]
    refine (Function.forall_update_iff _ fun i (p : Phase) =>
      i ∈ appended ++ [k] ↔ p.Logged).mpr ⟨?_, ?_⟩
    · exact iff_of_true List.mem_concat_self trivial
    · intro i hi
      rw [List.mem_append, List.mem_singleton, or_iff_left hi]
      exact h.logged i
  · rw [← List.concat_eq_append]
    exact h.appended_nodup.concat hnotLogged
  · rw [hstore, h.store]
  · rw [hphase]
    refine (Function.forall_update_iff _ fun i (p : Phase) => ∀ record, answer p = some record →
      ∃ before after, order = before ++ i :: after ∧
        record = (storeOf requests before).written (requests i)).mpr ⟨?_, ?_⟩
    · intro record' hrecord
      refine h.answers k record' ?_
      rw [hk]
      exact hrecord
    · intro i _
      exact h.answers i
  · rw [h.leaves]
    exact List.map_congr_left fun i _ => (hleaf i).symm
  · have hversion : (s.phase k).version = some record.version := by
      rw [hk]
      rfl
    have hnew : leafOf python requests u k =
        canonicalLogEntry python (logEntry (requests k) record.version) := by
      rw [hleaf, leafOf, hversion, Option.getD_some]
    have hold : appended.map (leafOf python requests u) =
        appended.map (leafOf python requests s) :=
      List.map_congr_left fun i _ => hleaf i
    rw [hlog, MerkleLog.append, List.map_append, hold, List.map_singleton, hnew, h.log]

theorem behind_run (h : Run (HandlerStep H python requests) (router .empty) trace s) :
    Behind python requests (appliers trace) (appenders trace) s := by
  induction h with
  | nil => exact behind_started
  | @concat trace s t label hrun hlast ih =>
    obtain ⟨k, action⟩ := label
    obtain ⟨phase, hworker, hphase⟩ := hlast
    change Handles H python (requests k) (s.phase k) s.shared action phase t.shared at hworker
    have happliers := appliers_concat trace k action
    have happenders := appenders_concat trace k action
    rcases handles_effects hworker with
      ⟨happly, happend, hanswer, hwritten, hlogged, hstore, hlog⟩ |
      ⟨rfl, hwritten, hlogged, rfl, hstore, hlog⟩ | ⟨record, rfl, hk, rfl, hstore, hlog⟩
    · rw [(happliers.resolve_right fun heq => happly heq.1).2,
        (happenders.resolve_right fun ⟨⟨entry, heq⟩, _⟩ => happend entry heq).2]
      exact ih.stay hphase hanswer hwritten hlogged hstore hlog
    · rw [(happliers.resolve_left fun heq => heq.1 rfl).2,
        (happenders.resolve_right fun ⟨⟨_, heq⟩, _⟩ => by cases heq).2]
      exact ih.apply hphase hwritten hlogged hstore hlog
    · rw [(happliers.resolve_right fun heq => by cases heq.1).2,
        (happenders.resolve_left fun heq => heq.1 _ rfl).2]
      exact ih.append hk hphase hstore hlog

end Runs

/-! ## One handler after another -/

section Sequential

variable {H : HashFunction} {python : Interpreter}

theorem seen_handle {shared : Shared} {call : Call} {key : String × String}
    (h : key ∈ (handle H python shared call).seenNonces) :
    key ∈ shared.seenNonces ∨ key = nonceKey call.body := by
  simp only [handle, writeBinding] at h
  have hinsert : ∀ shared' : Shared,
      shared'.seenNonces = insert (nonceKey call.body) shared.seenNonces →
      key ∈ shared'.seenNonces → key ∈ shared.seenNonces ∨ key = nonceKey call.body := by
    intro shared' heq hmem
    rw [heq, Finset.mem_insert] at hmem
    exact hmem.symm
  split at h
  · exact Or.inl h
  · exact Or.inl h
  · split at h
    · exact Or.inl h
    · split at h
      · exact hinsert _ rfl h
      · split at h
        · exact hinsert _ rfl h
        · exact hinsert _ rfl h

theorem seen_foldl_handle (calls : List Call) {shared : Shared} {key : String × String}
    (h : key ∈ (calls.foldl (handle H python) shared).seenNonces) :
    key ∈ shared.seenNonces ∨ key ∈ calls.map fun call => nonceKey call.body := by
  induction calls generalizing shared with
  | nil => exact Or.inl h
  | cons call calls ih =>
    rw [List.map_cons, List.mem_cons]
    rcases ih h with hseen | hlater
    · exact (seen_handle hseen).imp_right Or.inl
    · exact Or.inr (Or.inr hlater)

theorem granted_accepted {seenNonces : Finset (String × String)} {body : BindingWriteRequest}
    (hfresh : nonceKey body ∉ seenNonces) : (granted body).accepted python seenNonces = true := by
  simp [Call.accepted, granted, hfresh, refusal]

/-- Granted writes with nonces of their own are all applied. -/
theorem appliedFrom_granted (bodies : List BindingWriteRequest) {shared : Shared}
    (hnodup : (bodies.map nonceKey).Nodup)
    (hfresh : ∀ body ∈ bodies, nonceKey body ∉ shared.seenNonces) :
    appliedFrom H python shared (bodies.map granted) = bodies := by
  induction bodies generalizing shared with
  | nil => rfl
  | cons body bodies ih =>
    obtain ⟨hnot, hnodup⟩ := List.nodup_cons.mp hnodup
    rw [List.map_cons, appliedFrom, if_pos (granted_accepted (hfresh body List.mem_cons_self))]
    refine congrArg (body :: ·) (ih hnodup fun later hlater hseen => ?_)
    rcases seen_handle hseen with hold | heq
    · exact hfresh later (List.mem_cons_of_mem _ hlater) hold
    · exact hnot (heq ▸ List.mem_map_of_mem hlater)

theorem granted_responds {shared : Shared} {body : BindingWriteRequest}
    (hfresh : nonceKey body ∉ shared.seenNonces) :
    ∃ response, (writeBinding H python (granted body).authenticator (granted body).authorizer
        shared body).2 = .applied response ∧ response.binding = shared.store.written body := by
  simp [writeBinding, granted, hfresh, refusal]

end Sequential

section Results

variable {ι : Type} [DecidableEq ι] {H : HashFunction} {python : Interpreter}
  {requests : ι → BindingWriteRequest} {trace : List (ι × Action)} {s : System ι Phase Shared}

/-- The calls that make the writes one after another, where every check lets them through. -/
def inOrder (requests : ι → BindingWriteRequest) (order : List ι) : List Call :=
  (order.map requests).map granted

/-- The run has the same outcome as one handler after another. -/
structure Linearized (H : HashFunction) (python : Interpreter)
    (requests : ι → BindingWriteRequest) (trace : List (ι × Action))
    (s : System ι Phase Shared) : Prop where
  once : (appliers trace).Nodup
  store : s.shared.store = (handleAll H python (inOrder requests (appliers trace))).store
  answers : ∀ i response, s.phase i = .ended (.applied response) → ∃ before after response',
    appliers trace = before ++ i :: after ∧
      (writeBinding H python (granted (requests i)).authenticator (granted (requests i)).authorizer
        (handleAll H python (inOrder requests before)) (requests i)).2 = .applied response' ∧
      response'.binding = response.binding
  realTime : ∀ before u i j, before <+: trace →
    Run (HandlerStep H python requests) (router .empty) before u →
    (u.phase i).Written → ¬ (u.phase j).Written → j ∈ appliers trace →
    [i, j].Sublist (appliers trace)
  log : s.shared.log.entries.Subperm
    (handleAll H python (inOrder requests (appliers trace))).log.entries
  complete : s.shared.log.entries.Perm
      (handleAll H python (inOrder requests (appliers trace))).log.entries ↔
    ∀ i, ¬ (s.phase i).Pending

theorem written_iff (phase : Phase) : phase.Written ↔ phase.Logged ∨ phase.Pending := by
  cases phase with
  | ended outcome => cases outcome <;> simp [Phase.Written, Phase.Logged, Phase.Pending]
  | _ => simp [Phase.Written, Phase.Logged, Phase.Pending]

theorem written_iff_version (phase : Phase) : phase.Written ↔ ∃ version, phase.version = some version := by
  cases phase with
  | ended outcome => cases outcome <;> simp [Phase.Written, Phase.version]
  | _ => simp [Phase.Written, Phase.version]

theorem not_logged_of_pending {phase : Phase} (h : phase.Pending) : ¬ phase.Logged := by
  cases phase with
  | applied => exact id
  | _ => exact h.elim

theorem applied_inOrder (h : Run (HandlerStep H python requests) (router .empty) trace s)
    {before : List ι} (hbefore : before <+: appliers trace) :
    applied H python (inOrder requests before) = before.map requests := by
  have hnodup := (hbefore.sublist.map fun i => nonceKey (requests i)).nodup (appliers_nodup h)
  refine appliedFrom_granted _ ?_ fun _ _ => Finset.notMem_empty _
  rwa [List.map_map]

/-- Whatever the order of their steps, the handlers leave the store that the applied writes
leave one after another, and answer with its records; the leaves of the log are those of that
history, except for the writes on their way to the log, in any order. -/
theorem writes_linearize (h : Run (HandlerStep H python requests) (router .empty) trace s) :
    Linearized H python requests trace s := by
  have hbehind := behind_run h
  have hstore : ∀ before, before <+: appliers trace →
      (handleAll H python (inOrder requests before)).store = storeOf requests before := by
    intro before hbefore
    rw [store_handleAll, applied_inOrder h hbefore, storeOf]
  have hentries : (handleAll H python (inOrder requests (appliers trace))).log.entries =
      (appliers trace).map (leafOf python requests s) := by
    rw [entries_handleAll, applied_inOrder h (List.prefix_refl _), hbehind.leaves]
  have hsubperm : (appenders trace).Subperm (appliers trace) := by
    refine List.subperm_of_subset hbehind.appended_nodup fun i hi => ?_
    rw [hbehind.written, written_iff]
    exact Or.inl ((hbehind.logged i).mp hi)
  constructor
  · exact hbehind.nodup
  · rw [hstore _ (List.prefix_refl _), hbehind.store]
  · intro i response hi
    obtain ⟨before, after, horder, hrecord⟩ := hbehind.answers i response.binding (by rw [hi]; rfl)
    have hbefore : before <+: appliers trace := ⟨i :: after, horder.symm⟩
    have hfresh : nonceKey (requests i) ∉
        (handleAll H python (inOrder requests before)).seenNonces := by
      intro hseen
      have hnodup := appliers_nodup h
      rw [horder, List.map_append, List.map_cons] at hnodup
      rcases seen_foldl_handle _ hseen with hempty | hmem
      · exact Finset.notMem_empty _ hempty
      · rw [inOrder, List.map_map, List.map_map] at hmem
        exact (List.disjoint_of_nodup_append hnodup) hmem List.mem_cons_self
    have hresponds : ∃ response, (writeBinding H python (granted (requests i)).authenticator
        (granted (requests i)).authorizer _ (requests i)).2 = .applied response ∧
          response.binding = _ := granted_responds hfresh
    obtain ⟨response', hresponse, hbinding⟩ := hresponds
    refine ⟨before, after, response', horder, hresponse, ?_⟩
    rw [hbinding, hstore before hbefore, hrecord]
  · intro before u i j hbefore hu hi hj hmem
    obtain ⟨rest, rfl⟩ := hbefore
    have hearlier := behind_run hu
    have happend : appliers (before ++ rest) = appliers before ++ appliers rest :=
      List.filterMap_append
    have hj' : j ∈ appliers rest := by
      rw [happend, List.mem_append] at hmem
      exact hmem.resolve_left fun hj' => hj ((hearlier.written j).mp hj')
    rw [happend]
    exact (List.singleton_sublist.mpr ((hearlier.written i).mpr hi)).append
      (List.singleton_sublist.mpr hj')
  · rw [hentries, hbehind.log]
    obtain ⟨part, hperm, hsublist⟩ := hsubperm
    exact ⟨_, hperm.map _, hsublist.map _⟩
  · rw [hentries, hbehind.log]
    constructor
    · intro hperm i hpending
      have hlength := hperm.length_eq
      rw [List.length_map, List.length_map] at hlength
      have hsame := hsubperm.perm_of_length_le hlength.ge
      have hi := (hbehind.written i).mpr ((written_iff _).mpr (Or.inr hpending))
      exact not_logged_of_pending hpending ((hbehind.logged i).mp (hsame.mem_iff.mpr hi))
    · intro hnone
      refine List.Perm.map _ ((List.perm_ext_iff_of_nodup hbehind.appended_nodup
        hbehind.nodup).mpr fun i => ?_)
      rw [hbehind.logged, hbehind.written, written_iff, or_iff_left (hnone i)]

end Results

open Converter (plainPython)

/-- Two writes, of which the later one comes to the log first. -/
theorem writes_linearize_john : ∃ trace s,
    Run (HandlerStep sha256 plainPython johnsWrites) (router .empty) trace s ∧
    Linearized sha256 plainPython johnsWrites trace s := by
  obtain ⟨trace, s, hrun, -⟩ := BindingOrder.run_swapped sha256 plainPython johnsWrites
    Bool.false_ne_true (by decide)
  exact ⟨trace, s, hrun, writes_linearize hrun⟩

end BindingLinearization
