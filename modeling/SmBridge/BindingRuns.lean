import SmBridge.BindingHandlers
import SmBridge.Converter

/-!
# Binding writes are authorised and happen once

What every run of the handlers of one router keeps, whatever the authenticator and the
authorizer answer and whichever handler takes the next step.
-/
namespace BindingRuns

open Python
open JsonValue
open Dictionary
open Hashing
open Tlog
open BindingWrite
open BindingHandlers
open Runs
open Workers

/-! ## A handler without others -/

/-- The injected objects give the answers of a call. -/
def Answered (authenticator : RequestAuthenticator) (authorizer : WriteAuthorizer) :
    Action → Prop
  | .authenticate payload storeDid storeSignature answer =>
    answer = authenticator payload storeDid storeSignature
  | .authorize grant request issuedAt storeDid answer =>
    answer = authorizer grant request issuedAt storeDid
  | _ => True

section Solo

variable (H : HashFunction) (python : Interpreter) {body : BindingWriteRequest} {shared : Shared}

theorem solo_authorized {verdict : WriteVerdict} (hfresh : nonceKey body ∉ shared.seenNonces)
    (hverdict : refusal verdict = none) :
    Run (Solo (Handles H python body)) (.received, shared)
      [authentication python body (.ok true), .checkNonce, authorization body (.ok verdict)]
      (.authorized, { shared with seenNonces := insert (nonceKey body) shared.seenNonces }) :=
  solo_concat (solo_concat (solo_concat Run.nil Handles.authenticated) (Handles.fresh hfresh))
    (Handles.authorized hverdict)

/-- Where no other handler runs, the steps are those of the endpoint's function. -/
theorem writeBinding_solo (body : BindingWriteRequest) (shared : Shared)
    (authenticator : RequestAuthenticator) (authorizer : WriteAuthorizer) :
    ∃ actions, (∀ action ∈ actions, Answered authenticator authorizer action) ∧
      Run (Solo (Handles H python body)) (.received, shared) actions
        (.ended (writeBinding H python authenticator authorizer shared body).2,
          (writeBinding H python authenticator authorizer shared body).1) := by
  rw [writeBinding]
  split
  · rename_i e hanswer
    refine ⟨_, ?_, solo_concat Run.nil Handles.authenticatorRaised⟩
    simp [Answered, authentication, hanswer]
  · rename_i hanswer
    refine ⟨_, ?_, solo_concat Run.nil Handles.unauthenticated⟩
    simp [Answered, authentication, hanswer]
  · rename_i hanswer
    have hauth : Run (Solo (Handles H python body)) (.received, shared)
        [authentication python body (.ok true)] (.authenticated, shared) :=
      solo_concat Run.nil Handles.authenticated
    split
    · refine ⟨_, ?_, solo_concat hauth (Handles.replayed ‹_›)⟩
      simp [Answered, authentication, hanswer]
    · rename_i hseen
      have hfresh := solo_concat hauth (Handles.fresh hseen)
      split
      · rename_i e hverdict
        refine ⟨_, ?_, solo_concat hfresh Handles.authorizerRaised⟩
        simp [Answered, authentication, authorization, hanswer, hverdict]
      · rename_i verdict hverdict
        split
        · refine ⟨_, ?_, solo_concat hfresh (Handles.refused ‹_›)⟩
          simp [Answered, authentication, authorization, hanswer, hverdict]
        · rename_i hnone
          have happlied := solo_concat (solo_authorized H python hseen hnone) Handles.applied
          refine ⟨_, ?_, solo_concat (solo_concat happlied Handles.appended) Handles.responded⟩
          simp [Answered, authentication, authorization, hanswer, hverdict]

end Solo

section Runs

variable {ι : Type} [DecidableEq ι] {H : HashFunction} {python : Interpreter}
  {requests : ι → BindingWriteRequest} {start shared : Shared} {trace : List (ι × Action)}
  {s t : System ι Phase Shared} {label : ι × Action} {i : ι}

theorem writeBinding_run (H : HashFunction) (python : Interpreter)
    (requests : ι → BindingWriteRequest) (authenticator : RequestAuthenticator)
    (authorizer : WriteAuthorizer)
    (hi : s.phase i = .received) :
    ∃ actions : List Action, (∀ action ∈ actions, Answered authenticator authorizer action) ∧
      Run (HandlerStep H python requests) s (actions.map (Prod.mk i))
        ⟨Function.update s.phase i (.ended
            (writeBinding H python authenticator authorizer s.shared (requests i)).2),
          (writeBinding H python authenticator authorizer s.shared (requests i)).1⟩ := by
  obtain ⟨actions, hanswered, hsolo⟩ :=
    writeBinding_solo H python (requests i) s.shared authenticator authorizer
  rw [← hi] at hsolo
  exact ⟨actions, hanswered, run_of_solo (x := (_, _)) hsolo⟩

/-! ## Steps put together -/

theorem run_authorized (H : HashFunction) (python : Interpreter)
    (requests : ι → BindingWriteRequest) {verdict : WriteVerdict} (hi : s.phase i = .received)
    (hfresh : nonceKey (requests i) ∉ s.shared.seenNonces) (hverdict : refusal verdict = none) :
    Run (HandlerStep H python requests) s
      ([authentication python (requests i) (.ok true), .checkNonce,
        authorization (requests i) (.ok verdict)].map (Prod.mk i))
      ⟨Function.update s.phase i .authorized,
        { s.shared with seenNonces := insert (nonceKey (requests i)) s.shared.seenNonces }⟩ := by
  have hsolo := solo_authorized H python hfresh hverdict
  rw [← hi] at hsolo
  exact run_of_solo (x := (_, _)) hsolo

theorem run_handles {u : System ι Phase Shared} {phase phase' : Phase} {shared' : Shared}
    {action : Action} (h : Run (HandlerStep H python requests) u trace s) (hi : s.phase i = phase)
    (hstep : Handles H python (requests i) phase s.shared action phase' shared') :
    Run (HandlerStep H python requests) u (trace ++ [(i, action)])
      ⟨Function.update s.phase i phase', shared'⟩ :=
  h.concat ⟨_, hi ▸ hstep, rfl⟩

theorem run_applied {u : System ι Phase Shared} (h : Run (HandlerStep H python requests) u trace s)
    (hi : s.phase i = .authorized) :
    Run (HandlerStep H python requests) u (trace ++ [(i, .apply)])
      ⟨Function.update s.phase i (.applied (s.shared.store.written (requests i))),
        { s.shared with store := s.shared.store.apply (requests i) }⟩ :=
  h.concat ⟨_, hi ▸ Handles.applied, rfl⟩

theorem run_appended {u : System ι Phase Shared} {record : BindingRecord}
    (h : Run (HandlerStep H python requests) u trace s) (hi : s.phase i = .applied record) :
    Run (HandlerStep H python requests) u
      (trace ++ [(i, .append (logEntry (requests i) record.version))])
      ⟨Function.update s.phase i (.appended record (s.shared.log.size + 1)),
        commit H python s.shared (logEntry (requests i) record.version)⟩ := by
  refine h.concat ⟨_, ?_, rfl⟩
  change Handles H python (requests i) (s.phase i) _ _ _ _
  rw [hi, ← MerkleLog.size_append (H := H)]
  exact Handles.appended

theorem step_responded {record : BindingRecord} {size : ℕ}
    (hi : s.phase i = .appended record size) :
    HandlerStep H python requests s (i, .rootB64)
      ⟨Function.update s.phase i
        (.ended (.applied ⟨record, size - 1, size, s.shared.log.rootB64 H⟩)), s.shared⟩ :=
  ⟨_, hi ▸ Handles.responded, rfl⟩

/-- Two writes with nonces of their own can both be between the store and the log. -/
theorem run_both_applied (H : HashFunction) (python : Interpreter) {i j : ι} (hij : i ≠ j)
    (hkeys : nonceKey (requests i) ≠ nonceKey (requests j)) :
    ∃ trace s, Run (HandlerStep H python requests) (router .empty) trace s ∧
      (∀ label ∈ trace, label.2 ≠ .rootB64) ∧
      s.phase i = .applied (BindingStore.empty.written (requests i)) ∧
      s.phase j = .applied ((BindingStore.empty.apply (requests i)).written (requests j)) ∧
      s.shared.log = Shared.empty.log := by
  have hverdict : refusal { status := "SATISFIED" } = none := refusal_eq_none.mpr rfl
  have hi := run_authorized H python requests (s := router .empty) (i := i) rfl
    (Finset.notMem_empty _) hverdict
  have hj := hi.append (run_authorized H python requests (i := j)
    (Function.update_of_ne hij.symm _ _) (by simpa [started, Shared.empty] using hkeys.symm)
    hverdict)
  have hi' := run_applied (i := i) hj
    ((Function.update_of_ne hij _ _).trans (Function.update_self _ _ _))
  have hj' := run_applied (i := j) hi'
    ((Function.update_of_ne hij.symm _ _).trans (Function.update_self _ _ _))
  refine ⟨_, _, hj', ?_, ?_, Function.update_self _ _ _, rfl⟩
  · simp [authentication, authorization]
  · exact (Function.update_of_ne hij _ _).trans (Function.update_self _ _ _)

/-- Of two requests with one nonce that are handled at a time, the one that comes second to the
nonces is refused, and the other one goes on. -/
theorem run_one_replayed (H : HashFunction) (python : Interpreter)
    (requests : ι → BindingWriteRequest) {i j : ι} (hij : i ≠ j)
    (hkeys : nonceKey (requests j) = nonceKey (requests i)) :
    ∃ trace s, Run (HandlerStep H python requests) (router .empty) trace s ∧
      (∀ label ∈ trace, label.2 ≠ .rootB64) ∧
      s.phase i = .applied (BindingStore.empty.written (requests i)) ∧
      s.phase j = .ended (.failed nonceReplayed) ∧ s.shared.log = Shared.empty.log := by
  have hverdict : refusal { status := "SATISFIED" } = none := refusal_eq_none.mpr rfl
  have hji : j ≠ i := hij.symm
  have hi : Run (HandlerStep H python requests) (router .empty) _ _ :=
    run_handles (i := i) Run.nil rfl Handles.authenticated
  have hj := run_handles (i := j) hi (Function.update_of_ne hji _ _) Handles.authenticated
  have hi' := run_handles (i := i) hj
    ((Function.update_of_ne hij _ _).trans (Function.update_self _ _ _))
    (Handles.fresh (Finset.notMem_empty _))
  have hj' := run_handles (i := j) hi'
    ((Function.update_of_ne hji _ _).trans (Function.update_self _ _ _))
    (Handles.replayed (hkeys ▸ Finset.mem_insert_self _ _))
  have hi'' := run_handles (i := i) hj'
    ((Function.update_of_ne hij _ _).trans (Function.update_self _ _ _))
    (Handles.authorized hverdict)
  have happlied := run_applied (i := i) hi'' (Function.update_self _ _ _)
  refine ⟨_, _, happlied, ?_, Function.update_self _ _ _, ?_, rfl⟩
  · simp [authentication, authorization]
  · exact (Function.update_of_ne hji _ _).trans ((Function.update_of_ne hji _ _).trans
      (Function.update_self _ _ _))

theorem history_of_handlers (h : Run (HandlerStep H python requests) (router start) trace s)
    (i : ι) : History python (requests i) (s.phase i) (actionsOf i trace) :=
  history_of_run (run_actionsOf h i)

/-! ## A nonce admits one request -/

/-- Every admitted request holds its nonce, and no other one does. -/
structure NoncesHeld (requests : ι → BindingWriteRequest) (s : System ι Phase Shared) : Prop where
  seen : ∀ i, (s.phase i).Admitted → nonceKey (requests i) ∈ s.shared.seenNonces
  distinct : ∀ i j, (s.phase i).Admitted → (s.phase j).Admitted →
    nonceKey (requests i) = nonceKey (requests j) → i = j

omit [DecidableEq ι] in
theorem nonces_started : NoncesHeld requests (router start) where
  seen _ h := h.elim
  distinct _ _ h := h.elim

theorem nonces_step (hs : NoncesHeld requests s) (hstep : HandlerStep H python requests s label t) :
    NoncesHeld requests t := by
  obtain ⟨k, action⟩ := label
  obtain ⟨phase, hworker, hphase⟩ := hstep
  have hother : ∀ i, i ≠ k → t.phase i = s.phase i := by
    intro i hi
    rw [hphase, Function.update_of_ne hi]
  -- A step that admits nobody keeps the set and the admitted requests.
  have hkeep : t.shared.seenNonces = s.shared.seenNonces →
      (phase.Admitted → (s.phase k).Admitted) → NoncesHeld requests t := by
    intro hsame hadmits
    have hback : ∀ i, (t.phase i).Admitted → (s.phase i).Admitted := by
      rw [hphase]
      refine (Function.forall_update_iff _ fun i (p : Phase) =>
        p.Admitted → (s.phase i).Admitted).mpr ⟨hadmits, ?_⟩
      intro i _ hadmitted
      exact hadmitted
    constructor
    · intro i hadmitted
      rw [hsame]
      exact hs.seen i (hback i hadmitted)
    · intro i j hi hj
      exact hs.distinct i j (hback i hi) (hback j hj)
  rcases hworker.nonces with ⟨-, hsame, hadmits⟩ | ⟨-, -, hsame, hnot⟩ | ⟨-, hfresh, hinsert⟩
  · exact hkeep hsame hadmits
  · exact hkeep hsame fun hadmitted => absurd hadmitted hnot
  · have hold : ∀ i, i ≠ k → (t.phase i).Admitted →
        nonceKey (requests i) ∈ s.shared.seenNonces := by
      intro i hi hadmitted
      rw [hother i hi] at hadmitted
      exact hs.seen i hadmitted
    constructor
    · intro i hadmitted
      rw [hinsert, Finset.mem_insert]
      by_cases hi : i = k
      · exact Or.inl (congrArg _ (congrArg _ hi))
      · exact Or.inr (hold i hi hadmitted)
    · intro i j hi hj heq
      by_cases hik : i = k <;> by_cases hjk : j = k
      · exact hik.trans hjk.symm
      · rw [hik] at heq
        exact absurd (heq ▸ hold j hjk hj) hfresh
      · rw [hjk] at heq
        exact absurd (heq ▸ hold i hik hi) hfresh
      · rw [hother i hik] at hi
        rw [hother j hjk] at hj
        exact hs.distinct i j hi hj heq

theorem nonces_held (h : Run (HandlerStep H python requests) (router start) trace s) :
    NoncesHeld requests s :=
  h.invariant nonces_started fun _ _ _ => nonces_step

/-- The handlers whose write reaches the store, in that order. -/
def appliers (trace : List (ι × Action)) : List ι :=
  trace.filterMap fun label => match label.2 with
    | .apply => some label.1
    | _ => none

omit [DecidableEq ι] in
theorem mem_appliers : i ∈ appliers trace ↔ (i, .apply) ∈ trace := by
  rw [appliers, List.mem_filterMap]
  constructor
  · rintro ⟨⟨j, action⟩, hmem, heq⟩
    cases action with
    | apply =>
      obtain rfl := Option.some.inj heq
      exact hmem
    | _ => cases heq
  · intro h
    exact ⟨(i, .apply), h, rfl⟩

omit [DecidableEq ι] in
theorem appliers_concat (trace : List (ι × Action)) (i : ι) (action : Action) :
    action ≠ .apply ∧ appliers (trace ++ [(i, action)]) = appliers trace ∨
      action = .apply ∧ appliers (trace ++ [(i, action)]) = appliers trace ++ [i] := by
  cases action with
  | apply => exact Or.inr ⟨rfl, by simp [appliers]⟩
  | _ => exact Or.inl ⟨nofun, by simp [appliers]⟩

/-- The handlers whose entry reaches the log, in that order. -/
def appenders (trace : List (ι × Action)) : List ι :=
  trace.filterMap fun label => match label.2 with
    | .append _ => some label.1
    | _ => none

omit [DecidableEq ι] in
theorem appenders_concat (trace : List (ι × Action)) (i : ι) (action : Action) :
    (∀ entry, action ≠ .append entry) ∧ appenders (trace ++ [(i, action)]) = appenders trace ∨
      (∃ entry, action = .append entry) ∧
        appenders (trace ++ [(i, action)]) = appenders trace ++ [i] := by
  cases action with
  | append entry => exact Or.inr ⟨⟨entry, rfl⟩, by simp [appenders]⟩
  | _ => exact Or.inl ⟨fun _ => by simp, by simp [appenders]⟩

theorem written_of_applied (h : Run (HandlerStep H python requests) (router start) trace s)
    (hmem : (i, .apply) ∈ trace) : (s.phase i).Written :=
  (history_of_handlers h i).written (mem_actionsOf.mpr hmem)

theorem appliers_nodup (h : Run (HandlerStep H python requests) (router start) trace s) :
    ((appliers trace).map fun i => nonceKey (requests i)).Nodup := by
  induction h with
  | nil => exact List.nodup_nil
  | @concat trace s t label hrun hlast ih =>
    obtain ⟨k, action⟩ := label
    rcases appliers_concat trace k action with ⟨-, heq⟩ | ⟨rfl, heq⟩
    · rwa [heq]
    · obtain ⟨phase, hworker, -⟩ := hlast
      rcases hworker.store with ⟨hne, -⟩ | ⟨-, hauthorized, -⟩
      · exact absurd rfl hne
      · rw [heq, List.map_append, List.map_singleton, List.nodup_append_comm,
          List.singleton_append, List.nodup_cons]
        refine ⟨?_, ih⟩
        intro hmem
        obtain ⟨i, hi, hkey⟩ := List.mem_map.mp hmem
        have hwritten := written_of_applied hrun (mem_appliers.mp hi)
        have hik : i = k := (nonces_held hrun).distinct i k hwritten.admitted
          (hauthorized ▸ trivial) hkey
        subst i
        rw [hauthorized] at hwritten
        exact hwritten

/-! ## The log and the store count the same writes -/

theorem log_reachable (h : Run (HandlerStep H python requests) (router .empty) trace s) :
    MerkleLog.Reachable H s.shared.log := by
  refine h.invariant (P := fun s => MerkleLog.Reachable H s.shared.log) (.new _ _)
    fun s label t hs hstep => ?_
  obtain ⟨phase, hworker, -⟩ := hstep
  rcases hworker.log with ⟨-, hsame⟩ | ⟨record, -, -, -, happend⟩
  · rwa [hsame]
  · rw [happend]
    exact .append _ hs

/-- Every version is a leaf or is still on its way to the log. -/
def Counted (s : System ι Phase Shared) : Prop :=
  (s.shared.log.size : ℕ∞) + (those Phase.Pending s.phase).encard = s.shared.store.totalVersion

theorem counted_step (hs : Counted s) (hstep : HandlerStep H python requests s label t) :
    Counted t := by
  obtain ⟨k, action⟩ := label
  obtain ⟨phase, hworker, hphase⟩ := hstep
  rw [Counted] at hs ⊢
  rw [hphase]
  rcases hworker.counts with ⟨hlog, hstore, hsame⟩ | ⟨hlog, hstore, hnot, hpending⟩ |
    ⟨hlog, hstore, hpending, hnot⟩
  · rw [hlog, hstore, those_stay hsame, hs]
  · rw [hlog, hstore, encard_enter hnot hpending, ← add_assoc, hs, Nat.cast_add, Nat.cast_one]
  · rw [hlog, hstore, ← hs, ← encard_leave hpending hnot, Nat.cast_add, Nat.cast_one,
      add_assoc, add_comm 1]

theorem counted_run (h : Run (HandlerStep H python requests) (router .empty) trace s) :
    Counted s := by
  refine h.invariant ?_ fun _ _ _ => counted_step
  have hnone : those Phase.Pending (router Shared.empty : System ι Phase Shared).phase = ∅ :=
    Set.eq_empty_of_forall_notMem fun _ h => h
  rw [Counted, hnone, Set.encard_empty, add_zero]
  rfl

/-! ## Steps that change nothing -/

theorem authorised_of_applied (h : Run (HandlerStep H python requests) (router start) trace s)
    (hstep : HandlerStep H python requests s (i, .apply) t) :
    (i, authentication python (requests i) (.ok true)) ∈ trace ∧
      ∃ verdict, verdict.status = "SATISFIED" ∧
        (i, authorization (requests i) (.ok verdict)) ∈ trace := by
  obtain ⟨phase, hworker, -⟩ := hstep
  rcases hworker.store with ⟨hne, -⟩ | ⟨-, hauthorized, -⟩
  · exact absurd rfl hne
  · have hhistory := history_of_handlers h i
    rw [hauthorized] at hhistory
    obtain ⟨verdict, hverdict, hactions⟩ := hhistory
    have hmade : ∀ action ∈ actionsOf i trace, (i, action) ∈ trace := fun _ => mem_actionsOf.mp
    rw [hactions] at hmade
    exact ⟨hmade _ (by simp), verdict, refusal_eq_none.mp hverdict, hmade _ (by simp)⟩

theorem refused_unchanged {action : Action} {u v : System ι Phase Shared}
    (h : Run (HandlerStep H python requests) (router start) trace s)
    (hrefused : (s.phase i).Refused) (hmem : (i, action) ∈ trace)
    (hstep : HandlerStep H python requests u (i, action) v) :
    v.shared.store = u.shared.store ∧ v.shared.log = u.shared.log := by
  obtain ⟨hnotApply, hnotAppend⟩ := (history_of_handlers h i).refused hrefused
  have hmade := mem_actionsOf.mpr hmem
  obtain ⟨phase, hworker, -⟩ := hstep
  constructor
  · rcases hworker.store with ⟨-, hsame⟩ | ⟨rfl, -⟩
    · exact hsame
    · exact absurd hmade hnotApply
  · rcases hworker.log with ⟨-, hsame⟩ | ⟨record, happend, -⟩
    · exact hsame
    · change action = _ at happend
      rw [happend] at hmade
      exact absurd hmade (hnotAppend _)

theorem unauthenticated_unchanged {action : Action} {u v : System ι Phase Shared}
    {answer : Except PyError Bool}
    (h : Run (HandlerStep H python requests) (router start) trace s)
    (hanswer : answer ≠ .ok true)
    (hfailed : (i, authentication python (requests i) answer) ∈ trace)
    (hmem : (i, action) ∈ trace) (hstep : HandlerStep H python requests u (i, action) v) :
    v.shared = u.shared := by
  have hactions := (history_of_handlers h i).unauthenticated (mem_actionsOf.mpr hfailed) hanswer
  have hmade := mem_actionsOf.mpr hmem
  rw [hactions, List.mem_singleton] at hmade
  subst action
  obtain ⟨phase, hworker, -⟩ := hstep
  exact hworker.authentication

/-! ## Authorised, and once -/

/-- What a run of the handlers guarantees. -/
structure ExactlyOnce (H : HashFunction) (python : Interpreter)
    (requests : ι → BindingWriteRequest) (trace : List (ι × Action))
    (s : System ι Phase Shared) : Prop where
  authorised : ∀ i before after, trace = before ++ (i, .apply) :: after →
    (i, authentication python (requests i) (.ok true)) ∈ before ∧
      ∃ verdict, verdict.status = "SATISFIED" ∧
        (i, authorization (requests i) (.ok verdict)) ∈ before
  once : ((appliers trace).map fun i => nonceKey (requests i)).Nodup
  counted : Counted s
  refused : ∀ i, (s.phase i).Refused → ∀ before action u v, before ++ [(i, action)] <+: trace →
    Run (HandlerStep H python requests) (router .empty) before u →
    HandlerStep H python requests u (i, action) v →
    v.shared.store = u.shared.store ∧ v.shared.log = u.shared.log
  unauthenticated : ∀ i answer, answer ≠ .ok true →
    (i, authentication python (requests i) answer) ∈ trace →
    ∀ before action u v, before ++ [(i, action)] <+: trace →
    Run (HandlerStep H python requests) (router .empty) before u →
    HandlerStep H python requests u (i, action) v → v.shared = u.shared

theorem writes_exactlyOnce
    (h : Run (HandlerStep H python requests) (router .empty) trace s) :
    ExactlyOnce H python requests trace s where
  authorised i before after htrace := by
    have hbefore : before ++ [(i, .apply)] <+: trace := ⟨after, by rw [htrace]; simp⟩
    obtain ⟨t, ht⟩ := h.of_prefix hbefore
    obtain ⟨u, hu, hlast⟩ := run_concat.mp ht
    exact authorised_of_applied hu hlast
  once := appliers_nodup h
  counted := counted_run h
  refused i hrefused before action u v hbefore _ hstep := by
    have hmem : (i, action) ∈ trace := hbefore.subset (List.mem_append_right _ List.mem_cons_self)
    exact refused_unchanged h hrefused hmem hstep
  unauthenticated i answer hanswer hfailed before action u v hbefore _ hstep := by
    have hmem : (i, action) ∈ trace := hbefore.subset (List.mem_append_right _ List.mem_cons_self)
    exact unauthenticated_unchanged h hanswer hfailed hmem hstep

end Runs

def johnsWrite : BindingWriteRequest where
  grant := ⟨[("grant_id", .str "dat:did:key:zOwner:abcd")], by simp⟩
  op := "binding.update_target"
  subject := "john@hotmail.com"
  issuedAt := "2026-07-28T12:00:00Z"
  nonce := "n1"
  storeDid := "did:key:zStore"
  storeSignature := "valid"

/-- Two writes to one subject. -/
def johnsWrites : Bool → BindingWriteRequest
  | false => johnsWrite
  | true => { johnsWrite with nonce := "n2" }

/-- A write, and its replay while it is handled. -/
def replayedWrites : Bool → BindingWriteRequest := fun _ => johnsWrite

theorem writes_exactlyOnce_john : ∃ trace s,
    Run (HandlerStep sha256 Converter.plainPython replayedWrites) (router .empty) trace s ∧
    (s.phase false).Written ∧ (s.phase true).Refused ∧
    ExactlyOnce sha256 Converter.plainPython replayedWrites trace s := by
  obtain ⟨trace, s, hrun, -, happlied, hrefused, -⟩ := run_one_replayed sha256
    Converter.plainPython replayedWrites Bool.false_ne_true rfl
  refine ⟨trace, s, hrun, ?_, ?_, writes_exactlyOnce hrun⟩
  · rw [happlied]
    trivial
  · rw [hrefused]
    trivial

end BindingRuns
