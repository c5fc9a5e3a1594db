import SmBridge.Federation
import SmBridge.Lib.Attempts
import SmBridge.Lib.Runs

/-!
# The poll loops of a federation poller

Each `start` that finds no thread makes one, whose loop pulls pages until it sees the stop event.
`stop` sets the event and forgets the thread, whether or not it has ended by then, and the next
`start` clears the event for the old loop too.
-/
namespace PollLoops

open Python
open JsonValue
open Store
open Federation
open Attempts
open Runs

/-- Where a thread is in `_run`. -/
inductive Loop where
  /-- `while not self._stop.is_set()` -/
  | checking
  /-- In `sync_once`, before it reads the cursor. -/
  | syncing
  | fetching (cursor : ℤ)
  /-- The rows of the page that are not added yet, and the cursor that follows the page. -/
  | adding (cursor : ℤ) (rows : List (Action × SmAgentFacts)) (next : ℤ)
  | waiting
  | ended

/-- Where the caller of `start` and `stop` is. -/
inductive Caller where
  | idle
  | clearing
  | launching
  | joining

/-- What the loops share. `pulled` lists the pages that are in the store, by their cursors. -/
structure Shared where
  poller : FederationPoller
  store : DeltaStore
  stopping : Bool
  pulled : List (ℤ × ℤ)

structure State where
  shared : Shared
  thread : Option ℕ
  loops : List Loop
  caller : Caller

inductive LoopAct where
  | check
  | read
  | answer (response : Except PyError Json)
  | add
  | finish
  | wake

inductive Act where
  | start
  | clear
  | launch
  | stop
  | joined
  | timedOut
  | loop (i : ℕ) (act : LoopAct)

def initial (poller : FederationPoller) (store : DeltaStore) : State where
  shared := ⟨poller, store, false, []⟩
  thread := none
  loops := []
  caller := .idle

section Definitions

variable (codec : AgentCodec)

/-- The rows of an answer and the next cursor, as `pull_deltas` has them before it writes. -/
def receive (options : PullOptions) (cursor : ℤ) (response : Except PyError Json) :
    Except PyError (List (Action × SmAgentFacts) × ℤ) :=
  if cursor < 0 then .error (.valueError "since must be a nonnegative integer")
  else response >>= preparePage codec options cursor

/-- A step of a loop. Whatever `sync_once` raises is swallowed. -/
def Loop.step (s : Shared) : Loop → LoopAct → Option (Loop × Shared)
  | .checking, .check => some (if s.stopping then .ended else .syncing, s)
  | .syncing, .read => some (.fetching s.poller.since, s)
  | .fetching cursor, .answer response =>
    match receive codec s.poller.options cursor response with
    | .ok (rows, next) => some (.adding cursor rows next, s)
    | .error _ => some (.waiting, s)
  | .adding cursor ((action, agent) :: rows) next, .add =>
    some (.adding cursor rows next, { s with store := s.store.add action agent })
  | .adding cursor [] next, .finish =>
    some (.waiting, { s with
      poller := { s.poller with since := next }, pulled := s.pulled ++ [(cursor, next)] })
  | .waiting, .wake => some (.checking, s)
  | _, _ => none

/-- A step of the caller, whose `join` may end in time or not, or of a loop. -/
def State.step (s : State) : Act → Option State
  | .start =>
    match s.caller with
    | .idle => some (if s.thread.isSome then s else { s with caller := .clearing })
    | _ => none
  | .clear =>
    match s.caller with
    | .clearing =>
      some { s with shared := { s.shared with stopping := false }, caller := .launching }
    | _ => none
  | .launch =>
    match s.caller with
    | .launching => some { s with
        thread := some s.loops.length, loops := s.loops ++ [.checking], caller := .idle }
    | _ => none
  | .stop =>
    match s.caller with
    | .idle => some { s with
        shared := { s.shared with stopping := true },
        caller := if s.thread.isSome then .joining else .idle }
    | _ => none
  | .joined =>
    match s.caller, s.thread.bind (s.loops[·]?) with
    | .joining, some .ended => some { s with thread := none, caller := .idle }
    | _, _ => none
  | .timedOut =>
    match s.caller with
    | .joining => some { s with thread := none, caller := .idle }
    | _ => none
  | .loop i act => do
    let phase ← s.loops[i]?
    let (phase, shared) ← phase.step codec s.shared act
    some { s with shared := shared, loops := s.loops.set i phase }

def Steps (s : State) (act : Act) (t : State) : Prop := s.step codec act = some t

end Definitions

/-- The thread is in `_run`. -/
def Executing (s : State) (i : ℕ) : Prop := ∃ phase, s.loops[i]? = some phase ∧ phase ≠ .ended

def AtMostOne (s : State) : Prop := ∀ i j, Executing s i → Executing s j → i = j

/-- Each page begins where the one before it has ended, the first at the poller's first cursor. -/
def InTurn (first : ℤ) : List (ℤ × ℤ) → ℤ → Prop
  | [], since => since = first
  | (cursor, next) :: pages, since => cursor = first ∧ InTurn next pages since

/-- At most one loop runs, and no page is pulled from a cursor that has been left. -/
structure Exclusive (first : ℤ) (s : State) : Prop where
  atMostOne : AtMostOne s
  inTurn : InTurn first s.shared.pulled s.shared.poller.since

/-- A new loop is launched only when none runs that `stop` has forgotten. -/
def NoneForgotten (s : State) (act : Act) : Prop :=
  act = .launch → ∀ i, Executing s i → s.thread = some i

variable {codec : AgentCodec} {s t : State} {shared shared' : Shared} {phase phase' : Loop}
  {act : Act} {loopAct : LoopAct} {i j : ℕ} {first : ℤ} {trace : List Act}

/-! ## Steps -/

/-- The cursor that the loop has read. -/
def Loop.cursor? : Loop → Option ℤ
  | .fetching cursor => some cursor
  | .adding cursor _ _ => some cursor
  | _ => none

theorem inTurn_concat {pages : List (ℤ × ℤ)} {since next : ℤ} (h : InTurn first pages since) :
    InTurn first (pages ++ [(since, next)]) next := by
  induction pages generalizing first with
  | nil => exact ⟨h, rfl⟩
  | cons page pages ih => exact ⟨h.1, ih h.2⟩

/-- The loop works from the cursor that the poller has. -/
def Synced (shared : Shared) (phase : Loop) : Prop :=
  ∀ cursor, phase.cursor? = some cursor → cursor = shared.poller.since

theorem synced_of_none (h : phase.cursor? = none) : Synced shared phase := by
  intro cursor hcursor
  cases h.symm.trans hcursor

theorem not_ended_of_step (h : phase.step codec shared loopAct = some (phase', shared')) :
    phase ≠ .ended := by
  rintro rfl
  cases h

/-- A loop that works from the poller's cursor ends its page there. -/
theorem step_synced (hsynced : Synced shared phase)
    (hturn : InTurn first shared.pulled shared.poller.since)
    (h : phase.step codec shared loopAct = some (phase', shared')) :
    Synced shared' phase' ∧ InTurn first shared'.pulled shared'.poller.since := by
  cases phase with
  | checking =>
    cases loopAct with
    | check =>
      obtain ⟨rfl, rfl⟩ := Prod.mk.inj (Option.some.inj h)
      refine ⟨synced_of_none ?_, hturn⟩
      split <;> rfl
    | _ => cases h
  | syncing =>
    cases loopAct with
    | read =>
      obtain ⟨rfl, rfl⟩ := Prod.mk.inj (Option.some.inj h)
      exact ⟨fun cursor hcursor => (Option.some.inj hcursor).symm, hturn⟩
    | _ => cases h
  | fetching cursor =>
    cases loopAct with
    | answer response =>
      rw [Loop.step] at h
      split at h
      · obtain ⟨rfl, rfl⟩ := Prod.mk.inj (Option.some.inj h)
        exact ⟨hsynced, hturn⟩
      · obtain ⟨rfl, rfl⟩ := Prod.mk.inj (Option.some.inj h)
        exact ⟨synced_of_none rfl, hturn⟩
    | _ => cases h
  | adding cursor rows next =>
    cases rows with
    | nil =>
      cases loopAct with
      | finish =>
        obtain ⟨rfl, rfl⟩ := Prod.mk.inj (Option.some.inj h)
        refine ⟨synced_of_none rfl, ?_⟩
        rw [hsynced cursor rfl]
        exact inTurn_concat hturn
      | _ => cases h
    | cons row rows =>
      cases loopAct with
      | add =>
        obtain ⟨rfl, rfl⟩ := Prod.mk.inj (Option.some.inj h)
        exact ⟨hsynced, hturn⟩
      | _ => cases h
  | waiting =>
    cases loopAct with
    | wake =>
      obtain ⟨rfl, rfl⟩ := Prod.mk.inj (Option.some.inj h)
      exact ⟨synced_of_none rfl, hturn⟩
    | _ => cases h
  | ended => cases h

/-! ## A loop alone -/

section Alone

variable {options : PullOptions} {fetch : String → Except PyError Json} {peerUrl : String}
  {store : DeltaStore} {since next : ℤ} {rows : List (Action × SmAgentFacts)} {exc : PyError}

/-- Steps of one loop, which no other interrupts. -/
def Loop.run (codec : AgentCodec) (x : Loop × Shared) (acts : List LoopAct) :
    Option (Loop × Shared) :=
  acts.foldlM (fun x act => x.1.step codec x.2 act) x

theorem pullDeltas_of_refused (h : receive codec options since
      (fetch (rstrip '/' peerUrl ++ "/nanda/deltas?since=" ++ toString since)) = .error exc) :
    pullDeltas codec addInMemory options fetch peerUrl store since = (.error exc, store) := by
  rw [receive] at h
  rw [pullDeltas]
  split at h
  · rw [if_pos ‹since < 0›, Except.error.inj h]
  · rw [if_neg ‹¬ since < 0›]
    rcases bind_eq_error.mp h with hfetch | ⟨data, hfetch, hpage⟩
    · simp only [hfetch]
    · simp only [hfetch, hpage]

theorem pullDeltas_of_received (h : receive codec options since
      (fetch (rstrip '/' peerUrl ++ "/nanda/deltas?since=" ++ toString since)) =
        .ok (rows, next)) :
    pullDeltas codec addInMemory options fetch peerUrl store since =
      (.ok ⟨rows.length, next⟩, addAll rows store) := by
  rw [receive] at h
  rw [pullDeltas]
  split at h
  · cases h
  · rw [if_neg ‹¬ since < 0›]
    obtain ⟨data, hfetch, hpage⟩ := bind_eq_ok.mp h
    simp only [hfetch, hpage, addRows_inMemory]

theorem run_adds (codec : AgentCodec) (cursor next : ℤ) (rows : List (Action × SmAgentFacts))
    (s : Shared) :
    Loop.run codec (.adding cursor rows next, s) (rows.map (fun _ => .add) ++ [.finish]) =
      some (.waiting, { s with
        poller := { s.poller with since := next }, store := addAll rows s.store,
        pulled := s.pulled ++ [(cursor, next)] }) := by
  induction rows generalizing s with
  | nil => rfl
  | cons row rows ih => exact ih { s with store := s.store.add row.1 row.2 }

/-- The steps of a loop that is alone are those of `sync_once`. -/
theorem run_syncOnce (codec : AgentCodec) (s : Shared) (fetch : String → Except PyError Json) :
    ∃ acts s', Loop.run codec (.syncing, s) acts = some (.waiting, s') ∧
      (s.poller.syncOnce codec addInMemory fetch s.store).2 = (s'.poller, s'.store) := by
  let response := fetch (rstrip '/' s.poller.peerUrl ++ "/nanda/deltas?since=" ++
    toString s.poller.since)
  cases hpage : receive codec s.poller.options s.poller.since response with
  | error exc =>
    refine ⟨[.read, .answer response], s, ?_, ?_⟩
    · simp only [Loop.run, List.foldlM, Loop.step, hpage, Option.bind_eq_bind, Option.bind_some]
      rfl
    · rw [FederationPoller.syncOnce, pullDeltas_of_refused hpage]
  | ok page =>
    obtain ⟨rows, next⟩ := page
    have hadds := run_adds codec s.poller.since next rows s
    refine ⟨.read :: .answer response :: (rows.map (fun _ => .add) ++ [.finish]), _,
      Eq.trans ?_ hadds, ?_⟩
    · simp only [Loop.run, List.foldlM_cons, Loop.step, hpage, Option.bind_eq_bind,
        Option.bind_some]
    · rw [FederationPoller.syncOnce, pullDeltas_of_received hpage]

end Alone

/-- There is no thread while one is about to be made. -/
def Unlaunched (s : State) : Prop := s.caller = .clearing ∨ s.caller = .launching → s.thread = none

/-- A launch, a step of a loop, or a step of the caller that leaves the loops alone. -/
theorem steps_cases (h : Steps codec s act t) :
    (act = .launch ∧ s.caller = .launching ∧ t = { s with
      thread := some s.loops.length, loops := s.loops ++ [.checking], caller := .idle }) ∨
    (∃ i loopAct phase phase' shared', act = .loop i loopAct ∧ s.loops[i]? = some phase ∧
      phase.step codec s.shared loopAct = some (phase', shared') ∧
      t = { s with shared := shared', loops := s.loops.set i phase' }) ∨
    act ≠ .launch ∧ t.loops = s.loops ∧ t.shared.poller = s.shared.poller ∧
      t.shared.pulled = s.shared.pulled ∧ (Unlaunched s → Unlaunched t) ∧
      (t.thread = s.thread ∨ t.thread = none ∧
        (act = .timedOut ∨ ∃ i, s.thread = some i ∧ s.loops[i]? = some .ended)) := by
  obtain ⟨shared, thread, loops, caller⟩ := s
  cases act with
  | start =>
    cases caller with
    | idle =>
      obtain rfl := Option.some.inj h
      refine Or.inr (Or.inr ⟨by simp, ?_⟩)
      cases thread <;> simp [Unlaunched]
    | _ => cases h
  | clear =>
    cases caller with
    | clearing =>
      obtain rfl := Option.some.inj h
      refine Or.inr (Or.inr ⟨by simp, rfl, rfl, rfl, fun hs _ => hs (Or.inl rfl), Or.inl rfl⟩)
    | _ => cases h
  | launch =>
    cases caller with
    | launching =>
      obtain rfl := Option.some.inj h
      exact Or.inl ⟨rfl, rfl, rfl⟩
    | _ => cases h
  | stop =>
    cases caller with
    | idle =>
      obtain rfl := Option.some.inj h
      refine Or.inr (Or.inr ⟨by simp, ?_⟩)
      cases thread <;> simp [Unlaunched]
    | _ => cases h
  | joined =>
    simp only [Steps, State.step] at h
    split at h
    · rename_i hthread
      obtain rfl := Option.some.inj h
      obtain ⟨i, hi, hended⟩ := Option.bind_eq_some_iff.mp hthread
      exact Or.inr (Or.inr ⟨by simp, rfl, rfl, rfl, fun _ _ => rfl,
        Or.inr ⟨rfl, Or.inr ⟨i, hi, hended⟩⟩⟩)
    · cases h
  | timedOut =>
    cases caller with
    | joining =>
      obtain rfl := Option.some.inj h
      exact Or.inr (Or.inr ⟨by simp, rfl, rfl, rfl, fun _ _ => rfl, Or.inr ⟨rfl, Or.inl rfl⟩⟩)
    | _ => cases h
  | loop i loopAct =>
    obtain ⟨phase, hphase, h⟩ := Option.bind_eq_some_iff.mp h
    obtain ⟨⟨phase', shared'⟩, hstep, h⟩ := Option.bind_eq_some_iff.mp h
    exact Or.inr (Or.inl ⟨i, loopAct, phase, phase', shared', rfl, hphase, hstep,
      (Option.some.inj h).symm⟩)

/-! ## Invariants -/

/-- What holds in a run in which at most one loop runs. -/
structure Invariant (first : ℤ) (s : State) : Prop where
  unlaunched : Unlaunched s
  exclusive : Exclusive first s
  synced : ∀ (i : ℕ) (phase : Loop), s.loops[i]? = some phase → Synced s.shared phase

theorem initial_invariant (poller : FederationPoller) (store : DeltaStore) :
    Invariant poller.since (initial poller store) where
  unlaunched _ := rfl
  exclusive := by
    refine ⟨fun i j hi => ?_, rfl⟩
    obtain ⟨phase, hphase, -⟩ := hi
    cases hphase
  synced _ _ h := by cases h

theorem steps_unlaunched (h : Steps codec s act t) (hs : Unlaunched s) : Unlaunched t := by
  rcases steps_cases h with ⟨-, -, rfl⟩ | ⟨_, _, _, _, _, -, -, -, rfl⟩ | ⟨-, -, -, -, hkeep, -⟩
  · rintro (hcaller | hcaller) <;> cases hcaller
  · exact hs
  · exact hkeep hs

/-- A launch adds a loop that runs. -/
theorem executing_launch (hlaunch : t = { s with
      thread := some s.loops.length, loops := s.loops ++ [.checking], caller := .idle }) :
    Executing t i ↔ Executing s i ∨ i = s.loops.length := by
  subst t
  constructor
  · intro ⟨phase, hphase, hended⟩
    rcases lt_or_ge i s.loops.length with hlt | hge
    · exact Or.inl ⟨phase, (List.getElem?_append_left hlt).symm.trans hphase, hended⟩
    · have hlt := (List.getElem?_eq_some_iff.mp hphase).1
      rw [List.length_append, List.length_singleton] at hlt
      exact Or.inr (by omega)
  · rintro (⟨phase, hphase, hended⟩ | rfl)
    · have hlt := (List.getElem?_eq_some_iff.mp hphase).1
      exact ⟨phase, (List.getElem?_append_left hlt).trans hphase, hended⟩
    · exact ⟨.checking, List.getElem?_concat_length, Loop.noConfusion⟩

/-- No other step lets a loop run that did not. -/
theorem executing_of_steps (h : Steps codec s act t) (hact : act ≠ .launch) (hi : Executing t i) :
    Executing s i := by
  rcases steps_cases h with ⟨hlaunch, -⟩ | ⟨j, _, phase, phase', _, -, hphase, hstep, rfl⟩ |
    ⟨-, hloops, -⟩
  · exact absurd hlaunch hact
  · obtain ⟨x, hx, hended⟩ := hi
    rw [List.getElem?_set] at hx
    split at hx
    · subst j
      exact ⟨phase, hphase, not_ended_of_step hstep⟩
    · exact ⟨x, hx, hended⟩
  · obtain ⟨x, hx, hended⟩ := hi
    exact ⟨x, hloops ▸ hx, hended⟩

theorem atMostOne_steps (hunlaunched : Unlaunched s) (hone : AtMostOne s)
    (h : Steps codec s act t) : AtMostOne t ↔ NoneForgotten s act := by
  by_cases hact : act = .launch
  · rcases steps_cases h with ⟨-, hcaller, hlaunch⟩ | ⟨_, _, _, _, _, hloop, -⟩ | ⟨hne, -⟩
    · have hthread : s.thread = none := hunlaunched (Or.inr hcaller)
      constructor
      · intro hone' _ i hi
        -- the loop that runs already and the new one are two
        have hlt := (List.getElem?_eq_some_iff.mp hi.choose_spec.1).1
        have heq := hone' i s.loops.length ((executing_launch hlaunch).mpr (Or.inl hi))
          ((executing_launch hlaunch).mpr (Or.inr rfl))
        omega
      · intro hnone i j hi hj
        have hnew : ∀ k, Executing t k → k = s.loops.length := by
          intro k hk
          refine ((executing_launch hlaunch).mp hk).resolve_left fun hold => ?_
          cases hthread.symm.trans (hnone hact k hold)
        exact (hnew i hi).trans (hnew j hj).symm
    · cases hact.symm.trans hloop
    · exact absurd hact hne
  · refine iff_of_true (fun i j hi hj => ?_) fun habs => absurd habs hact
    exact hone i j (executing_of_steps h hact hi) (executing_of_steps h hact hj)

theorem steps_invariant (hs : Invariant first s) (hnone : NoneForgotten s act)
    (h : Steps codec s act t) : Invariant first t := by
  have hone := (atMostOne_steps hs.unlaunched hs.exclusive.atMostOne h).mpr hnone
  have hunlaunched := steps_unlaunched h hs.unlaunched
  rcases steps_cases h with ⟨-, -, rfl⟩ | ⟨i, _, phase, phase', shared', -, hphase, hstep, rfl⟩ |
    ⟨-, hloops, hpoller, hpulled, -, -⟩
  · refine ⟨hunlaunched, ⟨hone, hs.exclusive.inTurn⟩, fun i phase hphase => ?_⟩
    rcases List.mem_append.mp (List.mem_of_getElem? hphase) with hold | hnew
    · obtain ⟨j, hj⟩ := List.mem_iff_getElem?.mp hold
      exact hs.synced j phase hj
    · rw [List.mem_singleton.mp hnew]
      exact synced_of_none rfl
  · obtain ⟨hsynced, hturn⟩ := step_synced (hs.synced i phase hphase) hs.exclusive.inTurn hstep
    refine ⟨hunlaunched, ⟨hone, hturn⟩, fun j x hx => ?_⟩
    by_cases hj : i = j
    · subst j
      rw [List.getElem?_set_self (List.getElem?_eq_some_iff.mp hphase).1] at hx
      exact Option.some.inj hx ▸ hsynced
    · -- every other loop has ended
      rw [List.getElem?_set_ne hj] at hx
      have hended : x = .ended := by
        by_contra hne
        exact hj (hs.exclusive.atMostOne i j ⟨phase, hphase, not_ended_of_step hstep⟩ ⟨x, hx, hne⟩)
      exact synced_of_none (hended ▸ rfl)
  · refine ⟨hunlaunched, ⟨hone, ?_⟩, fun i phase hphase => ?_⟩
    · rw [hpoller, hpulled]
      exact hs.exclusive.inTurn
    · intro cursor hcursor
      rw [hpoller]
      exact hs.synced i phase (hloops ▸ hphase) cursor hcursor

/-! ## Runs -/

/-- In a run, at most one loop runs at every moment, and pulls each page from where the last one
has ended, exactly if no loop is launched beside one that `stop` has forgotten. -/
theorem exclusive_iff (codec : AgentCodec) (poller : FederationPoller) (store : DeltaStore)
    (trace : List Act) (t : State) (hrun : Run (Steps codec) (initial poller store) trace t) :
    (∀ before s, before <+: trace → Run (Steps codec) (initial poller store) before s →
      Exclusive poller.since s) ↔
    ∀ before act s, before ++ [act] <+: trace → Run (Steps codec) (initial poller store) before s →
      NoneForgotten s act := by
  have hdet : ∀ s act t t', Steps codec s act t → Steps codec s act t' → t = t' :=
    fun _ _ _ _ h h' => Option.some.inj (h.symm.trans h')
  have hstep : ∀ s act t, Invariant poller.since s → Steps codec s act t →
      (Invariant poller.since t ↔ NoneForgotten s act) := by
    intro s act t hs hstep
    constructor
    · intro ht
      exact (atMostOne_steps hs.unlaunched hs.exclusive.atMostOne hstep).mp ht.exclusive.atMostOne
    · exact fun hnone => steps_invariant hs hnone hstep
  refine Iff.trans ?_ (hrun.along_iff hdet (initial_invariant poller store) hstep)
  constructor
  · intro hall before s hbefore hs
    induction hs with
    | nil => exact initial_invariant poller store
    | concat hs hlast ih =>
      have hinv := ih ((List.prefix_append _ _).trans hbefore)
      have hone := (hall _ _ hbefore (hs.concat hlast)).atMostOne
      exact steps_invariant hinv
        ((atMostOne_steps hinv.unlaunched hinv.exclusive.atMostOne hlast).mp hone) hlast
  · intro hall before s hbefore hs
    exact (hall before s hbefore hs).exclusive

/-- Only the loop of the thread at hand runs. -/
structure Held (s : State) : Prop where
  unlaunched : Unlaunched s
  thread : ∀ i, Executing s i → s.thread = some i

theorem steps_held (hs : Held s) (hact : act ≠ .timedOut) (h : Steps codec s act t) : Held t := by
  refine ⟨steps_unlaunched h hs.unlaunched, fun i hi => ?_⟩
  by_cases hlaunch : act = .launch
  · rcases steps_cases h with ⟨-, hcaller, ht⟩ | ⟨_, _, _, _, _, hloop, -⟩ | ⟨hne, -⟩
    · rcases (executing_launch ht).mp hi with hold | rfl
      · cases (hs.unlaunched (Or.inr hcaller)).symm.trans (hs.thread i hold)
      · rw [ht]
    · cases hlaunch.symm.trans hloop
    · exact absurd hlaunch hne
  · have hthread := hs.thread i (executing_of_steps h hlaunch hi)
    rcases steps_cases h with ⟨habs, -⟩ | ⟨_, _, _, _, _, -, -, -, rfl⟩ |
      ⟨-, hloops, -, -, -, hkept | ⟨-, hjoin⟩⟩
    · exact absurd habs hlaunch
    · exact hthread
    · rw [hkept, hthread]
    · rcases hjoin with habs | ⟨j, hj, hended⟩
      · exact absurd habs hact
      · -- the thread that was joined has ended, so it is not the one that runs
        obtain ⟨phase, hphase, hne⟩ := hi
        rw [hloops, Option.some.inj (hthread.symm.trans hj), hended] at hphase
        exact absurd (Option.some.inj hphase).symm hne

/-- Where every join waits for the thread to end, at most one loop runs, and it pulls each page
from where the last one has ended. -/
theorem exclusive_of_joined {poller : FederationPoller} {store : DeltaStore}
    (hrun : Run (Steps codec) (initial poller store) trace s) (hjoined : .timedOut ∉ trace) :
    Exclusive poller.since s := by
  have hall : Held s ∧ Invariant poller.since s := by
    induction hrun with
    | nil =>
      refine ⟨⟨fun _ => rfl, fun i hi => ?_⟩, initial_invariant poller store⟩
      obtain ⟨phase, hphase, -⟩ := hi
      cases hphase
    | concat _ hlast ih =>
      rw [List.mem_append, List.mem_singleton, not_or] at hjoined
      obtain ⟨hheld, hinv⟩ := ih hjoined.1
      exact ⟨steps_held hheld (Ne.symm hjoined.2) hlast,
        steps_invariant hinv (fun _ => hheld.thread) hlast⟩
  exact hall.2.exclusive

theorem run_of_foldlM (h : trace.foldlM (State.step codec) s = some t) :
    Run (Steps codec) s trace t := by
  induction trace using List.reverseRecOn generalizing t with
  | nil =>
    obtain rfl := Option.some.inj h
    exact Run.nil
  | append_singleton trace act ih =>
    rw [List.foldlM_append] at h
    obtain ⟨u, hu, hlast⟩ := Option.bind_eq_some_iff.mp h
    rw [List.foldlM_cons] at hlast
    obtain ⟨v, hv, hnil⟩ := Option.bind_eq_some_iff.mp hlast
    obtain rfl := Option.some.inj hnil
    exact (ih hu).concat hv

/-! ## A slow peer -/

def poller : FederationPoller := { peerUrl := "https://peer.example" }

/-- The first loop is still in its fetch when the join times out, and finds the event cleared. -/
def restarted : List Act :=
  [.start, .clear, .launch, .loop 0 .check, .loop 0 .read, .stop, .timedOut, .start, .clear,
    .launch]

theorem restarted_run : ∃ t, Run (Steps plainCodec) (initial poller DeltaStore.empty) restarted t ∧
    Executing t 0 ∧ Executing t 1 := by
  refine ⟨_, run_of_foldlM rfl, ⟨.fetching 0, rfl, Loop.noConfusion⟩, ⟨.checking, rfl, ?_⟩⟩
  exact Loop.noConfusion

theorem exclusive_iff_restarted : ∃ t,
    Run (Steps plainCodec) (initial poller DeltaStore.empty) restarted t ∧
    ((∀ before s, before <+: restarted →
        Run (Steps plainCodec) (initial poller DeltaStore.empty) before s →
        Exclusive poller.since s) ↔
      ∀ before act s, before ++ [act] <+: restarted →
        Run (Steps plainCodec) (initial poller DeltaStore.empty) before s →
          NoneForgotten s act) := by
  obtain ⟨t, hrun, -⟩ := restarted_run
  exact ⟨t, hrun, exclusive_iff plainCodec poller DeltaStore.empty restarted t hrun⟩

/-- Two loops can run. -/
theorem restarted_not_exclusive : ¬ ∀ trace s,
    Run (Steps plainCodec) (initial poller DeltaStore.empty) trace s →
      Exclusive poller.since s := by
  intro h
  obtain ⟨t, hrun, hfirst, hsecond⟩ := restarted_run
  cases (h restarted t hrun).atMostOne 0 1 hfirst hsecond

end PollLoops
