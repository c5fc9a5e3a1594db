import SmBridge.BindingEntries
import SmBridge.BindingRuns
import SmBridge.Lib.Tickets

/-!
# The order of the log

A write draws its version under the lock of the store and is appended to the log later. The
versions of a subject are numbers drawn and published.
-/
namespace BindingOrder

open Python
open JsonValue
open Hashing
open Tlog
open BindingWrite
open BindingEntries
open BindingHandlers
open BindingRuns
open Runs
open Workers
open Ticketing

/-! ## What the log records -/

/-- The entries that the log was made of. -/
def Reads (python : Interpreter) (log : MerkleLog) (logged : List LogEntry) : Prop :=
  log.entries = logged.map (canonicalLogEntry python)

/-- The versions in the entries of a subject, in the order of the leaves. -/
def versionsOf (logged : List LogEntry) (subject : String) : List ℕ :=
  (logged.filter fun entry => entry.subject = subject).map LogEntry.version

/-- The bytes of the log decide which versions it records. -/
theorem versionsOf_unique {python : Interpreter} {logged logged' : List LogEntry}
    (h : logged.map (canonicalLogEntry python) = logged'.map (canonicalLogEntry python))
    (subject : String) : versionsOf logged subject = versionsOf logged' subject := by
  induction logged generalizing logged' with
  | nil => rw [List.map_eq_nil_iff.mp h.symm]
  | cons entry logged ih =>
    cases logged' with
    | nil => cases h
    | cons entry' logged' =>
      obtain ⟨hhead, htail⟩ := List.cons.inj h
      have hsame := canonicalLogEntry_inj hhead
      have hrest := ih htail
      simp only [versionsOf] at hrest ⊢
      rw [List.filter_cons, List.filter_cons, hsame.subject]
      split
      · rw [List.map_cons, List.map_cons, hsame.version, hrest]
      · exact hrest

variable {ι : Type} [DecidableEq ι] {H : HashFunction} {python : Interpreter}
  {requests : ι → BindingWriteRequest} {trace : List (ι × Action)}
  {s u : System ι Phase Shared} {label : ι × Action} {tickets : Tickets ι String}

/-- The log has the writes to each subject in the order of the store. -/
structure OrderedAsStored (python : Interpreter) (s : System ι Phase Shared) : Prop where
  readable : ∃ logged, Reads python s.shared.log logged
  increasing : ∀ logged, Reads python s.shared.log logged → ∀ subject,
    (versionsOf logged subject).Pairwise (· < ·)
  complete : (∀ i, ¬ (s.phase i).InFlight) → ∀ logged, Reads python s.shared.log logged →
    ∀ subject, versionsOf logged subject = List.range' 1 (s.shared.store.versionOf subject)

/-- A write is appended before every later write to its subject. -/
def InTurn (requests : ι → BindingWriteRequest) (s : System ι Phase Shared)
    (label : ι × Action) : Prop :=
  ∀ entry version, label.2 = .append entry → (s.phase label.1).version = some version →
    ∀ j version', (s.phase j).Logged → (s.phase j).version = some version' →
      (requests j).subject = (requests label.1).subject → version' < version

/-! ## Versions as numbers drawn -/

def subjectOf (requests : ι → BindingWriteRequest) (i : ι) : String := (requests i).subject

/-- The store has drawn the versions, and the log has published them. -/
structure Follows (python : Interpreter) (requests : ι → BindingWriteRequest)
    (s : System ι Phase Shared) (tickets : Tickets ι String) : Prop where
  counter : ∀ subject, tickets.counter subject = s.shared.store.versionOf subject
  drawn : ∀ i, tickets.drawn i = (s.phase i).version
  published : ∀ i, i ∈ tickets.published ↔ (s.phase i).Logged
  entries : s.shared.log.entries = tickets.published.map fun i =>
    canonicalLogEntry python (logEntry (requests i) (tickets.number i))

omit [DecidableEq ι] in
theorem follows_started : Follows python requests (router .empty) Tickets.fresh where
  counter _ := rfl
  drawn _ := rfl
  published _ := ⟨nofun, fun h => h.elim⟩
  entries := rfl

omit [DecidableEq ι] in
theorem Follows.reads (h : Follows python requests s tickets) : Reads python s.shared.log
    (tickets.published.map fun i => logEntry (requests i) (tickets.number i)) := by
  rw [Reads, h.entries, List.map_map]
  rfl

omit [DecidableEq ι] in
theorem Follows.versionsOf_eq (h : Follows python requests s tickets) {logged : List LogEntry}
    (hreads : Reads python s.shared.log logged) (subject : String) :
    versionsOf logged subject = tickets.numbers (subjectOf requests) subject := by
  have hmap := hreads.symm.trans h.reads
  rw [versionsOf_unique hmap subject, versionsOf, List.filter_map, List.map_map]
  rfl

omit [DecidableEq ι] in
/-- The order of the log is that of the numbers. -/
theorem Follows.orderedAsStored_iff (h : Follows python requests s tickets)
    (hvalid : tickets.Valid (subjectOf requests)) :
    OrderedAsStored python s ↔ tickets.Increasing (subjectOf requests) := by
  constructor
  · intro hordered subject
    rw [← h.versionsOf_eq h.reads]
    exact hordered.increasing _ h.reads subject
  · intro hincreasing
    refine ⟨⟨_, h.reads⟩, ?_, ?_⟩
    · intro logged hreads subject
      rw [h.versionsOf_eq hreads]
      exact hincreasing subject
    · intro hidle logged hreads subject
      have hall : ∀ i, (tickets.drawn i).isSome → i ∈ tickets.published := by
        intro i hdrawn
        rw [h.drawn] at hdrawn
        exact (h.published i).mpr (Phase.logged_of_version hdrawn (hidle i))
      rw [h.versionsOf_eq hreads, Tickets.numbers_eq_range hvalid hincreasing hall, h.counter]

section Steps

variable {k : ι} {phase : Phase} {version : ℕ}

theorem Follows.stay (h : Follows python requests s tickets)
    (hphase : u.phase = Function.update s.phase k phase)
    (hversion : phase.version = (s.phase k).version)
    (hlogged : phase.Logged ↔ (s.phase k).Logged) (hstore : u.shared.store = s.shared.store)
    (hlog : u.shared.log = s.shared.log) : Follows python requests u tickets := by
  have hphases : ∀ i, (u.phase i).version = (s.phase i).version ∧
      ((u.phase i).Logged ↔ (s.phase i).Logged) := by
    rw [hphase]
    refine (Function.forall_update_iff _ fun i (p : Phase) =>
      p.version = (s.phase i).version ∧ (p.Logged ↔ (s.phase i).Logged)).mpr ⟨?_, ?_⟩
    · exact ⟨hversion, hlogged⟩
    · intro i _
      exact ⟨rfl, Iff.rfl⟩
  constructor
  · rw [hstore]
    exact h.counter
  · intro i
    rw [(hphases i).1, h.drawn]
  · intro i
    rw [(hphases i).2, h.published]
  · rw [hlog, h.entries]

theorem Follows.draw (h : Follows python requests s tickets)
    (hvalid : tickets.Valid (subjectOf requests))
    (hphase : u.phase = Function.update s.phase k phase) (hnone : tickets.drawn k = none)
    (hversion : phase.version = some (s.shared.store.versionOf (requests k).subject + 1))
    (hlogged : phase.Logged ↔ (s.phase k).Logged)
    (hstore : u.shared.store = s.shared.store.apply (requests k))
    (hlog : u.shared.log = s.shared.log) :
    Follows python requests u (tickets.draw (subjectOf requests) k) := by
  constructor
  · intro subject
    rw [hstore, BindingStore.versionOf_apply]
    split
    · subst subject
      exact (Function.update_self _ _ _).trans (congrArg (· + 1) (h.counter _))
    · exact (Function.update_of_ne ‹_› _ _).trans (h.counter _)
  · intro i
    rw [hphase]
    by_cases hi : i = k
    · subst i
      rw [Function.update_self, hversion, ← h.counter]
      exact Function.update_self _ _ _
    · rw [Function.update_of_ne hi, ← h.drawn]
      exact Function.update_of_ne hi _ _
  · rw [hphase]
    refine (Function.forall_update_iff _ fun i (p : Phase) =>
      i ∈ tickets.published ↔ p.Logged).mpr ⟨?_, ?_⟩
    · rw [hlogged]
      exact h.published k
    · intro i _
      exact h.published i
  · rw [hlog, h.entries]
    refine List.map_congr_left fun i hi => ?_
    rw [Tickets.number_draw hvalid hnone hi]

theorem Follows.publish (h : Follows python requests s tickets)
    (hphase : u.phase = Function.update s.phase k phase) (hdrawn : tickets.drawn k = some version)
    (hversion : phase.version = some version) (hlogged : phase.Logged)
    (hstore : u.shared.store = s.shared.store)
    (hlog : u.shared.log =
      s.shared.log.append H (canonicalLogEntry python (logEntry (requests k) version))) :
    Follows python requests u (tickets.publish k) := by
  constructor
  · rw [hstore]
    exact h.counter
  · rw [hphase]
    refine (Function.forall_update_iff _ fun i (p : Phase) =>
      tickets.drawn i = p.version).mpr ⟨?_, ?_⟩
    · exact hdrawn.trans hversion.symm
    · intro i _
      exact h.drawn i
  · rw [hphase]
    refine (Function.forall_update_iff _ fun i (p : Phase) =>
      i ∈ tickets.published ++ [k] ↔ p.Logged).mpr ⟨?_, ?_⟩
    · exact iff_of_true (List.mem_concat_self) hlogged
    · intro i hi
      rw [List.mem_append, List.mem_singleton, or_iff_left hi]
      exact h.published i
  · have hnumber : tickets.number k = version := by
      rw [Tickets.number, hdrawn, Option.getD_some]
    change u.shared.log.entries = (tickets.published ++ [k]).map _
    rw [hlog, List.map_append, List.map_singleton]
    change s.shared.log.entries ++ _ = _
    rw [h.entries, ← hnumber]
    rfl

omit [DecidableEq ι] in
theorem Follows.inTurn_iff (h : Follows python requests s tickets)
    (hvalid : tickets.Valid (subjectOf requests)) (hversion : (s.phase k).version = some version)
    (entry : LogEntry) :
    tickets.InTurn (subjectOf requests) k ↔ InTurn requests s (k, .append entry) := by
  have hnumber : ∀ i n, (s.phase i).version = some n → tickets.number i = n := by
    intro i n hi
    rw [Tickets.number, h.drawn, hi, Option.getD_some]
  constructor
  · intro hturn _ version₁ _ hversion₁ j version₂ hj hversion₂ hsubject
    have hless := hturn j ((h.published j).mpr hj) hsubject
    rwa [hnumber j _ hversion₂, hnumber k _ hversion₁] at hless
  · intro hturn j hj hsubject
    obtain ⟨version', hj'⟩ := Option.isSome_iff_exists.mp (hvalid.owned j hj)
    rw [h.drawn] at hj'
    rw [hnumber j _ hj', hnumber k _ hversion]
    exact hturn _ version rfl hversion j version' ((h.published j).mp hj) hj' hsubject

end Steps

/-- One step of a handler draws a number, publishes its number, or does neither. -/
theorem follows_cases (h : Follows python requests s tickets)
    (hvalid : tickets.Valid (subjectOf requests))
    (hstep : HandlerStep H python requests s label u) :
    (label.2 ≠ .apply ∧ (∀ entry, label.2 ≠ .append entry) ∧ Follows python requests u tickets) ∨
    (label.2 = .apply ∧ tickets.drawn label.1 = none ∧
      Follows python requests u (tickets.draw (subjectOf requests) label.1)) ∨
    ∃ entry version, label.2 = .append entry ∧ (s.phase label.1).version = some version ∧
      tickets.drawn label.1 = some version ∧
      Follows python requests u (tickets.publish label.1) := by
  obtain ⟨k, action⟩ := label
  obtain ⟨phase, hworker, hphase⟩ := hstep
  change Handles H python (requests k) (s.phase k) s.shared action phase u.shared at hworker
  rcases hworker.versions with ⟨happly, happend, hversion, hlogged, hstore, hlog⟩ |
    ⟨happly, hnone, hversion, hlogged, hstore, hlog⟩ |
    ⟨version, happend, hversion, hversion', hlogged, hstore, hlog⟩
  · exact Or.inl ⟨happly, happend, h.stay hphase hversion hlogged hstore hlog⟩
  · have hundrawn : tickets.drawn k = none := (h.drawn k).trans hnone
    exact Or.inr (Or.inl ⟨happly, hundrawn,
      h.draw hvalid hphase hundrawn hversion hlogged hstore hlog⟩)
  · have hdrawn : tickets.drawn k = some version := (h.drawn k).trans hversion
    exact Or.inr (Or.inr ⟨_, version, happend, hversion, hdrawn,
      h.publish hphase hdrawn hversion' hlogged hstore hlog⟩)

/-- Numbers are published in turn or out of turn. -/
theorem follows_step (h : Follows python requests s tickets)
    (hvalid : tickets.Valid (subjectOf requests))
    (hstep : HandlerStep H python requests s label u) :
    ∃ tickets', Follows python requests u tickets' ∧ tickets'.Valid (subjectOf requests) ∧
      (tickets.Increasing (subjectOf requests) →
        (tickets'.Increasing (subjectOf requests) ↔ InTurn requests s label)) := by
  obtain ⟨k, action⟩ := label
  rcases follows_cases h hvalid hstep with ⟨-, happend, hfollows⟩ | ⟨happly, hundrawn, hfollows⟩ |
    ⟨entry, version, happend, hversion, hdrawn, hfollows⟩
  · refine ⟨tickets, hfollows, hvalid, fun hincreasing => ?_⟩
    exact iff_of_true hincreasing fun entry _ habs => absurd habs (happend entry)
  · refine ⟨_, hfollows, hvalid.draw hundrawn, fun hincreasing => ?_⟩
    refine iff_of_true ((Tickets.increasing_draw hvalid hundrawn).mpr hincreasing) ?_
    intro entry _ habs
    cases happly.symm.trans habs
  · refine ⟨_, hfollows, hvalid.publish (hdrawn ▸ rfl), fun hincreasing => ?_⟩
    rw [Tickets.increasing_publish hincreasing, h.inTurn_iff hvalid hversion entry]
    change action = .append entry at happend
    rw [happend]

/-! ## Runs -/

/-- Numbers account for the versions in the store and in the log. -/
def Tracked (python : Interpreter) (requests : ι → BindingWriteRequest)
    (s : System ι Phase Shared) : Prop :=
  ∃ tickets, Follows python requests s tickets ∧ tickets.Valid (subjectOf requests)

omit [DecidableEq ι] in
theorem ordered_started (python : Interpreter) (requests : ι → BindingWriteRequest) :
    Tracked python requests (router .empty) ∧
      OrderedAsStored python (router .empty : System ι Phase Shared) := by
  have hfollows : Follows python requests (router .empty) Tickets.fresh := follows_started
  exact ⟨⟨_, hfollows, Tickets.valid_fresh⟩,
    (hfollows.orderedAsStored_iff Tickets.valid_fresh).mpr Tickets.increasing_fresh⟩

theorem handlerStep_unique {v : System ι Phase Shared}
    (hu : HandlerStep H python requests s label u) (hv : HandlerStep H python requests s label v) :
    u = v := by
  obtain ⟨phase, hworker, hphase⟩ := hu
  obtain ⟨phase', hworker', hphase'⟩ := hv
  obtain ⟨rfl, hshared⟩ := hworker.unique hworker'
  cases u
  cases v
  congr 1
  exact hphase.trans hphase'.symm

theorem ordered_step (hs : Tracked python requests s ∧ OrderedAsStored python s)
    (hstep : HandlerStep H python requests s label u) :
    Tracked python requests u ∧ OrderedAsStored python u ↔ InTurn requests s label := by
  obtain ⟨⟨tickets, hfollows, hvalid⟩, hordered⟩ := hs
  obtain ⟨tickets', hfollows', hvalid', hturn⟩ := follows_step hfollows hvalid hstep
  have hincreasing := (hfollows.orderedAsStored_iff hvalid).mp hordered
  rw [hfollows'.orderedAsStored_iff hvalid', hturn hincreasing]
  exact and_iff_right ⟨tickets', hfollows', hvalid'⟩

theorem tracked_run (h : Run (HandlerStep H python requests) (router .empty) trace s) :
    Tracked python requests s := by
  refine h.invariant (ordered_started python requests).1 fun _ _ _ => ?_
  rintro ⟨tickets, hfollows, hvalid⟩ hstep
  obtain ⟨tickets', hfollows', hvalid', -⟩ := follows_step hfollows hvalid hstep
  exact ⟨tickets', hfollows', hvalid'⟩

/-- The log is ordered all along a run if and only if every write is appended in turn. -/
theorem log_orders_writes_iff
    (hrun : Run (HandlerStep H python requests) (router .empty) trace u) :
    (∀ before s, before <+: trace →
        Run (HandlerStep H python requests) (router .empty) before s →
        OrderedAsStored python s) ↔
      ∀ before label s, before ++ [label] <+: trace →
        Run (HandlerStep H python requests) (router .empty) before s →
        InTurn requests s label := by
  have hdet : ∀ s label u v, HandlerStep H python requests s label u →
      HandlerStep H python requests s label v → u = v := fun _ _ _ _ => handlerStep_unique
  refine Iff.trans ?_ (hrun.along_iff hdet (ordered_started python requests)
    fun _ _ _ => ordered_step)
  constructor
  · intro h before s hbefore hs
    exact ⟨tracked_run hs, h before s hbefore hs⟩
  · intro h before s hbefore hs
    exact (h before s hbefore hs).2

/-! ## The order of the appends -/

/-- The writes to each subject are appended in the order in which the store applied them. -/
def AppendedAsApplied (requests : ι → BindingWriteRequest) (trace : List (ι × Action)) : Prop :=
  ∀ subject, ((appenders trace).filter fun i => subjectOf requests i = subject).Sublist
    ((appliers trace).filter fun i => subjectOf requests i = subject)

/-- The numbers are those of the trace's writes and appends. -/
structure Scheduled (requests : ι → BindingWriteRequest) (trace : List (ι × Action))
    (tickets : Tickets ι String) : Prop where
  drawn : tickets.DrawnBy (subjectOf requests) (appliers trace)
  published : tickets.published = appenders trace

theorem run_scheduled (h : Run (HandlerStep H python requests) (router .empty) trace s) :
    ∃ tickets, Follows python requests s tickets ∧ tickets.Valid (subjectOf requests) ∧
      Scheduled requests trace tickets := by
  induction h with
  | nil => exact ⟨_, follows_started, Tickets.valid_fresh, Tickets.drawnBy_fresh, rfl⟩
  | @concat trace s u label _ hlast ih =>
    obtain ⟨tickets, hfollows, hvalid, hdrawn, hpublished⟩ := ih
    obtain ⟨k, action⟩ := label
    have happliers := appliers_concat trace k action
    have happenders := appenders_concat trace k action
    rcases follows_cases hfollows hvalid hlast with ⟨happly, happend, hnext⟩ |
      ⟨happly, hundrawn, hnext⟩ | ⟨entry, version, happend, -, hnumber, hnext⟩
    · obtain ⟨-, hkept⟩ := happliers.resolve_right fun habs => happly habs.1
      obtain ⟨-, hkept'⟩ := happenders.resolve_right fun habs =>
        habs.1.elim fun entry heq => happend entry heq
      rw [← hkept] at hdrawn
      exact ⟨tickets, hnext, hvalid, hdrawn, hpublished.trans hkept'.symm⟩
    · obtain ⟨-, hadded⟩ := happliers.resolve_left fun habs => habs.1 happly
      obtain ⟨-, hkept⟩ := happenders.resolve_right fun habs =>
        habs.1.elim fun entry heq => by cases happly.symm.trans heq
      refine ⟨_, hnext, hvalid.draw hundrawn, ?_, hpublished.trans hkept.symm⟩
      rw [hadded]
      exact hdrawn.draw hundrawn
    · obtain ⟨-, hadded⟩ := happenders.resolve_left fun habs => habs.1 entry happend
      obtain ⟨-, hkept⟩ := happliers.resolve_right fun habs => by
        cases happend.symm.trans habs.1
      rw [← hkept] at hdrawn
      refine ⟨_, hnext, hvalid.publish (hnumber ▸ rfl), ⟨hdrawn.mem, hdrawn.numbers⟩, ?_⟩
      rw [hadded, ← hpublished]
      rfl

/-- The log has the order of the store exactly if each subject's writes come to it in the order
in which they came to the store. -/
theorem orderedAsStored_iff_schedule
    (hrun : Run (HandlerStep H python requests) (router .empty) trace s) :
    OrderedAsStored python s ↔ AppendedAsApplied requests trace := by
  obtain ⟨tickets, hfollows, hvalid, hdrawn, hpublished⟩ := run_scheduled hrun
  rw [hfollows.orderedAsStored_iff hvalid, Tickets.increasing_iff_sublist hvalid hdrawn,
    hpublished]
  rfl

/-- The writer that comes second to the store can come first to the log. -/
theorem run_swapped (H : HashFunction) (python : Interpreter)
    (requests : ι → BindingWriteRequest) {i j : ι} (hij : i ≠ j)
    (hkeys : nonceKey (requests i) ≠ nonceKey (requests j)) :
    ∃ trace s, Run (HandlerStep H python requests) (router .empty) trace s ∧
      Reads python s.shared.log
        [logEntry (requests j)
            ((BindingStore.empty.apply (requests i)).written (requests j)).version,
          logEntry (requests i) 1] := by
  obtain ⟨trace, s, hrun, -, hi, hj, hlog⟩ :=
    run_both_applied H python hij hkeys
  have hj' := run_appended (i := j) hrun hj
  have hi' := run_appended (i := i) hj' ((Function.update_of_ne hij _ _).trans hi)
  refine ⟨_, _, hi', ?_⟩
  simp only [Reads, commit, MerkleLog.append, hlog]
  rfl

open Converter (plainPython)

theorem log_orders_writes_iff_john : ∃ trace u,
    Run (HandlerStep sha256 plainPython johnsWrites) (router .empty) trace u ∧
    ((∀ before s, before <+: trace →
        Run (HandlerStep sha256 plainPython johnsWrites) (router .empty) before s →
        OrderedAsStored plainPython s) ↔
      ∀ before label s, before ++ [label] <+: trace →
        Run (HandlerStep sha256 plainPython johnsWrites) (router .empty) before s →
        InTurn johnsWrites s label) := by
  obtain ⟨trace, s, hrun, -⟩ := run_swapped sha256 plainPython johnsWrites
    Bool.false_ne_true (by decide)
  exact ⟨trace, s, hrun, log_orders_writes_iff hrun⟩

/-- The second version of a record can be logged before the first. -/
theorem swapped_log_unordered : ¬ ∀ trace s,
    Run (HandlerStep sha256 plainPython johnsWrites) (router .empty) trace s →
    OrderedAsStored plainPython s := by
  intro h
  obtain ⟨trace, s, hrun, hreads⟩ := run_swapped sha256 plainPython johnsWrites
    Bool.false_ne_true (by decide)
  have hincreasing := (h trace s hrun).increasing _ hreads "john@hotmail.com"
  exact absurd hincreasing (by decide +kernel)

end BindingOrder
