import SmBridge.StoreRuns
import SmBridge.Lib.OrderedLog
import SmBridge.Lib.Workers

/-!
# A persistent store under concurrent calls

An addition takes its number under the lock of the memory and is written to the durable table
after that, outside the lock. A poll reads the table, and the memory only if the table has
nothing for it. Pollers move their cursor to the last delta that they get.
-/
namespace PersistentStore

open Store
open Gateway
open OrderedLog
open Runs
open Workers

/-- The memory of a `PersistentDeltaStore` and the table of its `_persist` and `_load_since`. -/
structure PersistentDeltaStore where
  memory : DeltaStore
  table : List SmAgentFactsDelta

namespace PersistentDeltaStore

def empty : PersistentDeltaStore := ⟨DeltaStore.empty, []⟩

/-- `super().add(action, agent)` -/
def append (store : PersistentDeltaStore) (action : Action) (agent : SmAgentFacts) :
    SmAgentFactsDelta × PersistentDeltaStore :=
  (⟨store.memory.seq + 1, action, agent⟩, { store with memory := store.memory.add action agent })

def persist (store : PersistentDeltaStore) (delta : SmAgentFactsDelta) : PersistentDeltaStore :=
  { store with table := store.table ++ [delta] }

def add (store : PersistentDeltaStore) (action : Action) (agent : SmAgentFacts) :
    PersistentDeltaStore :=
  let (delta, store) := store.append action agent
  store.persist delta

def loadSince (store : PersistentDeltaStore) (seq : ℤ) : List SmAgentFactsDelta :=
  (store.table.filter fun d => seq < d.seq).mergeSort fun a b => a.seq ≤ b.seq

def since (store : PersistentDeltaStore) (seq : ℤ) : List SmAgentFactsDelta :=
  let persisted := store.loadSince seq
  if persisted.isEmpty then store.memory.since seq else persisted

theorem mem_loadSince {store : PersistentDeltaStore} {seq : ℤ} {d : SmAgentFactsDelta} :
    d ∈ store.loadSince seq ↔ d ∈ store.table ∧ seq < d.seq := by
  rw [loadSince, (List.mergeSort_perm _ _).mem_iff, List.mem_filter, decide_eq_true_eq]

end PersistentDeltaStore

open PersistentDeltaStore

/-! ## Calls and their steps -/

/-- An answer to `since(after)`. -/
structure Answer where
  after : ℤ
  rows : List SmAgentFactsDelta

structure Poller where
  start : ℤ
  cursor : ℤ
  answers : List Answer

def Poller.take (poller : Poller) (rows : List SmAgentFactsDelta) : Poller :=
  { poller with
    cursor := advance SmAgentFactsDelta.seq poller.cursor rows
    answers := poller.answers ++ [⟨poller.cursor, rows⟩] }

inductive Phase where
  | adding (action : Action) (agent : SmAgentFacts)
  | appended (delta : SmAgentFactsDelta)
  | persisted (delta : SmAgentFactsDelta)
  | polling (poller : Poller)
  /-- `_load_since` has found nothing. -/
  | unanswered (poller : Poller)

inductive Act where
  | append
  | persist
  | load
  | fallBack

/-- The steps of `add` and of `since`, called by a poller with its cursor. -/
inductive Calls : Phase → PersistentDeltaStore → Act → Phase → PersistentDeltaStore → Prop
  | append {store : PersistentDeltaStore} {action : Action} {agent : SmAgentFacts} :
      Calls (.adding action agent) store .append (.appended (store.append action agent).1)
        (store.append action agent).2
  | persist {store : PersistentDeltaStore} {delta : SmAgentFactsDelta} :
      Calls (.appended delta) store .persist (.persisted delta) (store.persist delta)
  | load {store : PersistentDeltaStore} {poller : Poller}
      (hrows : store.loadSince poller.cursor ≠ []) :
      Calls (.polling poller) store .load
        (.polling (poller.take (store.loadSince poller.cursor))) store
  | loadNone {store : PersistentDeltaStore} {poller : Poller}
      (hrows : store.loadSince poller.cursor = []) :
      Calls (.polling poller) store .load (.unanswered poller) store
  | fallBack {store : PersistentDeltaStore} {poller : Poller} :
      Calls (.unanswered poller) store .fallBack
        (.polling (poller.take (store.memory.since poller.cursor))) store

/-- What a caller does: one addition, or polls from a cursor on. -/
inductive Role where
  | add (action : Action) (agent : SmAgentFacts)
  | poll (start : ℤ)

def Role.phase : Role → Phase
  | .add action agent => .adding action agent
  | .poll start => .polling ⟨start, start, []⟩

/-- Any number of callers, of which any may take the next step. -/
def CallStep {ι : Type*} [DecidableEq ι] :
    System ι Phase PersistentDeltaStore → ι × Act → System ι Phase PersistentDeltaStore → Prop :=
  Step fun _ => Calls

def initial {ι : Type*} (role : ι → Role) : System ι Phase PersistentDeltaStore :=
  ⟨fun i => (role i).phase, empty⟩

/-- Where no other call runs, the steps are those of the two methods. -/
theorem add_solo (store : PersistentDeltaStore) (action : Action) (agent : SmAgentFacts) :
    Run (Solo Calls) (.adding action agent, store) [.append, .persist]
      (.persisted (store.append action agent).1, store.add action agent) :=
  solo_concat (solo_concat Run.nil Calls.append) Calls.persist

theorem since_solo (store : PersistentDeltaStore) (poller : Poller) :
    ∃ acts, Run (Solo Calls) (.polling poller, store) acts
      (.polling (poller.take (store.since poller.cursor)), store) := by
  rw [since]
  by_cases hrows : store.loadSince poller.cursor = []
  · rw [if_pos (List.isEmpty_iff.mpr hrows)]
    exact ⟨_, solo_concat (solo_concat Run.nil (Calls.loadNone hrows)) Calls.fallBack⟩
  · rw [if_neg fun h => hrows (List.isEmpty_iff.mp h)]
    exact ⟨_, solo_concat Run.nil (Calls.load hrows)⟩

/-! ## What always holds -/

def Phase.delta? : Phase → Option SmAgentFactsDelta
  | .appended delta => some delta
  | .persisted delta => some delta
  | _ => none

def Phase.poller? : Phase → Option Poller
  | .polling poller => some poller
  | .unanswered poller => some poller
  | _ => none

structure Poller.Bounded (poller : Poller) (memory : DeltaStore) : Prop where
  rows : ∀ answer ∈ poller.answers, ∀ row ∈ answer.rows, row ∈ memory.deltas
  cursor : poller.cursor = poller.start ∨ poller.cursor ≤ memory.seq

variable {ι : Type*} [DecidableEq ι] {role : ι → Role}
  {s t : System ι Phase PersistentDeltaStore} {trace : List (ι × Act)} {i : ι} {act : Act}

/-- Callers and table only hold deltas of the log. -/
structure Valid (s : System ι Phase PersistentDeltaStore) : Prop where
  memory : Gateway.Invariant s.shared.memory
  table : ∀ d ∈ s.shared.table, d ∈ s.shared.memory.deltas
  deltas : ∀ i d, (s.phase i).delta? = some d → d ∈ s.shared.memory.deltas
  pollers : ∀ i poller, (s.phase i).poller? = some poller → poller.Bounded s.shared.memory

theorem Poller.Bounded.add {poller : Poller} {memory : DeltaStore} (h : poller.Bounded memory)
    (action : Action) (agent : SmAgentFacts) : poller.Bounded (memory.add action agent) where
  rows answer hanswer row hrow := List.mem_append_left _ (h.rows answer hanswer row hrow)
  cursor := by
    rw [DeltaStore.add_seq]
    rcases h.cursor with hcursor | hcursor
    · exact Or.inl hcursor
    · exact Or.inr (by omega)

theorem Poller.Bounded.take {poller : Poller} {memory : DeltaStore} (h : poller.Bounded memory)
    (hmemory : Gateway.Invariant memory) {rows : List SmAgentFactsDelta}
    (hrows : ∀ row ∈ rows, row ∈ memory.deltas) : (poller.take rows).Bounded memory where
  rows answer hanswer := by
    rcases List.mem_append.mp hanswer with hold | hnew
    · exact h.rows answer hold
    · rw [List.mem_singleton.mp hnew]
      exact hrows
  cursor := by
    rcases List.eq_nil_or_concat' rows with rfl | ⟨init, last, rfl⟩
    · exact h.cursor
    · refine Or.inr ?_
      rw [Poller.take, advance_concat]
      exact (hmemory.bounded last (hrows last (by simp))).2

theorem forall_of_eq_none {β : Type*} {o : Option β} {p : β → Prop} (h : o = none) :
    ∀ b, o = some b → p b := by
  intro b hb
  cases h.symm.trans hb

/-- In a step, one caller gets a new phase; the others keep theirs. -/
theorem forall_phase_update {β : Type*} {phase : ι → Phase} {x : Phase} {f : Phase → Option β}
    {p : β → Prop} (hothers : ∀ j b, f (phase j) = some b → p b) (hx : ∀ b, f x = some b → p b) :
    ∀ j b, f (Function.update phase i x j) = some b → p b := by
  intro j b
  by_cases hj : j = i
  · subst j
    rw [Function.update_self]
    exact hx b
  · rw [Function.update_of_ne hj]
    exact hothers j b

omit [DecidableEq ι] in
theorem initial_valid (role : ι → Role) : Valid (initial role) where
  memory := empty_invariant
  table _ hd := absurd hd List.not_mem_nil
  deltas i d h := by
    change (role i).phase.delta? = some d at h
    cases hrole : role i <;> rw [hrole] at h <;> cases h
  pollers i poller h := by
    change (role i).phase.poller? = some poller at h
    cases hrole : role i <;> rw [hrole] at h <;> cases h
    exact ⟨fun _ hanswer => absurd hanswer List.not_mem_nil, Or.inl rfl⟩

/-- A step is one of the labelled caller, in the phase that it is in. -/
theorem of_callStep (h : CallStep s (i, act) t) : ∃ y x store, s.phase i = y ∧
    Calls y s.shared act x store ∧ t = ⟨Function.update s.phase i x, store⟩ := by
  obtain ⟨x, hcall, hphase⟩ := h
  exact ⟨_, x, t.shared, rfl, hcall, congrArg (System.mk · t.shared) hphase⟩

theorem callStep_of {y x : Phase} {store : PersistentDeltaStore} (hphase : s.phase i = y)
    (h : Calls y s.shared act x store) :
    CallStep s (i, act) ⟨Function.update s.phase i x, store⟩ :=
  ⟨x, hphase ▸ h, rfl⟩

theorem step_valid (h : Valid s) (hstep : CallStep s (i, act) t) : Valid t := by
  obtain ⟨y, x, store, hphase, hcall, rfl⟩ := of_callStep hstep
  cases hcall with
  | @append _ action agent =>
    exact {
      memory := add_preserves_invariant h.memory action agent
      table := fun d hd => List.mem_append_left _ (h.table d hd)
      deltas := by
        refine forall_phase_update (fun j d hd => List.mem_append_left _ (h.deltas j d hd)) ?_
        intro d hd
        obtain rfl := Option.some.inj hd
        exact List.mem_append_right _ (List.mem_singleton_self _)
      pollers := forall_phase_update
        (fun j poller hpoller => (h.pollers j poller hpoller).add action agent)
        (forall_of_eq_none rfl) }
  | @persist _ delta =>
    have hdelta := h.deltas i delta (by rw [hphase]; rfl)
    exact {
      memory := h.memory
      table := by
        intro d hd
        rcases List.mem_append.mp hd with hd | hd
        · exact h.table d hd
        · exact List.mem_singleton.mp hd ▸ hdelta
      deltas := by
        refine forall_phase_update h.deltas ?_
        intro d hd
        exact Option.some.inj hd ▸ hdelta
      pollers := forall_phase_update h.pollers (forall_of_eq_none rfl) }
  | @load _ poller hrows =>
    have hpoller := h.pollers i poller (by rw [hphase]; rfl)
    refine ⟨h.memory, h.table, forall_phase_update h.deltas (forall_of_eq_none rfl),
      forall_phase_update h.pollers ?_⟩
    intro next hnext
    obtain rfl := Option.some.inj hnext
    exact hpoller.take h.memory fun row hrow => h.table row (mem_loadSince.mp hrow).1
  | @loadNone _ poller hrows =>
    refine ⟨h.memory, h.table, forall_phase_update h.deltas (forall_of_eq_none rfl),
      forall_phase_update h.pollers ?_⟩
    intro next hnext
    obtain rfl := Option.some.inj hnext
    exact h.pollers i poller (by rw [hphase]; rfl)
  | @fallBack _ poller =>
    have hpoller := h.pollers i poller (by rw [hphase]; rfl)
    refine ⟨h.memory, h.table, forall_phase_update h.deltas (forall_of_eq_none rfl),
      forall_phase_update h.pollers ?_⟩
    intro next hnext
    obtain rfl := Option.some.inj hnext
    exact hpoller.take h.memory fun row hrow => (List.mem_filter.mp hrow).1

theorem run_valid (h : Run CallStep (initial role) trace s) : Valid s :=
  h.invariant (initial_valid role) fun _ _ _ => step_valid

/-! ## Deltas that are skipped -/

/-- No answer skips a delta, and nothing up to the cursor is missing. -/
structure Poller.Complete (poller : Poller) (log : List SmAgentFactsDelta) : Prop where
  gapless : ∀ answer ∈ poller.answers, ∀ row ∈ answer.rows, ∀ d ∈ log,
    answer.after < d.seq → d.seq ≤ row.seq → d ∈ answer.rows
  received : ∀ d ∈ log, poller.start < d.seq → d.seq ≤ poller.cursor →
    ∃ answer ∈ poller.answers, d ∈ answer.rows

def NoneSkipped (s : System ι Phase PersistentDeltaStore) : Prop :=
  ∀ i poller, (s.phase i).poller? = some poller → poller.Complete s.shared.memory.deltas

/-- If the step reads the table and finds rows there, the table holds all deltas from the cursor
up to them. -/
def Covered (s : System ι Phase PersistentDeltaStore) (label : ι × Act) : Prop :=
  ∀ poller, s.phase label.1 = .polling poller → label.2 = .load →
    ∀ row ∈ s.shared.loadSince poller.cursor, ∀ d ∈ s.shared.memory.deltas,
      poller.cursor < d.seq → d.seq ≤ row.seq → d ∈ s.shared.table

/-- A new delta has a number above all that have been answered. -/
theorem Poller.Complete.add {poller : Poller} {memory : DeltaStore}
    (h : poller.Complete memory.deltas) (hbounded : poller.Bounded memory)
    (hmemory : Gateway.Invariant memory) (action : Action) (agent : SmAgentFacts) :
    poller.Complete (memory.add action agent).deltas where
  gapless answer hanswer row hrow d hd hafter hle := by
    rcases List.mem_append.mp hd with hd | hd
    · exact h.gapless answer hanswer row hrow d hd hafter hle
    · have hrow := (hmemory.bounded row (hbounded.rows answer hanswer row hrow)).2
      rw [List.mem_singleton.mp hd] at hle
      change memory.seq + 1 ≤ row.seq at hle
      omega
  received d hd hstart hcursor := by
    rcases List.mem_append.mp hd with hd | hd
    · exact h.received d hd hstart hcursor
    · rw [List.mem_singleton.mp hd] at hstart hcursor
      change poller.start < memory.seq + 1 at hstart
      change memory.seq + 1 ≤ poller.cursor at hcursor
      rcases hbounded.cursor with heq | hle <;> omega

theorem Poller.complete_take {poller : Poller} {log rows : List SmAgentFactsDelta}
    (h : poller.Complete log) :
    (poller.take rows).Complete log ↔
      ∀ row ∈ rows, ∀ d ∈ log, poller.cursor < d.seq → d.seq ≤ row.seq → d ∈ rows := by
  constructor
  · intro hnext
    exact hnext.gapless ⟨poller.cursor, rows⟩
      (List.mem_append_right _ (List.mem_singleton_self _))
  · intro hrows
    refine ⟨fun answer hanswer => ?_, fun d hd hstart hle => ?_⟩
    · rcases List.mem_append.mp hanswer with hold | hnew
      · exact h.gapless answer hold
      · rw [List.mem_singleton.mp hnew]
        exact hrows
    · by_cases hold : d.seq ≤ poller.cursor
      · obtain ⟨answer, hanswer, hmem⟩ := h.received d hd hstart hold
        exact ⟨answer, List.mem_append_left _ hanswer, hmem⟩
      · rcases List.eq_nil_or_concat' rows with rfl | ⟨init, last, rfl⟩
        · exact absurd hle hold
        · rw [Poller.take, advance_concat] at hle
          exact ⟨_, List.mem_append_right _ (List.mem_singleton_self _),
            hrows last (by simp) d hd (not_le.mp hold) hle⟩

omit [DecidableEq ι] in
theorem initial_noneSkipped (role : ι → Role) : NoneSkipped (initial role) :=
  fun _ _ _ =>
    ⟨fun _ _ _ _ _ hd => absurd hd List.not_mem_nil, fun _ hd => absurd hd List.not_mem_nil⟩

/-- Where only the labelled caller's poller changes, it decides. -/
theorem noneSkipped_update (h : NoneSkipped s) {x : Phase} {store : PersistentDeltaStore}
    (hmemory : store.memory = s.shared.memory) :
    NoneSkipped ⟨Function.update s.phase i x, store⟩ ↔
      ∀ poller, x.poller? = some poller → poller.Complete s.shared.memory.deltas := by
  rw [NoneSkipped, hmemory]
  constructor
  · intro hnext poller hpoller
    exact hnext i poller ((congrArg Phase.poller? (Function.update_self i x s.phase)).trans hpoller)
  · exact forall_phase_update h

theorem noneSkipped_step (hvalid : Valid s) (h : NoneSkipped s)
    (hstep : CallStep s (i, act) t) : NoneSkipped t ↔ Covered s (i, act) := by
  obtain ⟨y, x, store, hphase, hcall, rfl⟩ := of_callStep hstep
  cases hcall with
  | @append _ action agent =>
    refine iff_of_true ?_ ?_
    · exact forall_phase_update (fun j poller hpoller =>
        (h j poller hpoller).add (hvalid.pollers j poller hpoller) hvalid.memory action agent)
        (forall_of_eq_none rfl)
    · intro poller hpolling
      cases hphase.symm.trans hpolling
  | @persist _ delta =>
    refine (noneSkipped_update h rfl).trans (iff_of_true (forall_of_eq_none rfl) ?_)
    intro poller hpolling
    cases hphase.symm.trans hpolling
  | @load _ poller hrows =>
    have hcomplete := h i poller (by rw [hphase]; rfl)
    rw [noneSkipped_update h rfl]
    constructor
    · intro hnext p hpolling _ row hrow d hd hcursor hle
      obtain rfl : poller = p := Phase.polling.inj (hphase.symm.trans hpolling)
      have hmem := (Poller.complete_take hcomplete).mp (hnext _ rfl) row hrow d hd hcursor hle
      exact (mem_loadSince.mp hmem).1
    · intro hcovered next hnext
      obtain rfl := Option.some.inj hnext
      refine (Poller.complete_take hcomplete).mpr fun row hrow d hd hcursor hle => ?_
      exact mem_loadSince.mpr ⟨hcovered poller hphase rfl row hrow d hd hcursor hle, hcursor⟩
  | @loadNone _ poller hrows =>
    rw [noneSkipped_update h rfl]
    refine iff_of_true ?_ ?_
    · intro next hnext
      obtain rfl := Option.some.inj hnext
      exact h i poller (by rw [hphase]; rfl)
    · intro p hpolling _ row hrow
      obtain rfl : poller = p := Phase.polling.inj (hphase.symm.trans hpolling)
      rw [hrows] at hrow
      exact absurd hrow List.not_mem_nil
  | @fallBack _ poller =>
    have hcomplete := h i poller (by rw [hphase]; rfl)
    rw [noneSkipped_update h rfl]
    refine iff_of_true ?_ ?_
    · intro next hnext
      obtain rfl := Option.some.inj hnext
      refine (Poller.complete_take hcomplete).mpr fun row hrow d hd hcursor hle => ?_
      exact List.mem_filter.mpr ⟨hd, decide_eq_true hcursor⟩
    · intro p hpolling
      cases hphase.symm.trans hpolling

theorem callStep_unique {label : ι × Act} {u v : System ι Phase PersistentDeltaStore}
    (h : CallStep s label u) (h' : CallStep s label v) : u = v := by
  obtain ⟨i, act⟩ := label
  obtain ⟨y, x, store, hphase, hcall, rfl⟩ := of_callStep h
  obtain ⟨y', x', store', hphase', hcall', rfl⟩ := of_callStep h'
  obtain rfl : y = y' := hphase.symm.trans hphase'
  cases hcall with
  | append =>
    cases hcall'
    rfl
  | persist =>
    cases hcall'
    rfl
  | load hrows =>
    cases hcall' with
    | load => rfl
    | loadNone hnone => exact absurd hnone hrows
  | loadNone hnone =>
    cases hcall' with
    | load hrows => exact absurd hnone hrows
    | loadNone => rfl
  | fallBack =>
    cases hcall'
    rfl

/-- In a run, no delta is ever skipped exactly if the table covers the rows of every poll. -/
theorem none_skipped_iff (h : Run CallStep (initial role) trace t) :
    (∀ before s, before <+: trace → Run CallStep (initial role) before s → NoneSkipped s) ↔
      ∀ before label s, before ++ [label] <+: trace → Run CallStep (initial role) before s →
        Covered s label := by
  have hstart : Valid (initial role) ∧ NoneSkipped (initial role) :=
    ⟨initial_valid role, initial_noneSkipped role⟩
  have hstep : ∀ s label t, Valid s ∧ NoneSkipped s → CallStep s label t →
      (Valid t ∧ NoneSkipped t ↔ Covered (ι := ι) s label) := by
    intro s label t ⟨hvalid, hnone⟩ hstep
    rw [and_iff_right (step_valid hvalid hstep)]
    exact noneSkipped_step hvalid hnone hstep
  refine Iff.trans ?_ (h.along_iff (fun _ _ _ _ => callStep_unique) hstart hstep)
  constructor
  · intro hall before s hbefore hs
    exact ⟨run_valid hs, hall before s hbefore hs⟩
  · intro hall before s hbefore hs
    exact (hall before s hbefore hs).2

/-! ## Additions that are persisted in order -/

/-- If the step writes a delta to the table, all smaller numbers are there. -/
def InOrder (s : System ι Phase PersistentDeltaStore) (label : ι × Act) : Prop :=
  ∀ delta, s.phase label.1 = .appended delta → label.2 = .persist →
    ∀ d ∈ s.shared.memory.deltas, d.seq < delta.seq → d ∈ s.shared.table

def Closed (store : PersistentDeltaStore) : Prop :=
  ∀ row ∈ store.table, ∀ d ∈ store.memory.deltas, d.seq ≤ row.seq → d ∈ store.table

theorem closed_step (hvalid : Valid s) (h : Closed s.shared) (horder : InOrder s (i, act))
    (hstep : CallStep s (i, act) t) : Closed t.shared := by
  obtain ⟨y, x, store, hphase, hcall, rfl⟩ := of_callStep hstep
  cases hcall with
  | @append _ action agent =>
    intro row hrow d hd hle
    rcases List.mem_append.mp hd with hd | hd
    · exact h row hrow d hd hle
    · have hbound := (hvalid.memory.bounded row (hvalid.table row hrow)).2
      rw [List.mem_singleton.mp hd] at hle
      change s.shared.memory.seq + 1 ≤ row.seq at hle
      omega
  | @persist _ delta =>
    have hdelta := hvalid.deltas i delta (by rw [hphase]; rfl)
    intro row hrow d hd hle
    rcases List.mem_append.mp hrow with hrow | hrow
    · exact List.mem_append_left _ (h row hrow d hd hle)
    · rw [List.mem_singleton.mp hrow] at hle
      rcases hle.lt_or_eq with hlt | heq
      · exact List.mem_append_left _ (horder delta hphase rfl d hd hlt)
      · rw [seq_injective hvalid.memory hd hdelta heq]
        exact List.mem_append_right _ (List.mem_singleton_self _)
  | load => exact h
  | loadNone => exact h
  | fallBack => exact h

omit [DecidableEq ι] in
theorem covered_of_closed (h : Closed s.shared) (label : ι × Act) : Covered s label :=
  fun _ _ _ row hrow d hd _ hle => h row (mem_loadSince.mp hrow).1 d hd hle

/-- Additions that reach the table in the order of their numbers are never skipped. -/
theorem noneSkipped_of_inOrder
    (h : Run (fun s label t => CallStep s label t ∧ InOrder s label) (initial role) trace t) :
    NoneSkipped t := by
  have hstart : Valid (initial role) ∧ Closed (initial role).shared ∧ NoneSkipped (initial role) :=
    ⟨initial_valid role, fun _ hd => absurd hd List.not_mem_nil, initial_noneSkipped role⟩
  refine (h.invariant (P := fun s => Valid s ∧ Closed s.shared ∧ NoneSkipped s) hstart ?_).2.2
  intro s label t ⟨hvalid, hclosed, hnone⟩ ⟨hstep, horder⟩
  exact ⟨step_valid hvalid hstep, closed_step hvalid hclosed horder hstep,
    (noneSkipped_step hvalid hnone hstep).mpr (covered_of_closed hclosed label)⟩

/-! ## The order of the additions -/

def Act.appends : Act → Bool
  | .append => true
  | _ => false

def Act.persists : Act → Bool
  | .persist => true
  | _ => false

/-- The memory has the deltas of those who have appended, in that order, and the table the deltas
of those who have persisted. -/
structure Recorded (trace : List (ι × Act)) (s : System ι Phase PersistentDeltaStore) : Prop where
  memory : (workersOf Act.appends trace).map (fun i => (s.phase i).delta?) =
    s.shared.memory.deltas.map some
  table : (workersOf Act.persists trace).map (fun i => (s.phase i).delta?) =
    s.shared.table.map some

omit [DecidableEq ι] in
/-- A delta comes to the memory, then to the table, and otherwise nothing is written. -/
theorem Calls.deltas {y x : Phase} {store store' : PersistentDeltaStore}
    (h : Calls y store act x store') :
    (act.appends = true ∧ act.persists = false ∧ y.delta? = none ∧
      ∃ d, x.delta? = some d ∧ store'.memory.deltas = store.memory.deltas ++ [d] ∧
        store'.table = store.table) ∨
    (act.appends = false ∧ act.persists = true ∧
      ∃ d, y.delta? = some d ∧ x.delta? = some d ∧
        store'.memory.deltas = store.memory.deltas ∧ store'.table = store.table ++ [d]) ∨
    (act.appends = false ∧ act.persists = false ∧ x.delta? = y.delta? ∧
      store'.memory.deltas = store.memory.deltas ∧ store'.table = store.table) := by
  cases h with
  | append => exact Or.inl ⟨rfl, rfl, rfl, _, rfl, rfl, rfl⟩
  | persist => exact Or.inr (Or.inl ⟨rfl, rfl, _, rfl, rfl, rfl, rfl⟩)
  | _ => exact Or.inr (Or.inr ⟨rfl, rfl, rfl, rfl, rfl⟩)

theorem map_delta_update {order : List ι} {x : Phase}
    (hx : i ∈ order → x.delta? = (s.phase i).delta?) :
    order.map (fun j => (Function.update s.phase i x j).delta?) =
      order.map fun j => (s.phase j).delta? := by
  refine List.map_congr_left fun j hj => ?_
  by_cases hji : j = i
  · subst j
    rw [Function.update_self, hx hj]
  · rw [Function.update_of_ne hji]

omit [DecidableEq ι] in
/-- Who has a place in one of the two orders has a delta. -/
theorem delta_ne_none {order : List ι} {deltas : List SmAgentFactsDelta}
    (h : order.map (fun i => (s.phase i).delta?) = deltas.map some) (hi : i ∈ order) :
    (s.phase i).delta? ≠ none := by
  intro hnone
  have hmem : (s.phase i).delta? ∈ deltas.map some := h ▸ List.mem_map_of_mem hi
  obtain ⟨d, -, hd⟩ := List.mem_map.mp hmem
  cases hd.trans hnone

theorem recorded_step (h : Recorded trace s) (hstep : CallStep s (i, act) t) :
    Recorded (trace ++ [(i, act)]) t := by
  obtain ⟨y, x, store, rfl, hcall, rfl⟩ := of_callStep hstep
  rcases hcall.deltas with ⟨happends, hpersists, hnone, d, hx, hmemory, htable⟩ |
    ⟨happends, hpersists, d, hy, hx, hmemory, htable⟩ |
    ⟨happends, hpersists, hx, hmemory, htable⟩
  · have hself : (Function.update s.phase i x i).delta? = some d := by rw [Function.update_self, hx]
    have hmap : ∀ (order : List ι) (deltas : List SmAgentFactsDelta),
        order.map (fun j => (s.phase j).delta?) = deltas.map some →
          order.map (fun j => (Function.update s.phase i x j).delta?) = deltas.map some := by
      intro order deltas hdeltas
      rw [map_delta_update fun hi => absurd hnone (delta_ne_none hdeltas hi), hdeltas]
    constructor <;> dsimp only
    · rw [workersOf_concat, if_pos happends, List.map_append, hmap _ _ h.memory, hmemory,
        List.map_append, List.map_singleton, List.map_singleton, hself]
    · rw [workersOf_concat, hpersists, if_neg Bool.false_ne_true, hmap _ _ h.table, htable]
  · have hself : (Function.update s.phase i x i).delta? = some d := by rw [Function.update_self, hx]
    have hmap : ∀ order : List ι, order.map (fun j => (Function.update s.phase i x j).delta?) =
        order.map fun j => (s.phase j).delta? :=
      fun order => map_delta_update fun _ => hx.trans hy.symm
    constructor <;> dsimp only
    · rw [workersOf_concat, happends, if_neg Bool.false_ne_true, hmap, h.memory, hmemory]
    · rw [workersOf_concat, if_pos hpersists, List.map_append, hmap, h.table, htable,
        List.map_append, List.map_singleton, List.map_singleton, hself]
  · have hmap : ∀ order : List ι, order.map (fun j => (Function.update s.phase i x j).delta?) =
        order.map fun j => (s.phase j).delta? :=
      fun order => map_delta_update fun _ => hx
    constructor <;> dsimp only
    · rw [workersOf_concat, happends, if_neg Bool.false_ne_true, hmap, h.memory, hmemory]
    · rw [workersOf_concat, hpersists, if_neg Bool.false_ne_true, hmap, h.table, htable]

theorem run_recorded (h : Run CallStep (initial role) trace s) : Recorded trace s := by
  induction h with
  | nil => exact ⟨rfl, rfl⟩
  | concat _ hlast ih => exact recorded_step ih hlast

/-- A table that is a front part of the log has no gaps. -/
theorem closed_of_front {store : PersistentDeltaStore} (hmemory : Gateway.Invariant store.memory)
    (h : store.table <+: store.memory.deltas) : Closed store := by
  obtain ⟨rest, hrest⟩ := h
  have hincreasing := hmemory.increasing
  rw [← hrest, List.pairwise_append] at hincreasing
  intro row hrow d hd hle
  rw [← hrest] at hd
  exact (List.mem_append.mp hd).resolve_right fun hd =>
    absurd (hincreasing.2.2 row hrow d hd) (not_lt.mpr hle)

/-- Whoever persists has appended, so the order of a shorter trace is a front part as well. -/
theorem persists_prefix (h : Run CallStep (initial role) trace s) (hstep : CallStep s (i, act) t)
    (horder : workersOf Act.persists (trace ++ [(i, act)]) <+:
      workersOf Act.appends (trace ++ [(i, act)])) :
    workersOf Act.persists trace <+: workersOf Act.appends trace := by
  obtain ⟨y, x, store, rfl, hcall, rfl⟩ := of_callStep hstep
  rw [workersOf_concat, workersOf_concat] at horder
  rcases hcall.deltas with ⟨happends, hpersists, hnone, -⟩ | ⟨happends, hpersists, -⟩ |
    ⟨happends, hpersists, -⟩
  · rw [happends, hpersists, if_neg Bool.false_ne_true, if_pos rfl, List.prefix_concat_iff]
      at horder
    refine horder.resolve_left fun heq => ?_
    have hi : i ∈ workersOf Act.persists trace :=
      heq ▸ List.mem_append_right _ (List.mem_singleton_self i)
    exact delta_ne_none (run_recorded h).table hi hnone
  · rw [happends, hpersists, if_pos rfl, if_neg Bool.false_ne_true] at horder
    exact (List.prefix_append _ _).trans horder
  · rw [happends, hpersists, if_neg Bool.false_ne_true, if_neg Bool.false_ne_true] at horder
    exact horder

/-- No delta is skipped where the additions reach the table in the order in which they got their
numbers. -/
theorem noneSkipped_of_schedule (h : Run CallStep (initial role) trace s)
    (horder : workersOf Act.persists trace <+: workersOf Act.appends trace) : NoneSkipped s := by
  induction h with
  | nil => exact initial_noneSkipped role
  | @concat trace s t label hrun hlast ih =>
    obtain ⟨i, act⟩ := label
    have hbefore := persists_prefix hrun hlast horder
    have hrecorded := run_recorded hrun
    have htable : s.shared.table <+: s.shared.memory.deltas := by
      rw [← List.prefix_map_iff_of_injective (Option.some_injective _), ← hrecorded.memory,
        ← hrecorded.table]
      exact hbefore.map _
    have hvalid := run_valid hrun
    exact (noneSkipped_step hvalid (ih hbefore) hlast).mpr
      (covered_of_closed (closed_of_front hvalid.memory htable) _)

/-! ## Two writers and a poller -/

theorem no_field_named : ∀ field ∈ ([] : List (String × JsonValue.Json)), field.1 ∉ namedFields :=
  List.forall_mem_nil _

def firstAgent : SmAgentFacts := ⟨"first", none, none, [], no_field_named⟩

def secondAgent : SmAgentFacts := ⟨"second", none, none, [], no_field_named⟩

def callers : Fin 3 → Role
  | 0 => .add .upsert firstAgent
  | 1 => .add .upsert secondAgent
  | 2 => .poll 0

/-- The second writer reaches the table first, and the poller passes the first writer's delta,
which becomes durable behind its cursor. -/
theorem run_overtaken : ∃ trace s poller, Run CallStep (initial callers) trace s ∧
    s.phase 2 = .polling poller ∧ poller.cursor = 2 ∧
    poller.answers = [⟨0, [⟨2, .upsert, secondAgent⟩]⟩] ∧
    s.shared.memory.deltas = [⟨1, .upsert, firstAgent⟩, ⟨2, .upsert, secondAgent⟩] ∧
    s.shared.table = [⟨2, .upsert, secondAgent⟩, ⟨1, .upsert, firstAgent⟩] := by
  let store : PersistentDeltaStore :=
    ⟨storeOf [(.upsert, firstAgent), (.upsert, secondAgent)], [⟨2, .upsert, secondAgent⟩]⟩
  have hload : store.loadSince 0 = [⟨2, .upsert, secondAgent⟩] := by simp [store, loadSince]
  have hrows : store.loadSince 0 ≠ [] := hload ▸ List.cons_ne_nil _ _
  have hfirst := Run.nil.concat (callStep_of (s := initial callers) (i := 0) rfl Calls.append)
  have hsecond := hfirst.concat (callStep_of (i := 1) rfl Calls.append)
  have hpersisted := hsecond.concat (callStep_of (i := 1) rfl Calls.persist)
  have hloaded := hpersisted.concat (callStep_of (i := 2) rfl (@Calls.load _ ⟨0, 0, []⟩ hrows))
  have hlate := hloaded.concat (callStep_of (i := 0) rfl Calls.persist)
  exact ⟨_, _, _, hlate, rfl, congrArg (advance SmAgentFactsDelta.seq 0) hload,
    congrArg (fun rows => [(⟨0, rows⟩ : Answer)]) hload, rfl, rfl⟩

/-- A run can skip a delta. -/
theorem overtaken_delta_skipped : ¬ ∀ trace s, Run CallStep (initial callers) trace s →
    NoneSkipped s := by
  intro h
  obtain ⟨trace, s, poller, hrun, hphase, hcursor, hanswers, hdeltas, -⟩ := run_overtaken
  have hcomplete := h trace s hrun 2 poller (by rw [hphase]; rfl)
  rw [hdeltas] at hcomplete
  have hmem := hcomplete.gapless _ (hanswers ▸ List.mem_singleton_self _) _
    (List.mem_singleton_self _) _ List.mem_cons_self (by decide) (by decide)
  have hseq := congrArg SmAgentFactsDelta.seq (List.mem_singleton.mp hmem)
  revert hseq
  decide

theorem none_skipped_iff_callers : ∃ trace t, Run CallStep (initial callers) trace t ∧
    ((∀ before s, before <+: trace → Run CallStep (initial callers) before s → NoneSkipped s) ↔
      ∀ before label s, before ++ [label] <+: trace → Run CallStep (initial callers) before s →
        Covered s label) := by
  obtain ⟨trace, t, -, hrun, -⟩ := run_overtaken
  exact ⟨trace, t, hrun, none_skipped_iff hrun⟩

end PersistentStore
