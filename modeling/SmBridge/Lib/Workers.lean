import SmBridge.Lib.Runs
import Mathlib.Data.Set.Card
import Mathlib.Logic.Function.Basic

/-!
# Workers over a shared state

Any number of workers take steps in any order. Each has a phase of its own, and a step reads
and writes the shared state. What one worker does in a run is a run of that worker alone.
-/
namespace Workers

open Runs

structure System (ι π γ : Type*) where
  phase : ι → π
  shared : γ

section Definitions

variable {ι π γ α : Type*} [DecidableEq ι]

/-- One step of the labelled worker, and of no other. -/
def Step (worker : ι → π → γ → α → π → γ → Prop) (s : System ι π γ) (label : ι × α)
    (t : System ι π γ) : Prop :=
  ∃ phase, worker label.1 (s.phase label.1) s.shared label.2 phase t.shared ∧
    t.phase = Function.update s.phase label.1 phase

/-- All workers are in their first phase. -/
def started (start : π) (shared : γ) : System ι π γ := ⟨fun _ => start, shared⟩

def actionsOf (i : ι) (trace : List (ι × α)) : List α :=
  trace.filterMap fun label => if label.1 = i then some label.2 else none

/-- The workers that take such a step, in the order of the trace. -/
def workersOf (p : α → Bool) (trace : List (ι × α)) : List ι :=
  (trace.filter fun label => p label.2).map Prod.fst

/-- A step of a worker, whatever the shared state is. -/
def Alone (worker : π → γ → α → π → γ → Prop) (phase : π) (action : α) (phase' : π) : Prop :=
  ∃ shared shared', worker phase shared action phase' shared'

/-- A step of a worker that has the shared state to itself. -/
def Solo (worker : π → γ → α → π → γ → Prop) (s : π × γ) (action : α) (t : π × γ) : Prop :=
  worker s.1 s.2 action t.1 t.2

/-- The workers whose phase has a property. -/
def those (p : π → Prop) (phase : ι → π) : Set ι := {i | p (phase i)}

end Definitions

variable {ι π γ α : Type*} [DecidableEq ι] {worker : ι → π → γ → α → π → γ → Prop}
  {start : π} {shared : γ} {trace : List (ι × α)} {s t : System ι π γ} {i : ι} {action : α}

theorem mem_actionsOf : action ∈ actionsOf i trace ↔ (i, action) ∈ trace := by
  rw [actionsOf, List.mem_filterMap]
  constructor
  · rintro ⟨⟨j, a⟩, hmem, heq⟩
    split at heq
    · obtain rfl := Option.some.inj heq
      obtain rfl : j = i := ‹_›
      exact hmem
    · cases heq
  · intro h
    exact ⟨(i, action), h, if_pos rfl⟩

@[simp] theorem actionsOf_concat_self (trace : List (ι × α)) (i : ι) (action : α) :
    actionsOf i (trace ++ [(i, action)]) = actionsOf i trace ++ [action] := by
  simp [actionsOf]

theorem actionsOf_concat_of_ne {j : ι} (h : j ≠ i) (trace : List (ι × α)) (action : α) :
    actionsOf i (trace ++ [(j, action)]) = actionsOf i trace := by
  simp [actionsOf, h]

omit [DecidableEq ι] in
theorem workersOf_concat (p : α → Bool) (trace : List (ι × α)) (i : ι) (action : α) :
    workersOf p (trace ++ [(i, action)]) =
      if p action then workersOf p trace ++ [i] else workersOf p trace := by
  cases hp : p action <;> simp [workersOf, hp]

theorem run_actionsOf (h : Run (Step worker) (started start shared) trace s) (i : ι) :
    Run (Alone (worker i)) start (actionsOf i trace) (s.phase i) := by
  induction h with
  | nil => exact Run.nil
  | @concat trace s t label _ hlast ih =>
    obtain ⟨j, action⟩ := label
    obtain ⟨phase, hworker, hphase⟩ := hlast
    rw [hphase]
    by_cases hj : j = i
    · subst j
      rw [actionsOf_concat_self, Function.update_self]
      exact ih.concat ⟨_, _, hworker⟩
    · rw [actionsOf_concat_of_ne hj, Function.update_of_ne (Ne.symm hj)]
      exact ih

theorem solo_concat {step : π → γ → α → π → γ → Prop} {x : π × γ} {actions : List α}
    {phase phase' : π} {shared shared' : γ} (h : Run (Solo step) x actions (phase, shared))
    (hlast : step phase shared action phase' shared') :
    Run (Solo step) x (actions ++ [action]) (phase', shared') :=
  h.concat hlast

/-- What a worker does alone, it can do while the others wait. -/
theorem run_of_solo {actions : List α} {x : π × γ}
    (h : Run (Solo (worker i)) (s.phase i, s.shared) actions x) :
    Run (Step worker) s (actions.map (Prod.mk i)) ⟨Function.update s.phase i x.1, x.2⟩ := by
  induction h with
  | nil =>
    rw [Function.update_eq_self]
    exact Run.nil
  | @concat actions x y action _ hlast ih =>
    rw [List.map_append]
    refine ih.concat ⟨y.1, ?_, ?_⟩
    · change worker i (Function.update s.phase i x.1 i) x.2 action y.1 y.2
      rw [Function.update_self]
      exact hlast
    · exact (Function.update_idem _ _ _).symm

section Counting

variable {p : π → Prop} {phase : ι → π} {x : π}

theorem mem_those_update {j : ι} :
    j ∈ those p (Function.update phase i x) ↔ if j = i then p x else j ∈ those p phase := by
  change p (Function.update phase i x j) ↔ if j = i then p x else p (phase j)
  by_cases hj : j = i
  · subst j
    rw [Function.update_self, if_pos rfl]
  · rw [Function.update_of_ne hj, if_neg hj]

theorem those_stay (h : p x ↔ p (phase i)) :
    those p (Function.update phase i x) = those p phase := by
  ext j
  rw [mem_those_update]
  split
  · subst j
    exact h
  · rfl

theorem encard_enter (hold : ¬ p (phase i)) (hnew : p x) :
    (those p (Function.update phase i x)).encard = (those p phase).encard + 1 := by
  have hinsert : those p (Function.update phase i x) = insert i (those p phase) := by
    ext j
    rw [mem_those_update, Set.mem_insert_iff]
    by_cases hj : j = i <;> simp [hj, hnew]
  have hnot : i ∉ those p phase := hold
  rw [hinsert, Set.encard_insert_of_notMem hnot]

theorem encard_leave (hold : p (phase i)) (hnew : ¬ p x) :
    (those p (Function.update phase i x)).encard + 1 = (those p phase).encard := by
  have hback : Function.update (Function.update phase i x) i (phase i) = phase := by
    rw [Function.update_idem, Function.update_eq_self]
  have hupdated : ¬ p (Function.update phase i x i) := by rwa [Function.update_self]
  have henter := encard_enter hupdated hold
  rw [hback] at henter
  exact henter.symm

end Counting

end Workers
