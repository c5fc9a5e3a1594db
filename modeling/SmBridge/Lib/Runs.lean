import Mathlib.Data.List.Infix

/-!
# Runs of a labelled transition system

A run is a sequence of labels with the state that its steps lead to. Invariants are shown for
one step and hold along every run.
-/
namespace Runs

section Definitions

variable {σ α : Type*} (step : σ → α → σ → Prop) (start : σ)

/-- The labels of a run and a state that it can end in. -/
inductive Run : List α → σ → Prop
  | nil : Run [] start
  | concat {trace : List α} {s t : σ} {label : α} :
      Run trace s → step s label t → Run (trace ++ [label]) t

end Definitions

variable {σ α : Type*} {step step' : σ → α → σ → Prop} {start s t : σ} {trace : List α}

theorem Run.invariant {P : σ → Prop} (hstart : P start)
    (hstep : ∀ s label t, P s → step s label t → P t) (h : Run step start trace s) : P s := by
  induction h with
  | nil => exact hstart
  | concat _ hlast ih => exact hstep _ _ _ ih hlast

theorem Run.mono (himp : ∀ s label t, step s label t → step' s label t)
    (h : Run step start trace s) : Run step' start trace s := by
  induction h with
  | nil => exact Run.nil
  | concat _ hlast ih => exact Run.concat ih (himp _ _ _ hlast)

theorem run_nil : Run step start [] s ↔ s = start := by
  constructor
  · intro h
    generalize htrace : ([] : List α) = trace at h
    cases h with
    | nil => rfl
    | concat => simp at htrace
  · intro h
    subst s
    exact Run.nil

theorem run_concat {label : α} :
    Run step start (trace ++ [label]) t ↔ ∃ s, Run step start trace s ∧ step s label t := by
  constructor
  · intro h
    generalize htrace : trace ++ [label] = labels at h
    cases h with
    | nil => simp at htrace
    | concat hrun hlast =>
      obtain ⟨rfl, hlabel⟩ := List.append_inj' htrace rfl
      obtain rfl := List.singleton_inj.mp hlabel
      exact ⟨_, hrun, hlast⟩
  · intro h
    obtain ⟨s, hrun, hlast⟩ := h
    exact hrun.concat hlast

theorem Run.append {trace' : List α} (h : Run step start trace s) (h' : Run step s trace' t) :
    Run step start (trace ++ trace') t := by
  induction h' with
  | nil => rwa [List.append_nil]
  | concat _ hlast ih =>
    rw [← List.append_assoc]
    exact ih.concat hlast

theorem Run.of_prefix {before : List α} (hbefore : before <+: trace)
    (h : Run step start trace t) : ∃ s, Run step start before s := by
  induction h with
  | nil => exact ⟨start, List.prefix_nil.mp hbefore ▸ Run.nil⟩
  | concat hrun hlast ih =>
    rcases List.prefix_concat_iff.mp hbefore with rfl | hbefore
    · exact ⟨_, hrun.concat hlast⟩
    · exact ih hbefore

/-- Where the label decides the next state, a run ends in one state. -/
theorem Run.unique (hdet : ∀ s label t t', step s label t → step s label t' → t = t')
    (h : Run step start trace s) (h' : Run step start trace t) : s = t := by
  induction h generalizing t with
  | nil => exact (run_nil.mp h').symm
  | concat _ hlast ih =>
    obtain ⟨s', hrun', hlast'⟩ := run_concat.mp h'
    obtain rfl := ih hrun'
    exact hdet _ _ _ _ hlast hlast'

/-- If each step keeps a property exactly when it meets a condition, then the property holds
all along a run exactly when all of its steps meet the condition. -/
theorem Run.along_iff {P : σ → Prop} {K : σ → α → Prop}
    (hdet : ∀ s label t t', step s label t → step s label t' → t = t') (hstart : P start)
    (hstep : ∀ s label t, P s → step s label t → (P t ↔ K s label))
    (hrun : Run step start trace t) :
    (∀ before s, before <+: trace → Run step start before s → P s) ↔
      ∀ before label s, before ++ [label] <+: trace → Run step start before s → K s label := by
  constructor
  · intro h before label s hbefore hs
    obtain ⟨u, hu⟩ := hrun.of_prefix hbefore
    obtain ⟨s', hs', hlast⟩ := run_concat.mp hu
    obtain rfl := hs.unique hdet hs'
    have hinit : before <+: trace := (List.prefix_append before [label]).trans hbefore
    exact (hstep s label u (h before s hinit hs) hlast).mp (h _ u hbefore hu)
  · intro h before s hbefore hs
    induction hs with
    | nil => exact hstart
    | concat hs hlast ih =>
      have hinit := (List.prefix_append _ _).trans hbefore
      exact (hstep _ _ _ (ih hinit) hlast).mpr (h _ _ _ hbefore hs)

end Runs
