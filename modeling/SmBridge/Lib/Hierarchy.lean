import Mathlib.Order.Bounds.Basic

/-!
# Paths of labels

A path is written with a separator between its labels. It lies below every path whose
labels it begins with; on the written form this is a test at a label boundary.
-/
namespace Hierarchy

variable {α : Type*}

theorem intercalate_append {sep : α} {ls ms : List (List α)} (hls : ls ≠ []) (hms : ms ≠ []) :
    [sep].intercalate (ls ++ ms) = [sep].intercalate ls ++ sep :: [sep].intercalate ms := by
  induction ls with
  | nil => exact absurd rfl hls
  | cons l ls ih =>
    rcases eq_or_ne ls [] with rfl | hne
    · simp [List.intercalate_cons_of_ne_nil, hms]
    · rw [List.cons_append, List.intercalate_cons_of_ne_nil (by simp [hne]),
        List.intercalate_cons_of_ne_nil hne, ih hne]
      simp

@[ext]
structure Path (sep : α) where
  chars : List α

variable [DecidableEq α] {sep : α}

def Path.labels (path : Path sep) : List (List α) := path.chars.splitOn sep

theorem Path.intercalate_labels (path : Path sep) : [sep].intercalate path.labels = path.chars :=
  List.intercalate_splitOn sep

theorem Path.labels_injective : Function.Injective (Path.labels : Path sep → List (List α)) := by
  intro s t h
  exact Path.ext (by rw [← s.intercalate_labels, ← t.intercalate_labels, h])

instance : PartialOrder (Path sep) where
  le t s := s.labels <+: t.labels
  le_refl _ := List.prefix_rfl
  le_trans _ _ _ hst hrs := hrs.trans hst
  le_antisymm _ _ hst hts := Path.labels_injective (hts.eq_of_length_le hst.length_le)

theorem Path.le_def {s t : Path sep} : t ≤ s ↔ s.labels <+: t.labels := Iff.rfl

/-- A path lies below another exactly when it is the same, or goes on after a separator. -/
theorem Path.le_iff {s t : Path sep} :
    t ≤ s ↔ t.chars = s.chars ∨ s.chars ++ [sep] <+: t.chars := by
  rw [Path.le_def]
  constructor
  · rintro ⟨ms, hms⟩
    have hs := s.intercalate_labels
    have ht := t.intercalate_labels
    have hnonempty : s.labels ≠ [] := List.splitOn_ne_nil sep s.chars
    rcases eq_or_ne ms [] with rfl | hne
    · rw [List.append_nil] at hms
      exact Or.inl (by rw [← ht, ← hs, hms])
    · refine Or.inr ⟨[sep].intercalate ms, ?_⟩
      rw [← ht, ← hms, intercalate_append hnonempty hne, hs]
      simp
  · rintro (heq | ⟨rest, hrest⟩)
    · have hpath : t = s := Path.ext heq
      exact hpath ▸ List.prefix_rfl
    · refine ⟨rest.splitOn sep, ?_⟩
      rw [Path.labels, Path.labels, ← hrest, List.append_assoc, List.singleton_append,
        List.splitOn_append_cons_self]

end Hierarchy
