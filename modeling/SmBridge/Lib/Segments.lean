import Mathlib.Data.List.DropRight

/-!
# Text around a separator

What stands before the first separator, after it, and after the last one.
-/
namespace Segments

section Definitions

variable {α : Type*} [DecidableEq α] (sep : α)

def beforeFirst (cs : List α) : List α := cs.takeWhile (· ≠ sep)

def afterFirst (cs : List α) : List α := (cs.dropWhile (· ≠ sep)).tail

def afterLast (cs : List α) : List α := cs.rtakeWhile (· ≠ sep)

end Definitions

variable {α : Type*} [DecidableEq α] {sep : α}

theorem ne_of_notMem {cs : List α} (h : sep ∉ cs) : ∀ c ∈ cs, decide (c ≠ sep) = true :=
  fun _ hc => decide_eq_true fun heq => h (heq ▸ hc)

theorem notMem_beforeFirst (cs : List α) : sep ∉ beforeFirst sep cs := by
  intro h
  simpa using List.mem_takeWhile_imp h

theorem beforeFirst_subset (cs : List α) : beforeFirst sep cs ⊆ cs :=
  (List.takeWhile_prefix _).subset

theorem beforeFirst_eq_self {cs : List α} (h : sep ∉ cs) : beforeFirst sep cs = cs := by
  rw [beforeFirst, List.takeWhile_eq_self_iff]
  exact ne_of_notMem h

theorem beforeFirst_cons {xs : List α} (h : sep ∉ xs) (ys : List α) :
    beforeFirst sep (xs ++ sep :: ys) = xs := by
  rw [beforeFirst, List.takeWhile_append_of_pos (ne_of_notMem h)]
  simp

theorem afterFirst_cons {xs : List α} (h : sep ∉ xs) (ys : List α) :
    afterFirst sep (xs ++ sep :: ys) = ys := by
  rw [afterFirst, List.dropWhile_append_of_pos (ne_of_notMem h)]
  simp

/-- A front part with a separator is the same up to the separator, and a front part behind it. -/
theorem append_cons_prefix_iff {xs ys xs' ys' : List α} (hxs : sep ∉ xs) (hys : sep ∉ ys) :
    xs ++ sep :: xs' <+: ys ++ sep :: ys' ↔ xs = ys ∧ xs' <+: ys' := by
  constructor
  · rintro ⟨rest, hrest⟩
    rw [List.append_assoc, List.cons_append] at hrest
    have hbefore := congrArg (beforeFirst sep) hrest
    have hafter := congrArg (afterFirst sep) hrest
    rw [beforeFirst_cons hxs, beforeFirst_cons hys] at hbefore
    rw [afterFirst_cons hxs, afterFirst_cons hys] at hafter
    exact ⟨hbefore, rest, hafter⟩
  · rintro ⟨rfl, h⟩
    rw [List.prefix_append_right_inj, List.prefix_cons_inj]
    exact h

/-- A separator in the first part ends the text before the first separator there. -/
theorem beforeFirst_append {xs : List α} (h : sep ∈ xs) (ys : List α) :
    beforeFirst sep (xs ++ ys) = beforeFirst sep xs := by
  obtain ⟨as, bs, rfl, has⟩ := List.eq_append_cons_of_mem h
  rw [List.append_assoc, List.cons_append, beforeFirst_cons has, beforeFirst_cons has]

theorem afterFirst_append {xs : List α} (h : sep ∈ xs) (ys : List α) :
    afterFirst sep (xs ++ ys) = afterFirst sep xs ++ ys := by
  obtain ⟨as, bs, rfl, has⟩ := List.eq_append_cons_of_mem h
  rw [List.append_assoc, List.cons_append, afterFirst_cons has, afterFirst_cons has]

/-- What stands before the first separator does not depend on what follows one. -/
theorem beforeFirst_append_cons (xs ys : List α) :
    beforeFirst sep (xs ++ sep :: ys) = beforeFirst sep xs := by
  by_cases h : sep ∈ xs
  · exact beforeFirst_append h _
  · rw [beforeFirst_cons h, beforeFirst_eq_self h]

theorem beforeFirst_append_of_notMem {xs : List α} (h : sep ∉ xs) (ys : List α) :
    beforeFirst sep (xs ++ ys) = xs ++ beforeFirst sep ys :=
  List.takeWhile_append_of_pos (ne_of_notMem h)

theorem afterFirst_append_cons (xs ys : List α) :
    afterFirst sep (xs ++ sep :: ys) =
      if sep ∈ xs then afterFirst sep xs ++ sep :: ys else ys := by
  split
  · exact afterFirst_append ‹sep ∈ xs› _
  · exact afterFirst_cons ‹sep ∉ xs› _

/-- The separator that is put in is the first one. -/
theorem afterFirst_eq_iff {xs ys : List α} :
    afterFirst sep (xs ++ sep :: ys) = ys ↔ sep ∉ xs := by
  rw [afterFirst_append_cons]
  split
  · rename_i h
    simp only [h, not_true_eq_false, iff_false]
    intro heq
    have hlength := congrArg List.length heq
    rw [List.length_append, List.length_cons] at hlength
    omega
  · simp [*]

theorem afterFirst_eq_nil {xs ys : List α} :
    afterFirst sep (xs ++ sep :: ys) = [] ↔ sep ∉ xs ∧ ys = [] := by
  rw [afterFirst_append_cons]
  split <;> simp [*]

theorem afterLast_suffix (cs : List α) : afterLast sep cs <:+ cs := List.rtakeWhile_suffix _ _

theorem afterLast_eq_self {cs : List α} : afterLast sep cs = cs ↔ sep ∉ cs := by
  rw [afterLast, List.rtakeWhile_eq_self_iff]
  constructor
  · intro h hmem
    simpa using h sep hmem
  · exact ne_of_notMem

/-- The last part of the last part is the whole only where neither separator occurs. -/
theorem afterLast_afterLast_eq_self {sep' : α} {cs : List α} :
    afterLast sep (afterLast sep' cs) = cs ↔ sep ∉ cs ∧ sep' ∉ cs := by
  constructor
  · intro h
    have hle : (afterLast sep (afterLast sep' cs)).length ≤ (afterLast sep' cs).length :=
      (afterLast_suffix _).length_le
    rw [h] at hle
    have hsuffix : afterLast sep' cs <:+ cs := afterLast_suffix cs
    have hinner := hsuffix.eq_of_length (le_antisymm hsuffix.length_le hle)
    rw [hinner] at h
    exact ⟨afterLast_eq_self.mp h, afterLast_eq_self.mp hinner⟩
  · intro h
    rw [afterLast_eq_self.mpr h.2, afterLast_eq_self.mpr h.1]

theorem afterLast_cons (xs ys : List α) :
    afterLast sep (xs ++ sep :: ys) = afterLast sep ys := by
  induction ys using List.reverseRecOn with
  | nil => exact List.rtakeWhile_concat_neg _ _ _ (by simp)
  | append_singleton ys y ih =>
    rw [← List.cons_append, ← List.append_assoc]
    simp only [afterLast] at ih ⊢
    rw [List.rtakeWhile_concat, List.rtakeWhile_concat, ih]

theorem notMem_of_mem_splitOn {xs : List α} : ∀ ys ∈ xs.splitOn sep, sep ∉ ys := by
  induction xs with
  | nil => simp
  | cons x xs ih =>
    obtain ⟨head, rest, hsplit⟩ := List.exists_cons_of_ne_nil (List.splitOn_ne_nil sep xs)
    rw [hsplit, List.forall_mem_cons] at ih
    rw [List.splitOn_cons_eq_if_modifyHead, hsplit]
    split
    · exact List.forall_mem_cons.mpr ⟨List.not_mem_nil, List.forall_mem_cons.mpr ih⟩
    · rename_i hx
      refine List.forall_mem_cons.mpr ⟨fun h => ?_, ih.2⟩
      rcases List.mem_cons.mp h with rfl | h
      · exact hx (beq_self_eq_true _)
      · exact ih.1 h

end Segments
