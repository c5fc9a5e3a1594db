import Mathlib.Data.List.Basic

/-!
# Pages of a list

Slices of one width at consecutive offsets make up the list.
-/
namespace Pages

section Definitions

variable {α : Type*}

/-- `xs[offset : offset + limit]` -/
def slice (xs : List α) (limit offset : ℕ) : List α := (xs.drop offset).take limit

end Definitions

variable {α : Type*} {p : α → Bool} {xs : List α} {limit m n : ℕ}

theorem flatMap_slice (xs : List α) (limit m : ℕ) :
    (List.range m).flatMap (fun k => slice xs limit (k * limit)) = xs.take (m * limit) := by
  induction m with
  | zero => simp
  | succ m ih =>
    rw [List.range_succ, List.flatMap_append, ih, List.flatMap_singleton, slice, Nat.succ_mul,
      List.take_add]

/-- Pages that reach beyond the end give the whole list. -/
theorem flatMap_slice_of_le (h : xs.length ≤ m * limit) :
    (List.range m).flatMap (fun k => slice xs limit (k * limit)) = xs := by
  rw [flatMap_slice, List.take_of_length_le h]

/-- What a bounded scan counts is the whole count exactly if nothing is left to count. -/
theorem length_filter_take :
    ((xs.take n).filter p).length = (xs.filter p).length ↔ ∀ x ∈ xs.drop n, p x = false := by
  have hsplit : (xs.filter p).length =
      ((xs.take n).filter p).length + ((xs.drop n).filter p).length := by
    rw [← List.length_append, ← List.filter_append, List.take_append_drop]
  have hrest : ((xs.drop n).filter p).length = 0 ↔ ∀ x ∈ xs.drop n, p x = false := by
    rw [List.length_eq_zero_iff, List.filter_eq_nil_iff]
    simp only [Bool.not_eq_true]
  rw [← hrest]
  omega

end Pages
