import Mathlib.Algebra.Group.Nat.Defs
import Mathlib.Data.List.Basic
import Mathlib.Data.Nat.Log

/-!
# Shape of a left-balanced binary tree

A tree over `n` leaves splits at the largest power of two below `n`. The turns of
a leaf are read from the leaf up to the root. `true` is a right child, whose
sibling stands on its left. Hashes play no part here.
-/
namespace MerkleShape

/-- The size of the left subtree of a tree over `n ≥ 2` leaves. -/
def split (n : ℕ) : ℕ := 2 ^ (n - 1).log2

theorem split_pos (n : ℕ) : 0 < split n := Nat.pow_pos (by decide)

theorem split_lt {n : ℕ} (h : 2 ≤ n) : split n < n := by
  have := Nat.log2_self_le (n := n - 1) (by omega)
  unfold split
  omega

theorem le_two_mul_split {n : ℕ} (h : 2 ≤ n) : n ≤ 2 * split n := by
  have hlt := Nat.lt_log2_self (n := n - 1)
  rw [Nat.pow_succ] at hlt
  unfold split
  omega

theorem split_unique {n e : ℕ} (hlo : 2 ^ e < n) (hhi : n ≤ 2 ^ (e + 1)) :
    split n = 2 ^ e := by
  have hpos : 0 < 2 ^ e := Nat.pow_pos (by decide)
  have he : (n - 1).log2 = e :=
    (Nat.log2_eq_iff (by omega)).mpr ⟨by omega, by omega⟩
  rw [split, he]

theorem split_pow (e : ℕ) : split (2 ^ (e + 1)) = 2 ^ e :=
  split_unique (Nat.pow_lt_pow_right (by decide) (by omega)) le_rfl

theorem split_bounds {n : ℕ} (h : 2 ≤ n) :
    ∃ e, split n = 2 ^ e ∧ 2 ^ e < n ∧ n ≤ 2 ^ (e + 1) := by
  refine ⟨(n - 1).log2, rfl, split_lt h, ?_⟩
  have := le_two_mul_split h
  rw [Nat.pow_succ]
  unfold split at this
  omega

/-- A tree whose size lies between the split and the total splits at the same place. -/
theorem split_stable {m n : ℕ} (hlo : split n < m) (hhi : m ≤ n) : split m = split n := by
  have hn : 2 ≤ n := by have := split_pos n; omega
  obtain ⟨e, he, _, hle⟩ := split_bounds hn
  rw [he] at hlo ⊢
  exact split_unique hlo (hhi.trans hle)

/-- The turns from leaf `i` up to the root of a tree over `n` leaves. -/
def turns (n i : ℕ) : List Bool :=
  if 2 ≤ n then
    if i < split n then turns (split n) i ++ [false]
    else turns (n - split n) (i - split n) ++ [true]
  else []
termination_by n
decreasing_by
  · exact split_lt ‹_›
  · have := split_pos n; omega

@[simp] theorem turns_one (i : ℕ) : turns 1 i = [] := by
  rw [turns]; simp

theorem turns_left {n i : ℕ} (h : 2 ≤ n) (hi : i < split n) :
    turns n i = turns (split n) i ++ [false] := by
  conv_lhs => rw [turns]
  simp [h, hi]

theorem turns_right {n i : ℕ} (h : 2 ≤ n) (hi : split n ≤ i) :
    turns n i = turns (n - split n) (i - split n) ++ [true] := by
  conv_lhs => rw [turns]
  simp [h, Nat.not_lt.mpr hi]

/-- Induction on a tree and one of its leaves, following the descent to the leaf. -/
theorem leaf_induction {P : ℕ → ℕ → Prop} (single : P 1 0)
    (left : ∀ n i, 2 ≤ n → i < split n → P (split n) i → P n i)
    (right : ∀ n i, 2 ≤ n → split n ≤ i → i < n → P (n - split n) (i - split n) → P n i) :
    ∀ n i, i < n → P n i := by
  intro n
  induction n using Nat.strong_induction_on with
  | h n ih =>
    intro i hi
    by_cases hn : 2 ≤ n
    · have hs := split_lt hn
      have hp := split_pos n
      rcases Nat.lt_or_ge i (split n) with hk | hk
      · exact left n i hn hk (ih _ hs i hk)
      · exact right n i hn hk hi (ih _ (by omega) _ (by omega))
    · obtain rfl : n = 1 := by omega
      obtain rfl : i = 0 := by omega
      exact single

theorem turns_pow_length (e i : ℕ) (hi : i < 2 ^ e) : (turns (2 ^ e) i).length = e := by
  induction e generalizing i with
  | zero => simp
  | succ e ih =>
    have hn : 2 ≤ 2 ^ (e + 1) := by
      have : 0 < 2 ^ e := Nat.pow_pos (by decide)
      rw [Nat.pow_succ]; omega
    have hp := Nat.pow_succ 2 e
    rcases Nat.lt_or_ge i (split (2 ^ (e + 1))) with hk | hk
    · rw [turns_left hn hk, split_pow] at *
      simp [ih i hk]
    · rw [turns_right hn hk]
      rw [split_pow] at hk ⊢
      have hsub : 2 ^ (e + 1) - 2 ^ e = 2 ^ e := by omega
      rw [hsub, List.length_append, ih _ (by omega)]
      rfl

theorem turns_length_le : ∀ n i, i < n → ∀ e, n ≤ 2 ^ e → (turns n i).length ≤ e := by
  apply leaf_induction
  · intro e _; simp
  · intro n i hn hi ih e he
    have hs := split_lt hn
    obtain ⟨d, hd, hlo, _⟩ := split_bounds hn
    have hde : d < e := (Nat.pow_lt_pow_iff_right (by decide)).mp (hlo.trans_le he)
    rw [turns_left hn hi, List.length_append]
    have := ih d (by omega)
    simp only [List.length_singleton]
    omega
  · intro n i hn hi _ ih e he
    obtain ⟨d, hd, hlo, hhi⟩ := split_bounds hn
    have hde : d < e := (Nat.pow_lt_pow_iff_right (by decide)).mp (hlo.trans_le he)
    rw [turns_right hn hi, List.length_append]
    have := ih d (by rw [Nat.pow_succ] at hhi; omega)
    simp only [List.length_singleton]
    omega

theorem turns_all_left : ∀ n i, i < n → ((∀ t ∈ turns n i, t = false) ↔ i = 0) := by
  apply leaf_induction
  · simp
  · intro n i hn hi ih
    rw [turns_left hn hi, ← ih]
    simp [or_imp]
  · intro n i hn hi _ _
    have := split_pos n
    rw [turns_right hn hi]
    constructor
    · intro h; simpa using h true (by simp)
    · omega

theorem turns_injective : ∀ n i, i < n → ∀ j, j < n → turns n i = turns n j → i = j := by
  apply leaf_induction
  · intro j hj _; omega
  · intro n i hn hi ih j hj h
    rcases Nat.lt_or_ge j (split n) with hk | hk
    · rw [turns_left hn hi, turns_left hn hk] at h
      exact ih j hk (List.append_cancel_right h)
    · rw [turns_left hn hi, turns_right hn hk] at h
      simpa using (List.append_inj' h rfl).2
  · intro n i hn hi _ ih j hj h
    rcases Nat.lt_or_ge j (split n) with hk | hk
    · rw [turns_right hn hi, turns_left hn hk] at h
      simpa using (List.append_inj' h rfl).2
    · rw [turns_right hn hi, turns_right hn hk] at h
      have := ih (j - split n) (by omega) (List.append_cancel_right h)
      omega

/-! ## Positions

The turns from the root down to a node. -/

/-- `w` leads from the root of a tree over `n` leaves to one of its nodes. -/
def IsPosition : ℕ → List Bool → Prop
  | _, [] => True
  | n, false :: w => 2 ≤ n ∧ IsPosition (split n) w
  | n, true :: w => 2 ≤ n ∧ IsPosition (n - split n) w

theorem position_length_le {n : ℕ} {w : List Bool} (h : IsPosition n w) (hn : 0 < n) :
    ∀ e, n ≤ 2 ^ e → w.length ≤ e := by
  induction w generalizing n with
  | nil => intro e _; exact Nat.zero_le e
  | cons t w ih =>
    intro e he
    have h2 : 2 ≤ n := by cases t <;> exact h.1
    obtain ⟨d, hd, hlo, hhi⟩ := split_bounds h2
    have hde : d < e := (Nat.pow_lt_pow_iff_right (by decide)).mp (hlo.trans_le he)
    have hs := split_lt h2
    rw [Nat.pow_succ] at hhi
    have hw : w.length ≤ d := by
      cases t with
      | false => exact ih h.2 (split_pos n) d (by omega)
      | true => exact ih h.2 (by omega) d (by omega)
    simp only [List.length_cons]
    omega

/-- Going right first and then following a leaf's own turns always runs off the tree:
the right subtree is too shallow for the turns of a leaf on the left of it. -/
theorem not_position_beyond_leaf : ∀ n i, i < n → ∀ c,
    ¬ IsPosition n (List.replicate (c + 1) true ++ (turns n i).reverse) := by
  apply leaf_induction
  · rintro c ⟨h, _⟩
    exact absurd h (by decide)
  · intro n i hn hi _ c h
    rw [List.replicate_succ, List.cons_append] at h
    obtain ⟨d, hd, hlo, hhi⟩ := split_bounds hn
    rw [Nat.pow_succ] at hhi
    have hs := split_lt hn
    have hlen := position_length_le h.2 (by omega) d (by omega)
    have hk : (turns (split n) i).length = d := by
      rw [hd] at hi ⊢; exact turns_pow_length d i hi
    rw [turns_left hn hi] at hlen
    simp only [List.reverse_append, List.length_append, List.length_replicate,
      List.length_reverse, List.length_singleton, hk] at hlen
    omega
  · intro n i hn hi _ ih c h
    rw [List.replicate_succ, List.cons_append] at h
    apply ih c
    rw [turns_right hn hi, List.reverse_append, List.reverse_singleton] at h
    rw [List.replicate_succ', List.append_assoc]
    exact h.2

end MerkleShape
