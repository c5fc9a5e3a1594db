import SmBridge.Lib.MerkleTree

/-!
# The tree of an earlier size inside a later one

The first `m` leaves of a tree end with a complete subtree. Its siblings on the way up
rebuild two roots at once: with all of them the root of the whole tree, and with those
on the left alone the root of the first `m` leaves.
-/
namespace MerkleConsistency

open MerkleShape
open MerkleWalk
open MerkleTree

/-! ## The boundary between old and new leaves -/

/-- The turns from the root down to the complete subtree that ends at leaf `m`. -/
def boundary (n m : ℕ) : List Bool :=
  if 2 ≤ n ∧ m < n then
    if m ≤ split n then false :: boundary (split n) m
    else true :: boundary (n - split n) (m - split n)
  else []
termination_by n
decreasing_by
  · rename_i h _
    exact split_lt h.1
  · have := split_pos n; omega

def sizeAt : ℕ → List Bool → ℕ
  | n, [] => n
  | n, false :: w => sizeAt (split n) w
  | n, true :: w => sizeAt (n - split n) w

@[simp] theorem boundary_self (n : ℕ) : boundary n n = [] := by
  rw [boundary, if_neg (by omega)]

theorem boundary_left {n m : ℕ} (hn : 2 ≤ n) (hm : m ≤ split n) :
    boundary n m = false :: boundary (split n) m := by
  have := split_lt hn
  rw [boundary, if_pos ⟨hn, by omega⟩, if_pos hm]

theorem boundary_right {n m : ℕ} (hn : 2 ≤ n) (hm : split n < m) (hmn : m < n) :
    boundary n m = true :: boundary (n - split n) (m - split n) := by
  rw [boundary, if_pos ⟨hn, hmn⟩, if_neg (by omega)]

/-- Induction on a tree and a size within it, following the descent to the boundary. -/
theorem boundary_induction {P : ℕ → ℕ → Prop} (whole : ∀ n, 0 < n → P n n)
    (left : ∀ n m, 2 ≤ n → 0 < m → m ≤ split n → P (split n) m → P n m)
    (right : ∀ n m, 2 ≤ n → split n < m → m < n → P (n - split n) (m - split n) → P n m) :
    ∀ n m, 0 < m → m ≤ n → P n m := by
  intro n
  induction n using Nat.strong_induction_on with
  | h n ih =>
    intro m hm hmn
    rcases Nat.eq_or_lt_of_le hmn with rfl | hlt
    · exact whole m hm
    · have hn : 2 ≤ n := by omega
      have hs := split_lt hn
      have hp := split_pos n
      rcases Nat.lt_or_ge (split n) m with hk | hk
      · exact right n m hn hk hlt (ih _ (by omega) _ (by omega) (by omega))
      · exact left n m hn hm hk (ih _ hs _ hm hk)

/-- The boundary of a smaller size ends with a left turn into a complete subtree. -/
theorem boundary_complete : ∀ n m, 0 < m → m ≤ n → m < n →
    (∃ w, boundary n m = w ++ [false]) ∧ ∃ e, sizeAt n (boundary n m) = 2 ^ e := by
  apply boundary_induction
  · omega
  · intro n m hn _ hm ih _
    rw [boundary_left hn hm]
    rcases Nat.eq_or_lt_of_le hm with rfl | hlt
    · obtain ⟨e, he, _⟩ := split_bounds hn
      rw [boundary_self]
      exact ⟨⟨[], rfl⟩, e, he⟩
    · obtain ⟨⟨w, hw⟩, e, he⟩ := ih hlt
      exact ⟨⟨false :: w, by rw [hw, List.cons_append]⟩, e, he⟩
  · intro n m hn hm hlt ih _
    rw [boundary_right hn hm hlt]
    obtain ⟨⟨w, hw⟩, e, he⟩ := ih (by omega)
    exact ⟨⟨true :: w, by rw [hw, List.cons_append]⟩, e, he⟩

/-- The last old leaf turns through its complete subtree and then along the boundary. -/
theorem turns_boundary : ∀ n m, 0 < m → m ≤ n →
    turns n (m - 1) =
      turns (sizeAt n (boundary n m)) (sizeAt n (boundary n m) - 1) ++ (boundary n m).reverse := by
  apply boundary_induction
  · intro n _
    simp [sizeAt]
  · intro n m hn hpos hm ih
    rw [turns_left hn (by omega), ih, boundary_left hn hm, List.reverse_cons, sizeAt,
      List.append_assoc]
  · intro n m hn hm hlt ih
    have hsub : m - 1 - split n = m - split n - 1 := by omega
    rw [turns_right hn (by omega), hsub, ih, boundary_right hn hm hlt, List.reverse_cons, sizeAt,
      List.append_assoc]

theorem turns_last_pow (e : ℕ) : turns (2 ^ e) (2 ^ e - 1) = List.replicate e true := by
  induction e with
  | zero => simp
  | succ e ih =>
    have hpos : 0 < 2 ^ e := Nat.pow_pos (by decide)
    have hdouble := Nat.pow_succ 2 e
    have hsub : 2 ^ (e + 1) - 2 ^ e = 2 ^ e := by omega
    have hlast : 2 ^ (e + 1) - 1 - 2 ^ e = 2 ^ e - 1 := by omega
    rw [turns_right (by omega) (by rw [split_pow]; omega), split_pow, hsub, hlast, ih,
      ← List.replicate_succ']

/-- The boundary turns left only exactly when the old tree is itself complete. -/
theorem boundary_all_left : ∀ n m, 0 < m → m ≤ n → m < n →
    ((∀ t ∈ boundary n m, t = false) ↔ ∃ e, m = 2 ^ e) := by
  apply boundary_induction
  · omega
  · intro n m hn _ hm ih _
    obtain ⟨e, he, _⟩ := split_bounds hn
    rw [boundary_left hn hm]
    rcases Nat.eq_or_lt_of_le hm with rfl | hlt
    · simp only [boundary_self, List.mem_singleton, forall_eq, true_iff]
      exact ⟨e, he⟩
    · simp only [List.mem_cons, forall_eq_or_imp, true_and]
      exact ih hlt
  · intro n m hn hm hlt _ _
    obtain ⟨e, he, _, hhi⟩ := split_bounds hn
    rw [boundary_right hn hm hlt]
    constructor
    · intro h
      exact absurd (h true List.mem_cons_self) (by decide)
    · rintro ⟨d, rfl⟩
      -- no power of two lies strictly between the split and the size
      rw [he] at hm
      have hlo := (Nat.pow_lt_pow_iff_right (by decide)).mp hm
      have hup := (Nat.pow_lt_pow_iff_right (by decide)).mp (hlt.trans_le hhi)
      omega

/-! ## The start of the walk -/

/-- Shift both counters until the first is even. -/
def skipOdd (fn sn : ℕ) : ℕ × ℕ :=
  if fn % 2 = 1 then skipOdd (fn / 2) (sn / 2) else (fn, sn)
termination_by fn

theorem skipOdd_turns (fn sn : ℕ) (hlt : fn < sn) (e : ℕ) (w : List Bool)
    (h : turns (sn + 1) fn = List.replicate e true ++ false :: w) :
    (skipOdd fn sn).1 < (skipOdd fn sn).2 ∧
      turns ((skipOdd fn sn).2 + 1) (skipOdd fn sn).1 = false :: w := by
  induction fn using Nat.strong_induction_on generalizing sn e with
  | h fn ih =>
    have hplain := turns_plain (sn + 1) fn (by omega) (by omega) (by omega)
    rw [Nat.add_sub_cancel] at hplain
    rw [skipOdd]
    by_cases hodd : fn % 2 = 1
    · rw [if_pos hodd]
      cases e with
      | zero => rw [hplain] at h; simp [hodd] at h
      | succ e =>
        rw [hplain, List.replicate_succ, List.cons_append] at h
        exact ih (fn / 2) (by omega) (sn / 2) (by omega) e (List.cons.inj h).2
    · rw [if_neg hodd]
      cases e with
      | zero => exact ⟨hlt, h⟩
      | succ e => rw [hplain, List.replicate_succ] at h; simp [hodd] at h

/-- The walk starts with the turns of the complete subtree, and the boundary is what is left. -/
theorem skipOdd_boundary {n m : ℕ} (hm : 0 < m) (hlt : m < n) :
    (skipOdd (m - 1) (n - 1)).1 ≤ (skipOdd (m - 1) (n - 1)).2 ∧
      turns ((skipOdd (m - 1) (n - 1)).2 + 1) (skipOdd (m - 1) (n - 1)).1 =
        (boundary n m).reverse := by
  obtain ⟨⟨w, hw⟩, e, he⟩ := boundary_complete n m hm (Nat.le_of_lt hlt) hlt
  have hsize : n - 1 + 1 = n := Nat.sub_add_cancel (by omega)
  have hback : (boundary n m).reverse = false :: w.reverse := by rw [hw]; simp
  have hturns := turns_boundary n m hm (Nat.le_of_lt hlt)
  rw [he, turns_last_pow, hback] at hturns
  obtain ⟨hskip, hrest⟩ :=
    skipOdd_turns (m - 1) (n - 1) (by omega) e w.reverse (hsize.symm ▸ hturns)
  exact ⟨Nat.le_of_lt hskip, hrest.trans hback.symm⟩

/-! ## The two roots -/

variable {α : Type*} {node : α → α → α} {empty : α}

/-- Combine `r` with the siblings on its left alone. -/
def climbLeft (node : α → α → α) (r : α) : List (Bool × α) → α
  | [] => r
  | s :: ss => climbLeft node (if s.1 then node s.2 r else r) ss

theorem climbLeft_append (r : α) (ss : List (Bool × α)) (s : Bool × α) :
    climbLeft node r (ss ++ [s]) =
      if s.1 then node s.2 (climbLeft node r ss) else climbLeft node r ss := by
  induction ss generalizing r with
  | nil => rfl
  | cons t ss ih => simp only [List.cons_append, climbLeft, ih]

theorem subtreeAt_boundary (n m : ℕ) (hm : 0 < m) (hmn : m ≤ n) :
    ∀ xs : List α, xs.length = n → ∃ ys, subtreeAt xs (boundary n m) = some ys := by
  revert n m
  apply boundary_induction
  · intro n _ xs _
    exact ⟨xs, by rw [boundary_self, subtreeAt]⟩
  · rintro n m hn _ hm ih xs rfl
    rw [boundary_left hn hm, subtreeAt, if_pos hn]
    exact ih _ (side_length false hn)
  · rintro n m hn hm hlt ih xs rfl
    rw [boundary_right hn hm hlt, subtreeAt, if_pos hn]
    exact ih _ (side_length true hn)

theorem subtreeAt_all_left (n m : ℕ) (hm : 0 < m) (hmn : m ≤ n) :
    (∀ t ∈ boundary n m, t = false) → ∀ xs : List α, xs.length = n →
      subtreeAt xs (boundary n m) = some (xs.take m) := by
  revert n m
  apply boundary_induction
  · rintro n _ _ xs rfl
    rw [boundary_self, subtreeAt, List.take_length]
  · rintro n m hn _ hm ih hleft xs rfl
    rw [boundary_left hn hm] at hleft ⊢
    rw [subtreeAt, if_pos hn, ih (fun t ht => hleft t (List.mem_cons_of_mem _ ht)) _
      (side_length false hn)]
    simp [side, List.take_take, hm]
  · intro n m hn hm hlt _ hleft
    rw [boundary_right hn hm hlt] at hleft
    exact absurd (hleft true List.mem_cons_self) (by decide)

/-- The tree of an old size beyond the split shares its left child with the new tree. -/
theorem root_take_right {xs : List α} {m : ℕ} (hm : split xs.length < m)
    (hlt : m < xs.length) :
    root node empty (xs.take m) =
      node (root node empty (side false xs))
        (root node empty ((side true xs).take (m - split xs.length))) := by
  have hlen : (xs.take m).length = m := by rw [List.length_take]; omega
  have hpos := split_pos xs.length
  have hstable : split m = split xs.length := split_stable hm (by omega)
  rw [root_split (by omega)]
  simp only [side, hlen, hstable, ↓reduceIte, Bool.false_eq_true, List.take_take, List.drop_take]
  rw [Nat.min_eq_left (by omega)]

/-- The siblings on the left of the boundary lead to the root of the old leaves. -/
theorem climbLeft_boundary (n m : ℕ) (hm : 0 < m) (hmn : m ≤ n) :
    ∀ xs : List α, xs.length = n → ∀ ys, subtreeAt xs (boundary n m) = some ys →
      climbLeft node (root node empty ys)
          ((boundary n m).reverse.zip (siblings node empty xs (boundary n m))) =
        root node empty (xs.take m) := by
  revert n m
  apply boundary_induction
  · rintro n _ xs rfl ys hat
    rw [boundary_self, subtreeAt, Option.some.injEq] at hat
    rw [boundary_self, List.take_length, hat]
    rfl
  · rintro n m hn _ hm ih xs rfl ys hat
    rw [boundary_left hn hm, subtreeAt, if_pos hn] at hat
    rw [boundary_left hn hm, siblings, List.reverse_cons,
      List.zip_append (by simp [siblings_length]), List.zip_cons_cons, List.zip_nil_left,
      climbLeft_append, if_neg Bool.false_ne_true, ih _ (side_length false hn) ys hat]
    simp [side, List.take_take, hm]
  · rintro n m hn hm hlt ih xs rfl ys hat
    rw [boundary_right hn hm hlt, subtreeAt, if_pos hn] at hat
    rw [boundary_right hn hm hlt, siblings, List.reverse_cons,
      List.zip_append (by simp [siblings_length]), List.zip_cons_cons, List.zip_nil_left,
      climbLeft_append, if_pos rfl, ih _ (side_length true hn) ys hat,
      root_take_right hm hlt]
    rfl

end MerkleConsistency
