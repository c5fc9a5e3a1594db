import SmBridge.Lib.MerkleWalk
import Mathlib.Data.List.Induction

/-!
# Left-balanced hash trees

Roots and sibling paths over any combining function `node`. Nothing is assumed about
`node` in general. Where a proof needs it to be collision free, the pairs that the two
sides combine are named, so that the assumption holds of a real hash function.
-/
namespace MerkleTree

open MerkleShape

variable {α : Type*}

section Definitions

variable (node : α → α → α) (empty : α)

def side (right : Bool) (xs : List α) : List α :=
  if right then xs.drop (split xs.length) else xs.take (split xs.length)

theorem side_length (right : Bool) {xs : List α} (h : 2 ≤ xs.length) :
    (side right xs).length =
      if right then xs.length - split xs.length else split xs.length := by
  have := split_lt h
  cases right
  · simp [side]; omega
  · simp [side]

theorem side_length_lt (right : Bool) {xs : List α} (h : 2 ≤ xs.length) :
    (side right xs).length < xs.length := by
  have := split_lt h
  have := split_pos xs.length
  rw [side_length right h]
  split <;> omega

theorem side_length_pos (right : Bool) {xs : List α} (h : 2 ≤ xs.length) :
    0 < (side right xs).length := by
  have := split_lt h
  have := split_pos xs.length
  rw [side_length right h]
  split <;> omega

theorem side_subset (right : Bool) (xs : List α) : side right xs ⊆ xs := by
  cases right
  · exact List.take_subset _ _
  · exact List.drop_subset _ _

def root (xs : List α) : α :=
  if 2 ≤ xs.length then node (root (side false xs)) (root (side true xs))
  else xs.headD empty
termination_by xs.length
decreasing_by all_goals exact side_length_lt _ ‹_›

/-- The pairs combined on the way to the root. -/
def nodes (xs : List α) : List (α × α) :=
  if 2 ≤ xs.length then
    (root node empty (side false xs), root node empty (side true xs)) ::
      (nodes (side false xs) ++ nodes (side true xs))
  else []
termination_by xs.length
decreasing_by all_goals exact side_length_lt _ ‹_›

/-- A value and its sibling in their order under the parent. -/
def pairUp (right : Bool) (r p : α) : α × α := if right then (p, r) else (r, p)

/-- Combine `r` with the siblings met on the way up. -/
def climb (r : α) : List (Bool × α) → α
  | [] => r
  | s :: ss => climb (node (pairUp s.1 r s.2).1 (pairUp s.1 r s.2).2) ss

def climbed (r : α) : List (Bool × α) → List (α × α)
  | [] => []
  | s :: ss =>
    pairUp s.1 r s.2 :: climbed (node (pairUp s.1 r s.2).1 (pairUp s.1 r s.2).2) ss

/-- The leaves below the node that `w` leads to from the root. -/
def subtreeAt : List α → List Bool → Option (List α)
  | xs, [] => some xs
  | xs, t :: w => if 2 ≤ xs.length then subtreeAt (side t xs) w else none

/-- The siblings along `w`, lowest first. -/
def siblings : List α → List Bool → List α
  | _, [] => []
  | xs, t :: w => siblings (side t xs) w ++ [root node empty (side (!t) xs)]

/-- The sibling path of leaf `i`, lowest first. -/
def auditPath (xs : List α) (i : ℕ) : List α :=
  siblings node empty xs (turns xs.length i).reverse

end Definitions

variable {node : α → α → α} {empty : α}

theorem root_split {xs : List α} (h : 2 ≤ xs.length) :
    root node empty xs =
      node (root node empty (side false xs)) (root node empty (side true xs)) := by
  conv_lhs => rw [root]
  rw [if_pos h]

@[simp] theorem root_singleton (x : α) : root node empty [x] = x := by
  rw [root]; simp

@[simp] theorem root_nil : root node empty ([] : List α) = empty := by
  rw [root]; simp

theorem nodes_split {xs : List α} (h : 2 ≤ xs.length) :
    nodes node empty xs = (root node empty (side false xs), root node empty (side true xs)) ::
      (nodes node empty (side false xs) ++ nodes node empty (side true xs)) := by
  conv_lhs => rw [nodes]
  rw [if_pos h]

theorem nodes_side_subset (right : Bool) {xs : List α} (h : 2 ≤ xs.length) :
    nodes node empty (side right xs) ⊆ nodes node empty xs := by
  rw [nodes_split h]
  intro p hp
  cases right <;> simp [hp]

theorem climb_append (r : α) (ss : List (Bool × α)) (s : Bool × α) :
    climb node r (ss ++ [s]) =
      node (pairUp s.1 (climb node r ss) s.2).1 (pairUp s.1 (climb node r ss) s.2).2 := by
  induction ss generalizing r with
  | nil => rfl
  | cons t ss ih => simp only [List.cons_append, climb, ih]

theorem climbed_append (r : α) (ss : List (Bool × α)) (s : Bool × α) :
    climbed node r (ss ++ [s]) = climbed node r ss ++ [pairUp s.1 (climb node r ss) s.2] := by
  induction ss generalizing r with
  | nil => rfl
  | cons t ss ih => simp only [List.cons_append, climbed, climb, ih]

variable (node empty) in
theorem siblings_length (xs : List α) (w : List Bool) :
    (siblings node empty xs w).length = w.length := by
  induction w generalizing xs with
  | nil => rfl
  | cons t w ih => simp [siblings, ih]

variable (node empty) in
theorem auditPath_length (xs : List α) (i : ℕ) :
    (auditPath node empty xs i).length = (turns xs.length i).length := by
  simp [auditPath, siblings_length]

/-! ## Positions and leaves -/

theorem subtreeAt_position {xs ys : List α} {w : List Bool} (h : subtreeAt xs w = some ys) :
    IsPosition xs.length w := by
  induction w generalizing xs with
  | nil => trivial
  | cons t w ih =>
    by_cases h2 : 2 ≤ xs.length
    · rw [subtreeAt, if_pos h2] at h
      have hw := ih h
      rw [side_length t h2] at hw
      cases t <;> exact ⟨h2, hw⟩
    · rw [subtreeAt, if_neg h2] at h
      exact absurd h (by simp)

theorem subtreeAt_length_pos {xs ys : List α} {w : List Bool} (hpos : 0 < xs.length)
    (h : subtreeAt xs w = some ys) : 0 < ys.length := by
  induction w generalizing xs with
  | nil => exact Option.some.inj h ▸ hpos
  | cons t w ih =>
    by_cases h2 : 2 ≤ xs.length
    · rw [subtreeAt, if_pos h2] at h
      exact ih (side_length_pos t h2) h
    · rw [subtreeAt, if_neg h2] at h
      exact absurd h (by simp)

variable (node empty) in
theorem subtreeAt_nodes {xs ys : List α} {w : List Bool} (h : subtreeAt xs w = some ys) :
    nodes node empty ys ⊆ nodes node empty xs := by
  induction w generalizing xs with
  | nil => rw [Option.some.inj h]; exact fun _ hp => hp
  | cons t w ih =>
    by_cases h2 : 2 ≤ xs.length
    · rw [subtreeAt, if_pos h2] at h
      exact List.Subset.trans (ih h) (nodes_side_subset t h2)
    · rw [subtreeAt, if_neg h2] at h
      exact absurd h (by simp)

theorem side_false_getElem? {xs : List α} {i : ℕ} (hi : i < split xs.length) :
    (side false xs)[i]? = xs[i]? := by
  simp [side, hi]

theorem side_true_getElem? {xs : List α} {i : ℕ} (hi : split xs.length ≤ i) :
    (side true xs)[i - split xs.length]? = xs[i]? := by
  simp only [side, ↓reduceIte, List.getElem?_drop]
  congr 1
  omega

/-- The turns of a leaf, read from the root, lead to that leaf. -/
theorem subtreeAt_turns (n i : ℕ) (hi : i < n) : ∀ xs : List α, xs.length = n → ∀ x,
    xs[i]? = some x → subtreeAt xs (turns n i).reverse = some [x] := by
  revert n i
  apply leaf_induction
  · intro xs hxs x hx
    obtain ⟨y, rfl⟩ := List.length_eq_one_iff.mp hxs
    simpa [subtreeAt] using hx
  · rintro n i hn hi ih xs rfl x hx
    rw [turns_left hn hi, List.reverse_append, List.reverse_singleton, List.singleton_append,
      subtreeAt, if_pos hn]
    exact ih _ (side_length false hn) x ((side_false_getElem? hi).trans hx)
  · rintro n i hn hi _ ih xs rfl x hx
    rw [turns_right hn hi, List.reverse_append, List.reverse_singleton, List.singleton_append,
      subtreeAt, if_pos hn]
    exact ih _ (side_length true hn) x ((side_true_getElem? hi).trans hx)

theorem turns_of_subtreeAt {xs : List α} {w : List Bool} {x : α} (hpos : 0 < xs.length)
    (h : subtreeAt xs w = some [x]) :
    ∃ i, i < xs.length ∧ xs[i]? = some x ∧ w = (turns xs.length i).reverse := by
  induction w generalizing xs with
  | nil =>
    obtain rfl : xs = [x] := by simpa [subtreeAt] using h
    exact ⟨0, by simp, rfl, by simp⟩
  | cons t w ih =>
    by_cases h2 : 2 ≤ xs.length
    · rw [subtreeAt, if_pos h2] at h
      obtain ⟨i, hi, hx, rfl⟩ := ih (side_length_pos t h2) h
      rw [side_length t h2] at hi
      have hs := split_lt h2
      cases t with
      | false =>
        simp only [Bool.false_eq_true, ↓reduceIte] at hi
        refine ⟨i, by omega, (side_false_getElem? hi).symm.trans hx, ?_⟩
        rw [turns_left h2 hi, side_length false h2]
        simp
      | true =>
        simp only [↓reduceIte] at hi
        have hle : split xs.length ≤ i + split xs.length := Nat.le_add_left _ _
        refine ⟨i + split xs.length, by omega, ?_, ?_⟩
        · rw [← side_true_getElem? hle, Nat.add_sub_cancel]
          exact hx
        · rw [turns_right h2 hle, side_length true h2]
          simp
    · rw [subtreeAt, if_neg h2] at h
      exact absurd h (by simp)

/-! ## Completeness -/

variable (node empty) in
theorem climb_siblings {xs ys : List α} {w : List Bool} (h : subtreeAt xs w = some ys) :
    climb node (root node empty ys) (w.reverse.zip (siblings node empty xs w)) =
      root node empty xs := by
  induction w generalizing xs with
  | nil =>
    obtain rfl : xs = ys := by simpa [subtreeAt] using h
    rfl
  | cons t w ih =>
    by_cases h2 : 2 ≤ xs.length
    · rw [subtreeAt, if_pos h2] at h
      rw [List.reverse_cons, siblings,
        List.zip_append (by simp [siblings_length]), List.zip_cons_cons, List.zip_nil_left,
        climb_append, ih h, root_split h2]
      cases t <;> rfl
    · rw [subtreeAt, if_neg h2] at h
      exact absurd h (by simp)

variable (node empty) in
theorem climbed_siblings {xs ys : List α} {w : List Bool} (h : subtreeAt xs w = some ys) :
    climbed node (root node empty ys) (w.reverse.zip (siblings node empty xs w)) ⊆
      nodes node empty xs := by
  induction w generalizing xs with
  | nil => simp [siblings, climbed]
  | cons t w ih =>
    by_cases h2 : 2 ≤ xs.length
    · rw [subtreeAt, if_pos h2] at h
      rw [List.reverse_cons, siblings,
        List.zip_append (by simp [siblings_length]), List.zip_cons_cons, List.zip_nil_left,
        climbed_append, climb_siblings _ _ h]
      apply List.append_subset.mpr
      refine ⟨List.Subset.trans (ih h) (nodes_side_subset t h2), ?_⟩
      rw [nodes_split h2]
      cases t <;> simp [pairUp]
    · rw [subtreeAt, if_neg h2] at h
      exact absurd h (by simp)

/-! ## Soundness -/

/-- The pairs `P` combine to values that no other pair of the tree over `xs` combines to
and that are no leaf of it. -/
structure Safe (node : α → α → α) (empty : α) (P : List (α × α)) (xs : List α) : Prop where
  pairs : ∀ p ∈ P, ∀ q ∈ nodes node empty xs, node p.1 p.2 = node q.1 q.2 → p = q
  leaves : ∀ p ∈ P, ∀ x ∈ xs, node p.1 p.2 ≠ x

theorem Safe.side {P Q : List (α × α)} {xs : List α} (h : Safe node empty P xs) (hQ : Q ⊆ P)
    (right : Bool) (h2 : 2 ≤ xs.length) : Safe node empty Q (side right xs) where
  pairs p hp q hq := h.pairs p (hQ hp) q (nodes_side_subset right h2 hq)
  leaves p hp x hx := h.leaves p (hQ hp) x (side_subset right xs hx)

/-- A climb that ends at the root passed through nodes of the tree only. -/
theorem climb_eq_root {xs : List α} {r : α} {steps : List (Bool × α)} (hpos : 0 < xs.length)
    (safe : Safe node empty (climbed node r steps) xs)
    (h : climb node r steps = root node empty xs) :
    ∃ ys, subtreeAt xs (steps.map Prod.fst).reverse = some ys ∧ r = root node empty ys ∧
      steps.map Prod.snd = siblings node empty xs (steps.map Prod.fst).reverse := by
  induction steps using List.reverseRecOn generalizing xs with
  | nil => exact ⟨xs, rfl, h, rfl⟩
  | append_singleton steps s ih =>
    rw [climbed_append] at safe
    rw [climb_append] at h
    have hmem : pairUp s.1 (climb node r steps) s.2 ∈
        climbed node r steps ++ [pairUp s.1 (climb node r steps) s.2] := by simp
    by_cases h2 : 2 ≤ xs.length
    · rw [root_split h2] at h
      have hpair := safe.pairs _ hmem
        (root node empty (side false xs), root node empty (side true xs))
        (by rw [nodes_split h2]; simp) h
      have hchild : climb node r steps = root node empty (side s.1 xs) ∧
          s.2 = root node empty (side (!s.1) xs) := by
        rcases s with ⟨t, p⟩
        cases t <;> simp_all [pairUp]
      obtain ⟨ys, hys, hr, hsib⟩ :=
        ih (side_length_pos s.1 h2) (safe.side (List.subset_append_left _ _) s.1 h2) hchild.1
      refine ⟨ys, ?_, hr, ?_⟩
      · simp only [List.map_append, List.map_cons, List.map_nil, List.reverse_append,
          List.reverse_singleton, List.singleton_append, subtreeAt, if_pos h2]
        exact hys
      · simp only [List.map_append, List.map_cons, List.map_nil, List.reverse_append,
          List.reverse_singleton, List.singleton_append, siblings, hsib, hchild.2]
    · obtain ⟨x, rfl⟩ := List.length_eq_one_iff.mp (show xs.length = 1 by omega)
      rw [root_singleton] at h
      exact absurd h (safe.leaves _ hmem x (by simp))

/-- Trees of one size with one root have the same leaves. -/
theorem root_injective {xs ys : List α} (hlen : xs.length = ys.length)
    (safe : ∀ p ∈ nodes node empty xs, ∀ q ∈ nodes node empty ys,
      node p.1 p.2 = node q.1 q.2 → p = q)
    (h : root node empty xs = root node empty ys) : xs = ys := by
  induction hn : xs.length using Nat.strong_induction_on generalizing xs ys with
  | h n ih =>
    subst hn
    by_cases h2 : 2 ≤ xs.length
    · have h2' : 2 ≤ ys.length := hlen ▸ h2
      rw [root_split h2, root_split h2'] at h
      have hpair := safe _ (by rw [nodes_split h2]; exact List.mem_cons_self) _
        (by rw [nodes_split h2']; exact List.mem_cons_self) h
      rw [Prod.mk.injEq] at hpair
      have hside : ∀ t, root node empty (side t xs) = root node empty (side t ys) →
          side t xs = side t ys := by
        intro t ht
        refine ih _ (side_length_lt t h2) ?_ ?_ ht rfl
        · rw [side_length t h2, side_length t h2', hlen]
        · intro p hp q hq
          exact safe p (nodes_side_subset t h2 hp) q (nodes_side_subset t h2' hq)
      have hl := hside false hpair.1
      have hr := hside true hpair.2
      simp only [side, Bool.false_eq_true, ↓reduceIte] at hl hr
      rw [← List.take_append_drop (split xs.length) xs, hl, hr,
        List.take_append_drop]
    · rcases xs with _ | ⟨x, _ | ⟨x', xs⟩⟩
      · exact (List.length_eq_zero_iff.mp hlen.symm).symm
      · obtain ⟨y, rfl⟩ := List.length_eq_one_iff.mp hlen.symm
        simpa using h
      · simp at h2

/-- Trees of any sizes with one root have the same leaves, where no pair of one combines to a
leaf of the other. -/
theorem root_determines {xs ys : List α} (hxs : xs ≠ []) (hys : ys ≠ [])
    (hsafe : Safe node empty (nodes node empty xs) ys)
    (hsafe' : Safe node empty (nodes node empty ys) xs)
    (h : root node empty xs = root node empty ys) : xs = ys := by
  induction hn : xs.length using Nat.strong_induction_on generalizing xs ys with
  | h n ih =>
    subst hn
    have hfirst : ∀ {zs : List α} (h2 : 2 ≤ zs.length),
        (root node empty (side false zs), root node empty (side true zs)) ∈
          nodes node empty zs := by
      intro zs h2
      rw [nodes_split h2]
      exact List.mem_cons_self
    have hsingle : ∀ {zs : List α}, zs ≠ [] → ¬ 2 ≤ zs.length → ∃ z, zs = [z] := by
      intro zs hzs h2
      have hpos := List.length_pos_iff.mpr hzs
      exact List.length_eq_one_iff.mp (by omega)
    by_cases h2 : 2 ≤ xs.length
    · by_cases h2' : 2 ≤ ys.length
      · rw [root_split h2, root_split h2'] at h
        have hpair := hsafe.pairs _ (hfirst h2) _ (hfirst h2') h
        rw [Prod.mk.injEq] at hpair
        have hside : ∀ t, root node empty (side t xs) = root node empty (side t ys) →
            side t xs = side t ys := by
          intro t ht
          refine ih _ (side_length_lt t h2) ?_ ?_ ?_ ?_ ht rfl
          · exact List.length_pos_iff.mp (side_length_pos t h2)
          · exact List.length_pos_iff.mp (side_length_pos t h2')
          · exact hsafe.side (nodes_side_subset t h2) t h2'
          · exact hsafe'.side (nodes_side_subset t h2') t h2
        have hjoin : ∀ zs : List α, side false zs ++ side true zs = zs :=
          fun zs => List.take_append_drop _ _
        rw [← hjoin xs, hside false hpair.1, hside true hpair.2, hjoin]
      · obtain ⟨y, rfl⟩ := hsingle hys h2'
        rw [root_split h2, root_singleton] at h
        exact absurd h (hsafe.leaves _ (hfirst h2) y (List.mem_singleton_self y))
    · obtain ⟨x, rfl⟩ := hsingle hxs h2
      by_cases h2' : 2 ≤ ys.length
      · rw [root_split h2', root_singleton] at h
        exact absurd h.symm (hsafe'.leaves _ (hfirst h2') x (List.mem_singleton_self x))
      · obtain ⟨y, rfl⟩ := hsingle hys h2'
        rw [root_singleton, root_singleton] at h
        rw [h]

end MerkleTree
