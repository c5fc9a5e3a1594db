import SmBridge.Lib.MerkleTree

/-!
# What a root says of its leaves

The combining function digests the join of its two arguments. The join can be cut again
where its first half is full, as digests are. Leaves of any form are joined at the bottom
only, so a root determines the joins of the sibling leaves and nothing more about them.
-/
namespace MerkleBottom

open MerkleShape
open MerkleTree

variable {α : Type*}

/-- The joins of the sibling leaves, with an unpaired last leaf as it is. -/
def bottom (join : α → α → α) : List α → List α
  | a :: b :: xs => join a b :: bottom join xs
  | [a] => [a]
  | [] => []

variable {join : α → α → α}

theorem bottom_length (xs : List α) : (bottom join xs).length = (xs.length + 1) / 2 := by
  induction xs using bottom.induct with
  | case1 a b xs ih =>
    simp only [bottom, List.length_cons, ih]
    omega
  | case2 a => simp [bottom]
  | case3 => simp [bottom]

theorem bottom_append {xs : List α} (heven : xs.length % 2 = 0) (ys : List α) :
    bottom join (xs ++ ys) = bottom join xs ++ bottom join ys := by
  induction xs using bottom.induct with
  | case1 a b xs ih =>
    rw [List.length_cons, List.length_cons] at heven
    simp only [List.cons_append, bottom, ih (by omega)]
  | case2 a => simp at heven
  | case3 => rfl

theorem split_even {n : ℕ} (h : 3 ≤ n) : split n % 2 = 0 := by
  obtain ⟨e, he, -, hle⟩ := split_bounds (n := n) (by omega)
  cases e with
  | zero => omega
  | succ e => rw [he, Nat.pow_succ, Nat.mul_mod_left]

theorem two_le_split {n : ℕ} (h : 3 ≤ n) : 2 ≤ split n := by
  have := split_pos n
  have := split_even h
  omega

/-- The sides of a tree of three leaves or more part no siblings. -/
theorem bottom_sides {xs : List α} (h3 : 3 ≤ xs.length) :
    bottom join xs = bottom join (side false xs) ++ bottom join (side true xs) := by
  have heven : (side false xs).length % 2 = 0 := by
    rw [side_length false (by omega)]
    exact split_even h3
  rw [← bottom_append heven]
  exact congrArg _ (List.take_append_drop _ xs).symm

/-- Trees of one size have the same joins below exactly when both sides do. -/
theorem bottom_sides_inj {xs ys : List α} (hlen : xs.length = ys.length) (h3 : 3 ≤ xs.length) :
    bottom join xs = bottom join ys ↔ ∀ t, bottom join (side t xs) = bottom join (side t ys) := by
  have h3' : 3 ≤ ys.length := hlen ▸ h3
  rw [bottom_sides h3, bottom_sides h3']
  constructor
  · intro h
    have hleft : (bottom join (side false xs)).length = (bottom join (side false ys)).length := by
      rw [bottom_length, bottom_length, side_length false (by omega), side_length false (by omega),
        hlen]
    obtain ⟨hf, ht⟩ := List.append_inj h hleft
    intro t
    cases t with
    | false => exact hf
    | true => exact ht
  · intro h
    rw [h false, h true]

/-- Full leaves are determined by their joins. -/
theorem bottom_injective {Full : α → Prop}
    (hcut : ∀ a b c d, Full a → Full c → join a b = join c d → a = c ∧ b = d) {xs ys : List α}
    (hxs : ∀ x ∈ xs, Full x) (hys : ∀ y ∈ ys, Full y) (hlen : xs.length = ys.length)
    (h : bottom join xs = bottom join ys) : xs = ys := by
  induction xs using bottom.induct generalizing ys with
  | case1 a b xs ih =>
    rcases ys with _ | ⟨c, _ | ⟨d, ys⟩⟩
    · simp at hlen
    · simp at hlen
    · simp only [bottom, List.cons.injEq] at h
      obtain ⟨rfl, rfl⟩ := hcut a b c d (hxs a (by simp)) (hys c (by simp)) h.1
      rw [ih (fun x hx => hxs x (by simp [hx])) (fun y hy => hys y (by simp [hy]))
        (by simpa using hlen) h.2]
  | case2 a =>
    obtain ⟨c, rfl⟩ := List.length_eq_one_iff.mp hlen.symm
    exact h
  | case3 => exact (List.length_eq_zero_iff.mp hlen.symm).symm

/-- A single leaf shows in the joins, where a join determines each half from the other. -/
theorem bottom_set (hleft : ∀ a b c, join a c = join b c → a = b)
    (hright : ∀ a b c, join a b = join a c → b = c) {xs : List α} {k : ℕ} {x : α}
    (h : bottom join (xs.set k x) = bottom join xs) : xs.set k x = xs := by
  induction xs using bottom.induct generalizing k with
  | case1 a b xs ih =>
    rcases k with _ | _ | k
    · simp only [List.set_cons_zero, bottom, List.cons.injEq, and_true] at h ⊢
      exact hleft _ _ _ h
    · simp only [List.set_cons_succ, List.set_cons_zero, bottom, List.cons.injEq, and_true,
        true_and] at h ⊢
      exact hright _ _ _ h
    · simp only [List.set_cons_succ, bottom, List.cons.injEq, true_and] at h ⊢
      exact ih h
  | case2 a =>
    cases k with
    | zero => exact h
    | succ k => rfl
  | case3 => rfl

section Roots

variable {empty : α}

theorem root_pair (node : α → α → α) (a b : α) : root node empty [a, b] = node a b := by
  have hsides : side false [a, b] = [a] ∧ side true [a, b] = [b] := ⟨rfl, rfl⟩
  rw [root_split (by simp), hsides.1, hsides.2, root_singleton, root_singleton]

/-- The left side of three leaves or more has a digest for a root. -/
theorem left_root_digest (digest : α → α) (join : α → α → α) (empty : α) {xs : List α}
    (h3 : 3 ≤ xs.length) :
    ∃ a, root (fun a b => digest (join a b)) empty (side false xs) = digest a := by
  have h2 : 2 ≤ (side false xs).length := by
    rw [side_length false (by omega)]
    exact two_le_split h3
  exact ⟨_, root_split h2⟩

/-- Two trees of one size have the same root exactly when their sibling leaves have the same
joins. -/
theorem root_eq_iff (digest : α → α) (Full : α → Prop) (hfull : ∀ a, Full (digest a))
    (hcut : ∀ a b c d, Full a → Full c → join a b = join c d → a = c ∧ b = d) {xs ys : List α}
    (hlen : xs.length = ys.length)
    (hcf : ∀ p ∈ nodes (fun a b => digest (join a b)) empty xs,
      ∀ q ∈ nodes (fun a b => digest (join a b)) empty ys,
        digest (join p.1 p.2) = digest (join q.1 q.2) → join p.1 p.2 = join q.1 q.2) :
    root (fun a b => digest (join a b)) empty xs = root (fun a b => digest (join a b)) empty ys ↔
      bottom join xs = bottom join ys := by
  induction hn : xs.length using Nat.strong_induction_on generalizing xs ys with
  | h n ih =>
    subst hn
    by_cases h3 : 3 ≤ xs.length
    · have h2 : 2 ≤ xs.length := by omega
      have h2' : 2 ≤ ys.length := by omega
      have hside : ∀ t, root (fun a b => digest (join a b)) empty (side t xs) =
          root (fun a b => digest (join a b)) empty (side t ys) ↔
            bottom join (side t xs) = bottom join (side t ys) := by
        intro t
        refine ih _ (side_length_lt t h2) ?_ ?_ rfl
        · rw [side_length t h2, side_length t h2', hlen]
        · intro p hp q hq
          exact hcf p (nodes_side_subset t h2 hp) q (nodes_side_subset t h2' hq)
      rw [bottom_sides_inj hlen h3, ← forall_congr' hside, root_split h2, root_split h2']
      constructor
      · intro h
        have hjoin := hcf _ (by rw [nodes_split h2]; exact List.mem_cons_self) _
          (by rw [nodes_split h2']; exact List.mem_cons_self) h
        -- the left sides have two leaves or more, so their roots are full
        obtain ⟨a, ha⟩ := left_root_digest digest join empty h3
        obtain ⟨c, hc⟩ := left_root_digest digest join empty (show 3 ≤ ys.length from hlen ▸ h3)
        obtain ⟨hf, ht⟩ := hcut _ _ _ _ (ha ▸ hfull a) (hc ▸ hfull c) hjoin
        intro t
        cases t with
        | false => exact hf
        | true => exact ht
      · intro h
        rw [h false, h true]
    · rcases xs with _ | ⟨a, _ | ⟨b, _ | ⟨_, xs⟩⟩⟩
      · rw [List.length_eq_zero_iff.mp hlen.symm]
        simp
      · obtain ⟨c, rfl⟩ := List.length_eq_one_iff.mp hlen.symm
        simp [bottom]
      · obtain ⟨c, d, rfl⟩ := List.length_eq_two.mp hlen.symm
        have hpair : ∀ u v : α, (u, v) ∈ nodes (fun a b => digest (join a b)) empty [u, v] := by
          intro u v
          rw [nodes_split (by simp)]
          have hsides : side false [u, v] = [u] ∧ side true [u, v] = [v] := ⟨rfl, rfl⟩
          rw [hsides.1, hsides.2, root_singleton, root_singleton]
          exact List.mem_cons_self
        rw [root_pair, root_pair]
        simp only [bottom, List.cons.injEq, and_true]
        exact ⟨hcf _ (hpair a b) _ (hpair c d), fun h => congrArg digest h⟩
      · exact absurd (show 3 ≤ (a :: b :: _ :: xs).length by simp) h3

end Roots

end MerkleBottom
