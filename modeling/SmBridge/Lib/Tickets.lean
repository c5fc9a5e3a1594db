import Mathlib.Data.List.Sort
import Mathlib.Logic.Function.Basic

/-!
# Numbers drawn and published

Workers draw numbers, counted in each class of workers, and publish them later in one list.
The list shows the numbers of a class in order exactly as long as its members publish in the
order in which they drew.
-/
namespace Ticketing

structure Tickets (ι κ : Type*) where
  counter : κ → ℕ
  drawn : ι → Option ℕ
  published : List ι

namespace Tickets

section Definitions

variable {ι κ : Type*} [DecidableEq ι] [DecidableEq κ]

def fresh : Tickets ι κ := ⟨fun _ => 0, fun _ => none, []⟩

def draw (classOf : ι → κ) (t : Tickets ι κ) (i : ι) : Tickets ι κ :=
  { t with
    counter := Function.update t.counter (classOf i) (t.counter (classOf i) + 1)
    drawn := Function.update t.drawn i (some (t.counter (classOf i) + 1)) }

def publish (t : Tickets ι κ) (i : ι) : Tickets ι κ := { t with published := t.published ++ [i] }

def number (t : Tickets ι κ) (i : ι) : ℕ := (t.drawn i).getD 0

/-- The published numbers of a class, in the order of the list. -/
def numbers (classOf : ι → κ) (t : Tickets ι κ) (k : κ) : List ℕ :=
  (t.published.filter fun i => classOf i = k).map t.number

def Increasing (classOf : ι → κ) (t : Tickets ι κ) : Prop :=
  ∀ k, (t.numbers classOf k).Pairwise (· < ·)

/-- Nobody of the class who drew later has published. -/
def InTurn (classOf : ι → κ) (t : Tickets ι κ) (i : ι) : Prop :=
  ∀ j ∈ t.published, classOf j = classOf i → t.number j < t.number i

/-- The drawn numbers of a class are `1` to its counter, each drawn once. -/
structure Valid (classOf : ι → κ) (t : Tickets ι κ) : Prop where
  bound : ∀ i n, t.drawn i = some n → 1 ≤ n ∧ n ≤ t.counter (classOf i)
  covered : ∀ k n, 1 ≤ n → n ≤ t.counter k → ∃ i, classOf i = k ∧ t.drawn i = some n
  owned : ∀ i ∈ t.published, (t.drawn i).isSome

/-- The list has those who drew, in that order. -/
structure DrawnBy (classOf : ι → κ) (t : Tickets ι κ) (order : List ι) : Prop where
  mem : ∀ i, i ∈ order ↔ (t.drawn i).isSome
  numbers : ∀ k, (order.filter fun i => classOf i = k).map t.number = List.range' 1 (t.counter k)

end Definitions

variable {ι κ : Type*} [DecidableEq ι] [DecidableEq κ] {classOf : ι → κ} {t : Tickets ι κ} {i : ι}
  {order : List ι}

omit [DecidableEq ι] [DecidableEq κ] in
theorem valid_fresh : (fresh : Tickets ι κ).Valid classOf where
  bound _ _ h := nomatch h
  covered _ _ h h' := absurd (h.trans h') (Nat.not_succ_le_zero 0)
  owned _ h := nomatch h

omit [DecidableEq ι] in
theorem increasing_fresh : (fresh : Tickets ι κ).Increasing classOf := fun _ => List.Pairwise.nil

theorem Valid.draw (h : t.Valid classOf) (hi : t.drawn i = none) :
    (t.draw classOf i).Valid classOf where
  bound j n hj := by
    change Function.update t.drawn i _ j = some n at hj
    change 1 ≤ n ∧ n ≤ Function.update t.counter (classOf i) _ (classOf j)
    by_cases hji : j = i
    · subst j
      rw [Function.update_self] at hj ⊢
      obtain rfl := Option.some.inj hj
      omega
    · rw [Function.update_of_ne hji] at hj
      have hbound := h.bound j n hj
      by_cases hclass : classOf j = classOf i
      · rw [hclass, Function.update_self]
        rw [hclass] at hbound
        omega
      · rwa [Function.update_of_ne hclass]
  covered k n hpos hn := by
    change n ≤ Function.update t.counter (classOf i) _ k at hn
    have hold : n ≤ t.counter k → ∃ j, classOf j = k ∧ (t.draw classOf i).drawn j = some n := by
      intro hn
      obtain ⟨j, hclass, hj⟩ := h.covered k n hpos hn
      have hji : j ≠ i := by
        rintro rfl
        rw [hi] at hj
        cases hj
      exact ⟨j, hclass, (Function.update_of_ne hji _ _).trans hj⟩
    by_cases hk : k = classOf i
    · subst k
      rw [Function.update_self] at hn
      rcases Nat.of_le_succ hn with hn | rfl
      · exact hold hn
      · exact ⟨i, rfl, Function.update_self _ _ _⟩
    · rw [Function.update_of_ne hk] at hn
      exact hold hn
  owned j hj := by
    have hsome := h.owned j hj
    have hji : j ≠ i := by
      rintro rfl
      rw [hi] at hsome
      cases hsome
    change (Function.update t.drawn i _ j).isSome = true
    rwa [Function.update_of_ne hji]

omit [DecidableEq ι] [DecidableEq κ] in
theorem Valid.publish (h : t.Valid classOf) (hi : (t.drawn i).isSome) :
    (t.publish i).Valid classOf where
  bound := h.bound
  covered := h.covered
  owned j hj := by
    rcases List.mem_append.mp hj with hj | hj
    · exact h.owned j hj
    · rwa [List.mem_singleton.mp hj]

/-- A number that is drawn is not published yet. -/
theorem number_draw {j : ι} (h : t.Valid classOf) (hi : t.drawn i = none) (hj : j ∈ t.published) :
    (t.draw classOf i).number j = t.number j := by
  have hsome := h.owned j hj
  have hji : j ≠ i := by
    rintro rfl
    rw [hi] at hsome
    cases hsome
  exact congrArg (Option.getD · 0) (Function.update_of_ne hji _ _)

theorem numbers_draw (h : t.Valid classOf) (hi : t.drawn i = none) (k : κ) :
    (t.draw classOf i).numbers classOf k = t.numbers classOf k :=
  List.map_congr_left fun _ hj => number_draw h hi (List.mem_of_mem_filter hj)

omit [DecidableEq ι] in
theorem numbers_publish (t : Tickets ι κ) (i : ι) (k : κ) :
    (t.publish i).numbers classOf k =
      if classOf i = k then t.numbers classOf k ++ [t.number i] else t.numbers classOf k := by
  change (((t.published ++ [i]).filter fun i => classOf i = k).map t.number) = _
  rw [List.filter_append, List.map_append]
  split
  · rw [List.filter_singleton, decide_eq_true ‹_›]
    rfl
  · rw [List.filter_singleton, decide_eq_false ‹_›]
    exact List.append_nil _

theorem increasing_draw (h : t.Valid classOf) (hi : t.drawn i = none) :
    (t.draw classOf i).Increasing classOf ↔ t.Increasing classOf :=
  forall_congr' fun k => by rw [numbers_draw h hi]

omit [DecidableEq ι] in
theorem increasing_publish (h : t.Increasing classOf) :
    (t.publish i).Increasing classOf ↔ t.InTurn classOf i := by
  constructor
  · intro hincreasing j hj hclass
    have hpair := hincreasing (classOf i)
    rw [numbers_publish, if_pos rfl, List.pairwise_append] at hpair
    have hmem : t.number j ∈ t.numbers classOf (classOf i) :=
      List.mem_map_of_mem (List.mem_filter.mpr ⟨hj, decide_eq_true hclass⟩)
    exact hpair.2.2 _ hmem _ (List.mem_singleton_self _)
  · intro hturn k
    rw [numbers_publish]
    split
    · subst k
      refine List.pairwise_append.mpr ⟨h _, List.pairwise_singleton _ _, ?_⟩
      intro n hn m hm
      obtain ⟨j, hj, rfl⟩ := List.mem_map.mp hn
      rw [List.mem_singleton.mp hm]
      have hmem := List.mem_filter.mp hj
      exact hturn j hmem.1 (of_decide_eq_true hmem.2)
    · exact h k

omit [DecidableEq ι] in
/-- Once everything drawn is published, an increasing list has no gap. -/
theorem numbers_eq_range (hvalid : t.Valid classOf) (hincreasing : t.Increasing classOf)
    (hall : ∀ i, (t.drawn i).isSome → i ∈ t.published) (k : κ) :
    t.numbers classOf k = List.range' 1 (t.counter k) := by
  refine List.Pairwise.eq_of_mem_iff (hincreasing k) List.pairwise_lt_range' fun n => ?_
  rw [List.mem_range'_1, numbers, List.mem_map]
  constructor
  · rintro ⟨i, hi, rfl⟩
    obtain ⟨hi, hclass⟩ := List.mem_filter.mp hi
    obtain ⟨n, hn⟩ := Option.isSome_iff_exists.mp (hvalid.owned i hi)
    have hbound := hvalid.bound i n hn
    rw [of_decide_eq_true hclass] at hbound
    rw [number, hn, Option.getD_some]
    omega
  · intro hn
    obtain ⟨i, hclass, hi⟩ := hvalid.covered k n hn.1 (by omega)
    refine ⟨i, List.mem_filter.mpr ⟨hall i (hi ▸ rfl), decide_eq_true hclass⟩, ?_⟩
    rw [number, hi, Option.getD_some]

/-! ## The order of the draws -/

omit [DecidableEq ι] in
theorem drawnBy_fresh : (fresh : Tickets ι κ).DrawnBy classOf [] where
  mem _ := iff_of_false List.not_mem_nil Bool.false_ne_true
  numbers _ := rfl

theorem DrawnBy.draw (h : t.DrawnBy classOf order) (hi : t.drawn i = none) :
    (t.draw classOf i).DrawnBy classOf (order ++ [i]) where
  mem j := by
    change j ∈ order ++ [i] ↔ (Function.update t.drawn i _ j).isSome
    rw [List.mem_append, List.mem_singleton, h.mem]
    by_cases hj : j = i
    · subst j
      rw [Function.update_self]
      exact iff_of_true (Or.inr rfl) rfl
    · rw [Function.update_of_ne hj, or_iff_left hj]
  numbers k := by
    have hold : ∀ j ∈ order, (t.draw classOf i).number j = t.number j := by
      intro j hj
      have hne : j ≠ i := by
        rintro rfl
        rw [h.mem, hi] at hj
        cases hj
      exact congrArg (Option.getD · 0) (Function.update_of_ne hne _ _)
    have hnew : (t.draw classOf i).number i = t.counter (classOf i) + 1 :=
      congrArg (Option.getD · 0) (Function.update_self i _ t.drawn)
    change _ = List.range' 1 (Function.update t.counter (classOf i) _ k)
    rw [List.filter_append, List.map_append, List.map_congr_left fun j hj =>
      hold j (List.mem_of_mem_filter hj), h.numbers]
    by_cases hk : classOf i = k
    · subst k
      rw [List.filter_singleton, decide_eq_true rfl]
      change _ ++ [(t.draw classOf i).number i] = _
      rw [hnew, Function.update_self, List.range'_concat, Nat.one_mul, Nat.add_comm 1]
    · rw [List.filter_singleton, decide_eq_false hk, Function.update_of_ne (Ne.symm hk)]
      exact List.append_nil _

omit [DecidableEq ι] in
/-- Numbers are published in order exactly if each class publishes in the order of its draws. -/
theorem increasing_iff_sublist (hvalid : t.Valid classOf) (h : t.DrawnBy classOf order) :
    t.Increasing classOf ↔ ∀ k,
      (t.published.filter fun i => classOf i = k).Sublist
        (order.filter fun i => classOf i = k) := by
  have hdrawn : ∀ k, (order.filter fun i => classOf i = k).Pairwise
      fun i j => t.number i < t.number j := by
    intro k
    rw [← List.pairwise_map, h.numbers]
    exact List.pairwise_lt_range'
  constructor
  · intro hincreasing k
    have hpublished := List.pairwise_map.mp (hincreasing k)
    have hsubset : (t.published.filter fun i => classOf i = k) ⊆
        order.filter fun i => classOf i = k := by
      intro i hi
      rw [List.mem_filter] at hi ⊢
      exact ⟨(h.mem i).mpr (hvalid.owned i hi.1), hi.2⟩
    have hnodup : (t.published.filter fun i => classOf i = k).Nodup := by
      refine List.Pairwise.imp ?_ hpublished
      rintro i j hlt rfl
      exact lt_irrefl _ hlt
    have hantisymm : Std.Antisymm fun i j => t.number i < t.number j :=
      ⟨fun _ _ hlt hgt => absurd hgt hlt.asymm⟩
    exact List.sublist_of_subperm_of_pairwise (List.subperm_of_subset hnodup hsubset)
      hpublished (hdrawn k)
  · intro hsublist k
    exact List.pairwise_map.mpr ((hdrawn k).sublist (hsublist k))

end Tickets

end Ticketing
