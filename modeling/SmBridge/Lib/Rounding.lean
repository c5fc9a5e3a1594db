import Mathlib.Tactic.Ring
import Mathlib.Algebra.Order.Ring.Nat

/-!
# Rounding to a binary significand

Round half to even, on natural numbers, to a given number of significant bits.
-/
namespace Rounding

/-- The integer nearest to `m / d`; of two it is the even one. -/
def halfEven (m d : ℕ) : ℕ :=
  let q := m / d
  let r := m % d
  if 2 * r < d ∨ (2 * r = d ∧ q % 2 = 0) then q else q + 1

theorem le_halfEven (m d : ℕ) : m / d ≤ halfEven m d := by
  simp only [halfEven]
  split <;> omega

theorem halfEven_le (m d : ℕ) : halfEven m d ≤ m / d + 1 := by
  simp only [halfEven]
  split <;> omega

@[simp] theorem halfEven_one (m : ℕ) : halfEven m 1 = m := by
  simp [halfEven, Nat.mod_one]

theorem halfEven_lt_iff {m d n : ℕ} (hd : 0 < d) (hn : n % 2 = 0) :
    halfEven m d < n ↔ 2 * m + d < 2 * (n * d) := by
  have hm : m = d * (m / d) + m % d := (Nat.div_add_mod m d).symm
  have hr : m % d < d := Nat.mod_lt m hd
  have hmono : ∀ a b : ℕ, a ≤ b → a * d ≤ b * d := fun _ _ h => Nat.mul_le_mul_right d h
  simp only [halfEven]
  generalize m / d = q at hm ⊢
  generalize m % d = r at hm hr ⊢
  have hq : d * q = q * d := Nat.mul_comm d q
  have hsucc : (q + 1) * d = q * d + d := Nat.succ_mul q d
  have hsucc₂ : (q + 2) * d = q * d + 2 * d := by ring
  split
  · rename_i hdown
    constructor
    · intro hlt
      have hnext := hmono (q + 1) n hlt
      rcases hdown with hbelow | ⟨htie, heven⟩
      · omega
      · have hnext₂ := hmono (q + 2) n (by omega)
        omega
    · intro hlt
      by_contra hge
      have := hmono n q (by omega)
      omega
  · constructor
    · intro hlt
      have := hmono (q + 2) n (by omega)
      omega
    · intro hlt
      by_contra hge
      have := hmono n (q + 1) (by omega)
      omega

/-- The weight of the last bit that is kept of `m`, for `p` significant bits. -/
def unit (p m : ℕ) : ℕ := 2 ^ (m.log2 + 1 - p)

def roundTo (p m : ℕ) : ℕ := halfEven m (unit p m) * unit p m

theorem unit_pos (p m : ℕ) : 0 < unit p m := Nat.two_pow_pos _

theorem roundTo_of_lt {p m : ℕ} (hp : 0 < p) (h : m < 2 ^ p) : roundTo p m = m := by
  have hlog : m.log2 + 1 ≤ p := by
    rcases Nat.eq_zero_or_pos m with rfl | hm
    · simpa using Nat.succ_le_of_lt hp
    · exact (Nat.log2_lt (by omega)).mpr h
  have hunit : unit p m = 1 := by rw [unit, Nat.sub_eq_zero_of_le hlog, pow_zero]
  rw [roundTo, hunit, halfEven_one, Nat.mul_one]

theorem pow_log2_le_roundTo {p m : ℕ} (hp : 0 < p) (hm : m ≠ 0) : 2 ^ m.log2 ≤ roundTo p m := by
  by_cases hlt : m < 2 ^ p
  · rw [roundTo_of_lt hp hlt]
    exact Nat.log2_self_le hm
  · have hlog : p ≤ m.log2 := (Nat.le_log2 hm).mpr (not_lt.mp hlt)
    have hsplit : 2 ^ m.log2 = 2 ^ (p - 1) * unit p m := by
      rw [unit, ← pow_add]
      congr 1
      omega
    have hq : 2 ^ (p - 1) ≤ m / unit p m := by
      rw [Nat.le_div_iff_mul_le (unit_pos p m), ← hsplit]
      exact Nat.log2_self_le hm
    rw [hsplit]
    exact Nat.mul_le_mul_right _ (hq.trans (le_halfEven _ _))

theorem pow_le_roundTo {p m k : ℕ} (hp : 0 < p) (h : 2 ^ k ≤ m) : 2 ^ k ≤ roundTo p m := by
  have hm : m ≠ 0 := by
    rintro rfl
    exact absurd h (by simp)
  calc 2 ^ k ≤ 2 ^ m.log2 := Nat.pow_le_pow_right (by omega) ((Nat.le_log2 hm).mpr h)
    _ ≤ roundTo p m := pow_log2_le_roundTo hp hm

/-- Rounding reaches the power of two from half a unit below it on. -/
theorem roundTo_lt_iff {p e m : ℕ} (hp : 0 < p) (he : p < e) :
    roundTo p m < 2 ^ e ↔ m + 2 ^ (e - p - 1) < 2 ^ e := by
  rcases Nat.lt_trichotomy (m.log2 + 1) e with hshort | heq | hlong
  · have hm : m < 2 ^ (e - 1) := by
      rcases Nat.eq_zero_or_pos m with rfl | hpos
      · exact Nat.two_pow_pos _
      · exact (Nat.log2_lt (by omega)).mp (by omega)
    have hdouble : 2 ^ e = 2 ^ (e - 1) + 2 ^ (e - 1) := by
      rw [← Nat.two_mul, ← pow_succ', Nat.sub_add_cancel (by omega)]
    have hhalf : 2 ^ (e - p - 1) ≤ 2 ^ (e - 1) := Nat.pow_le_pow_right (by omega) (by omega)
    refine ⟨fun _ => by omega, fun _ => ?_⟩
    by_cases hlt : m < 2 ^ p
    · rw [roundTo_of_lt hp hlt]
      omega
    · have hne : m ≠ 0 := by
        rintro rfl
        exact hlt (Nat.two_pow_pos _)
      have hlog : p ≤ m.log2 := (Nat.le_log2 hne).mpr (not_lt.mp hlt)
      have hsplit : 2 ^ (m.log2 + 1) = 2 ^ p * unit p m := by
        rw [unit, ← pow_add]
        congr 1
        omega
      have hq : m / unit p m + 1 ≤ 2 ^ p := by
        apply Nat.succ_le_of_lt
        rw [Nat.div_lt_iff_lt_mul (unit_pos p m), ← hsplit]
        exact Nat.lt_log2_self
      calc roundTo p m ≤ 2 ^ p * unit p m := Nat.mul_le_mul_right _ ((halfEven_le _ _).trans hq)
        _ = 2 ^ (m.log2 + 1) := hsplit.symm
        _ ≤ 2 ^ (e - 1) := Nat.pow_le_pow_right (by omega) (by omega)
        _ < 2 ^ e := Nat.pow_lt_pow_right (by omega) (by omega)
  · have hsplit : 2 ^ e = 2 ^ p * unit p m := by
      rw [unit, heq, ← pow_add]
      congr 1
      omega
    have hunit : unit p m = 2 * 2 ^ (e - p - 1) := by
      rw [unit, heq, ← pow_succ']
      congr 1
      omega
    have heven : 2 ^ p % 2 = 0 := Nat.mod_eq_zero_of_dvd (dvd_pow_self 2 (by omega))
    rw [roundTo, hsplit, Nat.mul_lt_mul_right (unit_pos p m), halfEven_lt_iff (unit_pos p m) heven]
    omega
  · have hne : m ≠ 0 := by
      rintro rfl
      simp at hlong
      omega
    have hm : 2 ^ e ≤ m := (Nat.le_log2 hne).mp (by omega)
    have hround := pow_le_roundTo hp hm
    have hhalf := Nat.two_pow_pos (e - p - 1)
    omega

end Rounding
