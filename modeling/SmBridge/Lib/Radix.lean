import Mathlib.Data.List.TakeWhile
import Mathlib.Data.Nat.Digits.Lemmas

/-!
# Numerals with leading zeros

A numeral stands for a number and begins with some zeros. The two together determine it, so
that a numeral in one base can be carried over to another base and back.
-/
namespace Radix

/-- Digits in base `b`, the most significant digit first. -/
@[ext]
structure Numeral (b : ℕ) where
  digits : List ℕ
  lt : ∀ d ∈ digits, d < b

variable {b c k n : ℕ}

theorem lt_of_mem_padded (hb : 1 < b) :
    ∀ d ∈ List.replicate k 0 ++ (Nat.digits b n).reverse, d < b := by
  intro d hd
  rcases List.mem_append.mp hd with hd | hd
  · rw [List.eq_of_mem_replicate hd]
    omega
  · exact Nat.digits_lt_base hb (List.mem_reverse.mp hd)

namespace Numeral

def value (m : Numeral b) : ℕ := Nat.ofDigits b m.digits.reverse

/-- The number of leading zeros. -/
def zeros (m : Numeral b) : ℕ := (m.digits.takeWhile (· == 0)).length

/-- So many zeros, and the number without any. -/
def padded (hb : 1 < b) (k n : ℕ) : Numeral b where
  digits := List.replicate k 0 ++ (Nat.digits b n).reverse
  lt := lt_of_mem_padded hb

/-- The same leading zeros and the same number, in another base. -/
def convert (hc : 1 < c) (m : Numeral b) : Numeral c := padded hc m.zeros m.value

/-- The digits are added up from the left. -/
theorem value_eq_foldl (m : Numeral b) : m.value = m.digits.foldl (fun n d => d + b * n) 0 := by
  rw [value, Nat.ofDigits_eq_foldr, List.foldr_reverse]
  rfl

/-- The leading zeros, read off before the characters are taken as digits. -/
theorem length_takeWhile_map {α : Type*} [BEq α] [LawfulBEq α] {f : α → ℕ} {zero : α}
    (hf : ∀ x, f x = 0 ↔ x = zero) (xs : List α) :
    ((xs.map f).takeWhile (· == 0)).length = (xs.takeWhile (· == zero)).length := by
  have hzero : (fun x => f x == 0) = (· == zero) := by
    funext x
    rw [Bool.eq_iff_iff, beq_iff_eq, beq_iff_eq]
    exact hf x
  rw [List.takeWhile_map, List.length_map]
  exact congrArg (fun p => (xs.takeWhile p).length) hzero

theorem value_padded (hb : 1 < b) : (padded hb k n).value = n := by
  rw [value, padded, List.reverse_append, List.reverse_reverse, List.reverse_replicate,
    Nat.ofDigits_append_replicate_zero, Nat.ofDigits_digits]

/-- A number is written without a leading zero. -/
theorem head?_digits_ne_zero (b n : ℕ) : (Nat.digits b n).reverse.head? ≠ some 0 := by
  rw [List.head?_reverse]
  intro h
  rcases eq_or_ne n 0 with rfl | hn
  · simp at h
  · have hlast := Nat.getLast_digit_ne_zero b hn
    rw [List.getLast?_eq_some_getLast (Nat.digits_ne_nil_iff_ne_zero.mpr hn)] at h
    exact hlast (Option.some.inj h)

theorem takeWhile_zero_of_head? {ds : List ℕ} (h : ds.head? ≠ some 0) :
    ds.takeWhile (· == 0) = [] := by
  cases ds with
  | nil => rfl
  | cons d ds =>
    have hd : (d == 0) = false := beq_eq_false_iff_ne.mpr fun h0 => h (h0 ▸ rfl)
    rw [List.takeWhile_cons, hd]
    rfl

theorem zeros_padded (hb : 1 < b) : (padded hb k n).zeros = k := by
  have hall : ∀ d ∈ List.replicate k 0, (d == 0) = true := fun d hd => by
    rw [List.eq_of_mem_replicate hd, beq_self_eq_true]
  rw [zeros, padded, List.takeWhile_append_of_pos hall,
    takeWhile_zero_of_head? (head?_digits_ne_zero b n), List.append_nil, List.length_replicate]

/-- Behind the leading zeros are the digits of the number. -/
theorem digits_eq (m : Numeral b) :
    m.digits = List.replicate m.zeros 0 ++ m.digits.dropWhile (· == 0) := by
  have hzeros : m.digits.takeWhile (· == 0) = List.replicate m.zeros 0 :=
    List.eq_replicate_of_mem fun d hd =>
      beq_iff_eq.mp (List.mem_takeWhile_imp (p := (· == 0)) hd)
  rw [← hzeros, List.takeWhile_append_dropWhile]

theorem digits_value (hb : 1 < b) (m : Numeral b) :
    Nat.digits b m.value = (m.digits.dropWhile (· == 0)).reverse := by
  have hvalue : m.value = Nat.ofDigits b (m.digits.dropWhile (· == 0)).reverse := by
    conv_lhs => rw [value, m.digits_eq]
    rw [List.reverse_append, List.reverse_replicate, Nat.ofDigits_append_replicate_zero]
  rw [hvalue]
  refine Nat.digits_ofDigits b hb _ ?_ ?_
  · intro d hd
    exact m.lt d ((List.dropWhile_suffix _).subset (List.mem_reverse.mp hd))
  · intro hne
    rw [List.getLast_reverse]
    exact beq_eq_false_iff_ne.mp (List.head_dropWhile_not (· == 0) _)

/-- Leading zeros and number determine the numeral. -/
theorem padded_zeros_value (hb : 1 < b) (m : Numeral b) : padded hb m.zeros m.value = m := by
  apply Numeral.ext
  calc (padded hb m.zeros m.value).digits
      = List.replicate m.zeros 0 ++ (Nat.digits b m.value).reverse := rfl
    _ = List.replicate m.zeros 0 ++ m.digits.dropWhile (· == 0) := by
        rw [digits_value hb, List.reverse_reverse]
    _ = m.digits := m.digits_eq.symm

theorem convert_convert (hb : 1 < b) (hc : 1 < c) (m : Numeral b) :
    (m.convert hc).convert hb = m := by
  rw [convert, convert, zeros_padded, value_padded, padded_zeros_value]

theorem convert_injective (hb : 1 < b) (hc : 1 < c) :
    Function.Injective (convert hc : Numeral b → Numeral c) :=
  Function.LeftInverse.injective (convert_convert hb hc)

end Numeral

end Radix
