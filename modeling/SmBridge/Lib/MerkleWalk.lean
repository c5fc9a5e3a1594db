import SmBridge.Lib.MerkleShape

/-!
# The bottom-up walk

A verifier holds a leaf number and the number of the last leaf, and shifts the two
right as it climbs. The theorems say that these counters spell out the turns of the
recursive tree, for every size.
-/
namespace MerkleWalk

open MerkleShape

/-- The node numbered `fn` on a level whose last node is `sn` takes its sibling from the
left. -/
def isRight (fn sn : ℕ) : Bool := fn % 2 == 1 || fn == sn

/-- Levels on which a node has no sibling are passed over. -/
def skipEven (fn sn : ℕ) : ℕ × ℕ :=
  if fn ≠ 0 ∧ fn % 2 = 0 then skipEven (fn / 2) (sn / 2) else (fn, sn)
termination_by fn

def advance (p : ℕ × ℕ) : ℕ × ℕ :=
  let q := if isRight p.1 p.2 then skipEven p.1 p.2 else p
  (q.1 / 2, q.2 / 2)

def after : ℕ → ℕ × ℕ → ℕ × ℕ
  | 0, p => p
  | c + 1, p => after c (advance p)

def walkTurns : ℕ → ℕ × ℕ → List Bool
  | 0, _ => []
  | c + 1, p => isRight p.1 p.2 :: walkTurns c (advance p)

@[simp] theorem walkTurns_length (c : ℕ) (p : ℕ × ℕ) : (walkTurns c p).length = c := by
  induction c generalizing p with
  | zero => rfl
  | succ c ih => simp [walkTurns, ih]

theorem skipEven_odd {fn : ℕ} (h : fn % 2 = 1) (sn : ℕ) : skipEven fn sn = (fn, sn) := by
  rw [skipEven]; simp [h]

theorem skipEven_double {f : ℕ} (h : 0 < f) (s : ℕ) :
    skipEven (2 * f) (2 * s) = skipEven f s := by
  conv_lhs => rw [skipEven]
  rw [if_pos ⟨by omega, by omega⟩]
  congr 1 <;> omega

theorem advance_zero : advance (0, 0) = (0, 0) := by
  simp [advance, isRight, skipEven]

theorem advance_plain {fn sn : ℕ} (h : fn = sn → fn % 2 = 1) :
    advance (fn, sn) = (fn / 2, sn / 2) := by
  by_cases hodd : fn % 2 = 1
  · simp [advance, skipEven_odd hodd]
  · have hne : fn ≠ sn := fun he => hodd (h he)
    simp [advance, isRight, hodd, hne]

theorem advance_double {f : ℕ} (h : 0 < f) : advance (2 * f, 2 * f) = advance (f, f) := by
  simp [advance, isRight, skipEven_double h]

theorem turns_plain : ∀ n i, i < n → 2 ≤ n → (i = n - 1 → i % 2 = 1) →
    turns n i = (i % 2 == 1) :: turns ((n - 1) / 2 + 1) (i / 2) := by
  apply leaf_induction
  · intro h; exact absurd h (by decide)
  · intro n i hn hi ih _ _
    obtain ⟨e, he, hlo, hhi⟩ := split_bounds hn
    rw [turns_left hn hi, he]
    rw [he] at hi ih
    cases e with
    | zero =>
      obtain rfl : n = 2 := by simp only [Nat.pow_succ, Nat.pow_zero] at *; omega
      obtain rfl : i = 0 := by simp only [Nat.pow_zero] at *; omega
      simp
    | succ e =>
      rw [Nat.pow_succ] at hlo hhi
      have hpe := Nat.pow_succ 2 e
      have hpos : 0 < 2 ^ e := Nat.pow_pos (by decide)
      have hup : split ((n - 1) / 2 + 1) = 2 ^ e := split_unique (by omega) (by omega)
      rw [ih (by omega) (by omega)]
      have hhalf : (2 ^ (e + 1) - 1) / 2 + 1 = 2 ^ e := by omega
      rw [hhalf, turns_left (n := (n - 1) / 2 + 1) (by omega) (by omega), hup]
      rfl
  · intro n i hn hi hlt ih _ hlast
    obtain ⟨e, he, hlo, hhi⟩ := split_bounds hn
    rw [turns_right hn hi, he]
    rw [he] at hi ih
    rw [Nat.pow_succ] at hhi
    cases e with
    | zero =>
      obtain rfl : n = 2 := by simp only [Nat.pow_zero] at *; omega
      obtain rfl : i = 1 := by simp only [Nat.pow_zero] at *; omega
      simp
    | succ e =>
      have hpe := Nat.pow_succ 2 e
      have hpos : 0 < 2 ^ e := Nat.pow_pos (by decide)
      rw [ih (by omega) (by omega)]
      have hup : split ((n - 1) / 2 + 1) = 2 ^ e := split_unique (by omega) (by omega)
      rw [turns_right (n := (n - 1) / 2 + 1) (by omega) (by omega), hup]
      have hpar : (i - 2 ^ (e + 1)) % 2 = i % 2 := by omega
      have hsize : (n - 2 ^ (e + 1) - 1) / 2 + 1 = (n - 1) / 2 + 1 - 2 ^ e := by omega
      have hidx : (i - 2 ^ (e + 1)) / 2 = i / 2 - 2 ^ e := by omega
      rw [hpar, hsize, hidx]
      rfl

/-- A last node without a sibling moves up a level and keeps its turns. -/
theorem turns_last_double (f : ℕ) (hf : 0 < f) : turns (2 * f + 1) (2 * f) = turns (f + 1) f := by
  induction f using Nat.strong_induction_on with
  | h f ih =>
    obtain ⟨e, he, hlo, hhi⟩ := split_bounds (n := 2 * f + 1) (by omega)
    rw [Nat.pow_succ] at hhi
    have hlt := split_lt (n := 2 * f + 1) (by omega)
    have hle : split (2 * f + 1) ≤ 2 * f := by omega
    rw [turns_right (by omega) hle, he]
    cases e with
    | zero => simp only [Nat.pow_zero] at *; omega
    | succ e =>
      have hpe := Nat.pow_succ 2 e
      have hup : split (f + 1) = 2 ^ e := split_unique (by omega) (by omega)
      rw [turns_right (n := f + 1) (by omega) (by omega), hup]
      rcases Nat.eq_or_lt_of_le (show 2 ^ e ≤ f by omega) with hfe | hfe
      · have h1 : 2 * f + 1 - 2 ^ (e + 1) = 1 := by omega
        have h2 : f + 1 - 2 ^ e = 1 := by omega
        rw [h1, h2, turns_one, turns_one]
      · have h1 : 2 * f + 1 - 2 ^ (e + 1) = 2 * (f - 2 ^ e) + 1 := by omega
        have h2 : 2 * f - 2 ^ (e + 1) = 2 * (f - 2 ^ e) := by omega
        have h3 : f + 1 - 2 ^ e = f - 2 ^ e + 1 := by omega
        have hpos : 0 < 2 ^ e := Nat.pow_pos (by decide)
        rw [h1, h2, h3, ih (f - 2 ^ e) (by omega) (by omega)]

/-- One step of the walk is one level of the tree. -/
theorem turns_advance (fn sn : ℕ) (hle : fn ≤ sn) (hsn : sn ≠ 0) :
    (advance (fn, sn)).1 ≤ (advance (fn, sn)).2 ∧
    turns (sn + 1) fn =
      isRight fn sn :: turns ((advance (fn, sn)).2 + 1) (advance (fn, sn)).1 := by
  induction fn using Nat.strong_induction_on generalizing sn with
  | h fn ih =>
    by_cases hlast : fn = sn ∧ fn % 2 = 0
    · -- a last even node has no sibling on its level; the walk goes on one level up
      obtain ⟨rfl, heven⟩ := hlast
      obtain ⟨f, rfl⟩ : ∃ f, fn = 2 * f := ⟨fn / 2, by omega⟩
      obtain ⟨hadv, hturns⟩ := ih f (by omega) f le_rfl (by omega)
      rw [advance_double (by omega), turns_last_double f (by omega)]
      refine ⟨hadv, ?_⟩
      rw [hturns]
      simp [isRight]
    · have hodd : fn = sn → fn % 2 = 1 := fun he => by
        by_contra hne
        exact hlast ⟨he, by omega⟩
      rw [advance_plain hodd]
      refine ⟨Nat.div_le_div_right hle, ?_⟩
      rw [turns_plain (sn + 1) fn (by omega) (by omega) (by simpa using hodd)]
      have hr : isRight fn sn = (fn % 2 == 1) := by
        by_cases he : fn = sn
        · simp [isRight, hodd he]
        · simp [isRight, he]
      simp [hr]

/-- The counters reached after `c` levels carry exactly the turns that are left. -/
theorem turns_after (c fn sn : ℕ) (hle : fn ≤ sn) :
    (after c (fn, sn)).1 ≤ (after c (fn, sn)).2 ∧
    turns ((after c (fn, sn)).2 + 1) (after c (fn, sn)).1 = (turns (sn + 1) fn).drop c := by
  induction c generalizing fn sn with
  | zero => exact ⟨hle, rfl⟩
  | succ c ih =>
    rcases Nat.eq_zero_or_pos sn with rfl | hsn
    · obtain rfl : fn = 0 := by omega
      have hstay := ih 0 0 le_rfl
      simp only [after, advance_zero]
      refine ⟨hstay.1, hstay.2.trans ?_⟩
      simp
    · obtain ⟨hadv, hturns⟩ := turns_advance fn sn hle (by omega)
      rw [hturns]
      exact ih _ _ hadv

/-- The turns of the walk are those of the tree, and right turns beyond the root. -/
theorem walkTurns_eq (c fn sn : ℕ) (hle : fn ≤ sn) :
    walkTurns c (fn, sn) = (turns (sn + 1) fn ++ List.replicate c true).take c := by
  induction c generalizing fn sn with
  | zero => rfl
  | succ c ih =>
    rcases Nat.eq_zero_or_pos sn with rfl | hsn
    · obtain rfl : fn = 0 := by omega
      have hstay := ih 0 0 le_rfl
      simp only [walkTurns, advance_zero, hstay]
      simp [isRight, List.replicate_succ]
    · obtain ⟨hadv, hturns⟩ := turns_advance fn sn hle (by omega)
      rw [walkTurns, ih _ _ hadv, hturns, List.cons_append, List.take_succ_cons]
      congr 1
      rw [List.replicate_succ', ← List.append_assoc]
      exact (List.take_append_of_le_length (by simp)).symm

theorem walkTurns_take {c fn sn : ℕ} (hle : fn ≤ sn) (hc : c ≤ (turns (sn + 1) fn).length) :
    walkTurns c (fn, sn) = (turns (sn + 1) fn).take c := by
  rw [walkTurns_eq c fn sn hle, List.take_append_of_le_length hc]

theorem walkTurns_inside {c fn sn : ℕ} (hle : fn ≤ sn)
    (h : IsPosition (sn + 1) (walkTurns c (fn, sn)).reverse) : c ≤ (turns (sn + 1) fn).length := by
  by_contra hlong
  obtain ⟨extra, hextra⟩ := Nat.exists_eq_add_of_lt (Nat.not_le.mp hlong)
  have hturns : walkTurns c (fn, sn) =
      turns (sn + 1) fn ++ List.replicate (extra + 1) true := by
    rw [walkTurns_eq c fn sn hle, List.take_append, List.take_of_length_le (by omega),
      List.take_replicate]
    congr 2
    omega
  rw [hturns, List.reverse_append, List.reverse_replicate] at h
  exact not_position_beyond_leaf _ fn (Nat.lt_succ_of_le hle) extra h

theorem turns_eq_nil (fn sn : ℕ) (hle : fn ≤ sn) : turns (sn + 1) fn = [] ↔ sn = 0 := by
  constructor
  · intro h
    by_contra hsn
    rw [(turns_advance fn sn hle hsn).2] at h
    exact absurd h (by simp)
  · rintro rfl; exact turns_one fn

/-- The size counter is used up exactly when no turn is left. -/
theorem after_snd_eq_zero (c fn sn : ℕ) (hle : fn ≤ sn) :
    (after c (fn, sn)).2 = 0 ↔ (turns (sn + 1) fn).length ≤ c := by
  obtain ⟨hadv, hturns⟩ := turns_after c fn sn hle
  rw [← turns_eq_nil _ _ hadv, hturns, List.drop_eq_nil_iff]

theorem after_fst_eq_zero (c fn sn : ℕ) (hle : fn ≤ sn) :
    (after c (fn, sn)).1 = 0 ↔ ∀ t ∈ (turns (sn + 1) fn).drop c, t = false := by
  obtain ⟨hadv, hturns⟩ := turns_after c fn sn hle
  rw [← hturns, turns_all_left _ _ (Nat.lt_succ_of_le hadv)]

end MerkleWalk
