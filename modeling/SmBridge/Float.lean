import SmBridge.Lib.Rounding
import SmBridge.Python
import Mathlib.Data.Int.Order.Basic
import Mathlib.Algebra.Order.Field.Rat
import Mathlib.Tactic.NormNum

/-!
# Floats and timestamps

A Python float is a rational number, an infinity or NaN. An aware `datetime` is only ever
compared, so it is kept as its instant, in microseconds since 1970.
-/
namespace Python

open Rounding

/-- A Python float. No modelled code tells the two zeros apart. -/
inductive PyFloat where
  | finite (q : Rat)
  | posInf
  | negInf
  | nan
  deriving DecidableEq, Repr

def PyFloat.lt : PyFloat → PyFloat → Bool
  | .finite x, .finite y => x < y
  | .finite _, .posInf => true
  | .negInf, .finite _ => true
  | .negInf, .posInf => true
  | _, _ => false

def floatOfInt (n : ℤ) : Except PyError PyFloat :=
  if roundTo 53 n.natAbs < 2 ^ 1024 then .ok (.finite (n.sign * roundTo 53 n.natAbs : ℤ))
  else .error (.overflowError "int too large to convert to float")

def PyFloat.toInt : PyFloat → Except PyError ℤ
  | .finite q => .ok (q.num.tdiv q.den)
  | .nan => .error (.valueError "cannot convert float NaN to integer")
  | _ => .error (.overflowError "cannot convert float infinity to integer")

/-- The integers that `float` converts: those below the midpoint between the largest double
and `2 ^ 1024`. -/
def Floatable (n : ℤ) : Prop := n.natAbs < 2 ^ 1024 - 2 ^ 970

theorem floatOfInt_eq_ok {n : ℤ} {x : PyFloat} :
    floatOfInt n = .ok x ↔ Floatable n ∧ x = .finite (n.sign * roundTo 53 n.natAbs : ℤ) := by
  have hrange : roundTo 53 n.natAbs < 2 ^ 1024 ↔ Floatable n := by
    rw [roundTo_lt_iff (by norm_num) (by norm_num), Floatable, Nat.lt_sub_iff_add_lt]
  rw [floatOfInt, ← hrange]
  split
  · rename_i h
    rw [Except.ok.injEq, eq_comm]
    exact ⟨fun hx => ⟨h, hx⟩, fun hx => hx.2⟩
  · rename_i h
    exact ⟨fun herr => absurd herr (by simp), fun hx => absurd hx.1 h⟩

theorem floatable_of_lt {n : ℤ} (h : n.natAbs < 2 ^ 53) : Floatable n :=
  h.trans (by decide +kernel)

theorem floatOfInt_of_lt {n : ℤ} (h : n.natAbs < 2 ^ 53) : floatOfInt n = .ok (.finite n) := by
  rw [floatOfInt_eq_ok, roundTo_of_lt (by norm_num) h, Int.sign_mul_natAbs]
  exact ⟨floatable_of_lt h, rfl⟩

theorem floatOfInt_lt_iff {n m : ℤ} {x : PyFloat} (hn : floatOfInt n = .ok x)
    (hm : m.natAbs < 2 ^ 53) : x.lt (.finite m) = true ↔ n < m := by
  obtain ⟨-, rfl⟩ := floatOfInt_eq_ok.mp hn
  rw [PyFloat.lt, decide_eq_true_eq, Int.cast_lt]
  by_cases hsmall : n.natAbs < 2 ^ 53
  · rw [roundTo_of_lt (by norm_num) hsmall, Int.sign_mul_natAbs]
  · have hlarge : 2 ^ 53 ≤ roundTo 53 n.natAbs := pow_le_roundTo (by norm_num) (not_lt.mp hsmall)
    rcases lt_trichotomy n 0 with hneg | rfl | hpos
    · rw [Int.sign_eq_neg_one_of_neg hneg]
      omega
    · exact absurd (by norm_num) hsmall
    · rw [Int.sign_eq_one_of_pos hpos]
      omega

/-! ## Timestamps -/

/-- The years 1 to 9999, in seconds since 1970. -/
def minSeconds : ℤ := -62135596800
def maxSeconds : ℤ := 253402300799

/-- What the C library's `gmtime` can give a year to. -/
def minGmtime : ℤ := -67768040609740800
def maxGmtime : ℤ := 67768036191676799

/-- A float of seconds in microseconds: the fraction is scaled as a float, then rounded half
to even. -/
def microseconds (q : Rat) : ℤ :=
  let whole := q.num.tdiv q.den
  let part := q.num.tmod q.den
  whole * 10 ^ 6 + part.sign * halfEven (roundTo 53 (part.natAbs * 10 ^ 6)) q.den

/-- `datetime.fromtimestamp(t, tz=timezone.utc)`. The text of the last error names the year,
which is left out. -/
def fromTimestamp : PyFloat → Except PyError ℤ
  | .nan => .error (.valueError "Invalid value NaN (not a number)")
  | .posInf => .error (.overflowError "timestamp out of range for platform time_t")
  | .negInf => .error (.overflowError "timestamp out of range for platform time_t")
  | .finite q =>
    let instant := microseconds q
    let seconds := instant / 10 ^ 6
    if seconds < -2 ^ 63 ∨ 2 ^ 63 ≤ seconds then
      .error (.overflowError "timestamp out of range for platform time_t")
    else if seconds < minGmtime ∨ maxGmtime < seconds then
      .error (.other "OSError" "[Errno 75] Value too large for defined data type")
    else if seconds < minSeconds ∨ maxSeconds < seconds then
      .error (.valueError "year is out of range")
    else .ok instant

/-- The whole seconds that a `datetime` can hold. -/
def InYearRange (seconds : ℤ) : Prop := minSeconds ≤ seconds ∧ seconds ≤ maxSeconds

theorem microseconds_intCast (n : ℤ) : microseconds n = n * 10 ^ 6 := by
  simp [microseconds]

theorem fromTimestamp_intCast {n instant : ℤ} :
    fromTimestamp (.finite n) = .ok instant ↔ InYearRange n ∧ instant = n * 10 ^ 6 := by
  have hseconds : n * 10 ^ 6 / 10 ^ 6 = n := Int.mul_ediv_cancel n (by norm_num)
  simp only [fromTimestamp, microseconds_intCast, hseconds, InYearRange, minSeconds, maxSeconds,
    minGmtime, maxGmtime]
  split
  · simp only [reduceCtorEq, false_iff, not_and]
    omega
  split
  · simp only [reduceCtorEq, false_iff, not_and]
    omega
  split
  · simp only [reduceCtorEq, false_iff, not_and]
    omega
  · rw [Except.ok.injEq, eq_comm (b := instant)]
    refine ⟨fun h => ⟨by omega, h⟩, fun h => h.2⟩

theorem InYearRange.natAbs_lt {n : ℤ} (h : InYearRange n) : n.natAbs < 2 ^ 53 := by
  simp only [InYearRange, minSeconds, maxSeconds] at h
  omega

/-- An integer time passes both conversions exactly when its year is in range, and is then
kept as it is. -/
theorem fromTimestamp_floatOfInt {n instant : ℤ} {x : PyFloat} :
    floatOfInt n = .ok x ∧ fromTimestamp x = .ok instant ↔
      InYearRange n ∧ x = .finite n ∧ instant = n * 10 ^ 6 := by
  constructor
  · rintro ⟨hx, hinstant⟩
    obtain ⟨-, hround⟩ := floatOfInt_eq_ok.mp hx
    have hrange := (fromTimestamp_intCast.mp (hround ▸ hinstant)).1.natAbs_lt
    have hsmall : n.natAbs < 2 ^ 53 := by
      by_contra hlarge
      have hround := pow_le_roundTo (by norm_num) (not_lt.mp hlarge) (p := 53)
      rw [Int.natAbs_mul, Int.natAbs_natCast, Int.natAbs_sign_of_ne_zero (by omega)] at hrange
      omega
    rw [floatOfInt_of_lt hsmall, Except.ok.injEq] at hx
    obtain ⟨hyear, hinstant⟩ := fromTimestamp_intCast.mp (hx ▸ hinstant)
    exact ⟨hyear, hx.symm, hinstant⟩
  · rintro ⟨hyear, rfl, rfl⟩
    exact ⟨floatOfInt_of_lt hyear.natAbs_lt, fromTimestamp_intCast.mpr ⟨hyear, rfl⟩⟩

end Python
