import SmBridge.Lib.Regex
import Mathlib.Computability.Language

/-!
# The words that a pattern takes

A pattern that looks at nothing but the characters it takes matches the words of a language,
wherever it stands. Where a pattern looks around, the places it leads to are described one
construct at a time.
-/
namespace Regex

variable {χ : Type*} {x y : Place χ} {u v w : List χ} {p : χ → Bool} {n least most : ℕ}

/-- The place `y` stands behind the word, read from `x`. -/
def Place.Behind (x : Place χ) (w : List χ) (y : Place χ) : Prop :=
  y.before = w.reverse ++ x.before ∧ x.after = w ++ y.after

theorem Place.behind_nil : x.Behind [] y ↔ y = x := by
  obtain ⟨before, after⟩ := x
  obtain ⟨before', after'⟩ := y
  simp [Behind, eq_comm]

theorem Place.behind_append : x.Behind (u ++ v) y ↔ ∃ z, x.Behind u z ∧ z.Behind v y := by
  constructor
  · intro ⟨hbefore, hafter⟩
    refine ⟨⟨u.reverse ++ x.before, v ++ y.after⟩, ⟨rfl, ?_⟩, ?_, rfl⟩
    · rw [hafter, List.append_assoc]
    · rw [hbefore, List.reverse_append, List.append_assoc]
  · intro ⟨z, hxz, hzy⟩
    constructor
    · rw [hzy.1, hxz.1, List.reverse_append, List.append_assoc]
    · rw [hxz.2, hzy.2, List.append_assoc]

/-! ## One construct at a time -/

namespace Pattern

variable {first second body : Pattern χ} {newline : χ → Bool}

theorem mem_ends_char : y ∈ (char p).ends x ↔ ∃ c, p c = true ∧ x.Behind [c] y := by
  obtain ⟨before, after⟩ := x
  obtain ⟨before', after'⟩ := y
  cases after with
  | nil => simp [ends, Place.Behind]
  | cons d rest =>
    by_cases hd : p d = true
    · simp only [ends, hd, if_true, List.mem_singleton, Place.mk.injEq, Place.Behind,
        List.reverse_singleton, List.singleton_append, List.cons.injEq]
      constructor
      · intro ⟨hbefore, hafter⟩
        exact ⟨d, hd, hbefore, rfl, hafter.symm⟩
      · intro ⟨c, _, hbefore, hc, hafter⟩
        exact ⟨hc ▸ hbefore, hafter.symm⟩
    · simp only [ends, if_neg hd, List.not_mem_nil, false_iff, not_exists, not_and]
      intro c hc hbehind
      obtain rfl : d = c := (List.cons.inj hbehind.2).1
      exact hd hc

theorem mem_ends_seq :
    y ∈ (seq first second).ends x ↔ ∃ z, z ∈ first.ends x ∧ y ∈ second.ends z := by
  rw [ends, List.mem_flatMap]

theorem mem_ends_start : y ∈ (start : Pattern χ).ends x ↔ y = x ∧ x.before = [] := by
  rw [ends]
  split <;> simp_all

theorem mem_ends_finish : y ∈ (finish newline).ends x ↔
    y = x ∧ (x.after = [] ∨ ∃ c, x.after = [c] ∧ newline c = true) := by
  obtain ⟨before, after⟩ := x
  rcases after with - | ⟨c, - | ⟨d, rest⟩⟩
  · simp [ends]
  · by_cases hc : newline c = true <;> simp [ends, hc]
  · simp [ends]

theorem mem_ends_ahead : y ∈ (ahead body).ends x ↔ y = x ∧ ∃ z, z ∈ body.ends x := by
  rw [ends, ← List.isEmpty_eq_false_iff_exists_mem]
  cases (body.ends x).isEmpty <;> simp

theorem mem_ends_notAhead : y ∈ (notAhead body).ends x ↔ y = x ∧ ∀ z, z ∉ body.ends x := by
  rw [ends, ← List.eq_nil_iff_forall_not_mem, ← List.isEmpty_iff]
  cases (body.ends x).isEmpty <;> simp

theorem mem_ends_notAhead_char :
    y ∈ (notAhead (char p)).ends x ↔ y = x ∧ ∀ c, x.after.head? = some c → p c = false := by
  obtain ⟨before, after⟩ := x
  rw [mem_ends_notAhead]
  cases after with
  | nil => simp [ends]
  | cons c rest => by_cases hc : p c = true <;> simp [ends, hc]

theorem mem_ends_notBehind :
    y ∈ (notBehind p).ends x ↔ y = x ∧ ∀ c, x.before.head? = some c → p c = false := by
  obtain ⟨before, after⟩ := x
  cases before with
  | nil => simp [ends]
  | cons c rest => by_cases hc : p c = true <;> simp [ends, hc]

theorem matches_iff {pattern : Pattern χ} {text : List χ} :
    pattern.matches_ text = true ↔ ∃ y, y ∈ pattern.ends ⟨[], text⟩ := by
  rw [matches_, matchAt, Option.isSome_map, ← List.isEmpty_eq_false_iff_exists_mem]
  cases pattern.ends ⟨[], text⟩ <;> simp

end Pattern

/-! ## Languages -/

/-- From every place, the pattern leads behind the words of the language that follow there. -/
def Spells (pattern : Pattern χ) (l : Language χ) : Prop :=
  ∀ x y, y ∈ pattern.ends x ↔ ∃ w ∈ l, x.Behind w y

/-- The words of one character. -/
def chars (p : χ → Bool) : Language χ := {w | ∃ c, p c = true ∧ w = [c]}

variable {pattern first second : Pattern χ} {l m : Language χ}

theorem mem_chars : w ∈ chars p ↔ ∃ c, p c = true ∧ w = [c] := Iff.rfl

theorem mem_chars_pow : w ∈ chars p ^ n ↔ w.length = n ∧ ∀ c ∈ w, p c = true := by
  induction n generalizing w with
  | zero =>
    rw [pow_zero, Language.mem_one, List.length_eq_zero_iff]
    exact ⟨fun h => ⟨h, by simp [h]⟩, And.left⟩
  | succ n ih =>
    rw [pow_succ', Language.mem_mul]
    constructor
    · rintro ⟨_, ⟨c, hc, rfl⟩, v, hv, rfl⟩
      obtain ⟨hlength, hall⟩ := ih.mp hv
      exact ⟨by simp [hlength], List.forall_mem_cons.mpr ⟨hc, hall⟩⟩
    · intro ⟨hlength, hall⟩
      obtain ⟨c, v, rfl⟩ := List.exists_cons_of_length_eq_add_one hlength
      obtain ⟨hc, hv⟩ := List.forall_mem_cons.mp hall
      exact ⟨[c], ⟨c, hc, rfl⟩, v, ih.mpr ⟨Nat.succ.inj hlength, hv⟩, rfl⟩

theorem length_le_of_mem_pow (hl : [] ∉ l) (hw : w ∈ l ^ n) : n ≤ w.length := by
  induction n generalizing w with
  | zero => exact Nat.zero_le _
  | succ n ih =>
    rw [pow_succ', Language.mem_mul] at hw
    obtain ⟨u, hu, v, hv, rfl⟩ := hw
    have hpos : 0 < u.length := List.length_pos_of_ne_nil fun h => hl (h ▸ hu)
    have hle := ih hv
    rw [List.length_append]
    omega

theorem Spells.char : Spells (.char p) (chars p) := by
  intro x y
  rw [Pattern.mem_ends_char]
  constructor
  · intro ⟨c, hc, hbehind⟩
    exact ⟨[c], ⟨c, hc, rfl⟩, hbehind⟩
  · rintro ⟨_, ⟨c, hc, rfl⟩, hbehind⟩
    exact ⟨c, hc, hbehind⟩

theorem Spells.seq (hfirst : Spells first l) (hsecond : Spells second m) :
    Spells (.seq first second) (l * m) := by
  intro x y
  rw [Pattern.mem_ends_seq]
  constructor
  · intro ⟨z, hz, hy⟩
    obtain ⟨u, hu, hxz⟩ := (hfirst x z).mp hz
    obtain ⟨v, hv, hzy⟩ := (hsecond z y).mp hy
    exact ⟨u ++ v, Language.append_mem_mul hu hv, Place.behind_append.mpr ⟨z, hxz, hzy⟩⟩
  · intro ⟨w, hw, hbehind⟩
    obtain ⟨u, hu, v, hv, rfl⟩ := Language.mem_mul.mp hw
    obtain ⟨z, hxz, hzy⟩ := Place.behind_append.mp hbehind
    exact ⟨z, (hfirst x z).mpr ⟨u, hu, hxz⟩, (hsecond z y).mpr ⟨v, hv, hzy⟩⟩

theorem Spells.exactly (h : Spells pattern l) (n : ℕ) (x y : Place χ) :
    y ∈ Regex.exactly pattern.ends n x ↔ ∃ w ∈ l ^ n, x.Behind w y := by
  induction n generalizing x with
  | zero => simp [Regex.exactly, Place.behind_nil]
  | succ n ih =>
    rw [Regex.exactly, List.mem_flatMap]
    constructor
    · intro ⟨z, hz, hy⟩
      obtain ⟨u, hu, hxz⟩ := (h x z).mp hz
      obtain ⟨v, hv, hzy⟩ := (ih z).mp hy
      rw [pow_succ']
      exact ⟨u ++ v, Language.append_mem_mul hu hv, Place.behind_append.mpr ⟨z, hxz, hzy⟩⟩
    · intro ⟨w, hw, hbehind⟩
      rw [pow_succ', Language.mem_mul] at hw
      obtain ⟨u, hu, v, hv, rfl⟩ := hw
      obtain ⟨z, hxz, hzy⟩ := Place.behind_append.mp hbehind
      exact ⟨z, (h x z).mpr ⟨u, hu, hxz⟩, (ih z).mpr ⟨v, hv, hzy⟩⟩

/-- More steps come first, but any number of them is there. -/
theorem mem_upTo {step : Place χ → List (Place χ)} :
    y ∈ upTo step n x ↔ ∃ k ≤ n, y ∈ exactly step k x := by
  induction n generalizing x with
  | zero =>
    constructor
    · exact fun h => ⟨0, le_rfl, h⟩
    · intro ⟨k, hk, h⟩
      obtain rfl := Nat.le_zero.mp hk
      exact h
  | succ n ih =>
    rw [upTo, List.mem_append, List.mem_flatMap, List.mem_singleton]
    constructor
    · rintro (⟨z, hz, hy⟩ | rfl)
      · obtain ⟨k, hk, hy⟩ := ih.mp hy
        exact ⟨k + 1, Nat.succ_le_succ hk, List.mem_flatMap.mpr ⟨z, hz, hy⟩⟩
      · exact ⟨0, Nat.zero_le _, List.mem_singleton_self y⟩
    · intro ⟨k, hk, hy⟩
      cases k with
      | zero => exact Or.inr (List.mem_singleton.mp hy)
      | succ k =>
        obtain ⟨z, hz, hy⟩ := List.mem_flatMap.mp hy
        exact Or.inl ⟨z, hz, ih.mpr ⟨k, Nat.le_of_succ_le_succ hk, hy⟩⟩

/-- A repetition is so many steps, in two parts. -/
theorem Spells.mem_repeated (h : Spells pattern l) (bound : Option ℕ) :
    y ∈ (Pattern.repeated pattern least bound).ends x ↔
      ∃ u ∈ l ^ least, ∃ k, ∃ v ∈ l ^ k, x.Behind (u ++ v) y ∧
        k ≤ bound.elim (v ++ y.after).length (· - least) := by
  rw [Pattern.ends, List.mem_flatMap]
  constructor
  · intro ⟨z, hz, hy⟩
    obtain ⟨u, hu, hxz⟩ := (h.exactly least x z).mp hz
    obtain ⟨k, hk, hy⟩ := mem_upTo.mp hy
    obtain ⟨v, hv, hzy⟩ := (h.exactly k z y).mp hy
    rw [hzy.2] at hk
    exact ⟨u, hu, k, v, hv, Place.behind_append.mpr ⟨z, hxz, hzy⟩, hk⟩
  · intro ⟨u, hu, k, v, hv, hbehind, hk⟩
    obtain ⟨z, hxz, hzy⟩ := Place.behind_append.mp hbehind
    rw [← hzy.2] at hk
    exact ⟨z, (h.exactly least x z).mpr ⟨u, hu, hxz⟩,
      mem_upTo.mpr ⟨k, hk, (h.exactly k z y).mpr ⟨v, hv, hzy⟩⟩⟩

/-- From `least` to `most` words. -/
def between (l : Language χ) (least most : ℕ) : Language χ :=
  {w | ∃ n, least ≤ n ∧ n ≤ most ∧ w ∈ l ^ n}

/-- `least` words or more. -/
def atLeast (l : Language χ) (least : ℕ) : Language χ := {w | ∃ n, least ≤ n ∧ w ∈ l ^ n}

theorem mem_between_chars :
    w ∈ between (chars p) least most ↔
      least ≤ w.length ∧ w.length ≤ most ∧ ∀ c ∈ w, p c = true := by
  constructor
  · intro ⟨n, hleast, hmost, hw⟩
    obtain ⟨rfl, hall⟩ := mem_chars_pow.mp hw
    exact ⟨hleast, hmost, hall⟩
  · intro ⟨hleast, hmost, hall⟩
    exact ⟨w.length, hleast, hmost, mem_chars_pow.mpr ⟨rfl, hall⟩⟩

theorem Spells.between (h : Spells pattern l) (hle : least ≤ most) :
    Spells (.repeated pattern least (some most)) (between l least most) := by
  intro x y
  rw [h.mem_repeated]
  constructor
  · intro ⟨u, hu, k, v, hv, hbehind, hk⟩
    rw [Option.elim_some] at hk
    refine ⟨u ++ v, ⟨least + k, by omega, by omega, ?_⟩, hbehind⟩
    rw [pow_add]
    exact Language.append_mem_mul hu hv
  · intro ⟨w, ⟨n, hleast, hmost, hw⟩, hbehind⟩
    obtain ⟨k, rfl⟩ := Nat.exists_eq_add_of_le hleast
    rw [pow_add, Language.mem_mul] at hw
    obtain ⟨u, hu, v, hv, rfl⟩ := hw
    exact ⟨u, hu, k, v, hv, hbehind, by rw [Option.elim_some]; omega⟩

/-- Without a bound, there are no more words than characters. -/
theorem Spells.atLeast (h : Spells pattern l) (hl : [] ∉ l) :
    Spells (.repeated pattern least none) (atLeast l least) := by
  intro x y
  rw [h.mem_repeated]
  constructor
  · intro ⟨u, hu, k, v, hv, hbehind, _⟩
    refine ⟨u ++ v, ⟨least + k, by omega, ?_⟩, hbehind⟩
    rw [pow_add]
    exact Language.append_mem_mul hu hv
  · intro ⟨w, ⟨n, hleast, hw⟩, hbehind⟩
    obtain ⟨k, rfl⟩ := Nat.exists_eq_add_of_le hleast
    rw [pow_add, Language.mem_mul] at hw
    obtain ⟨u, hu, v, hv, rfl⟩ := hw
    refine ⟨u, hu, k, v, hv, hbehind, ?_⟩
    have hlength := length_le_of_mem_pow hl hv
    rw [Option.elim_none, List.length_append]
    omega

theorem mem_between_zero_one : w ∈ between l 0 1 ↔ w = [] ∨ w ∈ l := by
  constructor
  · rintro ⟨n, -, hn, hw⟩
    rcases Nat.le_one_iff_eq_zero_or_eq_one.mp hn with rfl | rfl
    · exact Or.inl ((Language.mem_one w).mp (pow_zero l ▸ hw))
    · exact Or.inr (pow_one l ▸ hw)
  · rintro (rfl | hw)
    · exact ⟨0, le_rfl, zero_le_one, Language.nil_mem_one⟩
    · exact ⟨1, zero_le_one, le_rfl, (pow_one l).symm ▸ hw⟩

theorem mem_atLeast_mul : w ∈ atLeast l least * m ↔ ∃ n, least ≤ n ∧ w ∈ l ^ n * m := by
  constructor
  · intro hw
    obtain ⟨u, ⟨n, hn, hu⟩, v, hv, rfl⟩ := Language.mem_mul.mp hw
    exact ⟨n, hn, Language.append_mem_mul hu hv⟩
  · intro ⟨n, hn, hw⟩
    obtain ⟨u, hu, v, hv, rfl⟩ := Language.mem_mul.mp hw
    exact Language.append_mem_mul ⟨n, hn, hu⟩ hv

theorem mem_mul_atLeast : w ∈ l * atLeast m least ↔ ∃ n, least ≤ n ∧ w ∈ l * m ^ n := by
  constructor
  · intro hw
    obtain ⟨u, hu, v, ⟨n, hn, hv⟩, rfl⟩ := Language.mem_mul.mp hw
    exact ⟨n, hn, Language.append_mem_mul hu hv⟩
  · intro ⟨n, hn, hw⟩
    obtain ⟨u, hu, v, hv, rfl⟩ := Language.mem_mul.mp hw
    exact Language.append_mem_mul hu ⟨n, hn, hv⟩

/-- It does not matter on which side of the words the separators are. -/
theorem mul_atLeast : l * atLeast (m * l) least = atLeast (l * m) least * l := by
  ext w
  rw [mem_mul_atLeast, mem_atLeast_mul]
  simp only [mul_pow_mul]

theorem nil_notMem_mul_of_left (hl : [] ∉ l) : [] ∉ l * m := by
  intro h
  obtain ⟨u, hu, v, -, heq⟩ := Language.mem_mul.mp h
  exact hl ((List.append_eq_nil_iff.mp heq).1 ▸ hu)

theorem nil_notMem_chars : [] ∉ chars p := by
  rintro ⟨c, -, hc⟩
  cases hc

/-! ## Patterns that read to the end -/

/-- From every place, the pattern leads somewhere if and only if the rest of the text is a word
of the language. -/
def Accepts (pattern : Pattern χ) (l : Language χ) : Prop :=
  ∀ x, (∃ y, y ∈ pattern.ends x) ↔ x.after ∈ l

/-- The end of the text may have a newline before it. -/
theorem Accepts.finish (newline : χ → Bool) :
    Accepts (.finish newline) (between (chars newline) 0 1) := by
  intro x
  rw [mem_between_zero_one]
  constructor
  · intro ⟨y, hy⟩
    rcases (Pattern.mem_ends_finish.mp hy).2 with hnil | ⟨c, hc, hnewline⟩
    · exact Or.inl hnil
    · exact Or.inr ⟨c, hnewline, hc⟩
  · rintro (hnil | ⟨c, hnewline, hc⟩)
    · exact ⟨x, Pattern.mem_ends_finish.mpr ⟨rfl, Or.inl hnil⟩⟩
    · exact ⟨x, Pattern.mem_ends_finish.mpr ⟨rfl, Or.inr ⟨c, hc, hnewline⟩⟩⟩

theorem Accepts.seq (hfirst : Spells first l) (hsecond : Accepts second m) :
    Accepts (.seq first second) (l * m) := by
  intro x
  rw [Language.mem_mul]
  constructor
  · intro ⟨y, hy⟩
    obtain ⟨z, hz, hy⟩ := Pattern.mem_ends_seq.mp hy
    obtain ⟨w, hw, hxz⟩ := (hfirst x z).mp hz
    exact ⟨w, hw, z.after, (hsecond z).mp ⟨y, hy⟩, hxz.2.symm⟩
  · intro ⟨u, hu, v, hv, heq⟩
    have hxz : x.Behind u ⟨u.reverse ++ x.before, v⟩ := ⟨rfl, heq.symm⟩
    obtain ⟨y, hy⟩ := (hsecond ⟨u.reverse ++ x.before, v⟩).mpr hv
    exact ⟨y, Pattern.mem_ends_seq.mpr ⟨_, (hfirst x _).mpr ⟨u, hu, hxz⟩, hy⟩⟩

/-- The words of both languages. -/
def both (l m : Language χ) : Language χ := {w | w ∈ l ∧ w ∈ m}

theorem mem_both : w ∈ both l m ↔ w ∈ l ∧ w ∈ m := Iff.rfl

theorem Accepts.ahead (hfirst : Accepts first l) (hsecond : Accepts second m) :
    Accepts (.seq (.ahead first) second) (both l m) := by
  intro x
  rw [mem_both, ← hfirst x, ← hsecond x]
  constructor
  · intro ⟨y, hy⟩
    obtain ⟨z, hz, hzy⟩ := Pattern.mem_ends_seq.mp hy
    obtain ⟨rfl, hahead⟩ := Pattern.mem_ends_ahead.mp hz
    exact ⟨hahead, y, hzy⟩
  · intro ⟨hahead, y, hy⟩
    exact ⟨y, Pattern.mem_ends_seq.mpr ⟨x, Pattern.mem_ends_ahead.mpr ⟨rfl, hahead⟩, hy⟩⟩

theorem Accepts.matches_iff (h : Accepts pattern l) (text : List χ) :
    (Pattern.seq .start pattern).matches_ text = true ↔ text ∈ l := by
  rw [Pattern.matches_iff, ← h ⟨[], text⟩]
  constructor
  · intro ⟨y, hy⟩
    obtain ⟨z, hz, hzy⟩ := Pattern.mem_ends_seq.mp hy
    obtain ⟨rfl, -⟩ := Pattern.mem_ends_start.mp hz
    exact ⟨y, hzy⟩
  · intro ⟨y, hy⟩
    exact ⟨y, Pattern.mem_ends_seq.mpr ⟨_, Pattern.mem_ends_start.mpr ⟨rfl, rfl⟩, hy⟩⟩

/-! ## Words that are counted -/

/-- What is in front of a tail is not longer than a name whose last character no tail has. -/
theorem length_le_of_append_eq {tail tail' : List χ} (heq : w ++ tail = u ++ tail')
    (hlast : ∀ c, w.getLast? = some c → c ∉ tail') : w.length ≤ u.length := by
  rcases List.append_eq_append_iff.mp heq with ⟨rest, rfl, -⟩ | ⟨rest, rfl, htail⟩
  · rw [List.length_append]
    exact Nat.le_add_right _ _
  · rcases List.eq_nil_or_concat rest with rfl | ⟨front, c, rfl⟩
    · rw [List.append_nil]
    · rw [List.concat_eq_append] at hlast htail
      have hc : c ∈ tail' := by
        rw [htail]
        simp
      exact absurd hc (hlast c (by rw [← List.append_assoc, List.getLast?_concat]))

/-- Looking ahead for so many characters before a tail bounds the name before the tail. -/
theorem mem_counted_both {names tails : Language χ}
    (hnames : ∀ name ∈ names, name ≠ [] ∧ ∀ c ∈ name, p c = true)
    (hlast : ∀ name ∈ names, ∀ tail ∈ tails, ∀ c, name.getLast? = some c → c ∉ tail) :
    w ∈ both (between (chars p) 1 most * tails) (names * tails) ↔
      ∃ name ∈ names, name.length ≤ most ∧ ∃ tail ∈ tails, name ++ tail = w := by
  rw [mem_both]
  constructor
  · intro ⟨hcounted, hname⟩
    obtain ⟨u, hu, tail', htail', hw⟩ := Language.mem_mul.mp hcounted
    obtain ⟨name, hmem, tail, htail, rfl⟩ := Language.mem_mul.mp hname
    have hle := length_le_of_append_eq hw.symm (hlast name hmem tail' htail')
    exact ⟨name, hmem, hle.trans (mem_between_chars.mp hu).2.1, tail, htail, rfl⟩
  · rintro ⟨name, hmem, hlength, tail, htail, rfl⟩
    obtain ⟨hne, hchars⟩ := hnames name hmem
    have hcounted := mem_between_chars.mpr ⟨List.length_pos_of_ne_nil hne, hlength, hchars⟩
    exact ⟨Language.append_mem_mul hcounted htail, Language.append_mem_mul hmem htail⟩

/-! ## Words between separators -/

variable [DecidableEq χ] {s : χ}

theorem mem_splitOn_of_mem {c : χ} (h : c ∈ w) : c = s ∨ ∃ u ∈ w.splitOn s, c ∈ u := by
  have hpieces : ∀ us : List (List χ), c ∈ [s].intercalate us → c = s ∨ ∃ u ∈ us, c ∈ u := by
    intro us
    induction us with
    | nil => simp
    | cons u us ih =>
      intro hc
      rcases eq_or_ne us [] with rfl | hne
      · exact Or.inr ⟨u, List.mem_singleton_self u, by simpa using hc⟩
      rw [List.intercalate_cons_of_ne_nil hne, List.append_assoc] at hc
      rcases List.mem_append.mp hc with hu | hrest
      · exact Or.inr ⟨u, List.mem_cons_self, hu⟩
      rcases List.mem_cons.mp hrest with hs | hrest
      · exact Or.inl hs
      · obtain hs | ⟨v, hv, hc⟩ := ih hrest
        · exact Or.inl hs
        · exact Or.inr ⟨v, List.mem_cons_of_mem u hv, hc⟩
  exact hpieces _ (by rwa [List.intercalate_splitOn])

/-- Splitting at the separators gives the words back. -/
theorem mem_pow_separated (hl : ∀ u ∈ l, s ∉ u) (hm : ∀ v ∈ m, s ∉ v) :
    w ∈ (l * chars (· == s)) ^ n * m ↔
      ∃ us v, w.splitOn s = us ++ [v] ∧ us.length = n ∧ (∀ u ∈ us, u ∈ l) ∧ v ∈ m := by
  induction n generalizing w with
  | zero =>
    rw [pow_zero, one_mul]
    constructor
    · intro hw
      exact ⟨[], w, List.splitOn_eq_singleton (hm w hw), rfl, by simp, hw⟩
    · intro ⟨us, v, hsplit, hlength, _, hv⟩
      obtain rfl := List.length_eq_zero_iff.mp hlength
      have hw : [s].intercalate (w.splitOn s) = w := List.intercalate_splitOn s
      rw [hsplit, List.nil_append, List.intercalate_singleton] at hw
      exact hw ▸ hv
  | succ n ih =>
    rw [pow_succ', mul_assoc, mul_assoc]
    constructor
    · intro hw
      obtain ⟨u, hu, v, hv, rfl⟩ := Language.mem_mul.mp hw
      obtain ⟨_, ⟨c, hc, rfl⟩, rest, hrest, rfl⟩ := Language.mem_mul.mp hv
      obtain rfl := beq_iff_eq.mp hc
      obtain ⟨us, v, hsplit, hlength, hus, hv⟩ := ih.mp hrest
      refine ⟨u :: us, v, ?_, by simp [hlength], List.forall_mem_cons.mpr ⟨hu, hus⟩, hv⟩
      rw [List.singleton_append, List.splitOn_append_cons_self_of_not_mem (hl u hu), hsplit,
        List.cons_append]
    · intro ⟨us, v, hsplit, hlength, hus, hv⟩
      obtain ⟨u, us, rfl⟩ := List.exists_cons_of_length_eq_add_one hlength
      obtain ⟨hu, hus⟩ := List.forall_mem_cons.mp hus
      have hw : [s].intercalate (w.splitOn s) = w := List.intercalate_splitOn s
      rw [hsplit, List.cons_append, List.intercalate_cons_of_ne_nil (by simp),
        List.append_assoc, List.singleton_append] at hw
      rw [← hw, List.splitOn_append_cons_self_of_not_mem (hl u hu), List.cons_append] at hsplit
      rw [← hw]
      have hsep : [s] ∈ chars (· == s) := ⟨s, beq_self_eq_true s, rfl⟩
      have hrest := ih.mpr ⟨us, v, (List.cons.inj hsplit).2, Nat.succ.inj hlength, hus, hv⟩
      exact Language.append_mem_mul hu (Language.append_mem_mul hsep hrest)

end Regex
