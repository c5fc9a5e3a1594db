import Mathlib.Data.List.Basic

/-!
# Codes that can be read back

Each symbol is written as a word, such that the words of different symbols differ before
either ends, and no word starts with the mark that ends the text. The text is then read back
from the front. From the back it is found by its opening mark, if within the text the mark
only stands behind an escape.
-/
namespace PrefixCode

variable {α χ : Type*}

structure IsPrefixCode (code : α → List χ) (stop : χ) : Prop where
  word_inj : ∀ a b s t, code a ++ s = code b ++ t → a = b
  word_ne_stop : ∀ a s t, code a ++ s ≠ stop :: t

/-- Within the text, the mark only stands directly behind an escape. -/
def Guarded (mark escape : χ) (text : List χ) : Prop :=
  ∀ before after, text = before ++ mark :: after → before.getLast? = some escape

variable {code : α → List χ} {stop mark escape c : χ} {a : α} {xs ys s t : List χ}

theorem IsPrefixCode.flatMap_inj (h : IsPrefixCode code stop) {as bs : List α}
    (heq : as.flatMap code ++ stop :: xs = bs.flatMap code ++ stop :: ys) :
    as = bs ∧ xs = ys := by
  induction as generalizing bs with
  | nil =>
    cases bs with
    | nil => exact ⟨rfl, (List.cons.inj heq).2⟩
    | cons b bs =>
      rw [List.flatMap_cons, List.append_assoc] at heq
      exact absurd heq.symm (h.word_ne_stop b _ _)
  | cons a as ih =>
    cases bs with
    | nil =>
      rw [List.flatMap_cons, List.append_assoc] at heq
      exact absurd heq (h.word_ne_stop a _ _)
    | cons b bs =>
      simp only [List.flatMap_cons, List.append_assoc] at heq
      obtain rfl := h.word_inj a b _ _ heq
      obtain ⟨rfl, hrest⟩ := ih (List.append_cancel_left heq)
      exact ⟨rfl, hrest⟩

theorem guarded_of_notMem (h : mark ∉ s) : Guarded mark escape s := by
  rintro before after rfl
  exact absurd (List.mem_append_right before List.mem_cons_self) h

theorem Guarded.append (hs : Guarded mark escape s) (ht : Guarded mark escape t) :
    Guarded mark escape (s ++ t) := by
  intro before after h
  rcases List.append_eq_append_iff.mp h with ⟨rest, hbefore, hrest⟩ | ⟨rest, hs', hrest⟩
  · rw [hbefore, List.getLast?_append, ht rest after hrest, Option.some_or]
  · cases rest with
    | nil =>
      have hlast := ht [] after hrest.symm
      cases hlast
    | cons m rest =>
      obtain ⟨rfl, -⟩ := List.cons.inj hrest
      exact hs before rest hs'

theorem guarded_flatMap (h : ∀ a, Guarded mark escape (code a)) (as : List α) :
    Guarded mark escape (as.flatMap code) := by
  induction as with
  | nil => exact guarded_of_notMem List.not_mem_nil
  | cons a as ih =>
    rw [List.flatMap_cons]
    exact (h a).append ih

/-- A guarded text does not hold the mark behind anything but the escape. -/
theorem Guarded.ne (hs : Guarded mark escape s) (hc : c ≠ escape) (rest : List χ) :
    s ≠ rest ++ c :: mark :: t := by
  intro h
  have hlast := hs (rest ++ [c]) t (by simpa using h)
  rw [List.getLast?_concat, Option.some_inj] at hlast
  exact hc hlast

theorem Guarded.ne_cons (hs : Guarded mark escape s) : s ≠ mark :: t := by
  intro h
  have hlast := hs [] t h
  cases hlast

theorem Guarded.eq_of_append (hs : Guarded mark escape s) (hc : c ≠ escape) {rest : List χ}
    (h : c :: mark :: s = rest ++ c :: mark :: t) : rest = [] ∧ s = t := by
  rcases rest with - | ⟨x, - | ⟨y, rest⟩⟩
  · exact ⟨rfl, (List.cons.inj (List.cons.inj h).2).2⟩
  · exact absurd (List.cons.inj (List.cons.inj h).2).2 hs.ne_cons
  · exact absurd (List.cons.inj (List.cons.inj h).2).2 (hs.ne hc rest)

/-- From the back, a guarded text ends at the mark in front of it. -/
theorem Guarded.inj (hs : Guarded mark escape s) (ht : Guarded mark escape t) (hc : c ≠ escape)
    (h : xs ++ c :: mark :: s = ys ++ c :: mark :: t) : xs = ys ∧ s = t := by
  rcases List.append_eq_append_iff.mp h with ⟨rest, rfl, hrest⟩ | ⟨rest, rfl, hrest⟩
  · obtain ⟨rfl, rfl⟩ := hs.eq_of_append hc hrest
    exact ⟨(List.append_nil xs).symm, rfl⟩
  · obtain ⟨rfl, rfl⟩ := ht.eq_of_append hc hrest
    exact ⟨List.append_nil ys, rfl⟩

end PrefixCode
