import Mathlib.Data.List.Basic
import Mathlib.Order.Lattice

/-!
# Logs read through a cursor

A log whose keys increase is cut in two by any bound. A reader that takes what follows
its bound, in pieces of any size, moves the cut along the log and never misses a row.
-/
namespace OrderedLog

section Definitions

variable {α κ : Type*} (key : α → κ)

def advance (bound : κ) (rows : List α) : κ := (rows.getLast?.map key).getD bound

@[simp] theorem advance_nil (bound : κ) : advance key bound [] = bound := rfl

@[simp] theorem advance_concat (bound : κ) (rows : List α) (x : α) :
    advance key bound (rows ++ [x]) = key x := by
  simp [advance]

variable [LinearOrder κ]

def Increasing (log : List α) : Prop := log.Pairwise fun x y => key x < key y

def upTo (bound : κ) (log : List α) : List α := log.filter fun x => key x ≤ bound

def beyond (bound : κ) (log : List α) : List α := log.filter fun x => bound < key x

end Definitions

variable {α κ : Type*} [LinearOrder κ] {key : α → κ}

theorem mem_upTo {bound : κ} {log : List α} {x : α} :
    x ∈ upTo key bound log ↔ x ∈ log ∧ key x ≤ bound := by
  simp [upTo]

theorem mem_beyond {bound : κ} {log : List α} {x : α} :
    x ∈ beyond key bound log ↔ x ∈ log ∧ bound < key x := by
  simp [beyond]

theorem upTo_append (bound : κ) (xs ys : List α) :
    upTo key bound (xs ++ ys) = upTo key bound xs ++ upTo key bound ys :=
  List.filter_append ..

theorem upTo_eq_self {bound : κ} {log : List α} (h : ∀ x ∈ log, key x ≤ bound) :
    upTo key bound log = log :=
  List.filter_eq_self.mpr fun x hx => decide_eq_true (h x hx)

theorem upTo_eq_nil {bound : κ} {log : List α} (h : ∀ x ∈ log, bound < key x) :
    upTo key bound log = [] :=
  List.filter_eq_nil_iff.mpr fun x hx => by simpa using h x hx

theorem beyond_eq_self {bound : κ} {log : List α} (h : ∀ x ∈ log, bound < key x) :
    beyond key bound log = log :=
  List.filter_eq_self.mpr fun x hx => decide_eq_true (h x hx)

theorem Increasing.append {log rows : List α} (hlog : Increasing key log)
    (hrows : Increasing key rows) (h : ∀ x ∈ log, ∀ y ∈ rows, key x < key y) :
    Increasing key (log ++ rows) :=
  List.pairwise_append.mpr ⟨hlog, hrows, h⟩

theorem le_advance {bound : κ} {rows : List α} (hinc : Increasing key rows)
    (hrows : ∀ x ∈ rows, bound < key x) :
    bound ≤ advance key bound rows ∧ ∀ x ∈ rows, key x ≤ advance key bound rows := by
  rcases List.eq_nil_or_concat rows with rfl | ⟨init, last, rfl⟩
  · simp
  · rw [List.concat_eq_append] at hinc hrows ⊢
    rw [advance_concat]
    refine ⟨le_of_lt (hrows last (by simp)), ?_⟩
    intro x hx
    rcases List.mem_append.mp hx with hx | hx
    · exact le_of_lt ((List.pairwise_append.mp hinc).2.2 x hx last (by simp))
    · rw [List.mem_singleton.mp hx]

/-- A bound cuts an increasing log into a first and a second part. -/
theorem upTo_append_beyond {bound : κ} {log : List α} (h : Increasing key log) :
    upTo key bound log ++ beyond key bound log = log := by
  induction log with
  | nil => rfl
  | cons x log ih =>
    obtain ⟨hx, hlog⟩ := List.pairwise_cons.mp h
    rcases le_or_gt (key x) bound with hle | hlt
    · have hup : upTo key bound (x :: log) = x :: upTo key bound log :=
        List.filter_cons_of_pos (decide_eq_true hle)
      have hbe : beyond key bound (x :: log) = beyond key bound log :=
        List.filter_cons_of_neg (by simpa using hle)
      rw [hup, hbe, List.cons_append, ih hlog]
    · have hall : ∀ y ∈ x :: log, bound < key y := by
        intro y hy
        rcases List.mem_cons.mp hy with rfl | hy
        · exact hlt
        · exact hlt.trans (hx y hy)
      rw [upTo_eq_nil hall, beyond_eq_self hall, List.nil_append]

/-- What a reader may take only grows as the log does. -/
theorem beyond_grows {bound : κ} {seen log : List α} (h : seen <+: log) :
    beyond key bound seen <+: beyond key bound log := by
  obtain ⟨more, rfl⟩ := h
  exact ⟨beyond key bound more, (List.filter_append ..).symm⟩

/-- Taking the next rows moves the cut past exactly these rows. -/
theorem upTo_advance {bound : κ} {log rows : List α} (h : Increasing key log)
    (hrows : rows <+: beyond key bound log) :
    upTo key (advance key bound rows) log = upTo key bound log ++ rows := by
  obtain ⟨rest, hrest⟩ := hrows
  have hcut : upTo key bound log ++ beyond key bound log = log := upTo_append_beyond h
  rw [← hrest] at hcut
  have hmem : ∀ x ∈ rows ++ rest, bound < key x := fun x hx =>
    (mem_beyond.mp (hrest ▸ hx)).2
  have hinc : Increasing key (rows ++ rest) := hrest ▸ List.Pairwise.filter _ h
  obtain ⟨hrowsInc, _, hlater⟩ := List.pairwise_append.mp hinc
  obtain ⟨hle, hlast⟩ := le_advance hrowsInc fun x hx => hmem x (List.mem_append_left _ hx)
  have hfirst : upTo key (advance key bound rows) (upTo key bound log) = upTo key bound log :=
    upTo_eq_self fun x hx => (mem_upTo.mp hx).2.trans hle
  have hleft : upTo key (advance key bound rows) rest = [] := by
    refine upTo_eq_nil fun y hy => ?_
    rcases List.eq_nil_or_concat rows with rfl | ⟨init, last, rfl⟩
    · exact hmem y hy
    · rw [List.concat_eq_append] at hlater ⊢
      rw [advance_concat]
      exact hlater last (by simp) y hy
  calc upTo key (advance key bound rows) log
      = upTo key (advance key bound rows) (upTo key bound log ++ (rows ++ rest)) := by rw [hcut]
    _ = upTo key bound log ++ rows := by
      rw [upTo_append, upTo_append, hfirst, upTo_eq_self hlast, hleft, List.append_nil]

end OrderedLog
