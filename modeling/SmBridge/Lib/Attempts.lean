import Mathlib.Data.List.Forall2

/-!
# Lists of attempts

An attempt gives a value or an error. A list of attempts gives all their values in order, or
the error of the first that fails.
-/
namespace Attempts

variable {ε α β γ : Type} {f : α → Except ε β} {x : α} {xs ys : List α} {bs : List β} {b : β}
  {e : ε}

theorem bind_eq_ok {y : Except ε α} : (y >>= f) = .ok b ↔ ∃ a, y = .ok a ∧ f a = .ok b := by
  cases y <;> simp [bind, Except.bind]

theorem bind_eq_error {y : Except ε α} :
    (y >>= f) = .error e ↔ y = .error e ∨ ∃ a, y = .ok a ∧ f a = .error e := by
  cases y <;> simp [bind, Except.bind]

/-- All attempts give a value exactly if the list does. -/
theorem mapM_eq_ok : xs.mapM f = .ok bs ↔ List.Forall₂ (fun a b => f a = .ok b) xs bs := by
  induction xs generalizing bs with
  | nil =>
    rw [List.forall₂_nil_left_iff]
    exact ⟨fun h => (Except.ok.inj h).symm, fun h => congrArg Except.ok h.symm⟩
  | cons x xs ih =>
    rw [List.mapM_cons, bind_eq_ok, List.forall₂_cons_left_iff]
    constructor
    · intro ⟨b, hb, hrest⟩
      obtain ⟨rest, hrest, hbs⟩ := bind_eq_ok.mp hrest
      exact ⟨b, rest, hb, ih.mp hrest, (Except.ok.inj hbs).symm⟩
    · intro ⟨b, rest, hb, hrest, hbs⟩
      exact ⟨b, hb, bind_eq_ok.mpr ⟨rest, ih.mpr hrest, congrArg Except.ok hbs.symm⟩⟩

theorem mem_of_mapM_eq_ok (h : xs.mapM f = .ok bs) : b ∈ bs ↔ ∃ a ∈ xs, f a = .ok b := by
  have hall := mapM_eq_ok.mp h
  clear h
  induction hall with
  | nil => simp
  | cons ha _ ih => simp [ih, ha, eq_comm]

theorem map_of_mapM_eq_ok {g : β → γ} {h : α → γ} (hstep : ∀ a b, f a = .ok b → g b = h a)
    (hok : xs.mapM f = .ok bs) : bs.map g = xs.map h := by
  have hall := mapM_eq_ok.mp hok
  clear hok
  induction hall with
  | nil => rfl
  | cons hb _ ih => rw [List.map_cons, List.map_cons, hstep _ _ hb, ih]

/-- Attempts that are known to give these values. -/
theorem mapM_map_eq_ok {g : γ → α} {h : γ → β} {zs : List γ}
    (hstep : ∀ z ∈ zs, f (g z) = .ok (h z)) : (zs.map g).mapM f = .ok (zs.map h) := by
  rw [mapM_eq_ok, List.forall₂_map_left_iff, List.forall₂_map_right_iff, List.forall₂_same]
  exact hstep

theorem toOption_eq_some {y : Except ε α} : y.toOption = some x ↔ y = .ok x := by
  cases y <;> simp [Except.toOption]

theorem toOption_bind {y : Except ε α} :
    (y >>= f).toOption = y.toOption.bind fun a => (f a).toOption := by
  cases y <;> rfl

theorem exists_mapM_eq_ok : (∃ bs, xs.mapM f = .ok bs) ↔ ∀ a ∈ xs, ∃ b, f a = .ok b := by
  induction xs with
  | nil => exact ⟨fun _ _ ha => absurd ha List.not_mem_nil, fun _ => ⟨[], rfl⟩⟩
  | cons x xs ih =>
    rw [List.forall_mem_cons, ← ih]
    constructor
    · intro ⟨bs, hbs⟩
      obtain ⟨b, rest, hb, hrest, -⟩ := List.forall₂_cons_left_iff.mp (mapM_eq_ok.mp hbs)
      exact ⟨⟨b, hb⟩, rest, mapM_eq_ok.mpr hrest⟩
    · intro ⟨⟨b, hb⟩, rest, hrest⟩
      exact ⟨b :: rest, mapM_eq_ok.mpr (.cons hb (mapM_eq_ok.mp hrest))⟩

/-- The error of a list is the error of one of its attempts. -/
theorem of_mapM_eq_error (h : xs.mapM f = .error e) : ∃ a ∈ xs, f a = .error e := by
  induction xs with
  | nil => cases h
  | cons x xs ih =>
    rw [List.mapM_cons] at h
    rcases bind_eq_error.mp h with hx | ⟨b, -, hrest⟩
    · exact ⟨x, List.mem_cons_self, hx⟩
    · rcases bind_eq_error.mp hrest with hrest | ⟨rest, -, hok⟩
      · obtain ⟨a, ha, herror⟩ := ih hrest
        exact ⟨a, List.mem_cons_of_mem x ha, herror⟩
      · cases hok

theorem mapM_append_eq_ok :
    (xs ++ ys).mapM f = .ok bs ↔
      ∃ front back, xs.mapM f = .ok front ∧ ys.mapM f = .ok back ∧ bs = front ++ back := by
  rw [List.mapM_append, bind_eq_ok]
  constructor
  · intro ⟨front, hfront, hrest⟩
    obtain ⟨back, hback, hbs⟩ := bind_eq_ok.mp hrest
    exact ⟨front, back, hfront, hback, (Except.ok.inj hbs).symm⟩
  · intro ⟨front, back, hfront, hback, hbs⟩
    exact ⟨front, hfront, bind_eq_ok.mpr ⟨back, hback, congrArg Except.ok hbs.symm⟩⟩

/-- Attempts part by part give what the attempts on the whole list give. -/
theorem mapM_flatMap_eq_ok {δ η : Type} {xs : List δ} {ys : List η} {parts : δ → List α}
    {found : η → List β} (h : List.Forall₂ (fun x y => (parts x).mapM f = .ok (found y)) xs ys) :
    (xs.flatMap parts).mapM f = .ok (ys.flatMap found) := by
  induction h with
  | nil => rfl
  | cons hpart _ ih =>
    rw [List.flatMap_cons, List.flatMap_cons]
    exact mapM_append_eq_ok.mpr ⟨_, _, hpart, ih, rfl⟩

end Attempts
