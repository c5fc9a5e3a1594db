import Mathlib.Data.List.Basic

/-!
# Checks in order

A procedure goes through its checks until a rule is broken, and then ends in good order. In
between it needs things without which it cannot go on. What is needed after a broken rule does
not matter, so the needs stand below the rules before them. A computation performs a list of
checks when it fails in no other way than by a need that is not met.
-/
namespace Checks

universe u v

inductive Check where
  | needs (p : Prop)
  | rule (p : Prop)

def Check.Holds : Check → Prop
  | .needs p => p
  | .rule p => p

/-- All that is needed before a rule is broken is there. -/
def Runs : List Check → Prop
  | [] => True
  | .needs p :: cs => p ∧ Runs cs
  | .rule p :: cs => p → Runs cs

def AllHold (cs : List Check) : Prop := ∀ c ∈ cs, c.Holds

@[simp] theorem allHold_nil : AllHold [] := by simp [AllHold]

@[simp] theorem allHold_cons {c : Check} {cs : List Check} :
    AllHold (c :: cs) ↔ c.Holds ∧ AllHold cs := by
  simp [AllHold]

theorem allHold_append {cs ds : List Check} :
    AllHold (cs ++ ds) ↔ AllHold cs ∧ AllHold ds := by
  simp only [AllHold, List.mem_append, or_imp, forall_and]

theorem runs_append {cs ds : List Check} :
    Runs (cs ++ ds) ↔ Runs cs ∧ (AllHold cs → Runs ds) := by
  induction cs with
  | nil => simp [Runs]
  | cons c cs ih =>
    cases c with
    | needs p =>
      simp only [List.cons_append, Runs, ih, allHold_cons, Check.Holds]
      constructor
      · intro h
        exact ⟨⟨h.1, h.2.1⟩, fun hall => h.2.2 hall.2⟩
      · intro h
        exact ⟨h.1.1, h.1.2, fun hall => h.2 ⟨h.1.1, hall⟩⟩
    | rule p =>
      simp only [List.cons_append, Runs, ih, allHold_cons, Check.Holds]
      constructor
      · intro h
        exact ⟨fun hp => (h hp).1, fun hall => (h hall.1).2 hall.2⟩
      · intro h hp
        exact ⟨h.1 hp, fun hall => h.2 ⟨hp, hall⟩⟩

/-! ## Computations -/

section Computations

variable {ε : Type u} {α : Type v} (caught : ε → Prop)

/-- Every error is one that the caller catches. -/
def Settled (x : Except ε α) : Prop := ∀ e, x = .error e → caught e

/-- The computation settles when the checks run, and passes when all of them hold. -/
structure Performs (passed : α → Prop) (x : Except ε α) (cs : List Check) : Prop where
  settled : Settled caught x ↔ Runs cs
  passes : (∃ a, x = .ok a ∧ passed a) ↔ AllHold cs

end Computations

variable {ε : Type u} {α β : Type v} {caught : ε → Prop} {passed : α → Prop} {passed' : β → Prop}
  {x : Except ε α} {f : α → Except ε β} {cs ds : List Check}

@[simp] theorem settled_ok (a : α) : Settled caught (.ok a : Except ε α) := by simp [Settled]

@[simp] theorem settled_error {e : ε} : Settled caught (.error e : Except ε α) ↔ caught e := by
  simp [Settled]

/-- Where nothing is caught, to settle is to return. -/
theorem settled_iff_returns : Settled (fun _ => False) x ↔ ∃ a, x = .ok a := by
  cases x with
  | ok a => simp
  | error e => simp

theorem ok_bind (a : α) : (Except.ok a >>= f : Except ε β) = f a := rfl

theorem Performs.ok {a : α} (h : passed a) : Performs caught passed (.ok a) [] :=
  ⟨by simp [Runs], by simp [h]⟩

/-- A computation that goes on when `p` holds and raises what nobody catches otherwise. -/
theorem Performs.needs {p : Prop} (hsettled : Settled caught x ↔ p)
    (hpasses : (∃ a, x = .ok a ∧ passed a) ↔ p) : Performs caught passed x [.needs p] :=
  ⟨by simp [Runs, hsettled], by simp [Check.Holds, hpasses]⟩

/-- A computation that goes on when `p` holds and otherwise ends in good order. -/
theorem Performs.rule {p : Prop} (hsettled : Settled caught x)
    (hpasses : (∃ a, x = .ok a ∧ passed a) ↔ p) : Performs caught passed x [.rule p] :=
  ⟨by simp [Runs, hsettled], by simp [Check.Holds, hpasses]⟩

/-- A result that does not pass ends the procedure: `f` then settles and does not pass. -/
theorem Performs.bind (hx : Performs caught passed x cs)
    (hstop : ∀ a, x = .ok a → ¬ passed a →
      Settled caught (f a) ∧ ∀ b, f a = .ok b → ¬ passed' b)
    (hgo : ∀ a, x = .ok a → passed a → AllHold cs → Performs caught passed' (f a) ds) :
    Performs caught passed' (x >>= f) (cs ++ ds) := by
  cases x with
  | error e =>
    have hnone : ¬ AllHold cs := fun hall => by
      obtain ⟨a, ha, -⟩ := hx.passes.mpr hall
      cases ha
    have hbind : (Except.error e >>= f : Except ε β) = .error e := rfl
    rw [hbind]
    refine ⟨?_, ?_⟩
    · rw [runs_append, ← hx.settled, settled_error, settled_error]
      exact ⟨fun he => ⟨he, fun hall => absurd hall hnone⟩, And.left⟩
    · rw [allHold_append]
      exact ⟨fun ⟨_, h, _⟩ => by simp at h, fun hall => absurd hall.1 hnone⟩
  | ok a =>
    have hruns : Runs cs := hx.settled.mp (settled_ok a)
    rw [ok_bind]
    by_cases hpassed : passed a
    · have hall : AllHold cs := hx.passes.mp ⟨a, rfl, hpassed⟩
      have hf := hgo a rfl hpassed hall
      refine ⟨?_, ?_⟩
      · rw [runs_append, hf.settled]
        exact ⟨fun h => ⟨hruns, fun _ => h⟩, fun h => h.2 hall⟩
      · rw [allHold_append, hf.passes]
        exact ⟨fun h => ⟨hall, h⟩, And.right⟩
    · have hnone : ¬ AllHold cs := fun hall => by
        obtain ⟨a', ha, hpassed'⟩ := hx.passes.mpr hall
        obtain rfl := Except.ok.inj ha
        exact hpassed hpassed'
      obtain ⟨hsettled, hfails⟩ := hstop a rfl hpassed
      refine ⟨?_, ?_⟩
      · rw [runs_append]
        exact ⟨fun _ => ⟨hruns, fun hall => absurd hall hnone⟩, fun _ => hsettled⟩
      · rw [allHold_append]
        exact ⟨fun ⟨b, hb, hpass⟩ => absurd hpass (hfails b hb), fun hall => absurd hall.1 hnone⟩

/-- Whatever the first computation returns, the second one goes on. -/
theorem Performs.seq (hx : Performs caught (fun _ => True) x cs)
    (hgo : ∀ a, x = .ok a → AllHold cs → Performs caught passed' (f a) ds) :
    Performs caught passed' (x >>= f) (cs ++ ds) :=
  hx.bind (fun _ _ h => absurd trivial h) fun a ha _ hall => hgo a ha hall

theorem Performs.cons {c : Check} (hx : Performs caught (fun _ => True) x [c])
    (hgo : ∀ a, x = .ok a → c.Holds → Performs caught passed' (f a) ds) :
    Performs caught passed' (x >>= f) (c :: ds) :=
  hx.seq fun a ha hall => hgo a ha (by simpa using hall)

end Checks
