import Mathlib.Logic.Function.Basic
import Mathlib.Data.List.Basic

/-!
# Verdicts that do not depend on a choice

At each site one of several findings is taken, or nothing is found there. A choice is complete
if there is a finding at every site, and accepted if all findings are good and have one key.
Which choice is taken does not matter exactly where the survey is settled.
-/
namespace Choices

structure Survey (ι β κ : Type*) where
  sites : List ι
  sites_ne_nil : sites ≠ []
  /-- What may be taken at a site. -/
  possible : ι → Option β → Prop
  inhabited : ∀ i, ∃ r, possible i r
  good : β → Prop
  key : β → κ

namespace Survey

section Definitions

variable {ι β κ : Type*} (survey : Survey ι β κ)

def Choice (g : ι → Option β) : Prop := ∀ i, survey.possible i (g i)

def Complete (g : ι → Option β) : Prop := ∀ i ∈ survey.sites, g i ≠ none

structure Accepted (g : ι → Option β) : Prop where
  good : ∀ i ∈ survey.sites, ∃ b, g i = some b ∧ survey.good b
  key : ∀ i ∈ survey.sites, ∀ j ∈ survey.sites, ∀ b c, g i = some b → g j = some c →
    survey.key b = survey.key c

/-- Every choice is accepted. -/
structure AllAccepted : Prop where
  good : ∀ i ∈ survey.sites, ∀ b, survey.possible i (some b) → survey.good b
  key : ∀ i ∈ survey.sites, ∀ j ∈ survey.sites, i ≠ j → ∀ b c, survey.possible i (some b) →
    survey.possible j (some c) → survey.key b = survey.key c

/-- Each site may give a good finding with the same key. -/
def SomeAccepted : Prop :=
  ∃ k, ∀ i ∈ survey.sites, ∃ b, survey.possible i (some b) ∧ survey.good b ∧ survey.key b = k

/-- Some site never gives a finding; or all always do, and either all choices are accepted or
none is. -/
def Settled : Prop :=
  (∃ i ∈ survey.sites, ∀ b, ¬ survey.possible i (some b)) ∨
    (∀ i ∈ survey.sites, ¬ survey.possible i none) ∧
      (survey.AllAccepted ∨ ¬ survey.SomeAccepted)

end Definitions

variable {ι β κ : Type*} {survey : Survey ι β κ} {g g' : ι → Option β}

theorem Accepted.complete (h : survey.Accepted g) : survey.Complete g := by
  intro i hi hnone
  obtain ⟨b, hb, -⟩ := h.good i hi
  rw [hnone] at hb
  cases hb

theorem Accepted.someAccepted (hg : survey.Choice g) (h : survey.Accepted g) :
    survey.SomeAccepted := by
  obtain ⟨first, hfirst⟩ := List.exists_mem_of_ne_nil _ survey.sites_ne_nil
  obtain ⟨b, hb, -⟩ := h.good first hfirst
  refine ⟨survey.key b, fun i hi => ?_⟩
  obtain ⟨c, hc, hgood⟩ := h.good i hi
  exact ⟨c, hc ▸ hg i, hgood, h.key i hi first hfirst c b hc hb⟩

/-- A possible finding at one site extends to a choice that has others elsewhere. -/
theorem Choice.update [DecidableEq ι] (hg : survey.Choice g) {i : ι} {r : Option β}
    (hr : survey.possible i r) : survey.Choice (Function.update g i r) := by
  intro j
  by_cases hj : j = i
  · subst hj
    rwa [Function.update_self]
  · rw [Function.update_of_ne hj]
    exact hg j

theorem AllAccepted.accepted (h : survey.AllAccepted)
    (hfound : ∀ i ∈ survey.sites, ¬ survey.possible i none) (hg : survey.Choice g) :
    survey.Accepted g where
  good i hi := by
    cases hgi : g i with
    | none => exact absurd (hgi ▸ hg i) (hfound i hi)
    | some b => exact ⟨b, rfl, h.good i hi b (hgi ▸ hg i)⟩
  key i hi j hj b c hb hc := by
    by_cases hij : i = j
    · subst hij
      rw [Option.some.inj (hb.symm.trans hc)]
    · exact h.key i hi j hj hij b c (hb ▸ hg i) (hc ▸ hg j)

/-- If one choice decides for all, no site is undecided about having a finding. -/
theorem never_none (hsame : ∀ g g', survey.Choice g → survey.Choice g' →
      (survey.Complete g ↔ survey.Complete g'))
    (hsome : ∀ i ∈ survey.sites, ∃ b, survey.possible i (some b)) :
    ∀ i ∈ survey.sites, ¬ survey.possible i none := by
  classical
  intro i hi hnone
  have hchoice : ∀ j, ∃ r, survey.possible j r ∧ (j ∈ survey.sites → r ≠ none) := by
    intro j
    by_cases hj : j ∈ survey.sites
    · obtain ⟨b, hb⟩ := hsome j hj
      exact ⟨some b, hb, fun _ => Option.some_ne_none b⟩
    · obtain ⟨r, hr⟩ := survey.inhabited j
      exact ⟨r, hr, fun hmem => absurd hmem hj⟩
  choose g hg hcomplete using hchoice
  have hall := (hsame g _ hg (Choice.update (g := g) hg hnone)).mp hcomplete
  exact hall i hi (Function.update_self i none g)

theorem someAccepted_choice (h : survey.SomeAccepted) :
    ∃ g, survey.Choice g ∧ survey.Accepted g := by
  classical
  obtain ⟨k, hk⟩ := h
  have hchoice : ∀ j, ∃ r, survey.possible j r ∧
      (j ∈ survey.sites → ∃ b, r = some b ∧ survey.good b ∧ survey.key b = k) := by
    intro j
    by_cases hj : j ∈ survey.sites
    · obtain ⟨b, hb, hgood, hkey⟩ := hk j hj
      exact ⟨some b, hb, fun _ => ⟨b, rfl, hgood, hkey⟩⟩
    · obtain ⟨r, hr⟩ := survey.inhabited j
      exact ⟨r, hr, fun hmem => absurd hmem hj⟩
  choose g hg hgood using hchoice
  refine ⟨g, hg, fun i hi => ?_, fun i hi j hj b c hb hc => ?_⟩
  · obtain ⟨b, hb, hgood, -⟩ := hgood i hi
    exact ⟨b, hb, hgood⟩
  · obtain ⟨b', hb', -, hkey⟩ := hgood i hi
    obtain ⟨c', hc', -, hkey'⟩ := hgood j hj
    rw [Option.some.inj (hb.symm.trans hb'), Option.some.inj (hc.symm.trans hc'), hkey, hkey']

/-- If all choices are accepted, so is every combination of findings. -/
theorem allAccepted_of_choices (h : ∀ g, survey.Choice g → survey.Accepted g) :
    survey.AllAccepted := by
  classical
  choose g hg using survey.inhabited
  constructor
  · intro i hi b hb
    obtain ⟨c, hc, hgood⟩ := (h _ (Choice.update (g := g) hg hb)).good i hi
    rw [Function.update_self] at hc
    exact Option.some.inj hc ▸ hgood
  · intro i hi j hj hij b c hb hc
    have haccepted := h _ (Choice.update (Choice.update (g := g) hg hb) hc)
    refine haccepted.key i hi j hj b c ?_ (Function.update_self j _ _)
    rw [Function.update_of_ne hij, Function.update_self]

/-- All choices are judged alike exactly if the survey is settled. -/
theorem settled_iff : (∀ g g', survey.Choice g → survey.Choice g' →
      (survey.Complete g ↔ survey.Complete g') ∧ (survey.Accepted g ↔ survey.Accepted g')) ↔
    survey.Settled := by
  constructor
  · intro hsame
    by_cases hmissing : ∃ i ∈ survey.sites, ∀ b, ¬ survey.possible i (some b)
    · exact Or.inl hmissing
    · have hsome : ∀ i ∈ survey.sites, ∃ b, survey.possible i (some b) := by
        intro i hi
        by_contra hnot
        exact hmissing ⟨i, hi, fun b hb => hnot ⟨b, hb⟩⟩
      refine Or.inr ⟨never_none (fun g g' hg hg' => (hsame g g' hg hg').1) hsome, ?_⟩
      by_cases hsomeAccepted : survey.SomeAccepted
      · obtain ⟨g, hg, haccepted⟩ := someAccepted_choice hsomeAccepted
        exact Or.inl (allAccepted_of_choices fun g' hg' => (hsame g g' hg hg').2.mp haccepted)
      · exact Or.inr hsomeAccepted
  · rintro (⟨i, hi, hmissing⟩ | ⟨hfound, hall | hnone⟩) g g' hg hg'
    · have hincomplete : ∀ f, survey.Choice f → ¬ survey.Complete f := by
        intro f hf hcomplete
        obtain ⟨b, hb⟩ := Option.ne_none_iff_exists'.mp (hcomplete i hi)
        exact hmissing b (hb ▸ hf i)
      exact ⟨iff_of_false (hincomplete g hg) (hincomplete g' hg'),
        iff_of_false (fun h => hincomplete g hg h.complete)
          fun h => hincomplete g' hg' h.complete⟩
    · have haccepted := hall.accepted hfound hg
      have haccepted' := hall.accepted hfound hg'
      exact ⟨iff_of_true haccepted.complete haccepted'.complete, iff_of_true haccepted haccepted'⟩
    · have hcomplete : ∀ f, survey.Choice f → survey.Complete f := fun f hf i hi hnone =>
        hfound i hi (hnone ▸ hf i)
      have hrejected : ∀ f, survey.Choice f → ¬ survey.Accepted f := fun f hf haccepted =>
        hnone (haccepted.someAccepted hf)
      exact ⟨iff_of_true (hcomplete g hg) (hcomplete g' hg'),
        iff_of_false (hrejected g hg) (hrejected g' hg')⟩

end Survey

end Choices
