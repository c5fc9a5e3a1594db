import SmBridge.Onboarding
import Mathlib.Logic.Function.Basic

/-!
# Admitting the entries of a bridge

The converters are objects that a bridge refers to, once in its list and once in the map of
names from which it serves. Admission goes through the list and may stop midway.
-/
namespace Admission

open Python
open Dictionary
open Trust
open Onboarding

structure SmBridge (ι : Type) where
  trustRegistry : Option TrustRegistry
  entries : List ι
  /-- The converters by the names that they had when the router was built. -/
  entryByName : Dict String ι

/-- What a call of `admit_entries` leaves, and how the admissions that it made came out. -/
structure AdmissionRun (ι σ : Type) where
  objects : ι → σ
  outcomes : List (ι × Except PyError ProofResult)
  result : Except PyError (List RegistryEntry)

section Definitions

variable {ι σ : Type} [DecidableEq ι] (conv : ι → EntryModeConverter σ)

def entryOf (objects : ι → σ) (c : ι) : RegistryEntry := (conv c).toEntry (objects c)

def SmBridge.new (objects : ι → σ) (trustRegistry : Option TrustRegistry) (entries : List ι) :
    SmBridge ι where
  trustRegistry := trustRegistry
  entries := entries
  entryByName :=
    entries.foldl (fun names c => names.set (entryOf conv objects c).registryName c) Dict.empty

/-- The loop of `admit_entries` over the converters. -/
def admitEach (registry : TrustRegistry) (requireVerified : Bool) :
    List ι → (ι → σ) → AdmissionRun ι σ
  | [], objects => ⟨objects, [], .ok []⟩
  | c :: rest, objects =>
    match (conv c).admit_ with
    | none =>
      let run := admitEach registry requireVerified rest objects
      ⟨run.objects, run.outcomes, run.result.map (entryOf conv objects c :: ·)⟩
    | some method =>
      match method registry requireVerified (objects c) with
      | (state, .error e) => ⟨Function.update objects c state, [(c, .error e)], .error e⟩
      | (state, .ok proof) =>
        let run := admitEach registry requireVerified rest (Function.update objects c state)
        ⟨run.objects, (c, .ok proof) :: run.outcomes,
          run.result.map ((conv c).toEntry state :: ·)⟩

def SmBridge.admitEntries (bridge : SmBridge ι) (requireVerified : Bool) (objects : ι → σ) :
    AdmissionRun ι σ :=
  match bridge.trustRegistry with
  | none => ⟨objects, [], .ok (bridge.entries.map (entryOf conv objects))⟩
  | some registry => admitEach conv registry requireVerified bridge.entries objects

/-- `/nanda/registries` -/
def SmBridge.smRegistries (bridge : SmBridge ι) (objects : ι → σ) : List RegistryEntry :=
  bridge.entryByName.values.map (entryOf conv objects)

/-- `/nanda/registries/{name}`; `none` stands for the 404. -/
def SmBridge.smRegistry (bridge : SmBridge ι) (objects : ι → σ) (name : String) :
    Option RegistryEntry :=
  (bridge.entryByName.get name).map (entryOf conv objects)

/-- The routes answer for this converter. -/
def SmBridge.Serves (bridge : SmBridge ι) (c : ι) : Prop :=
  ∃ name, bridge.entryByName.get name = some c

/-- Only VERIFIED entries are returned, and only those are served whose admission, in this call
or before it, came out VERIFIED. -/
def Enforced (bridge : SmBridge ι) (objects : ι → σ) : Prop :=
  let run := bridge.admitEntries conv true objects
  (∀ entries, run.result = .ok entries → ∀ entry ∈ entries, Stamped entry) ∧
    ∀ c, bridge.Serves c → Stamped (entryOf conv run.objects c) ∧
      ∀ outcome, (c, outcome) ∈ run.outcomes → Verified outcome

/-! ## Admissions one after the other -/

/-- The converters are admitted one after the other, with these proofs, and none is refused. -/
inductive InTurn (registry : TrustRegistry) :
    List ι → (ι → σ) → List (ι × ProofResult) → (ι → σ) → Prop
  | nil (objects : ι → σ) : InTurn registry [] objects [] objects
  | skip {c : ι} {rest : List ι} {objects objects' : ι → σ} {proofs : List (ι × ProofResult)} :
      (conv c).admit_ = none → InTurn registry rest objects proofs objects' →
      InTurn registry (c :: rest) objects proofs objects'
  | admitted {c : ι} {rest : List ι} {objects objects' : ι → σ}
      {proofs : List (ι × ProofResult)}
      {method : TrustRegistry → Bool → σ → σ × Except PyError ProofResult} {state : σ}
      {proof : ProofResult} :
      (conv c).admit_ = some method → method registry true (objects c) = (state, .ok proof) →
      InTurn registry rest (Function.update objects c state) proofs objects' →
      InTurn registry (c :: rest) objects ((c, proof) :: proofs) objects'

def Refused (registry : TrustRegistry) (objects : ι → σ) (c : ι) : Prop :=
  ∃ method state e, (conv c).admit_ = some method ∧
    method registry true (objects c) = (state, .error e)

end Definitions

/-- The outcomes of admissions that returned. -/
def outcomesOf {ι : Type} (proofs : List (ι × ProofResult)) :
    List (ι × Except PyError ProofResult) := proofs.map fun p => (p.1, .ok p.2)

theorem mem_outcomesOf {ι : Type} {proofs : List (ι × ProofResult)} {c : ι}
    {outcome : Except PyError ProofResult} :
    (c, outcome) ∈ outcomesOf proofs ↔ ∃ proof, (c, proof) ∈ proofs ∧ outcome = .ok proof := by
  rw [outcomesOf, List.mem_map]
  constructor
  · rintro ⟨⟨c', proof⟩, hmem, heq⟩
    obtain ⟨rfl, rfl⟩ := Prod.mk.inj heq
    exact ⟨proof, hmem, rfl⟩
  · rintro ⟨proof, hmem, rfl⟩
    exact ⟨(c, proof), hmem, rfl⟩

variable {ι σ : Type} [DecidableEq ι] {conv : ι → EntryModeConverter σ}
  {registry : TrustRegistry} {entries before after : List ι} {objects objects' : ι → σ} {c : ι}
  {proofs : List (ι × ProofResult)} {proof : ProofResult}

theorem inTurn_or_refused (conv : ι → EntryModeConverter σ) (registry : TrustRegistry)
    (entries : List ι) (objects : ι → σ) :
    (∃ proofs objects', InTurn conv registry entries objects proofs objects') ∨
      ∃ before c after proofs objects', entries = before ++ c :: after ∧
        InTurn conv registry before objects proofs objects' ∧ Refused conv registry objects' c := by
  induction entries generalizing objects with
  | nil => exact Or.inl ⟨[], objects, InTurn.nil objects⟩
  | cons c rest ih =>
    cases hadmission : (conv c).admit_ with
    | none =>
      rcases ih objects with ⟨proofs, objects', hturn⟩ |
        ⟨before, c', after, proofs, objects', heq, hturn, href⟩
      · exact Or.inl ⟨proofs, objects', InTurn.skip hadmission hturn⟩
      · exact Or.inr ⟨c :: before, c', after, proofs, objects', by rw [heq, List.cons_append],
          InTurn.skip hadmission hturn, href⟩
    | some method =>
      cases houtcome : method registry true (objects c) with
      | mk state outcome =>
        cases outcome with
        | error e =>
          exact Or.inr ⟨[], c, rest, [], objects, rfl, InTurn.nil objects,
            method, state, e, hadmission, houtcome⟩
        | ok proof =>
          rcases ih (Function.update objects c state) with ⟨proofs, objects', hturn⟩ |
            ⟨before, c', after, proofs, objects', heq, hturn, href⟩
          · exact Or.inl ⟨(c, proof) :: proofs, objects',
              InTurn.admitted hadmission houtcome hturn⟩
          · exact Or.inr ⟨c :: before, c', after, (c, proof) :: proofs, objects',
              by rw [heq, List.cons_append], InTurn.admitted hadmission houtcome hturn, href⟩

/-- Only the admission of an object changes it. -/
theorem InTurn.unchanged (h : InTurn conv registry before objects proofs objects')
    (hc : ∀ proof, (c, proof) ∉ proofs) : objects' c = objects c := by
  induction h with
  | nil => rfl
  | skip _ _ ih => exact ih hc
  | @admitted c' rest _ _ proofs _ _ proof _ _ _ ih =>
    have hne : c ≠ c' := by
      rintro rfl
      exact hc proof List.mem_cons_self
    rw [ih fun proof' hmem => hc proof' (List.mem_cons_of_mem _ hmem), Function.update_of_ne hne]

theorem InTurn.proof_of_mem (h : InTurn conv registry before objects proofs objects')
    (hc : c ∈ before) (hadmission : (conv c).admit_ ≠ none) : ∃ proof, (c, proof) ∈ proofs := by
  induction h with
  | nil => cases hc
  | skip hnone _ ih =>
    rcases List.mem_cons.mp hc with rfl | hc
    · exact absurd hnone hadmission
    · exact ih hc
  | @admitted _ _ _ _ _ _ _ proof _ _ _ ih =>
    rcases List.mem_cons.mp hc with rfl | hc
    · exact ⟨proof, List.mem_cons_self⟩
    · obtain ⟨proof', hproof'⟩ := ih hc
      exact ⟨proof', List.mem_cons_of_mem _ hproof'⟩

/-- An entry carries the proof of one of its admissions. -/
theorem InTurn.stamped (h : InTurn conv registry before objects proofs objects')
    (hc : (c, proof) ∈ proofs) :
    ∃ last, (c, last) ∈ proofs ∧ (entryOf conv objects' c).proof = some last := by
  induction h generalizing proof with
  | nil => cases hc
  | skip _ _ ih => exact ih hc
  | @admitted c' rest objects objects' proofs method state first hmethod houtcome hturn ih =>
    by_cases hrest : ∃ later, (c, later) ∈ proofs
    · obtain ⟨later, hlater⟩ := hrest
      obtain ⟨last, hlast, hstamp⟩ := ih hlater
      exact ⟨last, List.mem_cons_of_mem _ hlast, hstamp⟩
    · have hhead : (c, proof) = (c', first) :=
        (List.mem_cons.mp hc).resolve_right fun hmem => hrest ⟨proof, hmem⟩
      obtain ⟨rfl, rfl⟩ := Prod.mk.inj hhead
      have hstate : objects' c = state := by
        rw [hturn.unchanged fun later hlater => hrest ⟨later, hlater⟩, Function.update_self]
      refine ⟨proof, List.mem_cons_self, ?_⟩
      rw [entryOf, hstate]
      exact (conv c).stamps method hmethod _ _ _ _ _ houtcome

theorem map_append_map (result : Except PyError (List RegistryEntry)) (entry : RegistryEntry)
    (returned : List RegistryEntry) :
    (result.map (returned ++ ·)).map (entry :: ·) = result.map ((entry :: returned) ++ ·) := by
  cases result <;> rfl

theorem map_self (result : Except PyError (List RegistryEntry)) :
    result.map (fun entries => entries) = result := by
  cases result <;> rfl

theorem entryOf_update_of_ne {c' : ι} {state : σ} (h : c' ≠ c) :
    entryOf conv (Function.update objects c state) c' = entryOf conv objects c' := by
  rw [entryOf, Function.update_of_ne h, entryOf]

/-- Converters that are admitted in turn, and the loop over what follows them. -/
theorem InTurn.admitEach (h : InTurn conv registry before objects proofs objects') :
    ∃ returned,
      (∀ after, Admission.admitEach conv registry true (before ++ after) objects =
        let run := Admission.admitEach conv registry true after objects'
        ⟨run.objects, outcomesOf proofs ++ run.outcomes, run.result.map (returned ++ ·)⟩) ∧
      (∀ entry ∈ returned, (∃ p ∈ proofs, entry.proof = some p.2) ∨
        ∃ c ∈ before, (conv c).admit_ = none ∧ entry = entryOf conv objects c) ∧
      (∀ p ∈ proofs, ∃ entry ∈ returned, entry.proof = some p.2) ∧
      ∀ c ∈ before, (conv c).admit_ = none → entryOf conv objects c ∈ returned := by
  induction h with
  | nil objects =>
    refine ⟨[], fun after => ?_, by simp, by simp, by simp⟩
    simp only [outcomesOf, List.map_nil, List.nil_append, map_self]
  | @skip c rest objects objects' proofs hnone hturn ih =>
    obtain ⟨returned, hloop, hentries, hproofs, hskipped⟩ := ih
    refine ⟨entryOf conv objects c :: returned, fun after => ?_, ?_, ?_, ?_⟩
    · rw [List.cons_append, Admission.admitEach, hnone]
      simp only [hloop, map_append_map]
    · intro entry hentry
      rcases List.mem_cons.mp hentry with rfl | hentry
      · exact Or.inr ⟨c, List.mem_cons_self, hnone, rfl⟩
      · refine (hentries entry hentry).imp id ?_
        rintro ⟨c', hc', hrest⟩
        exact ⟨c', List.mem_cons_of_mem _ hc', hrest⟩
    · intro p hp
      obtain ⟨entry, hentry, hstamp⟩ := hproofs p hp
      exact ⟨entry, List.mem_cons_of_mem _ hentry, hstamp⟩
    · intro c' hc' hnone'
      rcases List.mem_cons.mp hc' with rfl | hc'
      · exact List.mem_cons_self
      · exact List.mem_cons_of_mem _ (hskipped c' hc' hnone')
  | @admitted c rest objects objects' proofs method state proof hmethod houtcome hturn ih =>
    obtain ⟨returned, hloop, hentries, hproofs, hskipped⟩ := ih
    have hstamp : ((conv c).toEntry state).proof = some proof :=
      (conv c).stamps method hmethod _ _ _ _ _ houtcome
    have hsame : ∀ c', (conv c').admit_ = none →
        entryOf conv (Function.update objects c state) c' = entryOf conv objects c' := by
      intro c' hnone
      refine entryOf_update_of_ne ?_
      rintro rfl
      rw [hnone] at hmethod
      cases hmethod
    refine ⟨(conv c).toEntry state :: returned, fun after => ?_, ?_, ?_, ?_⟩
    · rw [List.cons_append, Admission.admitEach, hmethod]
      simp only [houtcome, hloop, map_append_map, outcomesOf, List.map_cons, List.cons_append]
    · intro entry hentry
      rcases List.mem_cons.mp hentry with rfl | hentry
      · exact Or.inl ⟨(c, proof), List.mem_cons_self, hstamp⟩
      · rcases hentries entry hentry with ⟨p, hp, hp'⟩ | ⟨c', hc', hnone, rfl⟩
        · exact Or.inl ⟨p, List.mem_cons_of_mem _ hp, hp'⟩
        · exact Or.inr ⟨c', List.mem_cons_of_mem _ hc', hnone, hsame c' hnone⟩
    · intro p hp
      rcases List.mem_cons.mp hp with rfl | hp
      · exact ⟨_, List.mem_cons_self, hstamp⟩
      · obtain ⟨entry, hentry, hp'⟩ := hproofs p hp
        exact ⟨entry, List.mem_cons_of_mem _ hentry, hp'⟩
    · intro c' hc' hnone
      rcases List.mem_cons.mp hc' with rfl | hc'
      · rw [hnone] at hmethod
        cases hmethod
      · exact hsame c' hnone ▸ List.mem_cons_of_mem _ (hskipped c' hc' hnone)

/-- The converter of the repository is admitted with VERIFIED proofs only. -/
theorem InTurn.verified_ans {ι : Type} [DecidableEq ι] {entries : List ι}
    {objects objects' : ι → ANSEntryConverter} {proofs : List (ι × ProofResult)}
    (h : InTurn (fun _ => ansEntryConverter) registry entries objects proofs objects') :
    ∀ p ∈ proofs, p.2.status = .verified := by
  induction h with
  | nil => exact List.forall_mem_nil _
  | skip _ _ ih => exact ih
  | admitted hmethod houtcome _ ih =>
    obtain rfl := Option.some.inj hmethod
    exact List.forall_mem_cons.mpr ⟨(ANSEntryConverter.admit_eq_ok houtcome).2 rfl, ih⟩

omit [DecidableEq ι] in
theorem serves_mem {trustRegistry : Option TrustRegistry}
    (h : (SmBridge.new conv objects trustRegistry entries).Serves c) : c ∈ entries := by
  obtain ⟨name, hget⟩ := h
  change (entries.foldl (fun names c => names.set (entryOf conv objects c).registryName c)
    Dict.empty).get name = some c at hget
  induction entries using List.reverseRecOn with
  | nil => cases hget
  | append_singleton entries last ih =>
    rw [List.foldl_append, List.foldl_cons, List.foldl_nil, Dict.get_set] at hget
    split at hget
    · rw [Option.some_inj.mp hget]
      exact List.mem_append_right _ (List.mem_singleton_self c)
    · exact List.mem_append_left _ (ih hget)

/-! ## When admission is enforced -/

/-- Without a trust registry, every converter has its VERIFIED stamp already. With one, either
every converter is admitted with a VERIFIED proof, or the first one to be refused is not served,
and each served one has been admitted before it with VERIFIED proofs or has its stamp already. A
converter without the method has its stamp already in any case. -/
def AdmissionSound (conv : ι → EntryModeConverter σ) (bridge : SmBridge ι) (objects : ι → σ) :
    Prop :=
  match bridge.trustRegistry with
  | none => ∀ c ∈ bridge.entries, Stamped (entryOf conv objects c)
  | some registry =>
    (∃ proofs objects', InTurn conv registry bridge.entries objects proofs objects' ∧
      (∀ p ∈ proofs, p.2.status = .verified) ∧
      ∀ c ∈ bridge.entries, (conv c).admit_ = none → Stamped (entryOf conv objects c)) ∨
    ∃ before c after proofs objects', bridge.entries = before ++ c :: after ∧
      InTurn conv registry before objects proofs objects' ∧ Refused conv registry objects' c ∧
      ¬ bridge.Serves c ∧
      ∀ c', bridge.Serves c' → (∀ proof, (c', proof) ∈ proofs → proof.status = .verified) ∧
        (Stamped (entryOf conv objects c') ∨ ∃ proof, (c', proof) ∈ proofs)

omit [DecidableEq ι] in
theorem mem_smRegistries {bridge : SmBridge ι} {entry : RegistryEntry} :
    entry ∈ bridge.smRegistries conv objects ↔
      ∃ c, bridge.Serves c ∧ entryOf conv objects c = entry := by
  rw [SmBridge.smRegistries, List.mem_map]
  exact exists_congr fun c => and_congr Dict.mem_values Iff.rfl

omit [DecidableEq ι] in
theorem smRegistry_eq_some {bridge : SmBridge ι} {name : String} {entry : RegistryEntry}
    (h : bridge.smRegistry conv objects name = some entry) :
    ∃ c, bridge.Serves c ∧ entryOf conv objects c = entry := by
  obtain ⟨c, hget, hentry⟩ := Option.map_eq_some_iff.mp h
  exact ⟨c, ⟨name, hget⟩, hentry⟩

/-- Where admission is enforced, both routes serve VERIFIED entries only. -/
theorem served_stamped {bridge : SmBridge ι} (h : Enforced conv bridge objects) :
    (∀ entry ∈ bridge.smRegistries conv (bridge.admitEntries conv true objects).objects,
      Stamped entry) ∧
    ∀ name entry, bridge.smRegistry conv (bridge.admitEntries conv true objects).objects name =
      some entry → Stamped entry := by
  constructor
  · intro entry hentry
    obtain ⟨c, hc, rfl⟩ := mem_smRegistries.mp hentry
    exact (h.2 c hc).1
  · intro name entry hentry
    obtain ⟨c, hc, rfl⟩ := smRegistry_eq_some hentry
    exact (h.2 c hc).1

theorem enforced_unregistered {bridge : SmBridge ι} (hserved : ∀ c, bridge.Serves c →
    c ∈ bridge.entries) (hregistry : bridge.trustRegistry = none) :
    Enforced conv bridge objects ↔ ∀ c ∈ bridge.entries, Stamped (entryOf conv objects c) := by
  have hrun : bridge.admitEntries conv true objects =
      ⟨objects, [], .ok (bridge.entries.map (entryOf conv objects))⟩ := by
    rw [SmBridge.admitEntries, hregistry]
  rw [Enforced, hrun]
  constructor
  · intro henforced c hc
    exact henforced.1 _ rfl _ (List.mem_map_of_mem hc)
  · intro hall
    refine ⟨?_, fun c hc => ⟨hall c (hserved c hc), by simp⟩⟩
    intro entries hentries entry hentry
    obtain rfl := Except.ok.inj hentries
    obtain ⟨c, hc, rfl⟩ := List.mem_map.mp hentry
    exact hall c hc

/-- The entries after admissions in turn, where those of a converter came out VERIFIED. -/
theorem InTurn.stamped_iff (h : InTurn conv registry before objects proofs objects')
    (hverified : ∀ proof, (c, proof) ∈ proofs → proof.status = .verified) :
    Stamped (entryOf conv objects' c) ↔
      Stamped (entryOf conv objects c) ∨ ∃ proof, (c, proof) ∈ proofs := by
  by_cases hc : ∃ proof, (c, proof) ∈ proofs
  · obtain ⟨proof, hproof⟩ := hc
    obtain ⟨last, hlast, hstamp⟩ := h.stamped hproof
    exact iff_of_true ⟨last, hstamp, hverified last hlast⟩ (Or.inr ⟨proof, hproof⟩)
  · have hsame : objects' c = objects c := h.unchanged fun proof hproof => hc ⟨proof, hproof⟩
    rw [or_iff_left hc, entryOf, hsame, entryOf]

theorem enforced_admitted {bridge : SmBridge ι} (hserved : ∀ c, bridge.Serves c →
    c ∈ bridge.entries) (hregistry : bridge.trustRegistry = some registry)
    (hturn : InTurn conv registry bridge.entries objects proofs objects') :
    Enforced conv bridge objects ↔ (∀ p ∈ proofs, p.2.status = .verified) ∧
      ∀ c ∈ bridge.entries, (conv c).admit_ = none → Stamped (entryOf conv objects c) := by
  obtain ⟨returned, hloop, hentries, hproofs, hskipped⟩ := hturn.admitEach
  have hrun : bridge.admitEntries conv true objects =
      ⟨objects', outcomesOf proofs, .ok returned⟩ := by
    rw [SmBridge.admitEntries, hregistry]
    have hall := hloop []
    simp only [List.append_nil, admitEach] at hall
    simpa only [Except.map, List.append_nil] using hall
  rw [Enforced, hrun]
  constructor
  · intro henforced
    have hreturned := henforced.1 returned rfl
    constructor
    · intro p hp
      obtain ⟨entry, hentry, hstamp⟩ := hproofs p hp
      obtain ⟨proof, hproof, hverified⟩ := hreturned entry hentry
      rwa [Option.some.inj (hstamp.symm.trans hproof)]
    · intro c hc hnone
      exact hreturned _ (hskipped c hc hnone)
  · rintro ⟨hverified, hall⟩
    constructor
    · intro entries hreturned entry hentry
      obtain rfl := Except.ok.inj hreturned
      rcases hentries entry hentry with ⟨p, hp, hstamp⟩ | ⟨c, hc, hnone, rfl⟩
      · exact ⟨p.2, hstamp, hverified p hp⟩
      · exact hall c hc hnone
    · intro c hc
      constructor
      · rw [hturn.stamped_iff fun proof => hverified (c, proof)]
        by_cases hadmission : (conv c).admit_ = none
        · exact Or.inl (hall c (hserved c hc) hadmission)
        · exact Or.inr (hturn.proof_of_mem (hserved c hc) hadmission)
      · intro outcome hmem
        obtain ⟨proof, hproof, rfl⟩ := mem_outcomesOf.mp hmem
        exact verified_ok.mpr (hverified _ hproof)

theorem enforced_refused {bridge : SmBridge ι} (hregistry : bridge.trustRegistry = some registry)
    (hsplit : bridge.entries = before ++ c :: after)
    (hturn : InTurn conv registry before objects proofs objects')
    (href : Refused conv registry objects' c) :
    Enforced conv bridge objects ↔ ¬ bridge.Serves c ∧ ∀ c', bridge.Serves c' →
      (∀ proof, (c', proof) ∈ proofs → proof.status = .verified) ∧
        (Stamped (entryOf conv objects c') ∨ ∃ proof, (c', proof) ∈ proofs) := by
  obtain ⟨returned, hloop, -, -, -⟩ := hturn.admitEach
  obtain ⟨method, state, e, hmethod, hrefused⟩ := href
  have hrun : bridge.admitEntries conv true objects =
      ⟨Function.update objects' c state, outcomesOf proofs ++ [(c, .error e)], .error e⟩ := by
    rw [SmBridge.admitEntries, hregistry]
    dsimp only
    rw [hsplit, hloop (c :: after), admitEach, hmethod]
    simp only [hrefused]
    rfl
  rw [Enforced, hrun]
  constructor
  · rintro ⟨-, hserves⟩
    have hnot : ¬ bridge.Serves c := fun hc =>
      verified_error ((hserves c hc).2 _ (List.mem_append_right _ (List.mem_singleton_self _)))
    refine ⟨hnot, fun c' hc' => ?_⟩
    obtain ⟨hstamped, houtcomes⟩ := hserves c' hc'
    have hverified : ∀ proof, (c', proof) ∈ proofs → proof.status = .verified := by
      intro proof hproof
      exact verified_ok.mp
        (houtcomes _ (List.mem_append_left _ (mem_outcomesOf.mpr ⟨proof, hproof, rfl⟩)))
    have hne : c' ≠ c := fun heq => hnot (heq ▸ hc')
    rw [entryOf_update_of_ne hne] at hstamped
    exact ⟨hverified, (hturn.stamped_iff hverified).mp hstamped⟩
  · rintro ⟨hnot, hserves⟩
    refine ⟨fun entries hentries => absurd hentries (by simp), fun c' hc' => ?_⟩
    obtain ⟨hverified, hstamped⟩ := hserves c' hc'
    have hne : c' ≠ c := fun heq => hnot (heq ▸ hc')
    constructor
    · dsimp only
      rw [entryOf_update_of_ne hne]
      exact (hturn.stamped_iff hverified).mpr hstamped
    · intro outcome hmem
      rcases List.mem_append.mp hmem with hmem | hmem
      · obtain ⟨proof, hproof, rfl⟩ := mem_outcomesOf.mp hmem
        exact verified_ok.mpr (hverified proof hproof)
      · exact absurd (Prod.mk.inj (List.mem_singleton.mp hmem)).1 hne

/-- For every list of converters, whatever the profiles answer: required admission is enforced
exactly where it is sound. -/
theorem admission_enforced_iff (conv : ι → EntryModeConverter σ) (objects₀ objects : ι → σ)
    (trustRegistry : Option TrustRegistry) (entries : List ι) :
    Enforced conv (SmBridge.new conv objects₀ trustRegistry entries) objects ↔
      AdmissionSound conv (SmBridge.new conv objects₀ trustRegistry entries) objects := by
  have hserved : ∀ c, (SmBridge.new conv objects₀ trustRegistry entries).Serves c →
      c ∈ entries := fun c => serves_mem
  cases trustRegistry with
  | none => exact enforced_unregistered hserved rfl
  | some registry =>
    constructor
    · intro henforced
      rcases inTurn_or_refused conv registry entries objects with
        ⟨proofs, objects', hturn⟩ | ⟨before, c, after, proofs, objects', hsplit, hturn, href⟩
      · exact Or.inl ⟨proofs, objects', hturn, (enforced_admitted hserved rfl hturn).mp henforced⟩
      · exact Or.inr ⟨before, c, after, proofs, objects', hsplit, hturn, href,
          (enforced_refused rfl hsplit hturn href).mp henforced⟩
    · rintro (⟨proofs, objects', hturn, hsound⟩ |
        ⟨before, c, after, proofs, objects', hsplit, hturn, href, hserves⟩)
      · exact (enforced_admitted hserved rfl hturn).mpr hsound
      · exact (enforced_refused rfl hsplit hturn href).mpr hserves

/-! ## A source without evidence -/

def unattested : ANSEntryConverter :=
  .new "acme-ans" "https://ans.acme.example" none none [] "application/scitt-receipt+cose"
    "ans-scitt" [] none

/-- The bridge refuses the source, which is served all the same. -/
theorem unattested_served :
    ¬ Enforced (fun _ : Unit => ansEntryConverter)
      (SmBridge.new (fun _ => ansEntryConverter) (fun _ => unattested) (some ⟨Dict.empty⟩) [()])
      (fun _ => unattested) := by
  rintro ⟨-, hserves⟩
  have hstamped := (hserves () ⟨"acme-ans", rfl⟩).1
  obtain ⟨proof, hproof, -⟩ := hstamped
  cases hproof

end Admission
