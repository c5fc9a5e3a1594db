import SmBridge.Python

/-!
# The normalized proof block

A result carries the honesty rule, so a VERIFIED one without evidence cannot be built.
-/
namespace Trust

open Python

inductive ProofStatus where
  | verified
  | failed
  | notVerified
  deriving DecidableEq, Repr

/-- `_enforce_honesty` -/
def Honest (status : ProofStatus) (evidenceRef failureReason : Option String) : Prop :=
  (status = .verified → (evidenceRef.any fun ref => !isBlank ref) = true) ∧
  (status ≠ .verified → failureReason.isSome = true)

instance (status : ProofStatus) (evidenceRef failureReason : Option String) :
    Decidable (Honest status evidenceRef failureReason) :=
  inferInstanceAs (Decidable (_ ∧ _))

structure ProofResult where
  profile : String
  method : String
  status : ProofStatus
  evidenceRef : Option String
  failureReason : Option String
  honest : Honest status evidenceRef failureReason
  deriving DecidableEq

namespace ProofResult

def verified (profile method evidenceRef : String) : Except PyError ProofResult :=
  if h : Honest .verified (some evidenceRef) none then
    .ok ⟨profile, method, .verified, some evidenceRef, none, h⟩
  else
    .error (.valueError ("cryptographic honesty violation: ProofResult.status=VERIFIED requires " ++
      "a non-empty evidence_ref (the artifact that was actually checked)"))

def failed (profile method reason : String) : ProofResult :=
  ⟨profile, method, .failed, none, some reason, by simp [Honest]⟩

def notVerified (profile method reason : String) : ProofResult :=
  ⟨profile, method, .notVerified, none, some reason, by simp [Honest]⟩

theorem verified_eq_ok {profile method evidenceRef : String} {result : ProofResult} :
    verified profile method evidenceRef = .ok result ↔
      isBlank evidenceRef = false ∧ result.profile = profile ∧ result.method = method ∧
        result.status = .verified ∧ result.evidenceRef = some evidenceRef ∧
        result.failureReason = none := by
  have hhonest : Honest .verified (some evidenceRef) none ↔ isBlank evidenceRef = false := by
    simp [Honest]
  obtain ⟨p, m, s, e, f, hresult⟩ := result
  rw [verified]
  split
  · rename_i h
    simp only [Except.ok.injEq, mk.injEq, hhonest.mp h, true_and]
    constructor <;> (rintro ⟨rfl, rfl, rfl, rfl, rfl⟩; exact ⟨rfl, rfl, rfl, rfl, rfl⟩)
  · rename_i h
    exact ⟨fun herr => absurd herr (by simp), fun hok => absurd (hhonest.mpr hok.1) h⟩

end ProofResult

/-- The call returned, and its result is VERIFIED. -/
def Verified (outcome : Except PyError ProofResult) : Prop :=
  ∃ result, outcome = .ok result ∧ result.status = .verified

@[simp] theorem verified_ok {result : ProofResult} :
    Verified (.ok result) ↔ result.status = .verified := by
  simp [Verified]

@[simp] theorem verified_error {e : PyError} : ¬ Verified (.error e) := by
  simp [Verified]

instance : DecidablePred Verified
  | .ok _ => decidable_of_iff _ verified_ok.symm
  | .error _ => isFalse verified_error

theorem verified_of_not_blank {profile method evidenceRef : String}
    (h : isBlank evidenceRef = false) :
    Verified (ProofResult.verified profile method evidenceRef) := by
  have hhonest : Honest .verified (some evidenceRef) none := by simp [Honest, h]
  rw [ProofResult.verified, dif_pos hhonest, verified_ok]

theorem verified_bind {α : Type} {x : Except PyError α} {f : α → Except PyError ProofResult} :
    Verified (x >>= f) ↔ ∃ a, x = .ok a ∧ Verified (f a) := by
  cases x <;> simp [bind, Except.bind]

end Trust
