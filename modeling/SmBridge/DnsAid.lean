import SmBridge.Json
import SmBridge.Lib.Attempts
import SmBridge.Lib.Regex
import SmBridge.ProofResult
import SmBridge.Text

/-!
# The DNS-AID profile

The check itself is done by another package. The profile hands it the name and reads its answer:
only a record that DNSSEC authenticates is VERIFIED.
-/
namespace DnsAid

open Python
open JsonValue
open Text
open Trust
open Regex
open Attempts

/-! ## Names -/

def wordChar (c : Char) : Bool := c.isAlphanum || c == '_'

def wordOrHyphen (c : Char) : Bool := c.isAlphanum || c == '_' || c == '-'

def newline (c : Char) : Bool := c == '\n'

/-- `[A-Za-z0-9_](?:[A-Za-z0-9_-]{0,62}[A-Za-z0-9_])?` -/
def label : Pattern Char :=
  .seq (.char wordChar) (.repeated
    (.seq (.repeated (.char wordOrHyphen) 0 (some 62)) (.char wordChar)) 0 (some 1))

/-- `_FQDN_RE` -/
def fqdnRe : Pattern Char :=
  .seq .start (.seq
    (.ahead (.seq (.repeated (.char (!newline ·)) 1 (some 253)) (.finish newline)))
    (.seq (.repeated (.seq label (.char (· == '.'))) 1 none)
      (.seq (.repeated (.char (·.isAlpha)) 2 (some 63)) (.finish newline))))

/-- `isinstance(fqdn, str) and _FQDN_RE.match(fqdn)`, which gives the name if it is one. -/
def validFqdn? : Json → Option String
  | .str fqdn => if fqdnRe.matches_ fqdn.toList then some fqdn else none
  | _ => none

example : validFqdn? (.str "chat.example.com") = some "chat.example.com" := by decide +kernel

example : validFqdn? (.str "not a domain") = none := by decide +kernel

/-! ## The check -/

/-- What the profile reads of the package's answer. -/
structure VerifyResult where
  recordExists : Bool := false
  svcbValid : Bool := false
  dnssecValid : Bool := false
  daneValid : Option Bool := none
  dnssecNote : String := ""

/-- `verify(fqdn, verify_dane_cert=…)`. A failure is the text of its exception. -/
abbrev Verifier := String → Bool → Except String VerifyResult

/-- `none` when no verifier is given and the package is not installed. -/
structure DnsAidProfile where
  verifier : Option Verifier

def profileId : String := "dns-aid"

def method : String := "dns-aid-dnssec"

def notVerified (reason : String) : ProofResult := .notVerified profileId method reason

/-- A rejection that names the record it rejects. -/
def failed (fqdn reason : String) : ProofResult where
  profile := profileId
  method := method
  status := .failed
  evidenceRef := some ("dns-aid:" ++ fqdn)
  failureReason := some reason
  honest := by simp [Honest]

section Definitions

variable (casing : Casing)

/-- `"bogus" in note.lower()` -/
def bogus (note : String) : Bool := (afterText "bogus".toList (casing.lower note).toList).isSome

/-- `"+dane"`, if DANE was asked for and holds. -/
def suffix (wantDane : Bool) (result : VerifyResult) : String :=
  if wantDane && result.daneValid.getD false then "+dane" else ""

/-- What the package's answer comes to. -/
def judge (fqdn : String) (wantDane : Bool) (result : VerifyResult) :
    Except PyError ProofResult :=
  if !result.recordExists then .ok (notVerified ("no DNS-AID record for " ++ fqdn))
  else if !result.dnssecValid then
    if bogus casing result.dnssecNote then
      .ok (failed fqdn
        ("DNSSEC validation failed (bogus) for " ++ fqdn ++ ": " ++ result.dnssecNote))
    else
      .ok (notVerified ("DNS-AID record present but not DNSSEC-authenticated for " ++ fqdn ++
        " (unsigned/insecure zone): " ++
          if result.dnssecNote = "" then "no DNSSEC" else result.dnssecNote))
  else if !result.svcbValid then
    .ok (failed fqdn ("DNSSEC-valid but SVCB record invalid for " ++ fqdn))
  else if wantDane && result.daneValid == some false then
    .ok (failed fqdn ("DANE/TLSA certificate binding failed for " ++ fqdn))
  else
    ProofResult.verified profileId (method ++ suffix wantDane result)
      ("dns-aid:" ++ fqdn ++ ":dnssec" ++ suffix wantDane result)

/-- `evidence or {}` -/
def given (evidence : Json) : Json := if evidence.truthy then evidence else .obj []

/-- `verify`, which does not look at its subject. -/
def verify (self : DnsAidProfile) (evidence : Json) : Except PyError ProofResult := do
  let fqdn ← (given evidence).get "fqdn"
  match validFqdn? fqdn with
  | none => .ok (notVerified "evidence.fqdn missing or malformed")
  | some fqdn => do
    let wantDane ← (given evidence).getD "verify_dane_cert" (.bool false)
    match self.verifier with
    | none =>
      .ok (notVerified "dns-aid package not installed (pip install 'sm-bridge[trust]')")
    | some verifier =>
      match verifier fqdn wantDane.truthy with
      | .error e => .ok (notVerified ("dns-aid verify could not run: " ++ e))
      | .ok result => judge casing fqdn wantDane.truthy result

end Definitions

/-! ## What a result stands for -/

variable {casing : Casing} {self : DnsAidProfile} {evidence : Json} {fqdn : String}
  {wantDane : Bool} {answer : VerifyResult} {result : ProofResult}

/-- VERIFIED stands for a record that is there, valid, and authenticated. -/
theorem judge_verified (h : judge casing fqdn wantDane answer = .ok result)
    (hstatus : result.status = .verified) :
    answer.recordExists = true ∧ answer.dnssecValid = true ∧ answer.svcbValid = true ∧
      ¬ (wantDane = true ∧ answer.daneValid = some false) ∧
      result.evidenceRef = some ("dns-aid:" ++ fqdn ++ ":dnssec" ++ suffix wantDane answer) := by
  have hnot : ∀ r : ProofResult, r.status ≠ .verified →
      (.ok r : Except PyError ProofResult) ≠ .ok result := by
    intro r hne heq
    exact hne (Except.ok.inj heq ▸ hstatus)
  unfold judge at h
  split at h
  · exact absurd h (hnot _ ProofStatus.noConfusion)
  split at h
  · split at h
    · exact absurd h (hnot _ ProofStatus.noConfusion)
    · exact absurd h (hnot _ ProofStatus.noConfusion)
  split at h
  · exact absurd h (hnot _ ProofStatus.noConfusion)
  split at h
  · exact absurd h (hnot _ ProofStatus.noConfusion)
  · rename_i hexists hdnssec hsvcb hdane
    have href := (ProofResult.verified_eq_ok.mp h).2.2.2.2.1
    exact ⟨by simpa using hexists, by simpa using hdnssec, by simpa using hsvcb,
      by simpa using hdane, href⟩

/-- Beyond `malformed`, a result is about a name that the check lets through. -/
theorem verify_cases (h : verify casing self evidence = .ok result) :
    result = notVerified "evidence.fqdn missing or malformed" ∨
      ∃ value fqdn, (given evidence).get "fqdn" = .ok value ∧ validFqdn? value = some fqdn ∧
        (result.status = .notVerified ∨
          ∃ verifier wantDane answer, self.verifier = some verifier ∧
            verifier fqdn wantDane = .ok answer ∧
            judge casing fqdn wantDane answer = .ok result) := by
  obtain ⟨value, hvalue, h⟩ := bind_eq_ok.mp h
  cases hfqdn : validFqdn? value with
  | none =>
    rw [hfqdn] at h
    exact Or.inl (Except.ok.inj h).symm
  | some fqdn =>
    refine Or.inr ⟨value, fqdn, hvalue, hfqdn, ?_⟩
    rw [hfqdn] at h
    obtain ⟨wantDane, -, h⟩ := bind_eq_ok.mp h
    cases hverifier : self.verifier with
    | none =>
      rw [hverifier] at h
      exact Or.inl (Except.ok.inj h ▸ rfl)
    | some verifier =>
      simp only [hverifier] at h
      cases hanswer : verifier fqdn wantDane.truthy with
      | error e =>
        rw [hanswer] at h
        exact Or.inl (Except.ok.inj h ▸ rfl)
      | ok answer =>
        rw [hanswer] at h
        exact Or.inr ⟨verifier, wantDane.truthy, answer, rfl, hanswer, h⟩

/-- A VERIFIED result pins a name that the check lets through, with a record that DNSSEC
authenticates. -/
theorem verify_verified (h : verify casing self evidence = .ok result)
    (hstatus : result.status = .verified) :
    ∃ value fqdn verifier wantDane answer,
      (given evidence).get "fqdn" = .ok value ∧ validFqdn? value = some fqdn ∧
        self.verifier = some verifier ∧ verifier fqdn wantDane = .ok answer ∧
        answer.recordExists = true ∧ answer.dnssecValid = true ∧ answer.svcbValid = true ∧
        result.evidenceRef = some ("dns-aid:" ++ fqdn ++ ":dnssec" ++ suffix wantDane answer) := by
  rcases verify_cases h with rfl | ⟨value, fqdn, hvalue, hfqdn, hnot | hjudged⟩
  · cases hstatus
  · cases hstatus.symm.trans hnot
  · obtain ⟨verifier, wantDane, answer, hverifier, hanswer, hjudge⟩ := hjudged
    obtain ⟨hexists, hdnssec, hsvcb, -, href⟩ := judge_verified hjudge hstatus
    exact ⟨value, fqdn, verifier, wantDane, answer, hvalue, hfqdn, hverifier, hanswer, hexists,
      hdnssec, hsvcb, href⟩

end DnsAid
