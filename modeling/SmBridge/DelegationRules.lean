import SmBridge.Delegation
import SmBridge.Lib.Hierarchy

/-!
# What the delegation profile accepts

Evidence of the right types carries its well-formedness. On it the checks of single hops
against their predecessors amount to rules about all pairs of hops, since coverage of scopes
and nesting of windows are transitive.
-/
namespace DelegationRules

open Python
open Attempts
open JsonValue
open Jcs
open Es256
open Trust
open Delegation

/-! ## Scopes as paths -/

def scopePath (s : String) : Hierarchy.Path '.' := ⟨s.toList⟩

def Covers (s t : String) : Prop := scopeCovers (.str s) (.str t) = .ok true

theorem scopeCovers_str (s t : String) :
    scopeCovers (.str s) (.str t) = .ok (t == s || (s.toList ++ ['.']).isPrefixOf t.toList) := by
  rw [scopeCovers]
  by_cases h : t = s
  · simp [Json.eq_str, h]
  · simp [Json.eq_str, h]

theorem covers_iff {s t : String} : Covers s t ↔ scopePath t ≤ scopePath s := by
  rw [Covers, scopeCovers_str, Hierarchy.Path.le_iff]
  simp [scopePath, String.toList_inj]

def CoveredBy (cs ps : List String) : Prop := ∀ c ∈ cs, ∃ p ∈ ps, Covers p c

theorem coveredBy_iff {cs ps : List String} :
    CoveredBy cs ps ↔ IsCofinalFor {c | c ∈ cs.map scopePath} {p | p ∈ ps.map scopePath} := by
  simp [CoveredBy, IsCofinalFor, covers_iff]

theorem CoveredBy.trans {bs cs ds : List String} (h : CoveredBy bs cs) (h' : CoveredBy cs ds) :
    CoveredBy bs ds :=
  coveredBy_iff.mpr ((coveredBy_iff.mp h).trans (coveredBy_iff.mp h'))

theorem anyCovers_str (c : String) (ps : List String) :
    ∃ b, anyCovers (.str c) (ps.map .str) = .ok b ∧ (b = true ↔ ∃ p ∈ ps, Covers p c) := by
  induction ps with
  | nil => exact ⟨false, rfl, by simp⟩
  | cons p ps ih =>
    obtain ⟨b, hb, hiff⟩ := ih
    have hstep := scopeCovers_str p c
    rw [List.map_cons, anyCovers]
    generalize hcovers : (c == p || (p.toList ++ ['.']).isPrefixOf c.toList) = covers at hstep
    have hp : Covers p c ↔ covers = true := by rw [Covers, hstep, Except.ok.injEq]
    cases covers with
    | true => exact ⟨true, by simp [hstep, bind, Except.bind], by simp [hp]⟩
    | false => exact ⟨b, by simp [hstep, hb, bind, Except.bind], by simp [hp, hiff]⟩

theorem scopeSubset_str (cs ps : List String) :
    scopeSubset (.arr (cs.map .str)) (.arr (ps.map .str)) = .ok none ↔ CoveredBy cs ps := by
  rw [scopeSubset, Json.elements_arr]
  change firstUncovered _ _ = _ ↔ _
  induction cs with
  | nil => simp [firstUncovered, CoveredBy]
  | cons c cs ih =>
    obtain ⟨b, hb, hiff⟩ := anyCovers_str c ps
    have hcons : CoveredBy (c :: cs) ps ↔ (∃ p ∈ ps, Covers p c) ∧ CoveredBy cs ps := by
      simp [CoveredBy]
    rw [List.map_cons, firstUncovered, Json.elements_arr, hcons, ← hiff, ← ih]
    cases b <;> simp [hb, bind, Except.bind]

/-! ## Evidence of the right types -/

/-- A credential: its dictionary, and the values in it that the rules are about. -/
structure Credential (python : Interpreter) where
  fields : List (String × Json)
  delegationId : String
  subjectDid : Option String
  scopes : List String
  maxDepth : ℤ
  parent : Option String
  issued : ℤ
  expires : ℤ
  delegationId_eq : fields.lookup "delegationId" = some (.str delegationId)
  subjectDid_eq : ∃ subject, (fields.lookup "subject").getD (.obj []) = .obj subject ∧
    (subject.lookup "did").getD .null = subjectDid.elim .null .str
  scopes_eq : fields.lookup "scopes" = some (.arr (scopes.map .str))
  maxDepth_eq : (fields.lookup "maxRedelegationDepth").getD (.int 0) = .int maxDepth
  parent_eq : (fields.lookup "parentDelegation").getD .null = parent.elim .null .str
  window_eq : window python (.obj fields) = .ok (issued, expires)

def Credential.json {python : Interpreter} (cred : Credential python) : Json := .obj cred.fields

def HasSignature (signatures : List (String × Json)) (id : String) (sigB64 signerPubkey : Json) :
    Prop :=
  ∃ entry, signatures.lookup id = some (.obj entry) ∧ entry.lookup "sig_b64" = some sigB64 ∧
    entry.lookup "signer_pubkey" = some signerPubkey

/-- Evidence as the profile documents it. -/
structure Evidence (python : Interpreter) where
  fields : List (String × Json)
  chain : List (Credential python)
  signatures : List (String × Json)
  providerScopes : List String
  statusTokens : List (String × Json)
  now : ℤ
  chain_ne : chain ≠ []
  chain_le : chain.length ≤ 64
  chain_eq : fields.lookup "chain" = some (.arr (chain.map Credential.json))
  signatures_eq : fields.lookup "signatures" = some (.obj signatures)
  signed : ∀ cred ∈ chain, ∃ sigB64 signerPubkey,
    HasSignature signatures cred.delegationId sigB64 signerPubkey
  providerScopes_eq : fields.lookup "provider_scopes" = some (.arr (providerScopes.map .str))
  statusTokens_eq : fields.lookup "status_tokens" = some (.obj statusTokens)
  tokens : ∀ cred ∈ chain, ∀ value, statusTokens.lookup cred.delegationId = some value →
    ∃ token exp, value = .obj token ∧ token.lookup "exp" = some (.int exp)
  now_eq : fields.lookup "now" = some (.int now)

def Evidence.json {python : Interpreter} (evidence : Evidence python) : Json := .obj evidence.fields

/-! ## The rules -/

def Accepted {Key : Type} (crypto : Cryptography Key) (signatures fields : List (String × Json))
    (id : String) : Prop :=
  ∃ sigB64 signerPubkey payload, HasSignature signatures id sigB64 signerPubkey ∧
    jcsCanonical (.obj fields) = .ok payload ∧
    verifyEs256 crypto headerB64 payload sigB64 signerPubkey = true

def HasExp (statusTokens : List (String × Json)) (id : String) (exp : ℤ) : Prop :=
  ∃ token, statusTokens.lookup id = some (.obj token) ∧ token.lookup "exp" = some (.int exp)

def IsActive (statusTokens : List (String × Json)) (id : String) (exp : ℤ) : Prop :=
  ∃ token, statusTokens.lookup id = some (.obj token) ∧
    token.lookup "status" = some (.str "ACTIVE") ∧ token.lookup "exp" = some (.int exp)

section Rules

variable {python : Interpreter}

structure WellFormed (cred : Credential python) : Prop where
  delegationId : cred.delegationId ≠ ""
  schemaVersion : cred.fields.lookup "schemaVersion" = some (.str schemaVersion)
  subjectDid : ∃ did, cred.subjectDid = some did ∧ did ≠ ""
  scopes : cred.scopes ≠ []
  maxDepth : 0 ≤ cred.maxDepth
  window : cred.issued < cred.expires

/-- What a child must keep to of each of its ancestors. -/
structure Within (ancestor cred : Credential python) : Prop where
  scopes : CoveredBy cred.scopes ancestor.scopes
  issued : ancestor.issued ≤ cred.issued
  expires : cred.expires ≤ ancestor.expires

/-- The rules of the profile, for a chain of any length. Times are in microseconds, `now` in
seconds. -/
structure Rules {Key : Type} (crypto : Cryptography Key) (e : Evidence python) : Prop where
  accepted : ∀ cred ∈ e.chain, Accepted crypto e.signatures cred.fields cred.delegationId
  wellFormed : ∀ cred ∈ e.chain, WellFormed cred
  root : ∀ root ∈ e.chain.head?, root.parent = none
  linked : ∀ i (h : i + 1 < e.chain.length), e.chain[i + 1].parent = some e.chain[i].delegationId
  active : ∀ cred ∈ e.chain, ∃ exp, IsActive e.statusTokens cred.delegationId exp ∧ e.now ≤ exp
  current : ∀ cred ∈ e.chain, cred.issued ≤ e.now * 10 ^ 6 ∧ e.now * 10 ^ 6 < cred.expires
  budget : ∀ i (h : i < e.chain.length), (e.chain.length : ℤ) - 1 - i ≤ e.chain[i].maxDepth
  provided : ∀ cred ∈ e.chain, CoveredBy cred.scopes e.providerScopes
  within : ∀ j i (hi : i < e.chain.length) (hj : j < i), Within e.chain[j] e.chain[i]

end Rules

theorem Within.trans {python : Interpreter} {a b c : Credential python} (h : Within a b)
    (h' : Within b c) : Within a c :=
  ⟨h'.scopes.trans h.scopes, h.issued.trans h'.issued, h'.expires.trans h.expires⟩

instance {python : Interpreter} : Trans (@Within python) (@Within python) (@Within python) :=
  ⟨Within.trans⟩

/-! ## Single checks -/

section Checks

theorem getD_null_eq_str {value : Option Json} {s : String} :
    value.getD .null = .str s ↔ value = some (.str s) := by
  cases value <;> simp

theorem truthy_str {s : String} : (Json.str s).truthy = true ↔ s ≠ "" := by simp [Json.truthy]

theorem truthy_elim {s : Option String} :
    (s.elim Json.null Json.str).truthy = true ↔ ∃ t, s = some t ∧ t ≠ "" := by
  cases s <;> simp [Json.truthy]

theorem truthy_map {ss : List String} : (Json.arr (ss.map .str)).truthy = true ↔ ss ≠ [] := by
  simp [Json.truthy]

variable {python : Interpreter}

theorem structureWindow_ok {cred : Json} {times : ℤ × ℤ} :
    structureWindow python cred = .ok times ↔ window python cred = .ok times := by
  rw [structureWindow]
  cases window python cred with
  | ok times' => rfl
  | error e => cases e <;> simp

namespace Credential

variable (cred : Credential python)

theorem item_delegationId : cred.json.item "delegationId" = .ok (.str cred.delegationId) :=
  Json.item_obj_of_lookup cred.delegationId_eq

theorem item_scopes : cred.json.item "scopes" = .ok (.arr (cred.scopes.map .str)) :=
  Json.item_obj_of_lookup cred.scopes_eq

theorem get_parentDelegation :
    cred.json.get "parentDelegation" = .ok (cred.parent.elim .null .str) := by
  rw [json, Json.get_obj, cred.parent_eq]

theorem window_json : window python cred.json = .ok (cred.issued, cred.expires) := cred.window_eq

theorem maxRedelegationDepth_json : maxRedelegationDepth python cred.json = .ok cred.maxDepth := by
  simp [maxRedelegationDepth, json, cred.maxDepth_eq, bind, Except.bind, Interpreter.int]

end Credential

theorem validateStructure_ok (cred : Credential python) {u : Unit} :
    validateStructure python cred.json = .ok u ↔ WellFormed cred := by
  obtain ⟨subject, hsubject, hdid⟩ := cred.subjectDid_eq
  simp only [validateStructure, bind_eq_ok, raiseIf_eq_ok, structureWindow_ok,
    cred.maxRedelegationDepth_json, cred.window_json]
  simp only [Credential.json, Json.get_obj, Json.getD_obj, cred.delegationId_eq, cred.scopes_eq,
    hsubject, Option.getD_some, Except.ok.injEq, exists_eq_left', hdid,
    Bool.not_eq_true', Bool.not_eq_false, truthy_str, truthy_elim, truthy_map, Json.eq_str,
    exists_const, getD_null_eq_str, gt_iff_lt, not_lt, not_le]
  constructor
  · rintro ⟨hid, hversion, hsubject, hscopes, hdepth, hwindow⟩
    exact ⟨hid, hversion, hsubject, hscopes, hdepth, hwindow⟩
  · rintro ⟨hid, hversion, hsubject, hscopes, hdepth, hwindow⟩
    exact ⟨hid, hversion, hsubject, hscopes, hdepth, hwindow⟩

theorem validateLinkage_root (cred : Credential python) (did : Json) {u : Unit} :
    validateLinkage python none cred.json did = .ok u ↔ cred.parent = none := by
  simp only [validateLinkage, bind_eq_ok, raiseIf_eq_ok, cred.get_parentDelegation,
    Except.ok.injEq, exists_eq_left', Bool.not_eq_true', Bool.not_eq_false]
  cases cred.parent <;> simp [Json.isNull]

theorem validateLinkage_child (parent cred : Credential python) (did : Json) {u : Unit} :
    validateLinkage python (some parent.json) cred.json did = .ok u ↔
      cred.parent = some parent.delegationId := by
  simp only [validateLinkage, bind_eq_ok, raiseIf_eq_ok, cred.get_parentDelegation,
    parent.item_delegationId, Except.ok.injEq, exists_eq_left', Bool.not_eq_true',
    Bool.not_eq_false, Json.eq_str]
  cases cred.parent <;> simp

theorem expired_int {exp now : ℤ} (hnow : InYearRange now) :
    expired python (.int exp) (.finite now) = .ok false ↔ now ≤ exp ∧ Floatable exp := by
  simp only [expired, Json.isNull, Bool.false_eq_true, if_false, Interpreter.float, bind_eq_ok,
    Except.ok.injEq]
  constructor
  · rintro ⟨x, hx, hlt⟩
    refine ⟨?_, (floatOfInt_eq_ok.mp hx).1⟩
    rw [← not_lt, ← floatOfInt_lt_iff hx hnow.natAbs_lt, hlt]
    simp
  · rintro ⟨hle, hfloat⟩
    have hx := floatOfInt_eq_ok.mpr ⟨hfloat, rfl⟩
    refine ⟨_, hx, ?_⟩
    rw [← Bool.not_eq_true, floatOfInt_lt_iff hx hnow.natAbs_lt, not_lt]
    exact hle

theorem requireActive_eq_ok {did status : Json} {u : Unit} :
    requireActive python did status = .ok u ↔ status = .str "ACTIVE" := by
  rw [requireActive, ← Json.eq_str]
  split
  · rename_i hactive
    exact iff_of_true rfl hactive
  · rename_i hactive
    refine iff_of_false (fun h => ?_) hactive
    obtain ⟨text, -, herror⟩ := bind_eq_ok.mp h
    cases herror

theorem validateToken_eq_ok {statusTokens : List (String × Json)} {did : Json} {nowTs : PyFloat}
    {u : Unit} :
    validateToken python statusTokens did nowTs = .ok u ↔
      ∃ tok status exp, Json.lookupKey statusTokens did = .ok tok ∧ tok.isNull = false ∧
        tok.get "status" = .ok status ∧ status = .str "ACTIVE" ∧ tok.get "exp" = .ok exp ∧
        expired python exp nowTs = .ok false := by
  simp only [validateToken, bind_eq_ok, raiseIf_eq_ok, requireActive_eq_ok, Bool.not_eq_true,
    Json.eq_str]
  constructor
  · rintro ⟨tok, htok, -, hnull, status, hstatus, -, -, -, hactive, exp, hexp, late, hlate, hend⟩
    cases late with
    | true =>
      obtain ⟨n, -, herror⟩ := bind_eq_ok.mp hend
      cases herror
    | false => exact ⟨tok, status, exp, htok, hnull, hstatus, hactive, hexp, hlate⟩
  · rintro ⟨tok, status, exp, htok, hnull, hstatus, rfl, hexp, hlate⟩
    exact ⟨tok, htok, (), hnull, _, hstatus, (), by simp, (), rfl,
      exp, hexp, false, hlate, rfl⟩

theorem validateToken_ok {statusTokens : List (String × Json)} {id : String} {now : ℤ}
    (htoken : ∀ value, statusTokens.lookup id = some value →
      ∃ token exp, value = .obj token ∧ token.lookup "exp" = some (.int exp))
    (hnow : InYearRange now) {u : Unit} :
    validateToken python statusTokens (.str id) (.finite now) = .ok u ↔
      ∃ exp, IsActive statusTokens id exp ∧ now ≤ exp ∧ Floatable exp := by
  rw [validateToken_eq_ok]
  simp only [Json.lookupKey_str, Except.ok.injEq]
  constructor
  · rintro ⟨tok, status, exp, rfl, hnull, hstatus, rfl, hexp, hlate⟩
    cases hlookup : statusTokens.lookup id with
    | none => simp [hlookup, Json.isNull] at hnull
    | some value =>
      obtain ⟨token, time, rfl, htime⟩ := htoken value hlookup
      simp only [hlookup, Option.getD_some, Json.get_obj, Except.ok.injEq, getD_null_eq_str, htime]
        at hstatus hexp
      subst hexp
      exact ⟨time, ⟨token, hlookup, hstatus, htime⟩, (expired_int hnow).mp hlate⟩
  · rintro ⟨exp, ⟨token, hlookup, hstatus, hexp⟩, hfresh⟩
    refine ⟨.obj token, .str "ACTIVE", .int exp, ?_, rfl, ?_, rfl, ?_,
      (expired_int hnow).mpr hfresh⟩
    · rw [hlookup, Option.getD_some]
    · rw [Json.get_obj, hstatus, Option.getD_some]
    · rw [Json.get_obj, hexp, Option.getD_some]

theorem validateScopes_root {providerScopes : List String} (cred : Credential python) (did : Json)
    {u : Unit} :
    validateScopes python (providerScopes.map .str) none cred.json did = .ok u ↔
      CoveredBy cred.scopes providerScopes := by
  simp only [validateScopes, cred.item_scopes, bind_eq_ok, Except.ok.injEq, exists_eq_left',
    ← scopeSubset_str]
  constructor
  · rintro ⟨uncovered, hsubset, hend⟩
    cases uncovered with
    | none => exact hsubset
    | some c => cases hend
  · exact fun hsubset => ⟨none, hsubset, rfl⟩

theorem validateScopes_child {providerScopes : List Json} (parent cred : Credential python)
    (did : Json) {u : Unit} :
    validateScopes python providerScopes (some parent.json) cred.json did = .ok u ↔
      CoveredBy cred.scopes parent.scopes := by
  simp only [validateScopes, cred.item_scopes, parent.item_scopes, bind_eq_ok, Except.ok.injEq,
    exists_eq_left', ← scopeSubset_str]
  constructor
  · rintro ⟨uncovered, hsubset, hend⟩
    cases uncovered with
    | none => exact hsubset
    | some c => cases hend
  · exact fun hsubset => ⟨none, hsubset, rfl⟩

theorem validateNesting_child (parent cred : Credential python) (did : Json) {u : Unit} :
    validateNesting python (some parent.json) cred.json did cred.issued cred.expires = .ok u ↔
      parent.issued ≤ cred.issued ∧ cred.expires ≤ parent.expires := by
  simp only [validateNesting, parent.window_json, bind_eq_ok, raiseIf_eq_ok,
    Except.ok.injEq, exists_eq_left', not_or, gt_iff_lt, not_lt]

end Checks

/-! ## The loop -/

section Loop

variable {python : Interpreter} {providerScopes : List String}
  {statusTokens : List (String × Json)} {now : ℤ}

/-- What the loop checks of a hop without its neighbours. -/
structure Sound (statusTokens : List (String × Json)) (now : ℤ) (cred : Credential python) :
    Prop where
  wellFormed : WellFormed cred
  active : ∃ exp, IsActive statusTokens cred.delegationId exp ∧ now ≤ exp ∧ Floatable exp
  current : cred.issued ≤ now * 10 ^ 6 ∧ now * 10 ^ 6 < cred.expires

structure Follows (parent cred : Credential python) : Prop where
  linked : cred.parent = some parent.delegationId
  within : Within parent cred

def TokensTyped (statusTokens : List (String × Json)) (chain : List (Credential python)) : Prop :=
  ∀ cred ∈ chain, ∀ value, statusTokens.lookup cred.delegationId = some value →
    ∃ token exp, value = .obj token ∧ token.lookup "exp" = some (.int exp)

theorem validateHop_ok {parent : Option Json} {cred : Credential python} {below : ℕ}
    (htoken : TokensTyped statusTokens [cred]) (hnow : InYearRange now) :
    validateHop python (providerScopes.map .str) statusTokens (now * 10 ^ 6) (.finite now) parent
        cred.json below = .ok () ↔
      Sound statusTokens now cred ∧ below ≤ cred.maxDepth ∧
        validateLinkage python parent cred.json (.str cred.delegationId) = .ok () ∧
        validateScopes python (providerScopes.map .str) parent cred.json (.str cred.delegationId) =
          .ok () ∧
        validateNesting python parent cred.json (.str cred.delegationId) cred.issued cred.expires =
          .ok () := by
  simp only [validateHop, bind_eq_ok, validateStructure_ok, cred.item_delegationId,
    validateToken_ok (htoken cred (by simp)) hnow, cred.window_json, raiseIf_eq_ok,
    cred.maxRedelegationDepth_json, Except.ok.injEq, exists_eq_left', exists_const, not_or, not_lt,
    not_le, gt_iff_lt]
  constructor
  · rintro ⟨hformed, _, hlinked, hactive, hcurrent, hbudget, _, hscopes, hnested⟩
    exact ⟨⟨hformed, hactive, hcurrent⟩, hbudget, hlinked, hscopes, hnested⟩
  · rintro ⟨⟨hformed, hactive, hcurrent⟩, hbudget, hlinked, hscopes, hnested⟩
    exact ⟨hformed, (), hlinked, hactive, hcurrent, hbudget, (), hscopes, hnested⟩

theorem validateHop_root {cred : Credential python} {below : ℕ}
    (htoken : TokensTyped statusTokens [cred]) (hnow : InYearRange now) :
    validateHop python (providerScopes.map .str) statusTokens (now * 10 ^ 6) (.finite now) none
        cred.json below = .ok () ↔
      Sound statusTokens now cred ∧ below ≤ cred.maxDepth ∧ cred.parent = none ∧
        CoveredBy cred.scopes providerScopes := by
  rw [validateHop_ok htoken hnow, validateLinkage_root, validateScopes_root]
  simp only [validateNesting, and_true]

theorem validateHop_child {parent cred : Credential python} {below : ℕ}
    (htoken : TokensTyped statusTokens [cred]) (hnow : InYearRange now) :
    validateHop python (providerScopes.map .str) statusTokens (now * 10 ^ 6) (.finite now)
        (some parent.json) cred.json below = .ok () ↔
      Sound statusTokens now cred ∧ below ≤ cred.maxDepth ∧ Follows parent cred := by
  rw [validateHop_ok htoken hnow, validateLinkage_child, validateScopes_child,
    validateNesting_child]
  constructor
  · rintro ⟨hsound, hbudget, hlinked, hscopes, hissued, hexpires⟩
    exact ⟨hsound, hbudget, hlinked, hscopes, hissued, hexpires⟩
  · rintro ⟨hsound, hbudget, hlinked, hscopes, hissued, hexpires⟩
    exact ⟨hsound, hbudget, hlinked, hscopes, hissued, hexpires⟩

def Budgeted (chain : List (Credential python)) : Prop :=
  ∀ i (h : i < chain.length), (chain.length : ℤ) - 1 - i ≤ chain[i].maxDepth

theorem budgeted_cons {cred : Credential python} {rest : List (Credential python)} :
    Budgeted (cred :: rest) ↔ (rest.length : ℤ) ≤ cred.maxDepth ∧ Budgeted rest := by
  constructor
  · intro h
    constructor
    · have hhead := h 0 (by simp)
      simp only [List.length_cons, List.getElem_cons_zero] at hhead
      omega
    · intro i hi
      have hnext := h (i + 1) (by simpa using hi)
      simp only [List.length_cons, List.getElem_cons_succ] at hnext
      omega
  · rintro ⟨hhead, hrest⟩ i hi
    cases i with
    | zero =>
      simp only [List.length_cons, List.getElem_cons_zero]
      omega
    | succ i =>
      have hprev := hrest i (by simpa using hi)
      simp only [List.length_cons, List.getElem_cons_succ]
      omega

theorem validateChain_child {parent : Credential python} {rest : List (Credential python)}
    (htokens : TokensTyped statusTokens rest) (hnow : InYearRange now) :
    validateChain python (providerScopes.map .str) statusTokens (now * 10 ^ 6) (.finite now)
        (some parent.json) (rest.map Credential.json) = .ok () ↔
      (∀ cred ∈ rest, Sound statusTokens now cred) ∧ Budgeted rest ∧
        List.IsChain Follows (parent :: rest) := by
  -- each turn of the loop checks a hop against the one before it only
  induction rest generalizing parent with
  | nil => simp [validateChain, Budgeted]
  | cons cred rest ih =>
    have hcred : TokensTyped statusTokens [cred] := fun c hc => htokens c (by simp_all)
    have hrest : TokensTyped statusTokens rest := fun c hc => htokens c (List.mem_cons_of_mem _ hc)
    rw [List.map_cons, validateChain, bind_eq_ok]
    simp only [List.length_map, List.forall_mem_cons, List.isChain_cons_cons, budgeted_cons]
    constructor
    · rintro ⟨u, hhop, htail⟩
      obtain ⟨hsound, hbudget, hfollows⟩ := (validateHop_child hcred hnow).mp hhop
      obtain ⟨hsounds, hbudgets, hchain⟩ := (ih hrest).mp htail
      exact ⟨⟨hsound, hsounds⟩, ⟨hbudget, hbudgets⟩, hfollows, hchain⟩
    · rintro ⟨⟨hsound, hsounds⟩, ⟨hbudget, hbudgets⟩, hfollows, hchain⟩
      exact ⟨(), (validateHop_child hcred hnow).mpr ⟨hsound, hbudget, hfollows⟩,
        (ih hrest).mpr ⟨hsounds, hbudgets, hchain⟩⟩

/-- The loop passes exactly when each hop is sound and in budget, and keeps to its
predecessor, the root to the provider. -/
theorem validateChain_ok {root : Credential python} {rest : List (Credential python)}
    (htokens : TokensTyped statusTokens (root :: rest)) (hnow : InYearRange now) :
    validateChain python (providerScopes.map .str) statusTokens (now * 10 ^ 6) (.finite now) none
        ((root :: rest).map Credential.json) = .ok () ↔
      (∀ cred ∈ root :: rest, Sound statusTokens now cred) ∧ Budgeted (root :: rest) ∧
        root.parent = none ∧ CoveredBy root.scopes providerScopes ∧
        List.IsChain Follows (root :: rest) := by
  have hroot : TokensTyped statusTokens [root] := fun c hc => htokens c (by simp_all)
  have hrest : TokensTyped statusTokens rest := fun c hc => htokens c (List.mem_cons_of_mem _ hc)
  rw [List.map_cons, validateChain, bind_eq_ok]
  simp only [List.length_map, List.forall_mem_cons, budgeted_cons]
  constructor
  · rintro ⟨u, hhop, htail⟩
    obtain ⟨hsound, hbudget, hparent, hscopes⟩ := (validateHop_root hroot hnow).mp hhop
    obtain ⟨hsounds, hbudgets, hchain⟩ := (validateChain_child hrest hnow).mp htail
    exact ⟨⟨hsound, hsounds⟩, ⟨hbudget, hbudgets⟩, hparent, hscopes, hchain⟩
  · rintro ⟨⟨hsound, hsounds⟩, ⟨hbudget, hbudgets⟩, hparent, hscopes, hchain⟩
    exact ⟨(), (validateHop_root hroot hnow).mpr ⟨hsound, hbudget, hparent, hscopes⟩,
      (validateChain_child hrest hnow).mpr ⟨hsounds, hbudgets, hchain⟩⟩

end Loop

/-! ## Acceptance -/

section Acceptance

variable {python : Interpreter} {Key : Type} {crypto : Cryptography Key}

theorem checkSignature_ok {signatures : List (String × Json)} {cred : Credential python} :
    checkSignature python crypto signatures cred.json = .ok none ↔
      cred.delegationId ≠ "" ∧ Accepted crypto signatures cred.fields cred.delegationId := by
  rw [checkSignature_eq_none]
  constructor
  · rintro ⟨fields, did, entry, sigB64, signerPubkey, payload, hfields, hdid, hid, hentry, hsig,
      hkey, hpayload, haccepted⟩
    obtain rfl : cred.fields = fields := Json.obj.inj hfields
    obtain rfl : did = .str cred.delegationId :=
      Option.some.inj (hdid.symm.trans cred.delegationId_eq)
    rw [Json.lookupKey_str, Except.ok.injEq] at hentry
    refine ⟨truthy_str.mp hid, sigB64, signerPubkey, payload, ⟨entry, ?_, hsig, hkey⟩, hpayload,
      haccepted⟩
    cases hlookup : signatures.lookup cred.delegationId with
    | none => simp [hlookup] at hentry
    | some value => rw [← hentry, hlookup, Option.getD_some]
  · rintro ⟨hid, sigB64, signerPubkey, payload, ⟨entry, hentry, hsig, hkey⟩, hpayload, haccepted⟩
    refine ⟨cred.fields, _, entry, sigB64, signerPubkey, payload, rfl, cred.delegationId_eq,
      truthy_str.mpr hid, ?_, hsig, hkey, hpayload, haccepted⟩
    rw [Json.lookupKey_str, hentry, Option.getD_some]

def ExpsFloatable (e : Evidence python) : Prop :=
  ∀ cred ∈ e.chain, ∀ exp, HasExp e.statusTokens cred.delegationId exp → Floatable exp

/-- What the loop establishes about neighbours holds of every hop and all its ancestors. -/
theorem rules_iff {e : Evidence python} {root : Credential python} {rest : List (Credential python)}
    (hchain : e.chain = root :: rest) :
    Rules crypto e ∧ ExpsFloatable e ↔
      (∀ cred ∈ e.chain, Accepted crypto e.signatures cred.fields cred.delegationId) ∧
        (∀ cred ∈ e.chain, Sound e.statusTokens e.now cred) ∧ Budgeted e.chain ∧
        root.parent = none ∧ CoveredBy root.scopes e.providerScopes ∧
        List.IsChain Follows e.chain := by
  constructor
  · rintro ⟨h, hfloat⟩
    refine ⟨h.accepted, fun cred hcred => ?_, h.budget, h.root root (by simp [hchain]),
      h.provided root (by simp [hchain]), ?_⟩
    · obtain ⟨exp, ⟨token, htoken, hstatus, hexp⟩, hfresh⟩ := h.active cred hcred
      exact ⟨h.wellFormed cred hcred, ⟨exp, ⟨token, htoken, hstatus, hexp⟩, hfresh,
        hfloat cred hcred exp ⟨token, htoken, hexp⟩⟩, h.current cred hcred⟩
    · rw [List.isChain_iff_getElem]
      exact fun i hi => ⟨h.linked i hi, h.within i (i + 1) hi (Nat.lt_succ_self i)⟩
  · rintro ⟨haccepted, hsound, hbudget, hroot, hprovided, hfollows⟩
    have hwithin : e.chain.Pairwise Within :=
      List.isChain_iff_pairwise.mp (hfollows.imp fun _ _ h => h.within)
    refine ⟨⟨haccepted, fun cred hcred => (hsound cred hcred).wellFormed, ?_, ?_, ?_,
      fun cred hcred => (hsound cred hcred).current, hbudget, ?_, ?_⟩, ?_⟩
    · simpa [hchain] using hroot
    · exact fun i hi => (List.isChain_iff_getElem.mp hfollows i hi).linked
    · intro cred hcred
      obtain ⟨exp, hactive, hfresh, -⟩ := (hsound cred hcred).active
      exact ⟨exp, hactive, hfresh⟩
    · -- the scopes of every other hop are covered by those of the root
      rw [hchain] at hwithin ⊢
      intro cred hcred
      rcases List.mem_cons.mp hcred with rfl | hrest
      · exact hprovided
      · exact (List.rel_of_pairwise_cons hwithin hrest).scopes.trans hprovided
    · exact fun j i hi hj => List.pairwise_iff_getElem.mp hwithin j i (hj.trans hi) hi hj
    · rintro cred hcred exp ⟨token, htoken, hexp⟩
      obtain ⟨exp', ⟨token', htoken', -, hexp'⟩, -, hfloat⟩ := (hsound cred hcred).active
      obtain rfl : token = token' := Json.obj.inj (Option.some.inj (htoken.symm.trans htoken'))
      obtain rfl : exp = exp' := Json.int.inj (Option.some.inj (hexp.symm.trans hexp'))
      exact hfloat

theorem Evidence.nowTimestamp_json (e : Evidence python) :
    nowTimestamp python e.json = floatOfInt e.now := by
  rw [nowTimestamp, json, Json.get?, e.now_eq]
  rfl

theorem Evidence.verify_json (e : Evidence python) :
    Verified (verify python crypto e.json) ↔
      ∃ nowTs now, (floatOfInt e.now = .ok nowTs ∧ fromTimestamp nowTs = .ok now) ∧
        (∀ cred ∈ e.chain, checkSignature python crypto e.signatures cred.json = .ok none) ∧
        validateChain python (e.providerScopes.map .str) e.statusTokens now nowTs none
          (e.chain.map Credential.json) = .ok () := by
  obtain ⟨root, rest, hchain⟩ := List.exists_cons_of_ne_nil e.chain_ne
  have hlength : (root.json :: rest.map Credential.json).length ≤ Delegation.maxChain := by
    rw [← List.map_cons, List.length_map, ← hchain]
    exact e.chain_le
  simp only [verify_verified, e.nowTimestamp_json]
  simp only [json, Json.get_obj, e.chain_eq, e.signatures_eq, e.providerScopes_eq,
    e.statusTokens_eq, Option.getD_some, Except.ok.injEq, Json.arr.injEq, Json.obj.injEq,
    hchain, List.map_cons, List.cons.injEq]
  constructor
  · rintro ⟨root', rest', signatures, providerScopes, statusTokens, nowTs, now, ⟨rfl, rfl⟩, -, rfl,
      rfl, rfl, hnowTs, hnow, hsigned, hvalid⟩
    exact ⟨nowTs, now, ⟨hnowTs, hnow⟩, by simpa using hsigned, hvalid⟩
  · rintro ⟨nowTs, now, ⟨hnowTs, hnow⟩, hsigned, hvalid⟩
    exact ⟨_, _, _, _, _, nowTs, now, ⟨rfl, rfl⟩, hlength, rfl, rfl,
      rfl, hnowTs, hnow, by simpa using hsigned, hvalid⟩

/-- The profile accepts by the rules, as far as Python can convert the times. -/
theorem verified_iff {e : Evidence python} :
    Verified (verify python crypto e.json) ↔
      Rules crypto e ∧ InYearRange e.now ∧ ExpsFloatable e := by
  obtain ⟨root, rest, hchain⟩ := List.exists_cons_of_ne_nil e.chain_ne
  have htokens : TokensTyped e.statusTokens (root :: rest) := hchain ▸ e.tokens
  rw [e.verify_json]
  constructor
  · rintro ⟨nowTs, now, hnow, hsigned, hvalid⟩
    obtain ⟨hyear, rfl, rfl⟩ := fromTimestamp_floatOfInt.mp hnow
    rw [hchain] at hvalid
    have hloop := (validateChain_ok htokens hyear).mp hvalid
    rw [← hchain] at hloop
    obtain ⟨hrules, hfloat⟩ := (rules_iff hchain).mpr
      ⟨fun cred hcred => (checkSignature_ok.mp (hsigned cred hcred)).2, hloop⟩
    exact ⟨hrules, hyear, hfloat⟩
  · rintro ⟨hrules, hyear, hfloat⟩
    obtain ⟨haccepted, hloop⟩ := (rules_iff hchain).mp ⟨hrules, hfloat⟩
    refine ⟨_, _, fromTimestamp_floatOfInt.mpr ⟨hyear, rfl, rfl⟩, fun cred hcred => ?_, ?_⟩
    · exact checkSignature_ok.mpr
        ⟨(hrules.wellFormed cred hcred).delegationId, haccepted cred hcred⟩
    · rw [hchain] at hloop ⊢
      exact (validateChain_ok htokens hyear).mpr hloop

/-- Acceptance is the rule set on exactly the evidence that breaks a rule, or whose times are
ones that `datetime` and `float` can hold. -/
theorem accepts_rules_iff (crypto : Cryptography Key) (e : Evidence python) :
    (Verified (verify python crypto e.json) ↔ Rules crypto e) ↔
      (Rules crypto e → InYearRange e.now ∧ ExpsFloatable e) := by
  rw [verified_iff]
  exact ⟨fun h hrules => (h.mpr hrules).2, fun h => ⟨And.left, fun hrules => ⟨hrules, h hrules⟩⟩⟩

end Acceptance

/-! ## An expiry without a float -/

def decimal (cs : List Char) : ℕ := cs.foldl (fun n c => 10 * n + (c.toNat - '0'.toNat)) 0

def daysOf (year month day : ℕ) : ℤ :=
  let y := if month ≤ 2 then year - 1 else year
  let dayOfYear := (153 * ((month + 9) % 12) + 2) / 5 + day - 1
  365 * y + y / 4 - y / 100 + y / 400 + dayOfYear - 719468

/-- `fromisoformat`, for times in full seconds with an offset to the east. -/
def isoSeconds (s : String) : Except String (ℤ × Option ℤ) :=
  let cs := s.toList
  let field (start stop : ℕ) : ℕ := decimal ((cs.take stop).drop start)
  if cs.map (fun c => if c.isDigit then '0' else c) = "0000-00-00T00:00:00+00:00".toList then
    let days := daysOf (field 0 4) (field 5 7) (field 8 10)
    let seconds := days * 86400 + field 11 13 * 3600 + field 14 16 * 60 + field 17 19
    .ok (seconds * 10 ^ 6, some ((field 20 22 * 3600 + field 23 25 * 60 : ℕ) * 10 ^ 6))
  else .error "Invalid isoformat string"

def isoPython : Interpreter where
  fromIsoFormat := isoSeconds
  isoFormat _ := ""
  intOfText _ := none
  floatOfText _ := none
  repr _ := ""
  time := .finite 0

def providerKey : ℕ × ℕ :=
  (0x6a185a9c7bf188d370619c9e080ff1b727499617aac8d70b63b46b0eb2d6c472,
    69030550100043428864224145882463712692595767190761037678334403288344923540253)

/-- The issuer lets the subject pass `mail` on once. -/
def rootFields : List (String × Json) :=
  [("delegationId", .str "d-root"), ("schemaVersion", .str "DELEGATION-V1"),
    ("issuer", .obj [("ansName", .str "provider.ans"), ("agentId", .str "agent-provider"),
      ("did", .str "did:key:zDnaepoSAuGxctGBFYx2MRPG6QhfrJwz3xjTkFL6iXbHCwEP3")]),
    ("subject", .obj [("did", .str "did:key:zDnaeQygNQqWY5QbrZkv2UJFnUoJYK8GrUxLDcunV3o21yYDa")]),
    ("scopes", .arr [.str "mail"]), ("issuedAt", .str "2027-01-15T00:00:00Z"),
    ("expiresAt", .str "2027-01-16T00:00:00Z"), ("maxRedelegationDepth", .int 1),
    ("parentDelegation", .null)]

/-- The bytes of the root credential, and the signature that its issuer made of them. -/
def rootPayload : Bytes := (jcsCanonical (.obj rootFields)).toOption.getD []

def rootSignature : ℕ × ℕ :=
  (7834751635272742491338687235296094517419987137951207051532710161985980244746,
    113400170440075554841136303133745392950816981953235021018308997255799403790189)

def signedEntry (key : ℕ × ℕ) (signature : ℕ × ℕ) : Json :=
  .obj [("sig_b64", .str (wireSignature signature.1 signature.2)),
    ("signer_pubkey", jwk key.1 key.2)]

def rootEntry : Json := signedEntry providerKey rootSignature

def rootCredential : Credential isoPython where
  fields := rootFields
  delegationId := "d-root"
  subjectDid := some "did:key:zDnaeQygNQqWY5QbrZkv2UJFnUoJYK8GrUxLDcunV3o21yYDa"
  scopes := ["mail"]
  maxDepth := 1
  parent := none
  issued := 1799971200000000
  expires := 1800057600000000
  delegationId_eq := rfl
  subjectDid_eq := ⟨_, rfl, rfl⟩
  scopes_eq := rfl
  maxDepth_eq := rfl
  parent_eq := rfl
  window_eq := by decide +kernel

/-- A chain of one hop, whose status token expires at `exp`. -/
def singleHop (exp : ℤ) : Evidence isoPython where
  fields :=
    [("chain", .arr [.obj rootFields]), ("signatures", .obj [("d-root", rootEntry)]),
      ("status_tokens", .obj [("d-root", .obj [("status", .str "ACTIVE"), ("exp", .int exp)])]),
      ("provider_scopes", .arr [.str "mail"]), ("now", .int 1800000000)]
  chain := [rootCredential]
  signatures := [("d-root", rootEntry)]
  providerScopes := ["mail"]
  statusTokens := [("d-root", .obj [("status", .str "ACTIVE"), ("exp", .int exp)])]
  now := 1800000000
  chain_ne := by simp
  chain_le := by simp
  chain_eq := rfl
  signatures_eq := rfl
  signed := by simpa using ⟨_, _, _, rfl, rfl, rfl⟩
  providerScopes_eq := rfl
  statusTokens_eq := rfl
  tokens := by
    intro cred hcred value hvalue
    obtain rfl := List.mem_singleton.mp hcred
    exact ⟨_, exp, (Option.some.inj hvalue).symm, rfl⟩
  now_eq := rfl

theorem rootPayload_eq : jcsCanonical (.obj rootFields) = .ok rootPayload :=
  eq_ok_of_isSome (by decide +kernel) []

theorem accepted_of_recorded {keys : List (ℕ × ℕ)} {made : List ((ℕ × ℕ) × ℕ × ℕ × Bytes)}
    {key signature : ℕ × ℕ} {signatures fields : List (String × Json)} {id : String}
    {payload : Bytes} (hentry : signatures.lookup id = some (signedEntry key signature))
    (hpayload : jcsCanonical (.obj fields) = .ok payload) (hkey : key ∈ keys)
    (hmade : (key, signature.1, signature.2, signingInput headerB64 payload) ∈ made)
    (hx : key.1 < 256 ^ 32) (hy : key.2 < 256 ^ 32) (hr : signature.1 < 256 ^ 32)
    (hs : signature.2 < 256 ^ 32) :
    Accepted (recordedCurve keys made) signatures fields id := by
  have hload : loadEcP256Public (recordedCurve keys made) (jwk key.1 key.2) = .ok key :=
    loadEcP256Public_jwk hx hy (if_pos hkey) rfl
  refine ⟨_, _, payload, ⟨_, hentry, rfl, rfl⟩, hpayload, ?_⟩
  rw [verifyEs256_wireSignature hr hs hload]
  exact decide_eq_true hmade

theorem singleHop_rules {Key : Type} {crypto : Cryptography Key} {exp : ℤ}
    (haccepted : Accepted crypto [("d-root", rootEntry)] rootFields "d-root")
    (hexp : 1800000000 ≤ exp) : Rules crypto (singleHop exp) := by
  have hcovers : Covers "mail" "mail" := covers_iff.mpr le_rfl
  refine ⟨?_, ?_, ?_, ?_, ?_, ?_, ?_, ?_, ?_⟩
  · rintro cred hcred
    obtain rfl := List.mem_singleton.mp hcred
    exact haccepted
  · rintro cred hcred
    obtain rfl := List.mem_singleton.mp hcred
    exact ⟨by decide, rfl, ⟨_, rfl, by decide⟩, by decide, by decide, by decide⟩
  · rintro root hroot
    obtain rfl := Option.some.inj hroot
    rfl
  · intro i hi
    simp [singleHop] at hi
  · rintro cred hcred
    obtain rfl := List.mem_singleton.mp hcred
    exact ⟨exp, ⟨_, rfl, rfl, rfl⟩, hexp⟩
  · rintro cred hcred
    obtain rfl := List.mem_singleton.mp hcred
    simp [singleHop, rootCredential]
  · intro i hi
    obtain rfl : i = 0 := by simpa [singleHop] using hi
    simp [singleHop, rootCredential]
  · rintro cred hcred
    obtain rfl := List.mem_singleton.mp hcred
    intro c hc
    exact ⟨"mail", by simp [singleHop], by rwa [List.mem_singleton.mp hc]⟩
  · intro j i hi hj
    simp [singleHop] at hi
    omega

theorem expsFloatable_singleHop {exp : ℤ} : ExpsFloatable (singleHop exp) ↔ Floatable exp := by
  constructor
  · intro h
    exact h rootCredential (List.mem_singleton.mpr rfl) exp ⟨_, rfl, rfl⟩
  · rintro h cred hcred exp' ⟨token, htoken, hexp⟩
    obtain rfl := List.mem_singleton.mp hcred
    obtain rfl := Json.obj.inj (Option.some.inj htoken)
    obtain rfl : exp = exp' := Json.int.inj (Option.some.inj hexp)
    exact h

def providerCurve : Cryptography (ℕ × ℕ) :=
  recordedCurve [providerKey]
    [(providerKey, rootSignature.1, rootSignature.2, signingInput headerB64 rootPayload)]

/-- An ACTIVE token that expires too late for a float: the rules hold, yet it is no pass. -/
theorem late_expiry_not_exact :
    ¬ (Verified (verify isoPython providerCurve (singleHop (10 ^ 400)).json) ↔
      Rules providerCurve (singleHop (10 ^ 400))) := by
  have hfresh : (1800000000 : ℤ) ≤ 10 ^ 400 := by decide +kernel
  have hlate : ¬ (10 ^ 400 : ℤ).natAbs < 2 ^ 1024 - 2 ^ 970 := by decide +kernel
  have haccepted : Accepted providerCurve [("d-root", rootEntry)] rootFields "d-root" :=
    accepted_of_recorded rfl rootPayload_eq (by simp) (by simp) (by decide +kernel)
      (by decide +kernel) (by decide +kernel) (by decide +kernel)
  intro h
  obtain ⟨-, -, hfloat⟩ := verified_iff.mp (h.mpr (singleHop_rules haccepted hfresh))
  exact hlate (expsFloatable_singleHop.mp hfloat)

end DelegationRules
