import SmBridge.DelegationAuthority

/-!
# The life of a chain

A VERIFIED chain is shortened, kept for a while, and revoked somewhere in the middle.
-/
namespace DelegationLifetime

open Python
open Attempts
open JsonValue
open Jcs
open Es256
open Trust
open Delegation
open DelegationRules
open DelegationAuthority

/-- Two dictionaries that differ at most under one key. -/
def SameBut (key : String) (fields fields' : List (String × Json)) : Prop :=
  ∀ k, k ≠ key → fields'.lookup k = fields.lookup k

/-- The dictionary with another value under the key. -/
def withKey (key : String) (value : Json) (fields : List (String × Json)) : List (String × Json) :=
  (key, value) :: fields.filter fun field => field.1 ≠ key

@[simp] theorem lookup_withKey_self (key : String) (value : Json) (fields : List (String × Json)) :
    (withKey key value fields).lookup key = some value := List.lookup_cons_self

theorem lookup_filter_ne {key k : String} (hne : k ≠ key) (fields : List (String × Json)) :
    (fields.filter fun field => field.1 ≠ key).lookup k = fields.lookup k := by
  induction fields with
  | nil => rfl
  | cons field fields ih =>
    by_cases hfield : field.1 = key
    · have hk : (k == field.1) = false := by simpa [hfield] using hne
      rw [List.filter_cons_of_neg (by simpa using hfield), ih, List.lookup_cons, hk]
    · rw [List.filter_cons_of_pos (by simpa using hfield), List.lookup_cons, List.lookup_cons, ih]

theorem lookup_withKey_ne {key k : String} (hne : k ≠ key) (value : Json)
    (fields : List (String × Json)) : (withKey key value fields).lookup k = fields.lookup k := by
  have hk : (k == key) = false := by simpa using hne
  rw [withKey, List.lookup_cons, hk]
  exact lookup_filter_ne hne fields

theorem sameBut_withKey (key : String) (value : Json) (fields : List (String × Json)) :
    SameBut key fields (withKey key value fields) :=
  fun _ hne => lookup_withKey_ne hne value fields

section Loop

variable {python : Interpreter} {providerScopes : List Json}
  {statusTokens statusTokens' : List (String × Json)} {now : ℤ} {nowTs : PyFloat}

theorem validateHop_eq_ok {parent : Option Json} {cred : Json} {below : ℕ} :
    validateHop python providerScopes statusTokens now nowTs parent cred below = .ok () ↔
      ∃ did issued expires maxDepth, validateStructure python cred = .ok () ∧
        cred.item "delegationId" = .ok did ∧ validateLinkage python parent cred did = .ok () ∧
        validateToken python statusTokens did nowTs = .ok () ∧
        window python cred = .ok (issued, expires) ∧ (issued ≤ now ∧ now < expires) ∧
        maxRedelegationDepth python cred = .ok maxDepth ∧ below ≤ maxDepth ∧
        validateScopes python providerScopes parent cred did = .ok () ∧
        validateNesting python parent cred did issued expires = .ok () := by
  simp only [validateHop, bind_eq_ok, raiseIf_eq_ok, not_or, not_lt, not_le, gt_iff_lt]
  constructor
  · rintro ⟨⟨⟩, hstructure, did, hdid, ⟨⟩, hlinked, ⟨⟩, htoken, ⟨issued, expires⟩, hwindow, -,
      hnow, maxDepth, hdepth, -, hbelow, ⟨⟩, hscopes, hnested⟩
    exact ⟨did, issued, expires, maxDepth, hstructure, hdid, hlinked, htoken, hwindow, hnow,
      hdepth, hbelow, hscopes, hnested⟩
  · rintro ⟨did, issued, expires, maxDepth, hstructure, hdid, hlinked, htoken, hwindow, hnow,
      hdepth, hbelow, hscopes, hnested⟩
    exact ⟨(), hstructure, did, hdid, (), hlinked, (), htoken, (issued, expires), hwindow, (), hnow,
      maxDepth, hdepth, (), hbelow, (), hscopes, hnested⟩

/-! ## Initial parts -/

theorem validateHop_of_le {parent : Option Json} {cred : Json} {below below' : ℕ}
    (h : validateHop python providerScopes statusTokens now nowTs parent cred below = .ok ())
    (hle : below' ≤ below) :
    validateHop python providerScopes statusTokens now nowTs parent cred below' = .ok () := by
  obtain ⟨did, issued, expires, maxDepth, hstructure, hdid, hlinked, htoken, hwindow, hnow,
    hdepth, hbelow, hrest⟩ := validateHop_eq_ok.mp h
  have hbelow' : (below' : ℤ) ≤ maxDepth := (Int.ofNat_le.mpr hle).trans hbelow
  exact validateHop_eq_ok.mpr ⟨did, issued, expires, maxDepth, hstructure, hdid, hlinked, htoken,
    hwindow, hnow, hdepth, hbelow', hrest⟩

theorem validateChain_take {parent : Option Json} {chain : List Json}
    (h : validateChain python providerScopes statusTokens now nowTs parent chain = .ok ())
    (k : ℕ) :
    validateChain python providerScopes statusTokens now nowTs parent (chain.take k) = .ok () := by
  induction chain generalizing parent k with
  | nil => rwa [List.take_nil]
  | cons cred rest ih =>
    cases k with
    | zero => rfl
    | succ k =>
      obtain ⟨⟨⟩, hhop, hrest⟩ := bind_eq_ok.mp h
      have hlength : (rest.take k).length ≤ rest.length := List.length_take_le' k rest
      rw [List.take_succ_cons, validateChain, validateHop_of_le hhop hlength]
      exact ih hrest k

/-! ## Revocations -/

/-- The tokens of some identifiers are REVOKED now, and all others are as before. -/
structure Revocation (revoked : String → Prop) (tokens tokens' : List (String × Json)) : Prop where
  refused : ∀ id, revoked id → ∃ token, tokens'.lookup id = some (.obj token) ∧
    token.lookup "status" = some (.str "REVOKED")
  kept : ∀ id, ¬ revoked id → tokens'.lookup id = tokens.lookup id

/-- The hop names an identifier of which `p` holds. -/
def HasId (p : String → Prop) (cred : Json) : Prop :=
  ∃ id, cred.item "delegationId" = .ok (.str id) ∧ p id

theorem validateToken_revoked {id : String} {token : List (String × Json)}
    (htoken : statusTokens.lookup id = some (.obj token))
    (hstatus : token.lookup "status" = some (.str "REVOKED")) :
    validateToken python statusTokens (.str id) nowTs =
      .error (chainError ("revoked credential in chain: " ++ id ++ " (chain broken)")) := by
  simp [validateToken, htoken, hstatus, bind, Except.bind, raiseIf, Json.isNull, Json.eq,
    Interpreter.str]

theorem validateHop_revoked {parent : Option Json} {cred : Json} {below : ℕ} {id : String}
    {token : List (String × Json)}
    (h : validateHop python providerScopes statusTokens now nowTs parent cred below = .ok ())
    (hid : cred.item "delegationId" = .ok (.str id))
    (htoken : statusTokens'.lookup id = some (.obj token))
    (hstatus : token.lookup "status" = some (.str "REVOKED")) :
    validateHop python providerScopes statusTokens' now nowTs parent cred below =
      .error (chainError ("revoked credential in chain: " ++ id ++ " (chain broken)")) := by
  obtain ⟨did, issued, expires, maxDepth, hstructure, hdid, hlinked, -⟩ := validateHop_eq_ok.mp h
  obtain rfl : .str id = did := Except.ok.inj (hid.symm.trans hdid)
  simp only [validateHop, hstructure, hid, hlinked, validateToken_revoked htoken hstatus, bind,
    Except.bind]

theorem validateHop_kept {parent : Option Json} {cred : Json} {below : ℕ} {id : String}
    (h : validateHop python providerScopes statusTokens now nowTs parent cred below = .ok ())
    (hid : cred.item "delegationId" = .ok (.str id))
    (hkept : statusTokens'.lookup id = statusTokens.lookup id) :
    validateHop python providerScopes statusTokens' now nowTs parent cred below = .ok () := by
  obtain ⟨did, issued, expires, maxDepth, hstructure, hdid, hlinked, htoken, hrest⟩ :=
    validateHop_eq_ok.mp h
  obtain rfl : .str id = did := Except.ok.inj (hid.symm.trans hdid)
  have htoken' : validateToken python statusTokens' (.str id) nowTs = .ok () := by
    rw [validateToken_eq_ok] at htoken ⊢
    rwa [Json.lookupKey_str, hkept]
  exact validateHop_eq_ok.mpr ⟨.str id, issued, expires, maxDepth, hstructure, hid, hlinked,
    htoken', hrest⟩

/-- The loop ends at the first revoked hop: it passed all before it, and does not come to those
behind. -/
theorem validateChain_revoked {revoked : String → Prop}
    (hrevocation : Revocation revoked statusTokens statusTokens') {parent : Option Json}
    {before behind : List Json} {cred : Json} {id : String}
    (h : validateChain python providerScopes statusTokens now nowTs parent
      (before ++ cred :: behind) = .ok ())
    (hbefore : ∀ c ∈ before, HasId (fun id => ¬ revoked id) c)
    (hid : cred.item "delegationId" = .ok (.str id)) (hrevoked : revoked id) :
    validateChain python providerScopes statusTokens' now nowTs parent
        (before ++ cred :: behind) =
      .error (chainError ("revoked credential in chain: " ++ id ++ " (chain broken)")) := by
  induction before generalizing parent with
  | nil =>
    obtain ⟨⟨⟩, hhop, -⟩ := bind_eq_ok.mp h
    obtain ⟨token, htoken, hstatus⟩ := hrevocation.refused id hrevoked
    rw [List.nil_append, validateChain, validateHop_revoked hhop hid htoken hstatus]
    rfl
  | cons c before ih =>
    rw [List.cons_append, validateChain] at h ⊢
    obtain ⟨⟨⟩, hhop, hrest⟩ := bind_eq_ok.mp h
    obtain ⟨⟨id', hid', hkept⟩, hbefore⟩ := List.forall_mem_cons.mp hbefore
    rw [validateHop_kept hhop hid' (hrevocation.kept id' hkept)]
    exact ih hrest hbefore

theorem token_of_validateChain {parent : Option Json} {chain : List Json}
    (h : validateChain python providerScopes statusTokens now nowTs parent chain = .ok ())
    {cred : Json} (hcred : cred ∈ chain) :
    ∃ did, cred.item "delegationId" = .ok did ∧
      validateToken python statusTokens did nowTs = .ok () := by
  induction chain generalizing parent with
  | nil => cases hcred
  | cons head rest ih =>
    obtain ⟨⟨⟩, hhop, hrest⟩ := bind_eq_ok.mp h
    rcases List.mem_cons.mp hcred with rfl | hcred
    · obtain ⟨did, issued, expires, maxDepth, hstructure, hdid, hlinked, htoken, -⟩ :=
        validateHop_eq_ok.mp hhop
      exact ⟨did, hdid, htoken⟩
    · exact ih hrest hcred

end Loop

/-! ## Whole evidence -/

section Evidence

variable {python : Interpreter} {Key : Type} {crypto : Cryptography Key} {evidence root : Json}
  {rest providerScopes : List Json} {signatures : List (String × Json)} {statusTokens : Json}
  {nowTs : PyFloat} {now : ℤ}

theorem verify_eq_verifyChain (hchain : evidence.get "chain" = .ok (.arr (root :: rest)))
    (hlength : (root :: rest).length ≤ Delegation.maxChain)
    (hsignatures : evidence.get "signatures" = .ok (.obj signatures))
    (hscopes : evidence.get "provider_scopes" = .ok (.arr providerScopes))
    (htokens : evidence.get "status_tokens" = .ok statusTokens)
    (hnowTs : nowTimestamp python evidence = .ok nowTs) (hnow : fromTimestamp nowTs = .ok now) :
    verify python crypto evidence =
      verifyChain python providerScopes (statusTokensOf statusTokens) now nowTs crypto root rest
        signatures := by
  rw [verify, verifyBy, hchain]
  simp only [bind, Except.bind, if_neg (not_lt.mpr hlength), hsignatures, hscopes, htokens, hnowTs,
    hnow]

variable {tokens : List (String × Json)}

theorem verifyChain_of_ok
    (hsigned : ∀ cred ∈ root :: rest, checkSignature python crypto signatures cred = .ok none)
    (hvalid : validateChain python providerScopes tokens now nowTs none (root :: rest) = .ok ()) :
    verifyChain python providerScopes tokens now nowTs crypto root rest signatures =
      root.item "delegationId" >>= fun rootId =>
        ProofResult.verified profileId method ("deleg:" ++ python.str rootId) := by
  rw [verifyChain, verifyChainBy, checkSignatures_eq_none.mpr hsigned]
  simp only [bind, Except.bind, hvalid]

theorem verifyChain_of_chainError {reason : String}
    (hsigned : ∀ cred ∈ root :: rest, checkSignature python crypto signatures cred = .ok none)
    (hbroken : validateChain python providerScopes tokens now nowTs none (root :: rest) =
      .error (chainError reason)) :
    verifyChain python providerScopes tokens now nowTs crypto root rest signatures =
      .ok (failed reason) := by
  rw [verifyChain, verifyChainBy, checkSignatures_eq_none.mpr hsigned]
  simp [bind, Except.bind, hbroken, chainReason?, chainError]

end Evidence

section Changes

variable (python : Interpreter) {Key : Type} (crypto : Cryptography Key)
  {fields fields' : List (String × Json)}

theorem SameBut.get {key k : String} (h : SameBut key fields fields') (hne : k ≠ key) :
    (Json.obj fields').get k = (Json.obj fields).get k := by
  rw [Json.get_obj, Json.get_obj, h k hne]

theorem SameBut.nowTimestamp {key : String} (h : SameBut key fields fields') (hne : "now" ≠ key) :
    nowTimestamp python (.obj fields') = nowTimestamp python (.obj fields) := by
  rw [Delegation.nowTimestamp, Delegation.nowTimestamp, Json.get?, Json.get?, h "now" hne]

/-- Every hop of a VERIFIED chain could have been the last one: the evidence without the hops
below it gives the same result. -/
theorem verified_prefix {chain : List Json} {k : ℕ}
    (h : Verified (verify python crypto (.obj fields)))
    (hchain : fields.lookup "chain" = some (.arr chain)) (hk : 0 < k)
    (hsame : SameBut "chain" fields fields')
    (hchain' : fields'.lookup "chain" = some (.arr (chain.take k))) :
    verify python crypto (.obj fields') = verify python crypto (.obj fields) := by
  obtain ⟨root, rest, signatures, providerScopes, statusTokens, nowTs, now, hget, hlength,
    hsignatures, hscopes, htokens, hnowTs, hnow, hsigned, hvalid⟩ := verify_verified.mp h
  obtain rfl : chain = root :: rest := by
    rw [Json.get_obj, hchain, Option.getD_some, Except.ok.injEq, Json.arr.injEq] at hget
    exact hget
  obtain ⟨k, rfl⟩ := Nat.exists_eq_succ_of_ne_zero hk.ne'
  have htake : (root :: rest).take (k + 1) = root :: rest.take k := List.take_succ_cons
  have hget' : (Json.obj fields').get "chain" = .ok (.arr (root :: rest.take k)) := by
    rw [Json.get_obj, hchain', Option.getD_some, htake]
  have hlength' : (root :: rest.take k).length ≤ Delegation.maxChain := by
    rw [← htake]
    exact (List.length_take_le' _ _).trans hlength
  have hsigned' : ∀ cred ∈ root :: rest.take k,
      checkSignature python crypto signatures cred = .ok none := by
    intro cred hcred
    rw [← htake] at hcred
    exact hsigned cred (List.mem_of_mem_take hcred)
  have hvalid' := validateChain_take hvalid (k + 1)
  rw [htake] at hvalid'
  rw [verify_eq_verifyChain hget hlength hsignatures hscopes htokens hnowTs hnow,
    verifyChain_of_ok hsigned hvalid,
    verify_eq_verifyChain hget' hlength' ((hsame.get (by decide)).trans hsignatures)
      ((hsame.get (by decide)).trans hscopes) ((hsame.get (by decide)).trans htokens)
      ((hsame.nowTimestamp python (by decide)).trans hnowTs) hnow,
    verifyChain_of_ok hsigned' hvalid']

/-- The provider's credential alone, out of the evidence for both hops. -/
theorem verified_prefix_mallory :
    verify isoPython malloryCurve
        (.obj (withKey "chain" (.arr [.obj rootFields]) malloryHop.evidence.fields)) =
      verify isoPython malloryCurve malloryHop.evidence.json :=
  verified_prefix isoPython malloryCurve
    (verified_extension singleHop_verified malloryHop_fits) rfl Nat.one_pos
    (sameBut_withKey _ _ _) rfl

/-- VERIFIED evidence names hops by strings, or their signatures could not be looked up. -/
theorem hasId_of_checkSignature {signatures : List (String × Json)} {cred : Json}
    (h : checkSignature python crypto signatures cred = .ok none) (p : String → Prop)
    (hp : ∀ id, cred.item "delegationId" = .ok (.str id) → p id) : HasId p cred := by
  obtain ⟨fields, did, entry, -, -, -, rfl, hdid, -, hentry, -⟩ := checkSignature_eq_none.mp h
  have hitem := Json.item_obj_of_lookup hdid
  cases did with
  | str id => exact ⟨id, hitem, hp id hitem⟩
  | _ => cases hentry

/-- Revocations end a VERIFIED chain at its first revoked hop, by name; and with these tokens
no evidence at all is VERIFIED that has a revoked hop in its chain. -/
theorem revocation_fails (before behind : List Json) {tokens tokens' : List (String × Json)}
    {cred : Json} {id : String} {revoked : String → Prop}
    (h : Verified (verify python crypto (.obj fields)))
    (hchain : fields.lookup "chain" = some (.arr (before ++ cred :: behind)))
    (htokens : fields.lookup "status_tokens" = some (.obj tokens))
    (hrevocation : Revocation revoked tokens tokens')
    (hsame : SameBut "status_tokens" fields fields')
    (htokens' : fields'.lookup "status_tokens" = some (.obj tokens'))
    (hbefore : ∀ c ∈ before, ∀ id, c.item "delegationId" = .ok (.str id) → ¬ revoked id)
    (hid : cred.item "delegationId" = .ok (.str id)) (hrevoked : revoked id) :
    verify python crypto (.obj fields') =
        .ok (failed ("revoked credential in chain: " ++ id ++ " (chain broken)")) ∧
      ∀ evidence chain, evidence.get "chain" = .ok (.arr chain) →
        evidence.get "status_tokens" = .ok (.obj tokens') → (∃ c ∈ chain, HasId revoked c) →
        ¬ Verified (verify python crypto evidence) := by
  constructor
  · obtain ⟨root, rest, signatures, providerScopes, statusTokens, nowTs, now, hget, hlength,
      hsignatures, hscopes, hstatus, hnowTs, hnow, hsigned, hvalid⟩ := verify_verified.mp h
    have hlist : before ++ cred :: behind = root :: rest := by
      rw [Json.get_obj, hchain, Option.getD_some, Except.ok.injEq, Json.arr.injEq] at hget
      exact hget
    obtain rfl : .obj tokens = statusTokens := by
      rw [Json.get_obj, htokens, Option.getD_some, Except.ok.injEq] at hstatus
      exact hstatus
    have hstatus' : (Json.obj fields').get "status_tokens" = .ok (.obj tokens') := by
      rw [Json.get_obj, htokens', Option.getD_some]
    rw [← hlist] at hsigned hvalid
    have hnamed : ∀ c ∈ before, HasId (fun id => ¬ revoked id) c := fun c hc =>
      hasId_of_checkSignature python crypto (hsigned c (List.mem_append_left _ hc)) _ (hbefore c hc)
    have hbroken := validateChain_revoked hrevocation hvalid hnamed hid hrevoked
    rw [hlist] at hsigned hbroken
    rw [verify_eq_verifyChain ((hsame.get (by decide)).trans hget) hlength
        ((hsame.get (by decide)).trans hsignatures) ((hsame.get (by decide)).trans hscopes) hstatus'
        ((hsame.nowTimestamp python (by decide)).trans hnowTs) hnow]
    exact verifyChain_of_chainError hsigned hbroken
  · rintro evidence chain hget' hstatus' ⟨c, hc, id', hid', hrevoked'⟩ hverified
    obtain ⟨root, rest, signatures, providerScopes, statusTokens, nowTs, now, hget, -, -, -,
      hstatus, -, -, -, hvalid⟩ := verify_verified.mp hverified
    obtain rfl : chain = root :: rest := Json.arr.inj (Except.ok.inj (hget'.symm.trans hget))
    obtain rfl : .obj tokens' = statusTokens := Except.ok.inj (hstatus'.symm.trans hstatus)
    obtain ⟨did, hdid, htoken⟩ := token_of_validateChain hvalid hc
    obtain rfl : .str id' = did := Except.ok.inj (hid'.symm.trans hdid)
    obtain ⟨token, hlookup, hrefused⟩ := hrevocation.refused id' hrevoked'
    rw [statusTokensOf, validateToken_revoked hlookup hrefused] at htoken
    cases htoken

/-- The provider revokes what it gave to Alice. -/
def revokedTokens : List (String × Json) :=
  [("d-root", .obj [("status", .str "REVOKED")]), ("d-child", .obj malloryHop.token)]

theorem revokedTokens_revocation :
    Revocation (fun id => id = "d-root") malloryHop.statusTokens revokedTokens where
  refused := by
    rintro id rfl
    exact ⟨_, rfl, rfl⟩
  kept := by
    intro id hid
    have hne : (id == "d-root") = false := by simpa using hid
    simp only [revokedTokens, Extension.statusTokens, singleHop, List.cons_append, List.lookup_cons,
      hne]
    rfl

/-- Mallory's hop goes with the credential above it. -/
theorem revocation_fails_mallory :
    verify isoPython malloryCurve
        (.obj (withKey "status_tokens" (.obj revokedTokens) malloryHop.evidence.fields)) =
        .ok (failed "revoked credential in chain: d-root (chain broken)") ∧
      ∀ evidence chain, evidence.get "chain" = .ok (.arr chain) →
        evidence.get "status_tokens" = .ok (.obj revokedTokens) →
        (∃ c ∈ chain, HasId (fun id => id = "d-root") c) →
        ¬ Verified (verify isoPython malloryCurve evidence) :=
  revocation_fails isoPython malloryCurve [] [malloryCredential.json]
    (verified_extension singleHop_verified malloryHop_fits) rfl rfl revokedTokens_revocation
    (sameBut_withKey _ _ _) rfl (List.forall_mem_nil _) rfl rfl

end Changes

/-! ## Times -/

section Times

variable {python : Interpreter} {Key : Type} {crypto : Cryptography Key}

/-- The same evidence, checked at another time. -/
def atTime (e : Evidence python) (t : ℤ) : Evidence python where
  fields := withKey "now" (.int t) e.fields
  chain := e.chain
  signatures := e.signatures
  providerScopes := e.providerScopes
  statusTokens := e.statusTokens
  now := t
  chain_ne := e.chain_ne
  chain_le := e.chain_le
  chain_eq := (lookup_withKey_ne (by decide) _ _).trans e.chain_eq
  signatures_eq := (lookup_withKey_ne (by decide) _ _).trans e.signatures_eq
  signed := e.signed
  providerScopes_eq := (lookup_withKey_ne (by decide) _ _).trans e.providerScopes_eq
  statusTokens_eq := (lookup_withKey_ne (by decide) _ _).trans e.statusTokens_eq
  tokens := e.tokens
  now_eq := lookup_withKey_self _ _ _

/-- The window of the last hop is inside those of all hops above it. -/
theorem window_of_leaf {e : Evidence python} {leaf cred : Credential python}
    (hrules : Rules crypto e) (hleaf : e.chain.getLast? = some leaf) (hcred : cred ∈ e.chain) :
    cred.issued ≤ leaf.issued ∧ leaf.expires ≤ cred.expires := by
  obtain ⟨i, hi, rfl⟩ := List.mem_iff_getElem.mp hcred
  rw [List.getLast?_eq_getElem?] at hleaf
  obtain ⟨hlast, rfl⟩ := List.getElem?_eq_some_iff.mp hleaf
  by_cases hend : i = e.chain.length - 1
  · subst hend
    exact ⟨le_rfl, le_rfl⟩
  · have hwithin := hrules.within i (e.chain.length - 1) hlast (by omega)
    exact ⟨hwithin.issued, hwithin.expires⟩

/-- A chain that is VERIFIED once is VERIFIED at exactly the times in the window of its last hop
up to the first expiry of a status token: an interval, so it never comes back. -/
theorem verified_times {e : Evidence python} {leaf : Credential python}
    (h : Verified (verify python crypto e.json)) (hleaf : e.chain.getLast? = some leaf) (t : ℤ) :
    Verified (verify python crypto (atTime e t).json) ↔
      InYearRange t ∧ (leaf.issued ≤ t * 10 ^ 6 ∧ t * 10 ^ 6 < leaf.expires) ∧
        ∀ cred ∈ e.chain, ∀ exp, HasExp e.statusTokens cred.delegationId exp → t ≤ exp := by
  obtain ⟨hrules, -, hfloat⟩ := verified_iff.mp h
  rw [verified_iff]
  constructor
  · rintro ⟨hrulesAt, hyear, -⟩
    refine ⟨hyear, hrulesAt.current leaf (List.mem_of_getLast? hleaf), ?_⟩
    rintro cred hcred exp ⟨token, htoken, hexp⟩
    obtain ⟨exp', ⟨token', htoken', -, hexp'⟩, hfresh⟩ := hrulesAt.active cred hcred
    obtain rfl : token = token' := Json.obj.inj (Option.some.inj (htoken.symm.trans htoken'))
    obtain rfl : exp = exp' := Json.int.inj (Option.some.inj (hexp.symm.trans hexp'))
    exact hfresh
  · rintro ⟨hyear, ⟨hissued, hexpires⟩, hfresh⟩
    refine ⟨⟨hrules.accepted, hrules.wellFormed, hrules.root, hrules.linked, ?_, ?_,
      hrules.budget, hrules.provided, hrules.within⟩, hyear, hfloat⟩
    · intro cred hcred
      obtain ⟨exp, ⟨token, htoken, hstatus, hexp⟩, -⟩ := hrules.active cred hcred
      exact ⟨exp, ⟨token, htoken, hstatus, hexp⟩, hfresh cred hcred exp ⟨token, htoken, hexp⟩⟩
    · intro cred hcred
      obtain ⟨hstart, hend⟩ := window_of_leaf hrules hleaf hcred
      exact ⟨hstart.trans hissued, hexpires.trans_le hend⟩

/-- The last second of the two status tokens. -/
theorem verified_times_mallory :
    Verified (verify isoPython malloryCurve (atTime malloryHop.evidence 1800003600).json) ↔
      InYearRange 1800003600 ∧
        (malloryCredential.issued ≤ 1800003600 * 10 ^ 6 ∧
          1800003600 * 10 ^ 6 < malloryCredential.expires) ∧
        ∀ cred ∈ malloryHop.evidence.chain, ∀ exp,
          HasExp malloryHop.evidence.statusTokens cred.delegationId exp → 1800003600 ≤ exp :=
  verified_times (verified_extension singleHop_verified malloryHop_fits) rfl 1800003600

end Times

end DelegationLifetime
