import SmBridge.Converter
import SmBridge.Es256
import SmBridge.CanonicalJson
import SmBridge.Hashing
import SmBridge.ProofResult

/-!
# Signed catalogs

A catalog comes with a detached signature over the canonical form of its entries. The header
of the signature is read by `json.loads`, which is a parameter.
-/
namespace JwsCatalog

open Python
open Attempts
open JsonValue
open Trust
open Es256
open Ed25519AgentCard (canonicalize)
open CanonicalJson
open KeyedTrees
open Hashing

def profileId : String := "jws-catalog"
def method : String := "es256-jws-catalog"

def failed (reason : String) : ProofResult := ProofResult.failed profileId method reason
def notVerified (reason : String) : ProofResult := ProofResult.notVerified profileId method reason

/-- `isinstance(k, dict) and k.get("kid") == kid` -/
def hasKid (kid : Json) : Json → Bool
  | .obj fields => ((fields.lookup "kid").getD .null).eq kid
  | _ => false

/-- `keys[0] if keys else None`, for a value that is not empty or a list. A null in first place
is no key. -/
def firstKey : Json → Except PyError (Option Json)
  | .arr [] => .ok none
  | .arr (key :: _) => .ok (if key.isNull then none else some key)
  | .str s => .ok (s.toList.head?.map fun c => .str (String.ofList [c]))
  | .obj _ => .error (.keyError "0")
  | keys => .error (.typeError ("'" ++ keys.typeName ++ "' object is not subscriptable"))

/-- `_select_key`; the evidence is a dictionary where it is called. -/
def selectKey (evidence kid : Json) : Except PyError (Option Json) :=
  let publicKey := (evidence.get? "public_key").getD .null
  if publicKey.isNull = false then .ok (some publicKey)
  else
    match evidence.get? "jwks" with
    | some (.obj jwks) => do
      let supplied := (jwks.lookup "keys").getD .null
      let keys := if supplied.truthy then supplied else .arr []
      if kid.isNull then firstKey keys
      else
        match (← keys.elements).find? (hasKid kid) with
        | some key => .ok (some key)
        | none => firstKey keys
    | _ => .ok none

def evidenceRef (H : HashFunction) (canonical : Bytes) : String :=
  "jws-catalog:" ++ sliceStr (hex (H.digest canonical)) 16

section Definitions

variable (H : HashFunction) (python : Interpreter) {Key : Type} (crypto : Cryptography Key)
  (loads : Bytes → Option Json)

/-- What `verify` does with the parts of a detached signature. -/
def verifyDetached (evidence entries : Json) (headerB64 sigB64url : String) :
    Except PyError ProofResult :=
  match (b64urlDecode headerB64).bind loads with
  | none => .ok (notVerified "unparseable JWS header")
  | some header => do
    let alg ← header.get "alg"
    if alg.eq (.str "ES256") = false then
      .ok (notVerified ("unsupported JWS alg " ++ python.repr alg ++ ", want ES256"))
    else if (header.get? "crit").isSome then
      .ok (failed "unsupported 'crit' header parameter")
    else
      match ← selectKey evidence (← header.get "kid") with
      | none => .ok (notVerified "no verification key (provide 'public_key' or a 'jwks')")
      | some key =>
        match canonicalize python entries with
        | .error e => .ok (notVerified ("entries not canonicalizable: " ++ e.text))
        | .ok canonical =>
          if verifyEs256 crypto headerB64 canonical (.str sigB64url) key then
            ProofResult.verified profileId method (evidenceRef H canonical)
          else
            .ok (failed ("catalog signature does not verify over the entries " ++
              "(tampered catalog or wrong key)"))

/-- `JwsCatalogProfile.verify` -/
def verify (evidence : Json) : Except PyError ProofResult := do
  let supplied := if evidence.truthy then evidence else .obj []
  let entries ← supplied.get "entries"
  match entries.isNull, ← supplied.get "signature" with
  | false, .str signature =>
    match signature.toList.splitOn '.' with
    | [headerB64, [], sigB64url] =>
      verifyDetached H python crypto loads evidence entries (String.ofList headerB64)
        (String.ofList sigB64url)
    | _ => .ok (notVerified "signature is not a detached compact JWS (header..sig)")
  | _, _ => .ok (notVerified "evidence must carry 'entries' and a detached-JWS 'signature'")

end Definitions

/-! ## What is signed -/

theorem b64url_injective : Function.Injective b64url := by
  intro raw raw' h
  have hdecode := b64urlDecode_b64url raw
  rw [h, b64urlDecode_b64url] at hdecode
  exact (Option.some.inj hdecode).symm

/-- The signed bytes tell the header and the payload apart. -/
theorem signingInput_inj {header header' : String} {payload payload' : Bytes}
    (hdot : '.' ∉ header.toList) (hdot' : '.' ∉ header'.toList) :
    signingInput header payload = signingInput header' payload' ↔
      header = header' ∧ payload = payload' := by
  constructor
  · intro h
    rw [signingInput, signingInput, ← encodeUtf8_append, ← encodeUtf8_append,
      ← encodeUtf8_append, ← encodeUtf8_append] at h
    have htext := congrArg String.toList (encodeUtf8_injective h)
    simp only [String.toList_append, List.append_assoc] at htext
    have hdots : ".".toList = ['.'] := rfl
    rw [hdots, List.singleton_append, List.singleton_append] at htext
    have hfront := congrArg (Segments.beforeFirst '.') htext
    have hback := congrArg (Segments.afterFirst '.') htext
    rw [Segments.beforeFirst_cons hdot, Segments.beforeFirst_cons hdot'] at hfront
    rw [Segments.afterFirst_cons hdot, Segments.afterFirst_cons hdot'] at hback
    exact ⟨String.toList_injective hfront, b64url_injective (String.toList_injective hback)⟩
  · rintro ⟨rfl, rfl⟩
    rfl

/-- A catalog that its publisher has signed, with the two halves of the signature. -/
structure SignedCatalog where
  header : String
  entries : PlainJson
  r : ℕ
  s : ℕ
  header_plain : '.' ∉ header.toList
  r_lt : r < 256 ^ 32
  s_lt : s < 256 ^ 32

def canonicalEntries (entries : PlainJson) : Bytes :=
  bytes (entries.tree.normalize fun a b => a ≤ b)

def SignedCatalog.message (c : SignedCatalog) : Bytes :=
  signingInput c.header (canonicalEntries c.entries)

/-- The compact form, with the payload left out. -/
def detached (header signature : String) : String := header ++ ".." ++ signature

/-- The key accepts what was signed with it, and nothing but what was signed with it. -/
structure Signs {Key : Type} (crypto : Cryptography Key) (pub : Key)
    (signed : List SignedCatalog) : Prop where
  accepts : ∀ c ∈ signed, crypto.verifyEcdsa pub c.r c.s c.message = true
  unforged : ∀ r s message, crypto.verifyEcdsa pub r s message = true →
    ∃ c ∈ signed, c.message = message

theorem canonicalize_entries (python : Interpreter) (entries : PlainJson) :
    canonicalize python entries.json = .ok (canonicalEntries entries) :=
  canonicalize_json python entries.tree

theorem message_eq_iff (c : SignedCatalog) {header : String} (hdot : '.' ∉ header.toList)
    (entries : PlainJson) :
    c.message = signingInput header (canonicalEntries entries) ↔
      c.header = header ∧ c.entries.tree.Same entries.tree := by
  rw [SignedCatalog.message, signingInput_inj c.header_plain hdot, canonicalEntries,
    canonicalEntries, bytes_injective.eq_iff,
    Tree.normalize_eq_iff_same c.entries.distinct entries.distinct]

/-! ## Published catalogs -/

/-- Evidence with a signed catalog and a key set, whose first key with the name that the header
gives is the publisher's, and without a key of its own, which would take precedence. -/
structure Publishes {Key : Type} (crypto : Cryptography Key) (loads : Bytes → Option Json)
    (pub : Key) (evidence : Json) (plain : PlainJson) (header sig : String) : Prop where
  entries : evidence.get? "entries" = some plain.json
  present : plain.json.isNull = false
  signature : evidence.get? "signature" = some (.str (detached header sig))
  header_plain : '.' ∉ header.toList
  sig_plain : '.' ∉ sig.toList
  keys : ∃ fields kid jwks keys key,
    (b64urlDecode header).bind loads = some (.obj fields) ∧
    fields.lookup "alg" = some (.str "ES256") ∧ fields.lookup "crit" = none ∧
    fields.lookup "kid" = some (.str kid) ∧
    evidence.get? "public_key" = none ∧ evidence.get? "jwks" = some (.obj jwks) ∧
    jwks.lookup "keys" = some (.arr keys) ∧ keys.find? (hasKid (.str kid)) = some key ∧
    loadEcP256Public crypto key = .ok pub

section Publishing

variable {Key : Type} {crypto : Cryptography Key} {loads : Bytes → Option Json}

theorem evidenceRef_not_blank (H : HashFunction) (canonical : Bytes) :
    isBlank (evidenceRef H canonical) = false := by
  simp [isBlank, evidenceRef, isSpace]

theorem split_detached {header sig : String} (hdot : '.' ∉ header.toList)
    (hsig : '.' ∉ sig.toList) :
    (detached header sig).toList.splitOn '.' = [header.toList, [], sig.toList] := by
  have hparts : (detached header sig).toList =
      ['.'].intercalate [header.toList, [], sig.toList] := by
    simp [detached, List.intercalate]
  rw [hparts, List.splitOn_intercalate]
  · simp [hdot, hsig]
  · exact List.cons_ne_nil _ _

/-- The other keys of the set do not matter. -/
theorem selectKey_jwks {evidence key : Json} {jwks : List (String × Json)} {keys : List Json}
    {kid : String} (hnone : evidence.get? "public_key" = none)
    (hjwks : evidence.get? "jwks" = some (.obj jwks))
    (hkeys : jwks.lookup "keys" = some (.arr keys))
    (hkey : keys.find? (hasKid (.str kid)) = some key) :
    selectKey evidence (.str kid) = .ok (some key) := by
  have htruthy : (Json.arr keys).truthy = true := by
    cases keys with
    | nil => cases hkey
    | cons k keys => rfl
  simp [selectKey, hnone, hjwks, hkeys, htruthy, Json.isNull, Json.elements, bind, Except.bind,
    hkey]

/-- Published evidence is put to the signature check, and nothing else decides about it. -/
theorem verify_published (H : HashFunction) (python : Interpreter) {pub : Key} {evidence : Json}
    {entries : PlainJson} {header sig : String}
    (h : Publishes crypto loads pub evidence entries header sig) :
    ∃ key, loadEcP256Public crypto key = .ok pub ∧
      verify H python crypto loads evidence =
        if verifyEs256 crypto header (canonicalEntries entries) (.str sig) key then
          ProofResult.verified profileId method (evidenceRef H (canonicalEntries entries))
        else
          .ok (failed ("catalog signature does not verify over the entries " ++
            "(tampered catalog or wrong key)")) := by
  obtain ⟨fields, kid, jwks, keys, key, hheader, halg, hcrit, hkid, hnone, hjwks, hkeys, hkey,
    hload⟩ := h.keys
  have hselect := selectKey_jwks hnone hjwks hkeys hkey
  have hentries := h.entries
  have hsignature := h.signature
  have heq : (Json.str "ES256").eq (.str "ES256") = true := Json.eq_str.mpr rfl
  refine ⟨key, hload, ?_⟩
  cases evidence with
  | obj evidence =>
    have htruthy : (Json.obj evidence).truthy = true := by
      cases evidence with
      | nil => cases hentries
      | cons field evidence => rfl
    rw [Json.get?] at hentries hsignature
    simp only [verify, htruthy, if_true, Json.get_obj, hentries, hsignature, Option.getD_some, bind,
      Except.bind, h.present, split_detached h.header_plain h.sig_plain, String.ofList_toList,
      verifyDetached, hheader, halg, heq, Json.get?, hcrit, hkid, hselect,
      canonicalize_entries, Option.isSome_none, Bool.false_eq_true, if_false, Bool.true_eq_false]
  | _ => cases hentries

/-- Entries that were swapped, and signatures that were moved from another catalog or put under
another header, are FAILED. Entries that are the same JSON values as the signed ones, whatever
the order of their fields, are VERIFIED. The other keys of the key set do not matter. -/
theorem hijack_detected (H : HashFunction) (python : Interpreter) {Key : Type}
    (crypto : Cryptography Key) (loads : Bytes → Option Json) (pub : Key)
    (signed : List SignedCatalog) (hsigns : Signs crypto pub signed) (evidence : Json)
    (plain : PlainJson) (header sig : String)
    (h : Publishes crypto loads pub evidence plain header sig) :
    ∃ result, verify H python crypto loads evidence = .ok result ∧
      (result.status = .verified →
        ∃ c ∈ signed, c.header = header ∧ c.entries.tree.Same plain.tree) ∧
      (result.status ≠ .verified → result.status = .failed) ∧
      ∀ c ∈ signed, c.header = header → c.entries.tree.Same plain.tree →
        sig = wireSignature c.r c.s → result.status = .verified := by
  obtain ⟨key, hload, hverify⟩ := verify_published H python h
  cases hok : verifyEs256 crypto header (canonicalEntries plain) (.str sig) key with
  | true =>
    obtain ⟨result, hresult, hstatus⟩ : Verified (ProofResult.verified profileId method
        (evidenceRef H (canonicalEntries plain))) :=
      verified_of_not_blank (evidenceRef_not_blank H _)
    rw [hok, if_pos rfl] at hverify
    refine ⟨result, hverify.trans hresult, fun _ => ?_, absurd hstatus, fun _ _ _ _ _ => hstatus⟩
    obtain ⟨raw, pub', -, -, hload', haccepted⟩ := verifyEs256_eq_true.mp hok
    obtain rfl : pub = pub' := Except.ok.inj (hload.symm.trans hload')
    obtain ⟨c, hc, hmessage⟩ := hsigns.unforged _ _ _ haccepted
    exact ⟨c, hc, (message_eq_iff c h.header_plain plain).mp hmessage⟩
  | false =>
    rw [hok, if_neg Bool.false_ne_true] at hverify
    refine ⟨_, hverify, (fun hstatus => by cases hstatus), fun _ => rfl, ?_⟩
    rintro c hc hheader hsame rfl
    have hmessage := (message_eq_iff c h.header_plain plain).mpr ⟨hheader, hsame⟩
    rw [verifyEs256_wireSignature c.r_lt c.s_lt hload, ← hmessage, hsigns.accepts c hc] at hok
    cases hok

end Publishing

/-! ## A swapped entry -/

def headerBytes : Bytes := encodeUtf8 "\x7b\"alg\":\"ES256\",\"kid\":\"k1\"\x7d"

/-- `json.loads` on the header. -/
def loadsHeader (raw : Bytes) : Option Json :=
  if raw = headerBytes then some (.obj [("alg", .str "ES256"), ("kid", .str "k1")]) else none

def urls (url : String) : PlainJson where
  tree := .list [.leaf (.str url)]
  distinct := .list fun _ hx => List.mem_singleton.mp hx ▸ .leaf trivial

theorem toUrlSafe_eq_dot {c : Char} (h : toUrlSafe c = '.') : c = '.' := by
  rw [toUrlSafe] at h
  split at h
  · cases h
  split at h
  · cases h
  · exact h

theorem dot_notMem_b64url (raw : Bytes) : '.' ∉ (b64url raw).toList := by
  obtain ⟨digits, k, hencode, -, -, hdigits⟩ := Base64.encode_eq_append raw
  intro hdot
  have hmem : '.' ∈ (Base64.encode raw).map toUrlSafe := by
    rw [b64url, rstrip, String.toList_ofList, List.mem_reverse, String.toList_ofList, b64encode,
      String.toList_ofList] at hdot
    exact List.mem_reverse.mp ((List.dropWhile_suffix _).subset hdot)
  obtain ⟨c, hc, heq⟩ := List.mem_map.mp hmem
  obtain rfl := toUrlSafe_eq_dot heq
  have hdot' : '.' ∉ Base64.alphabet := by decide +kernel
  rw [hencode, List.mem_append] at hc
  rcases hc with hc | hc
  · exact hdot' (hdigits _ hc)
  · exact absurd (List.eq_of_mem_replicate hc) (by decide)

def signedCatalog : SignedCatalog where
  header := b64url headerBytes
  entries := urls "https://agent.example"
  r := 3
  s := 4
  header_plain := dot_notMem_b64url headerBytes
  r_lt := by norm_num
  s_lt := by norm_num

/-- The curve of a publisher who has signed one catalog. -/
def publisherCurve : Cryptography (ℕ × ℕ) :=
  recordedCurve [(1, 2)] [((1, 2), 3, 4, signedCatalog.message)]

theorem publisherCurve_signs : Signs publisherCurve (1, 2) [signedCatalog] where
  accepts c hc := by
    rw [List.mem_singleton.mp hc]
    exact decide_eq_true (List.mem_singleton_self _)
  unforged r s message h := by
    have hmem := List.mem_singleton.mp (of_decide_eq_true h)
    simp only [Prod.mk.injEq] at hmem
    exact ⟨signedCatalog, List.mem_singleton_self _, hmem.2.2.2.symm⟩

/-- The first entry leads elsewhere, and the signature was left in place. -/
def hijacked : Json :=
  .obj [("entries", (urls "https://evil.example").json),
    ("signature", .str (detached (b64url headerBytes) (wireSignature 3 4))),
    ("jwks", .obj [("keys", .arr [.obj [("kty", .str "EC"), ("crv", .str "P-256"),
      ("x", .str (b64url (toBytes 1 32))), ("y", .str (b64url (toBytes 2 32))),
      ("kid", .str "k1")]])])]

theorem hijacked_publishes : Publishes publisherCurve loadsHeader (1, 2) hijacked
    (urls "https://evil.example") (b64url headerBytes) (wireSignature 3 4) where
  entries := rfl
  present := rfl
  signature := rfl
  header_plain := dot_notMem_b64url headerBytes
  sig_plain := dot_notMem_b64url _
  keys := by
    have hkty : (Json.str "EC").eq (.str "EC") = true := Json.eq_str.mpr rfl
    have hcrv : (Json.str "P-256").eq (.str "P-256") = true := Json.eq_str.mpr rfl
    have hkid : hasKid (.str "k1") (.obj [("kty", .str "EC"), ("crv", .str "P-256"),
        ("x", .str (b64url (toBytes 1 32))), ("y", .str (b64url (toBytes 2 32))),
        ("kid", .str "k1")]) = true := Json.eq_str.mpr rfl
    refine ⟨[("alg", .str "ES256"), ("kid", .str "k1")], "k1", _, _, _, ?_, rfl, rfl, rfl, rfl,
      rfl, rfl, List.find?_cons_of_pos hkid, ?_⟩
    · rw [b64urlDecode_b64url, Option.bind_some, loadsHeader, if_pos rfl]
    · simp [loadEcP256Public, p256FromJwk, List.lookup_cons, Json.item, bind, Except.bind, hkty,
        hcrv, b64urlDecodeValue_b64url, intFromBytes_toBytes, raised, publisherCurve,
        recordedCurve]

theorem hijack_detected_url : ∃ result,
    verify sha256 Converter.plainPython publisherCurve loadsHeader hijacked = .ok result ∧
      result.status = .failed := by
  obtain ⟨result, hverify, hsigned, hfailed, -⟩ := hijack_detected sha256 Converter.plainPython
    publisherCurve loadsHeader (1, 2) [signedCatalog] publisherCurve_signs hijacked _ _ _
    hijacked_publishes
  refine ⟨result, hverify, hfailed fun hstatus => ?_⟩
  obtain ⟨c, hc, -, hsame⟩ := hsigned hstatus
  rw [List.mem_singleton.mp hc] at hsame
  cases hsame with
  | list _ h =>
    have hurl := Tree.same_leaf_iff.mp (h _ (List.mem_singleton_self _))
    exact absurd hurl (by decide)

end JwsCatalog
