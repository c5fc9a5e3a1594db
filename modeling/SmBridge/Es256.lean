import SmBridge.Json
import SmBridge.Cryptography
import Mathlib.Data.List.TakeWhile

/-!
# ES256 detached signatures

The signing input joins the encoded header and the encoded payload. A public key comes as
PEM text, as a JWK or as a `did:key`.
-/
namespace Es256

open Python
open JsonValue
open Trust

/-! ## Encodings -/

/-- The alphabet of `base64.urlsafe_b64encode` against the ordinary one. -/
def toUrlSafe (c : Char) : Char := if c = '+' then '-' else if c = '/' then '_' else c
def fromUrlSafe (c : Char) : Char := if c = '-' then '+' else if c = '_' then '/' else c

def b64url (raw : Bytes) : String :=
  rstrip '=' (String.ofList ((b64encode raw).toList.map toUrlSafe))

/-- The missing padding is put back before decoding. -/
def b64urlDecode (s : String) : Option Bytes :=
  let pad := List.replicate ((4 - s.toList.length % 4) % 4) '='
  b64decode (String.ofList ((s.toList ++ pad).map fromUrlSafe))

def b64urlDecodeValue : Json → Except PyError Bytes
  | .str s =>
    match b64urlDecode s with
    | some raw => .ok raw
    | none => .error (.valueError "invalid base64")
  | .arr _ => .error (.typeError "can only concatenate list (not \"str\") to list")
  | .obj _ => .error (.typeError "unsupported operand type(s) for +: 'dict' and 'str'")
  | value => .error (.typeError ("object of type '" ++ value.typeName ++ "' has no len()"))

def b58 : List Char := "123456789ABCDEFGHJKLMNPQRSTUVWXYZabcdefghijkmnopqrstuvwxyz".toList

def b58Index (c : Char) : Except PyError ℕ :=
  if b58.idxOf c < 58 then .ok (b58.idxOf c) else .error (.valueError "substring not found")

def bitLength (n : ℕ) : ℕ := if n = 0 then 0 else n.log2 + 1

/-- `n.to_bytes(length, "big")` of a number that fits. -/
def toBytes (n length : ℕ) : Bytes :=
  (List.range length).reverse.map fun i => UInt8.ofNat (n / 256 ^ i)

def b58decode (s : String) : Except PyError Bytes := do
  let num ← s.toList.foldlM (fun num c => do return num * 58 + (← b58Index c)) 0
  let raw := toBytes num ((bitLength num + 7) / 8)
  let pad := (s.toList.takeWhile (· == '1')).length
  .ok (List.replicate pad 0 ++ raw)

/-! ## Round trips -/

theorem toUrlSafe_ne_pad {c : Char} (h : c ∈ Base64.alphabet) : toUrlSafe c ≠ '=' := by
  have hpad : '=' ∉ Base64.alphabet := by decide +kernel
  rw [toUrlSafe]
  split
  · decide
  split
  · decide
  · intro heq
    exact hpad (heq ▸ h)

theorem fromUrlSafe_toUrlSafe {c : Char} (h : c ∈ Base64.alphabet) :
    fromUrlSafe (toUrlSafe c) = c := by
  have hminus : c ≠ '-' := by
    rintro rfl
    exact absurd h (by decide +kernel)
  have hunder : c ≠ '_' := by
    rintro rfl
    exact absurd h (by decide +kernel)
  rw [toUrlSafe]
  split
  · rename_i hplus
    rw [hplus]
    decide
  split
  · rename_i hslash
    rw [hslash]
    decide
  · rw [fromUrlSafe, if_neg hminus, if_neg hunder]

theorem b64urlDecode_b64url (raw : Bytes) : b64urlDecode (b64url raw) = some raw := by
  obtain ⟨digits, k, hencode, hk, hlength, hdigits⟩ := Base64.encode_eq_append raw
  have hstrip : (b64url raw).toList = digits.map toUrlSafe := by
    have hpads : (List.replicate k '=').dropWhile (· == '=') = [] := by simp
    have hkept : (digits.map toUrlSafe).reverse.dropWhile (· == '=') =
        (digits.map toUrlSafe).reverse := by
      rw [List.dropWhile_eq_self_iff]
      intro hpos
      have hmem := List.getElem_mem hpos
      rw [List.mem_reverse, List.mem_map] at hmem
      obtain ⟨c, hc, heq⟩ := hmem
      rw [← heq, beq_iff_eq]
      exact toUrlSafe_ne_pad (hdigits c hc)
    have hpad : toUrlSafe '=' = '=' := by decide
    rw [b64url, rstrip, b64encode, String.toList_ofList, String.toList_ofList, String.toList_ofList,
      hencode, List.map_append, List.map_replicate, hpad, List.reverse_append,
      List.reverse_replicate, List.dropWhile_append, hpads]
    simp [hkept]
  have hrestore : (digits.map toUrlSafe).map fromUrlSafe = digits := by
    rw [List.map_map]
    exact (List.map_congr_left fun c hc => fromUrlSafe_toUrlSafe (hdigits c hc)).trans
      (List.map_id' digits)
  have hcount : (4 - digits.length % 4) % 4 = k := by omega
  have hpad : fromUrlSafe '=' = '=' := by decide
  simp only [b64urlDecode, hstrip]
  rw [List.length_map, hcount, List.map_append, hrestore, List.map_replicate, hpad, ← hencode]
  exact b64decode_b64encode raw

@[simp] theorem toBytes_length (n length : ℕ) : (toBytes n length).length = length := by
  simp [toBytes]

theorem toBytes_succ (n length : ℕ) :
    toBytes n (length + 1) = UInt8.ofNat (n / 256 ^ length) :: toBytes n length := by
  simp [toBytes, List.range_succ]

theorem intFromBytes_toBytes {n length : ℕ} (h : n < 256 ^ length) :
    intFromBytes (toBytes n length) = n := by
  have hfold : ∀ length acc, (toBytes n length).foldl (fun n x => 256 * n + x.toNat) acc =
      256 ^ length * acc + n % 256 ^ length := by
    intro length
    induction length with
    | zero => simp [toBytes, Nat.mod_one]
    | succ length ih =>
      intro acc
      have hmod : n % (256 ^ length * 256) =
          n % 256 ^ length + 256 ^ length * (n / 256 ^ length % 256) := Nat.mod_mul
      have hbyte : (UInt8.ofNat (n / 256 ^ length)).toNat = n / 256 ^ length % 256 :=
        UInt8.toNat_ofNat'
      rw [toBytes_succ, List.foldl_cons, ih, hbyte, Nat.pow_succ, hmod]
      ring
  rw [intFromBytes, hfold, Nat.mul_zero, Nat.zero_add, Nat.mod_eq_of_lt h]

/-! ## Public keys -/

section Definitions

variable {Key : Type} (crypto : Cryptography Key)

def raised {α : Type} : Except String α → Except PyError α
  | .ok a => .ok a
  | .error text => .error (.valueError text)

def p256FromJwk (jwk : List (String × Json)) : Except PyError Key := do
  let kty ← (Json.obj jwk).get "kty"
  let crv ← (Json.obj jwk).get "crv"
  if !kty.eq (.str "EC") || !crv.eq (.str "P-256") then
    .error (.valueError "JWK is not an EC P-256 key")
  else
    let x ← b64urlDecodeValue (← (Json.obj jwk).item "x")
    let y ← b64urlDecodeValue (← (Json.obj jwk).item "y")
    raised (crypto.fromNumbers (intFromBytes x) (intFromBytes y))

def didKeyIdent (did : String) : Option (List Char) :=
  if "did:key:".toList.isPrefixOf did.toList then some (did.toList.drop 8) else none

def p256FromDidKey (ident : List Char) : Except PyError Key :=
  match ident with
  | 'z' :: encoded => do
    let decoded ← b58decode (String.ofList encoded)
    if decoded.take 2 ≠ [0x80, 0x24] then
      .error (.valueError "did:key is not a P-256 key (multicodec != 0x1200)")
    else raised (crypto.fromEncodedPoint (decoded.drop 2))
  | _ => .error (.valueError "did:key must be base58btc (z-prefixed)")

/-- The curve check is the same for every kind of key. -/
def loadEcP256Public (key : Json) : Except PyError Key := do
  let loaded ← match key with
    | .obj jwk => p256FromJwk crypto jwk
    | .str s =>
      match didKeyIdent s with
      | some ident => p256FromDidKey crypto ident
      | none => raised (crypto.loadPem (encodeUtf8 s))
    | key => .error (.valueError ("unsupported public key type: " ++ key.typeName))
  match crypto.curve loaded with
  | none => .error (.valueError "public key is not an ECDSA key")
  | some curve =>
    if curve ≠ "secp256r1" then
      .error (.valueError ("public key curve is " ++ curve ++ ", want secp256r1 (P-256)"))
    else .ok loaded

/-! ## Verification -/

def signingInput (headerB64 : String) (payloadCanonical : Bytes) : Bytes :=
  encodeUtf8 headerB64 ++ encodeUtf8 "." ++ encodeUtf8 (b64url payloadCanonical)

/-- The body of `verify_es256`, which may raise. -/
def checkEs256 (headerB64 : String) (payloadCanonical : Bytes) (sigB64url publicKey : Json) :
    Except PyError Bool := do
  let raw ← b64urlDecodeValue sigB64url
  if raw.length ≠ 64 then .ok false
  else
    let pub ← loadEcP256Public crypto publicKey
    .ok (crypto.verifyEcdsa pub (intFromBytes (raw.take 32)) (intFromBytes (raw.drop 32))
      (signingInput headerB64 payloadCanonical))

/-- Every exception counts as a signature that is not verified. -/
def verifyEs256 (headerB64 : String) (payloadCanonical : Bytes) (sigB64url publicKey : Json) :
    Bool :=
  match checkEs256 crypto headerB64 payloadCanonical sigB64url publicKey with
  | .ok verified => verified
  | .error _ => false

end Definitions

variable {Key : Type} {crypto : Cryptography Key}

/-- An accepted signature has 64 bytes, and the loaded key has accepted its two halves. -/
theorem verifyEs256_eq_true {headerB64 : String} {payload : Bytes} {sig publicKey : Json} :
    verifyEs256 crypto headerB64 payload sig publicKey = true ↔
      ∃ raw pub, b64urlDecodeValue sig = .ok raw ∧ raw.length = 64 ∧
        loadEcP256Public crypto publicKey = .ok pub ∧
        crypto.verifyEcdsa pub (intFromBytes (raw.take 32)) (intFromBytes (raw.drop 32))
          (signingInput headerB64 payload) = true := by
  rw [verifyEs256, checkEs256]
  constructor
  · intro h
    cases hraw : b64urlDecodeValue sig with
    | error e => simp [hraw, bind, Except.bind] at h
    | ok raw =>
      by_cases hlen : raw.length ≠ 64
      · simp [hraw, bind, Except.bind, hlen] at h
      cases hpub : loadEcP256Public crypto publicKey with
      | error e => simp [hraw, hpub, bind, Except.bind, hlen] at h
      | ok pub =>
        simp only [hraw, hpub, bind, Except.bind, if_neg hlen] at h
        exact ⟨raw, pub, rfl, not_not.mp hlen, rfl, h⟩
  · rintro ⟨raw, pub, hraw, hlen, hpub, hok⟩
    simp [hraw, hpub, bind, Except.bind, hlen, hok]

/-! ## What is sent -/

/-- The text that `sign_es256` makes of the signature `(r, s)`. -/
def wireSignature (r s : ℕ) : String := b64url (toBytes r 32 ++ toBytes s 32)

def jwk (x y : ℕ) : Json :=
  .obj [("kty", .str "EC"), ("crv", .str "P-256"), ("x", .str (b64url (toBytes x 32))),
    ("y", .str (b64url (toBytes y 32)))]

theorem b64urlDecodeValue_b64url (raw : Bytes) :
    b64urlDecodeValue (.str (b64url raw)) = .ok raw := by
  rw [b64urlDecodeValue, b64urlDecode_b64url]

theorem loadEcP256Public_jwk {x y : ℕ} (hx : x < 256 ^ 32) (hy : y < 256 ^ 32) {pub : Key}
    (hpub : crypto.fromNumbers x y = .ok pub) (hcurve : crypto.curve pub = some "secp256r1") :
    loadEcP256Public crypto (jwk x y) = .ok pub := by
  have hkty : (Json.str "EC").eq (.str "EC") = true := Json.eq_str.mpr rfl
  have hcrv : (Json.str "P-256").eq (.str "P-256") = true := Json.eq_str.mpr rfl
  simp [loadEcP256Public, jwk, p256FromJwk, List.lookup_cons, Json.item, bind, Except.bind, hkty,
    hcrv, b64urlDecodeValue_b64url, intFromBytes_toBytes hx, intFromBytes_toBytes hy, raised,
    hpub, hcurve]

theorem verifyEs256_wireSignature {headerB64 : String} {payload : Bytes} {publicKey : Json}
    {r s : ℕ} (hr : r < 256 ^ 32) (hs : s < 256 ^ 32) {pub : Key}
    (hpub : loadEcP256Public crypto publicKey = .ok pub) :
    verifyEs256 crypto headerB64 payload (.str (wireSignature r s)) publicKey =
      crypto.verifyEcdsa pub r s (signingInput headerB64 payload) := by
  have hlength : (toBytes r 32 ++ toBytes s 32).length = 64 := by simp
  have htake : (toBytes r 32 ++ toBytes s 32).take 32 = toBytes r 32 :=
    List.take_left' (toBytes_length r 32)
  have hdrop : (toBytes r 32 ++ toBytes s 32).drop 32 = toBytes s 32 :=
    List.drop_left' (toBytes_length r 32)
  simp only [verifyEs256, checkEs256, wireSignature, b64urlDecodeValue_b64url, bind, Except.bind,
    hlength, ne_eq, not_true_eq_false, if_false, hpub, htake, hdrop, intFromBytes_toBytes hr,
    intFromBytes_toBytes hs]

/-! ## Recorded keys -/

/-- A point with its `y` reduced to a sign. -/
def compressed (key : ℕ × ℕ) : Bytes := UInt8.ofNat (2 + key.2 % 2) :: toBytes key.1 32

/-- The curve as far as a list of keys and the signatures made with them go. -/
def recordedCurve (keys : List (ℕ × ℕ)) (signatures : List ((ℕ × ℕ) × ℕ × ℕ × Bytes)) :
    Cryptography (ℕ × ℕ) where
  loadPem _ := .error "Unable to load PEM file."
  loadDer _ := .error "Could not deserialize key data."
  fromNumbers x y := if (x, y) ∈ keys then .ok (x, y) else .error "Invalid EC key."
  fromEncodedPoint b :=
    match keys.find? fun key => compressed key == b with
    | some key => .ok key
    | none => .error "Invalid EC key."
  curve _ := some "secp256r1"
  verifyEcdsa key r s message := (key, r, s, message) ∈ signatures

end Es256
