import SmBridge.Python

/-! # The elliptic-curve package, as the trust profiles use it -/
namespace Trust

open Python

/-- A failure is the text of the exception. -/
structure Cryptography (Key : Type) where
  loadPem : Bytes → Except String Key
  loadDer : Bytes → Except String Key
  /-- `EllipticCurvePublicNumbers(x, y, SECP256R1()).public_key()` -/
  fromNumbers : ℕ → ℕ → Except String Key
  /-- `EllipticCurvePublicKey.from_encoded_point(SECP256R1(), data)` -/
  fromEncodedPoint : Bytes → Except String Key
  /-- The curve of an elliptic-curve key. -/
  curve : Key → Option String
  /-- ECDSA with SHA-256, of the signature `(r, s)`. -/
  verifyEcdsa : Key → ℕ → ℕ → Bytes → Bool

def intFromBytes (b : Bytes) : ℕ := b.foldl (fun n x => 256 * n + x.toNat) 0

end Trust
