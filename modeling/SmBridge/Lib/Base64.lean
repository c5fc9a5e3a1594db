import Mathlib.Data.List.Basic

/-!
# Base64

The encoder of RFC 4648, and the lenient decoder of Python's `binascii.a2b_base64`:
characters outside the alphabet are passed over, and the text may go on after a
complete padding.
-/
namespace Base64

def alphabet : List Char :=
  "ABCDEFGHIJKLMNOPQRSTUVWXYZabcdefghijklmnopqrstuvwxyz0123456789+/".toList

def encodeDigit (v : ℕ) : Char := alphabet.getD v '='

def decodeDigit (c : Char) : Option ℕ :=
  if alphabet.idxOf c < 64 then some (alphabet.idxOf c) else none

def encode : List UInt8 → List Char
  | [] => []
  | [a] => [encodeDigit (a.toNat / 4), encodeDigit (a.toNat % 4 * 16), '=', '=']
  | [a, b] =>
    [encodeDigit (a.toNat / 4), encodeDigit (a.toNat % 4 * 16 + b.toNat / 16),
      encodeDigit (b.toNat % 16 * 4), '=']
  | a :: b :: c :: m =>
    encodeDigit (a.toNat / 4) :: encodeDigit (a.toNat % 4 * 16 + b.toNat / 16) ::
      encodeDigit (b.toNat % 16 * 4 + c.toNat / 64) :: encodeDigit (c.toNat % 64) :: encode m

/-- `pos` digits of the current group are read, `left` holds their bits that are not yet
output, and `pads` counts the padding since the last digit. -/
def decodeFrom (pos left pads : ℕ) : List Char → Option (List UInt8)
  | [] => if pos = 0 then some [] else none
  | c :: cs =>
    if c = '=' then
      if 2 ≤ pos then
        if 4 ≤ pos + (pads + 1) then some [] else decodeFrom pos left (pads + 1) cs
      else decodeFrom pos left pads cs
    else
      match decodeDigit c with
      | none => decodeFrom pos left pads cs
      | some v =>
        match pos with
        | 0 => decodeFrom 1 v 0 cs
        | 1 => (decodeFrom 2 (v % 16) 0 cs).map (UInt8.ofNat (left * 4 + v / 16) :: ·)
        | 2 => (decodeFrom 3 (v % 4) 0 cs).map (UInt8.ofNat (left * 16 + v / 4) :: ·)
        | _ => (decodeFrom 0 0 0 cs).map (UInt8.ofNat (left * 64 + v) :: ·)

def decode (cs : List Char) : Option (List UInt8) := decodeFrom 0 0 0 cs

theorem decodeDigit_encodeDigit : ∀ v, v < 64 → decodeDigit (encodeDigit v) = some v := by
  decide +kernel

theorem encodeDigit_ne_pad : ∀ v, v < 64 → encodeDigit v ≠ '=' := by
  decide +kernel

theorem decodeFrom_zero {v : ℕ} (hv : v < 64) (left pads : ℕ) (cs : List Char) :
    decodeFrom 0 left pads (encodeDigit v :: cs) = decodeFrom 1 v 0 cs := by
  rw [decodeFrom, if_neg (encodeDigit_ne_pad v hv), decodeDigit_encodeDigit v hv]
  rfl

theorem decodeFrom_one {v left : ℕ} {a : UInt8} (hv : v < 64) (ha : left * 4 + v / 16 = a.toNat)
    (pads : ℕ) (cs : List Char) :
    decodeFrom 1 left pads (encodeDigit v :: cs) = (decodeFrom 2 (v % 16) 0 cs).map (a :: ·) := by
  rw [decodeFrom, if_neg (encodeDigit_ne_pad v hv), decodeDigit_encodeDigit v hv]
  simp only [ha, UInt8.ofNat_toNat]

theorem decodeFrom_two {v left : ℕ} {a : UInt8} (hv : v < 64) (ha : left * 16 + v / 4 = a.toNat)
    (pads : ℕ) (cs : List Char) :
    decodeFrom 2 left pads (encodeDigit v :: cs) = (decodeFrom 3 (v % 4) 0 cs).map (a :: ·) := by
  rw [decodeFrom, if_neg (encodeDigit_ne_pad v hv), decodeDigit_encodeDigit v hv]
  simp only [ha, UInt8.ofNat_toNat]

theorem decodeFrom_three {v left : ℕ} {a : UInt8} (hv : v < 64) (ha : left * 64 + v = a.toNat)
    (pads : ℕ) (cs : List Char) :
    decodeFrom 3 left pads (encodeDigit v :: cs) = (decodeFrom 0 0 0 cs).map (a :: ·) := by
  rw [decodeFrom, if_neg (encodeDigit_ne_pad v hv), decodeDigit_encodeDigit v hv]
  simp only [ha, UInt8.ofNat_toNat]

theorem decodeFrom_encode (m : List UInt8) (left pads : ℕ) :
    decodeFrom 0 left pads (encode m) = some m := by
  induction m using encode.induct generalizing left pads with
  | case1 => rfl
  | case2 a =>
    have ha := a.toNat_lt
    rw [encode, decodeFrom_zero (by omega), decodeFrom_one (a := a) (by omega) (by omega)]
    simp [decodeFrom]
  | case3 a b =>
    have ha := a.toNat_lt
    have hb := b.toNat_lt
    rw [encode, decodeFrom_zero (by omega), decodeFrom_one (a := a) (by omega) (by omega),
      decodeFrom_two (a := b) (by omega) (by omega)]
    simp [decodeFrom]
  | case4 a b c m ih =>
    have ha := a.toNat_lt
    have hb := b.toNat_lt
    have hc := c.toNat_lt
    rw [encode, decodeFrom_zero (by omega), decodeFrom_one (a := a) (by omega) (by omega),
      decodeFrom_two (a := b) (by omega) (by omega),
      decodeFrom_three (a := c) (by omega) (by omega), ih]
    rfl

theorem decode_encode (m : List UInt8) : decode (encode m) = some m :=
  decodeFrom_encode m 0 0

theorem encodeDigit_ascii (v : ℕ) : (encodeDigit v).toNat < 128 := by
  by_cases hv : v < 64
  · revert v
    decide +kernel
  · have hlen : alphabet.length ≤ v := by
      rw [show alphabet.length = 64 by decide +kernel]
      omega
    rw [encodeDigit, List.getD_eq_getElem?_getD, List.getElem?_eq_none hlen]
    decide

theorem encode_ascii (m : List UInt8) : ∀ c ∈ encode m, c.toNat < 128 := by
  induction m using encode.induct with
  | case1 => simp [encode]
  | case2 a => simp [encode, encodeDigit_ascii]
  | case3 a b => simp [encode, encodeDigit_ascii]
  | case4 a b c m ih => simpa [encode, encodeDigit_ascii] using ih

theorem encodeDigit_mem : ∀ v, v < 64 → encodeDigit v ∈ alphabet := by
  decide +kernel

/-- Digits, filled up to groups of four with at most two pads. -/
theorem encode_eq_append (m : List UInt8) :
    ∃ digits k, encode m = digits ++ List.replicate k '=' ∧ k < 3 ∧ (digits.length + k) % 4 = 0 ∧
      ∀ c ∈ digits, c ∈ alphabet := by
  induction m using encode.induct with
  | case1 => exact ⟨[], 0, rfl, by omega, rfl, by simp⟩
  | case2 a =>
    have ha := a.toNat_lt
    refine ⟨[encodeDigit (a.toNat / 4), encodeDigit (a.toNat % 4 * 16)], 2, rfl, by omega,
      by simp, ?_⟩
    simpa using ⟨encodeDigit_mem _ (by omega), encodeDigit_mem _ (by omega)⟩
  | case3 a b =>
    have ha := a.toNat_lt
    have hb := b.toNat_lt
    refine ⟨[encodeDigit (a.toNat / 4), encodeDigit (a.toNat % 4 * 16 + b.toNat / 16),
      encodeDigit (b.toNat % 16 * 4)], 1, rfl, by omega, by simp, ?_⟩
    simpa using ⟨encodeDigit_mem _ (by omega), encodeDigit_mem _ (by omega),
      encodeDigit_mem _ (by omega)⟩
  | case4 a b c m ih =>
    have ha := a.toNat_lt
    have hb := b.toNat_lt
    have hc := c.toNat_lt
    obtain ⟨digits, k, hencode, hk, hlength, hdigits⟩ := ih
    refine ⟨_ :: _ :: _ :: _ :: digits, k, by rw [encode, hencode]; rfl, hk, ?_, ?_⟩
    · simp only [List.length_cons]
      omega
    · simpa using ⟨encodeDigit_mem _ (by omega), encodeDigit_mem _ (by omega),
        encodeDigit_mem _ (by omega), encodeDigit_mem _ (by omega), hdigits⟩

end Base64
