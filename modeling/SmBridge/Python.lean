import SmBridge.Lib.Attempts
import SmBridge.Lib.Base64
import Mathlib.Data.Int.Notation
import Mathlib.Data.List.Basic

/-! # The parts of Python that the modelled code relies on -/
namespace Python

abbrev Bytes := List UInt8

/-- The exceptions the modelled code raises or catches, with their message. -/
inductive PyError where
  | valueError (msg : String)
  | keyError (key : String)
  | typeError (msg : String)
  | attributeError (msg : String)
  | overflowError (msg : String)
  | runtimeError (msg : String)
  /-- An exception of a library, such as a failed request. -/
  | other (name msg : String)
  deriving DecidableEq, Repr

/-- `str(exc)`; that of a `KeyError` shows the key as `repr` does. -/
def PyError.text : PyError → String
  | .valueError msg | .typeError msg | .attributeError msg | .overflowError msg
  | .runtimeError msg | .other _ msg => msg
  | .keyError key => "'" ++ key ++ "'"

theorem eq_ok_of_isSome {α : Type} {x : Except PyError α} (h : x.toOption.isSome = true) (a : α) :
    x = .ok (x.toOption.getD a) := by
  cases x with
  | ok b => rfl
  | error e => cases h

/-- `xs[:stop]`; a negative bound counts from the end. -/
def sliceTo {α : Type*} (xs : List α) (stop : ℤ) : List α :=
  if stop < 0 then xs.take (xs.length + stop).toNat else xs.take stop.toNat

@[simp] theorem sliceTo_natCast {α : Type*} (xs : List α) (n : ℕ) :
    sliceTo xs (n : ℤ) = xs.take n := by
  rw [sliceTo, if_neg (by omega), Int.toNat_natCast]

/-- `s[:stop]` for a bound that is not negative. -/
def sliceStr (s : String) (stop : ℕ) : String := String.ofList (s.toList.take stop)

/-- The characters that `str.strip` removes. -/
def isSpace (c : Char) : Bool :=
  (0x09 ≤ c.toNat && c.toNat ≤ 0x0d) || (0x1c ≤ c.toNat && c.toNat ≤ 0x20) ||
  [0x85, 0xa0, 0x1680, 0x2028, 0x2029, 0x202f, 0x205f, 0x3000].contains c.toNat ||
  (0x2000 ≤ c.toNat && c.toNat ≤ 0x200a)

/-- `not s.strip()` -/
def isBlank (s : String) : Bool := s.toList.all isSpace

/-- `s.rstrip(c)` -/
def rstrip (c : Char) (s : String) : String :=
  String.ofList (s.toList.reverse.dropWhile (· == c)).reverse

def hexDigit (v : ℕ) : Char := "0123456789abcdef".toList.getD v '0'

def hex (b : Bytes) : String :=
  String.ofList (b.flatMap fun x => [hexDigit (x.toNat / 16), hexDigit (x.toNat % 16)])

def b64encode (b : Bytes) : String := String.ofList (Base64.encode b)

/-- `base64.b64decode(s)`; `none` stands for its `ValueError`. -/
def b64decode (s : String) : Option Bytes :=
  if s.toList.all fun c => c.toNat < 128 then Base64.decode s.toList else none

def encodeUtf8 (s : String) : Bytes := s.toUTF8.toList

theorem bytesFrom_eq (bs : ByteArray) (i : ℕ) (r : List UInt8) :
    ByteArray.toList.loop bs i r = r.reverse ++ bs.data.toList.drop i := by
  induction i, r using ByteArray.toList.loop.induct bs with
  | case1 i r h ih =>
    have hi : i < bs.data.toList.length := by simpa using h
    rw [ByteArray.toList.loop, if_pos h, ih, List.drop_eq_getElem_cons hi, ByteArray.get!,
      getElem!_pos bs.data i h]
    simp
  | case2 i r h =>
    have hi : bs.data.toList.length ≤ i := by simpa using h
    rw [ByteArray.toList.loop, if_neg h, List.drop_eq_nil_of_le hi, List.append_nil]

theorem encodeUtf8_append (s t : String) :
    encodeUtf8 (s ++ t) = encodeUtf8 s ++ encodeUtf8 t := by
  simp [encodeUtf8, ByteArray.toList, bytesFrom_eq, String.toUTF8_eq_toByteArray]

theorem encodeUtf8_ofList (cs : List Char) :
    encodeUtf8 (String.ofList cs) = cs.flatMap String.utf8EncodeChar := by
  simp [encodeUtf8, ByteArray.toList, bytesFrom_eq, String.toUTF8_eq_toByteArray,
    String.toByteArray_ofList, List.utf8Encode]

theorem encodeUtf8_injective : Function.Injective encodeUtf8 := by
  intro s t h
  have hdata : s.toUTF8.data.toList = t.toUTF8.data.toList := by
    simpa [encodeUtf8, ByteArray.toList, bytesFrom_eq] using h
  have hbytes : s.toUTF8 = t.toUTF8 := ByteArray.ext (Array.toList_inj.mp hdata)
  rwa [String.toUTF8_eq_toByteArray, String.toUTF8_eq_toByteArray, String.toByteArray_inj] at hbytes

theorem toDigits_inj {n m : ℕ} (h : Nat.toDigits 10 n = Nat.toDigits 10 m) : n = m := by
  have hvalue := congrArg (Nat.ofDigitChars 10 · 0) h
  simpa only [Nat.ofDigitChars_ten_toDigits] using hvalue

theorem isDigit_of_mem_toDigits {n : ℕ} {c : Char} (h : c ∈ Nat.toDigits 10 n) :
    c.isDigit = true :=
  Nat.isDigit_of_mem_toDigits (by decide) (by decide) h

theorem b64decode_b64encode (b : Bytes) : b64decode (b64encode b) = some b := by
  rw [b64decode, b64encode, String.toList_ofList, if_pos, Base64.decode_encode]
  exact List.all_eq_true.mpr fun c hc => decide_eq_true (Base64.encode_ascii b c hc)

theorem b64encode_injective : Function.Injective b64encode := by
  intro b b' h
  have hb := b64decode_b64encode b
  rw [h, b64decode_b64encode] at hb
  exact (Option.some.inj hb).symm

end Python
