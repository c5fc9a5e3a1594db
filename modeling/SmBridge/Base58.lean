import SmBridge.Es256
import SmBridge.Lib.Attempts
import SmBridge.Lib.Radix

/-!
# Base58

The key of a `did:key` is read as a numeral with 58 digits. The bytes are the numeral in base
256 with as many leading zeros and the same value.
-/
namespace Base58

open Python
open Trust
open Es256
open Attempts
open Radix

/-! ## Numerals -/

theorem toNat_lt_of_mem_map {raw : Bytes} : ∀ d ∈ raw.map UInt8.toNat, d < 256 := by
  intro d hd
  obtain ⟨x, -, rfl⟩ := List.mem_map.mp hd
  exact x.toNat_lt

theorem idxOf_lt_iff {c : Char} : b58.idxOf c < 58 ↔ c ∈ b58 := List.idxOf_lt_length_iff

theorem idxOf_lt_of_forall_mem {cs : List Char} (h : ∀ c ∈ cs, c ∈ b58) :
    ∀ d ∈ cs.map b58.idxOf, d < 58 := by
  intro d hd
  obtain ⟨c, hc, rfl⟩ := List.mem_map.mp hd
  exact idxOf_lt_iff.mpr (h c hc)

def ofBytes (raw : Bytes) : Numeral 256 := ⟨raw.map UInt8.toNat, toNat_lt_of_mem_map⟩

def ofText (cs : List Char) (h : ∀ c ∈ cs, c ∈ b58) : Numeral 58 :=
  ⟨cs.map b58.idxOf, idxOf_lt_of_forall_mem h⟩

def toBase256 : Numeral 58 → Numeral 256 := Numeral.convert (by decide)

def toBase58 : Numeral 256 → Numeral 58 := Numeral.convert (by decide)

/-- The text of the bytes: a `1` for each leading zero byte, then the digits of the number. -/
def b58encode (raw : Bytes) : String :=
  String.ofList (List.replicate (raw.takeWhile (· == 0)).length '1' ++
    (Nat.digits 58 (intFromBytes raw)).reverse.map (b58.getD · '1'))

example : b58encode [0x00, 0x00, 0x28, 0x7f, 0xb4, 0xcd] = "11233QC4" := by decide +kernel

variable {raw : Bytes} {cs ds : List Char} {n : ℕ}

/-! ## Bytes -/

theorem map_map_eq_self {α β : Type} {f : α → β} {g : β → α} {xs : List α}
    (h : ∀ x ∈ xs, g (f x) = x) : (xs.map f).map g = xs := by
  rw [List.map_map]
  exact (List.map_congr_left h).trans (List.map_id' xs)

theorem map_ofNat_digits (raw : Bytes) : (ofBytes raw).digits.map UInt8.ofNat = raw :=
  map_map_eq_self fun _ _ => UInt8.ofNat_toNat

theorem value_ofBytes (raw : Bytes) : (ofBytes raw).value = intFromBytes raw := by
  rw [Numeral.value_eq_foldl, ofBytes, List.foldl_map, intFromBytes]
  simp only [Nat.add_comm]

theorem zeros_ofBytes (raw : Bytes) :
    (ofBytes raw).zeros = (raw.takeWhile (· == 0)).length :=
  Numeral.length_takeWhile_map (fun x => by rw [← UInt8.toNat_inj, UInt8.toNat_zero]) raw

/-- `bit_length` counts the bytes of a number, and zero has none. -/
theorem length_digits_256 (n : ℕ) : (Nat.digits 256 n).length = (bitLength n + 7) / 8 := by
  apply eq_of_forall_lt_iff
  intro k
  have hpow : 256 ^ k = 2 ^ (8 * k) := by rw [pow_mul]; norm_num
  rw [Nat.lt_digits_length_iff (by decide), hpow, bitLength]
  split
  · rename_i hn
    have hpos := Nat.two_pow_pos (8 * k)
    omega
  · rename_i hn
    rw [← Nat.le_log2 hn]
    omega

theorem toBytes_eq_digits (n : ℕ) :
    toBytes n ((bitLength n + 7) / 8) = (Nat.digits 256 n).reverse.map UInt8.ofNat := by
  have hdigits : Nat.digits 256 n =
      (List.range (Nat.digits 256 n).length).map fun i => n / 256 ^ i % 256 := by
    apply List.ext_getElem (by simp)
    intro i hi _
    rw [List.getElem_map, List.getElem_range, ← Nat.getD_digits n i (by decide),
      List.getD_eq_getElem?_getD, List.getElem?_eq_getElem hi, Option.getD_some]
  rw [toBytes, ← length_digits_256]
  conv_rhs => rw [hdigits]
  rw [← List.map_reverse, List.map_map]
  exact List.map_congr_left fun i _ => (UInt8.ofNat_mod_size).symm

/-! ## The text -/

theorem b58Index_of_mem {c : Char} (h : c ∈ b58) : b58Index c = .ok (b58.idxOf c) :=
  if_pos (idxOf_lt_iff.mpr h)

theorem b58Index_of_notMem {c : Char} (h : c ∉ b58) :
    b58Index c = .error (.valueError "substring not found") :=
  if_neg fun hlt => h (idxOf_lt_iff.mp hlt)

theorem foldlM_b58Index (h : ∀ c ∈ cs, c ∈ b58) (n : ℕ) :
    cs.foldlM (fun num c => do return num * 58 + (← b58Index c)) n =
      (.ok ((cs.map b58.idxOf).foldl (fun n d => d + 58 * n) n) : Except PyError ℕ) := by
  induction cs generalizing n with
  | nil => rfl
  | cons c cs ih =>
    obtain ⟨hc, hcs⟩ := List.forall_mem_cons.mp h
    have hstep : n * 58 + b58.idxOf c = b58.idxOf c + 58 * n := by omega
    rw [List.foldlM_cons, b58Index_of_mem hc, List.map_cons, List.foldl_cons, ← ih hcs, ← hstep]
    rfl

/-- The first character that is not in the alphabet ends the loop. -/
theorem foldlM_b58Index_error (h : ∃ c ∈ cs, c ∉ b58) (n : ℕ) :
    cs.foldlM (fun num c => do return num * 58 + (← b58Index c)) n =
      (.error (.valueError "substring not found") : Except PyError ℕ) := by
  induction cs generalizing n with
  | nil => simp at h
  | cons c cs ih =>
    rw [List.foldlM_cons]
    by_cases hc : c ∈ b58
    · have hrest : ∃ c ∈ cs, c ∉ b58 := by
        obtain ⟨d, hd, hnot⟩ := h
        rcases List.mem_cons.mp hd with rfl | hd
        · exact absurd hc hnot
        · exact ⟨d, hd, hnot⟩
      rw [b58Index_of_mem hc]
      exact ih hrest _
    · rw [b58Index_of_notMem hc]
      rfl

theorem idxOf_eq_zero_iff (c : Char) : b58.idxOf c = 0 ↔ c = '1' := by
  constructor
  · intro hc
    have hlt : b58.idxOf c < b58.length := by rw [hc]; decide
    have hget := List.getElem_idxOf hlt
    simp only [hc] at hget
    exact hget.symm
  · rintro rfl
    rfl

/-- The leading `1`s are the leading zeros. -/
theorem zeros_ofText (h : ∀ c ∈ cs, c ∈ b58) :
    (ofText cs h).zeros = (cs.takeWhile (· == '1')).length :=
  Numeral.length_takeWhile_map idxOf_eq_zero_iff cs

/-- Decoding carries the numeral over to base 256. -/
theorem b58decode_ofText (h : ∀ c ∈ cs, c ∈ b58) :
    b58decode (String.ofList cs) = .ok ((toBase256 (ofText cs h)).digits.map UInt8.ofNat) := by
  have hvalue : (ofText cs h).value = (cs.map b58.idxOf).foldl (fun n d => d + 58 * n) 0 :=
    Numeral.value_eq_foldl _
  rw [b58decode, String.toList_ofList, foldlM_b58Index h, ← hvalue, ← zeros_ofText h]
  show Except.ok _ = _
  rw [toBytes_eq_digits, toBase256, Numeral.convert, Numeral.padded, List.map_append,
    List.map_replicate]
  rfl

theorem b58decode_error (h : ∃ c ∈ cs, c ∉ b58) :
    b58decode (String.ofList cs) = .error (.valueError "substring not found") := by
  rw [b58decode, String.toList_ofList, foldlM_b58Index_error h]
  rfl

theorem mem_of_mem_b58encode (raw : Bytes) : ∀ c ∈ (b58encode raw).toList, c ∈ b58 := by
  intro c hc
  rw [b58encode, String.toList_ofList] at hc
  rcases List.mem_append.mp hc with hc | hc
  · rw [List.eq_of_mem_replicate hc]
    decide
  · obtain ⟨d, hd, rfl⟩ := List.mem_map.mp hc
    have hlt : d < b58.length := Nat.digits_lt_base (by decide) (List.mem_reverse.mp hd)
    rw [List.getD_eq_getElem?_getD, List.getElem?_eq_getElem hlt]
    exact List.getElem_mem hlt

theorem idxOf_getD {d : ℕ} (h : d < 58) : b58.idxOf (b58.getD d '1') = d := by
  have hnodup : b58.Nodup := by decide
  have hlt : d < b58.length := h
  rw [List.getD_eq_getElem?_getD, List.getElem?_eq_getElem hlt]
  exact hnodup.idxOf_getElem d hlt

theorem ofText_b58encode (h : ∀ c ∈ (b58encode raw).toList, c ∈ b58) :
    ofText (b58encode raw).toList h = toBase58 (ofBytes raw) := by
  apply Numeral.ext
  have hdigits : ((Nat.digits 58 (intFromBytes raw)).reverse.map (b58.getD · '1')).map b58.idxOf =
      (Nat.digits 58 (intFromBytes raw)).reverse :=
    map_map_eq_self fun d hd =>
      idxOf_getD (Nat.digits_lt_base (by decide) (List.mem_reverse.mp hd))
  have hone : b58.idxOf '1' = 0 := by decide
  show (b58encode raw).toList.map b58.idxOf =
    List.replicate (ofBytes raw).zeros 0 ++ (Nat.digits 58 (ofBytes raw).value).reverse
  rw [b58encode, String.toList_ofList, List.map_append, List.map_replicate, hone, hdigits,
    zeros_ofBytes, value_ofBytes]

/-! ## The bijection -/

theorem b58decode_b58encode (raw : Bytes) : b58decode (b58encode raw) = .ok raw := by
  have hmem := mem_of_mem_b58encode raw
  calc b58decode (b58encode raw)
      = b58decode (String.ofList (b58encode raw).toList) := by rw [String.ofList_toList]
    _ = .ok ((toBase256 (ofText _ hmem)).digits.map UInt8.ofNat) := b58decode_ofText hmem
    _ = .ok ((ofBytes raw).digits.map UInt8.ofNat) := by
        rw [ofText_b58encode, toBase256, toBase58, Numeral.convert_convert]
    _ = .ok raw := by rw [map_ofNat_digits]

theorem map_idxOf_inj (hcs : ∀ c ∈ cs, c ∈ b58) (h : cs.map b58.idxOf = ds.map b58.idxOf) :
    cs = ds := by
  induction cs generalizing ds with
  | nil => exact (List.map_eq_nil_iff.mp h.symm).symm
  | cons c cs ih =>
    cases ds with
    | nil => cases h
    | cons d ds =>
      obtain ⟨hc, hcs⟩ := List.forall_mem_cons.mp hcs
      obtain ⟨hhead, htail⟩ := List.cons.inj h
      rw [(List.idxOf_inj hc).mp hhead, ih hcs htail]

/-- Digits below 256 are bytes. -/
theorem map_ofNat_inj {m l : Numeral 256}
    (h : m.digits.map UInt8.ofNat = l.digits.map UInt8.ofNat) : m = l := by
  have htoNat : ∀ k : Numeral 256, (k.digits.map UInt8.ofNat).map UInt8.toNat = k.digits :=
    fun k => map_map_eq_self fun d hd => UInt8.toNat_ofNat_of_lt (k.lt d hd)
  apply Numeral.ext
  rw [← htoNat m, ← htoNat l, h]

/-- Two texts of the alphabet never stand for the same bytes. -/
theorem ofText_inj (hcs : ∀ c ∈ cs, c ∈ b58) (hds : ∀ c ∈ ds, c ∈ b58)
    (h : (toBase256 (ofText cs hcs)).digits.map UInt8.ofNat =
      (toBase256 (ofText ds hds)).digits.map UInt8.ofNat) : cs = ds := by
  have hnumeral : ofText cs hcs = ofText ds hds :=
    Numeral.convert_injective (by decide) (by decide) (map_ofNat_inj h)
  exact map_idxOf_inj hcs (congrArg Numeral.digits hnumeral)

theorem mem_of_b58decode_eq_ok {s : String} (h : b58decode s = .ok raw) :
    ∀ c ∈ s.toList, c ∈ b58 := by
  by_contra hnot
  push Not at hnot
  rw [← String.ofList_toList (s := s), b58decode_error hnot] at h
  cases h

/-- What is decoded is exactly what is encoded. -/
theorem b58decode_eq_ok_iff {s : String} : b58decode s = .ok raw ↔ b58encode raw = s := by
  constructor
  · intro h
    have hmem := mem_of_b58decode_eq_ok h
    have hencode := mem_of_mem_b58encode raw
    have hdecode := b58decode_b58encode raw
    rw [← String.ofList_toList (s := s), b58decode_ofText hmem] at h
    rw [← String.ofList_toList (s := b58encode raw), b58decode_ofText hencode] at hdecode
    exact String.toList_inj.mp
      (ofText_inj hencode hmem ((Except.ok.inj hdecode).trans (Except.ok.inj h).symm))
  · rintro rfl
    exact b58decode_b58encode raw

/-- Decoding gives all bytes back, and it never gives the same bytes twice. -/
theorem b58decode_bijective :
    (∀ raw, b58decode (b58encode raw) = .ok raw) ∧
    ∀ s t : String, (∀ c ∈ s.toList, c ∈ b58) → (∀ c ∈ t.toList, c ∈ b58) → s ≠ t →
      ∃ b c, b58decode s = .ok b ∧ b58decode t = .ok c ∧ b ≠ c := by
  refine ⟨b58decode_b58encode, ?_⟩
  intro s t hs ht hne
  refine ⟨_, _, String.ofList_toList ▸ b58decode_ofText hs,
    String.ofList_toList ▸ b58decode_ofText ht, ?_⟩
  intro heq
  exact hne (String.toList_inj.mp (ofText_inj hs ht heq))

end Base58
