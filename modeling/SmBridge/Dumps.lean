import SmBridge.Jcs
import SmBridge.Lib.PrefixCode
import SmBridge.Lib.Segments

/-!
# Compact `json.dumps` with sorted keys

What `json.dumps(_, sort_keys=True, separators=(",", ":"))` writes. All text is ASCII.
-/
namespace Dumps

open Python
open JsonValue
open PrefixCode
open Jcs (utf16Units joinCommas)

/-- `\uXXXX` -/
def escapeUnit (n : ℕ) : List Char :=
  ['\\', 'u', hexDigit (n / 4096 % 16), hexDigit (n / 256 % 16), hexDigit (n / 16 % 16),
    hexDigit (n % 16)]

/-- The escapes of `json.dumps` in ASCII. -/
def escapeAscii (c : Char) : List Char :=
  match c.toNat with
  | 0x22 => ['\\', '"']
  | 0x5c => ['\\', '\\']
  | 0x0a => ['\\', 'n']
  | 0x0d => ['\\', 'r']
  | 0x09 => ['\\', 't']
  | 0x0c => ['\\', 'f']
  | 0x08 => ['\\', 'b']
  | n => if 0x20 ≤ n ∧ n ≤ 0x7e then [c] else (utf16Units c).flatMap escapeUnit

def dumpsStr (s : String) : List Char := '"' :: s.toList.flatMap escapeAscii ++ ['"']

def dumpsMember (member : String × List Char) : List Char :=
  dumpsStr member.1 ++ ':' :: member.2

/-- `sorted(items)`: the keys are distinct, so the values are never compared. -/
def sortMembers {α : Type} (members : List (String × α)) : List (String × α) :=
  members.insertionSort fun a b => a.1 ≤ b.1

section Definitions

variable (python : Interpreter)

def dumpsFloat : PyFloat → List Char
  | .nan => "NaN".toList
  | .posInf => "Infinity".toList
  | .negInf => "-Infinity".toList
  | x => (python.repr (.float x)).toList

mutual

/-- The members are written before they are sorted, which only their keys decide. -/
def dumps : Json → List Char
  | .null => "null".toList
  | .bool true => "true".toList
  | .bool false => "false".toList
  | .int n => (toString n).toList
  | .float x => dumpsFloat python x
  | .str s => dumpsStr s
  | .arr xs => '[' :: joinCommas (dumpsElements xs) ++ [']']
  | .obj fields =>
    '\x7b' :: joinCommas ((sortMembers (dumpsFields fields)).map dumpsMember) ++ ['\x7d']

def dumpsElements : List Json → List (List Char)
  | [] => []
  | x :: xs => dumps x :: dumpsElements xs

def dumpsFields : List (String × Json) → List (String × List Char)
  | [] => []
  | (key, value) :: fields => (key, dumps value) :: dumpsFields fields

end

/-- `json.dumps(…).encode("utf-8")` -/
def dumpsBytes (value : Json) : Bytes := encodeUtf8 (String.ofList (dumps python value))

theorem dumpsElements_eq (xs : List Json) : dumpsElements python xs = xs.map (dumps python) := by
  induction xs with
  | nil => rfl
  | cons x xs ih => rw [dumpsElements, ih, List.map_cons]

theorem dumpsFields_eq (fields : List (String × Json)) :
    dumpsFields python fields = fields.map (Prod.map id (dumps python)) := by
  induction fields with
  | nil => rfl
  | cons field fields ih => rw [dumpsFields, ih, List.map_cons, Prod.map, id]

end Definitions

/-! ## Texts can be read back -/

def digitValue (c : Char) : ℕ := "0123456789abcdef".toList.idxOf c

def unitValue (a b c d : Char) : ℕ :=
  ((digitValue a * 16 + digitValue b) * 16 + digitValue c) * 16 + digitValue d

/-- The character that the text starts with, escaped or not. -/
def readChar : List Char → Option Char
  | '\\' :: 'u' :: a :: b :: c :: d :: rest =>
    let high := unitValue a b c d
    if 0xd800 ≤ high ∧ high < 0xdc00 then
      match rest with
      | '\\' :: 'u' :: a :: b :: c :: d :: _ =>
        some (Char.ofNat (0x10000 + (high - 0xd800) * 0x400 + (unitValue a b c d - 0xdc00)))
      | _ => none
    else some (Char.ofNat high)
  | '\\' :: 'n' :: _ => some '\n'
  | '\\' :: 'r' :: _ => some '\r'
  | '\\' :: 't' :: _ => some '\t'
  | '\\' :: 'f' :: _ => some '\x0c'
  | '\\' :: 'b' :: _ => some '\x08'
  | '\\' :: c :: _ => some c
  | c :: _ => some c
  | [] => none

theorem digitValue_hexDigit : ∀ v < 16, digitValue (hexDigit v) = v := by
  decide +kernel

theorem unitValue_hexDigit {n : ℕ} (hn : n < 0x10000) :
    unitValue (hexDigit (n / 4096 % 16)) (hexDigit (n / 256 % 16)) (hexDigit (n / 16 % 16))
      (hexDigit (n % 16)) = n := by
  simp only [unitValue, digitValue_hexDigit _ (Nat.mod_lt _ (by decide : 0 < 16))]
  omega

theorem readChar_plain {c : Char} (hc : c ≠ '\\') (s : List Char) :
    readChar (c :: s) = some c := by
  unfold readChar
  split <;> simp_all

theorem readChar_unit {n : ℕ} (hn : n < 0xd800 ∨ 0xdfff < n ∧ n < 0x10000) (s : List Char) :
    readChar (escapeUnit n ++ s) = some (Char.ofNat n) := by
  have hvalue := unitValue_hexDigit (show n < 0x10000 by omega)
  simp only [escapeUnit, List.cons_append, List.nil_append, readChar, hvalue]
  rw [if_neg (by omega)]

theorem readChar_pair {high low : ℕ} (hhigh : 0xd800 ≤ high ∧ high < 0xdc00)
    (hlow : low < 0x10000) (s : List Char) :
    readChar (escapeUnit high ++ (escapeUnit low ++ s)) =
      some (Char.ofNat (0x10000 + (high - 0xd800) * 0x400 + (low - 0xdc00))) := by
  have hvalue := unitValue_hexDigit (show high < 0x10000 by omega)
  have hvalue' := unitValue_hexDigit hlow
  simp only [escapeUnit, List.cons_append, List.nil_append, readChar, hvalue, hvalue']
  rw [if_pos hhigh]

theorem readChar_units (c : Char) (s : List Char) :
    readChar ((utf16Units c).flatMap escapeUnit ++ s) = some c := by
  have hvalid : c.toNat < 0xd800 ∨ 0xdfff < c.toNat ∧ c.toNat < 0x110000 := c.valid
  rw [utf16Units]
  split
  · rename_i hplane
    rw [List.flatMap_cons, List.flatMap_nil, List.append_nil, readChar_unit (by omega),
      Char.ofNat_toNat]
  · rename_i hplane
    rw [List.flatMap_cons, List.flatMap_cons, List.flatMap_nil, List.append_nil, List.append_assoc,
      readChar_pair (by omega) (by omega)]
    have hsum : 0x10000 + (0xd800 + (c.toNat - 0x10000) / 0x400 - 0xd800) * 0x400 +
        (0xdc00 + (c.toNat - 0x10000) % 0x400 - 0xdc00) = c.toNat := by omega
    rw [hsum, Char.ofNat_toNat]

theorem readChar_escapeAscii (c : Char) (s : List Char) :
    readChar (escapeAscii c ++ s) = some c := by
  have hnamed : ∀ d : Char, c.toNat = d.toNat → c = d := fun d h => Char.toNat_inj.mp h
  unfold escapeAscii
  split
  · rename_i h
    rw [hnamed '"' h]
    rfl
  · rename_i h
    rw [hnamed '\\' h]
    rfl
  · rename_i h
    rw [hnamed '\n' h]
    rfl
  · rename_i h
    rw [hnamed '\r' h]
    rfl
  · rename_i h
    rw [hnamed '\t' h]
    rfl
  · rename_i h
    rw [hnamed '\x0c' h]
    rfl
  · rename_i h
    rw [hnamed '\x08' h]
    rfl
  · rename_i hbackslash _ _ _ _ _
    split
    · refine readChar_plain ?_ s
      rintro rfl
      exact hbackslash rfl
    · exact readChar_units c s

/-- No escape starts with a quotation mark. -/
theorem escapeAscii_ne_quote (c : Char) (s t : List Char) : escapeAscii c ++ s ≠ '"' :: t := by
  intro h
  have hread := readChar_escapeAscii c s
  rw [h] at hread
  obtain rfl : '"' = c := Option.some.inj hread
  exact absurd (List.cons.inj h).1 (by decide)

theorem escapeAscii_isPrefixCode : IsPrefixCode escapeAscii '"' where
  word_inj c d s t h := by
    have hread := congrArg readChar h
    rwa [readChar_escapeAscii, readChar_escapeAscii, Option.some_inj] at hread
  word_ne_stop := escapeAscii_ne_quote

theorem hexDigit_ne_quote : ∀ v < 16, hexDigit v ≠ '"' := by
  decide +kernel

theorem quote_notMem_escapeUnit (n : ℕ) : '"' ∉ escapeUnit n := by
  have hdigit : ∀ m, '"' ≠ hexDigit (m % 16) := fun m =>
    (hexDigit_ne_quote _ (Nat.mod_lt m (by decide))).symm
  simp [escapeUnit, hdigit]

theorem quote_notMem_escapeAscii {c : Char} (hc : c ≠ '"') : '"' ∉ escapeAscii c := by
  unfold escapeAscii
  split
  · rename_i h
    exact absurd (Char.toNat_inj.mp h) hc
  all_goals try exact of_decide_eq_false rfl
  split
  · simpa using hc.symm
  · intro hmem
    obtain ⟨n, -, hunit⟩ := List.mem_flatMap.mp hmem
    exact quote_notMem_escapeUnit n hunit

theorem escapeAscii_guarded (c : Char) : Guarded '"' '\\' (escapeAscii c) := by
  by_cases hc : c = '"'
  · subst c
    rintro (- | ⟨x, - | ⟨y, before⟩⟩) after h
    · exact absurd (List.cons.inj h).1 (by decide)
    · rw [← (List.cons.inj h).1]
      rfl
    · have hlength := congrArg List.length h
      change 2 = _ at hlength
      simp at hlength
  · exact guarded_of_notMem (quote_notMem_escapeAscii hc)

/-- A text in quotation marks is read back from the front. -/
theorem dumpsStr_inj {s t : String} {xs ys : List Char}
    (h : dumpsStr s ++ xs = dumpsStr t ++ ys) : s = t ∧ xs = ys := by
  simp only [dumpsStr, List.cons_append, List.append_assoc] at h
  obtain ⟨htext, hrest⟩ := escapeAscii_isPrefixCode.flatMap_inj (List.cons.inj h).2
  exact ⟨String.toList_injective htext, hrest⟩

/-- And from the back, behind anything but a backslash. -/
theorem dumpsStr_inj_back {s t : String} {xs ys : List Char} {c : Char} (hc : c ≠ '\\')
    (h : xs ++ c :: dumpsStr s = ys ++ c :: dumpsStr t) : xs = ys ∧ s = t := by
  have hguarded : ∀ u : String, Guarded '"' '\\' (u.toList.flatMap escapeAscii) := fun u =>
    guarded_flatMap escapeAscii_guarded u.toList
  have hopen : (xs ++ c :: '"' :: s.toList.flatMap escapeAscii) ++ ['"'] =
      (ys ++ c :: '"' :: t.toList.flatMap escapeAscii) ++ ['"'] := by
    simpa [dumpsStr] using h
  obtain ⟨hfront, htext⟩ := (hguarded s).inj (hguarded t) hc (List.append_cancel_right hopen)
  have hquoted : dumpsStr s ++ [] = dumpsStr t ++ [] := by rw [dumpsStr, dumpsStr, htext]
  exact ⟨hfront, (dumpsStr_inj hquoted).1⟩

theorem toList_natCast (n : ℕ) : (toString (n : ℤ)).toList = Nat.toDigits 10 n := by
  have hrepr : toString (n : ℤ) = n.repr := rfl
  rw [hrepr, Nat.toList_repr]

/-- A number is read back from the back, behind anything but a digit. -/
theorem natCast_inj_back {n m : ℕ} {xs ys : List Char} {c : Char} (hc : c.isDigit = false)
    (h : xs ++ c :: (toString (n : ℤ)).toList = ys ++ c :: (toString (m : ℤ)).toList) :
    xs = ys ∧ n = m := by
  have hdigits : ∀ k : ℕ, Segments.afterLast c (Nat.toDigits 10 k) = Nat.toDigits 10 k := by
    intro k
    refine Segments.afterLast_eq_self.mpr fun hmem => ?_
    rw [isDigit_of_mem_toDigits hmem] at hc
    cases hc
  rw [toList_natCast, toList_natCast] at h
  have hnumber := congrArg (Segments.afterLast c) h
  rw [Segments.afterLast_cons, Segments.afterLast_cons, hdigits, hdigits] at hnumber
  rw [hnumber] at h
  exact ⟨List.append_cancel_right h, toDigits_inj hnumber⟩

end Dumps
