import SmBridge.Lib.Segments
import SmBridge.Python

/-! # Python's string methods -/
namespace Text

open Python
open Segments

/-- `s.split(c, 1)[0]` -/
def head (c : Char) (s : String) : String := String.ofList (beforeFirst c s.toList)

/-- `s.partition(c)[2]` -/
def tail (c : Char) (s : String) : String := String.ofList (afterFirst c s.toList)

/-- `s.rsplit(c, 1)[-1]`, and `s.split(c)[-1]` as well. -/
def lastPart (c : Char) (s : String) : String := String.ofList (afterLast c s.toList)

def startsWith (s start : String) : Bool := start.toList.isPrefixOf s.toList

/-- `s[len(start):]` -/
def dropStart (start s : String) : String := String.ofList (s.toList.drop start.toList.length)

/-- What follows the first occurrence of `sep`. -/
def afterText (sep : List Char) : List Char → Option (List Char)
  | [] => none
  | c :: cs =>
    if sep.isPrefixOf (c :: cs) then some ((c :: cs).drop sep.length) else afterText sep cs

/-- `s.split(sep, 1)[-1]` -/
def afterFirstText (sep s : String) : String :=
  String.ofList ((afterText sep.toList s.toList).getD s.toList)

/-- The first `skip` characters belong to an occurrence that has been replaced. -/
def replaceFrom (old new : List Char) (skip : ℕ) : List Char → List Char
  | [] => []
  | c :: cs =>
    match skip with
    | skip + 1 => replaceFrom old new skip cs
    | 0 =>
      if old.isPrefixOf (c :: cs) then new ++ replaceFrom old new (old.length - 1) cs
      else c :: replaceFrom old new 0 cs

/-- `s.replace(old, new)` for a text `old` that is not empty. -/
def replace (old new s : String) : String :=
  String.ofList (replaceFrom old.toList new.toList 0 s.toList)

def isAscii (s : String) : Prop := ∀ c ∈ s.toList, c.toNat < 128

/-- `str.lower` and `str.title`, with what is true of the Unicode tables behind them. -/
structure Casing where
  lower : String → String
  title : String → String
  lower_lower : ∀ s, lower (lower s) = lower s
  /-- A lower-case ASCII text at the front is left as it is, whatever follows it. -/
  lower_append : ∀ s t, isAscii s → s.toLower = s → s.toList <+: (lower (s ++ t)).toList
  colon_of_lower : ∀ s, ':' ∈ (lower s).toList → ':' ∈ s.toList

/-! ## Methods on characters -/

theorem startsWith_iff {s start : String} :
    startsWith s start = true ↔ start.toList <+: s.toList := by
  rw [startsWith, List.isPrefixOf_iff_prefix]

@[simp] theorem toList_head (c : Char) (s : String) :
    (head c s).toList = beforeFirst c s.toList := by
  rw [head, String.toList_ofList]

@[simp] theorem toList_tail (c : Char) (s : String) :
    (tail c s).toList = afterFirst c s.toList := by
  rw [tail, String.toList_ofList]

@[simp] theorem toList_lastPart (c : Char) (s : String) :
    (lastPart c s).toList = afterLast c s.toList := by
  rw [lastPart, String.toList_ofList]

@[simp] theorem toList_dropStart (start s : String) :
    (dropStart start s).toList = s.toList.drop start.toList.length := by
  rw [dropStart, String.toList_ofList]

/-! ## Replacements -/

theorem replaceFrom_of_absent {old new cs : List Char} (h : ¬ old <:+: cs) :
    replaceFrom old new 0 cs = cs := by
  induction cs with
  | nil => rfl
  | cons c cs ih =>
    have hnot : old.isPrefixOf (c :: cs) = false := by
      rw [← Bool.not_eq_true, List.isPrefixOf_iff_prefix]
      exact fun hstart => h hstart.isInfix
    rw [replaceFrom, hnot, if_neg Bool.false_ne_true]
    rw [ih fun hinside => h (hinside.trans (List.suffix_cons c cs).isInfix)]

theorem replaceFrom_skip (old new skipped cs : List Char) :
    replaceFrom old new skipped.length (skipped ++ cs) = replaceFrom old new 0 cs := by
  induction skipped with
  | nil => rfl
  | cons c skipped ih => exact ih

theorem replaceFrom_append {old : List Char} (hold : old ≠ []) (new cs : List Char) :
    replaceFrom old new 0 (old ++ cs) = new ++ replaceFrom old new 0 cs := by
  obtain ⟨c, rest, rfl⟩ := List.exists_cons_of_ne_nil hold
  have hstart : (c :: rest).isPrefixOf (c :: (rest ++ cs)) = true :=
    List.isPrefixOf_iff_prefix.mpr (List.prefix_append (c :: rest) cs)
  rw [List.cons_append, replaceFrom, if_pos hstart]
  exact congrArg (new ++ ·) (replaceFrom_skip _ new rest cs)

@[simp] theorem toList_replace (old new s : String) :
    (replace old new s).toList = replaceFrom old.toList new.toList 0 s.toList := by
  rw [replace, String.toList_ofList]

theorem afterText_of_absent {sep cs : List Char} (h : ¬ sep <:+: cs) : afterText sep cs = none := by
  induction cs with
  | nil => rfl
  | cons c cs ih =>
    have hstart : ¬ sep.isPrefixOf (c :: cs) = true := fun hsep =>
      h (List.isPrefixOf_iff_prefix.mp hsep).isInfix
    rw [afterText, if_neg hstart]
    exact ih fun hrest => h (hrest.trans (List.suffix_cons c cs).isInfix)

/-! ## Stripping -/

theorem toList_rstrip (c : Char) (s : String) :
    (rstrip c s).toList = s.toList.rdropWhile (· == c) := by
  rw [rstrip, String.toList_ofList, List.rdropWhile]

theorem exists_rstrip (c : Char) (s : String) :
    ∃ n, s.toList = (rstrip c s).toList ++ List.replicate n c := by
  have hall : ∀ d ∈ s.toList.rtakeWhile (· == c), d = c := fun d hd => by
    simpa using List.mem_rtakeWhile_imp hd
  refine ⟨(s.toList.rtakeWhile (· == c)).length, ?_⟩
  rw [toList_rstrip, ← List.eq_replicate_of_mem hall, List.rdropWhile_append_rtakeWhile]

theorem getLast_rstrip (c : Char) (s : String) : (rstrip c s).toList.getLast? ≠ some c := by
  rw [toList_rstrip]
  intro hlast
  have hne : s.toList.rdropWhile (· == c) ≠ [] := by
    intro hnil
    rw [hnil] at hlast
    cases hlast
  rw [List.getLast?_eq_some_getLast hne, Option.some_inj] at hlast
  exact List.rdropWhile_last_not _ _ hne (by simp [hlast])

/-! ## The casing of ASCII texts -/

theorem toNat_toLower (c : Char) : c.toLower.toNat =
    if 65 ≤ c.toNat ∧ c.toNat ≤ 90 then c.toNat + 32 else c.toNat := by
  delta Char.toLower
  have hiff : c.val ≥ 'A'.val ∧ c.val ≤ 'Z'.val ↔ 65 ≤ c.toNat ∧ c.toNat ≤ 90 := Iff.rfl
  by_cases h : 65 ≤ c.toNat ∧ c.toNat ≤ 90
  · rw [dif_pos (hiff.mpr h), if_pos h]
    change (c.val + ('a'.val - 'A'.val)).toNat = c.val.toNat + 32
    have hle : c.val.toNat ≤ 90 := h.2
    rw [UInt32.toNat_add]
    change (c.val.toNat + 32) % 2 ^ 32 = c.val.toNat + 32
    omega
  · rw [dif_neg (mt hiff.mp h), if_neg h]

theorem toLower_toLower (c : Char) : c.toLower.toLower = c.toLower := by
  apply Char.toNat_inj.mp
  rw [toNat_toLower c.toLower, if_neg]
  rw [toNat_toLower]
  split <;> omega

theorem colon_of_toLower {c : Char} (h : c.toLower = ':') : c = ':' := by
  have hnat := congrArg Char.toNat h
  rw [toNat_toLower] at hnat
  apply Char.toNat_inj.mp
  change _ = 58 at hnat
  change _ = 58
  split at hnat <;> omega

/-- The first letter of a word is put in upper case, and the others in lower case. -/
def titleFrom (inWord : Bool) : List Char → List Char
  | [] => []
  | c :: cs => (if inWord then c.toLower else c.toUpper) :: titleFrom c.isAlpha cs

theorem toList_toLower (s : String) : s.toLower.toList = s.toList.map Char.toLower :=
  String.toList_map

def asciiCasing : Casing where
  lower := String.toLower
  title s := String.ofList (titleFrom false s.toList)
  lower_lower s := by
    apply String.toList_injective
    simp only [toList_toLower, List.map_map]
    exact List.map_congr_left fun c _ => toLower_toLower c
  lower_append s t _ hlower := by
    simp only [toList_toLower, String.toList_append, List.map_append]
    rw [← toList_toLower, hlower]
    exact List.prefix_append _ _
  colon_of_lower s h := by
    rw [toList_toLower] at h
    obtain ⟨c, hc, hcolon⟩ := List.mem_map.mp h
    exact colon_of_toLower hcolon ▸ hc

end Text
