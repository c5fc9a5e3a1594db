import SmBridge.CanonicalJson

/-!
# The form of RFC 8785

The canonical form, stated on its own: strings and numbers as in section 3.2.2, and the members
of every object in increasing order of the UTF-16 code units of their names. `jcs_canonical`
returns it. `canonicalize` returns it as long as no object holds a pair of mixed keys.
-/
namespace Rfc8785

open Python
open JsonValue
open Jcs (jcsCanonical utf16Units)
open Ed25519AgentCard (canonicalize)
open KeyedTrees
open TreeText
open KeyOrder
open CanonicalJson

/-! ## The form -/

def shortEscapes : List (Char × Char) :=
  [('\x08', 'b'), ('\t', 't'), ('\n', 'n'), ('\x0c', 'f'), ('\r', 'r'), ('"', '"'), ('\\', '\\')]

def writeChar (c : Char) : List Char :=
  match shortEscapes.find? (·.1 == c) with
  | some escape => ['\\', escape.2]
  | none =>
    if c.toNat < 0x20 then ['\\', 'u', '0', '0', hexDigit (c.toNat / 16), hexDigit (c.toNat % 16)]
    else [c]

def writeString (s : String) : List Char := '"' :: s.toList.flatMap writeChar ++ ['"']

/-- An integer that a double holds exactly. -/
def writeInt (n : ℤ) : List Char :=
  if n < 0 then '-' :: Nat.toDigits 10 n.natAbs else Nat.toDigits 10 n.natAbs

def writeScalar : Scalar → List Char
  | .null => ['n', 'u', 'l', 'l']
  | .bool true => ['t', 'r', 'u', 'e']
  | .bool false => ['f', 'a', 'l', 's', 'e']
  | .int n => writeInt n
  | .str s => writeString s

def form : Format Scalar String Char where
  leaf := writeScalar
  key := writeString
  openList := '['
  closeList := ']'
  openRecord := '\x7b'
  closeRecord := '\x7d'
  colon := ':'
  comma := ','

def codeUnits (s : String) : List ℕ := s.toList.flatMap utf16Units

/-- The text is the canonical form of the value. -/
def Form (t : Tree Scalar String) (text : String) : Prop :=
  ∃ s : Tree Scalar String, t.Same s ∧
    s.Everywhere (fun _ => True) (List.Pairwise fun a b => codeUnits a < codeUnits b) ∧
    text = String.ofList (form.write s)

def Scalar.Exact (a : Scalar) : Prop := ∀ n, a = .int n → n.natAbs ≤ 2 ^ 53

/-- A value whose numbers are doubles. -/
structure IJson extends PlainJson where
  exact : tree.Everywhere Scalar.Exact fun _ => True

/-! ## `jcs_canonical` -/

theorem escape_of_le {c : Char} (h : 0x80 ≤ c.toNat) : Jcs.escape c = [c] := by
  unfold Jcs.escape
  split
  case h_8 => exact if_neg (by omega)
  all_goals omega

theorem writeChar_of_le {c : Char} (h : 0x80 ≤ c.toNat) : writeChar c = [c] := by
  have hascii : ∀ escape ∈ shortEscapes, escape.1.toNat < 0x80 := by decide
  have hnone : shortEscapes.find? (·.1 == c) = none := by
    refine List.find?_eq_none.mpr fun escape hescape heq => ?_
    have hlow := hascii escape hescape
    rw [eq_of_beq heq] at hlow
    omega
  rw [writeChar, hnone]
  exact if_neg (by omega)

theorem writeChar_eq (c : Char) : writeChar c = Jcs.escape c := by
  by_cases hlow : c.toNat < 0x80
  · have htable : ∀ n < 0x80, writeChar (Char.ofNat n) = Jcs.escape (Char.ofNat n) := by
      decide +kernel
    rw [← Char.ofNat_toNat c]
    exact htable c.toNat hlow
  · rw [escape_of_le (not_lt.mp hlow), writeChar_of_le (not_lt.mp hlow)]

theorem writeString_eq (s : String) : writeString s = Jcs.dumpsStr s := by
  rw [writeString, List.flatMap_congr fun c _ => writeChar_eq c]
  rfl

theorem form_eq : form = format := by
  have hleaf : writeScalar = Scalar.text := by
    funext a
    cases a with
    | null => rfl
    | bool b => cases b <;> rfl
    | int n => exact (toList_int n).symm
    | str s => exact writeString_eq s
  have hkey : writeString = Jcs.dumpsStr := funext writeString_eq
  rw [form, format, hleaf, hkey]

theorem codeUnits_lt_iff {a b : String} : codeUnits a < codeUnits b ↔ utf16Le a b ∧ a ≠ b := by
  have hunits : codeUnits a < codeUnits b ↔ a.toList.map rank < b.toList.map rank := by
    rw [← keepsOrder_singleton.encoded_lt, List.flatMap_singleton', List.flatMap_singleton']
    rfl
  rw [hunits]
  constructor
  · intro h
    refine ⟨utf16Le_iff.mpr (List.lt_asymm h), ?_⟩
    intro heq
    exact List.lt_irrefl _ (heq ▸ h)
  · intro ⟨hle, hne⟩
    by_contra h
    exact hne (antisymm hle (utf16Le_iff.mpr h))

/-- The canonical form exists, and there is only one. -/
theorem form_iff {t : Tree Scalar String} (ht : t.Distinct) {text : String} :
    Form t text ↔ text = String.ofList (format.write (t.normalize utf16Le)) := by
  have hsorted : ∀ s : Tree Scalar String,
      (s.Everywhere (fun _ => True) (List.Pairwise fun a b => codeUnits a < codeUnits b) ↔
        s.Sorted utf16Le) := by
    intro s
    exact ⟨.imp (fun _ => id) fun _ hkeys => hkeys.imp codeUnits_lt_iff.mp,
      .imp (fun _ => id) fun _ hkeys => hkeys.imp codeUnits_lt_iff.mpr⟩
  constructor
  · intro h
    obtain ⟨s, hsame, hs, rfl⟩ := h
    rw [(Tree.same_sorted_iff ht).mp ⟨hsame, (hsorted s).mp hs⟩, form_eq]
  · intro h
    have hnormal : t.Same (t.normalize utf16Le) ∧ (t.normalize utf16Le).Sorted utf16Le :=
      (Tree.same_sorted_iff ht).mpr rfl
    exact ⟨_, hnormal.1, (hsorted _).mpr hnormal.2, by rw [h, form_eq]⟩

/-- `jcs_canonical` returns the canonical form. -/
theorem jcsCanonical_form (v : PlainJson) :
    ∃ text, Form v.tree text ∧ jcsCanonical v.json = .ok (encodeUtf8 text) :=
  ⟨_, (form_iff v.distinct).mpr rfl, jcsCanonical_json v.tree⟩

/-! ## `canonicalize` -/

/-- Within no object, the order of the keys depends on the encoding. -/
def Unmixed (t : Tree Scalar String) : Prop :=
  t.Everywhere (fun _ => True) fun keys =>
    ∀ k ∈ keys, ∀ k' ∈ keys, mixed k.toList k'.toList = false

theorem canonicalize_eq_jcsCanonical_iff (python : Interpreter) (v : PlainJson) :
    canonicalize python v.json = jcsCanonical v.json ↔ Unmixed v.tree := by
  rw [PlainJson.json, canonicalize_json, jcsCanonical_json, Except.ok.injEq,
    bytes_injective.eq_iff, Tree.normalize_eq_iff_agree v.distinct, Unmixed]
  simp only [le_iff_utf16Le]

/-- Both serializers return the canonical form exactly if no object has a pair of mixed keys. -/
theorem canonical_form_iff (python : Interpreter) (v : IJson) :
    (∃ text, Form v.tree text ∧ canonicalize python v.json = .ok (encodeUtf8 text) ∧
      jcsCanonical v.json = .ok (encodeUtf8 text)) ↔ Unmixed v.tree := by
  rw [← canonicalize_eq_jcsCanonical_iff python]
  constructor
  · intro h
    obtain ⟨text, -, hcanonicalize, hjcs⟩ := h
    rw [hcanonicalize, hjcs]
  · intro h
    obtain ⟨text, hform, hjcs⟩ := jcsCanonical_form v.toPlainJson
    exact ⟨text, hform, h.trans hjcs, hjcs⟩

/-- A character of the private use area and an emoji. -/
def crossedTree : Tree Scalar String := .record [("\ue000", .leaf .null), ("😀", .leaf .null)]

theorem crossedTree_everywhere {q : List String → Prop} (h : q ["\ue000", "😀"]) :
    crossedTree.Everywhere Scalar.Exact q := by
  refine .record h ?_
  have hnull : (Tree.leaf Scalar.null : Tree Scalar String).Everywhere Scalar.Exact q :=
    .leaf nofun
  exact List.forall_mem_cons.mpr ⟨hnull, List.forall_mem_cons.mpr ⟨hnull, nofun⟩⟩

def crossedKeys : IJson where
  tree := crossedTree
  distinct := (crossedTree_everywhere (by decide)).imp (fun _ _ => trivial) fun _ => id
  exact := crossedTree_everywhere trivial

theorem crossedKeys_no_form : ¬ ∃ (python : Interpreter) (text : String),
    Form crossedKeys.tree text ∧ canonicalize python crossedKeys.json = .ok (encodeUtf8 text) ∧
      jcsCanonical crossedKeys.json = .ok (encodeUtf8 text) := by
  intro h
  obtain ⟨python, text, -, hcanonicalize, hjcs⟩ := h
  have hunmixed : Unmixed crossedTree :=
    (canonicalize_eq_jcsCanonical_iff python _).mp (hcanonicalize.trans hjcs.symm)
  cases hunmixed with
  | record hkeys _ => exact absurd (hkeys "\ue000" (by decide) "😀" (by decide)) (by decide)

end Rfc8785
