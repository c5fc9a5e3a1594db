import SmBridge.Ed25519AgentCard
import SmBridge.KeyOrder
import SmBridge.Lib.TreeText

/-!
# What the canonical bytes tell

A JSON value without floats is a tree of scalars. Both serializers write the normal form of
this tree, each in its own order of the keys, so equal bytes mean the same value.
-/
namespace CanonicalJson

open Python
open Attempts
open JsonValue
open Jcs (escape dumpsStr joinCommas serMember jcsCanonical)
open Ed25519AgentCard (canonicalize)
open KeyedTrees
open PrefixCode
open TreeText
open KeyOrder

inductive Scalar where
  | null
  | bool (b : Bool)
  | int (n : ℤ)
  | str (s : String)
  deriving DecidableEq, Repr

def Scalar.json : Scalar → Json
  | .null => .null
  | .bool b => .bool b
  | .int n => .int n
  | .str s => .str s

mutual

def json : Tree Scalar String → Json
  | .leaf a => a.json
  | .list xs => .arr (jsonElements xs)
  | .record fields => .obj (jsonFields fields)

def jsonElements : List (Tree Scalar String) → List Json
  | [] => []
  | x :: xs => json x :: jsonElements xs

def jsonFields : List (String × Tree Scalar String) → List (String × Json)
  | [] => []
  | (key, value) :: fields => (key, json value) :: jsonFields fields

end

/-- A JSON value of scalars other than floats, each key of an object there once. -/
structure PlainJson where
  tree : Tree Scalar String
  distinct : tree.Distinct

def PlainJson.json (v : PlainJson) : Json := CanonicalJson.json v.tree

theorem jsonElements_eq (xs : List (Tree Scalar String)) : jsonElements xs = xs.map json := by
  induction xs with
  | nil => rfl
  | cons x xs ih => rw [jsonElements, ih, List.map_cons]

theorem jsonFields_eq (fields : List (String × Tree Scalar String)) :
    jsonFields fields = fields.map (Prod.map id json) := by
  induction fields with
  | nil => rfl
  | cons field fields ih => rw [jsonFields, ih, List.map_cons, Prod.map, id]

/-! ## The text of a tree -/

def Scalar.text : Scalar → List Char
  | .null => "null".toList
  | .bool b => if b then "true".toList else "false".toList
  | .int n => (toString n).toList
  | .str s => dumpsStr s

def format : Format Scalar String Char where
  leaf := Scalar.text
  key := dumpsStr
  openList := '['
  closeList := ']'
  openRecord := '\x7b'
  closeRecord := '\x7d'
  colon := ':'
  comma := ','

/-- The text of a scalar, when strings are written by `quote`. -/
def Scalar.textBy (quote : String → List Char) : Scalar → List Char
  | .null => "null".toList
  | .bool b => if b then "true".toList else "false".toList
  | .int n => (toString n).toList
  | .str s => quote s

def formatBy (quote : String → List Char) : Format Scalar String Char :=
  { format with leaf := Scalar.textBy quote, key := quote }

/-- Strings are written between quotation marks, and can be read back. -/
structure Quotes (quote : String → List Char) : Prop where
  code : IsPrefixCode quote '\x7d'
  opens : ∀ s, ∃ rest, quote s = '"' :: rest

theorem format_eq : format = formatBy dumpsStr := by
  have hleaf : Scalar.text = Scalar.textBy dumpsStr := by
    funext a
    cases a <;> rfl
  rw [formatBy, ← hleaf]
  rfl

/-! ### Strings -/

theorem readChar_escape (c : Char) (s : List Char) :
    Dumps.readChar (escape c ++ s) = some c := by
  have hnamed : ∀ d : Char, c.toNat = d.toNat → c = d := fun d h => Char.toNat_inj.mp h
  unfold escape
  split
  · rename_i h
    rw [hnamed '"' h]
    rfl
  · rename_i h
    rw [hnamed '\\' h]
    rfl
  · rename_i h
    rw [hnamed '\n' h]
    rfl
  · rename_i h
    rw [hnamed '\r' h]
    rfl
  · rename_i h
    rw [hnamed '\t' h]
    rfl
  · rename_i h
    rw [hnamed '\x0c' h]
    rfl
  · rename_i h
    rw [hnamed '\x08' h]
    rfl
  · rename_i hbackslash _ _ _ _ _
    split
    · rename_i hlow
      have hunit : "\\u00".toList ++ [hexDigit (c.toNat / 16), hexDigit (c.toNat % 16)] =
          Dumps.escapeUnit c.toNat := by
        rw [Dumps.escapeUnit, show c.toNat / 4096 % 16 = 0 by omega,
          show c.toNat / 256 % 16 = 0 by omega, show c.toNat / 16 % 16 = c.toNat / 16 by omega]
        rfl
      rw [hunit, Dumps.readChar_unit (by omega), Char.ofNat_toNat]
    · refine Dumps.readChar_plain ?_ s
      intro h
      exact hbackslash (by rw [h]; rfl)

theorem escape_isPrefixCode : IsPrefixCode escape '"' where
  word_inj c d s t h := by
    have hread := congrArg Dumps.readChar h
    rwa [readChar_escape, readChar_escape, Option.some_inj] at hread
  word_ne_stop c s t h := by
    have hread := readChar_escape c s
    rw [h] at hread
    obtain rfl : '"' = c := Option.some.inj hread
    exact absurd (List.cons.inj h).1 (by decide)

theorem dumpsStr_isPrefixCode : IsPrefixCode dumpsStr '\x7d' where
  word_inj a b s t h := by
    have htext : a.toList.flatMap escape ++ '"' :: s = b.toList.flatMap escape ++ '"' :: t := by
      simpa [dumpsStr] using h
    exact String.toList_injective (escape_isPrefixCode.flatMap_inj htext).1
  word_ne_stop a s t h := absurd (List.cons.inj h).1 (by decide)

theorem dumpsStr_quotes : Quotes dumpsStr where
  code := dumpsStr_isPrefixCode
  opens s := ⟨s.toList.flatMap escape ++ ['"'], rfl⟩

/-! ### Numbers -/

def numberChar (c : Char) : Bool := c.isDigit || c == '-'

theorem toList_int (n : ℤ) :
    (toString n).toList =
      if n < 0 then '-' :: Nat.toDigits 10 n.natAbs else Nat.toDigits 10 n.natAbs := by
  cases n with
  | ofNat n => exact Dumps.toList_natCast n
  | negSucc n =>
    have hrepr : toString (Int.negSucc n) = "-" ++ (n + 1).repr := rfl
    rw [hrepr, String.toList_append, Nat.toList_repr, if_pos (Int.negSucc_lt_zero n)]
    rfl

theorem numberChar_int {n : ℤ} {c : Char} (hc : c ∈ (toString n).toList) :
    numberChar c = true := by
  have hdigits : ∀ m, c ∈ Nat.toDigits 10 m → numberChar c = true := by
    intro m hm
    rw [numberChar, isDigit_of_mem_toDigits hm, Bool.true_or]
  rw [toList_int] at hc
  split at hc
  · rcases List.mem_cons.mp hc with h | h
    · rw [h]
      rfl
    · exact hdigits _ h
  · exact hdigits _ hc

theorem toDigits_ne_minus {n : ℕ} {s : List Char} : Nat.toDigits 10 n ≠ '-' :: s := by
  intro h
  have hdigit := isDigit_of_mem_toDigits (h ▸ List.mem_cons_self : '-' ∈ Nat.toDigits 10 n)
  cases hdigit

theorem toList_int_inj {n m : ℤ} (h : (toString n).toList = (toString m).toList) : n = m := by
  rw [toList_int, toList_int] at h
  split at h <;> split at h
  · have habs := toDigits_inj (List.cons.inj h).2
    omega
  · exact absurd h.symm toDigits_ne_minus
  · exact absurd h toDigits_ne_minus
  · have habs := toDigits_inj h
    omega

theorem int_text_cons (n : ℤ) : ∃ c rest, (toString n).toList = c :: rest := by
  refine List.exists_cons_of_ne_nil ?_
  rw [toList_int]
  split
  · exact List.cons_ne_nil _ _
  · exact Nat.toDigits_ne_nil

/-- A number is all that a text holds before an end. -/
theorem int_text_inj {n m : ℤ} {s t : List Char} (hs : format.Ends s) (ht : format.Ends t)
    (h : (toString n).toList ++ s = (toString m).toList ++ t) : n = m := by
  have hend : ∀ r, format.Ends r → r.takeWhile numberChar = [] := by
    intro r hr
    cases r with
    | nil => rfl
    | cons c r =>
      refine List.takeWhile_cons_of_neg ?_
      rcases hr c r rfl with rfl | rfl | rfl <;> decide
  have hnumber := congrArg (List.takeWhile numberChar) h
  rw [List.takeWhile_append_of_pos fun c hc => numberChar_int hc,
    List.takeWhile_append_of_pos fun c hc => numberChar_int hc, hend s hs, hend t ht,
    List.append_nil, List.append_nil] at hnumber
  exact toList_int_inj hnumber

/-! ### Scalars are told apart by their first characters -/

inductive Kind where
  | null
  | true
  | false
  | number
  | text
  | mark
  deriving DecidableEq

def Scalar.kind : Scalar → Kind
  | .null => .null
  | .bool b => if b then .true else .false
  | .int _ => .number
  | .str _ => .text

/-- What starts with the character. -/
def kindOf (c : Char) : Kind :=
  if numberChar c then .number
  else if c = 'n' then .null
  else if c = 't' then .true
  else if c = 'f' then .false
  else if c = '"' then .text
  else .mark

section Quoting

variable {quote : String → List Char} {a b : Scalar} {s t rest : List Char} {c : Char}

theorem Scalar.kindOf_text (hquote : Quotes quote) (h : a.textBy quote ++ s = c :: rest) :
    kindOf c = a.kind := by
  cases a with
  | null =>
    obtain rfl := (List.cons.inj h).1
    decide
  | bool b =>
    cases b with
    | false =>
      obtain rfl := (List.cons.inj h).1
      decide
    | true =>
      obtain rfl := (List.cons.inj h).1
      decide
  | int n =>
    obtain ⟨d, digits, hdigits⟩ := int_text_cons n
    have hnumber : numberChar d = true := numberChar_int (hdigits ▸ List.mem_cons_self)
    rw [Scalar.textBy, hdigits] at h
    obtain rfl := (List.cons.inj h).1
    rw [kindOf, if_pos hnumber, Scalar.kind]
  | str text =>
    obtain ⟨quoted, hquoted⟩ := hquote.opens text
    rw [Scalar.textBy, hquoted] at h
    obtain rfl := (List.cons.inj h).1
    rfl

theorem Scalar.kind_ne_mark (a : Scalar) : a.kind ≠ .mark := by
  cases a with
  | bool b => cases b <;> decide
  | _ => simp [Scalar.kind]

theorem Scalar.text_ne_nil (hquote : Quotes quote) (a : Scalar) : a.textBy quote ≠ [] := by
  cases a with
  | null => exact List.cons_ne_nil _ _
  | bool b => cases b <;> exact List.cons_ne_nil _ _
  | int n =>
    obtain ⟨c, rest, h⟩ := int_text_cons n
    exact ne_of_eq_of_ne h (List.cons_ne_nil c rest)
  | str text =>
    obtain ⟨rest, h⟩ := hquote.opens text
    exact ne_of_eq_of_ne h (List.cons_ne_nil _ rest)

theorem Scalar.text_ne_mark (hquote : Quotes quote) (hc : kindOf c = .mark) (a : Scalar)
    (s t : List Char) : a.textBy quote ++ s ≠ c :: t := by
  intro h
  exact a.kind_ne_mark ((Scalar.kindOf_text hquote h).symm.trans hc)

theorem Scalar.text_inj (hquote : Quotes quote) (hs : format.Ends s)
    (ht : format.Ends t) (h : a.textBy quote ++ s = b.textBy quote ++ t) : a = b := by
  have hkind : a.kind = b.kind := by
    obtain ⟨c, rest, hc⟩ := List.exists_cons_of_ne_nil (b.text_ne_nil hquote)
    have hb : b.textBy quote ++ t = c :: (rest ++ t) := by rw [hc, List.cons_append]
    rw [← Scalar.kindOf_text hquote hb, ← Scalar.kindOf_text hquote (h.trans hb)]
  cases a with
  | null =>
    cases b with
    | null => rfl
    | bool b => cases b <;> cases hkind
    | _ => cases hkind
  | bool x =>
    cases b with
    | bool y => cases x <;> cases y <;> first | rfl | cases hkind
    | _ => cases x <;> cases hkind
  | int n =>
    cases b with
    | int m => rw [int_text_inj hs ht h]
    | bool b => cases b <;> cases hkind
    | _ => cases hkind
  | str text =>
    cases b with
    | str other => rw [hquote.code.word_inj text other s t h]
    | bool b => cases b <;> cases hkind
    | _ => cases hkind

theorem formatBy_readable (hquote : Quotes quote) : (formatBy quote).Readable where
  leaf_inj _ _ _ _ := Scalar.text_inj hquote
  leaf_ne_openList := Scalar.text_ne_mark hquote (show kindOf '[' = .mark by decide)
  leaf_ne_openRecord := Scalar.text_ne_mark hquote (show kindOf '\x7b' = .mark by decide)
  leaf_ne_closeList := Scalar.text_ne_mark hquote (show kindOf ']' = .mark by decide)
  key_code := hquote.code
  openList_ne_openRecord := show '[' ≠ '\x7b' by decide
  openList_ne_closeList := show '[' ≠ ']' by decide
  openRecord_ne_closeList := show '\x7b' ≠ ']' by decide
  comma_ne_closeList := show ',' ≠ ']' by decide
  comma_ne_closeRecord := show ',' ≠ '\x7d' by decide

end Quoting

theorem format_readable : format.Readable :=
  format_eq ▸ formatBy_readable dumpsStr_quotes

/-! ## Serializers -/

/-- A serializer of JSON values, which sorts the fields of objects by an order of the keys. -/
structure Serializes (le : String → String → Prop) [DecidableRel le]
    (serialize : Json → Except PyError (List Char)) : Prop where
  scalar : ∀ a : Scalar, serialize a.json = .ok a.text
  arr : ∀ xs items, xs.mapM serialize = .ok items →
    serialize (.arr xs) = .ok ('[' :: joinCommas items ++ [']'])
  obj : ∀ fields members,
    fields.mapM (fun field => (field.1, ·) <$> serialize field.2) = .ok members →
    serialize (.obj fields) =
      .ok ('\x7b' :: joinCommas ((Tree.sortFields le members).map serMember) ++ ['\x7d'])

theorem writeField_eq : serMember ∘ Prod.map id format.write = format.writeField := by
  funext field
  rw [Function.comp, serMember, Format.writeField, List.append_assoc]
  rfl

variable {le : String → String → Prop} [DecidableRel le]
  {serialize : Json → Except PyError (List Char)}

/-- A serializer writes the normal form. -/
theorem Serializes.eq_write (h : Serializes le serialize) (t : Tree Scalar String) :
    serialize (json t) = .ok (format.write (t.normalize le)) := by
  induction t using Tree.induction with
  | leaf a => exact h.scalar a
  | list xs ih =>
    rw [json, jsonElements_eq, h.arr _ _ (mapM_map_eq_ok ih), Tree.normalize_list,
      Format.write_list, List.map_map]
    rfl
  | record fields ih =>
    have hmembers : (fields.map (Prod.map id json)).mapM
        (fun field => (field.1, ·) <$> serialize field.2) =
          .ok (fields.map (Prod.map id fun v => format.write (v.normalize le))) := by
      refine mapM_map_eq_ok fun field hfield => ?_
      rw [Prod.map, Prod.map, ih field hfield]
      rfl
    have hsorted : Tree.sortFields le
        (fields.map (Prod.map id fun v => format.write (v.normalize le))) =
          (Tree.sortFields le (fields.map (Prod.map id (Tree.normalize le)))).map
            (Prod.map id format.write) := by
      rw [← Tree.sortFields_map, List.map_map]
      rfl
    rw [json, jsonFields_eq, h.obj _ _ hmembers, hsorted, Tree.normalize_record,
      Format.write_record, List.map_map, writeField_eq]
    rfl

theorem canonicalElements_eq (python : Interpreter) (xs : List Json) :
    Ed25519AgentCard.canonicalElements python xs =
      xs.mapM (Ed25519AgentCard.canonicalStr python) := by
  induction xs with
  | nil => rfl
  | cons x xs ih => rw [Ed25519AgentCard.canonicalElements, ih, List.mapM_cons]; rfl

theorem canonicalFields_eq (python : Interpreter) (fields : List (String × Json)) :
    Ed25519AgentCard.canonicalFields python fields =
      fields.mapM fun field => (field.1, ·) <$> Ed25519AgentCard.canonicalStr python field.2 := by
  induction fields with
  | nil => rfl
  | cons field fields ih =>
    rw [Ed25519AgentCard.canonicalFields, ih, List.mapM_cons, map_eq_pure_bind, bind_assoc]
    rfl

theorem canonicalStr_serializes (python : Interpreter) :
    Serializes (fun a b => a ≤ b) (Ed25519AgentCard.canonicalStr python) where
  scalar a := by
    cases a <;> rfl
  arr xs items h := by
    rw [Ed25519AgentCard.canonicalStr, canonicalElements_eq, h]
    rfl
  obj fields members h := by
    rw [Ed25519AgentCard.canonicalStr, canonicalFields_eq, h]
    rfl

theorem serElements_eq (xs : List Json) : Jcs.serElements xs = xs.mapM Jcs.ser := by
  induction xs with
  | nil => rfl
  | cons x xs ih => rw [Jcs.serElements, ih, List.mapM_cons]; rfl

theorem serFields_eq (fields : List (String × Json)) :
    Jcs.serFields fields = fields.mapM fun field => (field.1, ·) <$> Jcs.ser field.2 := by
  induction fields with
  | nil => rfl
  | cons field fields ih =>
    rw [Jcs.serFields, ih, List.mapM_cons, map_eq_pure_bind, bind_assoc]
    rfl

theorem ser_serializes : Serializes utf16Le Jcs.ser where
  scalar a := by
    cases a with
    | bool b => cases b <;> rfl
    | _ => rfl
  arr xs items h := by
    rw [Jcs.ser, serElements_eq, h]
    rfl
  obj fields members h := by
    rw [Jcs.ser, serFields_eq, h]
    rfl

/-! ## Bytes -/

def bytes (t : Tree Scalar String) : Bytes := encodeUtf8 (String.ofList (format.write t))

theorem bytes_injective : Function.Injective bytes := by
  intro s t h
  exact format_readable.write_injective (String.ofList_injective (encodeUtf8_injective h))

theorem canonicalize_json (python : Interpreter) (t : Tree Scalar String) :
    canonicalize python (json t) = .ok (bytes (t.normalize fun a b => a ≤ b)) := by
  rw [canonicalize, (canonicalStr_serializes python).eq_write]
  rfl

theorem jcsCanonical_json (t : Tree Scalar String) :
    jcsCanonical (json t) = .ok (bytes (t.normalize utf16Le)) := by
  rw [jcsCanonical, ser_serializes.eq_write]
  rfl

/-- Both serializers return, and tell any two values apart that are not the same. -/
theorem same_bytes_iff (python : Interpreter) (u v : PlainJson) :
    ((∃ b, canonicalize python u.json = .ok b) ∧
      (canonicalize python u.json = canonicalize python v.json ↔ u.tree.Same v.tree)) ∧
    (∃ b, jcsCanonical u.json = .ok b) ∧
      (jcsCanonical u.json = jcsCanonical v.json ↔ u.tree.Same v.tree) := by
  refine ⟨⟨⟨_, canonicalize_json python u.tree⟩, ?_⟩, ⟨_, jcsCanonical_json u.tree⟩, ?_⟩
  · rw [PlainJson.json, PlainJson.json, canonicalize_json, canonicalize_json, Except.ok.injEq,
      bytes_injective.eq_iff, Tree.normalize_eq_iff_same u.distinct v.distinct]
  · rw [PlainJson.json, PlainJson.json, jcsCanonical_json, jcsCanonical_json, Except.ok.injEq,
      bytes_injective.eq_iff, Tree.normalize_eq_iff_same u.distinct v.distinct]

end CanonicalJson
