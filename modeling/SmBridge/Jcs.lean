import SmBridge.Json
import Mathlib.Data.List.Sort

/-! # RFC 8785 canonical JSON, as the delegation profile serializes it -/
namespace Jcs

open Python
open JsonValue

/-- The escapes of `json.dumps(_, ensure_ascii=False)`. -/
def escape (c : Char) : List Char :=
  match c.toNat with
  | 0x22 => "\\\"".toList
  | 0x5c => "\\\\".toList
  | 0x0a => "\\n".toList
  | 0x0d => "\\r".toList
  | 0x09 => "\\t".toList
  | 0x0c => "\\f".toList
  | 0x08 => "\\b".toList
  | n => if n < 0x20 then "\\u00".toList ++ [hexDigit (n / 16), hexDigit (n % 16)] else [c]

def dumpsStr (s : String) : List Char :=
  "\"".toList ++ s.toList.flatMap escape ++ "\"".toList

def bigEndian16 (n : ℕ) : Bytes := [UInt8.ofNat (n / 256), UInt8.ofNat n]

/-- A character of the planes above the first is a surrogate pair. -/
def utf16Units (c : Char) : List ℕ :=
  if c.toNat < 0x10000 then [c.toNat]
  else [0xd800 + (c.toNat - 0x10000) / 0x400, 0xdc00 + (c.toNat - 0x10000) % 0x400]

def encodeUtf16be (s : String) : Bytes := (s.toList.flatMap utf16Units).flatMap bigEndian16

/-- `sorted(items, key=…)`: by the encoded keys. -/
def sortFields {α : Type} (fields : List (String × α)) : List (String × α) :=
  fields.insertionSort fun a b => encodeUtf16be a.1 ≤ encodeUtf16be b.1

def joinCommas (items : List (List Char)) : List Char := List.intercalate ",".toList items

def serMember (member : String × List Char) : List Char :=
  dumpsStr member.1 ++ ":".toList ++ member.2

mutual

/-- `_ser`, within the depth of the interpreter's recursion. The fields are serialized before
they are sorted; the only error is that of a float, so the order does not show in it. -/
def ser : Json → Except PyError (List Char)
  | .null => .ok "null".toList
  | .bool true => .ok "true".toList
  | .bool false => .ok "false".toList
  | .str s => .ok (dumpsStr s)
  | .int n => .ok (toString n).toList
  | .float _ =>
    .error (.typeError "JCS: floating-point values are not part of the delegation schema")
  | .arr xs => do
    let items ← serElements xs
    .ok ("[".toList ++ joinCommas items ++ "]".toList)
  | .obj fields => do
    let members ← serFields fields
    .ok ("\x7b".toList ++ joinCommas ((sortFields members).map serMember) ++ "\x7d".toList)

def serElements : List Json → Except PyError (List (List Char))
  | [] => .ok []
  | x :: xs => do
    let item ← ser x
    let items ← serElements xs
    .ok (item :: items)

def serFields : List (String × Json) → Except PyError (List (String × List Char))
  | [] => .ok []
  | (key, value) :: fields => do
    let text ← ser value
    let members ← serFields fields
    .ok ((key, text) :: members)

end

/-- On a text with a lone surrogate, which is no `Json` here, the encodings of the keys and of the
result raise. -/
def jcsCanonical (value : Json) : Except PyError Bytes := do
  let text ← ser value
  .ok (encodeUtf8 (String.ofList text))

example : (jcsCanonical (.obj [("typ", .arr [.int (-5), .null]), ("alg", .str "a\"b")])).toOption =
    some (encodeUtf8 "\x7b\"alg\":\"a\\\"b\",\"typ\":[-5,null]\x7d") := by
  decide +kernel

end Jcs
