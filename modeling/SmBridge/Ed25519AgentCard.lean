import SmBridge.Dumps

/-!
# The canonical JSON of signed agent cards and catalogs

`canonicalize` writes numbers as JavaScript does and sorts the keys as Python compares
strings, by code point.
-/
namespace Ed25519AgentCard

open Python
open JsonValue
open Jcs (dumpsStr joinCommas serMember)
open Dumps (sortMembers)

variable (python : Interpreter)

def formatNumber : ℤ ⊕ PyFloat → Except PyError (List Char)
  | .inl n => .ok (toString n).toList
  | .inr (.finite q) =>
    if q.den = 1 then .ok (toString q.num).toList
    else .ok (python.repr (.float (.finite q))).toList
  | .inr _ => .error (.valueError "canonicalize: non-finite numbers are not representable")

mutual

/-- `_canonical_str`. The fields are written before they are sorted; the only error is that of
a float without a value, so the order does not show in it. Integers are within the 4300 digits
that `str` converts. -/
def canonicalStr : Json → Except PyError (List Char)
  | .null => .ok "null".toList
  | .bool b => .ok (if b then "true".toList else "false".toList)
  | .int n => formatNumber python (.inl n)
  | .float x => formatNumber python (.inr x)
  | .str s => .ok (dumpsStr s)
  | .arr xs => do
    let items ← canonicalElements xs
    .ok ("[".toList ++ joinCommas items ++ "]".toList)
  | .obj fields => do
    let members ← canonicalFields fields
    .ok ("\x7b".toList ++ joinCommas ((sortMembers members).map serMember) ++ "\x7d".toList)

def canonicalElements : List Json → Except PyError (List (List Char))
  | [] => .ok []
  | x :: xs => do
    let item ← canonicalStr x
    let items ← canonicalElements xs
    .ok (item :: items)

def canonicalFields : List (String × Json) → Except PyError (List (String × List Char))
  | [] => .ok []
  | (key, value) :: fields => do
    let text ← canonicalStr value
    let members ← canonicalFields fields
    .ok ((key, text) :: members)

end

/-- On a text with a lone surrogate, which is no `Json` here, the encoding raises. -/
def canonicalize (value : Json) : Except PyError Bytes := do
  let text ← canonicalStr python value
  .ok (encodeUtf8 (String.ofList text))

end Ed25519AgentCard
