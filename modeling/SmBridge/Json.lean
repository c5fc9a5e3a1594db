import SmBridge.Float

/-! # Decoded JSON, with Python's type tests, access and conversions -/
namespace JsonValue

open Python

/-- The keys of an object are distinct, as in the dictionary that `json.loads` builds. A text is
one of Unicode scalar values: a lone surrogate, which `json.loads` lets through, is none. -/
inductive Json where
  | null
  | bool (b : Bool)
  | int (n : ℤ)
  | float (x : PyFloat)
  | str (s : String)
  | arr (xs : List Json)
  | obj (fields : List (String × Json))
  deriving Repr

namespace Json

/-- `value.get(key)` on a dictionary; a missing key and any other type give `none`. -/
def get? (key : String) : Json → Option Json
  | .obj fields => fields.lookup key
  | _ => none

/-- `value.get(key)` if its type is `int` itself, which the type of a Boolean is not. -/
def getInt? (key : String) (value : Json) : Option ℤ :=
  match value.get? key with
  | some (.int n) => some n
  | _ => none

def isObj : Json → Bool
  | .obj _ => true
  | _ => false

def isNull : Json → Bool
  | .null => true
  | _ => false

def typeName : Json → String
  | .null => "NoneType"
  | .bool _ => "bool"
  | .int _ => "int"
  | .float _ => "float"
  | .str _ => "str"
  | .arr _ => "list"
  | .obj _ => "dict"

def truthy : Json → Bool
  | .null => false
  | .bool b => b
  | .int n => n ≠ 0
  | .float x => x ≠ .finite 0
  | .str s => s ≠ ""
  | .arr xs => !xs.isEmpty
  | .obj fields => !fields.isEmpty

/-! ## Access, with the errors of Python's dynamic types

`item` is `value[key]`, `get` and `getD` are the method `get` without and with a default, and
`elements` is `list(value)`. -/

def getD (value : Json) (key : String) (default : Json) : Except PyError Json :=
  match value with
  | .obj fields => .ok ((fields.lookup key).getD default)
  | value => .error (.attributeError ("'" ++ value.typeName ++ "' object has no attribute 'get'"))

def get (value : Json) (key : String) : Except PyError Json := value.getD key .null

def item (value : Json) (key : String) : Except PyError Json :=
  match value with
  | .obj fields =>
    match fields.lookup key with
    | some value => .ok value
    | none => .error (.keyError key)
  | .arr _ => .error (.typeError "list indices must be integers or slices, not str")
  | .str _ => .error (.typeError "string indices must be integers, not 'str'")
  | value => .error (.typeError ("'" ++ value.typeName ++ "' object is not subscriptable"))

/-- `fields.get(key)` for a key of any type. The keys of a JSON object are strings. -/
def lookupKey (fields : List (String × Json)) : Json → Except PyError Json
  | .str s => .ok ((fields.lookup s).getD .null)
  | .arr _ => .error (.typeError "unhashable type: 'list'")
  | .obj _ => .error (.typeError "unhashable type: 'dict'")
  | _ => .ok .null

def elements : Json → Except PyError (List Json)
  | .arr xs => .ok xs
  | .str s => .ok (s.toList.map fun c => .str (String.ofList [c]))
  | .obj fields => .ok (fields.map fun field => .str field.1)
  | value => .error (.typeError ("'" ++ value.typeName ++ "' object is not iterable"))

@[simp] theorem getD_obj (key : String) (default : Json) (fields : List (String × Json)) :
    (Json.obj fields).getD key default = .ok ((fields.lookup key).getD default) := rfl

@[simp] theorem get_obj (key : String) (fields : List (String × Json)) :
    (Json.obj fields).get key = .ok ((fields.lookup key).getD .null) := rfl

@[simp] theorem lookupKey_str (fields : List (String × Json)) (s : String) :
    lookupKey fields (.str s) = .ok ((fields.lookup s).getD .null) := rfl

@[simp] theorem elements_arr (xs : List Json) : (Json.arr xs).elements = .ok xs := rfl

theorem item_obj_of_lookup {key : String} {fields : List (String × Json)} {value : Json}
    (h : fields.lookup key = some value) : (Json.obj fields).item key = .ok value := by
  simp only [item, h]

/-! ## Equality -/

/-- The value of a finite number; a Boolean is one. -/
def number? : Json → Option Rat
  | .bool b => some (if b then 1 else 0)
  | .int n => some n
  | .float (.finite q) => some q
  | _ => none

/-- `a == b` for numbers. An infinity equals itself, NaN does not. -/
def eqNumber (a b : Json) : Bool :=
  match a, b with
  | .float .posInf, .float .posInf => true
  | .float .negInf, .float .negInf => true
  | a, b =>
    match a.number?, b.number? with
    | some x, some y => x == y
    | _, _ => false

mutual

/-- `a == b`. Inside a container Python also takes a NaN to equal itself if it is the same
object, which is left out. -/
def eq : Json → Json → Bool
  | .null, .null => true
  | .str s, .str t => s == t
  | .arr xs, .arr ys => eqElements xs ys
  | .obj fields, .obj others => fields.length == others.length && eqFields others fields
  | a, b => eqNumber a b

def eqElements : List Json → List Json → Bool
  | [], [] => true
  | x :: xs, y :: ys => eq x y && eqElements xs ys
  | _, _ => false

/-- Each field is among the others, with an equal value. -/
def eqFields (others : List (String × Json)) : List (String × Json) → Bool
  | [] => true
  | (key, value) :: fields =>
    (match others.lookup key with
      | some other => eq value other
      | none => false) && eqFields others fields

end

theorem eq_str {value : Json} {s : String} : value.eq (.str s) = true ↔ value = .str s := by
  cases value <;> simp [eq, eqNumber, number?]

end Json

/-! ## The interpreter -/

/-- Conversions between values and text, and the clock. -/
structure Interpreter where
  /-- `datetime.fromisoformat`: the fields as microseconds since 1970, and the UTC offset in
  microseconds if the text gives one; or the text of its `ValueError`. -/
  fromIsoFormat : String → Except String (ℤ × Option ℤ)
  /-- `isoformat` of an instant, in UTC. -/
  isoFormat : ℤ → String
  /-- `int` of a text. -/
  intOfText : String → Option ℤ
  /-- `float` of a text. -/
  floatOfText : String → Option PyFloat
  repr : Json → String
  /-- The `RecursionError` of `repr` on a value that is nested too deeply. -/
  reprLimit : Json → Option String := fun _ => none
  /-- `time.time()` -/
  time : PyFloat

namespace Interpreter

variable (python : Interpreter)

def int : Json → Except PyError ℤ
  | .int n => .ok n
  | .bool b => .ok (if b then 1 else 0)
  | .float x => x.toInt
  | .str s =>
    match python.intOfText s with
    | some n => .ok n
    | none =>
      .error (.valueError ("invalid literal for int() with base 10: " ++ python.repr (.str s)))
  | value =>
    .error (.typeError ("int() argument must be a string, a bytes-like object or a real number, " ++
      "not '" ++ value.typeName ++ "'"))

def float : Json → Except PyError PyFloat
  | .float x => .ok x
  | .int n => floatOfInt n
  | .bool b => .ok (.finite (if b then 1 else 0))
  | .str s =>
    match python.floatOfText s with
    | some x => .ok x
    | none =>
      .error (.valueError ("could not convert string to float: " ++ python.repr (.str s)))
  | value =>
    .error (.typeError ("float() argument must be a string or a real number, not '" ++
      value.typeName ++ "'"))

/-- `str(value)`, as a formatted string renders it. -/
def str : Json → String
  | .str s => s
  | .int n => toString n
  | .bool b => if b then "True" else "False"
  | .null => "None"
  | value => python.repr value

/-- `repr(value)` of a value that may be nested to any depth. -/
def rendered (value : Json) : Except PyError String :=
  match python.reprLimit value with
  | some text => .error (.other "RecursionError" text)
  | none => .ok (python.repr value)

end Interpreter

end JsonValue
