import SmBridge.DelegationRules
import SmBridge.Lib.Checks

/-!
# Types in the delegation profile

JSON evidence may hold a value of any type anywhere. The conversions and accesses of the source
succeed on some types, and raise on the others an exception that is no rule failure.
-/
namespace DelegationTypes

open Python
open JsonValue
open Jcs
open Delegation
open Checks

abbrev Fields := List (String × Json)

/-- `fields.get(key)` -/
def value (fields : Fields) (key : String) : Json := (fields.lookup key).getD .null

/-- The fields of an object, none of any other value. -/
def fieldsOf : Json → Fields
  | .obj fields => fields
  | _ => []

/-! ## Types -/

def hashable : Json → Bool
  | .arr _ => false
  | .obj _ => false
  | _ => true

def iterable : Json → Bool
  | .arr _ => true
  | .str _ => true
  | .obj _ => true
  | _ => false

def isStr : Json → Bool
  | .str _ => true
  | _ => false

/-- A scope is compared with an equal one, or as a string with a string. -/
def comparable (p c : Json) : Bool := c.eq p || (isStr c && isStr p)

mutual

def hasFloat : Json → Bool
  | .float _ => true
  | .arr xs => elementsHaveFloat xs
  | .obj fields => fieldsHaveFloat fields
  | _ => false

def elementsHaveFloat : List Json → Bool
  | [] => false
  | x :: xs => hasFloat x || elementsHaveFloat xs

def fieldsHaveFloat : Fields → Bool
  | [] => false
  | (_, x) :: fields => hasFloat x || fieldsHaveFloat fields

end

section Conversions

variable (python : Interpreter)

/-- What `int` converts. -/
def intLike : Json → Bool
  | .int _ => true
  | .bool _ => true
  | .float (.finite _) => true
  | .str s => (python.intOfText s).isSome
  | _ => false

/-- What `float` converts. -/
def FloatLike : Json → Prop
  | .float _ => True
  | .bool _ => True
  | .int n => Floatable n
  | .str s => (python.floatOfText s).isSome = true
  | _ => False

/-- A time that is a string, or that is missing. -/
def textual (fields : Fields) (key : String) : Bool :=
  match fields.lookup key with
  | none => true
  | some time => isStr time

def timeOf (fields : Fields) (key : String) : Option ℤ :=
  (fields.lookup key).bind fun time => (parseRfc3339 python time).toOption

end Conversions

/-! ## What settles -/

/-- The exceptions that `verify` turns into a result. -/
def Caught (e : PyError) : Prop := (chainReason? e).isSome = true

@[simp] theorem caught_chainError (reason : String) : Caught (chainError reason) := by
  simp [Caught, chainReason?, chainError]

@[simp] theorem not_caught_valueError (text : String) : ¬ Caught (.valueError text) := by
  simp [Caught, chainReason?]

@[simp] theorem not_caught_keyError (key : String) : ¬ Caught (.keyError key) := by
  simp [Caught, chainReason?]

@[simp] theorem not_caught_typeError (text : String) : ¬ Caught (.typeError text) := by
  simp [Caught, chainReason?]

@[simp] theorem not_caught_attributeError (text : String) : ¬ Caught (.attributeError text) := by
  simp [Caught, chainReason?]

@[simp] theorem not_caught_overflowError (text : String) : ¬ Caught (.overflowError text) := by
  simp [Caught, chainReason?]

@[simp] theorem not_caught_recursionError (text : String) :
    ¬ Caught (.other "RecursionError" text) := by
  simp [Caught, chainReason?]

/-- A conversion or an access that needs `p`, whoever catches the rule failures. -/
structure Needs {α : Type} (x : Except PyError α) (p : Prop) : Prop where
  returns : (∃ a, x = .ok a) ↔ p
  uncaught : ∀ e, x = .error e → ¬ Caught e

theorem Needs.performs {α : Type} {x : Except PyError α} {p : Prop} (h : Needs x p) :
    Performs Caught (fun _ => True) x [.needs p] := by
  refine Performs.needs ?_ (by simpa using h.returns)
  rw [← h.returns]
  cases hx : x with
  | ok a => simp
  | error e => simpa using h.uncaught e hx

theorem needs_lookupKey (fields : Fields) (key : Json) :
    Needs (Json.lookupKey fields key) (hashable key = true) := by
  cases key <;> exact ⟨by simp [Json.lookupKey, hashable], by simp [Json.lookupKey]⟩

theorem needs_get (x : Json) (key : String) : Needs (x.get key) (x.isObj = true) := by
  cases x <;> exact ⟨by simp [Json.get, Json.getD, Json.isObj], by simp [Json.get, Json.getD]⟩

theorem get_value {x v : Json} {key : String} (h : x.get key = .ok v) :
    v = value (fieldsOf x) key := by
  cases x with
  | obj fields => exact (Except.ok.inj h).symm
  | _ => cases h

theorem needs_elements (x : Json) : Needs x.elements (iterable x = true) := by
  cases x <;> exact ⟨by simp [Json.elements, iterable], by simp [Json.elements]⟩

theorem needs_int (python : Interpreter) (x : Json) :
    Needs (python.int x) (intLike python x = true) := by
  cases x with
  | float x => cases x <;> exact ⟨by simp [Interpreter.int, PyFloat.toInt, intLike],
      by simp [Interpreter.int, PyFloat.toInt]⟩
  | str s =>
    cases h : python.intOfText s <;>
      exact ⟨by simp [Interpreter.int, intLike, h], by simp [Interpreter.int, h]⟩
  | _ => exact ⟨by simp [Interpreter.int, intLike], by simp [Interpreter.int]⟩

theorem needs_float (python : Interpreter) (x : Json) :
    Needs (python.float x) (FloatLike python x) := by
  cases x with
  | int n =>
    refine ⟨by simp [Interpreter.float, FloatLike, floatOfInt_eq_ok], fun e h => ?_⟩
    rw [Interpreter.float, floatOfInt] at h
    split at h
    · cases h
    · cases h
      simp
  | str s =>
    cases h : python.floatOfText s <;>
      exact ⟨by simp [Interpreter.float, FloatLike, h], by simp [Interpreter.float, h]⟩
  | _ => exact ⟨by simp [Interpreter.float, FloatLike], by simp [Interpreter.float]⟩

theorem needs_rendered (python : Interpreter) (x : Json) :
    Needs (python.rendered x) (python.reprLimit x = none) := by
  rw [Interpreter.rendered]
  cases python.reprLimit x <;> exact ⟨by simp, by simp⟩

theorem needs_scopeCovers (p c : Json) : Needs (scopeCovers p c) (comparable p c = true) := by
  unfold scopeCovers
  by_cases h : c.eq p = true
  · rw [if_pos h]
    exact ⟨by simp [comparable, h], by simp⟩
  · rw [if_neg h]
    rw [Bool.not_eq_true] at h
    cases c with
    | str t => cases p <;> exact ⟨by simp [comparable, isStr, h], by simp⟩
    | _ => exact ⟨by simp [comparable, isStr, h], by simp⟩

/-! ## Serialization -/

mutual

theorem ser_returns : ∀ x : Json, (∃ text, ser x = .ok text) ↔ hasFloat x = false
  | .null => by simp [ser, hasFloat]
  | .bool true => by simp [ser, hasFloat]
  | .bool false => by simp [ser, hasFloat]
  | .int n => by simp [ser, hasFloat]
  | .float x => by simp [ser, hasFloat]
  | .str s => by simp [ser, hasFloat]
  | .arr xs => by
    rw [hasFloat, ← serElements_returns xs, ser]
    cases serElements xs <;> simp [bind, Except.bind]
  | .obj fields => by
    rw [hasFloat, ← serFields_returns fields, ser]
    cases serFields fields <;> simp [bind, Except.bind]

theorem serElements_returns :
    ∀ xs : List Json, (∃ items, serElements xs = .ok items) ↔ elementsHaveFloat xs = false
  | [] => by simp [serElements, elementsHaveFloat]
  | x :: xs => by
    rw [elementsHaveFloat, Bool.or_eq_false_iff, ← ser_returns x, ← serElements_returns xs,
      serElements]
    cases ser x <;> cases serElements xs <;> simp [bind, Except.bind]

theorem serFields_returns :
    ∀ fields : Fields, (∃ members, serFields fields = .ok members) ↔ fieldsHaveFloat fields = false
  | [] => by simp [serFields, fieldsHaveFloat]
  | (key, x) :: fields => by
    rw [fieldsHaveFloat, Bool.or_eq_false_iff, ← ser_returns x, ← serFields_returns fields,
      serFields]
    cases ser x <;> cases serFields fields <;> simp [bind, Except.bind]

end

theorem jcsCanonical_returns (x : Json) :
    (∃ payload, jcsCanonical x = .ok payload) ↔ hasFloat x = false := by
  rw [← ser_returns, jcsCanonical]
  cases ser x <;> simp [bind, Except.bind]

end DelegationTypes
