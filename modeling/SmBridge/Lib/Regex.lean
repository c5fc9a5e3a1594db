import Mathlib.Data.List.Basic

/-!
# Backtracking regular expressions

All the ways in which a pattern matches from a place of a text, in the order in which a
backtracking matcher tries them. A repetition takes as much as it can first. The body of a
repetition is meant to take at least one character.
-/
namespace Regex

/-- A place in a text: what stands before it, the last character first, and what follows. -/
structure Place (χ : Type*) where
  before : List χ
  after : List χ

inductive Pattern (χ : Type*) where
  | char (p : χ → Bool)
  | seq (first second : Pattern χ)
  /-- At least `least` times, and at most `most` times if there is a bound. -/
  | repeated (body : Pattern χ) (least : ℕ) (most : Option ℕ)
  /-- The start of the text. -/
  | start
  /-- The end of the text, or the place in front of a newline that ends it. -/
  | finish (newline : χ → Bool)
  | ahead (body : Pattern χ)
  | notAhead (body : Pattern χ)
  /-- No such character stands directly before. -/
  | notBehind (p : χ → Bool)

section Definitions

variable {χ : Type*}

/-- The places after exactly `n` steps. -/
def exactly (step : Place χ → List (Place χ)) : ℕ → Place χ → List (Place χ)
  | 0, x => [x]
  | n + 1, x => (step x).flatMap (exactly step n)

/-- The places after at most `n` steps, more steps first. -/
def upTo (step : Place χ → List (Place χ)) : ℕ → Place χ → List (Place χ)
  | 0, x => [x]
  | n + 1, x => (step x).flatMap (upTo step n) ++ [x]

namespace Pattern

/-- The places where a match from `x` can end. -/
def ends : Pattern χ → Place χ → List (Place χ)
  | .char p, x =>
    match x.after with
    | c :: rest => if p c then [⟨c :: x.before, rest⟩] else []
    | [] => []
  | .seq first second, x => (ends first x).flatMap (ends second)
  | .repeated body least most, x =>
    (exactly (ends body) least x).flatMap fun y =>
      upTo (ends body) (most.elim y.after.length (· - least)) y
  | .start, x => if x.before.isEmpty then [x] else []
  | .finish newline, x =>
    match x.after with
    | [] => [x]
    | [c] => if newline c then [x] else []
    | _ => []
  | .ahead body, x => if (ends body x).isEmpty then [] else [x]
  | .notAhead body, x => if (ends body x).isEmpty then [x] else []
  | .notBehind p, x =>
    match x.before with
    | c :: _ => if p c then [] else [x]
    | [] => [x]

/-- The text that the preferred match from a place takes. -/
def matchAt (pattern : Pattern χ) (x : Place χ) : Option (List χ) :=
  (pattern.ends x).head?.map fun y => x.after.take (x.after.length - y.after.length)

/-- `match` of a text. -/
def matches_ (pattern : Pattern χ) (text : List χ) : Bool := (pattern.matchAt ⟨[], text⟩).isSome

/-- The first match from the place behind `before` on. -/
def searchFrom (pattern : Pattern χ) (before : List χ) : List χ → Option (List χ)
  | [] => pattern.matchAt ⟨before, []⟩
  | c :: rest => (pattern.matchAt ⟨before, c :: rest⟩).or (searchFrom pattern (c :: before) rest)

/-- `search` of a text. -/
def search (pattern : Pattern χ) (text : List χ) : Option (List χ) := pattern.searchFrom [] text

end Pattern

end Definitions

end Regex
