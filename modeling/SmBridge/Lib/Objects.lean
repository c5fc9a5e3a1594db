import Mathlib.Data.Nat.Notation
import Mathlib.Logic.Function.Basic

/-!
# Objects by reference

Two names of one object see each other's writes, and a new object has no other name.
-/
namespace Objects

abbrev Ref := ℕ

/-- The objects that have been made, by their references. -/
structure Heap (α : Type*) where
  size : ℕ
  object : Ref → α

namespace Heap

section Definitions

variable {α : Type*} (heap : Heap α)

def read (r : Ref) : α := heap.object r

def write (r : Ref) (a : α) : Heap α := { heap with object := Function.update heap.object r a }

def alloc (a : α) : Ref × Heap α :=
  (heap.size, ⟨heap.size + 1, Function.update heap.object heap.size a⟩)

end Definitions

variable {α : Type*} {heap : Heap α} {r r' : Ref} {a : α}

@[simp] theorem read_write_self : (heap.write r a).read r = a := Function.update_self ..

theorem read_write_of_ne (h : r' ≠ r) : (heap.write r a).read r' = heap.read r' :=
  Function.update_of_ne h ..

@[simp] theorem read_alloc_self : (heap.alloc a).2.read (heap.alloc a).1 = a :=
  Function.update_self ..

theorem read_alloc_of_lt (h : r < heap.size) : (heap.alloc a).2.read r = heap.read r :=
  Function.update_of_ne (Nat.ne_of_lt h) ..

theorem alloc_ne_of_lt (h : r < heap.size) : (heap.alloc a).1 ≠ r :=
  Nat.ne_of_gt h

theorem alloc_lt : (heap.alloc a).1 < (heap.alloc a).2.size := Nat.lt_succ_self _

end Heap

end Objects
