import SmBridge.Lib.KeyedTrees
import SmBridge.Lib.PrefixCode

/-!
# Trees as text

A list is written between its two marks, a record between two others, with commas between the
items and each key in front of its value. If leaves and keys can be read back where they stand,
whole trees can.
-/
namespace TreeText

open KeyedTrees
open PrefixCode

structure Format (α κ χ : Type*) where
  leaf : α → List χ
  key : κ → List χ
  openList : χ
  closeList : χ
  openRecord : χ
  closeRecord : χ
  colon : χ
  comma : χ

namespace Format

section Definitions

variable {α κ χ : Type*} (format : Format α κ χ)

def joined (items : List (List χ)) : List χ := List.intercalate [format.comma] items

mutual

def write : Tree α κ → List χ
  | .leaf a => format.leaf a
  | .list xs => format.openList :: format.joined (writeElements xs) ++ [format.closeList]
  | .record fields =>
    format.openRecord :: format.joined (writeFields fields) ++ [format.closeRecord]

def writeElements : List (Tree α κ) → List (List χ)
  | [] => []
  | x :: xs => write x :: writeElements xs

def writeFields : List (κ × Tree α κ) → List (List χ)
  | [] => []
  | (k, v) :: fields => (format.key k ++ format.colon :: write v) :: writeFields fields

end

def writeField (field : κ × Tree α κ) : List χ :=
  format.key field.1 ++ format.colon :: format.write field.2

/-- What may follow a value: nothing, a comma or a closing mark. -/
def Ends (rest : List χ) : Prop :=
  ∀ c s, rest = c :: s → c = format.comma ∨ c = format.closeList ∨ c = format.closeRecord

/-- Leaves can be told apart by what stands in front of an end, and from the marks by how they
start; keys are a prefix code. -/
structure Readable : Prop where
  leaf_inj : ∀ a b s t, format.Ends s → format.Ends t →
    format.leaf a ++ s = format.leaf b ++ t → a = b
  leaf_ne_openList : ∀ a s t, format.leaf a ++ s ≠ format.openList :: t
  leaf_ne_openRecord : ∀ a s t, format.leaf a ++ s ≠ format.openRecord :: t
  leaf_ne_closeList : ∀ a s t, format.leaf a ++ s ≠ format.closeList :: t
  key_code : IsPrefixCode format.key format.closeRecord
  openList_ne_openRecord : format.openList ≠ format.openRecord
  openList_ne_closeList : format.openList ≠ format.closeList
  openRecord_ne_closeList : format.openRecord ≠ format.closeList
  comma_ne_closeList : format.comma ≠ format.closeList
  comma_ne_closeRecord : format.comma ≠ format.closeRecord

end Definitions

variable {α κ χ ι : Type*} {format : Format α κ χ} {s t : List χ}

theorem writeElements_eq (xs : List (Tree α κ)) :
    format.writeElements xs = xs.map format.write := by
  induction xs with
  | nil => rfl
  | cons x xs ih => rw [writeElements, ih, List.map_cons]

theorem writeFields_eq (fields : List (κ × Tree α κ)) :
    format.writeFields fields = fields.map format.writeField := by
  induction fields with
  | nil => rfl
  | cons field fields ih => rw [writeFields, ih, List.map_cons, writeField]

@[simp] theorem write_leaf (a : α) : format.write (.leaf a : Tree α κ) = format.leaf a := rfl

theorem write_list (xs : List (Tree α κ)) :
    format.write (.list xs) =
      format.openList :: format.joined (xs.map format.write) ++ [format.closeList] := by
  rw [write, writeElements_eq]

theorem write_record (fields : List (κ × Tree α κ)) :
    format.write (.record fields) =
      format.openRecord :: format.joined (fields.map format.writeField) ++
        [format.closeRecord] := by
  rw [write, writeFields_eq]

theorem joined_cons (item : List χ) (items : List (List χ)) :
    format.joined (item :: items) = item ++ items.flatMap (format.comma :: ·) := by
  induction items generalizing item with
  | nil => simp [joined]
  | cons next items ih =>
    have hstep : format.joined (item :: next :: items) =
        item ++ format.comma :: format.joined (next :: items) := by simp [joined]
    rw [hstep, ih, List.flatMap_cons, List.cons_append]

theorem ends_comma (s : List χ) : format.Ends (format.comma :: s) :=
  fun _ _ h => Or.inl (List.cons.inj h).1.symm

theorem ends_closeList (s : List χ) : format.Ends (format.closeList :: s) :=
  fun _ _ h => Or.inr (Or.inl (List.cons.inj h).1.symm)

theorem ends_closeRecord (s : List χ) : format.Ends (format.closeRecord :: s) :=
  fun _ _ h => Or.inr (Or.inr (List.cons.inj h).1.symm)

/-- Items that can be read back one by one, behind commas, up to a mark that is none. -/
theorem flatMap_comma_inj {code : ι → List χ} {stop : χ} {xs ys : List ι}
    (hstop : format.comma ≠ stop) (hend : ∀ s, format.Ends (stop :: s))
    (hcode : ∀ x ∈ xs, ∀ y s t, format.Ends s → format.Ends t →
      code x ++ s = code y ++ t → x = y)
    (h : (xs.map code).flatMap (format.comma :: ·) ++ stop :: s =
      (ys.map code).flatMap (format.comma :: ·) ++ stop :: t) : xs = ys := by
  have hends : ∀ (zs : List ι) (r : List χ),
      format.Ends ((zs.map code).flatMap (format.comma :: ·) ++ stop :: r) := by
    intro zs r
    cases zs with
    | nil => exact hend r
    | cons z zs => exact ends_comma _
  induction xs generalizing ys with
  | nil =>
    cases ys with
    | nil => rfl
    | cons y ys => exact absurd (List.cons.inj h).1.symm hstop
  | cons x xs ih =>
    cases ys with
    | nil => exact absurd (List.cons.inj h).1 hstop
    | cons y ys =>
      simp only [List.map_cons, List.flatMap_cons, List.cons_append, List.append_assoc] at h
      have hitem := (List.cons.inj h).2
      obtain rfl := hcode x List.mem_cons_self y _ _ (hends xs s) (hends ys t) hitem
      rw [ih (fun x hx => hcode x (List.mem_cons_of_mem _ hx)) (List.append_cancel_left hitem)]

theorem joined_inj {code : ι → List χ} {stop : χ} {xs ys : List ι}
    (hstop : format.comma ≠ stop) (hend : ∀ s, format.Ends (stop :: s))
    (hstart : ∀ x s t, code x ++ s ≠ stop :: t)
    (hcode : ∀ x ∈ xs, ∀ y s t, format.Ends s → format.Ends t →
      code x ++ s = code y ++ t → x = y)
    (h : format.joined (xs.map code) ++ stop :: s =
      format.joined (ys.map code) ++ stop :: t) : xs = ys := by
  cases xs with
  | nil =>
    cases ys with
    | nil => rfl
    | cons y ys =>
      rw [List.map_cons, joined_cons, List.append_assoc] at h
      exact absurd h.symm (hstart y _ _)
  | cons x xs =>
    cases ys with
    | nil =>
      rw [List.map_cons, joined_cons, List.append_assoc] at h
      exact absurd h (hstart x _ _)
    | cons y ys =>
      -- with a comma in front, the first items are like the others
      refine flatMap_comma_inj (s := s) (t := t) hstop hend hcode ?_
      rw [List.map_cons, List.map_cons, joined_cons, joined_cons] at h
      rw [List.map_cons, List.map_cons, List.flatMap_cons, List.flatMap_cons, List.cons_append,
        List.cons_append, List.cons_append, List.cons_append, h]

theorem Readable.write_ne_closeList (h : format.Readable) (u : Tree α κ) :
    format.write u ++ s ≠ format.closeList :: t := by
  cases u with
  | leaf a => exact h.leaf_ne_closeList a s t
  | list xs =>
    rw [write_list]
    exact fun heq => h.openList_ne_closeList (List.cons.inj heq).1
  | record fields =>
    rw [write_record]
    exact fun heq => h.openRecord_ne_closeList (List.cons.inj heq).1

theorem Readable.writeField_ne_closeRecord (h : format.Readable) (field : κ × Tree α κ) :
    format.writeField field ++ s ≠ format.closeRecord :: t := by
  rw [writeField, List.append_assoc]
  exact h.key_code.word_ne_stop _ _ _

/-- In front of an end, a tree is read back from what is written. -/
theorem Readable.write_inj (h : format.Readable) {u v : Tree α κ} (hs : format.Ends s)
    (ht : format.Ends t) (heq : format.write u ++ s = format.write v ++ t) : u = v := by
  induction u using Tree.induction generalizing v s t with
  | leaf a =>
    cases v with
    | leaf b => rw [h.leaf_inj a b s t hs ht heq]
    | list ys =>
      rw [write_list] at heq
      exact absurd heq (h.leaf_ne_openList a _ _)
    | record others =>
      rw [write_record] at heq
      exact absurd heq (h.leaf_ne_openRecord a _ _)
  | list xs ih =>
    rw [write_list] at heq
    cases v with
    | leaf b => exact absurd heq.symm (h.leaf_ne_openList b _ _)
    | list ys =>
      rw [write_list] at heq
      simp only [List.cons_append, List.append_assoc, List.nil_append] at heq
      rw [joined_inj h.comma_ne_closeList ends_closeList (fun x _ _ => h.write_ne_closeList x)
        (fun x hx y _ _ hs ht => ih x hx hs ht) (List.cons.inj heq).2]
    | record others =>
      rw [write_record] at heq
      exact absurd (List.cons.inj heq).1 h.openList_ne_openRecord
  | record fields ih =>
    rw [write_record] at heq
    cases v with
    | leaf b => exact absurd heq.symm (h.leaf_ne_openRecord b _ _)
    | list ys =>
      rw [write_list] at heq
      exact absurd (List.cons.inj heq).1.symm h.openList_ne_openRecord
    | record others =>
      rw [write_record] at heq
      simp only [List.cons_append, List.append_assoc, List.nil_append] at heq
      have hfield : ∀ field ∈ fields, ∀ other s t, format.Ends s → format.Ends t →
          format.writeField field ++ s = format.writeField other ++ t → field = other := by
        intro ⟨k, v⟩ hmem ⟨k', w⟩ s t hs ht heq
        simp only [writeField, List.append_assoc, List.cons_append] at heq
        obtain rfl := h.key_code.word_inj k k' _ _ heq
        obtain rfl : v = w := ih _ hmem hs ht (List.cons.inj (List.append_cancel_left heq)).2
        rfl
      rw [joined_inj h.comma_ne_closeRecord ends_closeRecord
        (fun field _ _ => h.writeField_ne_closeRecord field) hfield (List.cons.inj heq).2]

theorem Readable.write_injective (h : format.Readable) :
    Function.Injective format.write := by
  intro u v heq
  refine h.write_inj (s := []) (t := []) nofun nofun ?_
  rw [heq]

end Format
end TreeText
