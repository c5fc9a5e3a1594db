import Mathlib.Data.List.Induction
import Mathlib.Data.List.Nodup
import Mathlib.Algebra.BigOperators.Group.List.Basic
import Mathlib.Algebra.GroupWithZero.Nat

/-!
# Dictionaries in insertion order

A key keeps its place when its value is replaced, and a new key goes to the end.
-/
namespace Dictionary

@[ext]
structure Dict (κ ν : Type*) where
  entries : List (κ × ν)
  nodup : (entries.map Prod.fst).Nodup

namespace Dict

variable {κ ν : Type*}

def empty : Dict κ ν := ⟨[], List.nodup_nil⟩

def keys (d : Dict κ ν) : List κ := d.entries.map Prod.fst

def values (d : Dict κ ν) : List ν := d.entries.map Prod.snd

variable [DecidableEq κ]

def get (d : Dict κ ν) (k : κ) : Option ν := d.entries.lookup k

/-- Replaces the value at `k`, whose place it keeps. -/
def replace (k : κ) (v : ν) (e : κ × ν) : κ × ν := if e.1 = k then (k, v) else e

theorem replace_fst (k : κ) (v : ν) (e : κ × ν) : (replace k v e).1 = e.1 := by
  rw [replace]
  split
  · exact ‹e.1 = k›.symm
  · rfl

theorem keys_replace (k : κ) (v : ν) (es : List (κ × ν)) :
    (es.map (replace k v)).map Prod.fst = es.map Prod.fst := by
  rw [List.map_map]
  exact List.map_congr_left fun e _ => replace_fst k v e

def set (d : Dict κ ν) (k : κ) (v : ν) : Dict κ ν :=
  if h : k ∈ d.keys then ⟨d.entries.map (replace k v), by rw [keys_replace]; exact d.nodup⟩
  else
    ⟨d.entries ++ [(k, v)], by
      rw [List.map_append, List.nodup_append]
      refine ⟨d.nodup, List.nodup_singleton k, ?_⟩
      intro a ha b hb hab
      obtain rfl := List.mem_singleton.mp hb
      exact h (hab ▸ ha)⟩

/-- Removes `k`, or does nothing if it is absent. -/
def pop (d : Dict κ ν) (k : κ) : Dict κ ν :=
  ⟨d.entries.filter fun e => e.1 ≠ k, d.nodup.sublist (List.filter_sublist.map _)⟩

@[simp] theorem get_empty (k : κ) : (empty : Dict κ ν).get k = none := rfl

theorem mem_entries {d : Dict κ ν} {k : κ} {v : ν} : (k, v) ∈ d.entries ↔ d.get k = some v := by
  obtain ⟨es, hnodup⟩ := d
  simp only [get]
  induction es with
  | nil => simp
  | cons e es ih =>
    obtain ⟨k', v'⟩ := e
    obtain ⟨hnew, hrest⟩ := List.nodup_cons.mp hnodup
    rw [List.mem_cons, List.lookup_cons, ih hrest]
    by_cases hk : k = k'
    · subst k'
      have hnone : es.lookup k = none := by
        rw [List.lookup_eq_none_iff]
        intro e he
        rw [bne_iff_ne]
        intro hk
        exact hnew (List.mem_map.mpr ⟨e, he, hk.symm⟩)
      simp [hnone, eq_comm]
    · simp [hk, beq_eq_false_iff_ne.mpr hk]

theorem mem_keys {d : Dict κ ν} {k : κ} : k ∈ d.keys ↔ (d.get k).isSome = true := by
  rw [keys, List.mem_map, Option.isSome_iff_exists]
  constructor
  · rintro ⟨⟨k', v⟩, he, rfl⟩
    exact ⟨v, mem_entries.mp he⟩
  · rintro ⟨v, hv⟩
    exact ⟨(k, v), mem_entries.mpr hv, rfl⟩

theorem mem_values {d : Dict κ ν} {v : ν} : v ∈ d.values ↔ ∃ k, d.get k = some v := by
  rw [values, List.mem_map]
  constructor
  · rintro ⟨⟨k, v'⟩, he, rfl⟩
    exact ⟨k, mem_entries.mp he⟩
  · rintro ⟨k, hk⟩
    exact ⟨(k, v), mem_entries.mpr hk, rfl⟩

theorem get_eq_none {d : Dict κ ν} {k : κ} : d.get k = none ↔ k ∉ d.keys := by
  rw [mem_keys]
  simp

theorem get_set (d : Dict κ ν) (k k' : κ) (v : ν) :
    (d.set k v).get k' = if k' = k then some v else d.get k' := by
  ext w
  rw [← mem_entries, set]
  split
  · simp only [List.mem_map]
    constructor
    · rintro ⟨⟨a, b⟩, he, heq⟩
      by_cases ha : a = k
      · rw [replace, if_pos ha, Prod.mk.injEq] at heq
        rw [if_pos heq.1.symm, heq.2]
      · rw [replace, if_neg ha, Prod.mk.injEq] at heq
        obtain ⟨rfl, rfl⟩ := heq
        rw [if_neg ha]
        exact mem_entries.mp he
    · intro h
      by_cases hk : k' = k
      · subst k'
        rw [if_pos rfl, Option.some.injEq] at h
        obtain ⟨e, he, hfst⟩ := List.mem_map.mp ‹k ∈ d.keys›
        exact ⟨e, he, by rw [replace, if_pos hfst, h]⟩
      · rw [if_neg hk] at h
        exact ⟨(k', w), mem_entries.mpr h, if_neg hk⟩
  · rename_i habsent
    rw [List.mem_append, List.mem_singleton, Prod.mk.injEq, mem_entries]
    by_cases hk : k' = k
    · subst k'
      rw [if_pos rfl, get_eq_none.mpr habsent]
      simp [eq_comm]
    · simp [hk]

@[simp] theorem get_set_self (d : Dict κ ν) (k : κ) (v : ν) : (d.set k v).get k = some v := by
  rw [get_set, if_pos rfl]

theorem set_eq_self {d : Dict κ ν} {k : κ} {v : ν} : d.set k v = d ↔ d.get k = some v := by
  constructor
  · intro h
    rw [← h, get_set_self]
  · intro h
    have hkey : k ∈ d.keys := mem_keys.mpr (by rw [h]; rfl)
    rw [set, dif_pos hkey]
    ext1
    refine (List.map_congr_left fun e he => ?_).trans (List.map_id d.entries)
    by_cases hk : e.1 = k
    · have hv : d.get e.1 = some e.2 := mem_entries.mp he
      rw [hk, h] at hv
      rw [replace, if_pos hk, Option.some.inj hv, ← hk]
      rfl
    · rw [replace, if_neg hk]
      rfl

theorem get_pop (d : Dict κ ν) (k k' : κ) :
    (d.pop k).get k' = if k' = k then none else d.get k' := by
  ext w
  rw [← mem_entries, pop, List.mem_filter, mem_entries]
  by_cases hk : k' = k
  · simp [hk]
  · simp [hk]

/-! ## Runs of updates -/

/-- `some v` sets the key, and `none` removes it. -/
def update (d : Dict κ ν) (u : κ × Option ν) : Dict κ ν :=
  match u.2 with
  | some v => d.set u.1 v
  | none => d.pop u.1

theorem get_update (d : Dict κ ν) (u : κ × Option ν) (k : κ) :
    (d.update u).get k = if k = u.1 then u.2 else d.get k := by
  obtain ⟨k', v⟩ := u
  cases v with
  | some v => exact get_set d k' k v
  | none => exact get_pop d k' k

/-- After a run, each key holds what the last update to it says. -/
theorem get_foldl_update (us : List (κ × Option ν)) (d : Dict κ ν) (k : κ) :
    (us.foldl update d).get k =
      match (us.filter fun u => u.1 = k).getLast? with
      | some u => u.2
      | none => d.get k := by
  induction us using List.reverseRecOn with
  | nil => rfl
  | append_singleton us u ih =>
    rw [List.foldl_append, List.foldl_cons, List.foldl_nil, get_update, List.filter_append]
    by_cases hk : u.1 = k
    · simp [hk]
    · rw [if_neg (Ne.symm hk), ih]
      simp [hk]

/-- Setting keys that differ gives each of them its value. -/
theorem get_foldl_set {es : List (κ × ν)} (hnodup : (es.map Prod.fst).Nodup) (d : Dict κ ν)
    (k : κ) : (es.foldl (fun d e => d.set e.1 e.2) d).get k = (es.lookup k).or (d.get k) := by
  induction es generalizing d with
  | nil => rfl
  | cons e es ih =>
    rw [List.map_cons, List.nodup_cons] at hnodup
    rw [List.foldl_cons, ih hnodup.2, get_set, List.lookup_cons]
    by_cases hk : k = e.1
    · have hnone : es.lookup k = none := by
        rw [List.lookup_eq_none_iff]
        intro e' he'
        rw [bne_iff_ne, hk]
        exact fun h => hnodup.1 (h ▸ List.mem_map_of_mem he')
      rw [hnone, if_pos hk, beq_iff_eq.mpr hk]
      rfl
    · rw [if_neg hk, beq_false_of_ne hk]

/-! ## Totals -/

section Total

variable (f : ν → ℕ)

def total {κ : Type*} (d : Dict κ ν) : ℕ := (d.values.map f).sum

theorem sum_replace {k : κ} {v w : ν} {es : List (κ × ν)} (hnodup : (es.map Prod.fst).Nodup)
    (hmem : (k, w) ∈ es) :
    ((es.map (replace k v)).map fun e => f e.2).sum + f w = (es.map fun e => f e.2).sum + f v := by
  induction es with
  | nil => cases hmem
  | cons e es ih =>
    obtain ⟨hnew, hrest⟩ := List.nodup_cons.mp hnodup
    simp only [List.map_cons, List.sum_cons]
    rcases List.mem_cons.mp hmem with rfl | hmem
    · have hsame : es.map (replace k v) = es := by
        refine (List.map_congr_left fun e he => ?_).trans (List.map_id es)
        have hne : e.1 ≠ k := fun h => hnew (List.mem_map.mpr ⟨e, he, h⟩)
        rw [replace, if_neg hne, id]
      rw [hsame, replace, if_pos rfl]
      dsimp only
      omega
    · have hne : e.1 ≠ k := by
        intro hk
        exact hnew (List.mem_map.mpr ⟨(k, w), hmem, hk.symm⟩)
      have h := ih hrest hmem
      rw [replace, if_neg hne]
      omega

theorem total_set (d : Dict κ ν) (k : κ) (v : ν) :
    (d.set k v).total f + ((d.get k).map f).getD 0 = d.total f + f v := by
  rw [set]
  split
  · rename_i hmem
    obtain ⟨w, hw⟩ := Option.isSome_iff_exists.mp (mem_keys.mp hmem)
    have hsum := sum_replace f d.nodup (v := v) (mem_entries.mpr hw)
    simp only [total, values, hw, List.map_map, Option.map_some, Option.getD_some]
    rwa [List.map_map] at hsum
  · rename_i habsent
    simp [total, values, get_eq_none.mpr habsent]

end Total

/-! ## Changed values -/

section MapValues

variable {μ : Type*} (f : ν → μ)

omit [DecidableEq κ] in
theorem keys_map (d : Dict κ ν) : (d.entries.map (Prod.map id f)).map Prod.fst = d.keys := by
  rw [List.map_map]
  rfl

def mapValues (d : Dict κ ν) : Dict κ μ :=
  ⟨d.entries.map (Prod.map id f), (keys_map f d).symm ▸ d.nodup⟩

omit [DecidableEq κ] in
@[simp] theorem keys_mapValues (d : Dict κ ν) : (d.mapValues f).keys = d.keys := keys_map f d

theorem entries_set (d : Dict κ ν) (k : κ) (v : ν) : (d.set k v).entries =
    if k ∈ d.keys then d.entries.map (replace k v) else d.entries ++ [(k, v)] := by
  rw [set]
  split <;> rfl

theorem mapValues_set (d : Dict κ ν) (k : κ) (v : ν) :
    (d.set k v).mapValues f = (d.mapValues f).set k (f v) := by
  ext1
  change (d.set k v).entries.map (Prod.map id f) = _
  rw [entries_set, entries_set, keys_mapValues]
  change _ = if k ∈ d.keys then (d.entries.map (Prod.map id f)).map (replace k (f v))
    else d.entries.map (Prod.map id f) ++ [(k, f v)]
  split
  · rw [List.map_map, List.map_map]
    refine List.map_congr_left fun e _ => ?_
    by_cases he : e.1 = k <;> simp [replace, he]
  · rw [List.map_append]
    rfl

theorem mapValues_pop (d : Dict κ ν) (k : κ) : (d.pop k).mapValues f = (d.mapValues f).pop k := by
  ext1
  change (d.entries.filter fun e => e.1 ≠ k).map (Prod.map id f) =
    (d.entries.map (Prod.map id f)).filter fun e => e.1 ≠ k
  rw [List.filter_map]
  rfl

theorem mapValues_update (d : Dict κ ν) (u : κ × Option ν) :
    (d.update u).mapValues f = (d.mapValues f).update (u.1, u.2.map f) := by
  obtain ⟨k, v⟩ := u
  cases v with
  | some v => exact mapValues_set f d k v
  | none => exact mapValues_pop f d k

end MapValues

end Dict

end Dictionary
