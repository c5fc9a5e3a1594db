import Mathlib.Data.List.Pairwise
import Mathlib.Data.List.Sort

/-!
# Trees of lists and records, and their writing

A record holds fields under keys, in the order it is written in; two trees are the same if
they only differ in that order. Sorting the fields at every level gives the trees that are the
same one normal form. The writing of a tree between marks can be read back from the front.
-/
namespace KeyedTrees

inductive Tree (α κ : Type*) where
  | leaf (a : α)
  | list (xs : List (Tree α κ))
  | record (fields : List (κ × Tree α κ))

namespace Tree

section Definitions

variable {α κ : Type*}

/-- What holds of every leaf, and of the keys of every record. -/
inductive Everywhere (p : α → Prop) (q : List κ → Prop) : Tree α κ → Prop where
  | leaf {a : α} (h : p a) : Everywhere p q (.leaf a)
  | list {xs : List (Tree α κ)} (h : ∀ x ∈ xs, Everywhere p q x) : Everywhere p q (.list xs)
  | record {fields : List (κ × Tree α κ)} (hkeys : q (fields.map Prod.fst))
      (h : ∀ field ∈ fields, Everywhere p q field.2) : Everywhere p q (.record fields)

/-- Every record has each key once. -/
def Distinct (t : Tree α κ) : Prop := t.Everywhere (fun _ => True) List.Nodup

/-- Every record has its keys in strictly increasing order. -/
def Sorted (le : κ → κ → Prop) (t : Tree α κ) : Prop :=
  t.Everywhere (fun _ => True) fun keys => keys.Pairwise fun a b => le a b ∧ a ≠ b

/-- The same value: the same leaf, the same elements in the same order, or the same keys with
the same value under each. -/
inductive Same : Tree α κ → Tree α κ → Prop where
  | leaf (a : α) : Same (.leaf a) (.leaf a)
  | list {xs ys : List (Tree α κ)} (hlength : xs.length = ys.length)
      (h : ∀ pair ∈ xs.zip ys, Same pair.1 pair.2) : Same (.list xs) (.list ys)
  | record {fields others : List (κ × Tree α κ)}
      (hkeys : ∀ k, k ∈ fields.map Prod.fst ↔ k ∈ others.map Prod.fst)
      (h : ∀ k v w, (k, v) ∈ fields → (k, w) ∈ others → Same v w) :
      Same (.record fields) (.record others)

@[elab_as_elim]
theorem induction {motive : Tree α κ → Prop} (leaf : ∀ a, motive (.leaf a))
    (list : ∀ xs, (∀ x ∈ xs, motive x) → motive (.list xs))
    (record : ∀ fields, (∀ field ∈ fields, motive field.2) → motive (.record fields))
    (t : Tree α κ) : motive t := by
  refine @Tree.rec α κ motive (fun xs => ∀ x ∈ xs, motive x)
    (fun fields => ∀ field ∈ fields, motive field.2) (fun field => motive field.2)
    leaf list record ?_ ?_ ?_ ?_ (fun _ _ hvalue => hvalue) t
  · exact fun x hx => absurd hx List.not_mem_nil
  · exact fun x xs hx hxs => List.forall_mem_cons.mpr ⟨hx, hxs⟩
  · exact fun field hfield => absurd hfield List.not_mem_nil
  · exact fun field fields hfield hfields => List.forall_mem_cons.mpr ⟨hfield, hfields⟩

section Normalization

variable (le : κ → κ → Prop) [DecidableRel le]

def sortFields {β : Type*} (fields : List (κ × β)) : List (κ × β) :=
  fields.insertionSort fun a b => le a.1 b.1

mutual

/-- The fields of every record in the order of their keys. -/
def normalize : Tree α κ → Tree α κ
  | .leaf a => .leaf a
  | .list xs => .list (normalizeElements xs)
  | .record fields => .record (sortFields le (normalizeFields fields))

def normalizeElements : List (Tree α κ) → List (Tree α κ)
  | [] => []
  | x :: xs => normalize x :: normalizeElements xs

def normalizeFields : List (κ × Tree α κ) → List (κ × Tree α κ)
  | [] => []
  | (k, v) :: fields => (k, normalize v) :: normalizeFields fields

end

end Normalization

end Definitions

/-! ## Lists that are sorted by their keys -/

section Sorting

variable {κ β : Type*} {le le' : κ → κ → Prop} [DecidableRel le] [DecidableRel le']
  {fields others : List (κ × β)}

theorem sortFields_perm (fields : List (κ × β)) : (sortFields le fields).Perm fields :=
  List.perm_insertionSort _ fields

theorem mem_sortFields {field : κ × β} : field ∈ sortFields le fields ↔ field ∈ fields :=
  (sortFields_perm fields).mem_iff

theorem mem_keys {k : κ} : k ∈ fields.map Prod.fst ↔ ∃ v, (k, v) ∈ fields := by
  rw [List.mem_map]
  constructor
  · intro h
    obtain ⟨⟨k', v⟩, hmem, rfl⟩ := h
    exact ⟨v, hmem⟩
  · intro h
    obtain ⟨v, hmem⟩ := h
    exact ⟨(k, v), hmem, rfl⟩

theorem value_unique (hkeys : (fields.map Prod.fst).Nodup) {k : κ} {v w : β}
    (hv : (k, v) ∈ fields) (hw : (k, w) ∈ fields) : v = w :=
  congrArg Prod.snd (List.inj_on_of_nodup_map hkeys hv hw rfl)

theorem sortFields_map {γ : Type*} (f : β → γ) (fields : List (κ × β)) :
    sortFields le (fields.map (Prod.map id f)) =
      (sortFields le fields).map (Prod.map id f) :=
  (List.map_insertionSort _ _ (Prod.map id f) fields fun _ _ _ _ => Iff.rfl).symm

theorem map_fst_sortFields (fields : List (κ × β)) :
    (sortFields le fields).map Prod.fst = (fields.map Prod.fst).insertionSort le :=
  List.map_insertionSort _ _ Prod.fst fields fun _ _ _ _ => Iff.rfl

theorem sortFields_congr (h : ∀ k ∈ fields.map Prod.fst, ∀ k' ∈ fields.map Prod.fst,
    le k k' ↔ le' k k') : sortFields le fields = sortFields le' fields := by
  have hmap := List.map_insertionSort (fun a b : κ × β => le a.1 b.1) (fun a b => le' a.1 b.1)
    id fields fun a ha b hb => h a.1 (List.mem_map_of_mem ha) b.1 (List.mem_map_of_mem hb)
  rwa [List.map_id, List.map_id] at hmap

variable [Std.Total le] [IsTrans κ le]

theorem pairwise_sortFields (fields : List (κ × β)) :
    (sortFields le fields).Pairwise fun a b => le a.1 b.1 := by
  have hkeys := List.pairwise_insertionSort le (fields.map Prod.fst)
  rw [← map_fst_sortFields] at hkeys
  exact List.pairwise_map.mp hkeys

variable [Std.Antisymm le]

/-- Fields under distinct keys are sorted in only one way. -/
theorem sortFields_eq_iff_perm (hkeys : (fields.map Prod.fst).Nodup) :
    sortFields le fields = sortFields le others ↔ fields.Perm others := by
  constructor
  · intro h
    exact (sortFields_perm fields).symm.trans (h ▸ sortFields_perm others)
  · intro h
    refine List.Perm.eq_of_pairwise ?_ (pairwise_sortFields fields) (pairwise_sortFields others)
      ((sortFields_perm fields).trans (h.trans (sortFields_perm others).symm))
    intro a b ha hb hab hba
    refine List.inj_on_of_nodup_map hkeys (mem_sortFields.mp ha) ?_ (antisymm hab hba)
    exact h.mem_iff.mpr (mem_sortFields.mp hb)

variable [Std.Total le'] [IsTrans κ le'] [Std.Antisymm le']

/-- Two orders sort distinct keys alike only if they agree on them. -/
theorem agree_of_insertionSort_eq {keys : List κ}
    (h : keys.insertionSort le = keys.insertionSort le') :
    ∀ k ∈ keys, ∀ k' ∈ keys, le k k' ↔ le' k k' := by
  have hle : (keys.insertionSort le).Pairwise le := List.pairwise_insertionSort le keys
  have hle' : (keys.insertionSort le).Pairwise le' := h ▸ List.pairwise_insertionSort le' keys
  have hagree : ∀ {a b}, le a b → le' a b → (le a b ↔ le' a b) ∧ (le b a ↔ le' b a) := by
    intro a b hab hab'
    refine ⟨iff_of_true hab hab', fun hba => ?_, fun hba => ?_⟩
    · exact antisymm hab hba ▸ hab'
    · exact antisymm hab' hba ▸ hab
  have hsymm : Std.Symm fun a b => (le a b ↔ le' a b) ∧ (le b a ↔ le' b a) := ⟨fun _ _ => And.symm⟩
  have hpairs := (hle.and hle').imp fun hab => hagree hab.1 hab.2
  intro k hk k' hk'
  rw [← List.mem_insertionSort le] at hk hk'
  exact (hpairs.forall_of_forall (fun x _ => hagree (refl x) (refl x)) hk hk').1

end Sorting

/-! ## The same values -/

section SameValues

variable {α κ : Type*} {fields others : List (κ × Tree α κ)}

theorem same_leaf_iff {a b : α} : (Tree.leaf a : Tree α κ).Same (.leaf b) ↔ a = b := by
  constructor
  · intro h
    cases h
    rfl
  · rintro rfl
    exact .leaf a

theorem Same.value {k : κ} {x y : Tree α κ} (h : (Tree.record fields).Same (.record others))
    (hx : (k, x) ∈ fields) (hy : (k, y) ∈ others) : x.Same y := by
  cases h with
  | record _ h => exact h k x y hx hy

theorem Same.keys {k : κ} (h : (Tree.record fields).Same (.record others)) :
    k ∈ fields.map Prod.fst ↔ k ∈ others.map Prod.fst := by
  cases h with
  | record hkeys _ => exact hkeys k

/-- Records with the same keys in the same places are compared value by value. -/
theorem same_record_iff (hkeys : fields.map Prod.fst = others.map Prod.fst)
    (hnodup : (fields.map Prod.fst).Nodup) :
    (Tree.record fields).Same (.record others) ↔
      List.Forall₂ Same (fields.map Prod.snd) (others.map Prod.snd) := by
  have hvalues : (∀ k x y, (k, x) ∈ fields → (k, y) ∈ others → x.Same y) ↔
      List.Forall₂ Same (fields.map Prod.snd) (others.map Prod.snd) := by
    induction fields generalizing others with
    | nil =>
      obtain rfl : others = [] := List.map_eq_nil_iff.mp hkeys.symm
      simp
    | cons field fields ih =>
      rcases others with - | ⟨other, others⟩
      · cases hkeys
      obtain ⟨hkey, hrest⟩ := List.cons.inj hkeys
      obtain ⟨hnew, hnodup⟩ := List.nodup_cons.mp hnodup
      rw [List.map_cons, List.map_cons, List.forall₂_cons, ← ih hrest hnodup]
      constructor
      · intro h
        refine ⟨h field.1 _ _ List.mem_cons_self (hkey ▸ List.mem_cons_self), ?_⟩
        intro k x y hx hy
        exact h k x y (List.mem_cons_of_mem _ hx) (List.mem_cons_of_mem _ hy)
      · intro ⟨hhead, htail⟩ k x y hx hy
        rcases List.mem_cons.mp hx with rfl | hx <;> rcases List.mem_cons.mp hy with rfl | hy
        · exact hhead
        · exact absurd (hrest ▸ mem_keys.mpr ⟨y, hy⟩) hnew
        · exact absurd (hkey ▸ mem_keys.mpr ⟨x, hx⟩) hnew
        · exact htail k x y hx hy
  rw [← hvalues]
  constructor
  · intro h k x y
    exact h.value
  · intro h
    exact .record (fun k => hkeys ▸ Iff.rfl) h

end SameValues

/-! ## Normal forms -/

section NormalForms

variable {α κ : Type*} {le le' : κ → κ → Prop} [DecidableRel le] [DecidableRel le']
  {xs ys : List (Tree α κ)} {fields others : List (κ × Tree α κ)} {u v : Tree α κ}

theorem Everywhere.imp {p p' : α → Prop} {q q' : List κ → Prop} (hp : ∀ a, p a → p' a)
    (hq : ∀ keys, q keys → q' keys) (h : u.Everywhere p q) : u.Everywhere p' q' := by
  induction h with
  | leaf h => exact .leaf (hp _ h)
  | list _ ih => exact .list ih
  | record hkeys _ ih => exact .record (hq _ hkeys) ih

theorem Distinct.elements (h : (Tree.list xs).Distinct) : ∀ x ∈ xs, x.Distinct := by
  cases h with
  | list h => exact h

theorem Distinct.keys (h : (Tree.record fields).Distinct) : (fields.map Prod.fst).Nodup := by
  cases h with
  | record hkeys _ => exact hkeys

theorem Distinct.values (h : (Tree.record fields).Distinct) :
    ∀ field ∈ fields, field.2.Distinct := by
  cases h with
  | record _ h => exact h

@[simp] theorem normalize_leaf (a : α) : normalize le (.leaf a : Tree α κ) = .leaf a := rfl

theorem normalizeElements_eq (xs : List (Tree α κ)) :
    normalizeElements le xs = xs.map (normalize le) := by
  induction xs with
  | nil => rfl
  | cons x xs ih => rw [normalizeElements, ih, List.map_cons]

theorem normalizeFields_eq (fields : List (κ × Tree α κ)) :
    normalizeFields le fields = fields.map (Prod.map id (normalize le)) := by
  induction fields with
  | nil => rfl
  | cons field fields ih => rw [normalizeFields, ih, List.map_cons, Prod.map, id]

@[simp] theorem normalize_list (xs : List (Tree α κ)) :
    normalize le (.list xs) = .list (xs.map (normalize le)) := by
  rw [normalize, normalizeElements_eq]

@[simp] theorem normalize_record (fields : List (κ × Tree α κ)) :
    normalize le (.record fields) =
      .record (sortFields le (fields.map (Prod.map id (normalize le)))) := by
  rw [normalize, normalizeFields_eq]

theorem keys_map {β γ : Type*} (f : β → γ) (fields : List (κ × β)) :
    (fields.map (Prod.map id f)).map Prod.fst = fields.map Prod.fst := by
  rw [List.map_map]
  rfl

theorem mem_map_values {β γ : Type*} {f : β → γ} {fields : List (κ × β)} {k : κ} {c : γ} :
    (k, c) ∈ fields.map (Prod.map id f) ↔ ∃ b, (k, b) ∈ fields ∧ f b = c := by
  rw [List.mem_map]
  constructor
  · intro h
    obtain ⟨⟨k', b⟩, hmem, heq⟩ := h
    obtain ⟨rfl, rfl⟩ := Prod.mk.inj heq
    exact ⟨b, hmem, rfl⟩
  · intro h
    obtain ⟨b, hmem, rfl⟩ := h
    exact ⟨(k, b), hmem, rfl⟩

/-- Fields under distinct keys, with equal values under each. -/
theorem perm_map_iff {β γ : Type*} {f : β → γ} {fields others : List (κ × β)}
    (hfields : (fields.map Prod.fst).Nodup) (hothers : (others.map Prod.fst).Nodup) :
    (fields.map (Prod.map id f)).Perm (others.map (Prod.map id f)) ↔
      (∀ k, k ∈ fields.map Prod.fst ↔ k ∈ others.map Prod.fst) ∧
        ∀ k v w, (k, v) ∈ fields → (k, w) ∈ others → f v = f w := by
  rw [← keys_map f] at hfields hothers
  constructor
  · intro h
    refine ⟨fun k => ?_, fun k v w hv hw => ?_⟩
    · rw [← keys_map f fields, ← keys_map f others]
      exact (h.map Prod.fst).mem_iff
    · refine value_unique hothers ?_ (mem_map_values.mpr ⟨w, hw, rfl⟩)
      exact h.mem_iff.mp (mem_map_values.mpr ⟨v, hv, rfl⟩)
  · intro ⟨hkeys, hvalues⟩
    refine (List.perm_ext_iff_of_nodup hfields.of_map hothers.of_map).mpr fun ⟨k, c⟩ => ?_
    rw [mem_map_values, mem_map_values]
    constructor
    · intro h
      obtain ⟨v, hv, rfl⟩ := h
      obtain ⟨w, hw⟩ := mem_keys.mp ((hkeys k).mp (mem_keys.mpr ⟨v, hv⟩))
      exact ⟨w, hw, (hvalues k v w hv hw).symm⟩
    · intro h
      obtain ⟨w, hw, rfl⟩ := h
      obtain ⟨v, hv⟩ := mem_keys.mp ((hkeys k).mpr (mem_keys.mpr ⟨w, hw⟩))
      exact ⟨v, hv, hvalues k v w hv hw⟩

theorem map_eq_map_iff {β γ : Type*} {f : β → γ} {xs ys : List β} :
    xs.map f = ys.map f ↔
      xs.length = ys.length ∧ ∀ pair ∈ xs.zip ys, f pair.1 = f pair.2 := by
  induction xs generalizing ys with
  | nil => cases ys <;> simp
  | cons x xs ih =>
    cases ys with
    | nil => simp
    | cons y ys =>
      rw [List.map_cons, List.map_cons, List.cons.injEq, ih, List.length_cons, List.length_cons,
        Nat.add_right_cancel_iff, List.zip_cons_cons, List.forall_mem_cons]
      exact and_left_comm

omit [DecidableRel le] in
theorem Sorted.distinct (h : u.Sorted le) : u.Distinct :=
  h.imp (fun _ => id) fun _ hkeys => hkeys.imp And.right

theorem normalize_of_sorted (h : u.Sorted le) : normalize le u = u := by
  induction h with
  | leaf _ => rfl
  | list _ ih =>
    rw [normalize_list, Tree.list.injEq]
    exact (List.map_congr_left ih).trans (List.map_id _)
  | @record fields hkeys _ ih =>
    have hvalues : fields.map (Prod.map id (normalize le)) = fields.map id :=
      List.map_congr_left fun field hfield => Prod.ext rfl (ih field hfield)
    rw [normalize_record, hvalues, List.map_id, Tree.record.injEq]
    exact (List.pairwise_map.mp (hkeys.imp And.left)).insertionSort_eq

variable [Std.Total le] [IsTrans κ le]

theorem normalize_sorted (h : u.Distinct) : (normalize le u).Sorted le := by
  induction h with
  | leaf _ => exact .leaf trivial
  | list _ ih =>
    rw [normalize_list]
    refine .list fun x hx => ?_
    obtain ⟨y, hy, rfl⟩ := List.mem_map.mp hx
    exact ih y hy
  | @record fields hkeys _ ih =>
    rw [normalize_record]
    refine .record ?_ fun field hfield => ?_
    · rw [map_fst_sortFields, keys_map]
      have hnodup := ((List.perm_insertionSort le (fields.map Prod.fst)).nodup_iff).mpr hkeys
      exact (List.pairwise_insertionSort le (fields.map Prod.fst)).and hnodup
    · obtain ⟨value, hvalue, heq⟩ := mem_map_values.mp (mem_sortFields.mp hfield)
      exact heq ▸ ih (field.1, value) hvalue

variable [Std.Antisymm le]

/-- Two trees have one normal form exactly if they are the same. -/
theorem normalize_eq_iff_same (hu : u.Distinct) (hv : v.Distinct) :
    normalize le u = normalize le v ↔ u.Same v := by
  induction u using induction generalizing v with
  | leaf a =>
    cases v with
    | leaf b => rw [same_leaf_iff, normalize_leaf, normalize_leaf, Tree.leaf.injEq]
    | list ys => exact iff_of_false (by simp) nofun
    | record others => exact iff_of_false (by simp) nofun
  | list xs ih =>
    cases v with
    | leaf b => exact iff_of_false (by simp) nofun
    | list ys =>
      have hpairs : ∀ pair ∈ xs.zip ys,
          (normalize le pair.1 = normalize le pair.2 ↔ pair.1.Same pair.2) := by
        intro pair hpair
        have hmem := List.of_mem_zip hpair
        exact ih _ hmem.1 (hu.elements _ hmem.1) (hv.elements _ hmem.2)
      rw [normalize_list, normalize_list, Tree.list.injEq, map_eq_map_iff]
      constructor
      · intro ⟨hlength, h⟩
        exact .list hlength fun pair hpair => (hpairs pair hpair).mp (h pair hpair)
      · intro h
        cases h with
        | list hlength h =>
          exact ⟨hlength, fun pair hpair => (hpairs pair hpair).mpr (h pair hpair)⟩
    | record others => exact iff_of_false (by simp) nofun
  | record fields ih =>
    cases v with
    | leaf b => exact iff_of_false (by simp) nofun
    | list ys => exact iff_of_false (by simp) nofun
    | record others =>
      have hvalues : ∀ k x y, (k, x) ∈ fields → (k, y) ∈ others →
          (normalize le x = normalize le y ↔ x.Same y) := by
        intro k x y hx hy
        exact ih (k, x) hx (hu.values (k, x) hx) (hv.values (k, y) hy)
      rw [normalize_record, normalize_record, Tree.record.injEq,
        sortFields_eq_iff_perm ((keys_map _ fields).symm ▸ hu.keys), perm_map_iff hu.keys hv.keys]
      constructor
      · intro ⟨hkeys, h⟩
        exact .record hkeys fun k x y hx hy => (hvalues k x y hx hy).mp (h k x y hx hy)
      · intro h
        cases h with
        | record hkeys h =>
          exact ⟨hkeys, fun k x y hx hy => (hvalues k x y hx hy).mpr (h k x y hx hy)⟩

/-- The normal form is the only sorted tree that is the same. -/
theorem same_sorted_iff (hu : u.Distinct) : u.Same v ∧ v.Sorted le ↔ v = normalize le u := by
  constructor
  · intro ⟨hsame, hsorted⟩
    rw [(normalize_eq_iff_same hu hsorted.distinct).mpr hsame, normalize_of_sorted hsorted]
  · intro h
    subst h
    have hsorted : (normalize le u).Sorted le := normalize_sorted hu
    have hnormal : normalize le u = normalize le (normalize le u) :=
      (normalize_of_sorted hsorted).symm
    exact ⟨(normalize_eq_iff_same hu hsorted.distinct).mp hnormal, hsorted⟩

variable [Std.Total le'] [IsTrans κ le'] [Std.Antisymm le']

/-- Two orders give one normal form exactly if they agree on the keys of every record. -/
theorem normalize_eq_iff_agree (hu : u.Distinct) :
    normalize le u = normalize le' u ↔
      u.Everywhere (fun _ => True) fun keys =>
        ∀ k ∈ keys, ∀ k' ∈ keys, le k k' ↔ le' k k' := by
  induction u using induction with
  | leaf a => exact iff_of_true rfl (.leaf trivial)
  | list xs ih =>
    rw [normalize_list, normalize_list, Tree.list.injEq, List.map_inj_left]
    constructor
    · intro h
      exact .list fun x hx => (ih x hx (hu.elements x hx)).mp (h x hx)
    · intro h x hx
      cases h with
      | list h => exact (ih x hx (hu.elements x hx)).mpr (h x hx)
  | record fields ih =>
    rw [normalize_record, normalize_record, Tree.record.injEq]
    constructor
    · intro h
      refine .record ?_ fun field hfield => (ih field hfield (hu.values field hfield)).mp ?_
      · have hkeys := congrArg (List.map Prod.fst) h
        rw [map_fst_sortFields, map_fst_sortFields, keys_map, keys_map] at hkeys
        exact agree_of_insertionSort_eq hkeys
      · have hmem : (field.1, normalize le field.2) ∈
            sortFields le (fields.map (Prod.map id (normalize le))) :=
          mem_sortFields.mpr (mem_map_values.mpr ⟨field.2, hfield, rfl⟩)
        rw [h, mem_sortFields] at hmem
        obtain ⟨value, hvalue, heq⟩ := mem_map_values.mp hmem
        rw [← heq, value_unique hu.keys hfield hvalue]
    · intro h
      cases h with
      | record hkeys h =>
        have hvalues : fields.map (Prod.map id (normalize le)) =
            fields.map (Prod.map id (normalize le')) := by
          refine List.map_congr_left fun field hfield => Prod.ext rfl ?_
          exact (ih field hfield (hu.values field hfield)).mpr (h field hfield)
        rw [hvalues]
        refine sortFields_congr ?_
        rw [keys_map]
        exact hkeys

end NormalForms

end Tree
end KeyedTrees
