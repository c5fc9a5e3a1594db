import Mathlib.Data.List.Induction

/-!
# Replays of a log, and of the latest entry per owner

Each entry of a log speaks about a key, and the last entry about a key decides its value.
Each entry also has an owner. Keeping only the latest entry of every owner gives the same
values as long as no owner moves from one key to another.
-/
namespace Replay

section Definitions

variable {α κ ι ν : Type*} [DecidableEq κ] [DecidableEq ι] (key : α → κ) (owner : α → ι)
  (value : α → Option ν)

def last (k : κ) (log : List α) : Option α := (log.filter fun x => key x = k).getLast?

def replay (k : κ) (log : List α) : Option ν := (last key k log).bind value

/-- The latest entry takes the place of its owner's earlier one, at the end. -/
def push (kept : List α) (x : α) : List α := (kept.filter fun y => owner y ≠ owner x) ++ [x]

def latest (log : List α) : List α := log.foldl (push owner) []

@[simp] theorem last_nil (k : κ) : last key k [] = none := rfl

theorem last_concat (k : κ) (log : List α) (x : α) :
    last key k (log ++ [x]) = if key x = k then some x else last key k log := by
  rw [last, List.filter_append]
  by_cases hk : key x = k
  · simp [hk]
  · simp [hk, last]

@[simp] theorem latest_nil : latest owner ([] : List α) = [] := rfl

theorem latest_concat (log : List α) (x : α) :
    latest owner (log ++ [x]) = push owner (latest owner log) x := by
  rw [latest, List.foldl_append]
  rfl

end Definitions

variable {α κ ι ν : Type*} [DecidableEq κ] [DecidableEq ι] {key : α → κ} {owner : α → ι}
  {value : α → Option ν}

theorem of_last {k : κ} {log : List α} {x : α} (h : last key k log = some x) :
    x ∈ log ∧ key x = k := by
  have hmem := List.mem_of_getLast? h
  rw [List.mem_filter, decide_eq_true_eq] at hmem
  exact hmem

theorem last_filter {k : κ} {log : List α} {x : α} {p : α → Bool} (h : last key k log = some x)
    (hx : p x = true) : last key k (log.filter p) = some x := by
  obtain ⟨init, hinit⟩ := List.getLast?_eq_some_iff.mp h
  rw [last, List.filter_filter]
  simp only [Bool.and_comm]
  rw [← List.filter_filter, hinit, List.filter_append]
  simp [hx]

theorem latest_sublist (log : List α) : (latest owner log).Sublist log := by
  induction log using List.reverseRecOn with
  | nil => exact List.Sublist.slnil
  | append_singleton log x ih =>
    rw [latest_concat, push]
    exact (List.filter_sublist.trans ih).append (List.Sublist.refl [x])

theorem mem_latest {log : List α} {x : α} :
    x ∈ latest owner log ↔ last owner (owner x) log = some x := by
  induction log using List.reverseRecOn with
  | nil => simp
  | append_singleton log y ih =>
    rw [latest_concat, push, last_concat, List.mem_append, List.mem_filter, List.mem_singleton, ih]
    by_cases howner : owner y = owner x
    · simp [howner, eq_comm]
    · have hne : x ≠ y := fun h => howner (by rw [h])
      simp [howner, Ne.symm howner, hne]

theorem latest_map {β : Type*} (f : β → α) (log : List β) :
    latest owner (log.map f) = (latest (fun b => owner (f b)) log).map f := by
  induction log using List.reverseRecOn with
  | nil => rfl
  | append_singleton log b ih =>
    rw [List.map_append, List.map_singleton, latest_concat, latest_concat, push, push, ih,
      List.map_append, List.filter_map]
    rfl

/-- Later entries take the place of their owners' earlier ones. -/
theorem latest_append (xs ys : List α) :
    latest owner (xs ++ ys) =
      (latest owner xs).filter (fun x => owner x ∉ ys.map owner) ++ latest owner ys := by
  induction ys using List.reverseRecOn with
  | nil =>
    rw [List.append_nil, latest_nil, List.append_nil, List.filter_eq_self.mpr fun x _ => ?_]
    exact decide_eq_true List.not_mem_nil
  | append_singleton ys y ih =>
    rw [← List.append_assoc, latest_concat, latest_concat, push, push, ih, List.filter_append,
      List.filter_filter, List.append_assoc]
    congr 2
    refine funext fun x => ?_
    rw [← Bool.decide_and, decide_eq_decide, List.map_append, List.mem_append, not_or, and_comm,
      List.map_singleton, List.mem_singleton]

/-- Entries whose owners all come again leave nothing behind. -/
theorem latest_append_overwritten {xs ys zs : List α} (h : ∀ y ∈ ys, owner y ∈ zs.map owner) :
    latest owner (xs ++ ys ++ zs) = latest owner (xs ++ zs) := by
  have hys : (latest owner ys).filter (fun y => owner y ∉ zs.map owner) = [] := by
    refine List.filter_eq_nil_iff.mpr fun y hy => ?_
    simpa using List.mem_map.mp (h y ((latest_sublist ys).subset hy))
  have hxs : ((latest owner xs).filter fun x => owner x ∉ ys.map owner).filter
      (fun x => owner x ∉ zs.map owner) =
        (latest owner xs).filter fun x => owner x ∉ zs.map owner := by
    rw [List.filter_filter]
    refine List.filter_congr fun x _ => ?_
    have hcovered : owner x ∈ ys.map owner → owner x ∈ zs.map owner := by
      intro hx
      obtain ⟨y, hy, howner⟩ := List.mem_map.mp hx
      exact howner ▸ h y hy
    rw [← Bool.decide_and, decide_eq_decide]
    exact and_iff_left_of_imp fun hzs hys => hzs (hcovered hys)
  rw [latest_append, latest_append, latest_append, List.filter_append, hys, hxs, List.append_nil]

/-- The last entry about a key, if it is also its owner's latest, decides in both replays. -/
theorem last_latest {k : κ} {log : List α} {x : α} (hkey : last key k log = some x)
    (howner : last owner (owner x) log = some x) : last key k (latest owner log) = some x := by
  induction log using List.reverseRecOn with
  | nil => cases hkey
  | append_singleton log y ih =>
    have hx := (of_last hkey).2
    rw [last_concat] at hkey howner
    rw [latest_concat, push, last_concat]
    by_cases hk : key y = k
    · rw [if_pos hk] at hkey ⊢
      exact hkey
    · have hne : owner y ≠ owner x := by
        intro hsame
        rw [if_pos hsame, Option.some.injEq] at howner
        exact hk (howner ▸ hx)
      rw [if_neg hk] at hkey ⊢
      rw [if_neg hne] at howner
      exact last_filter (ih hkey howner) (by simpa using hne.symm)

/-- An entry that is the last about its key and one that is the latest of its owner are the
same if they share both. -/
theorem last_unique {k : κ} {i : ι} {log : List α} {x y : α} (hx : last key k log = some x)
    (hy : last owner i log = some y) (howner : owner x = i) (hkey : key y = k) : x = y := by
  induction log using List.reverseRecOn with
  | nil => cases hx
  | append_singleton log z ih =>
    rw [last_concat] at hx hy
    by_cases hk : key z = k
    · obtain rfl : z = x := by simpa [hk] using hx
      simpa [howner] using hy
    · have hi : owner z ≠ i := by
        intro hi
        obtain rfl : z = y := by simpa [hi] using hy
        exact hk hkey
      rw [if_neg hk] at hx
      rw [if_neg hi] at hy
      exact ih hx hy

/-- The two replays differ exactly at a key whose last entry belongs to an owner that has moved
on, unless that entry is a removal and nothing is left under the key. -/
theorem replay_latest_iff {log : List α}
    (hvalue : ∀ x y v, value x = some v → value y = some v → owner x = owner y) :
    (∀ k, replay key value k (latest owner log) = replay key value k log) ↔
      ∀ k x, last key k log = some x → last owner (owner x) log ≠ some x →
        value x = none ∧ replay key value k (latest owner log) = none := by
  constructor
  · intro h k x hx hmoved
    have hk := h k
    rw [replay, replay, hx, Option.bind_some] at hk
    cases hv : value x with
    | none => exact ⟨rfl, by rw [replay, hk, hv]⟩
    | some v =>
      rw [hv] at hk
      obtain ⟨y, hy, hyv⟩ := Option.bind_eq_some_iff.mp hk
      obtain ⟨hylatest, hykey⟩ := of_last hy
      obtain rfl := last_unique hx (mem_latest.mp hylatest) (hvalue x y v hv hyv) hykey
      exact absurd (mem_latest.mp hylatest) hmoved
  · intro h k
    cases hx : last key k log with
    | none =>
      have hnone : last key k (latest owner log) = none := by
        rw [last, List.getLast?_eq_none_iff] at hx ⊢
        exact List.sublist_nil.mp (hx ▸ (latest_sublist log).filter _)
      rw [replay, replay, hx, hnone]
    | some x =>
      by_cases howner : last owner (owner x) log = some x
      · rw [replay, replay, hx, last_latest hx howner]
      · obtain ⟨hv, hnone⟩ := h k x hx howner
        rw [hnone, replay, hx, Option.bind_some, hv]

/-! ## Overwriting -/

/-- The last value that an entry gives. -/
def lastGiven (given : α → Option ν) (log : List α) : Option ν := (log.filterMap given).getLast?

theorem lastGiven_eq_none {given : α → Option ν} {log : List α} :
    lastGiven given log = none ↔ ∀ x ∈ log, given x = none := by
  rw [lastGiven, List.getLast?_eq_none_iff, List.filterMap_eq_nil_iff]

/-- A slot that every entry overwrites or leaves holds the last value given. -/
theorem foldl_given {σ : Type*} {write : σ → α → σ} {given : α → Option ν} (slot : σ → Option ν)
    (hwrite : ∀ s x, slot (write s x) = (given x).or (slot s)) (log : List α) (s : σ) :
    slot (log.foldl write s) = (lastGiven given log).or (slot s) := by
  induction log using List.reverseRecOn with
  | nil => rfl
  | append_singleton log x ih =>
    rw [List.foldl_append, List.foldl_cons, List.foldl_nil, hwrite, ih, lastGiven, lastGiven,
      List.filterMap_append]
    cases hx : given x with
    | none => simp [hx]
    | some v => simp [hx]

end Replay
