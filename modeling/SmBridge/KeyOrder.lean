import SmBridge.Jcs
import Mathlib.Order.Defs.Unbundled

/-!
# Two orders of the keys

Strings are compared by code point or by their UTF-16 code units. The two orders differ on
characters above the first plane: their surrogates are smaller than U+E000.
-/
namespace KeyOrder

open Python
open Jcs

/-- The place of a character in the order of UTF-16: the end of the first plane comes last. -/
def rank (c : Char) : ℕ :=
  if 0xe000 ≤ c.toNat ∧ c.toNat < 0x10000 then c.toNat + 0x110000 else c.toNat

/-- The one character stands above the first plane, the other at its end. -/
def crossed (c d : Char) : Bool :=
  0x10000 ≤ c.toNat && 0xe000 ≤ d.toNat && d.toNat < 0x10000

/-- The first characters in which two keys differ are ones that the two orders compare
differently. -/
def mixed : List Char → List Char → Bool
  | c :: s, d :: t => if c = d then mixed s t else crossed c d || crossed d c
  | _, _ => false

theorem toNat_ne {c d : Char} (h : c ≠ d) : c.toNat ≠ d.toNat :=
  fun heq => h (Char.toNat_inj.mp heq)

theorem rank_injective : Function.Injective rank := by
  intro c d h
  have hc : c.toNat < 0xd800 ∨ 0xdfff < c.toNat ∧ c.toNat < 0x110000 := c.valid
  have hd : d.toNat < 0xd800 ∨ 0xdfff < d.toNat ∧ d.toNat < 0x110000 := d.valid
  rw [rank, rank] at h
  refine Char.toNat_inj.mp ?_
  split at h <;> split at h <;> omega

/-- The order of two characters changes exactly if they are crossed. -/
theorem lt_iff_rank_lt {c d : Char} (h : c ≠ d) :
    (c < d ↔ rank c < rank d) ↔ (crossed c d || crossed d c) = false := by
  have hne := toNat_ne h
  have hlt : c < d ↔ c.toNat < d.toNat := Iff.rfl
  have hc : c.toNat < 0xd800 ∨ 0xdfff < c.toNat ∧ c.toNat < 0x110000 := c.valid
  have hd : d.toNat < 0xd800 ∨ 0xdfff < d.toNat ∧ d.toNat < 0x110000 := d.valid
  simp only [hlt, rank, crossed, Bool.or_eq_false_iff, Bool.and_eq_false_iff,
    decide_eq_false_iff_not]
  split <;> split <;> omega

/-! ## The order of the encoded keys -/

/-- A writing of code units that keeps their order. -/
structure KeepsOrder {β : Type} [LT β] (write : ℕ → List β) : Prop where
  ne_nil : ∀ n, write n ≠ []
  append_lt : ∀ n < 0x10000, ∀ m < 0x10000, ∀ s t,
    write n ++ s < write m ++ t ↔ n < m ∨ n = m ∧ s < t

variable {β : Type} [LT β] {write : ℕ → List β} {c d : Char} {s t : List β}

theorem KeepsOrder.units_lt (h : KeepsOrder write) (hne : c ≠ d) :
    (utf16Units c).flatMap write ++ s < (utf16Units d).flatMap write ++ t ↔ rank c < rank d := by
  have hnat := toNat_ne hne
  have hc : c.toNat < 0xd800 ∨ 0xdfff < c.toNat ∧ c.toNat < 0x110000 := c.valid
  have hd : d.toNat < 0xd800 ∨ 0xdfff < d.toNat ∧ d.toNat < 0x110000 := d.valid
  rw [utf16Units, utf16Units, rank, rank]
  split <;> split <;>
    simp only [List.flatMap_cons, List.flatMap_nil, List.append_nil, List.append_assoc] <;>
    rw [h.append_lt _ (by omega) _ (by omega)]
  · split <;> split <;> omega
  · split <;> split <;> omega
  · split <;> split <;> omega
  · rw [h.append_lt _ (by omega) _ (by omega)]
    split <;> split <;> omega

theorem KeepsOrder.units_lt_self (h : KeepsOrder write) (c : Char) :
    (utf16Units c).flatMap write ++ s < (utf16Units c).flatMap write ++ t ↔ s < t := by
  have hc : c.toNat < 0xd800 ∨ 0xdfff < c.toNat ∧ c.toNat < 0x110000 := c.valid
  rw [utf16Units]
  split <;> simp only [List.flatMap_cons, List.flatMap_nil, List.append_nil, List.append_assoc] <;>
    rw [h.append_lt _ (by omega) _ (by omega)]
  · simp
  · rw [h.append_lt _ (by omega) _ (by omega)]
    simp

theorem KeepsOrder.nil_lt_units (h : KeepsOrder write) (c : Char) (s : List β) :
    [] < (utf16Units c).flatMap write ++ s := by
  have hne : (utf16Units c).flatMap write ≠ [] := by
    rw [utf16Units]
    split <;> simp [h.ne_nil]
  obtain ⟨x, xs, hx⟩ := List.exists_cons_of_ne_nil hne
  rw [hx]
  exact List.nil_lt_cons x _

/-- Encoded texts are in the order of the ranks of their characters. -/
theorem KeepsOrder.encoded_lt (h : KeepsOrder write) (cs ds : List Char) :
    (cs.flatMap utf16Units).flatMap write < (ds.flatMap utf16Units).flatMap write ↔
      cs.map rank < ds.map rank := by
  induction cs generalizing ds with
  | nil =>
    cases ds with
    | nil => simp
    | cons d ds =>
      rw [List.flatMap_cons, List.flatMap_append]
      exact iff_of_true (h.nil_lt_units d _) (List.nil_lt_cons _ _)
  | cons c cs ih =>
    cases ds with
    | nil => simp
    | cons d ds =>
      rw [List.flatMap_cons, List.flatMap_cons, List.flatMap_append, List.flatMap_append,
        List.map_cons, List.map_cons, List.cons_lt_cons_iff]
      by_cases hcd : c = d
      · subst hcd
        rw [h.units_lt_self, ih]
        simp
      · rw [h.units_lt hcd]
        simp [rank_injective.ne hcd]

theorem keepsOrder_singleton : KeepsOrder fun n => [n] where
  ne_nil _ := List.cons_ne_nil _ []
  append_lt _ _ _ _ _ _ := List.cons_lt_cons_iff

theorem bigEndian16_keepsOrder : KeepsOrder bigEndian16 where
  ne_nil _ := List.cons_ne_nil _ _
  append_lt n hn m hm s t := by
    have hbyte : ∀ a b : ℕ, UInt8.ofNat a < UInt8.ofNat b ↔ a % 256 < b % 256 := by
      intro a b
      rw [UInt8.lt_iff_toNat_lt, UInt8.toNat_ofNat', UInt8.toNat_ofNat']
    have hsame : ∀ a b : ℕ, UInt8.ofNat a = UInt8.ofNat b ↔ a % 256 = b % 256 := by
      intro a b
      rw [← UInt8.toNat_inj, UInt8.toNat_ofNat', UInt8.toNat_ofNat']
    have hn' : n / 256 % 256 = n / 256 := Nat.mod_eq_of_lt (by omega)
    have hm' : m / 256 % 256 = m / 256 := Nat.mod_eq_of_lt (by omega)
    simp only [bigEndian16, List.cons_append, List.nil_append, List.cons_lt_cons_iff, hbyte, hsame,
      hn', hm']
    by_cases hst : s < t <;> simp only [hst, and_true, and_false, or_false] <;> omega

/-- The keys in the order of UTF-16, as `jcs_canonical` sorts them. -/
def utf16Le (s t : String) : Prop := encodeUtf16be s ≤ encodeUtf16be t

instance : DecidableRel utf16Le := fun s t =>
  inferInstanceAs (Decidable (encodeUtf16be s ≤ encodeUtf16be t))

theorem utf16Le_iff {s t : String} : utf16Le s t ↔ ¬ t.toList.map rank < s.toList.map rank := by
  rw [← bigEndian16_keepsOrder.encoded_lt, utf16Le, ← List.not_lt]
  rfl

instance : Std.Total utf16Le where
  total s t := List.le_total (encodeUtf16be s) (encodeUtf16be t)

instance : IsTrans String utf16Le where
  trans _ _ _ := List.le_trans

instance : Std.Antisymm utf16Le where
  antisymm s t hst hts := by
    rw [utf16Le_iff, List.not_lt] at hst hts
    exact String.toList_injective
      (List.map_injective_iff.mpr rank_injective (List.le_antisymm hst hts))

theorem mixed_comm (cs ds : List Char) : mixed cs ds = mixed ds cs := by
  induction cs generalizing ds with
  | nil => cases ds <;> rfl
  | cons c cs ih =>
    cases ds with
    | nil => rfl
    | cons d ds =>
      rw [mixed, mixed, ih, Bool.or_comm]
      simp only [eq_comm]

/-- The two orders agree on a pair of keys exactly if they are not mixed. -/
theorem lt_iff_map_rank_lt (cs ds : List Char) :
    (cs < ds ↔ cs.map rank < ds.map rank) ↔ mixed cs ds = false := by
  induction cs generalizing ds with
  | nil => cases ds <;> simp [mixed]
  | cons c cs ih =>
    cases ds with
    | nil => simp [mixed]
    | cons d ds =>
      rw [List.map_cons, List.map_cons, List.cons_lt_cons_iff, List.cons_lt_cons_iff, mixed]
      by_cases hcd : c = d
      · subst hcd
        simpa using ih ds
      · simpa [hcd, rank_injective.eq_iff] using lt_iff_rank_lt hcd

theorem le_iff_utf16Le {s t : String} :
    (s ≤ t ↔ utf16Le s t) ↔ mixed s.toList t.toList = false := by
  rw [utf16Le_iff, ← String.not_lt, not_iff_not, String.lt_iff, lt_iff_map_rank_lt, mixed_comm]

end KeyOrder
