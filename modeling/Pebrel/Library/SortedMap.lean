import Mathlib.Algebra.Order.Ring.Nat
import Mathlib.Data.List.Pairwise

/-!
# Sorted maps

A map as the list of its entries in the order of their keys. The entries are
strictly sorted, so there is one for each key (`get?_eq_some_iff`), and those from a key on are
a suffix (`mem_range`).
-/

namespace Pebrel.Library

open List

/-- A map with its entries in the order of the keys. -/
structure SortedMap (κ α : Type*) [LinearOrder κ] where
  entries : List (κ × α)
  sorted : entries.Pairwise fun e f => e.1 < f.1

namespace SortedMap

variable {κ α : Type*} [LinearOrder κ] {key k : κ} {v w : α} {m : SortedMap κ α} {e : κ × α}

def empty : SortedMap κ α := ⟨[], .nil⟩

instance : Inhabited (SortedMap κ α) := ⟨empty⟩

def get? (m : SortedMap κ α) (key : κ) : Option α := (m.entries.find? fun e => e.1 = key).map Prod.snd

/-- Put an entry in its place, where it replaces one with the same key. -/
def insertEntry (key : κ) (v : α) : List (κ × α) → List (κ × α)
  | [] => [(key, v)]
  | e :: rest =>
    if key < e.1 then (key, v) :: e :: rest
    else if key = e.1 then (key, v) :: rest
    else e :: insertEntry key v rest

theorem mem_insertEntry {entries : List (κ × α)} (hsort : entries.Pairwise fun e f => e.1 < f.1) :
    e ∈ insertEntry key v entries ↔ e = (key, v) ∨ e ∈ entries ∧ e.1 ≠ key := by
  induction entries with
  | nil => simp [insertEntry]
  | cons f rest ih =>
    obtain ⟨hf, hr⟩ := pairwise_cons.mp hsort
    rw [insertEntry]
    split
    · rename_i hlt
      rw [mem_cons, mem_cons]
      refine or_congr_right ⟨fun h => ⟨h, ?_⟩, And.left⟩
      rcases h with rfl | h
      · exact hlt.ne'
      · exact (hlt.trans (hf e h)).ne'
    · split
      · rename_i heq
        rw [mem_cons, mem_cons]
        refine or_congr_right ⟨fun h => ⟨.inr h, heq ▸ (hf e h).ne'⟩, ?_⟩
        rintro ⟨rfl | h, hne⟩
        · exact absurd heq.symm hne
        · exact h
      · rename_i hle hne
        rw [mem_cons, ih hr, mem_cons]
        constructor
        · rintro (rfl | rfl | h)
          · exact .inr ⟨.inl rfl, .symm hne⟩
          · exact .inl rfl
          · exact .inr ⟨.inr h.1, h.2⟩
        · rintro (rfl | ⟨rfl | h, hk⟩)
          · exact .inr (.inl rfl)
          · exact .inl rfl
          · exact .inr (.inr ⟨h, hk⟩)

theorem insertEntry_sorted {entries : List (κ × α)} (hsort : entries.Pairwise fun e f => e.1 < f.1) :
    (insertEntry key v entries).Pairwise fun e f => e.1 < f.1 := by
  induction entries with
  | nil => exact pairwise_singleton _ _
  | cons f rest ih =>
    obtain ⟨hf, hr⟩ := pairwise_cons.mp hsort
    rw [insertEntry]
    split
    · rename_i hlt
      refine pairwise_cons.mpr ⟨fun e he => ?_, hsort⟩
      rcases mem_cons.mp he with rfl | he
      · exact hlt
      · exact hlt.trans (hf e he)
    · split
      · rename_i heq
        exact pairwise_cons.mpr ⟨fun e he => heq ▸ hf e he, hr⟩
      · rename_i hle hne
        refine pairwise_cons.mpr ⟨fun e he => ?_, ih hr⟩
        rcases (mem_insertEntry hr).mp he with rfl | ⟨he, -⟩
        · exact lt_of_le_of_ne (not_lt.mp hle) (.symm hne)
        · exact hf e he

def insert (key : κ) (v : α) (m : SortedMap κ α) : SortedMap κ α := ⟨insertEntry key v m.entries, insertEntry_sorted m.sorted⟩

def erase (key : κ) (m : SortedMap κ α) : SortedMap κ α := ⟨m.entries.filter fun e => e.1 ≠ key, m.sorted.filter _⟩

/-- The entries from a key on. -/
def range (m : SortedMap κ α) (key : κ) : List (κ × α) := m.entries.dropWhile fun e => e.1 < key

theorem get?_empty (key : κ) : (empty : SortedMap κ α).get? key = none := rfl

/-- There is one entry for a key. -/
theorem eq_of_key {e f : κ × α} (he : e ∈ m.entries) (hf : f ∈ m.entries) (hk : e.1 = f.1) : e = f := by
  have hpw : m.entries.Pairwise fun e f => e.1 = f.1 → e = f := m.sorted.imp fun hlt heq => absurd heq hlt.ne
  have hflip : m.entries.Pairwise (flip fun e f => e.1 = f.1 → e = f) := hpw.imp fun h hfe => (h hfe.symm).symm
  exact List.Pairwise.forall_of_forall_of_flip (fun _ _ _ => rfl) hpw hflip he hf hk

theorem get?_eq_some_iff : m.get? key = some v ↔ (key, v) ∈ m.entries := by
  rw [get?, Option.map_eq_some_iff]
  constructor
  · rintro ⟨⟨k, w⟩, hfd, rfl⟩
    obtain rfl : k = key := by simpa using find?_some hfd
    exact mem_of_find?_eq_some hfd
  · intro hm
    cases hfd : m.entries.find? fun e => e.1 = key with
    | none => exact absurd (find?_eq_none.mp hfd _ hm) (by simp)
    | some e =>
      have hk : e.1 = key := by simpa using find?_some hfd
      exact ⟨e, rfl, congrArg Prod.snd (eq_of_key (mem_of_find?_eq_some hfd) hm hk)⟩

theorem get?_insert : (m.insert key v).get? k = if k = key then some v else m.get? k := by
  refine Option.ext fun w => ?_
  rw [get?_eq_some_iff, insert, mem_insertEntry m.sorted]
  split
  · rename_i hk
    simp [hk, eq_comm]
  · rename_i hk
    rw [get?_eq_some_iff]
    simp [hk]

theorem get?_erase : (m.erase key).get? k = if k = key then none else m.get? k := by
  refine Option.ext fun w => ?_
  rw [get?_eq_some_iff, erase, mem_filter]
  split
  · rename_i hk
    simp [hk]
  · rename_i hk
    rw [get?_eq_some_iff]
    simp [hk]

theorem mem_dropWhile {entries : List (κ × α)} (hsort : entries.Pairwise fun e f => e.1 < f.1) :
    e ∈ entries.dropWhile (fun e => e.1 < key) ↔ e ∈ entries ∧ key ≤ e.1 := by
  induction entries with
  | nil => simp
  | cons f rest ih =>
    obtain ⟨hf, hr⟩ := pairwise_cons.mp hsort
    by_cases hlt : f.1 < key
    · rw [dropWhile_cons_of_pos (by simpa using hlt), ih hr, mem_cons]
      refine and_congr_left fun hle => (or_iff_right fun h => ?_).symm
      exact absurd (h ▸ hlt) (not_lt.mpr hle)
    rw [dropWhile_cons_of_neg (by simpa using hlt)]
    refine (and_iff_left_of_imp fun h => ?_).symm
    rcases mem_cons.mp h with rfl | h
    · exact not_lt.mp hlt
    · exact (not_lt.mp hlt).trans (hf e h).le

theorem mem_range : e ∈ m.range key ↔ e ∈ m.entries ∧ key ≤ e.1 := mem_dropWhile m.sorted

theorem range_sorted (m : SortedMap κ α) (key : κ) : (m.range key).Pairwise fun e f => e.1 < f.1 := m.sorted.sublist (dropWhile_sublist _)

end SortedMap

end Pebrel.Library
