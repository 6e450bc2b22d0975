import Mathlib.Data.List.Dedup
import Mathlib.Data.List.Infix

/-!
# What was used last, and how often

A list of keys in the order of their last uses, each with the number of its uses
since it came into the list. What is used goes to the end, and what is over the
bound is dropped from the front.

The keys of the list are the last of the different keys that were used
(`keys_run`), and the number of a key is that of its uses since it was not in the list
(`uses_run`).
-/

namespace Pebrel.Library.Recency

open List

variable {κ : Type*} [DecidableEq κ] {bound : ℕ} {l : List (κ × ℕ)} {c : κ} {used : List κ}

/-- The last `n` entries. -/
def lastN {α : Type*} (n : ℕ) (l : List α) : List α := l.drop (l.length - n)

/-- How often a key was used. -/
def usesOf (l : List (κ × ℕ)) (c : κ) : ℕ := ((l.find? fun e => e.1 = c).map Prod.snd).getD 0

/-- A use of a key. -/
def touch (bound : ℕ) (l : List (κ × ℕ)) (c : κ) : List (κ × ℕ) :=
  lastN bound (l.filter (fun e => e.1 ≠ c) ++ [(c, usesOf l c + 1)])

def run (bound : ℕ) (used : List κ) : List (κ × ℕ) := used.foldl (touch bound) []

def keys (l : List (κ × ℕ)) : List κ := l.map Prod.fst

variable {α : Type*} {n u : ℕ}

theorem run_concat (bound : ℕ) (used : List κ) (c : κ) : run bound (used ++ [c]) = touch bound (run bound used) c := by
  rw [run, foldl_append]
  rfl

/-! ### The last entries of a list -/

theorem lastN_sublist (n : ℕ) (l : List α) : (lastN n l).Sublist l := drop_sublist _ _

theorem length_lastN (n : ℕ) (l : List α) : (lastN n l).length = min n l.length := by
  rw [lastN, length_drop]
  omega

theorem map_lastN {β : Type*} (f : α → β) (n : ℕ) (l : List α) : (lastN n l).map f = lastN n (l.map f) := by
  rw [lastN, lastN, map_drop, length_map]

theorem lastN_of_le {l : List α} (h : l.length ≤ n) : lastN n l = l := by
  rw [lastN, Nat.sub_eq_zero_of_le h, drop_zero]

theorem lastN_append (l : List α) {m : List α} (h : n ≤ m.length) : lastN n (l ++ m) = lastN n m := by
  have hl : (l ++ m).length - n = l.length + (m.length - n) := by
    rw [length_append]
    omega
  rw [lastN, hl, ← drop_drop, drop_left, lastN]

/-! ### Keys -/

theorem keys_touch (bound : ℕ) (l : List (κ × ℕ)) (c : κ) : keys (touch bound l c) = lastN bound ((keys l).filter (· ≠ c) ++ [c]) := by
  rw [keys, touch, map_lastN, map_append, keys, filter_map]
  rfl

theorem dedup_concat (used : List κ) (c : κ) : (used ++ [c]).dedup = used.dedup.filter (· ≠ c) ++ [c] := by
  induction used with
  | nil => simp
  | cons a used ih =>
    by_cases hm : a ∈ used
    · rw [cons_append, dedup_cons_of_mem (mem_append_left _ hm), ih, dedup_cons_of_mem hm]
    by_cases hac : a = c
    · have hin : a ∈ used ++ [c] := mem_append_right _ (mem_singleton.mpr hac)
      rw [cons_append, dedup_cons_of_mem hin, ih, dedup_cons_of_notMem hm, filter_cons_of_neg (by simpa using hac)]
    · have ho : a ∉ used ++ [c] := by simp [hm, hac]
      rw [cons_append, dedup_cons_of_notMem ho, ih, dedup_cons_of_notMem hm, filter_cons_of_pos (by simpa using hac), cons_append]

/-- Taking a key out of the last entries, where it is put back at the end. -/
theorem lastN_filter_concat (hnd : used.Nodup) (n : ℕ) (c : κ) :
    lastN n ((lastN n used).filter (· ≠ c) ++ [c]) = lastN n (used.filter (· ≠ c) ++ [c]) := by
  by_cases hle : used.length ≤ n
  · rw [lastN_of_le hle]
  have hl : (lastN n used).length = n := by
    rw [length_lastN]
    omega
  have hlg : n ≤ ((lastN n used).filter (· ≠ c) ++ [c]).length := by
    have he := @le_length_erase _ _ _ c (lastN n used)
    have hf := (hnd.sublist (lastN_sublist n used)).erase_eq_filter c
    have hsm : (lastN n used).filter (· != c) = (lastN n used).filter (· ≠ c) := filter_congr fun x _ => by by_cases h : x = c <;> simp [h]
    rw [hsm] at hf
    rw [length_append, length_singleton, ← hf]
    omega
  have hsp : used.filter (· ≠ c) = (used.take (used.length - n)).filter (· ≠ c) ++ (lastN n used).filter (· ≠ c) := by
    rw [← filter_append, lastN, take_append_drop]
  rw [hsp, append_assoc, lastN_append _ hlg]

/-- **The keys are the last of the different keys that were used.** -/
theorem keys_run (bound : ℕ) (used : List κ) : keys (run bound used) = lastN bound used.dedup := by
  induction used using reverseRecOn with
  | nil => simp [run, keys, lastN]
  | append_singleton used c ih => rw [run_concat, keys_touch, ih, lastN_filter_concat used.nodup_dedup, dedup_concat]

theorem nodup_keys_run (bound : ℕ) (used : List κ) : (keys (run bound used)).Nodup := by
  rw [keys_run]
  exact used.nodup_dedup.sublist (lastN_sublist _ _)

theorem length_touch_le (bound : ℕ) (l : List (κ × ℕ)) (c : κ) : (touch bound l c).length ≤ bound := by
  rw [touch, length_lastN]
  exact Nat.min_le_left _ _

/-! ### Uses -/

theorem usesOf_of_not_mem (h : c ∉ keys l) : usesOf l c = 0 := by
  have hn : (l.find? fun e => e.1 = c) = none := by
    rw [find?_eq_none]
    intro e he hc
    exact h (mem_map.mpr ⟨e, he, by simpa using hc⟩)
  rw [usesOf, hn]
  rfl

theorem usesOf_of_mem (hnd : (keys l).Nodup) (h : (c, u) ∈ l) : usesOf l c = u := by
  induction l with
  | nil => cases h
  | cons e l ih =>
    obtain ⟨ho, hr⟩ := nodup_cons.mp hnd
    rcases mem_cons.mp h with rfl | h
    · simp [usesOf]
    · have hne : e.1 ≠ c := fun he => ho (mem_map.mpr ⟨_, h, he.symm⟩)
      rw [usesOf, find?_cons_of_neg (by simpa using hne)]
      exact ih hr h

theorem mem_touch {e : κ × ℕ} (h : e ∈ touch bound l c) : e = (c, usesOf l c + 1) ∨ e ∈ l ∧ e.1 ≠ c := by
  rcases mem_append.mp ((lastN_sublist _ _).subset h) with h | h
  · exact .inr ⟨mem_of_mem_filter h, by simpa using of_mem_filter h⟩
  · exact .inl (mem_singleton.mp h)

/-- **The number of a key is that of its uses since it was not in the list.** -/
theorem uses_run (h : (c, u) ∈ run bound used) : ∃ before after, used = before ++ c :: after ∧ c ∉ keys (run bound before) ∧
    (∀ mid, mid <+: after → c ∈ keys (run bound (before ++ c :: mid))) ∧ u = after.countP (· = c) + 1 := by
  induction used using reverseRecOn generalizing u with
  | nil => cases h
  | append_singleton used d ih =>
    have hk : c ∈ keys (run bound (used ++ [d])) := mem_map.mpr ⟨_, h, rfl⟩
    rw [run_concat] at h
    -- A use of a key that is in the list goes on with its uses.
    have hgoes : ∀ u', (c, u') ∈ run bound used → u = u' + (if d = c then 1 else 0) → ∃ before after, used ++ [d] = before ++ c :: after ∧
        c ∉ keys (run bound before) ∧ (∀ mid, mid <+: after → c ∈ keys (run bound (before ++ c :: mid))) ∧ u = after.countP (· = c) + 1 := by
      intro u' hu' hu
      obtain ⟨before, after, rfl, ho, hin, hc⟩ := ih hu'
      refine ⟨before, after ++ [d], by rw [append_assoc, cons_append], ho, fun mid hm => ?_, ?_⟩
      · rcases prefix_concat_iff.mp hm with rfl | hm
        · rw [← cons_append, ← append_assoc]
          exact hk
        · exact hin mid hm
      · rw [hu, hc, countP_append, countP_singleton]
        simp only [decide_eq_true_eq]
        omega
    rcases mem_touch h with he | ⟨he, hne⟩
    · obtain ⟨rfl, rfl⟩ := Prod.mk.inj he
      by_cases hmem : c ∈ keys (run bound used)
      · obtain ⟨⟨c', u'⟩, hu', rfl⟩ := mem_map.mp hmem
        refine hgoes u' hu' ?_
        rw [usesOf_of_mem (nodup_keys_run bound used) hu', if_pos rfl]
      refine ⟨used, [], rfl, hmem, fun mid hm => ?_, ?_⟩
      · rw [prefix_nil.mp hm]
        exact hk
      · rw [usesOf_of_not_mem hmem, countP_nil]
    · exact hgoes u he (by rw [if_neg (Ne.symm hne), Nat.add_zero])

end Pebrel.Library.Recency
