import Mathlib.Data.List.Sort

/-!
# Stable sorting by a key

Sorting by a key keeps the order of elements with equal keys. `later` are the
elements that come after a given one in the result, told from the list before
it is sorted: those with a greater key, and those with the same key that follow
it. So the elements that are among the last ones of the result are those with
few later ones (`mem_drop_sortByKey_iff`).
-/

namespace Pebrel.Library.StableSort

open List

variable {α : Type*} (key : α → ℕ)

/-- Sort by a key, keeping the order of equal keys. -/
def sortByKey (l : List α) : List α := l.insertionSort fun a b => key a ≤ key b

theorem perm_sortByKey (l : List α) : (sortByKey key l).Perm l := perm_insertionSort _ _

theorem pairwise_sortByKey (l : List α) : (sortByKey key l).Pairwise fun a b => key a ≤ key b := by
  have ht : Std.Total fun a b : α => key a ≤ key b := ⟨fun a b => Nat.le_total _ _⟩
  have htra : IsTrans α fun a b => key a ≤ key b := ⟨fun _ _ _ => le_trans⟩
  exact pairwise_insertionSort _ _

theorem sortByKey_eq_self {l : List α} (h : l.Pairwise fun a b => key a ≤ key b) : sortByKey key l = l := h.insertionSort_eq

/-- If all keys differ, only the elements count, not their order. -/
theorem sortByKey_eq_of_perm {l l' : List α} (h : l.Perm l') (hnd : (l.map key).Nodup) : sortByKey key l = sortByKey key l' := by
  refine List.Perm.eq_of_pairwise (fun a b ha hb hab hba => ?_) (pairwise_sortByKey key l) (pairwise_sortByKey key l')
    ((perm_sortByKey key l).trans (h.trans (perm_sortByKey key l').symm))
  exact inj_on_of_nodup_map hnd ((perm_sortByKey key l).mem_iff.mp ha)
    (h.mem_iff.mpr ((perm_sortByKey key l').mem_iff.mp hb)) (Nat.le_antisymm hab hba)

variable {l pre post : List α} {a x : α}

/-- What stands before `a` in a list where `a` stands once. -/
theorem mem_pre_of_pair_sublist (hnd : (pre ++ a :: post).Nodup) (h : [x, a].Sublist (pre ++ a :: post)) : x ∈ pre := by
  obtain ⟨-, hpost, -⟩ := nodup_append.mp hnd
  obtain ⟨hn, -⟩ := nodup_cons.mp hpost
  obtain ⟨l1, l2, heq, hl1, hl2⟩ := sublist_append_iff.mp h
  cases l1 with
  | cons y l1 =>
    rw [cons_append] at heq
    rw [(List.cons.inj heq).1]
    exact hl1.subset mem_cons_self
  | nil =>
    rw [nil_append] at heq
    rw [← heq] at hl2
    rcases sublist_cons_iff.mp hl2 with hs | ⟨r, hr, hs⟩
    · exact absurd (hs.subset (mem_cons_of_mem x mem_cons_self)) hn
    · rw [← (List.cons.inj hr).2] at hs
      exact absurd (hs.subset mem_cons_self) hn

/-- What stands after `a` in a list where `a` stands once. -/
theorem mem_post_of_pair_sublist (hnd : (pre ++ a :: post).Nodup) (h : [a, x].Sublist (pre ++ a :: post)) : x ∈ post := by
  have hr : (post.reverse ++ a :: pre.reverse).Nodup := by
    have := nodup_reverse.mpr hnd
    rwa [reverse_append, reverse_cons, append_assoc, singleton_append] at this
  have hs : [x, a].Sublist (post.reverse ++ a :: pre.reverse) := by
    simpa only [reverse_append, reverse_cons, reverse_nil, nil_append, append_assoc, singleton_append] using h.reverse
  exact mem_reverse.mp (mem_pre_of_pair_sublist hr hs)

variable [DecidableEq α]

/-- The elements that come after `a` when the list is sorted. -/
def later (l : List α) (a : α) : List α :=
  l.filter fun x => key a < key x ∨ (key a = key x ∧ l.idxOf a < l.idxOf x)

theorem pair_sublist_of_idxOf_lt (ha : a ∈ l) (hx : x ∈ l) (h : l.idxOf a < l.idxOf x) : [a, x].Sublist l := by
  obtain ⟨pre, post, rfl, hn⟩ := eq_append_cons_of_mem ha
  rw [idxOf_append_of_notMem hn, idxOf_cons_self] at h
  have hp : x ∉ pre := fun hm => by
    rw [idxOf_append_of_mem hm] at h
    have := idxOf_lt_length_iff.mpr hm
    omega
  rcases mem_cons.mp ((mem_append.mp hx).resolve_left hp) with rfl | hpost
  · rw [idxOf_append_of_notMem hp, idxOf_cons_self] at h
    exact absurd h (lt_irrefl _)
  · exact ((singleton_sublist.mpr hpost).cons_cons a).trans (sublist_append_right _ _)

/-- The elements after `a` in the sorted list are the later ones. -/
theorem mem_post_iff (hnd : l.Nodup) (hsort : sortByKey key l = pre ++ a :: post) : x ∈ post ↔ x ∈ later key l a := by
  have hperm := perm_sortByKey key l
  have hs := pairwise_sortByKey key l
  have hnd' := hperm.nodup_iff.mpr hnd
  have hstab : ∀ {b c : α}, key b ≤ key c → [b, c].Sublist l → [b, c].Sublist (sortByKey key l) := fun hbc h =>
    pair_sublist_insertionSort hbc h
  rw [hsort] at hperm hs hnd' hstab
  have hm : ∀ y, y ∈ pre ++ a :: post ↔ y ∈ l := fun y => hperm.mem_iff
  have ha : a ∈ l := (hm a).mp (mem_append_right _ mem_cons_self)
  obtain ⟨-, hpost, hd⟩ := nodup_append.mp hnd'
  obtain ⟨-, hsorte, hc⟩ := pairwise_append.mp hs
  unfold later
  rw [mem_filter, decide_eq_true_eq]
  constructor
  · intro hx
    have hxl := (hm x).mp (mem_append_right _ (mem_cons_of_mem a hx))
    refine ⟨hxl, ?_⟩
    have hle : key a ≤ key x := (pairwise_cons.mp hsorte).1 x hx
    rcases Nat.lt_or_ge (key a) (key x) with hlt | hge
    · exact .inl hlt
    refine Or.inr ⟨Nat.le_antisymm hle hge, ?_⟩
    by_contra hi
    have hne : l.idxOf x ≠ l.idxOf a := fun heq => by
      have hxa : x = a := (idxOf_inj hxl).mp heq
      exact (nodup_cons.mp hpost).1 (hxa ▸ hx)
    have hsub := hstab hge (pair_sublist_of_idxOf_lt hxl ha (by omega))
    exact hd x (mem_pre_of_pair_sublist hnd' hsub) x (mem_cons_of_mem a hx) rfl
  · rintro ⟨hxl, hl⟩
    rcases mem_append.mp ((hm x).mpr hxl) with hx | hx
    · have hle : key x ≤ key a := hc x hx a mem_cons_self
      rcases hl with hlt | ⟨heq, hi⟩
      · exact absurd hlt (not_lt.mpr hle)
      · exact mem_post_of_pair_sublist hnd' (hstab heq.le (pair_sublist_of_idxOf_lt ha hxl hi))
    · rcases mem_cons.mp hx with rfl | hx
      · rcases hl with hlt | ⟨-, hi⟩
        · exact absurd hlt (lt_irrefl _)
        · exact absurd hi (lt_irrefl _)
      · exact hx

/-- An element is among the last `n` of the sorted list if fewer than `n` are later. -/
theorem mem_drop_sortByKey_iff (hnd : l.Nodup) (ha : a ∈ l) (n : ℕ) :
    a ∈ (sortByKey key l).drop ((sortByKey key l).length - n) ↔ (later key l a).length < n := by
  have hperm := perm_sortByKey key l
  have hnd' := hperm.nodup_iff.mpr hnd
  obtain ⟨pre, post, hsort⟩ := append_of_mem (hperm.mem_iff.mpr ha)
  have hl : post.length = (later key l a).length := by
    rw [hsort] at hnd'
    have hpost := (nodup_cons.mp (nodup_append.mp hnd').2.1).2
    exact ((perm_ext_iff_of_nodup hpost (hnd.filter _)).mpr fun x => mem_post_iff key hnd hsort).length_eq
  rw [hsort] at hnd' ⊢
  obtain ⟨-, hpost, hd⟩ := nodup_append.mp hnd'
  have hn := (nodup_cons.mp hpost).1
  have hlen : (pre ++ a :: post).length = pre.length + 1 + post.length := by
    rw [length_append, length_cons]
    omega
  rw [← hl, hlen, drop_append]
  constructor
  · intro h
    rcases mem_append.mp h with h | h
    · exact absurd rfl (hd a (mem_of_mem_drop h) a mem_cons_self)
    · by_contra hge
      rw [show pre.length + 1 + post.length - n - pre.length = post.length - n + 1 by omega, drop_succ_cons] at h
      exact hn (mem_of_mem_drop h)
  · intro h
    refine mem_append_right _ ?_
    rw [show pre.length + 1 + post.length - n - pre.length = 0 by omega, drop_zero]
    exact mem_cons_self

end Pebrel.Library.StableSort
