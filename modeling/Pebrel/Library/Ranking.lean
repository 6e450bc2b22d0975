import Mathlib.Data.List.Sort
import Mathlib.Data.Finset.Max

/-!
# The greatest elements of a list with repetitions

The rank of an element of a list is the number of different greater elements, so
the `k` greatest are those of a rank below `k`. A sorted list that is cut by the
number of its entries is cut by `atLeast` instead, which counts the repetitions:
the entries up to an element and with it. `atLeast_le_iff` says when the two agree.
-/

namespace Pebrel.Library.Ranking

open List

variable {α : Type*} [LinearOrder α] [DecidableEq α] {l m : List α} {x y z : α} {k : ℕ}

/-- The different elements that are greater than one. -/
def above (l : List α) (x : α) : List α := l.dedup.filter fun y => x < y

/-- The number of entries that are not smaller than an element. -/
def atLeast (l : List α) (x : α) : ℕ := l.countP fun y => x ≤ y

/-! ### Sorted lists -/

omit [DecidableEq α] in
/-- In a sorted list an element is among the first entries if few entries are smaller. -/
theorem mem_take_iff (hsort : l.Pairwise (· ≤ ·)) (hx : x ∈ l) (n : ℕ) : x ∈ l.take n ↔ l.countP (fun y => y < x) < n := by
  induction l generalizing n with
  | nil => simp at hx
  | cons y l ih =>
    obtain ⟨hy, hl⟩ := pairwise_cons.1 hsort
    cases n with
    | zero => simp
    | succ n =>
      rw [take_succ_cons, mem_cons]
      by_cases hlt : y < x
      · have hm : x ∈ l := (mem_cons.1 hx).resolve_left hlt.ne'
        rw [countP_cons_of_pos (by simpa using hlt), ih hl hm]
        simp [hlt.ne']
      have hxy : x = y := by
        rcases mem_cons.1 hx with h | h
        · exact h
        · exact le_antisymm (not_lt.1 hlt) (hy x h)
      have hn : l.countP (fun z => z < x) = 0 := by
        rw [countP_eq_zero]
        intro z hz
        simpa [hxy] using hy z hz
      rw [countP_cons_of_neg (by simpa using hlt), hn]
      simp [hxy]

omit [DecidableEq α] in
/-- **What is cut off the front of a sorted list**, told by the entries from an element on. -/
theorem mem_take_length_sub_iff (hsort : m.Pairwise (· ≤ ·)) (hperm : m.Perm l) (hx : x ∈ l) (k : ℕ) :
    x ∈ m.take (m.length - k) ↔ k < atLeast l x := by
  have hsp : l.countP (fun y => y < x) + atLeast l x = l.length := by
    rw [atLeast, l.length_eq_countP_add_countP fun y => y < x]
    simp
  rw [mem_take_iff hsort (hperm.mem_iff.2 hx), hperm.length_eq, hperm.countP_eq]
  omega

/-! ### Ranks -/

/-- A greater element has fewer above it. -/
theorem above_length_mono (h : x ≤ y) : (above l y).length ≤ (above l x).length := by
  refine List.Sublist.length_le ?_
  refine monotone_filter_right _ fun z hz => ?_
  simp only [decide_eq_true_eq] at hz ⊢
  exact h.trans_lt hz

/-- The different elements from one on: it and those above it. -/
theorem length_dedup_filter (hx : x ∈ l) : (l.filter fun y => x ≤ y).dedup.length = (above l x).length + 1 := by
  have hperm : ((l.filter fun y => x ≤ y).dedup).Perm (x :: above l x) := by
    refine (perm_ext_iff_of_nodup (nodup_dedup _) ?_).2 fun y => ?_
    · refine nodup_cons.2 ⟨by simp [above], (nodup_dedup l).filter _⟩
    simp only [above, mem_dedup, mem_filter, mem_cons, decide_eq_true_eq, le_iff_eq_or_lt]
    constructor
    · rintro ⟨hy, rfl | hlt⟩
      · exact .inl rfl
      · exact .inr ⟨hy, hlt⟩
    · rintro (rfl | ⟨hy, hlt⟩)
      · exact ⟨hx, .inl rfl⟩
      · exact ⟨hy, .inr hlt⟩
  simpa using hperm.length_eq

/-- Repetitions only add entries. -/
theorem above_lt_atLeast (hx : x ∈ l) : (above l x).length < atLeast l x := by
  have hle := (dedup_sublist (l.filter fun y => x ≤ y)).length_le
  rw [length_dedup_filter hx] at hle
  rwa [atLeast, countP_eq_length_filter]

/-- Where nothing from an element on is repeated, its rank counts the entries. -/
theorem atLeast_eq (hx : x ∈ l) (h : ∀ y ∈ l, x ≤ y → l.count y = 1) : atLeast l x = (above l x).length + 1 := by
  have hnd : (l.filter fun y => x ≤ y).Nodup := by
    rw [nodup_iff_count_eq_one]
    intro y hy
    simp only [mem_filter, decide_eq_true_eq] at hy
    rw [count_filter (by simpa using hy.2)]
    exact h y hy.1 hy.2
  rw [atLeast, countP_eq_length_filter, ← length_dedup_filter hx, hnd.dedup]

omit [LinearOrder α] in
/-- A list is longer than its different elements if one is repeated. -/
theorem length_dedup_lt (hx : 1 < l.count x) : l.dedup.length < l.length := by
  refine lt_of_le_of_ne (dedup_sublist l).length_le fun hl => ?_
  have heq := (dedup_sublist l).eq_of_length hl
  have hc := nodup_iff_count_le_one.1 (nodup_dedup l) x
  rw [heq] at hc
  omega

/-- If the `k` greatest elements are among the last `k` entries, they have no more than `k` entries: the least of them
has them all from itself on. -/
theorem length_greatest_le (h : ∀ x ∈ l, (above l x).length < k → atLeast l x ≤ k) (hx : x ∈ l) (hrank : (above l x).length < k) :
    (l.filter fun y => (above l y).length < k).length ≤ k := by
  have hxt : x ∈ (l.filter fun y => (above l y).length < k).toFinset := by
    rw [mem_toFinset, mem_filter]
    exact ⟨hx, by simpa using hrank⟩
  obtain ⟨y, hy, hm⟩ := Finset.exists_min_image _ id ⟨x, hxt⟩
  rw [mem_toFinset, mem_filter, decide_eq_true_eq] at hy
  refine le_trans ?_ (h y hy.1 hy.2)
  rw [atLeast, ← countP_eq_length_filter]
  refine countP_mono_left fun z hz hrank => ?_
  have hle := hm z (by rw [mem_toFinset, mem_filter]; exact ⟨hz, hrank⟩)
  simpa using hle

/-- If not all elements are among the `k` greatest, these are at least `k` different ones: those above the greatest of
the others. -/
theorem le_length_greatest (h : ¬∀ z ∈ l, (above l z).length < k) : k ≤ (l.filter fun y => (above l y).length < k).dedup.length := by
  push Not at h
  obtain ⟨z, hz, hrank⟩ := h
  have hzt : z ∈ (l.filter fun y => k ≤ (above l y).length).toFinset := by
    rw [mem_toFinset, mem_filter]
    exact ⟨hz, by simpa using hrank⟩
  obtain ⟨y, hy, hm⟩ := Finset.exists_max_image _ id ⟨z, hzt⟩
  rw [mem_toFinset, mem_filter, decide_eq_true_eq] at hy
  refine hy.2.trans (subperm_of_subset ((nodup_dedup l).filter _) fun w hw => ?_).length_le
  rw [mem_filter, mem_dedup, decide_eq_true_eq] at hw
  rw [mem_dedup, mem_filter, decide_eq_true_eq]
  refine ⟨hw.1, ?_⟩
  by_contra hl
  have hle := hm w (by rw [mem_toFinset, mem_filter]; exact ⟨hw.1, by simpa using hl⟩)
  exact absurd hw.2 (not_lt.2 hle)

/-- **The `k` greatest elements are the last `k` entries** just if the list has at most `k` entries, or none of the `k`
greatest is repeated. -/
theorem atLeast_le_iff (l : List α) (k : ℕ) : (∀ x ∈ l, (above l x).length < k → atLeast l x ≤ k) ↔
      l.length ≤ k ∨ ∀ x ∈ l, (above l x).length < k → l.count x = 1 := by
  constructor
  · intro h
    by_contra hc
    rw [not_or] at hc
    obtain ⟨hlg, hr⟩ := hc
    push Not at hr
    obtain ⟨x, hx, hrank, hcnt⟩ := hr
    have hsh := length_greatest_le h hx hrank
    by_cases ha : ∀ z ∈ l, (above l z).length < k
    · rw [filter_eq_self.2 (by simpa using ha)] at hsh
      omega
    have hmany := le_length_greatest ha
    have hlt : (l.filter fun y => (above l y).length < k).dedup.length < (l.filter fun y => (above l y).length < k).length := by
      refine length_dedup_lt (x := x) ?_
      rw [count_filter (by simpa using hrank)]
      have := count_pos_iff.2 hx
      omega
    omega
  · rintro (hsh | honce) x hx hrank
    · exact (countP_le_length).trans hsh
    · rw [atLeast_eq hx fun y hy hxy => honce y hy ((above_length_mono hxy).trans_lt hrank)]
      exact hrank

/-- The `k` greatest of `n` different elements are `min n k`. -/
theorem length_greatest (l : List α) (k : ℕ) : (l.dedup.filter fun y => (above l y).length < k).length = min l.dedup.length k := by
  have hab : ∀ y, above l.dedup y = above l y := fun y => by rw [above, (nodup_dedup l).dedup, above]
  simp only [← hab]
  have hsm : (l.dedup.filter fun y => (above l.dedup y).length < k).dedup =
      l.dedup.filter fun y => (above l.dedup y).length < k := ((nodup_dedup l).filter _).dedup
  refine le_antisymm (le_min (length_filter_le _ _) ?_) ?_
  · by_cases hs : ∃ x ∈ l.dedup, (above l.dedup x).length < k
    · obtain ⟨x, hx, hrank⟩ := hs
      refine length_greatest_le (fun y hy hlt => ?_) hx hrank
      rw [atLeast_eq hy fun z hz _ => count_eq_one_of_mem (nodup_dedup l) hz]
      exact hlt
    · push Not at hs
      rw [filter_eq_nil_iff.2 (by simpa using hs)]
      exact Nat.zero_le k
  · by_cases ha : ∀ z ∈ l.dedup, (above l.dedup z).length < k
    · rw [filter_eq_self.2 (by simpa using ha)]
      exact min_le_left _ _
    · have hmany := le_length_greatest ha
      rw [hsm] at hmany
      exact (min_le_right _ _).trans hmany

end Pebrel.Library.Ranking
