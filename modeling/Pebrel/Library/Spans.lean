import Mathlib.Algebra.Order.Ring.Nat
import Mathlib.Algebra.BigOperators.Group.List.Basic
import Mathlib.Data.List.Pairwise

/-!
# Spans

Spans with their starts and lengths that follow each other from one position to
another one, none of them empty.
-/

namespace Pebrel.Library.Spans

open List

/-- The spans follow each other from `a` to `b`. -/
def Covers : ℕ → List (ℕ × ℕ) → ℕ → Prop
  | a, [], b => a = b
  | a, (start, length) :: spans, b => start = a ∧ 0 < length ∧ Covers (a + length) spans b

instance : ∀ a spans b, Decidable (Covers a spans b)
  | a, [], b => inferInstanceAs (Decidable (a = b))
  | a, (start, length) :: spans, b =>
    have : Decidable (Covers (a + length) spans b) := instDecidableCovers (a + length) spans b
    inferInstanceAs (Decidable (start = a ∧ 0 < length ∧ Covers (a + length) spans b))

variable {a b p : ℕ} {spans : List (ℕ × ℕ)} {s : ℕ × ℕ}

section
variable (h : Covers a spans b)
include h

theorem Covers.sum_eq : a + (spans.map Prod.snd).sum = b := by
  induction spans generalizing a with
  | nil => exact h
  | cons s spans ih =>
    obtain ⟨-, -, hr⟩ := h
    rw [map_cons, sum_cons, ← Nat.add_assoc]
    exact ih hr

theorem Covers.le : a ≤ b := h.sum_eq ▸ Nat.le_add_right _ _

/-- The spans are not empty, and between the positions. -/
theorem Covers.of_mem (hs : s ∈ spans) : a ≤ s.1 ∧ 0 < s.2 ∧ s.1 + s.2 ≤ b := by
  induction spans generalizing a with
  | nil => cases hs
  | cons s' spans ih =>
    obtain ⟨hst, hp, hr⟩ := h
    rcases mem_cons.mp hs with rfl | hs
    · exact ⟨Nat.le_of_eq hst.symm, hp, hst ▸ hr.le⟩
    · obtain ⟨hle, hr⟩ := ih hr hs
      exact ⟨by omega, hr⟩

/-- No two spans overlap. -/
theorem Covers.pairwise : spans.Pairwise fun s s' => s.1 + s.2 ≤ s'.1 := by
  induction spans generalizing a with
  | nil => exact .nil
  | cons s spans ih =>
    obtain ⟨hst, -, hr⟩ := h
    refine pairwise_cons.mpr ⟨fun s' hs' => ?_, ih hr⟩
    have := (hr.of_mem hs').1
    omega

/-- Every position is in one of the spans. -/
theorem Covers.exists_mem (ha : a ≤ p) (hb : p < b) : ∃ s ∈ spans, s.1 ≤ p ∧ p < s.1 + s.2 := by
  induction spans generalizing a with
  | nil =>
    rw [Covers] at h
    omega
  | cons s spans ih =>
    obtain ⟨hst, -, hr⟩ := h
    by_cases hp : p < a + s.2
    · exact ⟨s, mem_cons_self, by omega, by omega⟩
    · obtain ⟨s', hs', hin⟩ := ih hr (by omega)
      exact ⟨s', mem_cons_of_mem _ hs', hin⟩

end

end Pebrel.Library.Spans
