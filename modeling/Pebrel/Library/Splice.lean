import Mathlib.Data.Int.Basic
import Mathlib.Data.List.Basic

/-!
# Ranges of a list, and a replacement of one

A part of a list is replaced by another list, of any length. A range that ends before the
part has the elements that it had, and so has one that starts after the part, once it is
moved by the difference of the lengths.
-/

namespace Pebrel.Library

open List

/-- The positions from `start` to before `stop`. -/
@[ext] structure Range where
  start : ℕ
  stop : ℕ

namespace Range

def length (r : Range) : ℕ := r.stop - r.start

/-- The range is one, and is in a list of that length. -/
def Within (r : Range) (n : ℕ) : Prop := r.start ≤ r.stop ∧ r.stop ≤ n

/-- The range moved by so much, but not before 0. -/
def moved (r : Range) (delta : ℤ) : Range := ⟨(r.start + delta).toNat, (r.stop + delta).toNat⟩

end Range

namespace Splice

variable {α : Type}

/-- What is in a range. -/
def slice (l : List α) (r : Range) : List α := (l.take r.stop).drop r.start

/-- `replace_range`. -/
def splice (l : List α) (r : Range) (new : List α) : List α := l.take r.start ++ new ++ l.drop r.stop

variable {l new : List α} {r old : Range}

/-- What is replaced has the new elements. -/
theorem slice_splice_self (h : old.Within l.length) : slice (splice l old new) ⟨old.start, old.start + new.length⟩ = new := by
  have hl : (l.take old.start).length = old.start := length_take_of_le (Nat.le_trans h.1 h.2)
  have htk : (splice l old new).take (old.start + new.length) = l.take old.start ++ new := by
    have hf : (l.take old.start ++ new).length = old.start + new.length := by rw [length_append, hl]
    rw [splice, take_left' hf]
  simp only [slice, htk]
  exact drop_left' hl

theorem slice_splice_before (hold : old.Within l.length) (h : r.stop ≤ old.start) : slice (splice l old new) r = slice l r := by
  have hl : (l.take old.start).length = old.start := length_take_of_le (Nat.le_trans hold.1 hold.2)
  rw [slice, slice, splice, append_assoc, take_append_of_le_length (hl.symm ▸ h), take_take, min_eq_left h]

theorem slice_splice_after (hold : old.Within l.length) (h : old.stop ≤ r.start) (hr : r.start ≤ r.stop) :
    slice (splice l old new) (r.moved (new.length - old.length)) = slice l r := by
  obtain ⟨hle, hsp⟩ := hold
  have hl : (l.take old.start ++ new).length = old.start + new.length := by
    rw [length_append, length_take_of_le (Nat.le_trans hle hsp)]
  have hmv : r.moved (new.length - old.length) =
      ⟨old.start + new.length + (r.start - old.stop), old.start + new.length + (r.stop - old.stop)⟩ := by
    simp only [Range.moved, Range.length]
    ext <;> dsimp only <;> omega
  rw [hmv, slice, slice, splice]
  dsimp only
  rw [← hl, take_length_add_append, drop_length_add_append, take_drop, drop_drop, Nat.add_sub_cancel' (Nat.le_trans h hr),
    Nat.add_sub_cancel' h]

end Splice

end Pebrel.Library
