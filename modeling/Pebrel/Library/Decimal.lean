import Pebrel.Library.Text
import Mathlib.Tactic.IntervalCases

/-!
# Padded decimals

A number written in decimal and padded with zeros in front up to a width, as
the `{:04}` of a format string writes it. The numbers that fit a width are
written with that many digits, and their texts are ordered as the numbers are;
fields of fixed widths written after each other are ordered by the first in
which they differ.
-/

namespace Pebrel.Library

open List Nat

namespace Decimal

variable {w n m : ℕ} {x y : Text}

/-- A number in decimal, padded with zeros in front. -/
def padZero (w n : ℕ) : Text := List.replicate (w - (Nat.toDigits 10 n).length) '0' ++ Nat.toDigits 10 n

/-- A number that fits a width is written with that many digits. -/
theorem length_padZero (hw : 0 < w) (h : n < 10 ^ w) : (padZero w n).length = w := by
  have hl : (toDigits 10 n).length ≤ w := (length_toDigits_le_iff (by decide) hw).2 h
  simp [padZero]
  omega

/-- A padded number consists of digits. -/
theorem isDigit_of_mem_padZero {c : Char} (h : c ∈ padZero w n) : c.isDigit = true := by
  rcases mem_append.1 h with hz | hd
  · rw [eq_of_mem_replicate hz]
    rfl
  · exact isDigit_of_mem_toDigits (by decide) (by decide) hd

/-- The last digit of a padded number. -/
theorem padZero_succ (hw : 0 < w) (n : ℕ) : padZero (w + 1) n = padZero w (n / 10) ++ [(n % 10).digitChar] := by
  by_cases h : 10 ≤ n
  · have hds := toDigits_of_base_le (b := 10) (by decide) h
    simp [padZero, hds]
  have hlt : n < 10 := by omega
  obtain ⟨v, rfl⟩ : ∃ v, w = v + 1 := ⟨w - 1, by omega⟩
  rw [padZero, padZero, div_eq_of_lt hlt, mod_eq_of_lt hlt, toDigits_of_lt_base hlt, toDigits_zero]
  simp [replicate_succ']

/-! ### The order of the texts -/

/-- Digits are ordered as their values. -/
theorem digitChar_lt (hnm : n < m) (hm : m < 10) : n.digitChar < m.digitChar := by
  interval_cases m <;> interval_cases n <;> decide

/-- Texts of one length that differ decide the order, whatever follows them. -/
theorem append_lt_append {s t : Text} (hl : s.length = t.length) (h : s < t) (x y : Text) : s ++ x < t ++ y := by
  induction s generalizing t with
  | nil =>
    rw [length_nil, eq_comm, length_eq_zero_iff] at hl
    rw [hl] at h
    exact absurd h (List.lt_irrefl _)
  | cons c s ih =>
    cases t with
    | nil => simp at hl
    | cons b t =>
      rw [cons_lt_cons_iff] at h
      rw [cons_append, cons_append, cons_lt_cons_iff]
      rcases h with hlt | ⟨rfl, hlt⟩
      · exact .inl hlt
      · exact .inr ⟨rfl, ih (by simpa using hl) hlt⟩

/-- Numbers that fit the width are ordered as their texts. -/
theorem padZero_lt (hw : 0 < w) (hnm : n < m) (hm : m < 10 ^ w) : padZero w n < padZero w m := by
  induction w generalizing n m with
  | zero => exact absurd hw (by decide)
  | succ w ih =>
    rcases Nat.eq_zero_or_pos w with rfl | hp
    · rw [zero_add, pow_one] at hm
      have hd := digitChar_lt hnm hm
      rw [padZero, padZero, toDigits_of_lt_base hm, toDigits_of_lt_base (hnm.trans hm)]
      simpa [cons_lt_cons_iff] using hd
    · rw [padZero_succ hp, padZero_succ hp]
      have hm' : m / 10 < 10 ^ w := by rw [pow_succ] at hm; omega
      rcases Nat.lt_or_ge (n / 10) (m / 10) with hdiv | hdiv
      · refine append_lt_append ?_ (ih hp hdiv hm') _ _
        rw [length_padZero hp (hdiv.trans hm'), length_padZero hp hm']
      have heq : n / 10 = m / 10 := by omega
      rw [heq]
      refine append_left_lt ?_
      have hd := digitChar_lt (show n % 10 < m % 10 by omega) (mod_lt _ (by decide))
      simpa [cons_lt_cons_iff] using hd

/-- **Fields of fixed widths are ordered by the first in which they differ**. -/
theorem padZero_append_lt (hw : 0 < w) (hn : n < 10 ^ w) (hm : m < 10 ^ w) (h : n < m ∨ n = m ∧ x < y) :
    padZero w n ++ x < padZero w m ++ y := by
  rcases h with hlt | ⟨rfl, hlt⟩
  · exact append_lt_append (by rw [length_padZero hw hn, length_padZero hw hm]) (padZero_lt hw hlt hm) x y
  · exact append_left_lt hlt

end Decimal

end Pebrel.Library
