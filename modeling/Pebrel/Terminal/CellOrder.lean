import Pebrel.Terminal.Grid

/-!
# The cells of a grid in order

The cells of a buffer, numbered from the top left one on, row by row. An
iterator over cells goes from a number to the next or to the one before, and
the order of points is the order of their numbers.
-/

namespace Pebrel.Terminal

open Nat Bool

theorem Point.le_iff (p q : Point) : p.le q = true ↔ p.line < q.line ∨ (p.line = q.line ∧ p.column ≤ q.column) := by
  simp only [Point.le, or_eq_true, decide_eq_true_eq, and_eq_true, beq_iff_eq]

/-! ### One step -/

namespace GridIterator

/-- A step back from a cell within a row, from the first cell of a row, and from the first one of the buffer. -/
theorem prev_spec {it : GridIterator} {topmostLine : ℤ} (h : topmostLine ≤ it.point.line) : it.prev topmostLine =
      if it.point.column = 0 then
        if it.point.line = topmostLine then none else some { it with point := ⟨it.point.line - 1, it.lastColumn⟩ }
      else some { it with point := ⟨it.point.line, it.point.column - 1⟩ } := by
  unfold prev
  by_cases hc : it.point.column = 0
  · rw [if_pos hc, if_pos hc]
    by_cases hl : it.point.line = topmostLine
    · rw [if_pos (by simp [Point.le, hl, hc]), if_pos hl]
    · rw [if_neg (by simp [Point.le, hc]; omega), if_neg hl]
  · rw [if_neg hc, if_neg hc, if_neg]
    simp only [Point.le, or_eq_true, decide_eq_true_eq, and_eq_true, beq_iff_eq]
    omega

end GridIterator

/-! ### Numbers -/

namespace Grid

variable {T : Type} {g : Grid T}

/-- The point is a cell of the buffer. -/
structure InGrid (g : Grid T) (p : Point) : Prop where
  topmost_le : -(g.historySize : ℤ) ≤ p.line
  line_lt : p.line < g.lines
  column_lt : p.column < g.columns

/-- The number of cells of the buffer. -/
def cellCount (g : Grid T) : ℕ := (g.historySize + g.lines) * g.columns

/-- The number of a cell. -/
def number (g : Grid T) (p : Point) : ℕ := (p.line + g.historySize).toNat * g.columns + p.column

/-- The cell with a number. -/
def numbered (g : Grid T) (n : ℕ) : Point := ⟨(n / g.columns : ℕ) - (g.historySize : ℤ), n % g.columns⟩

theorem InGrid.columns_pos {p : Point} (h : g.InGrid p) : 0 < g.columns := (Nat.zero_le _).trans_lt h.column_lt

theorem InGrid.number_lt {p : Point} (h : g.InGrid p) : g.number p < g.cellCount := by
  obtain ⟨h1, h2, h3⟩ := h
  have hr : (p.line + g.historySize).toNat + 1 ≤ g.historySize + g.lines := by omega
  calc g.number p < (p.line + g.historySize).toNat * g.columns + g.columns := Nat.add_lt_add_left h3 _
    _ = ((p.line + g.historySize).toNat + 1) * g.columns := (succ_mul _ _).symm
    _ ≤ g.cellCount := Nat.mul_le_mul_right _ hr

theorem InGrid.numbered_number {p : Point} (h : g.InGrid p) : g.numbered (g.number p) = p := by
  have hp := h.columns_pos
  obtain ⟨h1, h2, h3⟩ := h
  unfold numbered number
  rw [Nat.add_comm, add_mul_div_right _ _ hp, div_eq_of_lt h3, add_mul_mod_self_right, mod_eq_of_lt h3]
  congr 1
  omega

theorem inGrid_numbered (hc : 0 < g.columns) {n : ℕ} (hn : n < g.cellCount) : g.InGrid (g.numbered n) := by
  have hr : n / g.columns < g.historySize + g.lines := Nat.div_lt_of_lt_mul (by rwa [Nat.mul_comm])
  unfold numbered
  generalize n / g.columns = row at hr
  exact ⟨by simp only; omega, by simp only; omega, mod_lt _ hc⟩

/-- Cells come in the order of their numbers. -/
theorem numbered_le_iff (g : Grid T) (a b : ℕ) : (g.numbered a).le (g.numbered b) = true ↔ a ≤ b := by
  have ha := div_add_mod a g.columns
  have hb := div_add_mod b g.columns
  rw [Point.le_iff]
  show ((a / g.columns : ℕ) : ℤ) - g.historySize < (b / g.columns : ℕ) - g.historySize ∨
    ((a / g.columns : ℕ) : ℤ) - g.historySize = (b / g.columns : ℕ) - g.historySize ∧ a % g.columns ≤ b % g.columns ↔ a ≤ b
  have hlt : a / g.columns < b / g.columns → a < b := lt_of_div_lt_div
  have hgt : b / g.columns < a / g.columns → b < a := lt_of_div_lt_div
  generalize hra : a / g.columns = ra at *
  generalize hrb : b / g.columns = rb at *
  rcases lt_trichotomy ra rb with h | rfl | h
  · exact iff_of_true (.inl (by omega)) (hlt h).le
  · generalize g.columns * ra = row at ha hb
    omega
  · exact iff_of_false (by omega) (hgt h).not_ge

theorem InGrid.le_iff {p q : Point} (hp : g.InGrid p) (hq : g.InGrid q) : p.le q = true ↔ g.number p ≤ g.number q := by
  have h := g.numbered_le_iff (g.number p) (g.number q)
  rwa [hp.numbered_number, hq.numbered_number] at h

/-- The row and the column after those of a number, within the row and past its end. -/
theorem numbered_succ (hc : 0 < g.columns) (n : ℕ) : g.numbered (n + 1) =
      if (g.numbered n).column ≥ g.columns - 1 then ⟨(g.numbered n).line + 1, 0⟩
      else ⟨(g.numbered n).line, (g.numbered n).column + 1⟩ := by
  have hn := div_add_mod n g.columns
  have hlt := mod_lt n hc
  unfold numbered
  simp only
  split
  · rename_i hl
    have hnx : n + 1 = g.columns * (n / g.columns + 1) := by
      rw [Nat.mul_add, Nat.mul_one]
      omega
    rw [hnx, Nat.mul_div_cancel_left _ hc, mul_mod_right]
    congr 1
    omega
  · rename_i hin
    have hnx : n + 1 = n % g.columns + 1 + g.columns * (n / g.columns) := by omega
    have hd : (n + 1) / g.columns = n / g.columns := by
      rw [hnx, add_mul_div_left _ _ hc, div_eq_of_lt (by omega), Nat.zero_add]
    have hm : (n + 1) % g.columns = n % g.columns + 1 := by
      rw [hnx, add_mul_mod_self_left, mod_eq_of_lt (by omega)]
    rw [hd, hm]

/-- The iterator at a cell. -/
def iterAt (g : Grid T) (n : ℕ) : GridIterator := g.iterFrom (g.numbered n)

theorem InGrid.iterFrom_eq {p : Point} (h : g.InGrid p) : g.iterFrom p = g.iterAt (g.number p) := by
  unfold iterAt
  rw [h.numbered_number]

theorem iterAt_point (g : Grid T) (n : ℕ) : (g.iterAt n).point = g.numbered n := rfl

/-- The last cell of the buffer has the last number. -/
theorem last_number (hc : 0 < g.columns) (hn : 0 < g.cellCount) :
    (⟨g.dims.bottommostLine, g.dims.lastColumn⟩ : Point) = g.numbered (g.cellCount - 1) := by
  have hr : 0 < g.historySize + g.lines := Nat.pos_of_mul_pos_right hn
  have hl : g.InGrid ⟨g.dims.bottommostLine, g.dims.lastColumn⟩ :=
    ⟨show -(g.historySize : ℤ) ≤ (g.lines : ℤ) - 1 by omega, show (g.lines : ℤ) - 1 < g.lines by omega,
      show g.columns - 1 < g.columns by omega⟩
  have hnum : g.number ⟨g.dims.bottommostLine, g.dims.lastColumn⟩ = g.cellCount - 1 := by
    have hrow : ((g.lines : ℤ) - 1 + g.historySize).toNat + 1 = g.historySize + g.lines := by omega
    show ((g.lines : ℤ) - 1 + g.historySize).toNat * g.columns + (g.columns - 1) = (g.historySize + g.lines) * g.columns - 1
    rw [← hrow, succ_mul]
    omega
  rw [← hnum, hl.numbered_number]

theorem next_iterAt (hc : 0 < g.columns) {n : ℕ} (hn : n < g.cellCount) :
    (g.iterAt n).next = if n + 1 < g.cellCount then some (g.iterAt (n + 1)) else none := by
  have hsp : (g.iterAt n).stop = g.numbered (g.cellCount - 1) := last_number hc (by omega)
  have hle := numbered_le_iff g (g.cellCount - 1) n
  rw [← hsp, ← iterAt_point] at hle
  unfold GridIterator.next
  by_cases hl : n + 1 < g.cellCount
  · have hsucc := numbered_succ hc n
    rw [if_neg fun h => absurd (hle.mp h) (by omega), if_pos hl]
    split
    · rename_i hcol
      have hsucc := hsucc.trans (if_pos hcol)
      unfold iterAt
      rw [hsucc]
      rfl
    · rename_i hcol
      have hsucc := hsucc.trans (if_neg hcol)
      unfold iterAt
      rw [hsucc]
      rfl
  · rw [if_pos (hle.mpr (by omega)), if_neg hl]

/-- The row and the column before those of a number. -/
theorem numbered_pred (hc : 0 < g.columns) (n : ℕ) : g.numbered n =
      if (g.numbered (n + 1)).column = 0 then ⟨(g.numbered (n + 1)).line - 1, g.columns - 1⟩
      else ⟨(g.numbered (n + 1)).line, (g.numbered (n + 1)).column - 1⟩ := by
  have hcol : (g.numbered n).column < g.columns := mod_lt n hc
  have hsucc := numbered_succ hc n
  split at hsucc
  · rename_i hl
    rw [hsucc, if_pos rfl]
    simp only [add_sub_cancel_right]
    rw [show g.columns - 1 = (g.numbered n).column by omega]
  · rw [hsucc, if_neg (succ_ne_zero _)]
    rfl

theorem topmost_le_numbered (g : Grid T) (n : ℕ) : g.dims.topmostLine ≤ (g.numbered n).line := by
  show -(g.historySize : ℤ) ≤ ((n / g.columns : ℕ) : ℤ) - g.historySize
  generalize n / g.columns = row
  omega

/-- A step back from a cell other than the first. -/
theorem prev_iterAt (hc : 0 < g.columns) (n : ℕ) : (g.iterAt (n + 1)).prev g.dims.topmostLine = some (g.iterAt n) := by
  have hn := topmost_le_numbered g n
  have hpred := numbered_pred hc n
  rw [GridIterator.prev_spec (topmost_le_numbered g (n + 1)), iterAt_point]
  unfold iterAt
  rw [hpred]
  by_cases hcol : (g.numbered (n + 1)).column = 0
  · rw [if_pos hcol] at hpred ⊢
    rw [hpred] at hn
    rw [if_neg (by simp only at hn; omega), if_pos hcol]
    rfl
  · rw [if_neg hcol, if_neg hcol]
    rfl

theorem prev_iterAt_zero (g : Grid T) : (g.iterAt 0).prev g.dims.topmostLine = none := by
  have hz : g.numbered 0 = ⟨g.dims.topmostLine, 0⟩ := by
    unfold numbered
    rw [Nat.zero_div, zero_mod]
    congr 1
    show ((0 : ℕ) : ℤ) - g.historySize = -(g.historySize : ℤ)
    omega
  rw [GridIterator.prev_spec (by rw [iterAt_point, hz]), iterAt_point, hz, if_pos rfl, if_pos rfl]

end Grid

end Pebrel.Terminal
