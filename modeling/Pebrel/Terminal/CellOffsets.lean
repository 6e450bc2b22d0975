import Pebrel.Terminal.Grid
import Mathlib.Tactic.LinearCombination

/-!
# The cells of a grid in a row

`Point::add` and `Point::sub` move a point by a number of columns (`index.rs`). Where the
cells are counted from the first one of the topmost line on, this adds the number to the
count: modulo the number of cells where there is no boundary, and up to the nearest end of
the boundary where there is one (`moves`).

A number of columns is a `usize` and a line an `i32`, so the numbers are those with which
no line leaves what an `i32` can be (`Dimensions.Carries`).
-/

namespace Pebrel.Terminal

open Nat Int

/-- The value of a `usize` computation that may overflow, as it is without overflow checks. -/
def wrapUsize (n : ℕ) : ℕ := n % 2 ^ 64

namespace Point

/-- `Point::sub`, with the integers of the machine. -/
def subMachine (p : Point) (d : Dimensions) (b : Boundary) (rhs : ℕ) : Point :=
  let lineChanges := (wrapUsize (rhs + d.columns - 1) - p.column) / d.columns
  gridClamp ⟨wrapI32 (p.line - wrapI32 lineChanges), (wrapUsize (d.columns + p.column) - rhs % d.columns) % d.columns⟩ d b

/-- `Point::add`, with the integers of the machine. -/
def addMachine (p : Point) (d : Dimensions) (b : Boundary) (rhs : ℕ) : Point :=
  gridClamp ⟨wrapI32 (p.line + wrapI32 (wrapUsize (rhs + p.column) / d.columns : ℕ)), wrapUsize (p.column + rhs) % d.columns⟩ d b

end Point

namespace Dimensions

/-- The dimensions of a grid: there is a line on the screen, and the lines of the screen count. -/
structure Shown (d : Dimensions) : Prop where
  screen : 0 < d.screenLines
  total : d.screenLines ≤ d.totalLines

/-- A point is one of the grid. -/
structure InGrid (d : Dimensions) (p : Point) : Prop where
  topmost : d.topmostLine ≤ p.line
  bottommost : p.line ≤ d.bottommostLine
  column : p.column < d.columns

/-- The lines that a move by so many columns leads to are `i32`s, clamped or not. -/
structure Carries (d : Dimensions) (n : ℕ) : Prop where
  lines : n / d.columns + d.totalLines + 1 < 2 ^ 31
  columns : n + 2 * d.columns < 2 ^ 64

/-- The number of cells. -/
def cells (d : Dimensions) : ℕ := d.totalLines * d.columns

/-- The number of a cell, counted from the first one of the topmost line on. -/
def offset (d : Dimensions) (p : Point) : ℤ := (p.line - d.topmostLine) * d.columns + p.column

/-- The cell of a number. -/
def cellAt (d : Dimensions) (k : ℤ) : Point := ⟨d.topmostLine + k / d.columns, (k % d.columns).toNat⟩

/-- The first cell of a boundary. -/
def first (d : Dimensions) : Boundary → Point
  | .cursor => ⟨0, 0⟩
  | .grid | .none => ⟨d.topmostLine, 0⟩

/-- The last cell of a boundary. -/
def last (d : Dimensions) (_b : Boundary) : Point := ⟨d.bottommostLine, d.lastColumn⟩

variable {d : Dimensions} {p : Point} {b : Boundary} {m n : ℕ} {k : ℤ}

/-! ### Numbers and cells -/

theorem offset_cellAt (hc : 0 < d.columns) (k : ℤ) : d.offset (d.cellAt k) = k := by
  have hp : (0 : ℤ) < d.columns := by omega
  have hm := emod_nonneg k hp.ne'
  rw [offset, cellAt, add_sub_cancel_left, toNat_of_nonneg hm, mul_comm]
  exact mul_ediv_add_emod k d.columns

theorem cellAt_eq {line : ℤ} {column : ℕ} (h : column < d.columns) (hk : k = (line - d.topmostLine) * d.columns + column) :
    d.cellAt k = ⟨line, column⟩ := by
  have hp : (0 : ℤ) < d.columns := by omega
  have hd : k / d.columns = line - d.topmostLine := by
    rw [hk, add_comm, add_mul_ediv_right _ _ hp.ne', ediv_eq_zero_of_lt (by omega) (by omega), zero_add]
  have hm : k % d.columns = column := by
    rw [hk, add_comm, add_mul_emod_self_right, emod_eq_of_lt (by omega) (by omega)]
  rw [cellAt, hd, hm, add_sub_cancel, toNat_natCast]

theorem cellAt_offset (h : p.column < d.columns) : d.cellAt (d.offset p) = p := cellAt_eq h rfl

theorem lines_eq (hd : d.Shown) : d.bottommostLine - d.topmostLine + 1 = d.totalLines := by
  have := hd.total
  rw [bottommostLine, topmostLine, historySize]
  omega

theorem offset_mem (hd : d.Shown) (hp : d.InGrid p) : 0 ≤ d.offset p ∧ d.offset p < d.cells := by
  have hls := lines_eq hd
  have ht := hp.topmost
  have hb := hp.bottommost
  have hc := hp.column
  have hm : (0 : ℤ) ≤ (p.line - d.topmostLine) * d.columns := Int.mul_nonneg (by omega) (by omega)
  have hle : (p.line - d.topmostLine + 1) * d.columns ≤ d.totalLines * d.columns := Int.mul_le_mul_of_nonneg_right (by omega) (by omega)
  rw [add_mul, one_mul] at hle
  rw [offset, cells, Nat.cast_mul]
  omega

theorem inGrid_cellAt (hd : d.Shown) (hc : 0 < d.columns) (h : 0 ≤ k) (hk : k < d.cells) : d.InGrid (d.cellAt k) := by
  have hp : (0 : ℤ) < d.columns := by omega
  have hls := lines_eq hd
  have hlt : k / d.columns < d.totalLines := Int.ediv_lt_of_lt_mul hp (by rwa [cells, Nat.cast_mul] at hk)
  have hm := emod_lt_of_pos k hp
  refine ⟨?_, ?_, ?_⟩ <;> dsimp only [cellAt]
  · have := ediv_nonneg h hp.le
    omega
  · omega
  · omega

/-! ### The move before it is clamped -/

/-- A move forth leads to the cell of the sum. -/
theorem add_eq (hp : p.column < d.columns) (b : Boundary) (n : ℕ) : p.add d b n = (d.cellAt (d.offset p + n)).gridClamp d b := by
  have hpos : 0 < d.columns := by omega
  have hs : (d.columns : ℤ) * ((n + p.column) / d.columns : ℕ) + ((n + p.column) % d.columns : ℕ) = n + p.column := by
    exact_mod_cast div_add_mod (n + p.column) d.columns
  rw [Point.add, cellAt_eq (mod_lt _ hpos)]
  rw [offset, add_comm p.column n]
  linear_combination -hs

/-- The columns that are left of those that a move back carries into the lines above. -/
theorem column_sub {columns column : ℕ} (h : column < columns) (n : ℕ) :
    (columns + column - n % columns) % columns = columns - 1 - (n + columns - 1 - column) % columns := by
  have hn := div_add_mod n columns
  have hmod := mod_lt n (by omega : 0 < columns)
  by_cases hle : n % columns ≤ column
  · have hm : n + columns - 1 - column = columns * (n / columns) + (n % columns + columns - 1 - column) := by omega
    rw [hm, mul_add_mod, mod_eq_of_lt (by omega : n % columns + columns - 1 - column < columns),
      show columns + column - n % columns = columns + (column - n % columns) by omega, add_mod_left, mod_eq_of_lt (by omega)]
    omega
  · have hm : n + columns - 1 - column = columns * (n / columns + 1) + (n % columns - 1 - column) := by
      rw [Nat.mul_add_one]
      omega
    rw [hm, mul_add_mod, mod_eq_of_lt (by omega : n % columns - 1 - column < columns), mod_eq_of_lt (by omega)]
    omega

/-- A move back leads to the cell of the difference. -/
theorem sub_eq (hp : p.column < d.columns) (b : Boundary) (n : ℕ) : p.sub d b n = (d.cellAt (d.offset p - n)).gridClamp d b := by
  have hpos : 0 < d.columns := by omega
  have hr := mod_lt (n + d.columns - 1 - p.column) hpos
  have hd : (d.columns : ℤ) * ((n + d.columns - 1 - p.column) / d.columns : ℕ) + ((n + d.columns - 1 - p.column) % d.columns : ℕ) =
      n + d.columns - 1 - p.column := by
    have hm : ((n + d.columns - 1 - p.column : ℕ) : ℤ) = n + d.columns - 1 - p.column := by omega
    rw [← hm]
    exact_mod_cast div_add_mod _ _
  have hcast : ((d.columns - 1 - (n + d.columns - 1 - p.column) % d.columns : ℕ) : ℤ) =
      d.columns - 1 - ((n + d.columns - 1 - p.column) % d.columns : ℕ) := by omega
  rw [Point.sub, column_sub hp]
  refine (congrArg (Point.gridClamp · d b) (cellAt_eq (by omega) ?_)).symm
  rw [offset, hcast]
  linear_combination hd

/-! ### The clamp -/

/-- The order of the lines is that of the numbers of their cells. -/
theorem offset_lt {q : Point} (h : p.line < q.line) (hp : p.column < d.columns) : d.offset p < d.offset q := by
  have hle : (p.line - d.topmostLine + 1) * d.columns ≤ (q.line - d.topmostLine) * d.columns :=
    Int.mul_le_mul_of_nonneg_right (by omega) (by omega)
  rw [add_mul, one_mul] at hle
  rw [offset, offset]
  omega

theorem offset_le {q : Point} (h : p.line ≤ q.line) (hp : p.column < d.columns) (hc : p.column ≤ q.column) : d.offset p ≤ d.offset q := by
  rcases h.lt_or_eq with hlt | heq
  · exact (offset_lt hlt hp).le
  · rw [offset, offset, heq]
    omega

theorem column_cellAt (hc : 0 < d.columns) (k : ℤ) : (d.cellAt k).column < d.columns := by
  have hp : (0 : ℤ) < d.columns := by omega
  have hn := emod_nonneg k hp.ne'
  have hlt := emod_lt_of_pos k hp
  dsimp only [cellAt]
  omega

theorem min_lastColumn (h : p.column < d.columns) : min p.column d.lastColumn = p.column := min_eq_left (le_pred_of_lt h)

/-- A line past an end comes back at the other one. -/
theorem gridClampLine_none (hd : d.Shown) (a : ℤ) : gridClampLine (d.topmostLine + a) d .none = d.topmostLine + a % d.totalLines := by
  have hls := lines_eq hd
  have hscr := hd.screen
  have ht := hd.total
  have hp : (0 : ℤ) < d.totalLines := by omega
  rw [gridClampLine]
  split_ifs with hl
  · have hl' : d.topmostLine + a - d.screenLines = a - d.totalLines := by
      rw [bottommostLine] at hls
      omega
    rw [tmod_eq_emod_of_nonneg (by omega), hl', sub_emod_right]
  · have hm := emod_nonneg (d.totalLines - 1 - a) hp.ne'
    have hlt := emod_lt_of_pos (d.totalLines - 1 - a) hp
    have hs := mul_ediv_add_emod (d.totalLines - 1 - a) d.totalLines
    have hl' : d.topmostLine + a - d.screenLines + 1 = -(d.totalLines - 1 - a) := by
      rw [bottommostLine] at hls
      omega
    have ha : a = d.totalLines - 1 - (d.totalLines - 1 - a) % d.totalLines + d.totalLines * -((d.totalLines - 1 - a) / d.totalLines) := by
      linear_combination hs
    have hm' : a % d.totalLines = d.totalLines - 1 - (d.totalLines - 1 - a) % d.totalLines := by
      conv_lhs => rw [ha, add_mul_emod_self_left]
      exact emod_eq_of_lt (by omega) (by omega)
    rw [hl', neg_tmod, tmod_eq_emod_of_nonneg (by rw [bottommostLine] at hls; omega), hm']
    omega

/-- Without a boundary the cells are in a circle. -/
theorem gridClamp_none (hd : d.Shown) (hc : 0 < d.columns) (k : ℤ) : (d.cellAt k).gridClamp d .none = d.cellAt (k % d.cells) := by
  have hp : (0 : ℤ) < d.columns := by omega
  have hk := mul_ediv_add_emod k d.columns
  have hl := mul_ediv_add_emod (k / d.columns) d.totalLines
  have hcs := mul_ediv_add_emod k (d.columns * d.totalLines)
  rw [← ediv_ediv_of_nonneg hp.le] at hcs
  rw [Point.gridClamp, min_lastColumn (column_cellAt hc k)]
  refine (cellAt_eq (column_cellAt hc k) ?_).symm
  have hcolu : ((d.cellAt k).column : ℤ) = k % d.columns := toNat_of_nonneg (emod_nonneg k hp.ne')
  rw [hcolu, cells, Nat.cast_mul, mul_comm (d.totalLines : ℤ)]
  change _ = (gridClampLine (d.topmostLine + k / d.columns) d .none - d.topmostLine) * d.columns + k % d.columns
  rw [gridClampLine_none hd]
  linear_combination hcs - hk - d.columns * hl

/-- With a boundary the cell is the nearest one that is in it. -/
theorem gridClamp_bounded (hd : d.Shown) (hcolu : 0 < d.columns) (hb : b ≠ .none) (k : ℤ) :
    (d.cellAt k).gridClamp d b = d.cellAt (max (d.offset (d.first b)) (min (d.offset (d.last b)) k)) := by
  have hc := column_cellAt hcolu k
  have ho := offset_cellAt hcolu k
  have hl : d.lastColumn < d.columns := Nat.sub_one_lt hcolu.ne'
  have hf : (d.first b).column = 0 := by cases b <;> rfl
  have hends : (d.first b).line ≤ d.bottommostLine := by
    have := hd.screen
    cases b <;> simp only [first, bottommostLine, topmostLine] <;> omega
  have hcla : (d.cellAt k).gridClamp d b =
      if (d.cellAt k).line < (d.first b).line then d.first b else if (d.cellAt k).line > d.bottommostLine then d.last b else d.cellAt k := by
    cases b with
    | cursor | grid =>
      rw [Point.gridClamp, min_lastColumn hc]
      rfl
    | none => exact absurd rfl hb
  have hle : d.offset (d.first b) ≤ d.offset (d.last b) := offset_le hends (by omega) (by omega)
  rw [hcla]
  split_ifs with hbef ha
  · have hlt := offset_lt (d := d) hbef hc
    rw [max_eq_left (by omega), cellAt_offset (by omega)]
  · have hlt := offset_lt (d := d) (p := d.last b) ha hl
    rw [min_eq_left (by omega), max_eq_right hle, cellAt_offset hl]
  · have hge := offset_le (d := d) (p := d.first b) (q := d.cellAt k) (by omega) (by omega) (by omega)
    have hle' := offset_le (d := d) (q := d.last b) (not_lt.mp ha) hc (le_pred_of_lt hc)
    rw [min_eq_right (by omega), max_eq_right (by omega)]

/-! ### The integers of the machine -/

theorem wrapI32_of_mem {m : ℤ} (h : -2147483648 ≤ m) (h' : m < 2147483648) : wrapI32 m = m := by
  rw [wrapI32, bmod_eq_of_le] <;> omega

theorem add_div_le (h : m < d.columns) : (n + m) / d.columns ≤ n / d.columns + 1 := by
  rw [← add_div_right n (by omega)]
  exact Nat.div_le_div_right (by omega)

/-- Nothing overflows in a move forth. -/
theorem addMachine_eq (hd : d.Shown) (hp : d.InGrid p) (hn : d.Carries n) (b : Boundary) : p.addMachine d b n = p.add d b n := by
  obtain ⟨ht, hb, hc⟩ := hp
  obtain ⟨hcar, hcolu⟩ := hn
  have hls := lines_eq hd
  have hdiv := add_div_le (n := n) hc
  rw [topmostLine, historySize] at ht hls
  rw [bottommostLine] at hb hls
  have hs : wrapUsize (n + p.column) = n + p.column := mod_eq_of_lt (by omega)
  rw [Point.addMachine, Point.add, add_comm p.column n, hs]
  clear hcolu hs
  generalize (n + p.column) / d.columns = changes at hdiv ⊢
  have hcha := wrapI32_of_mem (m := changes) (by omega) (by omega)
  have hl := wrapI32_of_mem (m := p.line + changes) (by omega) (by omega)
  rw [hcha, hl]

/-- Nothing overflows in a move back. -/
theorem subMachine_eq (hd : d.Shown) (hp : d.InGrid p) (hn : d.Carries n) (b : Boundary) : p.subMachine d b n = p.sub d b n := by
  obtain ⟨ht, hb, hcolu⟩ := hp
  obtain ⟨hcar, hc⟩ := hn
  have hls := lines_eq hd
  have hdiv : (n + d.columns - 1 - p.column) / d.columns ≤ n / d.columns + 1 := by
    refine le_trans (Nat.div_le_div_right ?_) (add_div_le (n := n) (Nat.sub_one_lt (by omega) : d.columns - 1 < d.columns))
    omega
  rw [topmostLine, historySize] at ht hls
  rw [bottommostLine] at hb hls
  have hs : wrapUsize (n + d.columns - 1) = n + d.columns - 1 := mod_eq_of_lt (by omega)
  have hs' : wrapUsize (d.columns + p.column) = d.columns + p.column := mod_eq_of_lt (by omega)
  rw [Point.subMachine, Point.sub, hs, hs']
  clear hc hs hs'
  generalize (n + d.columns - 1 - p.column) / d.columns = changes at hdiv ⊢
  have hcha := wrapI32_of_mem (m := changes) (by omega) (by omega)
  have hl := wrapI32_of_mem (m := p.line - changes) (by omega) (by omega)
  rw [hcha, hl]

/-! ### Moves -/

/-- **`Point::add` and `Point::sub` add to the number of a cell**: modulo the number of cells without a boundary, where
they undo each other, and up to the nearest end of the boundary with one. -/
theorem moves (d : Dimensions) (p : Point) (n : ℕ) (hd : d.Shown) (hp : d.InGrid p) (hn : d.Carries n) :
    (d.InGrid (p.addMachine d .none n) ∧ d.offset (p.addMachine d .none n) = (d.offset p + n) % d.cells) ∧
      (d.InGrid (p.subMachine d .none n) ∧ d.offset (p.subMachine d .none n) = (d.offset p - n) % d.cells) ∧
      (p.addMachine d .none n).subMachine d .none n = p ∧ (p.subMachine d .none n).addMachine d .none n = p ∧
      ∀ b ≠ .none, d.offset (p.addMachine d b n) = max (d.offset (d.first b)) (min (d.offset (d.last b)) (d.offset p + n)) ∧
        d.offset (p.subMachine d b n) = max (d.offset (d.first b)) (min (d.offset (d.last b)) (d.offset p - n)) := by
  have hcol : 0 < d.columns := zero_lt_of_lt hp.column
  obtain ⟨hnon, hlt⟩ := offset_mem hd hp
  have hrou (k : ℤ) : d.InGrid (d.cellAt (k % d.cells)) := inGrid_cellAt hd hcol (emod_nonneg k (by omega)) (emod_lt_of_pos k (by omega))
  have hadd : p.addMachine d .none n = d.cellAt ((d.offset p + n) % d.cells) := by
    rw [addMachine_eq hd hp hn, add_eq hp.column, gridClamp_none hd hcol]
  have hsub : p.subMachine d .none n = d.cellAt ((d.offset p - n) % d.cells) := by
    rw [subMachine_eq hd hp hn, sub_eq hp.column, gridClamp_none hd hcol]
  have hbk : d.cellAt (d.offset p % d.cells) = p := by
    rw [emod_eq_of_lt hnon hlt, cellAt_offset hp.column]
  refine ⟨⟨hadd ▸ hrou _, ?_⟩, ⟨hsub ▸ hrou _, ?_⟩, ?_, ?_, fun b hb => ⟨?_, ?_⟩⟩
  · rw [hadd, offset_cellAt hcol]
  · rw [hsub, offset_cellAt hcol]
  · rw [hadd, subMachine_eq hd (hrou _) hn, sub_eq (hrou _).column, gridClamp_none hd hcol, offset_cellAt hcol,
      emod_sub_emod, add_sub_cancel_right, hbk]
  · rw [hsub, addMachine_eq hd (hrou _) hn, add_eq (hrou _).column, gridClamp_none hd hcol, offset_cellAt hcol,
      emod_add_emod, sub_add_cancel, hbk]
  · rw [addMachine_eq hd hp hn, add_eq hp.column, gridClamp_bounded hd hcol hb, offset_cellAt hcol]
  · rw [subMachine_eq hd hp hn, sub_eq hp.column, gridClamp_bounded hd hcol hb, offset_cellAt hcol]

theorem moves_five : (⟨-1, 2⟩ : Point).addMachine ⟨4, 3, 3⟩ .none 4 = ⟨1, 0⟩ ∧
    (Point.mk 1 0).subMachine ⟨4, 3, 3⟩ .none 4 = ⟨-1, 2⟩ := by
  have h := moves ⟨4, 3, 3⟩ ⟨-1, 2⟩ 4 ⟨by decide, by decide⟩ ⟨by decide, by decide, by decide⟩ ⟨by decide, by decide⟩
  have hadd : (⟨-1, 2⟩ : Point).addMachine ⟨4, 3, 3⟩ .none 4 = ⟨1, 0⟩ := by decide
  exact ⟨hadd, hadd ▸ h.2.2.1⟩

/-- So many lines are cut to none, which is no multiple of the number of the lines. -/
theorem add_overflows : ¬∀ (d : Dimensions) (p : Point) (n : ℕ), d.Shown → d.InGrid p → n < 2 ^ 64 →
    d.offset (p.addMachine d .none n) = (d.offset p + n) % d.cells := by
  intro h
  have h' := h ⟨3, 3, 1⟩ ⟨0, 0⟩ (2 ^ 32) ⟨by decide, by decide⟩ ⟨by decide, by decide, by decide⟩ (by decide)
  revert h'
  decide

end Dimensions

end Pebrel.Terminal
