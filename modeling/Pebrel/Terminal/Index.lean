import Mathlib.Algebra.Order.Ring.Int

/-!
# Lines, columns and points

The coordinates of the grid (`index.rs`): lines are integers, `0` being the top
of the screen and the history negative; columns are naturals. Overflow of the
source's `i32` lines is not part of the model.
-/

namespace Pebrel.Terminal

/-- `Point`: a line and a column. -/
structure Point where
  line : ℤ
  column : ℕ
  deriving DecidableEq

/-- The default point. -/
def Point.origin : Point := ⟨0, 0⟩

/-- `Dimensions` of a grid. -/
structure Dimensions where
  /-- Total number of lines in the buffer, this includes scrollback and visible lines. -/
  totalLines : ℕ
  /-- Height of the viewport in lines. -/
  screenLines : ℕ
  /-- Width of the terminal in columns. -/
  columns : ℕ

namespace Dimensions

/-- `Dimensions::history_size`: invisible lines, part of the scrollback history. -/
def historySize (d : Dimensions) : ℕ := d.totalLines - d.screenLines

def topmostLine (d : Dimensions) : ℤ := -d.historySize

def bottommostLine (d : Dimensions) : ℤ := d.screenLines - 1

def lastColumn (d : Dimensions) : ℕ := d.columns - 1

end Dimensions

inductive Boundary where
  /-- Cursor's range of motion in the grid. -/
  | cursor
  /-- Topmost line in history until the bottommost line in the terminal. -/
  | grid
  /-- Unbounded. -/
  | none

/-- `Line::grid_clamp`. The source's remainder takes the sign of the dividend. -/
def gridClampLine (line : ℤ) (d : Dimensions) : Boundary → ℤ
  | .cursor => max 0 (min d.bottommostLine line)
  | .grid => max d.topmostLine (min d.bottommostLine line)
  | .none =>
    if line ≥ d.screenLines then d.topmostLine + (line - d.screenLines).tmod d.totalLines
    else d.bottommostLine + (line - d.screenLines + 1).tmod d.totalLines

namespace Point

def gridClamp (p : Point) (d : Dimensions) (b : Boundary) : Point :=
  let p := { p with column := min p.column d.lastColumn }
  match b with
  | .cursor =>
    if p.line < 0 then ⟨0, 0⟩ else if p.line > d.bottommostLine then ⟨d.bottommostLine, d.lastColumn⟩ else p
  | .grid =>
    if p.line < d.topmostLine then ⟨d.topmostLine, 0⟩
    else if p.line > d.bottommostLine then ⟨d.bottommostLine, d.lastColumn⟩
    else p
  | .none => { p with line := gridClampLine p.line d .none }

/-- `Point::sub`: go back a number of columns. -/
def sub (p : Point) (d : Dimensions) (b : Boundary) (rhs : ℕ) : Point :=
  let lineChanges := (rhs + d.columns - 1 - p.column) / d.columns
  gridClamp ⟨p.line - lineChanges, (d.columns + p.column - rhs % d.columns) % d.columns⟩ d b

/-- `Point::add`: go on a number of columns. -/
def add (p : Point) (d : Dimensions) (b : Boundary) (rhs : ℕ) : Point :=
  gridClamp ⟨p.line + ((rhs + p.column) / d.columns : ℕ), (p.column + rhs) % d.columns⟩ d b

/-- The order of points: lines first, then columns. -/
def le (p q : Point) : Bool := p.line < q.line || (p.line == q.line && p.column ≤ q.column)

/-- On the screen, a clamped point lies on the screen. -/
theorem gridClamp_cursor_line {p : Point} {d : Dimensions} (h : 0 < d.screenLines) :
    0 ≤ (p.gridClamp d .cursor).line ∧ (p.gridClamp d .cursor).line < d.screenLines := by
  unfold gridClamp Dimensions.bottommostLine
  simp only
  split_ifs <;> simp only <;> omega

end Point

end Pebrel.Terminal
