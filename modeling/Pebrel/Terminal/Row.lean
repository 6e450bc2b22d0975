import Pebrel.Terminal.Cell

/-!
# Rows

The rows of the terminal grid (`grid/row.rs`). A row is its cells together with
`occ`, the upper bound on the cells written since the last reset, by which
`reset` decides how many cells to clear. Capacities are not modelled:
`reclaim_excess_capacity` changes no cell.
-/

namespace Pebrel.Terminal

/-- A row in the grid. -/
structure Row (T : Type) where
  inner : List T
  /-- Maximum number of occupied entries. -/
  occ : ℕ
  deriving DecidableEq

namespace Row

variable {T : Type}

def fromVec (cells : List T) (occ : ℕ) : Row T := ⟨cells, occ⟩

instance : Inhabited (Row T) := ⟨⟨[], 0⟩⟩

def len (r : Row T) : ℕ := r.inner.length

/-- A write through `row[Column(i)]`. -/
def modify (r : Row T) (i : ℕ) (f : T → T) : Row T := ⟨r.inner.modify i f, max r.occ (i + 1)⟩

/-- A write through `last_mut`: the whole row counts as occupied. -/
def modifyLast (r : Row T) (f : T → T) : Row T := ⟨r.inner.modify (r.inner.length - 1) f, r.inner.length⟩

def append (r : Row T) (cells : List T) : Row T := ⟨r.inner ++ cells, r.occ + cells.length⟩

def appendFront (r : Row T) (cells : List T) : Row T := ⟨cells ++ r.inner, r.occ + cells.length⟩

/-- `Row::front_split_off`: the row without its first `n` cells, and these cells. -/
def frontSplitOff (r : Row T) (n : ℕ) : Row T × List T := (⟨r.inner.drop n, r.occ - n⟩, r.inner.take n)

@[simp] theorem len_modify (r : Row T) (i : ℕ) (f : T → T) : (r.modify i f).len = r.len := by
  simp [modify, len]

@[simp] theorem len_modifyLast (r : Row T) (f : T → T) : (r.modifyLast f).len = r.len := by
  simp [modifyLast, len]

variable [GridCell T]

def new (columns : ℕ) : Row T := ⟨.replicate columns default, 0⟩

/-- `row[Column(i)]`; the source's index panics past the end. -/
def get (r : Row T) (i : ℕ) : T := r.inner.getD i default

def grow (r : Row T) (columns : ℕ) : Row T :=
  if r.inner.length ≥ columns then r
  else { r with inner := r.inner ++ .replicate (columns - r.inner.length) default }

/-- The length of `cells` without the empty cells at its end
(`rposition(|c| !c.is_empty())`, plus one). -/
def contentLength (cells : List T) : ℕ := (cells.reverse.dropWhile GridCell.isEmpty).length

/-- `Row::shrink_with_minimum`: the row cut to `columns`, and the cells past it up to
the last nonempty one, or up to `minimum` where that is further. -/
def shrinkWithMinimum (r : Row T) (columns minimum : ℕ) : Row T × Option (List T) :=
  if r.inner.length ≤ columns then (r, none)
  else
    let newRow := r.inner.drop columns
    let content := contentLength newRow
    let cursor := min (minimum - columns) newRow.length
    let newRow := newRow.take (max content cursor)
    (⟨r.inner.take columns, min r.occ columns⟩, if newRow.isEmpty then none else some newRow)

def shrink (r : Row T) (columns : ℕ) : Row T × Option (List T) := r.shrinkWithMinimum columns 0

/-- `Row::reset`: if the template changed, every cell counts as dirty; every dirty cell
is reset. -/
def reset (r : Row T) (template : T) : Row T :=
  let occ :=
    if GridCell.discriminantEq (r.get (r.inner.length - 1)) template then r.occ else r.inner.length
  ⟨(r.inner.take occ).map (GridCell.reset · template) ++ r.inner.drop occ, 0⟩

def discard (r : Row T) : Row T :=
  { r with inner := (r.inner.take r.occ).map GridCell.discard ++ r.inner.drop r.occ }

/-- `Row::is_clear`: all cells in the row are empty. -/
def isClear (r : Row T) : Bool := r.inner.all GridCell.isEmpty

end Row

end Pebrel.Terminal
