import Pebrel.Terminal.Index
import Pebrel.Terminal.Storage

/-!
# The grid

The terminal's grid and its scrolling and clearing operations (`grid/mod.rs`).

## The model

The character sets of a cursor are left out: no operation here reads them. A
source loop over a range of lines is a fold over `lineRange`; a loop that walks
cell by cell has fuel for every cell it can visit.
-/

namespace Pebrel.Terminal

structure Cursor (T : Type) where
  /-- The location of this cursor. -/
  point : Point
  /-- Template cell when using this cursor. -/
  template : T
  /-- The next call to input will need to first handle wrapping. -/
  inputNeedsWrap : Bool

/-- `Cursor::default`. -/
def Cursor.fresh {T : Type} [GridCell T] : Cursor T := ⟨.origin, default, false⟩

inductive Scroll where
  | delta (count : ℤ)
  | pageUp
  | pageDown
  | top
  | bottom

structure Grid (T : Type) where
  cursor : Cursor T
  /-- Last saved cursor. -/
  savedCursor : Cursor T
  raw : Storage T
  columns : ℕ
  /-- Number of visible lines. -/
  lines : ℕ
  /-- Offset of displayed area. -/
  displayOffset : ℕ
  /-- Maximum number of lines in history. -/
  maxScrollLimit : ℕ
  /-- Total lines dropped from the top of the scrollback. -/
  scrolledOut : ℕ
  /-- Growing wider re-merges soft-wrapped rows. -/
  reflowOnGrow : Bool

/-- The value of an `i32` computation that may overflow, as it is without overflow checks. -/
def wrapI32 (n : ℤ) : ℤ := n.bmod (2 ^ 32)

/-- The lines `a..b`. -/
def lineRange (a b : ℤ) : List ℤ := (List.range (b - a).toNat).map fun k => a + k

namespace Storage

variable {T : Type} [GridCell T]

/-- `self.raw[line].reset(template)` for each of the lines. -/
def resetLines (s : Storage T) (template : T) (lines : List ℤ) : Storage T :=
  lines.foldl (fun s line => s.modify line (·.reset template)) s

omit [GridCell T] in
/-- `self.raw.swap(i, i + by)` for each of the lines. -/
def swapLines (s : Storage T) (by' : ℤ) (lines : List ℤ) : Storage T :=
  lines.foldl (fun s line => s.swap line (line + by')) s

end Storage

namespace Grid

variable {T : Type}

/-- `Dimensions for Grid`. -/
def dims (g : Grid T) : Dimensions := ⟨g.raw.len, g.lines, g.columns⟩

def historySize (g : Grid T) : ℕ := g.dims.historySize

def scrollDisplay (g : Grid T) (scroll : Scroll) : Grid T :=
  { g with
    displayOffset :=
      match scroll with
      | .delta count => min (max (wrapI32 (wrapI32 g.displayOffset + count)) 0).toNat g.historySize
      | .pageUp => min (g.displayOffset + g.lines) g.historySize
      | .pageDown => g.displayOffset - g.lines
      | .top => g.historySize
      | .bottom => 0 }

variable [GridCell T]

def new (lines columns maxScrollLimit : ℕ) : Grid T where
  raw := .withCapacity lines columns
  maxScrollLimit
  displayOffset := 0
  savedCursor := .fresh
  cursor := .fresh
  scrolledOut := 0
  reflowOnGrow := true
  lines
  columns

def updateHistory (g : Grid T) (historySize : ℕ) : Grid T :=
  let current := g.historySize
  let g :=
    if current > historySize then
      { g with
        scrolledOut := g.scrolledOut + (current - historySize)
        raw := g.raw.shrinkLines (current - historySize) }
    else g
  { g with displayOffset := min g.displayOffset historySize, maxScrollLimit := historySize }

def increaseScrollLimit (g : Grid T) (count : ℕ) : Grid T :=
  let count := min count (g.maxScrollLimit - g.historySize)
  if count ≠ 0 then { g with raw := g.raw.initializeRows count g.columns } else g

def decreaseScrollLimit (g : Grid T) (count : ℕ) : Grid T :=
  let count := min count g.historySize
  if count ≠ 0 then
    let g :=
      { g with
        scrolledOut := g.scrolledOut + count
        raw := g.raw.shrinkLines (min count g.historySize) }
    { g with displayOffset := min g.displayOffset g.historySize }
  else g

/-- `self.raw[line].reset(&self.cursor.template)` for each of the lines. -/
def resetLines (g : Grid T) (lines : List ℤ) : Grid T :=
  { g with raw := g.raw.resetLines g.cursor.template lines }

/-- `scroll_down`, in the region of lines `start..stop`: a region that is rotated entirely
is just reset; without a history the whole buffer is rotated and the lines fixed below and
above the region are swapped back; otherwise the lines of the region are swapped. -/
def scrollDown (g : Grid T) (start stop : ℤ) (positions : ℕ) : Grid T :=
  if stop - start ≤ positions then g.resetLines (lineRange start stop)
  else if g.maxScrollLimit = 0 then
    let raw := (g.raw.swapLines (-positions) (lineRange stop g.lines)).rotateDown positions
    let raw := raw.resetLines g.cursor.template (lineRange 0 positions)
    { g with raw := raw.swapLines positions (lineRange 0 start) }
  else
    let raw := g.raw.swapLines (-positions) (lineRange (start + positions) stop).reverse
    { g with raw }.resetLines (lineRange start (start + positions)).reverse

/-- The display offset after `positions` more lines, when not pinned to the active area. -/
def bumpedOffset (g : Grid T) (positions : ℕ) : ℕ :=
  if g.displayOffset ≠ 0 then min (g.displayOffset + positions) g.maxScrollLimit else g.displayOffset

/-- `scroll_up` rotates the entire region and lines are fixed above it. -/
def resetsRegion (start stop : ℤ) (positions : ℕ) : Prop := stop - start ≤ positions ∧ start ≠ 0
deriving Decidable

/-- The part of `scroll_up` for a region that starts at the top: lines beyond the capacity
left are counted as dropped, the history grows, the whole buffer is rotated upward and the
lines fixed below the region are swapped back. -/
def rotateIntoHistory (g : Grid T) (stop : ℤ) (positions : ℕ) : Grid T :=
  let capacityLeft := g.maxScrollLimit - g.historySize
  let g := { g with scrolledOut := g.scrolledOut + (positions - capacityLeft) }
  let g := g.increaseScrollLimit positions
  let raw := (g.raw.swapLines positions (lineRange 0 0).reverse).rotate (-positions)
  { g with raw := raw.swapLines (-positions) (lineRange stop g.lines).reverse }

/-- `scroll_up`, in the region of lines `start..stop`. -/
def scrollUp (g : Grid T) (start stop : ℤ) (positions : ℕ) : Grid T :=
  if resetsRegion start stop positions then g.resetLines (lineRange start stop)
  else
    let g := { g with displayOffset := g.bumpedOffset positions }
    let g :=
      if start = 0 then g.rotateIntoHistory stop positions
      else { g with raw := g.raw.swapLines positions (lineRange start (stop - positions)) }
    g.resetLines (lineRange (stop - positions) stop)

def clearHistory (g : Grid T) : Grid T :=
  { g with
    scrolledOut := g.scrolledOut + g.historySize
    raw := g.raw.shrinkLines g.historySize
    displayOffset := 0 }

/-- `grid[line]`. -/
def row (g : Grid T) (line : ℤ) : Row T := (g.raw.get line).getD default

/-- `grid[point]`. -/
def cell (g : Grid T) (p : Point) : T := (g.row p.line).get p.column

end Grid

/-! ### Iterating over cells -/

/-- `GridIterator`: the current position and the last cell included in the iterator. -/
structure GridIterator where
  point : Point
  stop : Point
  /-- Column at which a row ends and the iterator wraps to the next line. -/
  lastColumn : ℕ

namespace GridIterator

/-- `GridIterator::next`: the iterator at the cell it yields. -/
def next (it : GridIterator) : Option GridIterator :=
  if it.stop.le it.point then none
  else if it.point.column ≥ it.lastColumn then some { it with point := ⟨it.point.line + 1, 0⟩ }
  else some { it with point := ⟨it.point.line, it.point.column + 1⟩ }

/-- `BidirectionalIterator::prev` in a grid with the given topmost line. -/
def prev (it : GridIterator) (topmostLine : ℤ) : Option GridIterator :=
  if it.point.le ⟨topmostLine, 0⟩ then none
  else if it.point.column = 0 then some { it with point := ⟨it.point.line - 1, it.lastColumn⟩ }
  else some { it with point := ⟨it.point.line, it.point.column - 1⟩ }

/-- The first `n` points that the iterator yields. -/
def points : ℕ → GridIterator → List Point
  | 0, _ => []
  | n + 1, it =>
    match it.next with
    | none => []
    | some it => it.point :: points n it

end GridIterator

namespace Grid

variable {T : Type}

/-- `display_iter`: over all visible cells. -/
def displayIter (g : Grid T) : GridIterator :=
  let start : Point := ⟨-g.displayOffset - 1, g.dims.lastColumn⟩
  let endLine := min (start.line + g.lines) g.dims.bottommostLine
  ⟨start, ⟨endLine, g.dims.lastColumn⟩, g.dims.lastColumn⟩

def iterFrom (g : Grid T) (point : Point) : GridIterator :=
  ⟨point, ⟨g.dims.bottommostLine, g.dims.lastColumn⟩, g.dims.lastColumn⟩

variable [GridCell T]

/-- The loop of `clear_viewport`: go back until a nonempty cell or the history is met. -/
def lastOccupied (g : Grid T) : ℕ → GridIterator → GridIterator
  | 0, it => it
  | fuel + 1, it =>
    match it.prev g.dims.topmostLine with
    | none => it
    | some it =>
      if !GridCell.isEmpty (g.cell it.point) || it.point.line < 0 then it else g.lastOccupied fuel it

/-- `clear_viewport`: scroll up by the lines down to the last occupied one, and reset the
lines that were rotated. -/
def clearViewport (g : Grid T) : Grid T :=
  let it := g.lastOccupied (g.lines * g.columns + 1) (g.iterFrom ⟨g.lines - 1, g.columns⟩)
  let positions := (it.point.line + 1).toNat
  (g.scrollUp 0 g.lines positions).resetLines (lineRange 0 (g.lines - positions : ℕ))

/-- `reset`: completely reset the grid state. -/
def reset (g : Grid T) : Grid T :=
  let g := g.clearHistory
  let g := { g with savedCursor := .fresh, cursor := .fresh, displayOffset := 0 }
  g.resetLines (lineRange g.dims.topmostLine g.lines)

end Grid

end Pebrel.Terminal
