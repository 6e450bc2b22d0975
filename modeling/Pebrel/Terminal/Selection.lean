import Pebrel.Library.Text
import Pebrel.Terminal.CellOrder
import Pebrel.Terminal.Term

/-!
# Selections

Selections in the grid (`selection.rs`), the searches by which a semantic
selection and a selection of lines find their ends (`term/search.rs`), and the
text of a selection (`term/mod.rs`, `term/cell.rs`).

## The model

A search that walks cell by cell has fuel for every cell of the buffer. Where
the source indexes outside a row or steps before column `0`, the text functions
have no value. The separators of a semantic selection and the inline markers
whose surface has a source in the grid are parameters.
-/

namespace Pebrel.Terminal

inductive Side where
  | left
  | right
  deriving DecidableEq

/-- `Anchor`: a point and side within that point. -/
structure Anchor where
  point : Point
  side : Side
  deriving DecidableEq

/-- `SelectionRange`: a range of selected cells. -/
structure SelectionRange where
  start : Point
  stop : Point
  isBlock : Bool
  deriving DecidableEq

inductive SelectionType where
  | simple
  | block
  | semantic
  | lines
  deriving DecidableEq

structure Selection where
  ty : SelectionType
  start : Anchor
  stop : Anchor
  deriving DecidableEq

/-! ### Searches -/

namespace Grid

/-- The cell ends a row that does not go on in the row below. -/
def endsLine (g : Grid Cell) (p : Point) : Bool := p.column == g.dims.lastColumn && !hasWrapline (g.cell p)

/-- The cell has one of the characters, and is not a spacer. -/
def isNeedle (g : Grid Cell) (needles : List Char) (p : Point) : Bool :=
  !(g.cell p).isSpacer && needles.contains (g.cell p).c

/-- The loop of `inline_search_left`: a match, or the last point before the search has ended. -/
def searchLeft (g : Grid Cell) (needles : List Char) : ℕ → GridIterator → Except Point Point
  | 0, it => .error it.point
  | fuel + 1, it =>
    match it.prev g.dims.topmostLine with
    | none => .error it.point
    | some next =>
      if g.endsLine next.point then .error it.point
      else if g.isNeedle needles next.point then .ok next.point
      else g.searchLeft needles fuel next

/-- The loop of `inline_search_right`. -/
def searchRight (g : Grid Cell) (needles : List Char) : ℕ → GridIterator → Except Point Point
  | 0, it => .error it.point
  | fuel + 1, it =>
    match it.next with
    | none => .error it.point
    | some next =>
      if g.isNeedle needles next.point then .ok next.point
      else if g.endsLine next.point then .error next.point
      else g.searchRight needles fuel next

/-- Limit the starting point to the last line in the history. -/
def limited (g : Grid Cell) (point : Point) : Point := { point with line := max point.line g.dims.topmostLine }

def inlineSearchLeft (g : Grid Cell) (point : Point) (needles : List Char) : Except Point Point :=
  g.searchLeft needles g.cellCount (g.iterFrom (g.limited point))

def inlineSearchRight (g : Grid Cell) (point : Point) (needles : List Char) : Except Point Point :=
  -- Immediately stop if start point is on line break.
  if g.endsLine (g.limited point) then .error (g.limited point)
  else g.searchRight needles g.cellCount (g.iterFrom (g.limited point))

/-- `iter.find(|cell| !cell.flags.intersects(wide_spacer))`. -/
def findText (g : Grid Cell) : ℕ → GridIterator → Option Point
  | 0, _ => none
  | fuel + 1, it =>
    match it.next with
    | none => none
    | some next => if (g.cell next.point).isSpacer then g.findText fuel next else some next.point

def semanticSearchLeft (g : Grid Cell) (escape : List Char) (point : Point) : Point :=
  match g.inlineSearchLeft point escape with
  -- If we found a match, reverse for at least one cell, skipping over wide cell spacers.
  | .ok p => (g.findText g.cellCount (g.iterFrom p)).getD p
  | .error p => p

def semanticSearchRight (g : Grid Cell) (escape : List Char) (point : Point) : Point :=
  match g.inlineSearchRight point escape with
  | .ok p => (((g.iterFrom p).prev g.dims.topmostLine).map (·.point)).getD p
  | .error p => p

def bracketPairs : List (Char × Char) := [('(', ')'), ('[', ']'), ('\x7b', '\x7d'), ('<', '>')]

/-- Whether the match of a bracket comes after it, and the match. -/
def matchingBracket (c : Char) : Option (Bool × Char) :=
  bracketPairs.findSome? fun pair =>
    if pair.1 = c then some (true, pair.2) else if pair.2 = c then some (false, pair.1) else none

/-- The loop of `bracket_search`: brackets of the same kind on the way are skipped with their matches. -/
def searchBracket (g : Grid Cell) (forward : Bool) (startChar endChar : Char) : ℕ → GridIterator → ℤ → Option Point
  | 0, _, _ => none
  | fuel + 1, it, skipPairs =>
    match if forward then it.next else it.prev g.dims.topmostLine with
    | none => none
    | some next =>
      let c := (g.cell next.point).c
      if c = endChar ∧ skipPairs = 0 then some next.point
      else if c = startChar then g.searchBracket forward startChar endChar fuel next (skipPairs + 1)
      else if c = endChar then g.searchBracket forward startChar endChar fuel next (skipPairs - 1)
      else g.searchBracket forward startChar endChar fuel next skipPairs

def bracketSearch (g : Grid Cell) (point : Point) : Option Point :=
  (matchingBracket (g.cell point).c).bind fun (forward, endChar) =>
    g.searchBracket forward (g.cell point).c endChar g.cellCount (g.iterFrom point) 0

/-- The loop of `line_search_left`. -/
def lineStart (g : Grid Cell) : ℕ → ℤ → ℤ
  | 0, line => line
  | fuel + 1, line =>
    if line > g.dims.topmostLine ∧ hasWrapline (g.cell ⟨line - 1, g.dims.lastColumn⟩) then g.lineStart fuel (line - 1)
    else line

def lineSearchLeft (g : Grid Cell) (point : Point) : Point := ⟨g.lineStart (g.historySize + g.lines) point.line, 0⟩

/-- The loop of `line_search_right`. -/
def lineEnd (g : Grid Cell) : ℕ → ℤ → ℤ
  | 0, line => line
  | fuel + 1, line =>
    if line + 1 < g.lines ∧ hasWrapline (g.cell ⟨line, g.dims.lastColumn⟩) then g.lineEnd fuel (line + 1) else line

def lineSearchRight (g : Grid Cell) (point : Point) : Point :=
  ⟨g.lineEnd (g.historySize + g.lines) point.line, g.dims.lastColumn⟩

end Grid

/-! ### Ranges -/

namespace Selection

/-- The anchors, the one above first. -/
def ordered (s : Selection) : Anchor × Anchor :=
  if s.start.point.le s.stop.point then (s.start, s.stop) else (s.stop, s.start)

def isEmpty (s : Selection) : Bool :=
  match s.ty with
  | .simple =>
    let (start, stop) := s.ordered
    start == stop ||
      (start.side == .right && stop.side == .left && start.point.line == stop.point.line &&
        start.point.column + 1 == stop.point.column)
  | .block =>
    (s.start.point.column == s.stop.point.column && s.start.side == s.stop.side) ||
      (s.start.point.column + 1 == s.stop.point.column && s.start.side == .right && s.stop.side == .left) ||
      (s.stop.point.column + 1 == s.start.point.column && s.start.side == .left && s.stop.side == .right)
  | .semantic | .lines => false

def rangeSimple (s : Selection) (start stop : Anchor) (columns : ℕ) : Option SelectionRange :=
  if s.isEmpty then none
  else
    -- Remove last cell if selection ends to the left of a cell.
    let last :=
      if stop.side = .left ∧ start.point ≠ stop.point then
        if stop.point.column = 0 then ⟨stop.point.line - 1, columns - 1⟩
        else ⟨stop.point.line, stop.point.column - 1⟩
      else stop.point
    -- Remove first cell if selection starts at the right of a cell.
    let first :=
      if start.side = .right ∧ start.point ≠ last then
        if start.point.column + 1 = columns then ⟨start.point.line + 1, 0⟩
        else ⟨start.point.line, start.point.column + 1⟩
      else start.point
    some ⟨first, last, false⟩

def rangeBlock (s : Selection) (start stop : Anchor) : Option SelectionRange :=
  if s.isEmpty then none
  else
    -- Always go top-left -> bottom-right.
    let (start, stop) : Anchor × Anchor :=
      if start.point.column > stop.point.column then
        (⟨⟨start.point.line, stop.point.column⟩, stop.side⟩, ⟨⟨stop.point.line, start.point.column⟩, start.side⟩)
      else (start, stop)
    let last : Point :=
      if stop.side = .left ∧ start.point ≠ stop.point ∧ stop.point.column > 0 then ⟨stop.point.line, stop.point.column - 1⟩
      else stop.point
    let first : Point :=
      if start.side = .right ∧ start.point ≠ last then ⟨start.point.line, start.point.column + 1⟩ else start.point
    some ⟨first, last, true⟩

def rangeSemantic (g : Grid Cell) (escape : List Char) (start stop : Point) : SelectionRange :=
  match if start = stop then g.bracketSearch start else none with
  | some matching =>
    if (matching.line = start.line ∧ matching.column < start.column) ∨ matching.line < start.line then
      ⟨matching, stop, false⟩
    else ⟨start, matching, false⟩
  | none => ⟨g.semanticSearchLeft escape start, g.semanticSearchRight escape stop, false⟩

def rangeLines (g : Grid Cell) (start stop : Point) : SelectionRange :=
  ⟨g.lineSearchLeft start, g.lineSearchRight stop, false⟩

/-- `to_range`: the selection in grid coordinates. -/
def toRange (s : Selection) (g : Grid Cell) (escape : List Char) : Option SelectionRange :=
  -- Order start above the end.
  let (start, stop) := s.ordered
  -- Clamp selection to within grid boundaries.
  if stop.point.line < g.dims.topmostLine then none
  else
    let start := { start with point := start.point.gridClamp g.dims .grid }
    let stop := { stop with point := stop.point.gridClamp g.dims .grid }
    match s.ty with
    | .simple => s.rangeSimple start stop g.columns
    | .block => s.rangeBlock start stop
    | .semantic => some (rangeSemantic g escape start.point stop.point)
    | .lines => some (rangeLines g start.point stop.point)

end Selection

/-! ### Text -/

/-- `Row::line_length`: the length of a row without the blank cells at its end. -/
def Row.lineLength (r : Row Cell) (hasGridSource : ℕ → Bool) : ℕ :=
  if hasWrapline (r.get (r.len - 1)) then r.len
  else
    (r.inner.reverse.dropWhile fun cell =>
      !(cell.c != ' ' || (cell.inlineMarker.map fun marker => !hasGridSource marker).getD false ||
        !cell.zerowidth.isEmpty)).length

def trimEnd (text : List Char) : List Char := text.rdropWhile Library.Text.isWhitespace

/-- `strip_suffix('\n')`, where there is one. -/
def stripNewline (text : List Char) : List Char := if text.getLast? = some '\n' then text.dropLast else text

namespace Term

/-- A cell's primary character and its zero-width characters. -/
def cellText (cell : Cell) : List Char := cell.c :: cell.zerowidth

/-- The loop of `line_to_string` over columns of a row. -/
def columnsToString (t : Term) (row : List Cell) : List ℕ → Bool → Option (List Char)
  | [], _ => some []
  | column :: columns, tabMode =>
    row[column]?.bind fun cell =>
      -- Skip over cells until next tab-stop once a tab was found.
      if tabMode && !(t.tabs.getD column false || cell.c != ' ') then t.columnsToString row columns true
      else
        (t.columnsToString row columns (cell.c == '\t')).map ((if cell.isSpacer then [] else cellText cell) ++ ·)

/-- The wide character of the row below, where only the spacer before it is selected. -/
def wrappedWide (t : Term) (line : ℤ) (row : List Cell) (lineLength : ℕ) : Option (List Char) :=
  if lineLength ≥ 2 then
    row[lineLength - 1]?.bind fun last =>
      if last.flags.leadingWideCharSpacer ∧ line < t.bottommostLine then
        (t.grid.raw.get (line + 1)).bind fun below =>
          below.inner[0]?.map fun cell => if cell.flags.wideChar then cellText cell else []
      else some []
  else some []

/-- `line_to_string`, for the columns `start..stop`. -/
def lineToString (t : Term) (hasGridSource : ℕ → Bool) (line : ℤ) (start stop : ℕ) (includeWrappedWide : Bool) :
    Option (List Char) :=
  (t.grid.raw.get line).bind fun gridLine =>
    let lineLength := min (gridLine.lineLength hasGridSource) (stop + 1)
    gridLine.inner[start]?.bind fun first =>
      -- Include wide char when trailing spacer is selected.
      let column := if first.flags.wideCharSpacer then if start = 0 then none else some (start - 1) else some start
      column.bind fun start =>
        (t.columnsToString gridLine.inner (.range' start (lineLength - start)) false).bind fun text =>
          let newline :=
            if stop ≥ t.columns - 1 then
              if lineLength = 0 then some ['\n']
              else gridLine.inner[lineLength - 1]?.map fun last => if hasWrapline last then [] else ['\n']
            else some []
          newline.bind fun newline =>
            -- If wide char is not part of the selection, but leading spacer is, include it.
            let wide := if lineLength = t.columns ∧ includeWrappedWide then t.wrappedWide line gridLine.inner lineLength else some []
            wide.map fun wide => text ++ newline ++ wide

/-- The texts of lines one after the other. -/
def linesToString (f : ℤ → Option (List Char)) : List ℤ → Option (List Char)
  | [] => some []
  | line :: lines => (f line).bind fun text => (linesToString f lines).map (text ++ ·)

def boundsToString (t : Term) (hasGridSource : ℕ → Bool) (start stop : Point) : Option (List Char) :=
  (linesToString (fun line =>
    t.lineToString hasGridSource line (if line = start.line then start.column else 0)
      (if line = stop.line then stop.column else t.lastColumn) (line = stop.line))
    (lineRange start.line (stop.line + 1))).map stripNewline

/-- The text of a block: its lines without the blanks at their ends. -/
def blockToString (t : Term) (hasGridSource : ℕ → Bool) (start stop : Point) : Option (List Char) :=
  (linesToString (fun line =>
    (t.lineToString hasGridSource line start.column stop.column (start.column ≠ 0)).map fun text => trimEnd text ++ ['\n'])
    (lineRange start.line stop.line)).bind fun text =>
      (t.lineToString hasGridSource stop.line start.column stop.column true).map fun last => text ++ trimEnd last

/-- `selection_to_string`, of a selection that is active: nothing where it has no range. -/
def selectionToString (t : Term) (escape : List Char) (hasGridSource : ℕ → Bool) (s : Selection) :
    Option (Option (List Char)) :=
  match s.toRange t.grid escape with
  | none => some none
  | some range =>
    match s.ty with
    | .block => (t.blockToString hasGridSource range.start range.stop).map some
    | .lines => (t.boundsToString hasGridSource range.start range.stop).map fun text => some (text ++ ['\n'])
    | .simple | .semantic => (t.boundsToString hasGridSource range.start range.stop).map some

end Term

end Pebrel.Terminal
