import Pebrel.Terminal.Grid

/-!
# Resize and reflow

Resizing a grid (`grid/resize.rs`). A resize first changes the number of lines,
then splits or merges rows for the new number of columns, and puts the cursor
back on the content it was on.

## The model

The source drains the rows from the top down and pushes the new rows on a
vector; here the vector is a list whose head is the last row pushed, so that in
the end it holds the new rows from the bottom up, as the storage does. The
inner loop of `shrink_columns` has fuel. It runs out of it exactly where the
source does not come to an end: where the new width is `1` and a wide character
would have to be wrapped.
-/

namespace Pebrel.Terminal

section
variable {T : Type} [GridCell T]

/-! ### Growing columns -/

/-- The state of the loop of `grow_columns`. -/
structure GrowState (T : Type) where
  /-- `reversed`, the last row pushed first. -/
  done : List (Row T)
  cursor : Cursor T
  cursorLineDelta : ℕ
  displayOffset : ℕ

/-- `should_reflow`: the row wraps into the next one and has room now. -/
def shouldReflow (reflow : Bool) (columns : ℕ) (row : Row T) : Bool :=
  reflow && decide (0 < row.len) && decide (row.len < columns) && hasWrapline (row.get (row.len - 1))

/-- The row above a merge, without its wrap flag and its leading spacer. -/
def unwrapped (row : Row T) : Row T :=
  -- Remove wrap flag before appending additional cells.
  let row := row.modifyLast removeWrapline
  -- Remove leading spacers when reflowing wide char to the previous line.
  if decide (row.len ≥ 1) && hasLeadingSpacer (row.get (row.len - 1)) then (row.shrink (row.len - 1)).1 else row

/-- What a merge pulls up: the row above and the row below after it, and how many cells of
the row below count as wrapped. -/
structure Merge (T : Type) where
  above : Row T
  below : Row T
  numWrapped : ℕ

/-- Pull cells of `row` up into `last`, the unwrapped row above. -/
def mergeRows (columns : ℕ) (last row : Row T) : Merge T :=
  -- Don't try to pull more cells from the next line than available.
  let numWrapped := columns - last.len
  let len := min row.len numWrapped
  -- Insert leading spacer when there's not enough room for reflowing wide char.
  if hasWideChar (row.get (len - 1)) then
    let (row, cells) := row.frontSplitOff (len - 1)
    ⟨last.append (cells ++ [leadingSpacer]), row, numWrapped - 1⟩
  else
    let (row, cells) := row.frontSplitOff len
    ⟨last.append cells, row, numWrapped⟩

/-- `cursor_buffer_line`: the cursor's line, counted from the bottom. -/
def cursorBufferLine (lines : ℕ) (cursor : Cursor T) : ℤ := (lines : ℤ) - cursor.point.line - 1

/-- The cursor on a merged row: `input_needs_wrap`, the new column, and by how many lines it
moves up. -/
def growCursor (lines columns : ℕ) (cursor : Cursor T) (m : Merge T) : Cursor T × ℕ :=
  let dims : Dimensions := ⟨0, lines, columns⟩
  -- Resize cursor's line and reflow the cursor if necessary.
  let target := cursor.point.sub dims .cursor m.numWrapped
  -- Clamp to the last column, if no content was reflown with the cursor.
  let clamp := target.column == 0 && m.below.isClear
  let target := if clamp then target.sub dims .cursor 1 else target
  ({ cursor with
      inputNeedsWrap := cursor.inputNeedsWrap || clamp
      point := { cursor.point with column := target.column } },
    (cursor.point.line - target.line).toNat)

/-- The cursor is rotated down if content below it was pulled from history. -/
def lowerCursor (lines i : ℕ) (cursor : Cursor T) : Cursor T :=
  if (i : ℤ) < cursorBufferLine lines cursor then
    { cursor with point := { cursor.point with line := cursor.point.line + 1 } }
  else cursor

/-- The viewport is rotated down if a line below its bottom was removed. -/
def lowerOffset (i displayOffset : ℕ) : ℕ := if i < displayOffset then displayOffset - 1 else displayOffset

/-- One turn of the loop of `grow_columns`, for the row with index `i` from the bottom: a row
that is merged away in full is not pushed, one that still has cells is wrapped into. -/
def growStep (lines columns : ℕ) (reflow : Bool) (st : GrowState T) (i : ℕ) (row : Row T) : GrowState T :=
  match st.done with
  | [] => { st with done := [row] }
  | last :: done =>
    if !shouldReflow reflow columns last then { st with done := row :: last :: done }
    else
      let m := mergeRows columns (unwrapped last) row
      let pushed := m.below :: m.above.modifyLast insertWrapline :: done
      if (i : ℤ) = cursorBufferLine lines st.cursor ∧ reflow then
        let (cursor, lineDelta) := growCursor lines columns st.cursor m
        if m.below.isClear then
          { st with done := m.above :: done, cursor, displayOffset := lowerOffset i st.displayOffset }
        else { st with done := pushed, cursor, cursorLineDelta := st.cursorLineDelta + lineDelta }
      else if m.below.isClear then
        { st with
          done := m.above :: done
          cursor := lowerCursor lines i st.cursor
          displayOffset := lowerOffset i st.displayOffset }
      else { st with done := pushed }

/-- Moving the cursor outside of the grid instead of the linewrap special case. -/
def unwrapCursor (reflow : Bool) (cursor : Cursor T) : Cursor T :=
  if cursor.inputNeedsWrap && reflow then
    { cursor with inputNeedsWrap := false, point := { cursor.point with column := cursor.point.column + 1 } }
  else cursor

/-- The loop of `grow_columns` over the rows, bottommost first, with their indices. -/
def growLoop (lines columns : ℕ) (reflow : Bool) (st : GrowState T) (rows : List (Row T × ℕ)) : GrowState T :=
  rows.foldr (fun ri st => growStep lines columns reflow st ri.2 ri.1) st

/-- Make sure we have at least the viewport filled. -/
def fillViewport (lines columns : ℕ) (st : GrowState T) : GrowState T :=
  if st.done.length < lines then
    let delta := lines - st.done.length
    { st with
      cursor := { st.cursor with point := { st.cursor.point with line := max (st.cursor.point.line - delta) 0 } }
      done := .replicate delta (.new columns) ++ st.done }
  else st

/-- Pull content down to put cursor in correct position, or move cursor up if there's no
more lines to delete below the cursor. -/
def pullDown (lines : ℕ) (st : GrowState T) : GrowState T :=
  if st.cursorLineDelta ≠ 0 then
    let available := min (cursorBufferLine lines st.cursor).toNat (st.done.length - lines)
    let overflow := st.cursorLineDelta - available
    { st with
      done := st.done.drop (st.cursorLineDelta - overflow)
      cursor := { st.cursor with point := { st.cursor.point with line := max (st.cursor.point.line - overflow) 0 } } }
  else st

def Grid.growColumns (g : Grid T) (reflow : Bool) (columns : ℕ) : Grid T :=
  let (raw, rows) := g.raw.takeAll
  let st : GrowState T := ⟨[], unwrapCursor reflow g.cursor, 0, g.displayOffset⟩
  let st := pullDown g.lines (fillViewport g.lines columns (growLoop g.lines columns reflow st rows.zipIdx))
  -- Fill all rows that are still too short.
  let raw := raw.replaceInner (st.done.map (·.grow columns))
  let g := { g with columns, cursor := st.cursor, raw }
  -- Clamp display offset in case lines above it got merged.
  { g with displayOffset := min st.displayOffset g.historySize }

/-! ### Shrinking columns -/

/-- The state of the loops of `shrink_columns`. -/
structure ShrinkState (T : Type) where
  /-- `new_raw`, the last row pushed first. -/
  done : List (Row T)
  /-- Cells left over from the previous row. -/
  buffered : Option (List T)
  cursor : Cursor T
  displayOffset : ℕ

/-- The last element of a vector, written through `last_mut`. -/
def modifyLastCell (cells : List T) (f : T → T) : List T := cells.modify (cells.length - 1) f

/-- The cells cut off `row` at `columns`, where the row is split at all. -/
def wrappedCells (columns : ℕ) (reflow atCursor : Bool) (cursor : Cursor T) (row : Row T) : Row T × Option (List T) :=
  -- Default cells before a cursor are part of the logical row.
  let minimum := if reflow && atCursor then cursor.point.column + 1 else 0
  let (row, wrapped) := row.shrinkWithMinimum columns minimum
  if reflow && wrapped.isSome then (row, wrapped)
  else if reflow && atCursor && decide (cursor.point.column ≥ columns) then (row, some [])
  else (row, none)

/-- Insert spacer if a wide char would be wrapped into the last column. -/
def spaceWideChar (columns : ℕ) (row : Row T) (wrapped : List T) : Row T × List T :=
  if decide (row.len ≥ columns) && hasWideChar (row.get (columns - 1)) then
    (row.modify (columns - 1) fun _ => leadingSpacer, row.get (columns - 1) :: wrapped)
  else (row, wrapped)

/-- The cursor after a new line was created at the row with index `i`. -/
def shrinkCursor (lines columns i : ℕ) (cursor : Cursor T) : Cursor T :=
  let buffer := cursorBufferLine lines cursor
  -- Reflow cursor if a line below it is deleted.
  let line :=
    if ((i : ℤ) = buffer ∧ cursor.point.column < columns) ∨ (i : ℤ) < buffer then max (cursor.point.line - 1) 0
    else cursor.point.line
  -- Reflow the cursor if it is on this line beyond the width.
  let column :=
    if (i : ℤ) = buffer ∧ cursor.point.column ≥ columns then cursor.point.column - columns else cursor.point.column
  { cursor with point := ⟨line, column⟩ }

/-- A leading spacer is the last of the cells cut off. -/
def endsInSpacer (wrapped : List T) : Bool := (wrapped.getLast?.map hasLeadingSpacer).getD false

/-- Remove the leading spacer from the end of the wrapped row, and wrap the cell before it. -/
def dropSpacer (wrapped : List T) : List T :=
  if endsInSpacer wrapped then modifyLastCell wrapped.dropLast insertWrapline else wrapped

/-- The cells cut off are added to the start of the next row: they wrap into it and leave room. -/
def joinsNext (columns i : ℕ) (wrapped : List T) : Bool :=
  (wrapped.getLast?.map fun c => hasWrapline c && decide (i ≥ 1)).getD false && decide (wrapped.length < columns)

/-- The viewport is rotated up if a line below its bottom was added. -/
def raiseOffset (i displayOffset : ℕ) : ℕ := if i < displayOffset then displayOffset + 1 else displayOffset

/-- The new row made of the cells cut off, at least as long as the new width. -/
def wrappedRow (columns : ℕ) (wrapped : List T) : Row T :=
  .fromVec (wrapped ++ .replicate (columns - wrapped.length) default) wrapped.length

/-- The inner loop of `shrink_columns`: split `row`, with index `i` from the bottom, until
what is left of it fits. -/
def shrinkRow (lines columns : ℕ) (reflow : Bool) (i : ℕ) : ℕ → ShrinkState T → Row T → Option (ShrinkState T)
  | 0, _, _ => none
  | fuel + 1, st, row =>
    match wrappedCells columns reflow (decide ((i : ℤ) = cursorBufferLine lines st.cursor)) st.cursor row with
    | (row, none) => some { st with done := row :: st.done }
    | (row, some wrapped) =>
      let (row, wrapped) := spaceWideChar columns row wrapped
      if endsInSpacer wrapped && wrapped.length == 1 then
        some { st with done := row.modify (columns - 1) insertWrapline :: st.done }
      else
        let wrapped := dropSpacer wrapped
        let done := row.modifyLast insertWrapline :: st.done
        if joinsNext columns i wrapped then
          some { st with done, buffered := some (modifyLastCell wrapped removeWrapline) }
        else
          let st :=
            { st with
              done
              cursor := shrinkCursor lines columns i st.cursor
              displayOffset := raiseOffset i st.displayOffset }
          shrinkRow lines columns reflow i fuel st (wrappedRow columns wrapped)

/-- One turn of the outer loop: put the cells left over in front of the row and split it. -/
def shrinkStep (lines columns : ℕ) (reflow : Bool) (st : ShrinkState T) (i : ℕ) (row : Row T) :
    Option (ShrinkState T) :=
  match st.buffered with
  | none => shrinkRow lines columns reflow i (row.len + st.cursor.point.column + 2) st row
  | some cells =>
    -- Add a column for every cell added before the cursor.
    let column :=
      if (i : ℤ) = cursorBufferLine lines st.cursor then st.cursor.point.column + cells.length
      else st.cursor.point.column
    let cursor := { st.cursor with point := { st.cursor.point with column } }
    let row := row.appendFront cells
    shrinkRow lines columns reflow i (row.len + column + 2) { st with buffered := none, cursor } row

/-- The outer loop of `shrink_columns` over the rows, bottommost first, with their indices. -/
def shrinkLoop (lines columns : ℕ) (reflow : Bool) (st : ShrinkState T) (rows : List (Row T × ℕ)) :
    Option (ShrinkState T) :=
  rows.foldr (fun ri st => st.bind fun st => shrinkStep lines columns reflow st ri.2 ri.1) (some st)

/-- The cursors of a grid that has become narrower. -/
def Grid.settleCursors (g : Grid T) (reflow : Bool) (columns : ℕ) : Grid T :=
  let cursor :=
    -- Reflow the primary cursor, or clamp it if reflow is disabled.
    if !reflow then { g.cursor with point := { g.cursor.point with column := min g.cursor.point.column (columns - 1) } }
    else if g.cursor.point.column == columns && !hasWrapline (g.cell ⟨g.cursor.point.line, columns - 1⟩) then
      { g.cursor with
        inputNeedsWrap := true
        point := { g.cursor.point with column := g.cursor.point.column - 1 } }
    else { g.cursor with point := g.cursor.point.gridClamp g.dims .cursor }
  -- Clamp the saved cursor to the grid.
  let saved := { g.savedCursor.point with column := min g.savedCursor.point.column (columns - 1) }
  { g with cursor, savedCursor := { g.savedCursor with point := saved } }

def Grid.shrinkColumns (g : Grid T) (reflow : Bool) (columns : ℕ) : Option (Grid T) :=
  let (raw, rows) := g.raw.takeAll
  let st : ShrinkState T := ⟨[], none, unwrapCursor reflow g.cursor, g.displayOffset⟩
  (shrinkLoop g.lines columns reflow st rows.zipIdx).map fun st =>
    let raw := raw.replaceInner (st.done.take (g.maxScrollLimit + g.lines))
    let g := { g with columns, cursor := st.cursor, raw }
    -- Clamp display offset in case some lines went off.
    let g := { g with displayOffset := min st.displayOffset g.historySize }
    g.settleCursors reflow columns

/-! ### Anchoring the cursor to the content -/

/-- `CursorAnchor`: where the cursor sits in the content, in terms that survive a reflow. -/
structure CursorAnchor where
  /-- Logical lines between the cursor's own and the bottom of the buffer. -/
  logicalLinesBelow : ℕ
  /-- Cursor's column offset from the start of its logical line. -/
  offset : ℕ

namespace Grid

/-- `has_wrapline`: this row soft-wraps into the one below it. -/
def hasWraplineAt (g : Grid T) (line : ℤ) : Bool :=
  if line < g.dims.topmostLine ∨ line > g.dims.bottommostLine then false
  else decide ((g.row line).len > 0) && hasWrapline ((g.row line).get ((g.row line).len - 1))

/-- `logical_width`: columns this row contributes to its logical line. -/
def logicalWidth (g : Grid T) (line : ℤ) : ℕ :=
  let row := g.row line
  if decide (row.len > 0) && hasLeadingSpacer (row.get (row.len - 1)) then row.len - 1 else row.len

/-- Walk up to the first row of a logical line, adding up the columns of the rows passed. -/
def walkUp (g : Grid T) : ℕ → ℤ → ℕ → ℤ × ℕ
  | 0, start, offset => (start, offset)
  | fuel + 1, start, offset =>
    if start > g.dims.topmostLine ∧ g.hasWraplineAt (start - 1) then
      g.walkUp fuel (start - 1) (offset + g.logicalWidth (start - 1))
    else (start, offset)

/-- Walk down to the last row of a logical line. -/
def walkDown (g : Grid T) : ℕ → ℤ → ℤ
  | 0, stop => stop
  | fuel + 1, stop =>
    if stop < g.dims.bottommostLine ∧ g.hasWraplineAt stop then g.walkDown fuel (stop + 1) else stop

/-- The logical lines that end at one of the lines `line..=bottommost`. -/
def logicalLinesFrom (g : Grid T) (line : ℤ) : ℕ :=
  (lineRange line (g.dims.bottommostLine + 1)).countP fun line => !g.hasWraplineAt line

def cursorAnchor (g : Grid T) : Option CursorAnchor :=
  let cursor := g.cursor.point
  if cursor.line < 0 ∨ cursor.line > g.dims.bottommostLine then none
  else
    let offset := cursor.column + if g.cursor.inputNeedsWrap then 1 else 0
    let (_, offset) := g.walkUp g.raw.len cursor.line offset
    let stop := g.walkDown g.raw.len cursor.line
    some ⟨g.logicalLinesFrom (stop + 1), offset⟩

/-- Walk up from the bottom of the buffer until `below` logical lines have been passed;
nothing where the buffer ends before that. -/
def passLines (g : Grid T) (below : ℕ) : ℕ → ℤ → ℕ → Option ℤ
  | 0, stop, _ => some stop
  | fuel + 1, stop, seen =>
    if seen < below then
      let seen := if !g.hasWraplineAt stop then seen + 1 else seen
      if stop = g.dims.topmostLine then none else g.passLines below fuel (stop - 1) seen
    else some stop

/-- Walk down through a logical line, spending the offset one row at a time. -/
def spendOffset (g : Grid T) (stop : ℤ) : ℕ → ℤ → ℕ → ℤ × ℕ
  | 0, line, remaining => (line, remaining)
  | fuel + 1, line, remaining =>
    if line < stop then
      if remaining < g.logicalWidth line then (line, remaining)
      else g.spendOffset stop fuel (line + 1) (remaining - g.logicalWidth line)
    else (line, remaining)

def restoreCursorAnchor (g : Grid T) (anchor : CursorAnchor) : Grid T :=
  match g.passLines anchor.logicalLinesBelow (g.raw.len + 1) g.dims.bottommostLine 0 with
  -- The anchored line is no longer in the buffer; leave the cursor where the reflow put it.
  | none => g
  | some stop =>
    let (line, _) := g.walkUp g.raw.len stop 0
    let (line, remaining) := g.spendOffset stop g.raw.len line anchor.offset
    -- An offset one past the end is the pending-wrap state.
    let past := decide (remaining > g.dims.lastColumn)
    { g with
      cursor :=
        { g.cursor with
          point := ⟨max line 0, if past then g.dims.lastColumn else remaining⟩
          inputNeedsWrap := past } }

/-! ### Growing and shrinking lines -/

def growLines (g : Grid T) (conpty : Bool) (target : ℕ) : Grid T :=
  let linesAdded := target - g.lines
  -- Need to resize before updating buffer.
  let g := { g with raw := g.raw.growVisibleLines target, lines := target }
  let fromHistory := if conpty then 0 else min g.historySize linesAdded
  -- Move existing lines up for every line that couldn't be pulled from history.
  let g := if fromHistory ≠ linesAdded then g.scrollUp 0 target (linesAdded - fromHistory) else g
  -- Move cursor down for every line pulled from history.
  let moveDown (c : Cursor T) := { c with point := { c.point with line := c.point.line + fromHistory } }
  let g := { g with savedCursor := moveDown g.savedCursor, cursor := moveDown g.cursor }
  let g := { g with displayOffset := g.displayOffset - linesAdded }
  g.decreaseScrollLimit linesAdded

/-- `bottommost_occupied_line`: bottommost viewport row containing a nonempty cell. -/
def bottommostOccupiedLine (g : Grid T) : ℕ :=
  ((List.range g.lines).reverse.find? fun (line : ℕ) => !(g.row line).isClear).getD 0

/-- `shrink_scroll_amount`: viewport rows a shrink to `target` visible lines will scroll out. -/
def shrinkScrollAmount (g : Grid T) (conpty : Bool) (target : ℕ) : ℕ :=
  let cursorLine := (gridClampLine g.cursor.point.line g.dims .cursor).toNat
  let requiredScrolling := cursorLine + 1 - target
  if conpty then
    let lastWritten := max cursorLine g.bottommostOccupiedLine
    let byContent := lastWritten + 1 - target
    -- Never scroll farther than the cursor can follow.
    max requiredScrolling (min byContent cursorLine)
  else requiredScrolling

def shrinkLines (g : Grid T) (conpty : Bool) (target : ℕ) : Grid T :=
  let cursorLine := g.cursor.point.line.toNat
  -- Scroll up to keep content inside the window.
  let requiredScrolling := g.shrinkScrollAmount conpty target
  let g :=
    if requiredScrolling > 0 then
      let g := g.scrollUp 0 g.lines requiredScrolling
      let line := min ((cursorLine - min requiredScrolling cursorLine : ℕ) : ℤ) ((target : ℤ) - 1)
      { g with cursor := { g.cursor with point := { g.cursor.point with line } } }
    else g
  -- Clamp saved cursor, since only primary cursor is scrolled into viewport.
  let saved := { g.savedCursor.point with line := min g.savedCursor.point.line ((target : ℤ) - 1) }
  { g with
    savedCursor := { g.savedCursor with point := saved }
    raw := (g.raw.rotate ((g.lines : ℤ) - target)).shrinkVisibleLines target
    lines := target }

/-! ### Resizing -/

/-- A resize to `columns` splits or merges rows. -/
def splicesRows (g : Grid T) (reflow : Bool) (columns : ℕ) : Bool :=
  if g.columns < columns then reflow && g.reflowOnGrow else if g.columns > columns then reflow else false

/-- The change of columns within a resize, with the cursor anchored to the content. -/
def resizeColumns (g : Grid T) (reflow : Bool) (columns : ℕ) : Option (Grid T) :=
  let anchor := if g.splicesRows reflow columns then g.cursorAnchor else none
  let resized :=
    if g.columns < columns then some (g.growColumns (reflow && g.reflowOnGrow) columns)
    else if g.columns > columns then g.shrinkColumns reflow columns
    else some g
  resized.map fun g =>
    match anchor with
    | some anchor => g.restoreCursorAnchor anchor
    | none => g

/-- The change of lines within a resize. -/
def resizeLines (g : Grid T) (conpty : Bool) (lines : ℕ) : Grid T :=
  if g.lines < lines then g.growLines conpty lines
  else if g.lines > lines then g.shrinkLines conpty lines
  else g

def resizeImpl (g : Grid T) (reflow conpty : Bool) (lines columns : ℕ) : Option (Grid T) :=
  -- Use empty template cell for resetting cells due to resize.
  let template := g.cursor.template
  let g := { g with cursor := { g.cursor with template := default } }
  ((g.resizeLines conpty lines).resizeColumns reflow columns).map fun g =>
    { g with cursor := { g.cursor with template } }

def resize (g : Grid T) (reflow : Bool) (lines columns : ℕ) : Option (Grid T) :=
  g.resizeImpl reflow false lines columns

/-- `resize_conpty`: with the row anchoring used by Windows ConPTY. -/
def resizeConpty (g : Grid T) (reflow : Bool) (lines columns : ℕ) : Option (Grid T) :=
  g.resizeImpl reflow true lines columns

end Grid

end

end Pebrel.Terminal
