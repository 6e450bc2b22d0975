import Pebrel.Terminal.TermInput

/-!
# The screen

Operations on a whole screen (`term/mod.rs`, `term/clear.rs`), images and inline
markers in its cells (`term/grid_content.rs`), the shell's prompts
(`term/prompt.rs`), and a terminal as a machine whose actions are its
operations.

## The model

The line at which a redraw anchor is found again is given to the action that
ends a synchronized update. The tile that an image shows in a cell is a function
of the row and the column within the image.
-/

namespace Pebrel.Terminal

inductive ClearMode where
  | above
  | below
  | all
  | saved

/-- `Attr`, the attributes that are handled. -/
inductive Attr where
  | foreground (color : Color)
  | background (color : Color)
  | underlineColor (color : Option Color)
  | reset
  | inverse (on : Bool)
  | bold
  | cancelBold
  | dim
  | cancelBoldDim
  | italic (on : Bool)
  | underline
  | doubleUnderline
  | undercurl
  | dottedUnderline
  | dashedUnderline
  | cancelUnderline
  | hidden (on : Bool)
  | strike (on : Bool)

/-- `flags.remove(ALL_UNDERLINES)`. -/
def Flags.removeUnderlines (f : Flags) : Flags :=
  { f with
    underline := false, doubleUnderline := false, undercurl := false, dottedUnderline := false
    dashedUnderline := false }

/-- What `terminal_attribute` does to the template. -/
def Attr.apply (c : Cell) : Attr → Cell
  | foreground color => { c with fg := color }
  | background color => { c with bg := color }
  | underlineColor color => c.setUnderlineColor color
  | reset => ({ c with fg := .foreground, bg := .background, flags := {} } : Cell).setUnderlineColor none
  | inverse on => { c with flags := { c.flags with inverse := on } }
  | bold => { c with flags := { c.flags with bold := true } }
  | cancelBold => { c with flags := { c.flags with bold := false } }
  | dim => { c with flags := { c.flags with dim := true } }
  | cancelBoldDim => { c with flags := { c.flags with bold := false, dim := false } }
  | italic on => { c with flags := { c.flags with italic := on } }
  | underline => { c with flags := { c.flags.removeUnderlines with underline := true } }
  | doubleUnderline => { c with flags := { c.flags.removeUnderlines with doubleUnderline := true } }
  | undercurl => { c with flags := { c.flags.removeUnderlines with undercurl := true } }
  | dottedUnderline => { c with flags := { c.flags.removeUnderlines with dottedUnderline := true } }
  | dashedUnderline => { c with flags := { c.flags.removeUnderlines with dashedUnderline := true } }
  | cancelUnderline => { c with flags := c.flags.removeUnderlines }
  | hidden on => { c with flags := { c.flags with hidden := on } }
  | strike on => { c with flags := { c.flags with strikeout := on } }

namespace Term

/-! ### Clearing -/

/-- `reset_region` for the lines `a..b`. -/
def resetRegion (t : Term) (a b : ℤ) : Term := t.modifyGrid (·.resetLines (lineRange a b))

/-- The part of `clear_screen_contents` that clears. -/
def clearContents (t : Term) : ClearMode → Term
  | .above =>
    let line := t.cursor.point.line
    let t := if line > 1 then t.resetRegion 0 line else t
    t.modifyCursorRow (·.fill 0 (min (t.cursor.point.column + 1) t.columns) (.ofColor t.cursor.template.bg))
  | .below =>
    let line := t.cursor.point.line
    let t := t.modifyCursorRow (·.fillFrom t.cursor.point.column (.ofColor t.cursor.template.bg))
    if line.toNat < t.screenLines - 1 then t.resetRegion (line + 1) t.screenLines else t
  | .all => if t.mode.altScreen then t.resetRegion 0 t.screenLines else t.modifyGrid (·.clearViewport)
  | .saved => if t.grid.historySize > 0 then t.modifyGrid (·.clearHistory) else t

def clearScreen (t : Term) (mode : ClearMode) : Term := (t.resetInputCluster.clearContents mode).markFullyDamaged

def decaln (t : Term) : Term :=
  let t := t.resetInputCluster
  let cell : Cell := { c := 'E' }
  (t.modifyGrid fun g =>
    (lineRange 0 g.lines).foldl (fun g line => g.modifyRow line (·.fill 0 g.columns cell)) g).markFullyDamaged

def deccolm (t : Term) : Term :=
  let t := t.setScrollingRegion 1 none
  (t.resetRegion 0 t.screenLines).markFullyDamaged

/-! ### Both screens -/

def swapAlt (t : Term) : Term :=
  let t := t.resetInputCluster
  let t :=
    if t.mode.altScreen then t
    else
      -- Set alt screen cursor to the current primary screen cursor.
      let inactive := t.inactiveGrid.copyCursorFrom t.grid
      { t with
        -- Drop information about the primary screens saved cursor.
        grid := { t.grid with savedCursor := t.grid.cursor }
        -- Reset alternate screen contents.
        inactiveGrid := inactive.resetLines (lineRange 0 inactive.lines) }
  { t with
    grid := t.inactiveGrid
    inactiveGrid := t.grid
    mode := { t.mode with altScreen := !t.mode.altScreen } }.markFullyDamaged

def resetState (t : Term) : Term :=
  let t := t.resetInputCluster
  let t := if t.mode.altScreen then { t with grid := t.inactiveGrid, inactiveGrid := t.grid } else t
  { t with
    grid := t.grid.reset
    inactiveGrid := t.inactiveGrid.reset
    promptMarks := []
    promptInput := none
    promptActive := false
    scrollRegion := ⟨0, t.screenLines⟩
    tabs := newTabs t.columns
    mode := {} }.markFullyDamaged

/-- `resize`; nothing where it does not come to an end. -/
def resize (t : Term) (lines columns : ℕ) : Option Term :=
  if t.columns = columns ∧ t.screenLines = lines then some t
  else
    let t := t.resetInputCluster
    let isAlt := t.mode.altScreen
    -- ConPTY's row semantics belong to the primary screen only.
    let conpty := t.conptyResize
    let grid := t.grid.resizeImpl (!isAlt) (conpty && !isAlt) lines columns
    let inactiveGrid := t.inactiveGrid.resizeImpl isAlt (conpty && isAlt) lines columns
    grid.bind fun grid => inactiveGrid.map fun inactiveGrid =>
      { t with
        grid
        inactiveGrid
        promptMarks := []
        promptInput := none
        tabs := if t.columns ≠ columns then resizeTabs t.tabs columns else t.tabs
        scrollRegion := ⟨0, grid.lines⟩
        damage := t.damage.resize columns lines }

/-- `conpty_realign`: the cursor of the primary screen is moved to a line, and the rows with it. -/
def conptyRealign (t : Term) (target : ℕ) : Term :=
  let cursor := t.grid.cursor.point.line
  let delta := (cursor - target).natAbs
  if t.mode.altScreen = true ∨ cursor < 0 ∨ delta = 0 ∨ t.screenLines ≤ delta then t
  else
    let t := t.resetInputCluster
    (if target < cursor then (t.modifyGrid (·.scrollUp 0 t.screenLines delta)).setLine (cursor - delta)
    else (t.modifyGrid (·.scrollDown 0 t.screenLines delta)).setLine (cursor + delta)).markFullyDamaged

/-- `set_options`: the scrollback of the primary screen. -/
def setOptions (t : Term) (scrollingHistory : ℕ) (conptyResize : Bool) : Term :=
  let t := { t with conptyResize }
  let t :=
    if t.mode.altScreen then { t with inactiveGrid := t.inactiveGrid.updateHistory scrollingHistory }
    else t.modifyGrid (·.updateHistory scrollingHistory)
  t.markFullyDamaged

/-- `finish_redraw_anchor`, where the anchor is found again at `line`. -/
def finishRedrawAnchor (t : Term) (line : Option ℤ) : Term :=
  match line.filter (· ≤ 0) with
  | none => t
  | some line => (t.scrollDisplay .bottom).scrollDisplay (.delta (-line))

/-! ### Images and markers -/

/-- Write one tile of an image at the cursor, with what the template carries. -/
def writeTile (t : Term) (map : Char → Char) (extra : Option CellExtra) (tile : ℕ) : Term :=
  (t.writeAtCursor (map ' ')).modifyCursorCell fun cell => { cell with extra }.setImage tile

/-- `nebula_insert_inline_image`. -/
def insertInlineImage (t : Term) (map : Char → Char) (rows cols : ℕ) (tile : ℕ → ℕ → ℕ) : Term :=
  let t := t.resetInputCluster
  let t := if t.cursor.inputNeedsWrap then t.wrapline else t
  let t := t.modifyGrid (·.track)
  let extra := (t.cursor.template.setImage (tile 0 0)).extra
  let start := t.cursor.point.column
  let stop := min (start + cols) t.columns
  let t := (List.range rows).foldl (fun t row =>
    let t := if row ≠ 0 then t.linefeed else t
    (List.range' start (stop - start)).foldl (fun t column =>
      (t.setColumn column).writeTile map extra (tile row (column - start))) t) t
  ((t.setColumn (min stop (t.columns - 1))).setNeedsWrap (stop == t.columns)).markFullyDamaged

/-- One row of `nebula_insert_kitty_block`, and whether the block ends before it. -/
def kittyRow (map : Char → Char) (t : Term) (start : Point) (cols : ℕ) (tile : ℕ → ℕ → ℕ) (keepCursor : Bool)
    (row : ℕ) : Option Term :=
  let t := if !keepCursor ∧ row ≠ 0 then (t.setColumn start.column).linefeed else t
  let line := if keepCursor then start.line + row else t.cursor.point.line
  if line < 0 ∨ line ≥ t.screenLines then none
  else
    some ((List.range (min cols (t.columns - start.column))).foldl (fun t column =>
      let p : Point := ⟨line, start.column + column⟩
      ((t.setPoint p).writeAtCursor (map ' ')).modifyGrid (·.modifyCell p (·.setImage (tile row column)))) t)

/-- The rows of `nebula_insert_kitty_block` from `row` on. -/
def kittyRows (map : Char → Char) (start : Point) (cols : ℕ) (tile : ℕ → ℕ → ℕ) (keepCursor : Bool) :
    ℕ → ℕ → Term → Term
  | _, 0, t => t
  | row, n + 1, t =>
    match kittyRow map t start cols tile keepCursor row with
    | none => if !keepCursor ∧ row ≠ 0 then (t.setColumn start.column).linefeed else t
    | some t => kittyRows map start cols tile keepCursor (row + 1) n t

/-- `nebula_insert_kitty_block`. -/
def insertKittyBlock (t : Term) (map : Char → Char) (rows cols : ℕ) (tile : ℕ → ℕ → ℕ) (keepCursor : Bool) : Term :=
  let t := t.modifyGrid (·.track)
  let saved := t.cursor
  let t := kittyRows map saved.point cols tile keepCursor 0 rows t
  let t :=
    if keepCursor then (t.setPoint saved.point).setNeedsWrap saved.inputNeedsWrap
    else
      let stop := saved.point.column + cols
      ((t.linefeed).setColumn (min stop (t.columns - 1))).setNeedsWrap (decide (stop ≥ t.columns))
  t.markFullyDamaged

def inlineContentGridMut (t : Term) : Term := t.resetInputCluster.modifyGrid (·.track)

/-- An inline marker at the cursor, in a row of its own. -/
def placeMarker (t : Term) (marker : ℕ) : Term :=
  let t := t.inlineContentGridMut
  if t.cursor.point.column = 0 then
    (t.modifyCursorRow (·.reset default)).modifyCursorCell (·.setInlineMarker marker)
  else t

/-- Inline markers on the first cells of the lines `line..line + count`. -/
def markLines (t : Term) (line : ℤ) (count : ℕ) (marker : ℕ) : Term :=
  (List.range count).foldl (fun t row =>
    t.modifyGrid (·.modifyCell ⟨line + row, 0⟩ (·.setInlineMarker marker))) t.inlineContentGridMut

/-! ### Prompts -/

/-- `nebula_cursor_abs_line`. -/
def cursorAbsLine (t : Term) : ℕ := t.grid.scrolledOut + t.grid.historySize + t.cursor.point.line.toNat

/-- `nebula_add_prompt_mark`. -/
def addPromptMark (t : Term) : Term :=
  if t.mode.altScreen then t
  else
    let abs := t.cursorAbsLine
    -- Marks for the same or a later row are dropped, and marks whose rows have scrolled out.
    let marks := t.promptMarks.reverse.dropWhile (fun m => decide (m ≥ abs))
    let marks := marks.reverse.dropWhile (fun m => decide (m < t.grid.scrolledOut))
    { t with promptMarks := marks ++ [abs], promptActive := true, promptInput := none }

/-- `nebula_end_prompt`. -/
def endPrompt (t : Term) : Term := { t with promptActive := false, promptInput := none }

/-- `nebula_mark_prompt_input`. -/
def markPromptInput (t : Term) : Term :=
  if t.promptActive && !t.mode.altScreen then
    let line := t.cursorAbsLine
    { t with
      promptInput := some (if t.cursor.inputNeedsWrap then (line + 1, 0) else (line, t.cursor.point.column)) }
  else t

/-- The absolute line at the top of the viewport; the source's subtraction on `usize` wraps. -/
def topAbs (t : Term) : ℕ :=
  (t.grid.scrolledOut + t.grid.historySize + (2 ^ 64 - t.grid.displayOffset % 2 ^ 64)) % 2 ^ 64

/-- The mark that `nebula_prompt_jump` chooses. -/
def jumpTarget (t : Term) (up : Bool) : Option ℕ :=
  if up then t.promptMarks.reverse.find? (fun m => decide (m < t.topAbs))
  else t.promptMarks.find? (fun m => decide (m > t.topAbs))

/-- The display offset that puts the mark's row at the viewport top. -/
def jumpOffset (t : Term) (mark : ℕ) : ℕ :=
  min (t.grid.scrolledOut + t.grid.historySize - mark) t.grid.historySize

/-- `nebula_prompt_jump`, and whether the viewport moved. -/
def promptJump (t : Term) (up : Bool) : Term × Bool :=
  if t.mode.altScreen then (t, false)
  else
    match t.jumpTarget up with
    | none => (t, false)
    | some mark =>
      let delta := wrapI32 (wrapI32 (t.jumpOffset mark) - wrapI32 t.grid.displayOffset)
      if delta = 0 then (t, false) else (t.scrollDisplay (.delta delta), true)

end Term

/-! ### The machine -/

/-- The operations of a terminal. -/
inductive TermOp where
  | input (u : Unicode) (c : Char)
  | putTab (u : Unicode) (count : ℕ)
  | decaln
  | goto (line : ℤ) (col : ℕ)
  | gotoLine (line : ℤ)
  | gotoCol (col : ℕ)
  | insertBlank (count : ℕ)
  | moveUp (lines : ℕ)
  | moveDown (lines : ℕ)
  | moveForward (cols : ℕ)
  | moveBackward (cols : ℕ)
  | moveDownAndCr (lines : ℕ)
  | moveUpAndCr (lines : ℕ)
  | backspace
  | carriageReturn
  | linefeed
  | newline
  | setHorizontalTabstop
  | scrollUp (lines : ℕ)
  | scrollDown (lines : ℕ)
  | insertBlankLines (lines : ℕ)
  | deleteLines (lines : ℕ)
  | eraseChars (count : ℕ)
  | deleteChars (count : ℕ)
  | moveBackwardTabs (count : ℕ)
  | moveForwardTabs (count : ℕ)
  | saveCursorPosition
  | restoreCursorPosition
  | clearLine (mode : LineClearMode)
  | clearScreen (mode : ClearMode)
  | clearTab
  | clearAllTabs
  | resetState
  | reverseIndex
  | setHyperlink (hyperlink : Option ℕ)
  | terminalAttribute (attr : Attr)
  | setLineWrap (on : Bool)
  | setOrigin
  | unsetOrigin
  | columnMode
  | setInsert
  | unsetInsert
  | setLineFeedNewLine (on : Bool)
  | setScrollingRegion (top : ℕ) (bottom : Option ℕ)
  /-- A change of colors or of the cursor's style, which damages everything. -/
  | restyle
  /-- The alternate screen is entered or left; nothing where it already is. -/
  | setAltScreen (on : Bool)
  | swapAlt
  | resize (lines columns : ℕ)
  | conptyRealign (target : ℕ)
  | setOptions (scrollingHistory : ℕ) (conptyResize : Bool)
  | scrollDisplay (scroll : Scroll)
  | finishRedrawAnchor (line : Option ℤ)
  | insertInlineImage (u : Unicode) (rows cols : ℕ) (tile : ℕ → ℕ → ℕ)
  | insertKittyBlock (u : Unicode) (rows cols : ℕ) (tile : ℕ → ℕ → ℕ) (keepCursor : Bool)
  | placeMarker (marker : ℕ)
  | markLines (line : ℤ) (count : ℕ) (marker : ℕ)
  | addPromptMark
  | endPrompt
  | markPromptInput
  | promptJump (up : Bool)

def minColumns : ℕ := 2

def minScreenLines : ℕ := 1

namespace TermOp

/-- The arguments with which the operation is called: sizes that a terminal may have, a line
of a console of the same height, a scrolling region counted from the line `1`, and marked lines that are in the buffer. -/
def Called (t : Term) : TermOp → Prop
  | resize lines columns => minScreenLines ≤ lines ∧ minColumns ≤ columns
  | conptyRealign target => target < t.grid.lines
  | setScrollingRegion top _ => 1 ≤ top
  | markLines line count _ => -(t.grid.historySize : ℤ) ≤ line ∧ line + count ≤ t.grid.lines
  | _ => True

/-- One operation; nothing where it does not come to an end. -/
def step (t : Term) : TermOp → Option Term
  | input u c => some (t.input u c)
  | putTab u count => some (t.putTab u count)
  | decaln => some t.decaln
  | goto line col => some (t.goto line col)
  | gotoLine line => some (t.gotoLine line)
  | gotoCol col => some (t.gotoCol col)
  | insertBlank count => some (t.insertBlank count)
  | moveUp lines => some (t.moveUp lines)
  | moveDown lines => some (t.moveDown lines)
  | moveForward cols => some (t.moveForward cols)
  | moveBackward cols => some (t.moveBackward cols)
  | moveDownAndCr lines => some (t.moveDownAndCr lines)
  | moveUpAndCr lines => some (t.moveUpAndCr lines)
  | backspace => some t.backspace
  | carriageReturn => some t.carriageReturn
  | linefeed => some t.linefeed
  | newline => some t.newline
  | setHorizontalTabstop => some t.setHorizontalTabstop
  | scrollUp lines => some (t.scrollUp lines)
  | scrollDown lines => some (t.scrollDown lines)
  | insertBlankLines lines => some (t.insertBlankLines lines)
  | deleteLines lines => some (t.deleteLines lines)
  | eraseChars count => some (t.eraseChars count)
  | deleteChars count => some (t.deleteChars count)
  | moveBackwardTabs count => some (t.moveBackwardTabs count)
  | moveForwardTabs count => some (t.moveForwardTabs count)
  | saveCursorPosition => some t.saveCursorPosition
  | restoreCursorPosition => some t.restoreCursorPosition
  | clearLine mode => some (t.clearLine mode)
  | clearScreen mode => some (t.clearScreen mode)
  | clearTab => some t.clearTab
  | clearAllTabs => some t.clearAllTabs
  | resetState => some t.resetState
  | reverseIndex => some t.reverseIndex
  | setHyperlink hyperlink => some (t.modifyTemplate (·.setHyperlink hyperlink))
  | terminalAttribute attr => some (t.modifyTemplate fun c => attr.apply c)
  | setLineWrap on => some { t with mode := { t.mode with lineWrap := on } }
  | setOrigin => some ({ t with mode := { t.mode with origin := true } }.goto 0 0)
  | unsetOrigin => some { t with mode := { t.mode with origin := false } }
  | columnMode => some t.deccolm
  | setInsert => some { t.resetInputCluster with mode := { t.mode with insert := true } }
  | unsetInsert => some ({ t.resetInputCluster with mode := { t.mode with insert := false } }.markFullyDamaged)
  | setLineFeedNewLine on => some { t.resetInputCluster with mode := { t.mode with lineFeedNewLine := on } }
  | setScrollingRegion top bottom => some (t.setScrollingRegion top bottom)
  | restyle => some t.markFullyDamaged
  | setAltScreen on => some (if t.mode.altScreen ≠ on then t.swapAlt else t)
  | swapAlt => some t.swapAlt
  | resize lines columns => t.resize lines columns
  | conptyRealign target => some (t.conptyRealign target)
  | setOptions scrollingHistory conptyResize => some (t.setOptions scrollingHistory conptyResize)
  | scrollDisplay scroll => some (t.scrollDisplay scroll)
  | finishRedrawAnchor line => some (t.finishRedrawAnchor line)
  | insertInlineImage u rows cols tile => some (t.insertInlineImage u.map rows cols tile)
  | insertKittyBlock u rows cols tile keepCursor => some (t.insertKittyBlock u.map rows cols tile keepCursor)
  | placeMarker marker => some (t.placeMarker marker)
  | markLines line count marker => some (t.markLines line count marker)
  | addPromptMark => some t.addPromptMark
  | endPrompt => some t.endPrompt
  | markPromptInput => some t.markPromptInput
  | promptJump up => some (t.promptJump up).1

end TermOp

end Pebrel.Terminal
