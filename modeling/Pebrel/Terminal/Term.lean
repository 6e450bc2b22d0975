import Pebrel.Terminal.CellEdit
import Pebrel.Terminal.Damage
import Pebrel.Terminal.Resize

/-!
# The terminal

The state of a terminal (`term/mod.rs`) and the operations on its cursor and its
lines that a program's output asks for.

## The model

A terminal has the fields that its operations on cells, cursors, damage and
prompt marks read. The selection, the vi cursor, titles, the palette and the
keyboard modes are left out: no cell, cursor or damage bound depends on them,
other than by marking everything as damaged. The character set in use is a
function on characters that an operation is given. An index past the end of a
row or of the tab stops panics in the source; here a read has a default and a
write does nothing.
-/

namespace Pebrel.Terminal

/-- The modes of `TermMode` that the operations read. -/
structure TermMode where
  lineWrap : Bool := true
  lineFeedNewLine : Bool := false
  origin : Bool := false
  insert : Bool := false
  altScreen : Bool := false

/-- The lines `start..stop`. -/
structure Region where
  start : ℤ
  stop : ℤ

def Region.contains (r : Region) (line : ℤ) : Bool := decide (r.start ≤ line) && decide (line < r.stop)

/-- `EmojiInput`: what an emoji written last was made of. -/
structure EmojiInput where
  last : Char
  graphic : Char
  joined : Bool

def initialTabstops : ℕ := 8

/-- `TabStops::new`. -/
def newTabs (columns : ℕ) : List Bool := (List.range columns).map fun i => i % initialTabstops == 0

/-- `TabStops::resize`. -/
def resizeTabs (tabs : List Bool) (columns : ℕ) : List Bool :=
  tabs.take columns ++ (List.range' tabs.length (columns - tabs.length)).map fun i => i % initialTabstops == 0

structure Term where
  inputCluster : Option EmojiInput
  /-- Where the last character written has left the cursor, and whether a wrap is pending. -/
  inputEnd : Option (Point × Bool)
  /-- Currently active grid. -/
  grid : Grid Cell
  /-- Currently inactive grid. -/
  inactiveGrid : Grid Cell
  tabs : List Bool
  mode : TermMode
  scrollRegion : Region
  damage : TermDamageState
  /-- Absolute lines of the shell's prompts on the primary screen. -/
  promptMarks : List ℕ
  promptActive : Bool
  /-- Absolute line and column at which the shell's input begins. -/
  promptInput : Option (ℕ × ℕ)
  /-- `config.conpty_resize`. -/
  conptyResize : Bool

/-! ### Cells and grids -/

namespace Grid

/-- A write through `grid[line]`. -/
def modifyRow {T : Type} (g : Grid T) (line : ℤ) (f : Row T → Row T) : Grid T := { g with raw := g.raw.modify line f }

/-- A write through `grid[point]`. -/
def modifyCell {T : Type} (g : Grid T) (p : Point) (f : T → T) : Grid T := g.modifyRow p.line (·.modify p.column f)

/-- `track_inline_content`, and of `track_transient_content` what concerns cached rows. -/
def track {T : Type} (g : Grid T) : Grid T := { g with raw := { g.raw with mayHaveTransientContent := true } }

def newForTerminal (lines columns history : ℕ) : Grid Cell :=
  let g := Grid.new lines columns history
  { g with raw := { g.raw with mayHaveTransientContent := false } }

def copyCursorFrom (g source : Grid Cell) : Grid Cell :=
  let template := source.cursor.template
  let g := if template.image.isSome || template.inlineMarker.isSome then g.track else g
  { g with cursor := source.cursor }

/-- Clear all related cells when overwriting a fullwidth cell. -/
def clearRelated (g : Grid Cell) : Grid Cell :=
  let p := g.cursor.point
  let flags := (g.cell p).flags
  if flags.wideChar || flags.wideCharSpacer then
    -- Remove wide char and spacer.
    let g :=
      if flags.wideChar ∧ p.column < g.dims.lastColumn then
        g.modifyCell ⟨p.line, p.column + 1⟩ .removeSpacer
      else if p.column > 0 then g.modifyCell ⟨p.line, p.column - 1⟩ .clearWide
      else g
    -- Remove leading spacers.
    if p.column ≤ 1 ∧ p.line ≠ g.dims.topmostLine then
      g.modifyCell ⟨p.line - 1, g.dims.lastColumn⟩ .removeLeadingSpacer
    else g
  else g

def writeAtCursor (g : Grid Cell) (c : Char) : Grid Cell :=
  g.clearRelated.modifyCell g.cursor.point fun _ => { g.cursor.template with c }

end Grid

namespace Term

def columns (t : Term) : ℕ := t.grid.columns

def screenLines (t : Term) : ℕ := t.grid.lines

def lastColumn (t : Term) : ℕ := t.grid.dims.lastColumn

def bottommostLine (t : Term) : ℤ := t.grid.dims.bottommostLine

def cursor (t : Term) : Cursor Cell := t.grid.cursor

def new (lines columns scrollingHistory : ℕ) (conptyResize : Bool) : Term where
  inputCluster := none
  inputEnd := none
  grid := .newForTerminal lines columns scrollingHistory
  inactiveGrid := .newForTerminal lines columns 0
  tabs := newTabs columns
  mode := {}
  scrollRegion := ⟨0, lines⟩
  damage := .new columns lines
  promptMarks := []
  promptActive := false
  promptInput := none
  conptyResize

def resetInputCluster (t : Term) : Term := { t with inputCluster := none, inputEnd := none }

def markFullyDamaged (t : Term) : Term := { t with damage := { t.damage with full := true } }

def damageLine (t : Term) (line left right : ℕ) : Term := { t with damage := t.damage.damageLine line left right }

def damagePoint (t : Term) (p : Point) : Term := { t with damage := t.damage.damagePoint p }

def damageCursor (t : Term) : Term := t.damagePoint t.cursor.point

/-- A change of `self.grid`. -/
def modifyGrid (t : Term) (f : Grid Cell → Grid Cell) : Term := { t with grid := f t.grid }

/-- A change of `self.grid.cursor`. -/
def modifyCursor (t : Term) (f : Cursor Cell → Cursor Cell) : Term :=
  t.modifyGrid fun g => { g with cursor := f g.cursor }

/-- `self.grid.cursor.point = point`. -/
def setPoint (t : Term) (point : Point) : Term := t.modifyCursor fun c => { c with point }

/-- `self.grid.cursor.point.column = column`. -/
def setColumn (t : Term) (column : ℕ) : Term := t.modifyCursor fun c => { c with point := { c.point with column } }

/-- `self.grid.cursor.point.line = line`. -/
def setLine (t : Term) (line : ℤ) : Term := t.modifyCursor fun c => { c with point := { c.point with line } }

/-- `self.grid.cursor.input_needs_wrap = wrap`. -/
def setNeedsWrap (t : Term) (wrap : Bool) : Term := t.modifyCursor fun c => { c with inputNeedsWrap := wrap }

/-- A change of `self.grid.cursor.template`. -/
def modifyTemplate (t : Term) (f : Cell → Cell) : Term := t.modifyCursor fun c => { c with template := f c.template }

/-- A write through `cursor_cell`. -/
def modifyCursorCell (t : Term) (f : Cell → Cell) : Term := t.modifyGrid fun g => g.modifyCell g.cursor.point f

/-- A write through the cursor's row. -/
def modifyCursorRow (t : Term) (f : Row Cell → Row Cell) : Term :=
  t.modifyGrid fun g => g.modifyRow g.cursor.point.line f

def writeAtCursor (t : Term) (c : Char) : Term := t.modifyGrid (·.writeAtCursor c)

/-! ### Scrolling -/

def scrollDownRelative (t : Term) (origin : ℤ) (lines : ℕ) : Term :=
  let t := t.resetInputCluster
  let lines := min lines (t.scrollRegion.stop - t.scrollRegion.start).toNat
  let lines := min lines (t.scrollRegion.stop - origin).toNat
  (t.modifyGrid (·.scrollDown origin t.scrollRegion.stop lines)).markFullyDamaged

def scrollUpRelative (t : Term) (origin : ℤ) (lines : ℕ) : Term :=
  let t := t.resetInputCluster
  let lines := min lines (t.scrollRegion.stop - t.scrollRegion.start).toNat
  (t.modifyGrid (·.scrollUp origin t.scrollRegion.stop lines)).markFullyDamaged

def scrollUp (t : Term) (lines : ℕ) : Term := t.scrollUpRelative t.scrollRegion.start lines

def scrollDown (t : Term) (lines : ℕ) : Term := t.scrollDownRelative t.scrollRegion.start lines

def insertBlankLines (t : Term) (lines : ℕ) : Term :=
  let origin := t.cursor.point.line
  if t.scrollRegion.contains origin then t.scrollDownRelative origin lines else t

def deleteLines (t : Term) (lines : ℕ) : Term :=
  let origin := t.cursor.point.line
  let lines := min (t.screenLines - origin.toNat) lines
  if lines > 0 ∧ t.scrollRegion.contains origin then t.scrollUpRelative origin lines else t

def scrollDisplay (t : Term) (scroll : Scroll) : Term :=
  let old := t.grid.displayOffset
  let t := t.modifyGrid (·.scrollDisplay scroll)
  if old ≠ t.grid.displayOffset then t.markFullyDamaged else t

/-! ### Moving the cursor -/

def goto (t : Term) (line : ℤ) (col : ℕ) : Term :=
  let t := t.resetInputCluster
  let yOffset := if t.mode.origin then t.scrollRegion.start else 0
  let maxY := if t.mode.origin then t.scrollRegion.stop - 1 else t.bottommostLine
  let t := t.damageCursor.setPoint ⟨max (min (line + yOffset) maxY) 0, min col t.lastColumn⟩
  t.damageCursor.setNeedsWrap false

def gotoLine (t : Term) (line : ℤ) : Term := t.goto line t.cursor.point.column

def gotoCol (t : Term) (col : ℕ) : Term := t.goto t.cursor.point.line col

def moveUp (t : Term) (lines : ℕ) : Term := t.goto (t.cursor.point.line - lines) t.cursor.point.column

def moveDown (t : Term) (lines : ℕ) : Term := t.goto (t.cursor.point.line + lines) t.cursor.point.column

def moveUpAndCr (t : Term) (lines : ℕ) : Term := t.goto (t.cursor.point.line - lines) 0

def moveDownAndCr (t : Term) (lines : ℕ) : Term := t.goto (t.cursor.point.line + lines) 0

def moveForward (t : Term) (cols : ℕ) : Term :=
  let t := t.resetInputCluster
  let column := min (t.cursor.point.column + cols) t.lastColumn
  let t := t.damageLine t.cursor.point.line.toNat t.cursor.point.column column
  (t.setColumn column).setNeedsWrap false

def moveBackward (t : Term) (cols : ℕ) : Term :=
  let t := t.resetInputCluster
  let column := t.cursor.point.column - cols
  let t := t.damageLine t.cursor.point.line.toNat column t.cursor.point.column
  (t.setColumn column).setNeedsWrap false

def backspace (t : Term) : Term :=
  let t := t.resetInputCluster
  let column := t.cursor.point.column
  if column > 0 then
    ((t.setColumn (column - 1)).setNeedsWrap false).damageLine t.cursor.point.line.toNat (column - 1) column
  else t

def carriageReturn (t : Term) : Term :=
  let t := t.resetInputCluster
  let t := t.damageLine t.cursor.point.line.toNat 0 t.cursor.point.column
  (t.setColumn 0).setNeedsWrap false

def linefeed (t : Term) : Term :=
  let t := t.resetInputCluster
  let next := t.cursor.point.line + 1
  if next = t.scrollRegion.stop then t.scrollUp 1
  else if next < t.screenLines then (t.damageCursor.setLine next).damageCursor
  else t

def newline (t : Term) : Term :=
  let t := t.linefeed
  if t.mode.lineFeedNewLine then t.carriageReturn else t

def reverseIndex (t : Term) : Term :=
  let t := t.resetInputCluster
  if t.cursor.point.line = t.scrollRegion.start then t.scrollDown 1
  else (t.damageCursor.setLine (max (t.cursor.point.line - 1) 0)).damageCursor

def saveCursorPosition (t : Term) : Term := t.modifyGrid fun g => { g with savedCursor := g.cursor }

def restoreCursorPosition (t : Term) : Term :=
  let t := t.resetInputCluster
  (t.damageCursor.modifyGrid fun g => { g with cursor := g.savedCursor }).damageCursor

def setScrollingRegion (t : Term) (top : ℕ) (bottom : Option ℕ) : Term :=
  -- Fallback to the last line as default.
  let bottom := bottom.getD t.screenLines
  if top ≥ bottom then t
  else
    let region : Region := ⟨min ((top : ℤ) - 1) t.screenLines, min (bottom : ℤ) t.screenLines⟩
    { t with scrollRegion := region }.goto 0 0

/-! ### Tab stops -/

/-- The next tab stop after `column`, or the last column. -/
def nextTab (t : Term) (column : ℕ) : ℕ :=
  ((List.range' (column + 1) (t.columns - (column + 1))).find? fun i => t.tabs.getD i false).getD
    (max column (t.columns - 1))

/-- The tab stop before `column`, or `column` itself. -/
def previousTab (t : Term) (column : ℕ) : ℕ :=
  ((List.range column).reverse.find? fun i => t.tabs.getD i false).getD column

/-- One turn of the loop of `put_tab`. -/
def putOneTab (map : Char → Char) (t : Term) : Term :=
  let t := t.modifyCursorCell fun cell => if cell.c = ' ' then { cell with c := map '\t' } else cell
  t.setColumn (t.nextTab t.cursor.point.column)

def moveForwardTabs (t : Term) (count : ℕ) : Term :=
  let t := t.resetInputCluster
  let old := t.cursor.point.column
  let t := t.setColumn (t.nextTab^[count] old)
  t.damageLine t.cursor.point.line.toNat old t.cursor.point.column

def moveBackwardTabs (t : Term) (count : ℕ) : Term :=
  let t := t.resetInputCluster
  let old := t.cursor.point.column
  let t := t.setColumn (t.previousTab^[count] old)
  t.damageLine t.cursor.point.line.toNat t.cursor.point.column old

def setHorizontalTabstop (t : Term) : Term := { t with tabs := t.tabs.set t.cursor.point.column true }

/-- `clear_tabs(TabulationClearMode::Current)`. -/
def clearTab (t : Term) : Term := { t with tabs := t.tabs.set t.cursor.point.column false }

/-- `clear_tabs(TabulationClearMode::All)`. -/
def clearAllTabs (t : Term) : Term := { t with tabs := t.tabs.map fun _ => false }

end Term

end Pebrel.Terminal
