import Pebrel.Library.Text
import Pebrel.Terminal.Term

/-!
# Pages of the history

A reader outside the program asks for rows of the screen and its history by their
absolute numbers (`runtime_api/terminal_read.rs`): a line keeps its number while output
scrolls it up, until it is dropped from the history. The rows come as cells with a width;
the second cell of a wide character is not one of them.

## The model

The cursor that is shown and the palette are arguments. An index outside the buffer,
which panics in the source, is a failure of its own (`CaptureError.outside`).
-/

namespace Pebrel.Terminal.History

open Library

structure RuntimeScreenHistory where
  first : ℕ
  oldest : ℕ
  stop : ℕ
  liveStart : ℕ
  liveRows : ℕ
  applicationScroll : Bool

/-- A cell as it is sent. -/
structure WireCell where
  glyph : Text
  width : ℕ
  foreground : ℤ
  background : ℤ
  flags : ℕ

structure RuntimeTerminalScreen where
  version : ℕ
  columns : ℕ
  rows : List (List WireCell)
  palette : List (ℕ × ℕ)
  cursor : ℕ × ℕ × ℕ
  wrapped : List Bool
  history : Option RuntimeScreenHistory

inductive CaptureError where
  | api (code message : Text)
  /-- An index outside the buffer. -/
  | outside

def CaptureError.screenTooLarge (message : Text) : CaptureError := .api "screen_too_large".toList message

/-- The cursor of `renderable_content`. -/
structure RenderableCursor where
  point : Point
  hidden : Bool

/-! ### Cells -/

def packedRgb (r g b : UInt8) : ℕ := r.toNat * 2 ^ 16 + g.toNat * 2 ^ 8 + b.toNat

def colorIndex (bold : Bool) (index : ℕ) : ℤ := -((if bold && decide (index < 8) then index + 8 else index) + 1)

def wireColor (color : Color) (bold : Bool) : ℤ :=
  match color with
  | .spec r g b => packedRgb r g b
  | .foreground => colorIndex bold 256
  | .background => colorIndex bold 257
  | .named k => colorIndex bold k
  | .indexed i => colorIndex bold i.toNat

def isWide (cell : Cell) : Bool := !cell.isSpacer && cell.flags.wideChar

def glyph (cell : Cell) : Text :=
  (if cell.isSpacer || Text.isControl cell.c then [' '] else [cell.c]) ++
    if cell.isSpacer then [] else cell.zerowidth.filter fun c => !Text.isControl c

def wireFlags (flags : Flags) : ℕ :=
  flags.bold.toNat + flags.italic.toNat * 2 + flags.anyUnderline.toNat * 4 + flags.strikeout.toNat * 8 + flags.dim.toNat * 16 +
    flags.hidden.toNat * 32

def wireCell (cell : Cell) (width : ℕ) : WireCell :=
  let foreground := wireColor cell.fg cell.flags.bold
  let background := wireColor cell.bg false
  { glyph := glyph cell, width
    foreground := if cell.flags.inverse then background else foreground
    background := if cell.flags.inverse then foreground else background
    flags := wireFlags cell.flags }

/-! ### Grids -/

/-- `grid[point]`, inside the buffer. -/
def cellAt (g : Grid Cell) (point : Point) : Except CaptureError Cell :=
  if -(g.historySize : ℤ) ≤ point.line ∧ point.line < g.lines then
    match (g.raw.get point.line).bind fun row => row.inner[point.column]? with
    | some cell => .ok cell
    | none => .error .outside
  else .error .outside

def maxGlyph : ℕ := 256
def maxText : ℕ := 128 * 1024

def textTooLarge : CaptureError := .screenTooLarge "screen glyphs exceed the screen v1 text budget".toList

/-- The cells of a row from a column on, with the bytes of text so far. Each takes at least one column. -/
def captureRow (g : Grid Cell) (line : ℤ) : ℕ → ℕ → ℕ → Except CaptureError (List WireCell × ℕ)
  | 0, _, textBytes => .ok ([], textBytes)
  | fuel + 1, x, textBytes =>
    if g.columns ≤ x then .ok ([], textBytes)
    else do
      let cell ← cellAt g ⟨line, x⟩
      let width := if isWide cell && decide (x + 1 < g.columns) then 2 else 1
      let textBytes := textBytes + Text.byteLen (glyph cell)
      if maxGlyph < Text.byteLen (glyph cell) ∨ maxText < textBytes then .error textTooLarge
      else
        let (row, textBytes) ← captureRow g line fuel (x + width) textBytes
        .ok (wireCell cell width :: row, textBytes)

/-- The rows of some lines. -/
def captureRows (g : Grid Cell) : List ℤ → ℕ → Except CaptureError (List (List WireCell))
  | [], _ => .ok []
  | line :: lines, textBytes => do
    let (row, textBytes) ← captureRow g line g.columns 0 textBytes
    let rows ← captureRows g lines textBytes
    .ok (row :: rows)

def paletteLength : ℕ := 269

/-- What is sent besides the rows. -/
def terminalScreen (t : Term) (paletteColor : ℕ → UInt8 × UInt8 × UInt8) (cursor : RenderableCursor) (firstLine : ℤ) (lines : ℕ)
    (rows : List (List WireCell)) (wrapped : List Bool) : RuntimeTerminalScreen :=
  let cursorY := cursor.point.line - firstLine
  let visible := !cursor.hidden && decide (0 ≤ cursorY) && decide (cursorY < lines)
  { version := 1
    columns := t.columns
    rows, wrapped
    palette := (List.range paletteLength).map fun index =>
      let (r, g, b) := paletteColor index
      (index, packedRgb r g b)
    cursor := (min cursor.point.column (t.columns - 1), (max 0 (min cursorY (lines - 1))).toNat, visible.toNat)
    history := none }

def captureTerminalGrid (t : Term) (paletteColor : ℕ → UInt8 × UInt8 × UInt8) (cursor : RenderableCursor) (firstLine : ℤ) (lines : ℕ) :
    Except CaptureError RuntimeTerminalScreen :=
  if ¬ (1 ≤ t.columns ∧ t.columns ≤ 400) ∨ ¬ (1 ≤ lines ∧ lines ≤ 200) ∨ 40000 < t.columns * lines then
    .error (.screenTooLarge
      "screen v1 requires at most 400 columns, 200 rows and 40000 cells; resize the desktop pane".toList)
  else do
    let all := lineRange firstLine (firstLine + lines)
    let rows ← captureRows t.grid all 0
    let wrapped ← all.mapM fun line => do
      let cell ← cellAt t.grid ⟨line, t.columns - 1⟩
      .ok cell.flags.wrapline
    .ok (terminalScreen t paletteColor cursor firstLine lines rows wrapped)

def captureTerminalHistory (t : Term) (paletteColor : ℕ → UInt8 × UInt8 × UInt8) (cursor : RenderableCursor) (start : Option ℕ)
    (requestedRows : ℕ) : Except CaptureError RuntimeTerminalScreen :=
  let columns := t.columns
  if ¬ (1 ≤ columns ∧ columns ≤ 400) ∨ ¬ (1 ≤ requestedRows ∧ requestedRows ≤ 200) then
    .error (.api "invalid_params".toList "history requires 1..200 rows and 1..400 columns".toList)
  else
    let oldest := t.grid.scrolledOut
    let liveStart := oldest + t.grid.historySize
    let stop := liveStart + t.screenLines
    let applicationScroll := t.mode.altScreen
    let rows := if applicationScroll then t.screenLines else min (min requestedRows (40000 / columns)) t.grid.raw.len
    let first := if applicationScroll then liveStart else max oldest (min (start.getD (stop - rows)) (max (stop - rows) oldest))
    let firstLine : ℤ := (first : ℤ) - liveStart
    (captureTerminalGrid t paletteColor cursor firstLine rows).map fun screen =>
      { screen with history := some { first, oldest, stop, liveStart, liveRows := t.screenLines, applicationScroll } }

end Pebrel.Terminal.History
