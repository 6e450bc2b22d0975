import Pebrel.Terminal.Term

/-!
# Input and editing a line

Writing characters (`term/input.rs`) and the operations on the cells of the
cursor's line (`term/mod.rs`).

## The model

What the source asks libraries about characters is a parameter: the width of a
character and of a text, whether a character is an emoji, and whether a
character belongs to the grapheme cluster before it. The segmenter of an emoji
has been given exactly the characters of its cell, so the cell stands for it.
-/

namespace Pebrel.Terminal

/-- What the libraries say of characters, and the character set in use. -/
structure Unicode where
  /-- The number of cells a character occupies; nothing for a control character. -/
  width : Char → Option (Fin 3)
  isEmoji : Char → Bool
  /-- The number of cells a text occupies. -/
  textWidth : List Char → ℕ
  /-- The character does not begin a grapheme cluster after the text. -/
  continues : List Char → Char → Bool
  /-- `self.grid.cursor.charsets[self.active_charset].map`. -/
  map : Char → Char

def EmojiInput.new (u : Unicode) (c : Char) : Option EmojiInput :=
  if (c.toNat < 128 ∧ ¬(c = '#' ∨ c = '*' ∨ ('0' ≤ c ∧ c ≤ '9'))) ∨ !u.isEmoji c then none
  else some ⟨c, c, false⟩

inductive LineClearMode where
  | right
  | left
  | all

namespace Cell

/-- `flags.remove(WRAPLINE | LEADING_WIDE_CHAR_SPACER)`. -/
def removeWrap (c : Cell) : Cell := { c with flags := { c.flags with wrapline := false, leadingWideCharSpacer := false } }

/-- `flags` with `WIDE_CHAR` inserted or removed. -/
def setWide (c : Cell) (b : Bool) : Cell := { c with flags := { c.flags with wideChar := b } }

/-- `flags` with `WIDE_CHAR_SPACER` inserted or removed. -/
def setSpacer (c : Cell) (b : Bool) : Cell := { c with flags := { c.flags with wideCharSpacer := b } }

/-- `flags` with `LEADING_WIDE_CHAR_SPACER` inserted or removed. -/
def setLeadingSpacer (c : Cell) (b : Bool) : Cell := { c with flags := { c.flags with leadingWideCharSpacer := b } }

end Cell

namespace Term

/-! ### The cells of the cursor's line -/

def insertBlank (t : Term) (count : ℕ) : Term :=
  let t := t.resetInputCluster
  -- Ensure inserting within terminal bounds.
  let count := min count (t.columns - t.cursor.point.column)
  let source := t.cursor.point.column
  let destination := source + count
  let t := t.damageLine t.cursor.point.line.toNat 0 (t.columns - 1)
  t.modifyCursorRow (·.modifyAll fun cells =>
    fillCells (moveOut cells source destination (t.columns - destination)) source destination
      (.ofColor t.cursor.template.bg))

def deleteChars (t : Term) (count : ℕ) : Term :=
  let t := t.resetInputCluster
  -- Ensure deleting within terminal bounds.
  let count := min count t.columns
  let start := t.cursor.point.column
  let stop := min (start + count) (t.columns - 1)
  let t := t.damageLine t.cursor.point.line.toNat 0 (t.columns - 1)
  -- Clear last `count` cells in the row.
  t.modifyCursorRow (·.modifyAll fun cells =>
    fillCells (moveIn cells start stop (t.columns - stop)) (t.columns - count) cells.length
      (.ofColor t.cursor.template.bg))

def eraseChars (t : Term) (count : ℕ) : Term :=
  let t := t.resetInputCluster
  let start := t.cursor.point.column
  let stop := min (start + count) t.columns
  (t.damageLine t.cursor.point.line.toNat start stop).modifyCursorRow (·.fill start stop (.ofColor t.cursor.template.bg))

/-- The columns that `clear_line` clears, if any. -/
def clearedColumns (t : Term) : LineClearMode → Option (ℕ × ℕ)
  | .right => if t.cursor.inputNeedsWrap then none else some (t.cursor.point.column, t.columns)
  | .left => some (0, t.cursor.point.column + 1)
  | .all => some (0, t.columns)

def clearLine (t : Term) (mode : LineClearMode) : Term :=
  let t := t.resetInputCluster
  match t.clearedColumns mode with
  | none => t
  | some (left, right) =>
    (t.damageLine t.cursor.point.line.toNat left (right - 1)).modifyCursorRow
      (·.fill left right (.ofColor t.cursor.template.bg))

/-! ### Wrapping and tabs -/

def wrapline (t : Term) : Term :=
  if !t.mode.lineWrap then t
  else
    let next := t.cursor.point.line + 1
    let t :=
      if next < t.screenLines ∨ next = t.scrollRegion.stop then t.modifyCursorCell insertWrapline
      -- Below the scrolling margin at the physical bottom, wrapping cannot advance.
      else t.modifyCursorCell .removeWrap
    let t := if next ≥ t.scrollRegion.stop then t.linefeed else t.damageCursor.setLine next
    ((t.setColumn 0).setNeedsWrap false).damageCursor

def putTab (t : Term) (u : Unicode) (count : ℕ) : Term :=
  let t := t.resetInputCluster
  -- A tab after the last column is the same as a linebreak.
  if t.cursor.inputNeedsWrap then t.wrapline else (putOneTab u.map)^[count] t

/-! ### Emoji -/

/-- Where the character written last begins. -/
def clusterPoint (t : Term) : Point :=
  let p := t.cursor.point
  let p : Point := if !t.cursor.inputNeedsWrap then { p with column := p.column - 1 } else p
  if (t.grid.cell p).flags.wideCharSpacer then { p with column := p.column - 1 } else p

/-- The width of an emoji with one more character; nothing where it is not extended. -/
def extendedWidth (u : Unicode) (cluster : EmojiInput) (cell : Cell) (c : Char) (charWidth : Fin 3) : Option ℕ :=
  let oldWidth := if cell.flags.wideChar then 2 else 1
  if charWidth > 0 then
    if !u.isEmoji c then none
    else if cluster.last = '\u200d' then some 2
    else
      let width := u.textWidth [cluster.graphic, c]
      if width > 2 then none else some (max oldWidth width)
  else if !cluster.joined && cell.zerowidth.isEmpty then some (max (u.textWidth [cell.c, c]) 1)
  -- Standard keycaps have one optional VS16 before the enclosing mark.
  else if c = '\u20e3' ∧ cell.zerowidth = ['\ufe0f'] then some (u.textWidth [cell.c, '\ufe0f', c])
  else some oldWidth

/-- `resize_emoji_cell` to one cell. -/
def narrowEmojiCell (t : Term) (point : Point) : Term :=
  let cell := t.grid.cell point
  let t := t.modifyGrid (·.modifyCell point fun _ => cell.setWide false)
  let next : Point := { point with column := point.column + 1 }
  let t := (t.modifyGrid (·.modifyCell next fun _ => .ofColor t.cursor.template.bg)).setPoint next
  let t := if t.mode.insert then t.deleteChars 1 else t
  t.setNeedsWrap false

/-- The first part of `resize_emoji_cell` to two cells: make room for the second one, and the
point at which the emoji begins then. -/
def makeRoom (t : Term) (point : Point) : Term × Point :=
  if point.column = t.lastColumn then
    let placeholder := (Cell.ofColor (t.grid.cell point).bg).setLeadingSpacer true
    let t := ((t.modifyGrid (·.modifyCell point fun _ => placeholder)).setPoint point).wrapline
    (if t.mode.insert then t.insertBlank 2 else t, t.cursor.point)
  else if t.mode.insert then ((t.setPoint { point with column := point.column + 1 }).insertBlank 1, point)
  else (t, point)

/-- The second part: write the emoji `cell` and its spacer. -/
def placeEmoji (u : Unicode) (t : Term) (point : Point) (cell : Cell) : Term :=
  let next : Point := { point with column := point.column + 1 }
  -- Clear any overwritten wide-cell partners before assigning the new head.
  let t := (t.setPoint point).writeAtCursor (u.map ' ')
  let t := (t.setPoint next).writeAtCursor (u.map ' ')
  let t := t.modifyGrid (·.modifyCell point fun _ => cell.setWide true)
  let t := t.modifyGrid (·.modifyCell next fun _ => cell.clearWide.setSpacer true)
  let t :=
    if next.column < t.lastColumn then (t.setColumn (next.column + 1)).setNeedsWrap false else t.setNeedsWrap true
  t.damagePoint next

/-- `resize_emoji_cell`, and where the emoji begins then. -/
def resizeEmojiCell (u : Unicode) (t : Term) (point : Point) (width : ℕ) : Term × Point :=
  if width = 1 then (t.narrowEmojiCell point, point)
  else if point.column = t.lastColumn ∧ !t.mode.lineWrap then (t, point)
  else
    let room := t.makeRoom point
    (placeEmoji u room.1 room.2 (t.grid.cell point), room.2)

/-- `extend_emoji_input`; nothing where the character does not extend an emoji. -/
def extendEmojiInput (u : Unicode) (t : Term) (c : Char) (charWidth : Fin 3) : Option Term :=
  if t.inputEnd ≠ some (t.cursor.point, t.cursor.inputNeedsWrap) then none
  else
    let point := t.clusterPoint
    let cell := t.grid.cell point
    (t.inputCluster.or (EmojiInput.new u cell.c)).bind fun cluster =>
      (extendedWidth u cluster cell c charWidth).bind fun width =>
        if !u.continues (cell.c :: cell.zerowidth) c then none
        else
          let cluster : EmojiInput :=
            if charWidth > 0 then ⟨c, c, true⟩ else { cluster with last := c }
          let t := t.modifyGrid (·.modifyCell point (·.pushZerowidth c))
          let (t, point) :=
            if width ≠ (if cell.flags.wideChar then 2 else 1) then resizeEmojiCell u t point width else (t, point)
          let t := t.damagePoint point
          some { t with inputCluster := some cluster, inputEnd := some (t.cursor.point, t.cursor.inputNeedsWrap) }

/-! ### Characters -/

/-- A standalone combining character goes to the character before the cursor. -/
def combine (t : Term) (c : Char) : Term := t.modifyGrid (·.modifyCell t.clusterPoint (·.pushZerowidth c))

/-- In insert mode, first shift cells to the right. -/
def shiftCells (t : Term) (width : ℕ) : Term :=
  let column := t.cursor.point.column
  if t.mode.insert ∧ column + width < t.columns then
    t.modifyCursorRow (·.modifyAll fun cells => moveOut cells column (column + width) (t.columns - width - column))
  else t

/-- Insert a placeholder before a wide character that does not fit in the row. -/
def placeholder (u : Unicode) (t : Term) : Term :=
  let t := (t.modifyTemplate (·.setLeadingSpacer true)).writeAtCursor (u.map ' ')
  let t := (t.modifyTemplate (·.setLeadingSpacer false)).wrapline
  if t.mode.insert then t.insertBlank 2 else t

/-- Write a full width glyph to the cursor cell, and a spacer to the cell following it. -/
def writeWide (u : Unicode) (t : Term) (c : Char) : Term :=
  let t := (t.modifyTemplate (·.setWide true)).writeAtCursor (u.map c)
  let t := t.modifyTemplate (·.setWide false)
  let t := t.setColumn (t.cursor.point.column + 1)
  let t := (t.modifyTemplate (·.setSpacer true)).writeAtCursor (u.map ' ')
  t.modifyTemplate (·.setSpacer false)

/-- Move on after a character. -/
def advance (t : Term) : Term :=
  let t :=
    if t.cursor.point.column + 1 < t.columns then t.setColumn (t.cursor.point.column + 1) else t.setNeedsWrap true
  { t with inputEnd := some (t.cursor.point, t.cursor.inputNeedsWrap) }

/-- `input_character` from where the width is known and no emoji is extended. -/
def writeCharacter (u : Unicode) (t : Term) (c : Char) (width : Fin 3) : Term :=
  let t := t.resetInputCluster
  if width = 0 then t.combine c
  else
    let t := if t.cursor.inputNeedsWrap then t.wrapline else t
    let t := t.shiftCells width
    if width = 1 then (t.writeAtCursor (u.map c)).advance
    else if t.cursor.point.column + 1 ≥ t.columns then
      if t.mode.lineWrap then (writeWide u (placeholder u t) c).advance
      -- Prevent out of bounds crash when linewrapping is disabled.
      else t.setNeedsWrap true
    else (writeWide u t c).advance

/-- `input_character`. -/
def input (t : Term) (u : Unicode) (c : Char) : Term :=
  match u.width c with
  | none => t
  | some width =>
    let extended :=
      if ¬c.toNat < 128 ∧ (t.inputCluster.isSome ∨ width = 0 ∨ c.toNat > 0xffff) then
        extendEmojiInput u t c width
      else none
    extended.getD (writeCharacter u t c width)

/-- A table in which a character from `你` on is wide. -/
def wideFromHan : Unicode where
  width c := some (if c < '你' then 1 else 2)
  isEmoji _ := false
  textWidth text := text.length
  continues _ _ := false
  map c := c

/-- A line of text. -/
def inputs (t : Term) (line : String) : Term := line.toList.foldl (fun t c => t.input wideFromHan c) t

end Term

end Pebrel.Terminal
