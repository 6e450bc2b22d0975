import Pebrel.Terminal.Row

/-!
# Editing cells and rows

What the terminal writes into cells (`term/cell.rs`) and into ranges of a row
(`grid/row.rs`, `IndexMut` for ranges of columns).

## The model

An image tile is a number, like an inline marker: what it shows is not part of a
grid. A loop that swaps two cells after another is a fold over the places it
visits, in the order of the source.
-/

namespace Pebrel.Terminal

/-! ### The extra of a cell -/

namespace CellExtra

/-- A write through `text_mut`. -/
def modifyText (f : TextExtra → TextExtra) : CellExtra → CellExtra
  | text t => text (f t)
  | image tile alive t => image tile alive (some (f (t.getD {})))

def pruneEmptyText : CellExtra → CellExtra
  | image tile alive (some t) => image tile alive (if t.isEmpty then none else some t)
  | e => e

end CellExtra

/-! ### Cells -/

namespace Cell

/-- `Cell::from(color)`: an empty cell on a background. -/
def ofColor (bg : Color) : Cell := { bg }

/-- The flags intersect `WIDE_CHAR_SPACER | LEADING_WIDE_CHAR_SPACER`. -/
def isSpacer (c : Cell) : Bool := c.flags.wideCharSpacer || c.flags.leadingWideCharSpacer

def zerowidth (c : Cell) : List Char := (c.extra.map (·.textOf.zerowidth)).getD []

/-- A write through `extra.get_or_insert(Default::default())` and `text_mut`. -/
def modifyExtra (c : Cell) (f : TextExtra → TextExtra) : Cell :=
  { c with extra := some ((c.extra.getD (.text {})).modifyText f) }

def setInlineMarker (c : Cell) (marker : ℕ) : Cell := c.modifyExtra fun t => { t with inlineMarker := some marker }

def pushZerowidth (c : Cell) (character : Char) : Cell :=
  c.modifyExtra fun t => { t with zerowidth := t.zerowidth ++ [character] }

/-- `clear_wide`: remove all wide char data from a cell. -/
def clearWide (c : Cell) : Cell :=
  let c := { c with flags := { c.flags with wideChar := false } }.discard
  { c with extra := c.extra.map (·.modifyText fun t => { t with zerowidth := [] }), c := ' ' }

/-- `set_underline_color`: extra storage is dropped where nothing else needs it. -/
def setUnderlineColor (c : Cell) (color : Option Color) : Cell :=
  let text := (c.extra.map CellExtra.textOf).getD {}
  if color.isNone && c.image.isNone &&
      (text.zerowidth.isEmpty && text.hyperlink.isNone && text.inlineMarker.isNone) then
    { c with extra := none }
  else
    let extra := (c.extra.getD (.text {})).modifyText fun t => { t with underlineColor := color }
    { c with extra := some extra.pruneEmptyText }

def setHyperlink (c : Cell) (hyperlink : Option ℕ) : Cell :=
  let text := (c.extra.map CellExtra.textOf).getD {}
  if hyperlink.isNone && c.image.isNone &&
      (text.zerowidth.isEmpty && text.underlineColor.isNone && text.inlineMarker.isNone) then
    { c with extra := none }
  else
    let extra := (c.extra.getD (.text {})).modifyText fun t => { t with hyperlink }
    { c with extra := some extra.pruneEmptyText }

/-- `set_image`, with the tile of an image that is alive. -/
def setImage (c : Cell) (tile : ℕ) : Cell :=
  match c.extra with
  | some (.image _ _ t) => { c with extra := some (.image tile true t) }
  | some (.text t) => { c with extra := some (.image tile true (if t.isEmpty then none else some t)) }
  | none => { c with extra := some (.image tile true none) }

/-- `flags.remove(WIDE_CHAR_SPACER)`. -/
def removeSpacer (c : Cell) : Cell := { c with flags := { c.flags with wideCharSpacer := false } }

/-- `flags.remove(LEADING_WIDE_CHAR_SPACER)`. -/
def removeLeadingSpacer (c : Cell) : Cell := { c with flags := { c.flags with leadingWideCharSpacer := false } }

end Cell

/-! ### Ranges of a row -/

/-- `row.swap(a, b)`. -/
def swapCells {T : Type} (cells : List T) (a b : ℕ) : List T :=
  match cells[a]?, cells[b]? with
  | some x, some y => (cells.set a y).set b x
  | _, _ => cells

/-- `for cell in &mut cells[start..stop] { *cell = value }`. -/
def fillCells {T : Type} (cells : List T) (start stop : ℕ) (value : T) : List T :=
  cells.mapIdx fun i c => if start ≤ i ∧ i < stop then value else c

namespace Row

variable {T : Type}

/-- `for cell in &mut row[start..stop] { *cell = value }`. -/
def fill (r : Row T) (start stop : ℕ) (value : T) : Row T := ⟨fillCells r.inner start stop value, max r.occ stop⟩

/-- `for cell in &mut row[start..] { *cell = value }`. -/
def fillFrom (r : Row T) (start : ℕ) (value : T) : Row T := ⟨fillCells r.inner start r.len value, r.len⟩

/-- `let row = &mut row[..]`, and what is done to it: the whole row counts as occupied. -/
def modifyAll (r : Row T) (f : List T → List T) : Row T := ⟨f r.inner, r.len⟩

end Row

/-- The loop of `insert_blank`: cells move out toward the end of the line. -/
def moveOut {T : Type} (cells : List T) (source destination numCells : ℕ) : List T :=
  (List.range numCells).reverse.foldl (fun cells offset => swapCells cells (destination + offset) (source + offset)) cells

/-- The loop of `delete_chars`: cells move in from the end of the line. -/
def moveIn {T : Type} (cells : List T) (start stop numCells : ℕ) : List T :=
  (List.range numCells).foldl (fun cells offset => swapCells cells (start + offset) (stop + offset)) cells

end Pebrel.Terminal
