import Mathlib.Data.List.Basic

/-!
# Cells

The cell type of the terminal grid (`term/cell.rs`) and the interface through
which the grid reads cells (`grid/mod.rs`, `trait GridCell`, together with the
`ResetDiscriminant` bound of the scrolling and clearing operations).

## The model

`Flags` has one binary per named bit of the source's `u16`; `BOLD_ITALIC`,
`DIM_BOLD` and `ALL_UNDERLINES` are combinations of these. A hyperlink, an
underline color, an inline marker and an image are numbered: the grid compares
them and drops them, and never looks inside. An image whose owner is gone is
not an image any more (`Cell::image`), so `image` carries whether it is alive.
-/

namespace Pebrel.Terminal

/-- The flags of a cell. -/
structure Flags where
  inverse : Bool := false
  bold : Bool := false
  italic : Bool := false
  underline : Bool := false
  /-- `WRAPLINE`: the row goes on in the row below it. -/
  wrapline : Bool := false
  /-- `WIDE_CHAR`: the first of the two cells of a wide character. -/
  wideChar : Bool := false
  /-- `WIDE_CHAR_SPACER`: the second of the two cells of a wide character. -/
  wideCharSpacer : Bool := false
  dim : Bool := false
  hidden : Bool := false
  strikeout : Bool := false
  /-- `LEADING_WIDE_CHAR_SPACER`: padding before a wide character that did not fit. -/
  leadingWideCharSpacer : Bool := false
  doubleUnderline : Bool := false
  undercurl : Bool := false
  dottedUnderline : Bool := false
  dashedUnderline : Bool := false
  deriving DecidableEq

/-- The flags intersect `ALL_UNDERLINES`. -/
def Flags.anyUnderline (f : Flags) : Bool :=
  f.underline || f.doubleUnderline || f.undercurl || f.dottedUnderline || f.dashedUnderline

/-- What the grid asks of its cells: `GridCell`, `Default` and `ResetDiscriminant`. -/
class GridCell (T : Type) extends Inhabited T where
  /-- The cell contains no content. -/
  isEmpty : T → Bool
  /-- `reset self template`. -/
  reset : T → T → T
  /-- Release transient content when a row leaves the logical grid. -/
  discard : T → T
  flags : T → Flags
  /-- A write through `flags_mut`. -/
  setFlags : T → Flags → T
  /-- The discriminants by which a reset decides whether the template changed are equal. -/
  discriminantEq : T → T → Bool

section
variable {T : Type} [GridCell T]

/-- The flags contain `WRAPLINE`. -/
def hasWrapline (c : T) : Bool := (GridCell.flags c).wrapline

/-- The flags contain `WIDE_CHAR`. -/
def hasWideChar (c : T) : Bool := (GridCell.flags c).wideChar

/-- The flags contain `LEADING_WIDE_CHAR_SPACER`. -/
def hasLeadingSpacer (c : T) : Bool := (GridCell.flags c).leadingWideCharSpacer

def insertWrapline (c : T) : T := GridCell.setFlags c { GridCell.flags c with wrapline := true }

def removeWrapline (c : T) : T := GridCell.setFlags c { GridCell.flags c with wrapline := false }

/-- A default cell with `LEADING_WIDE_CHAR_SPACER` inserted. -/
def leadingSpacer : T :=
  GridCell.setFlags default { GridCell.flags (default : T) with leadingWideCharSpacer := true }

end

/-! ### The terminal's cell -/

/-- A color (`vte::ansi::Color`). -/
inductive Color where
  /-- `NamedColor::Background`. -/
  | background
  /-- `NamedColor::Foreground`. -/
  | foreground
  /-- Any other named color. -/
  | named (k : ℕ)
  | spec (r g b : UInt8)
  | indexed (i : UInt8)
  deriving DecidableEq

/-- `TextExtra`: the rarely set text attributes of a cell. -/
structure TextExtra where
  zerowidth : List Char := []
  underlineColor : Option Color := none
  hyperlink : Option ℕ := none
  inlineMarker : Option ℕ := none
  deriving DecidableEq

def TextExtra.isEmpty (t : TextExtra) : Bool :=
  t.zerowidth.isEmpty && t.underlineColor.isNone && t.hyperlink.isNone && t.inlineMarker.isNone

/-- `CellExtra`: text attributes alone, or an image tile with optional text attributes. -/
inductive CellExtra where
  | text (t : TextExtra)
  | image (tile : ℕ) (alive : Bool) (text : Option TextExtra)
  deriving DecidableEq

/-- `CellExtra::text`. -/
def CellExtra.textOf : CellExtra → TextExtra
  | .text t => t
  | .image _ _ t => t.getD {}

/-- `Cell`: content and attributes of a single cell. -/
structure Cell where
  c : Char := ' '
  fg : Color := .foreground
  bg : Color := .background
  flags : Flags := {}
  extra : Option CellExtra := none
  deriving DecidableEq

namespace Cell

def inlineMarker (c : Cell) : Option ℕ := c.extra.bind (·.textOf.inlineMarker)

/-- `Cell::image`: the tile, while its owner is alive. -/
def image (c : Cell) : Option ℕ :=
  match c.extra with
  | some (.image tile true _) => some tile
  | _ => none

def isEmpty (c : Cell) : Bool :=
  (c.c == ' ' || c.c == '\t') && c.inlineMarker.isNone && c.bg == .background && c.fg == .foreground &&
    !(c.flags.inverse || c.flags.anyUnderline || c.flags.strikeout || c.flags.wrapline ||
      c.flags.wideCharSpacer || c.flags.leadingWideCharSpacer) &&
    ((c.extra.map (·.textOf.zerowidth.isEmpty)).getD true) && c.image.isNone

/-- `Cell::reset`: only the background of the template stays. -/
def reset (_c template : Cell) : Cell := { bg := template.bg }

/-- The extra without its image. -/
def dropImage : CellExtra → Option CellExtra
  | .text t => some (.text t)
  | .image _ _ none => none
  | .image _ _ (some t) => some (.text t)

/-- The extra without its inline marker. -/
def dropMarker : CellExtra → Option CellExtra
  | .text t =>
    if t.inlineMarker.isNone then some (.text t)
    else
      let t := { t with inlineMarker := none }
      if t.isEmpty then none else some (.text t)
  | e => some e

/-- `Cell::discard`: images and inline markers go, text attributes stay. -/
def discard (c : Cell) : Cell := { c with extra := (c.extra.bind dropImage).bind dropMarker }

end Cell

instance : GridCell Cell where
  default := {}
  isEmpty := Cell.isEmpty
  reset := .reset
  discard := .discard
  flags := Cell.flags
  setFlags c f := { c with flags := f }
  discriminantEq c d := c.bg == d.bg

end Pebrel.Terminal
