import Pebrel.Library.Resume
import Pebrel.Library.Text
import Pebrel.Terminal.Reading
import Pebrel.Terminal.Selection

/-!
# Reading a span in chunks

The bounded read of a span of the grid (`reading_chunk`, `term/reading.rs`) and
the guard over the output of a command (`term/reading/guard.rs`): a chunk ends
where one of its budgets does, in the middle of a row, before a cell or before a
line break, and says where the next one starts.

## The model

A `Reader` is the part of the terminal that a read looks at: the grid, the epoch
and, of each recorded command, its output and the content of its guard. A guard
keeps the zero-width characters of a cell next to its code, where the source has
one sparse table for them. The loop over the rows has fuel for as many rows as
cells may be read: a row that is gone on from takes at least one of them.
-/

namespace Pebrel.Terminal.Reading

open Library List Nat Option Text
open Library.Text (byteLen)
open Term (cellText)

structure ReadingCell where
  byteStart : ℕ
  byteEnd : ℕ
  column : ℕ
  width : ℕ

structure ReadingRow where
  line : ℕ
  startColumn : ℕ
  endColumn : ℕ
  text : Text
  cells : List ReadingCell
  /-- Only true across the end of a whole line that is not softly wrapped. -/
  hardBreak : Bool

structure ReadingChunk where
  rows : List ReadingRow
  next : Option ReadingPoint

/-- The errors of `ReadingError` that a read of a span makes. -/
inductive ReadingError where
  | staleEpoch
  | evicted
  | invalidRange
  | invalidCursor
  | budgetTooSmall
  | contentChanged

def chunkCells : ℕ := 4096

def chunkBytes : ℕ := 32768

/-- `a < b`, by line, then by column. -/
def ReadingPoint.lt (a b : ReadingPoint) : Bool := a.line < b.line || a.line == b.line && a.column < b.column

/-- What a guard keeps of a cell: its character, some of its flags, and its zero-width characters. -/
structure CellCode where
  c : Char
  wideChar : Bool
  wideCharSpacer : Bool
  leadingWideCharSpacer : Bool
  wrapline : Bool
  zero : List Char
  deriving DecidableEq

/-- The content of a `TailGuard`. -/
structure TailContent where
  span : ReadingSpan
  columns : ℕ
  codes : List CellCode
  leadingBreak : Option Bool

/-- What a read looks at. A change of the columns throws the recorded commands away, so all guards have them. -/
structure Reader where
  grid : Grid Cell
  epoch : ℕ
  /-- The output and the guard of each recorded command. -/
  commands : List (ReadingSpan × TailContent)
  columns_pos : 0 < grid.columns
  same_columns : ∀ command ∈ commands, command.2.columns = grid.columns

/-! ### Guards -/

def distance (start stop : ReadingPoint) (columns : ℕ) : ℕ := (stop.line - start.line) * columns + stop.column - start.column

namespace TailContent

def pointAt (g : TailContent) (index : ℕ) : ReadingPoint :=
  let offset := g.span.start.column + index
  ⟨g.span.start.line + offset / g.columns, offset % g.columns⟩

/-- `code`, with the zero-width characters. -/
def code (g : TailContent) (cell : Cell) (point : ReadingPoint) : CellCode where
  c := cell.c
  wideChar := cell.flags.wideChar
  wideCharSpacer := cell.flags.wideCharSpacer
  leadingWideCharSpacer := cell.flags.leadingWideCharSpacer
  wrapline := point.column + 1 == g.columns && (ReadingPoint.mk point.line g.columns).lt g.span.stop && cell.flags.wrapline
  zero := cell.zerowidth

end TailContent

namespace Reader

variable (r : Reader)

def columns : ℕ := r.grid.columns

def cellAt (p : ReadingPoint) : Cell := r.grid.cell ⟨p.line - r.grid.scrolledOut - r.grid.historySize, p.column⟩

def wraps (line : ℕ) : Bool := (r.cellAt ⟨line, r.columns - 1⟩).flags.wrapline

def readingSpan : ReadingSpan :=
  ⟨r.epoch, ⟨r.grid.scrolledOut, 0⟩, ⟨r.grid.scrolledOut + r.grid.raw.len, 0⟩⟩

def validateReadingSpan (span : ReadingSpan) : Except ReadingError Unit :=
  if span.epoch ≠ r.epoch then .error .staleEpoch
  else if span.start.line < r.readingSpan.start.line then .error .evicted
  else if span.stop.lt span.start || r.readingSpan.stop.lt span.stop || r.columns < span.start.column ||
      r.columns < span.stop.column then .error .invalidRange
  else .ok ()

/-- The line break that a read from the last column of a row starts with is as the guard has it. -/
def keepsBreak (g : TailContent) (start : ReadingPoint) : Bool :=
  if start.column = g.columns then
    let expected :=
      if start = g.span.start then g.leadingBreak
      else (g.codes[distance g.span.start ⟨start.line, g.columns - 1⟩ g.columns]?).map (·.wrapline)
    expected.all (· == r.wraps start.line)
  else true

/-- The cells between two points are as the guard has them. -/
def keepsCells (g : TailContent) (start stop : ReadingPoint) : Bool :=
  let first := distance g.span.start start g.columns
  let last := distance g.span.start stop g.columns
  (List.range' first (last - first)).all fun index =>
    g.codes[index]? == some (g.code (r.cellAt (g.pointAt index)) (g.pointAt index))

/-- `validate` of a guard. -/
def validateGuard (g : TailContent) (read : ReadingSpan) : Except ReadingError Unit :=
  let start := read.start.max g.span.start
  let stop := read.stop.min g.span.stop
  if !start.lt stop then .ok ()
  else
    match r.validateReadingSpan g.span with
    | .error e => .error e
    | .ok () => if r.keepsBreak g start && r.keepsCells g start stop then .ok () else .error .contentChanged

/-! ### Chunks -/

/-- The bytes that a cell takes of those `available`; one more than these when its zero-width characters alone are more. -/
def needed (cell : Cell) (available : ℕ) : ℕ :=
  if cell.isSpacer then 0
  else if available < cell.zerowidth.length then available + 1
  else byteLen (cellText cell)

/-- The row with its next cell. -/
def pushCell (row : ReadingRow) (cell : Cell) : ReadingRow :=
  if cell.isSpacer then { row with endColumn := row.endColumn + 1 }
  else
    { row with
      endColumn := row.endColumn + 1
      text := row.text ++ cellText cell
      cells := row.cells ++
        [⟨byteLen row.text, byteLen (row.text ++ cellText cell), row.endColumn, if cell.flags.wideChar then 2 else 1⟩] }

/-- A row as far as it is read, with the cells and bytes read so far. -/
structure Progress where
  row : ReadingRow
  consumed : ℕ
  bytes : ℕ

/-- The loop over the cells of a row, up to the column `limit`. -/
def readCells (maxCells maxBytes limit : ℕ) : ℕ → Progress → Progress
  | 0, p => p
  | n + 1, p =>
    if p.row.endColumn < limit ∧ p.consumed < maxCells then
      let cell := r.cellAt ⟨p.row.line, p.row.endColumn⟩
      let available := maxBytes - p.bytes
      if available < needed cell available then p
      else readCells maxCells maxBytes limit n ⟨pushCell p.row cell, p.consumed + 1, p.bytes + needed cell available⟩
    else p

/-- The step over the end of a line, where the read is there, goes on, and has a byte left for a hard break. -/
def crossLine (maxBytes : ℕ) (stop : ReadingPoint) (p : Progress) : Progress × ReadingPoint :=
  let point : ReadingPoint := ⟨p.row.line, p.row.endColumn⟩
  let hard := !r.wraps p.row.line
  if point.column = r.columns ∧ point.lt stop = true ∧ (hard = false ∨ p.bytes < maxBytes) then
    (⟨{ p.row with hardBreak := hard },
      if p.row.startColumn = p.row.endColumn then p.consumed + 1 else p.consumed, p.bytes + hard.toNat⟩,
      ⟨p.row.line + 1, 0⟩)
  else (p, point)

/-- The loop over the rows: what it has read, and how far. -/
def readRows (maxCells maxBytes : ℕ) (stop : ReadingPoint) :
    ℕ → ReadingPoint → List ReadingRow → ℕ → ℕ → Except ReadingError (List ReadingRow × ReadingPoint)
  | 0, point, rows, _, _ => .ok (rows, point)
  | n + 1, point, rows, consumed, bytes =>
    if point.lt stop = true ∧ consumed < maxCells then
      let limit := if point.line = stop.line then stop.column else r.columns
      let cells := r.readCells maxCells maxBytes limit (limit - point.column)
        ⟨⟨point.line, point.column, point.column, [], [], false⟩, consumed, bytes⟩
      let (p, point) := r.crossLine maxBytes stop cells
      if p.row.startColumn ≠ p.row.endColumn ∨ point.line ≠ p.row.line then
        if point.column ≠ 0 ∨ p.bytes = maxBytes then .ok (rows ++ [p.row], point)
        else readRows maxCells maxBytes stop n point (rows ++ [p.row]) p.consumed p.bytes
      else if rows.isEmpty then .error .budgetTooSmall
      else .ok (rows, point)
    else .ok (rows, point)

def readingChunkRaw (span : ReadingSpan) (cursor : Option ReadingPoint) (maxCells maxBytes : ℕ) :
    Except ReadingError ReadingChunk :=
  match r.validateReadingSpan span with
  | .error e => .error e
  | .ok () =>
    let point := cursor.getD span.start
    if point.lt span.start || span.stop.lt point || r.columns < point.column then .error .invalidCursor
    else if point = span.stop then .ok ⟨[], none⟩
    else
      let maxCells := min maxCells chunkCells
      let maxBytes := min maxBytes chunkBytes
      if maxCells = 0 ∨ maxBytes = 0 then .error .budgetTooSmall
      else
        match r.readRows maxCells maxBytes span.stop maxCells point [] 0 0 with
        | .error e => .error e
        | .ok (rows, point) => .ok ⟨rows, if point.lt span.stop then some point else none⟩

/-- The guard of the command whose output the span is, if it is the output of one. -/
def guardOf (span : ReadingSpan) : Option TailContent := (r.commands.find? (·.1 == span)).map (·.2)

/-- The guard of the command, if there is one, accepts the read. -/
def checkGuard (span read : ReadingSpan) : Except ReadingError Unit :=
  match r.guardOf span with
  | none => .ok ()
  | some g => r.validateGuard g read

def readingChunk (span : ReadingSpan) (cursor : Option ReadingPoint) (maxCells maxBytes : ℕ) :
    Except ReadingError ReadingChunk :=
  match r.readingChunkRaw span cursor maxCells maxBytes with
  | .error e => .error e
  | .ok chunk =>
    match r.checkGuard span { span with start := cursor.getD span.start, stop := chunk.next.getD span.stop } with
    | .error e => .error e
    | .ok () => .ok chunk

/-! ### The whole read -/

/-- The text of `n` cells of a line. -/
def textFrom (line : ℕ) : ℕ → ℕ → Text
  | _, 0 => []
  | a, n + 1 =>
    let cell := r.cellAt ⟨line, a⟩
    (if cell.isSpacer then [] else cellText cell) ++ textFrom line (a + 1) n

/-- The cells of a line that have a text, for `n` cells of it, after `offset` bytes of text. -/
def cellsFrom (line : ℕ) : ℕ → ℕ → ℕ → List ReadingCell
  | _, _, 0 => []
  | offset, a, n + 1 =>
    let cell := r.cellAt ⟨line, a⟩
    if cell.isSpacer then cellsFrom line offset (a + 1) n
    else
      ⟨offset, offset + byteLen (cellText cell), a, if cell.flags.wideChar then 2 else 1⟩ ::
        cellsFrom line (offset + byteLen (cellText cell)) (a + 1) n

/-- What there is of a line between two columns. -/
def fragment (line a b : ℕ) (hardBreak : Bool) : ReadingRow :=
  ⟨line, a, b, r.textFrom line a (b - a), r.cellsFrom line 0 a (b - a), hardBreak⟩

/-- What there is of a line from a point on, in a read up to `stop`. -/
def rowFrom (stop p : ReadingPoint) : ReadingRow :=
  r.fragment p.line p.column (if p.line = stop.line then stop.column else r.columns)
    (p.line < stop.line && !r.wraps p.line)

/-- What there is of `n` lines. -/
def rowsFrom (stop : ReadingPoint) : ℕ → ReadingPoint → List ReadingRow
  | 0, _ => []
  | n + 1, p => if p.lt stop then r.rowFrom stop p :: rowsFrom stop n ⟨p.line + 1, 0⟩ else []

/-- **What there is to read** from a point up to `stop`. -/
def rest (stop p : ReadingPoint) : List ReadingRow := r.rowsFrom stop (stop.line + 1 - p.line) p

end Reader

/-- The cells after a text of so many bytes. -/
def ReadingCell.shift (offset : ℕ) (c : ReadingCell) : ReadingCell :=
  { c with byteStart := offset + c.byteStart, byteEnd := offset + c.byteEnd }

/-- A row in front of others, as one with the first of them where both are of one line. -/
def joinCons (row : ReadingRow) : List ReadingRow → List ReadingRow
  | [] => [row]
  | next :: rows =>
    if row.line = next.line then
      ⟨row.line, row.startColumn, next.endColumn, row.text ++ next.text,
        row.cells ++ next.cells.map (.shift (byteLen row.text)), next.hardBreak⟩ :: rows
    else row :: next :: rows

/-- **Rows read one after another**, the pieces of a line put together. -/
def joinRows (rows : List ReadingRow) : List ReadingRow := rows.foldr joinCons []

/-! ### Points -/

namespace ReadingPoint

variable {a b c : ReadingPoint}

@[grind =] theorem lt_iff : a.lt b = true ↔ a.line < b.line ∨ a.line = b.line ∧ a.column < b.column := by simp [lt]

@[grind =] theorem le_iff : a.le b = true ↔ a.line < b.line ∨ a.line = b.line ∧ a.column ≤ b.column := by simp [le]

theorem le_trans (h : a.le b = true) (h' : b.le c = true) : a.le c = true := by grind

theorem not_lt_iff : a.lt b = false ↔ b.le a = true := by grind

theorem le_refl (a : ReadingPoint) : a.le a = true := by grind

theorem ext (hl : a.line = b.line) (hc : a.column = b.column) : a = b := by grind [ReadingPoint]

end ReadingPoint

open ReadingPoint (le_trans lt_iff le_iff)

namespace Reader

variable {r : Reader}

/-! ### Fragments -/

variable {line columns : ℕ} {q : ReadingPoint} {rows : List ReadingRow} {span read : ReadingSpan}

theorem textFrom_add (line a m n : ℕ) : r.textFrom line a (m + n) = r.textFrom line a m ++ r.textFrom line (a + m) n := by
  induction m generalizing a with
  | zero => simp [textFrom]
  | succ m ih =>
    rw [succ_add, textFrom, textFrom, ih (a + 1), append_assoc, show a + 1 + m = a + (m + 1) by omega]

theorem cellsFrom_add (line offset a m n : ℕ) : r.cellsFrom line offset a (m + n) =
      r.cellsFrom line offset a m ++ r.cellsFrom line (offset + byteLen (r.textFrom line a m)) (a + m) n := by
  induction m generalizing offset a with
  | zero => simp [cellsFrom, textFrom, byteLen]
  | succ m ih =>
    rw [succ_add, cellsFrom, cellsFrom, textFrom, show a + (m + 1) = a + 1 + m by omega]
    by_cases hs : (r.cellAt ⟨line, a⟩).isSpacer = true
    · simp only [if_pos hs, nil_append]
      exact ih offset (a + 1)
    · simp only [if_neg hs, byteLen_append, cons_append]
      rw [ih, Nat.add_assoc]

theorem cellsFrom_shift (line offset a n : ℕ) : r.cellsFrom line offset a n = (r.cellsFrom line 0 a n).map (.shift offset) := by
  suffices h : ∀ base, r.cellsFrom line (offset + base) a n = (r.cellsFrom line base a n).map (.shift offset) from h 0
  induction n generalizing a with
  | zero => exact fun _ => rfl
  | succ n ih =>
    intro base
    rw [cellsFrom, cellsFrom]
    by_cases hs : (r.cellAt ⟨line, a⟩).isSpacer = true
    · simp only [if_pos hs]
      exact ih (a + 1) base
    · simp only [if_neg hs, map_cons, ReadingCell.shift]
      rw [Nat.add_assoc offset base, ih]

/-- Two pieces of a line that meet are one. -/
theorem joinCons_fragment {a b c : ℕ} (hab : a ≤ b) (hbc : b ≤ c) (hard hard' : Bool) (rows : List ReadingRow) :
    joinCons (r.fragment line a b hard) (r.fragment line b c hard' :: rows) = r.fragment line a c hard' :: rows := by
  simp only [joinCons, fragment, if_true]
  rw [← cellsFrom_shift]
  obtain ⟨m, rfl⟩ := Nat.exists_eq_add_of_le hab
  obtain ⟨n, rfl⟩ := Nat.exists_eq_add_of_le hbc
  rw [Nat.add_sub_cancel_left, Nat.add_sub_cancel_left, show a + m + n - a = m + n by omega, textFrom_add, cellsFrom_add, Nat.zero_add]

/-! ### The loop over the cells -/

theorem textFrom_one (line a : ℕ) : r.textFrom line a 1 = if (r.cellAt ⟨line, a⟩).isSpacer then [] else cellText (r.cellAt ⟨line, a⟩) := by
  simp [textFrom]

/-- A cell costs its text, and is refused where its text is more than there are bytes left. -/
theorem needed_spec (line a available : ℕ) :
    (needed (r.cellAt ⟨line, a⟩) available ≤ available ↔ byteLen (r.textFrom line a 1) ≤ available) ∧
      (needed (r.cellAt ⟨line, a⟩) available ≤ available → needed (r.cellAt ⟨line, a⟩) available = byteLen (r.textFrom line a 1)) := by
  simp only [needed, textFrom_one]
  by_cases hs : (r.cellAt ⟨line, a⟩).isSpacer = true
  · simp [if_pos hs, byteLen]
  simp only [if_neg hs]
  by_cases hz : available < (r.cellAt ⟨line, a⟩).zerowidth.length
  · have hl := length_le_byteLen (cellText (r.cellAt ⟨line, a⟩))
    simp only [cellText, length_cons] at hl
    rw [if_pos hz]
    simp only [cellText]
    omega
  · simp [if_neg hz]

theorem pushCell_fragment {a b : ℕ} (hab : a ≤ b) (hard : Bool) :
    pushCell (r.fragment line a b hard) (r.cellAt ⟨line, b⟩) = r.fragment line a (b + 1) hard := by
  obtain ⟨m, rfl⟩ := Nat.exists_eq_add_of_le hab
  simp only [fragment, Nat.add_sub_cancel_left, show a + m + 1 - a = m + 1 by omega, textFrom_add, cellsFrom_add, textFrom_one,
    Nat.zero_add]
  by_cases hs : (r.cellAt ⟨line, a + m⟩).isSpacer = true
  · simp [pushCell, hs, cellsFrom]
  · simp [pushCell, hs, cellsFrom, byteLen_append]

/-- What the loop over the cells reads: a longer piece of the line, within the budgets; all up to the limit, where
the budgets are large enough. -/
theorem readCells_spec (maxCells maxBytes limit line a n : ℕ) {b consumed bytes : ℕ} (hab : a ≤ b) (hl : b ≤ limit)
    (hcs : consumed ≤ maxCells) (hbs : bytes ≤ maxBytes) (hn : limit ≤ b + n) :
    ∃ e, r.readCells maxCells maxBytes limit n ⟨r.fragment line a b false, consumed, bytes⟩ =
        ⟨r.fragment line a e false, consumed + (e - b), bytes + byteLen (r.textFrom line b (e - b))⟩ ∧
      b ≤ e ∧ e ≤ limit ∧ consumed + (e - b) ≤ maxCells ∧ bytes + byteLen (r.textFrom line b (e - b)) ≤ maxBytes ∧
      (consumed + (limit - b) ≤ maxCells → bytes + byteLen (r.textFrom line b (limit - b)) ≤ maxBytes → e = limit) := by
  induction n generalizing b consumed bytes with
  | zero =>
    refine ⟨b, ?_, le_rfl, hl, ?_, ?_, fun _ _ => by omega⟩ <;> simp [readCells, textFrom, byteLen, hcs, hbs]
  | succ n ih =>
    have hst : ∃ e, (⟨r.fragment line a b false, consumed, bytes⟩ : Progress) =
        ⟨r.fragment line a e false, consumed + (e - b), bytes + byteLen (r.textFrom line b (e - b))⟩ ∧
        b ≤ e ∧ e ≤ limit ∧ consumed + (e - b) ≤ maxCells ∧ bytes + byteLen (r.textFrom line b (e - b)) ≤ maxBytes ∧ e = b := by
      refine ⟨b, ?_, le_rfl, hl, ?_, ?_, rfl⟩ <;> simp [textFrom, byteLen, hcs, hbs]
    rw [readCells]
    by_cases hgo : b < limit ∧ consumed < maxCells
    · have hsp : r.textFrom line b (limit - b) = r.textFrom line b 1 ++ r.textFrom line (b + 1) (limit - (b + 1)) := by
        rw [← textFrom_add, show limit - b = 1 + (limit - (b + 1)) by omega]
      obtain ⟨hfits, hcost⟩ := r.needed_spec line b (maxBytes - bytes)
      rw [if_pos (by exact hgo)]
      simp only [show (r.fragment line a b false).line = line from rfl, show (r.fragment line a b false).endColumn = b from rfl]
      by_cases hrm : maxBytes - bytes < needed (r.cellAt ⟨line, b⟩) (maxBytes - bytes)
      · rw [if_pos hrm]
        obtain ⟨e, heq, hbe, hel, hc, hb, rfl⟩ := hst
        refine ⟨e, heq, hbe, hel, hc, hb, fun _ ha => ?_⟩
        rw [hsp, byteLen_append] at ha
        have := hfits.mpr (by omega)
        omega
      · rw [if_neg hrm, hcost (by omega), pushCell_fragment hab]
        have hrm' := hfits.mp (by omega)
        obtain ⟨e, heq, hbe, hel, hc, hb, ha⟩ := ih (show a ≤ b + 1 by omega) (by omega) (show consumed + 1 ≤ maxCells by omega)
          (show bytes + byteLen (r.textFrom line b 1) ≤ maxBytes by omega) (by omega)
        have ht : r.textFrom line b (e - b) = r.textFrom line b 1 ++ r.textFrom line (b + 1) (e - (b + 1)) := by
          rw [← textFrom_add, show e - b = 1 + (e - (b + 1)) by omega]
        refine ⟨e, ?_, by omega, hel, by omega, ?_, fun h1 h2 => ha (by omega) ?_⟩
        · rw [heq, ht, byteLen_append, ← Nat.add_assoc, show consumed + (e - b) = consumed + 1 + (e - (b + 1)) by omega]
        · rw [ht, byteLen_append, ← Nat.add_assoc]
          exact hb
        · rw [hsp, byteLen_append, ← Nat.add_assoc] at h2
          exact h2
    · rw [if_neg (by exact hgo)]
      obtain ⟨e, heq, hbe, hel, hc, hb, rfl⟩ := hst
      exact ⟨e, heq, hbe, hel, hc, hb, fun h _ => by omega⟩

/-! ### The loop over the rows -/

/-- A point of a read up to `stop`. -/
structure Inside (r : Reader) (stop p : ReadingPoint) : Prop where
  le : p.le stop = true
  column : p.column ≤ r.columns
  last : stop.column ≤ r.columns

theorem rest_of_lt {stop p : ReadingPoint} (h : p.lt stop = true) : r.rest stop p = r.rowFrom stop p :: r.rest stop ⟨p.line + 1, 0⟩ := by
  have hl : p.line ≤ stop.line := by grind
  rw [rest, show stop.line + 1 - p.line = (stop.line + 1 - (p.line + 1)) + 1 by omega, rowsFrom, if_pos h, rest]

theorem rest_of_not_lt {stop p : ReadingPoint} (h : p.lt stop = false) : r.rest stop p = [] := by
  rw [rest]
  cases stop.line + 1 - p.line with
  | zero => rfl
  | succ n => rw [rowsFrom, if_neg (by simp [h])]

/-- A row of an earlier line stays a row of its own. -/
theorem joinCons_rest {stop : ReadingPoint} {row : ReadingRow} (h : row.line < q.line) :
    joinCons row (r.rest stop q) = row :: r.rest stop q := by
  cases hq : q.lt stop with
  | false => rw [rest_of_not_lt hq, joinCons]
  | true => rw [rest_of_lt hq, joinCons, if_neg (by show row.line ≠ q.line; omega)]

/-- Stopping within a line loses nothing of it and reads nothing twice. -/
theorem join_within {stop p : ReadingPoint} (hp : p.lt stop = true) {e : ℕ} (hpe : p.column ≤ e)
    (hlim : e ≤ if p.line = stop.line then stop.column else r.columns) :
    joinCons (r.fragment p.line p.column e false) (r.rest stop ⟨p.line, e⟩) = r.rest stop p := by
  rw [rest_of_lt hp]
  cases he : (ReadingPoint.mk p.line e).lt stop with
  | true =>
    rw [rest_of_lt he]
    exact joinCons_fragment hpe hlim false _ _
  | false =>
    have hl : p.line = stop.line := by grind
    rw [if_pos hl] at hlim
    have hc : e = stop.column := by grind
    have hnx : (ReadingPoint.mk (p.line + 1) 0).lt stop = false := by grind
    rw [rest_of_not_lt he, rest_of_not_lt hnx, joinCons, rowFrom, if_pos hl, hc,
      show (decide (p.line < stop.line)) = false by simp [hl], Bool.false_and]

/-- Nor does stopping at the start of the next line. -/
theorem join_across {stop p : ReadingPoint} (hp : p.line < stop.line) :
    joinCons (r.fragment p.line p.column r.columns (!r.wraps p.line)) (r.rest stop ⟨p.line + 1, 0⟩) = r.rest stop p := by
  rw [joinCons_rest (show p.line < p.line + 1 by omega), rest_of_lt (lt_iff.mpr (.inl hp)), rowFrom,
    if_neg (by omega), show (decide (p.line < stop.line)) = true by simp [hp], Bool.true_and]

/-- The cells that a row takes of the budget. -/
def rowCells (row : ReadingRow) : ℕ := row.endColumn - row.startColumn

/-- The bytes that a row takes of the budget. -/
def rowBytes (row : ReadingRow) : ℕ := byteLen row.text + row.hardBreak.toNat

/-- What one turn of the loop over the rows makes of the point `p`. -/
structure Turn (r : Reader) (maxCells maxBytes : ℕ) (stop p : ReadingPoint) (consumed bytes : ℕ) (x : Progress)
    (q : ReadingPoint) : Prop where
  forward : p.le q = true
  inside : Inside r stop q
  joined : joinCons x.row (r.rest stop q) = r.rest stop p
  cells : consumed + rowCells x.row ≤ x.consumed
  cellBudget : x.consumed ≤ maxCells
  spent : x.bytes = bytes + rowBytes x.row
  byteBudget : x.bytes ≤ maxBytes
  moved : x.row.startColumn ≠ x.row.endColumn ∨ q.line ≠ x.row.line → p.lt q = true ∧ consumed < x.consumed
  still : x.row.startColumn = x.row.endColumn → q.line = x.row.line → q = p
  /-- With large enough budgets, the turn reads what there is of the line. -/
  whole : consumed + ((r.rowFrom stop p).endColumn - p.column) < maxCells → bytes + byteLen (r.rowFrom stop p).text < maxBytes →
    x.row = r.rowFrom stop p ∧ x.consumed ≤ consumed + ((r.rowFrom stop p).endColumn - p.column) + 1 ∧
      (p.line < stop.line ∧ q = ⟨p.line + 1, 0⟩ ∨ q = stop)

variable {maxCells maxBytes consumed bytes : ℕ} {stop p : ReadingPoint}

/-- A turn that ends on the line it began on. -/
theorem turn_within (hp : Inside r stop p) (hlt : p.lt stop = true) {e : ℕ} (hpe : p.column ≤ e)
    (hlim : e ≤ if p.line = stop.line then stop.column else r.columns) (hc : consumed + (e - p.column) ≤ maxCells)
    (hb : bytes + byteLen (r.textFrom p.line p.column (e - p.column)) ≤ maxBytes)
    (ha : consumed + ((r.rowFrom stop p).endColumn - p.column) < maxCells → bytes + byteLen (r.rowFrom stop p).text < maxBytes →
      e = (r.rowFrom stop p).endColumn ∧ p.line = stop.line) :
    Turn r maxCells maxBytes stop p consumed bytes
      ⟨r.fragment p.line p.column e false, consumed + (e - p.column), bytes + byteLen (r.textFrom p.line p.column (e - p.column))⟩
      ⟨p.line, e⟩ := by
  have hlast := hp.last
  refine ⟨?_, ⟨?_, ?_, hlast⟩, join_within hlt hpe hlim, le_rfl, hc, rfl, hb, ?_, ?_, ?_⟩
  · grind
  · grind
  · show e ≤ r.columns
    split at hlim <;> omega
  · rintro (hne | hne)
    · have hne : p.column ≠ e := hne
      refine ⟨lt_iff.mpr (.inr ⟨rfl, ?_⟩), ?_⟩
      · show p.column < e
        omega
      · show consumed < consumed + (e - p.column)
        omega
    · exact absurd rfl hne
  · intro hsm _
    have hsm : p.column = e := hsm
    rw [← hsm]
  · intro h1 h2
    obtain ⟨he, hl⟩ := ha h1 h2
    have hcol : e = stop.column := by rw [he, rowFrom, if_pos hl, fragment]
    refine ⟨?_, ?_, .inr ?_⟩
    · rw [rowFrom, if_pos hl, hcol, show (decide (p.line < stop.line)) = false by simp [hl], Bool.false_and]
    · rw [← he]
      exact le_succ _
    · rw [hcol, hl]

/-- A turn that ends at the start of the next line. -/
theorem turn_across (hp : Inside r stop p) (hlt : p.line < stop.line) (hcs : consumed < maxCells)
    (hc : consumed + (r.columns - p.column) ≤ maxCells)
    (hb : bytes + byteLen (r.textFrom p.line p.column (r.columns - p.column)) + (!r.wraps p.line).toNat ≤ maxBytes) :
    Turn r maxCells maxBytes stop p consumed bytes ⟨r.fragment p.line p.column r.columns (!r.wraps p.line),
        if p.column = r.columns then consumed + (r.columns - p.column) + 1 else consumed + (r.columns - p.column),
        bytes + byteLen (r.textFrom p.line p.column (r.columns - p.column)) + (!r.wraps p.line).toNat⟩
      ⟨p.line + 1, 0⟩ := by
  have hcol := hp.column
  have hr : r.rowFrom stop p = r.fragment p.line p.column r.columns (!r.wraps p.line) := by
    rw [rowFrom, if_neg (by omega), show (decide (p.line < stop.line)) = true by simp [hlt], Bool.true_and]
  have hf : p.lt ⟨p.line + 1, 0⟩ = true := lt_iff.mpr (.inl (lt_succ_self _))
  refine ⟨?_, ⟨?_, Nat.zero_le _, hp.last⟩, join_across hlt, ?_, ?_, ?_, hb, fun _ => ⟨hf, ?_⟩,
    fun _ h => absurd h (Nat.succ_ne_self _), fun _ _ => ⟨hr.symm, ?_, .inl ⟨hlt, rfl⟩⟩⟩
  · grind
  · grind
  · show consumed + (r.columns - p.column) ≤ if p.column = r.columns then _ else _
    split <;> omega
  · show (if p.column = r.columns then _ else _) ≤ maxCells
    split <;> omega
  · exact Nat.add_assoc _ _ _
  · show consumed < if p.column = r.columns then _ else _
    split <;> omega
  · rw [hr]
    show (if p.column = r.columns then _ else _) ≤ consumed + (r.columns - p.column) + 1
    split <;> omega

/-- One turn of the loop, on any line. -/
theorem turn (hp : Inside r stop p) (hlt : p.lt stop = true) (hc : consumed < maxCells) (hb : bytes ≤ maxBytes) :
    let limit := if p.line = stop.line then stop.column else r.columns
    let x := r.crossLine maxBytes stop (r.readCells maxCells maxBytes limit (limit - p.column)
      ⟨⟨p.line, p.column, p.column, [], [], false⟩, consumed, bytes⟩)
    Turn r maxCells maxBytes stop p consumed bytes x.1 x.2 := by
  intro limit
  have hlast := hp.last
  have hlim : p.column ≤ limit ∧ limit ≤ r.columns := by
    have hcol := hp.column
    grind
  have hst : (⟨p.line, p.column, p.column, [], [], false⟩ : ReadingRow) = r.fragment p.line p.column p.column false := by
    simp [fragment, textFrom, cellsFrom]
  rw [hst]
  obtain ⟨e, heq, hpe, hel, hcs, hbs, ha⟩ := r.readCells_spec maxCells maxBytes limit p.line p.column
    (limit - p.column) (le_refl p.column) hlim.1 hc.le hb (by omega)
  rw [heq]
  by_cases hcro : e = r.columns ∧ (ReadingPoint.mk p.line e).lt stop = true ∧
      ((!r.wraps p.line) = false ∨ bytes + byteLen (r.textFrom p.line p.column (e - p.column)) < maxBytes)
  · obtain ⟨rfl, hbef, hrm⟩ := hcro
    have hline : p.line < stop.line := by grind
    intro x
    have hx : x = (⟨r.fragment p.line p.column r.columns (!r.wraps p.line),
        if p.column = r.columns then consumed + (r.columns - p.column) + 1 else consumed + (r.columns - p.column),
        bytes + byteLen (r.textFrom p.line p.column (r.columns - p.column)) + (!r.wraps p.line).toNat⟩, ⟨p.line + 1, 0⟩) :=
      if_pos ⟨rfl, hbef, hrm⟩
    rw [hx]
    refine turn_across hp hline hc hcs ?_
    cases hw : !r.wraps p.line with
    | false => simpa using hbs
    | true =>
      rw [hw] at hrm
      simp only [Bool.true_eq_false, false_or] at hrm
      simpa using hrm
  · intro x
    have hx : x = (⟨r.fragment p.line p.column e false, consumed + (e - p.column),
        bytes + byteLen (r.textFrom p.line p.column (e - p.column))⟩, ⟨p.line, e⟩) := if_neg hcro
    rw [hx]
    refine turn_within hp hlt hpe hel hcs hbs fun h1 h2 => ?_
    have he : e = limit := ha h1.le h2.le
    refine ⟨he, ?_⟩
    by_contra hl
    have hcol : limit = r.columns := if_neg hl
    rw [not_and, not_and, not_or] at hcro
    rw [lt_iff] at hlt
    have h₂' : bytes + byteLen (r.textFrom p.line p.column (limit - p.column)) < maxBytes := h2
    exact (hcro (he.trans hcol) (lt_iff.mpr (.inl (by show p.line < stop.line; omega)))).2 (by rw [he]; exact h₂')

/-- The cells that rows take together. -/
def cellsRead (rows : List ReadingRow) : ℕ := (rows.map rowCells).sum

/-- The bytes that rows take together. -/
def bytesRead (rows : List ReadingRow) : ℕ := (rows.map rowBytes).sum

/-- What the loop over the rows adds to the rows, and where it stops. -/
structure Reads (r : Reader) (maxCells maxBytes : ℕ) (stop p : ReadingPoint) (consumed bytes : ℕ) (new : List ReadingRow)
    (q : ReadingPoint) : Prop where
  forward : p.le q = true
  inside : Inside r stop q
  joined : new.foldr joinCons (r.rest stop q) = r.rest stop p
  cells : consumed + cellsRead new ≤ maxCells
  bytes : bytes + bytesRead new ≤ maxBytes

theorem Reads.none (hp : Inside r stop p) (hc : consumed ≤ maxCells) (hb : bytes ≤ maxBytes) :
    Reads r maxCells maxBytes stop p consumed bytes [] p where
  forward := ReadingPoint.le_refl p
  inside := hp
  joined := rfl
  cells := hc
  bytes := hb

theorem Turn.reads {x : Progress} (h : Turn r maxCells maxBytes stop p consumed bytes x q)
    {new : List ReadingRow} {q' : ReadingPoint} (h' : Reads r maxCells maxBytes stop q x.consumed x.bytes new q') :
    Reads r maxCells maxBytes stop p consumed bytes (x.row :: new) q' where
  forward := le_trans h.forward h'.forward
  inside := h'.inside
  joined := by rw [foldr_cons, h'.joined, h.joined]
  cells := by
    have := h.cells
    have := h'.cells
    simp only [cellsRead, map_cons, sum_cons] at this ⊢
    omega
  bytes := by
    have := h.spent
    have := h'.bytes
    simp only [bytesRead, map_cons, sum_cons] at this ⊢
    omega

/-- What a result of the loop may be: it has read rows, at least one of them if there was none, or it has no
budget for the first cell. -/
def Outcome (r : Reader) (maxCells maxBytes : ℕ) (stop p : ReadingPoint) (rows : List ReadingRow) (consumed bytes : ℕ) :
    Except ReadingError (List ReadingRow × ReadingPoint) → Prop
  | .error e => e = .budgetTooSmall
  | .ok (rows', q) => ∃ new, rows' = rows ++ new ∧ Reads r maxCells maxBytes stop p consumed bytes new q ∧
      (rows = [] → p.lt stop = true → consumed < maxCells → p.lt q = true)

theorem readRows_outcome (n : ℕ) (hp : Inside r stop p) (hc : consumed ≤ maxCells) (hb : bytes ≤ maxBytes) (hn : maxCells ≤ consumed + n) :
    Outcome r maxCells maxBytes stop p rows consumed bytes (r.readRows maxCells maxBytes stop n p rows consumed bytes) := by
  induction n generalizing p rows consumed bytes with
  | zero => exact ⟨[], (append_nil _).symm, .none hp hc hb, fun _ _ h => by omega⟩
  | succ n ih =>
    rw [readRows]
    by_cases hgo : p.lt stop = true ∧ consumed < maxCells
    · have hturn := turn hp hgo.1 hgo.2 hb
      rw [if_pos hgo]
      dsimp only at hturn ⊢
      generalize r.crossLine maxBytes stop _ = x at hturn ⊢
      obtain ⟨x, q⟩ := x
      dsimp only at hturn ⊢
      by_cases hmv : x.row.startColumn ≠ x.row.endColumn ∨ q.line ≠ x.row.line
      · obtain ⟨hlt, hmore⟩ := hturn.moved hmv
        rw [if_pos hmv]
        by_cases hsp : q.column ≠ 0 ∨ x.bytes = maxBytes
        · rw [if_pos hsp]
          exact ⟨[x.row], rfl, hturn.reads (.none hturn.inside hturn.cellBudget hturn.byteBudget), fun _ _ _ => hlt⟩
        rw [if_neg hsp]
        have hr : Outcome r maxCells maxBytes stop q (rows ++ [x.row]) x.consumed x.bytes
            (r.readRows maxCells maxBytes stop n q (rows ++ [x.row]) x.consumed x.bytes) :=
          ih hturn.inside hturn.cellBudget hturn.byteBudget (by omega)
        cases hrd : r.readRows maxCells maxBytes stop n q (rows ++ [x.row]) x.consumed x.bytes with
        | error e =>
          rw [hrd] at hr
          exact hr
        | ok read =>
          rw [hrd] at hr
          obtain ⟨new, hrows, hrds, -⟩ := hr
          refine ⟨x.row :: new, by rw [hrows, append_assoc, singleton_append], hturn.reads hrds, fun _ _ _ => ?_⟩
          have hle := hrds.forward
          grind
      · rw [if_neg hmv]
        by_cases he : rows.isEmpty = true
        · rw [if_pos he]
          rfl
        rw [if_neg he]
        rw [not_or, not_not, not_not] at hmv
        rw [hturn.still hmv.1 hmv.2]
        exact ⟨[], (append_nil _).symm, .none hp hc hb, fun h => absurd (by simp [h]) he⟩
    · rw [if_neg hgo]
      exact ⟨[], (append_nil _).symm, .none hp hc hb, fun _ h1 h2 => absurd ⟨h1, h2⟩ hgo⟩

theorem not_lt_self (p : ReadingPoint) : p.lt p = false := by simp [ReadingPoint.lt]

/-- With budgets for every cell, every line and every byte, the loop reads what there is. -/
theorem readRows_unbounded (n : ℕ) (hp : Inside r stop p) (hc : consumed + ((r.rest stop p).map fun row => rowCells row + 1).sum < maxCells)
    (hb : bytes + bytesRead (r.rest stop p) < maxBytes) (hn : maxCells ≤ consumed + n) :
    ∃ q, r.readRows maxCells maxBytes stop n p rows consumed bytes = .ok (rows ++ r.rest stop p, q) ∧ q.lt stop = false := by
  induction n generalizing p rows consumed bytes with
  | zero => omega
  | succ n ih =>
    rw [readRows]
    cases hlt : p.lt stop with
    | false =>
      rw [if_neg (by simp), rest_of_not_lt hlt, append_nil]
      exact ⟨p, rfl, hlt⟩
    | true =>
      have hturn := turn hp hlt (show consumed < maxCells by omega) (show bytes ≤ maxBytes by omega)
      rw [if_pos ⟨rfl, by omega⟩]
      dsimp only at hturn ⊢
      generalize r.crossLine maxBytes stop _ = x at hturn ⊢
      obtain ⟨x, q⟩ := x
      dsimp only at hturn ⊢
      rw [rest_of_lt hlt] at hc hb
      simp only [bytesRead, map_cons, sum_cons] at hc hb
      have hrowC : rowCells (r.rowFrom stop p) = (r.rowFrom stop p).endColumn - p.column := rfl
      have hrowB : rowBytes (r.rowFrom stop p) = byteLen (r.rowFrom stop p).text + (r.rowFrom stop p).hardBreak.toNat := rfl
      obtain ⟨hrow, hl, hq⟩ := hturn.whole (by omega) (by omega)
      have hr : r.rest stop p = x.row :: r.rest stop q := by
        rcases hq with ⟨-, rfl⟩ | rfl
        · rw [rest_of_lt hlt, hrow]
        · rw [← hturn.joined, rest_of_not_lt (not_lt_self q), joinCons]
      have hmv : x.row.startColumn ≠ x.row.endColumn ∨ q.line ≠ x.row.line := by
        rw [← not_and_or]
        rintro ⟨h1, h2⟩
        have hqp := hturn.still h1 h2
        rcases hq with ⟨-, hq⟩ | hq
        · rw [hqp] at hq
          exact absurd (congrArg ReadingPoint.line hq) (Nat.succ_ne_self _).symm
        · rw [← hq, hqp, not_lt_self] at hlt
          cases hlt
      rw [if_pos hmv, hr]
      have hs := hturn.spent
      rw [hrow] at hs
      by_cases hsp : q.column ≠ 0 ∨ x.bytes = maxBytes
      · have hqs : q = stop := by
          rcases hq with ⟨-, hq⟩ | hq
          · rw [hq] at hsp
            simp only [ne_eq, not_true_eq_false, false_or] at hsp
            omega
          · exact hq
        rw [if_pos hsp, hqs, rest_of_not_lt (not_lt_self stop)]
        exact ⟨stop, rfl, not_lt_self stop⟩
      · have hbou : ((r.rest stop q).map fun row => rowCells row + 1).sum ≤
              ((r.rest stop ⟨p.line + 1, 0⟩).map fun row => rowCells row + 1).sum ∧
            (List.map rowBytes (r.rest stop q)).sum ≤ (List.map rowBytes (r.rest stop ⟨p.line + 1, 0⟩)).sum := by
          rcases hq with ⟨-, rfl⟩ | rfl
          · exact ⟨le_rfl, le_rfl⟩
          · rw [rest_of_not_lt (not_lt_self q)]
            exact ⟨Nat.zero_le _, Nat.zero_le _⟩
        rw [if_neg hsp]
        have hmore := (hturn.moved hmv).2
        have hnx : ∃ q', r.readRows maxCells maxBytes stop n q (rows ++ [x.row]) x.consumed x.bytes =
            .ok (rows ++ [x.row] ++ r.rest stop q, q') ∧ q'.lt stop = false :=
          ih hturn.inside (by omega) (by rw [bytesRead]; omega) (by omega)
        obtain ⟨q', hrd, hq'⟩ := hnx
        exact ⟨q', by rw [hrd, append_assoc, singleton_append], hq'⟩

/-! ### Guards of parts -/

/-- The number of cells before a point, in lines of so many columns, tells how far it is. -/
theorem distance_eq {a b : ReadingPoint} (h : a.le b = true) :
    distance a b columns = b.line * columns + b.column - (a.line * columns + a.column) := by
  have hm : a.line * columns ≤ b.line * columns := by
    refine Nat.mul_le_mul_right columns ?_
    grind
  rw [distance, Nat.sub_mul]
  omega

theorem number_le {a b : ReadingPoint} (h : a.le b = true) (ha : a.column ≤ columns) :
    a.line * columns + a.column ≤ b.line * columns + b.column := by
  rcases le_iff.mp h with hl | ⟨hl, hc⟩
  · have hm : (a.line + 1) * columns ≤ b.line * columns := Nat.mul_le_mul_right columns hl
    rw [succ_mul] at hm
    omega
  · rw [hl]
    omega

theorem pointAt_distance {g : TailContent} {b : ReadingPoint} (h : g.span.start.le b = true) (hst : g.span.start.column ≤ g.columns)
    (hb : b.column < g.columns) : g.pointAt (distance g.span.start b g.columns) = b := by
  have ho : g.span.start.column + distance g.span.start b g.columns = b.column + g.columns * (b.line - g.span.start.line) := by
    have hle := number_le h hst
    have hl : g.span.start.line ≤ b.line := by grind
    have hm : g.span.start.line * g.columns ≤ b.line * g.columns := Nat.mul_le_mul_right _ hl
    rw [distance_eq h, Nat.mul_comm g.columns, Nat.sub_mul]
    omega
  have hl : g.span.start.line + (b.line - g.span.start.line) = b.line := by grind
  rw [TailContent.pointAt, ho]
  simp only [add_mul_div_left _ _ (show 0 < g.columns by omega), div_eq_of_lt hb, Nat.zero_add, add_mul_mod_self_left, mod_eq_of_lt hb, hl]

variable {g : TailContent} {a b a' b' : ReadingPoint}

/-- Cells that are as a guard has them between two points are so between any points between these. -/
theorem keepsCells_mono (h : r.keepsCells g a b = true) (hst : g.span.start.le a = true) (hab : a.le a' = true)
    (hlt : a'.le b' = true) (hb : b'.le b = true) (ha : a.column ≤ g.columns) (hb' : b'.column ≤ g.columns) :
    r.keepsCells g a' b' = true := by
  have hf := number_le hab ha
  have hl := number_le hb hb'
  have hsa' := le_trans hst hab
  have hsb' := le_trans hsa' hlt
  simp only [keepsCells, List.all_eq_true, mem_range'_1, distance_eq hst, distance_eq hsa', distance_eq hsb',
    distance_eq (le_trans hsb' hb)] at h ⊢
  exact fun index hix => h index (by omega)

/-- So is the line break that a later read starts with. -/
theorem keepsBreak_mono (hg : g.columns = r.columns) (hst : g.span.start.column ≤ g.columns)
    (hbre : r.keepsBreak g a = true) (h : r.keepsCells g a b = true)
    (hsa : g.span.start.le a = true) (haa' : a.le a' = true) (hlt : a'.lt b' = true) (hb : b'.le b = true)
    (hsp : b.le g.span.stop = true) (ha : a.column ≤ g.columns) (hb' : b'.column ≤ g.columns) :
    r.keepsBreak g a' = true := by
  have hp : 0 < g.columns := by
    rw [hg]
    exact r.columns_pos
  by_cases haa : a' = a
  · rw [haa]
    exact hbre
  rw [keepsBreak]
  by_cases hc : a'.column = g.columns
  · rw [if_pos hc, if_neg]
    · have hl : a.le ⟨a'.line, g.columns - 1⟩ = true := by
        have hne : ¬(a'.line = a.line ∧ a'.column = a.column) := fun h => haa (ReadingPoint.ext h.1 h.2)
        grind
      have hbef : (ReadingPoint.mk a'.line g.columns).lt g.span.stop = true := by grind
      have hsl := le_trans hsa hl
      have hab : a'.le b = true := by grind
      have hn := number_le hab (le_of_eq hc)
      have hn' := number_le hl ha
      have hn'' := number_le hsa hst
      simp only [keepsCells, List.all_eq_true, mem_range'_1, beq_iff_eq] at h
      have hcode := h (distance g.span.start ⟨a'.line, g.columns - 1⟩ g.columns) (by
        rw [distance_eq hsa, distance_eq hsl, distance_eq (le_trans (le_trans hsa haa') hab)]
        simp only at hn' ⊢
        omega)
      rw [pointAt_distance hsl hst (by show g.columns - 1 < g.columns; omega)] at hcode
      rw [hcode]
      simp only [map_some, all_some, TailContent.code, hbef, Bool.and_true, wraps, ← hg,
        show g.columns - 1 + 1 = g.columns by omega, beq_self_eq_true, Bool.true_and]
    · rintro rfl
      refine haa ?_
      exact ReadingPoint.ext (by grind) (by grind)
  · rw [if_neg hc]

theorem validate_ok (h : r.validateReadingSpan span = .ok ()) :
    span.start.le span.stop = true ∧ span.start.column ≤ r.columns ∧ span.stop.column ≤ r.columns := by
  rw [validateReadingSpan] at h
  split at h
  · cases h
  split at h
  · cases h
  split at h
  · cases h
  next hrg =>
    simp only [Bool.or_eq_true, decide_eq_true_eq, not_or, Bool.not_eq_true, not_lt] at hrg
    exact ⟨ReadingPoint.not_lt_iff.mp hrg.1.1.1, hrg.1.2, hrg.2⟩

/-- What a guard says against a part of a read, it says against the whole of it. -/
theorem validateGuard_mono (hg : g.columns = r.columns) (hspan : span.start.column ≤ r.columns)
    (hsp : read.stop.column ≤ r.columns) (h1 : span.start.le read.start = true) (h2 : read.stop.le span.stop = true)
    {e : ReadingError} (he : r.validateGuard g read = .error e) : r.validateGuard g span = .error e := by
  have hst : (span.start.max g.span.start).le (read.start.max g.span.start) = true := by
    grind [ReadingPoint.max]
  have hend : (read.stop.min g.span.stop).le (span.stop.min g.span.stop) = true := by
    grind [ReadingPoint.min]
  have hfrom : g.span.start.le (span.start.max g.span.start) = true := by
    grind [ReadingPoint.max]
  have hto : (span.stop.min g.span.stop).le g.span.stop = true := by
    grind [ReadingPoint.min]
  simp only [validateGuard] at he ⊢
  cases hlt : (read.start.max g.span.start).lt (read.stop.min g.span.stop) with
  | false => simp [hlt] at he
  | true =>
    have hlt' : (span.start.max g.span.start).lt (span.stop.min g.span.stop) = true := by grind
    simp only [hlt, hlt', Bool.not_true, Bool.false_eq_true, if_false] at he ⊢
    cases hv : r.validateReadingSpan g.span with
    | error e' =>
      rw [hv] at he
      exact he
    | ok u =>
      obtain ⟨-, hgs, hge⟩ := validate_ok hv
      rw [hv] at he
      simp only at he ⊢
      have hc : (span.start.max g.span.start).column ≤ g.columns := by grind [ReadingPoint.max]
      have hc' : (read.stop.min g.span.stop).column ≤ g.columns := by grind [ReadingPoint.min]
      by_cases hk : (r.keepsBreak g (span.start.max g.span.start) &&
          r.keepsCells g (span.start.max g.span.start) (span.stop.min g.span.stop)) = true
      · rw [Bool.and_eq_true] at hk
        have hle : (read.start.max g.span.start).le (read.stop.min g.span.stop) = true := by grind
        rw [keepsBreak_mono hg (by rw [hg]; exact hgs) hk.1 hk.2 hfrom hst hlt hend hto hc hc',
          keepsCells_mono hk.2 hfrom hst hle hend hc hc'] at he
        cases he
      · rw [if_neg hk]
        split at he
        · cases he
        · exact he

/-- What the guard of the command says against a part of its output, it says against the whole. -/
theorem checkGuard_mono (hspan : span.start.column ≤ r.columns) (hsp : read.stop.column ≤ r.columns)
    (h1 : span.start.le read.start = true) (h2 : read.stop.le span.stop = true) {e : ReadingError}
    (he : r.checkGuard span read = .error e) : r.checkGuard span span = .error e := by
  cases hg : r.guardOf span with
  | none => simp [checkGuard, hg] at he
  | some g =>
    simp only [checkGuard, hg] at he ⊢
    rw [guardOf, map_eq_some_iff] at hg
    obtain ⟨command, hfd, rfl⟩ := hg
    exact validateGuard_mono (r.same_columns _ (mem_of_find?_eq_some hfd)) hspan hsp h1 h2 he

/-! ### Chunk after chunk -/

/-- How far a point is from the end of a read. -/
def distanceLeft (r : Reader) (stop p : ReadingPoint) : ℕ := (stop.line - p.line) * (r.columns + 1) + (r.columns - p.column)

theorem distanceLeft_lt {stop p : ReadingPoint} (hp : Inside r stop p) (hq : Inside r stop q) (hlt : p.lt q = true) :
    r.distanceLeft stop q < r.distanceLeft stop p := by
  have hpc := hp.column
  have hqc := hq.column
  have hqs := hq.le
  rw [le_iff] at hqs
  rw [distanceLeft, distanceLeft]
  rcases lt_iff.mp hlt with hl | ⟨hl, hc⟩
  · have hm : (stop.line - q.line + 1) * (r.columns + 1) ≤ (stop.line - p.line) * (r.columns + 1) := Nat.mul_le_mul_right _ (by omega)
    rw [succ_mul] at hm
    omega
  · rw [hl]
    omega

/-- A chunk with the position after it. -/
def chunkFrom (r : Reader) (span : ReadingSpan) (maxCells maxBytes : ℕ) (cursor : Option ReadingPoint) :
    Except ReadingError (ReadingChunk × Option ReadingPoint) :=
  (r.readingChunk span cursor maxCells maxBytes).map fun chunk => (chunk, chunk.next)

/-- The chunks of a span, from its start until no position is next, for at most so many of them. -/
def readChunks (r : Reader) (span : ReadingSpan) (maxCells maxBytes n : ℕ) : Option (Except ReadingError (List ReadingChunk)) :=
  Resume.follow (r.chunkFrom span maxCells maxBytes) n none

/-- The budgets that a chunk keeps. -/
def Within (maxCells maxBytes : ℕ) (chunk : ReadingChunk) : Prop :=
  cellsRead chunk.rows ≤ min maxCells chunkCells ∧ bytesRead chunk.rows ≤ min maxBytes chunkBytes

/-- What a chunk is before the guard is asked: the rows up to a point, which is next if it is before the end. -/
theorem raw_spec (hv : r.validateReadingSpan span = .ok ()) {maxCells maxBytes : ℕ} (hc : 0 < maxCells)
    (hb : 0 < maxBytes) {cursor : Option ReadingPoint} (h1 : span.start.le (cursor.getD span.start) = true)
    (h2 : Inside r span.stop (cursor.getD span.start)) :
    r.readingChunkRaw span cursor maxCells maxBytes = .error .budgetTooSmall ∨
    ∃ rows q, r.readingChunkRaw span cursor maxCells maxBytes = .ok ⟨rows, if q.lt span.stop then some q else none⟩ ∧
      Reads r (min maxCells chunkCells) (min maxBytes chunkBytes) span.stop (cursor.getD span.start) 0 0 rows q ∧
      (q.lt span.stop = true → (cursor.getD span.start).lt q = true) := by
  have hcur : ((cursor.getD span.start).lt span.start || span.stop.lt (cursor.getD span.start) ||
      decide (r.columns < (cursor.getD span.start).column)) = false := by
    rw [ReadingPoint.not_lt_iff.mpr h1, ReadingPoint.not_lt_iff.mpr h2.le, Bool.false_or, Bool.false_or, decide_eq_false_iff_not, not_lt]
    exact h2.column
  simp only [readingChunkRaw, hv, hcur, Bool.false_eq_true, if_false]
  by_cases he : cursor.getD span.start = span.stop
  · refine .inr ⟨[], span.stop, ?_, ?_, ?_⟩
    · rw [if_pos he, if_neg (by simp [not_lt_self])]
    · rw [he] at h2 ⊢
      exact Reads.none h2 (Nat.zero_le _) (Nat.zero_le _)
    · intro h
      rw [not_lt_self] at h
      cases h
  · rw [if_neg he, if_neg (by simp only [chunkCells, chunkBytes]; omega)]
    have hrd : Outcome r (min maxCells chunkCells) (min maxBytes chunkBytes) span.stop (cursor.getD span.start) [] 0 0
        (r.readRows (min maxCells chunkCells) (min maxBytes chunkBytes) span.stop (min maxCells chunkCells)
          (cursor.getD span.start) [] 0 0) :=
      readRows_outcome (min maxCells chunkCells) h2 (Nat.zero_le _) (Nat.zero_le _) (by omega)
    cases hr : r.readRows (min maxCells chunkCells) (min maxBytes chunkBytes) span.stop (min maxCells chunkCells)
        (cursor.getD span.start) [] 0 0 with
    | error e =>
      rw [hr] at hrd
      exact .inl (congrArg Except.error hrd)
    | ok read =>
      rw [hr] at hrd
      obtain ⟨rows, q⟩ := read
      obtain ⟨new, hn, hrds, hmore⟩ := hrd
      rw [nil_append] at hn
      subst hn
      have hbef : (cursor.getD span.start).lt span.stop = true := by
        rw [← Bool.not_eq_false, ReadingPoint.not_lt_iff]
        intro hle
        have hle' := h2.le
        exact he (ReadingPoint.ext (by grind) (by grind))
      exact .inr ⟨rows, q, rfl, hrds, fun _ => hmore rfl hbef (by simp only [chunkCells]; omega)⟩

/-- A chunk from a position of a valid span keeps its budgets and leads on to what is left of the span. -/
theorem chunk_sound (hv : r.validateReadingSpan span = .ok ()) {maxCells maxBytes : ℕ} (hc : 0 < maxCells)
    (hb : 0 < maxBytes) (cursor : Option ReadingPoint) (h1 : span.start.le (cursor.getD span.start) = true)
    (h2 : Inside r span.stop (cursor.getD span.start)) :
    Resume.Sound (fun e => e = .budgetTooSmall ∨ r.checkGuard span span = .error e) (Within maxCells maxBytes)
      (fun p => span.start.le p = true ∧ Inside r span.stop p) (r.distanceLeft span.stop) (r.rest span.stop)
      (fun chunk => chunk.rows.foldr joinCons) [] (cursor.getD span.start) (r.chunkFrom span maxCells maxBytes cursor) := by
  obtain ⟨-, hcol, hcol'⟩ := validate_ok hv
  rcases raw_spec hv hc hb h1 h2 with hraw | ⟨rows, q, hraw, hr, hmore⟩
  · simp only [chunkFrom, readingChunk, hraw]
    exact .inl rfl
  have hcs := hr.cells
  have hbs := hr.bytes
  rw [Nat.zero_add] at hcs hbs
  simp only [chunkFrom, readingChunk, hraw]
  cases hg : r.checkGuard span
      { span with start := cursor.getD span.start, stop := (if q.lt span.stop then some q else none).getD span.stop } with
  | error e =>
    refine .inr (checkGuard_mono hcol ?_ h1 ?_ hg)
    · show ((if q.lt span.stop then some q else none).getD span.stop).column ≤ r.columns
      split
      · exact hr.inside.column
      · exact hcol'
    · show ((if q.lt span.stop then some q else none).getD span.stop).le span.stop = true
      split
      · exact hr.inside.le
      · exact ReadingPoint.le_refl _
  | ok u =>
    cases hq : q.lt span.stop with
    | true =>
      refine ⟨⟨hcs, hbs⟩, ⟨le_trans h1 hr.forward, hr.inside⟩, ?_, hr.joined⟩
      exact distanceLeft_lt h2 hr.inside (hmore hq)
    | false =>
      have hj := hr.joined
      rw [rest_of_not_lt hq] at hj
      exact ⟨⟨hcs, hbs⟩, hj⟩

/-- **Reading a valid span in chunks** comes to an end. Either a budget is too small for the next cell, or the
guard of the command rejects the span, or all chunks keep their budgets and are, put together, what there is to read
of the span, as is what one unbounded read of it reads. -/
theorem readChunks_spec {span : ReadingSpan} (hvalid : r.validateReadingSpan span = .ok ()) {maxCells maxBytes : ℕ}
    (hc : 0 < maxCells) (hb : 0 < maxBytes) :
    ∃ n result, r.readChunks span maxCells maxBytes n = some result ∧
      match result with
      | .error e => e = .budgetTooSmall ∨ r.checkGuard span span = .error e
      | .ok chunks => (∀ chunk ∈ chunks, Within maxCells maxBytes chunk) ∧
          joinRows (chunks.flatMap (·.rows)) = r.rest span.stop span.start ∧
          ∃ m, ∀ cells ≥ m, ∀ bytes ≥ m, ∃ q, q.lt span.stop = false ∧
            r.readRows cells bytes span.stop cells span.start [] 0 0 = .ok (joinRows (chunks.flatMap (·.rows)), q) := by
  obtain ⟨hle, hcol, hcol'⟩ := validate_ok hvalid
  have hst : Inside r span.stop span.start := ⟨hle, hcol, hcol'⟩
  obtain ⟨n, result, hrun, hres⟩ := Resume.follow_spec
    (fun p (hp : span.start.le p = true ∧ Inside r span.stop p) => chunk_sound hvalid hc hb (some p) hp.1 hp.2)
    (chunk_sound hvalid hc hb none (ReadingPoint.le_refl _) hst)
  refine ⟨n, result, hrun, ?_⟩
  cases result with
  | error e => exact hres
  | ok chunks =>
    obtain ⟨hwth, hjoin⟩ := hres
    have hr : joinRows (chunks.flatMap (·.rows)) = r.rest span.stop span.start := by
      rw [joinRows, foldr_flatMap]
      exact hjoin
    refine ⟨hwth, hr, ((r.rest span.stop span.start).map fun row => rowCells row + 1).sum + bytesRead (r.rest span.stop span.start) + 1,
      fun cells hcs bytes hbs => ?_⟩
    have hrd : ∃ q, r.readRows cells bytes span.stop cells span.start [] 0 0 = .ok ([] ++ r.rest span.stop span.start, q) ∧
        q.lt span.stop = false := readRows_unbounded cells hst (by omega) (by omega) (by omega)
    obtain ⟨q, hrd, hq⟩ := hrd
    exact ⟨q, hq, by rw [hrd, hr, nil_append]⟩

/-- Two lines of two columns, with a wide character on the first and an accented one on the second. -/
def sample : Reader where
  grid :=
    let g : Grid Cell := .new 2 2 0
    { g with
      raw := ((g.raw.modify 0 (·.modify 0 fun c => { c with c := '好', flags := { c.flags with wideChar := true } })).modify 0
        (·.modify 1 fun c => { c with flags := { c.flags with wideCharSpacer := true } })).modify 1
          (·.modify 0 fun c => ({ c with c := 'e' }).pushZerowidth '\u0301') }
  epoch := 0
  commands := []
  columns_pos := by decide
  same_columns := by simp

/-- They are read in chunks of a cell or four bytes. -/
theorem readChunks_spec_sample : (0 < 1 ∧ 0 < 4 ∧ ∃ n result, sample.readChunks ⟨0, ⟨0, 0⟩, ⟨2, 0⟩⟩ 1 4 n = some result ∧
      match result with
      | .error e => e = .budgetTooSmall ∨ sample.checkGuard ⟨0, ⟨0, 0⟩, ⟨2, 0⟩⟩ ⟨0, ⟨0, 0⟩, ⟨2, 0⟩⟩ = .error e
      | .ok chunks => (∀ chunk ∈ chunks, Within 1 4 chunk) ∧
          joinRows (chunks.flatMap (·.rows)) = sample.rest ⟨2, 0⟩ ⟨0, 0⟩ ∧
          ∃ m, ∀ cells ≥ m, ∀ bytes ≥ m, ∃ q, ReadingPoint.lt q ⟨2, 0⟩ = false ∧
            sample.readRows cells bytes ⟨2, 0⟩ cells ⟨0, 0⟩ [] 0 0 = .ok (joinRows (chunks.flatMap (·.rows)), q)) ∧
    (sample.rest ⟨2, 0⟩ ⟨0, 0⟩).map (·.text) = [['好'], ['e', '\u0301', ' ']] :=
  ⟨⟨by decide, by decide, readChunks_spec (by rfl) (by decide) (by decide)⟩, by decide⟩

end Reader

end Pebrel.Terminal.Reading
