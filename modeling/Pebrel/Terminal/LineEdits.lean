import Pebrel.Terminal.RowBound
import Pebrel.Terminal.RowMoves
import Pebrel.Terminal.TermScreen

/-!
# Inserting, deleting and erasing characters

What ICH, DCH and ECH do to the cells of the cursor's line, as a function from
columns to cells, and what the loops of `insert_blank` and `delete_chars` make
of it, cell by cell. `delete_chars` bounds its count by the width of the
terminal and not by the space right of the cursor, and clears that many cells at
the end of the line: `edit_chars_iff` says when this is the same.
-/

namespace Pebrel.Terminal

open List Option

/-! ### The loops, cell by cell -/

section
variable {T : Type} {cells : List T} {numCells j : ℕ}

theorem getElem?_swapCells {a b : ℕ} (ha : a < cells.length) (hb : b < cells.length) (i : ℕ) :
    (swapCells cells a b)[i]? = if i = b then cells[a]? else if i = a then cells[b]? else cells[i]? := by
  unfold swapCells
  rw [getElem?_eq_getElem ha, getElem?_eq_getElem hb]
  simp only
  by_cases hib : i = b
  · subst hib
    rw [if_pos rfl, getElem?_set_self (by simpa using hb)]
  rw [if_neg hib, getElem?_set_ne (Ne.symm hib)]
  by_cases hia : i = a
  · subst hia
    rw [if_pos rfl, getElem?_set_self ha]
  · rw [if_neg hia, getElem?_set_ne (Ne.symm hia)]

/-- Cells moved out keep their order; the ones before them and after them stay. -/
theorem getElem?_moveOut {source destination : ℕ} (hle : source ≤ destination) (hlen : destination + numCells ≤ cells.length) :
    (j < source ∨ destination + numCells ≤ j → (moveOut cells source destination numCells)[j]? = cells[j]?) ∧
      (destination ≤ j ∧ j < destination + numCells →
        (moveOut cells source destination numCells)[j]? = cells[j - (destination - source)]?) := by
  induction numCells generalizing cells with
  | zero => exact ⟨fun _ => rfl, fun h => absurd h (by omega)⟩
  | succ n ih =>
    have hstep : moveOut cells source destination (n + 1) =
        moveOut (swapCells cells (destination + n) (source + n)) source destination n := by
      unfold moveOut
      rw [range_succ, reverse_append]
      rfl
    have hswap := getElem?_swapCells (show destination + n < cells.length by omega) (show source + n < cells.length by omega)
    obtain ⟨hst, hmv⟩ := ih (show destination + n ≤ (swapCells cells (destination + n) (source + n)).length by
      rw [length_swapCells]
      omega)
    rw [hstep]
    constructor
    · intro hj
      rw [hst (by omega), hswap, if_neg (by omega), if_neg (by omega)]
    · intro hj
      by_cases hl : j = destination + n
      · rw [hst (by omega), hswap]
        by_cases hsm : destination = source
        · rw [if_pos (by omega), hsm]
          congr 1
          omega
        · rw [if_neg (by omega), if_pos hl]
          congr 1
          omega
      · rw [hmv (by omega), hswap, if_neg (by omega), if_neg (by omega)]

/-- Cells moved in keep their order; the ones before them and past the last one moved stay. -/
theorem getElem?_moveIn {start stop : ℕ} (hle : start ≤ stop) (hlen : stop + numCells ≤ cells.length) :
    (j < start ∨ stop + numCells ≤ j → (moveIn cells start stop numCells)[j]? = cells[j]?) ∧
      (start ≤ j ∧ j < start + numCells → (moveIn cells start stop numCells)[j]? = cells[j + (stop - start)]?) := by
  induction numCells generalizing j with
  | zero => exact ⟨fun _ => rfl, fun h => absurd h (by omega)⟩
  | succ n ih =>
    have hst : moveIn cells start stop (n + 1) = swapCells (moveIn cells start stop n) (start + n) (stop + n) := by
      unfold moveIn
      rw [range_succ, foldl_append]
      rfl
    have hleng := (moveIn_spec cells start stop n).1
    have hswap := getElem?_swapCells (show start + n < (moveIn cells start stop n).length by omega)
      (show stop + n < (moveIn cells start stop n).length by omega)
    rw [hst, hswap]
    constructor
    · intro hj
      rw [if_neg (by omega), if_neg (by omega)]
      exact (ih (by omega)).1 (by omega)
    · intro hj
      by_cases hl : j = start + n
      · rw [if_pos hl]
        by_cases hsm : start = stop
        · rw [if_pos (by omega), (ih (by omega)).1 (by omega)]
          congr 1
          omega
        · rw [if_neg (by omega), (ih (by omega)).1 (by omega)]
          congr 1
          omega
      · by_cases hsm : j = stop + n
        · omega
        · rw [if_neg hsm, if_neg hl]
          exact (ih (by omega)).2 (by omega)

/-- A cell of a row in which a range was filled. -/
theorem getD_fillCells (hj : j < cells.length) (start stop : ℕ) (value d : T) :
    (fillCells cells start stop value).getD j d = if start ≤ j ∧ j < stop then value else cells.getD j d := by
  rw [getD_eq_getElem?_getD, getD_eq_getElem?_getD, getElem?_fillCells, getElem?_eq_getElem hj]
  rfl

end

/-! ### The line of the cursor -/

namespace Grid

/-- The cursor is on a cell of the screen, and every row has the width of the grid. -/
structure Shaped (g : Grid Cell) : Prop where
  inv : g.Inv
  column_lt : g.cursor.point.column < g.columns
  width : g.raw.Every fun r => r.len = g.columns

theorem Shaped.row_len {g : Grid Cell} (h : g.Shaped) {line : ℤ} (h1 : -(g.historySize : ℤ) ≤ line) (h2 : line < g.lines) :
    (g.row line).len = g.columns := by
  obtain ⟨r, hr⟩ := isSome_iff_exists.mp (Storage.get_isSome h.inv.sized.ok (h.inv.inRange h1 h2))
  show ((g.raw.get line).getD default).len = g.columns
  rw [hr]
  exact h.width r (mem_of_getElem? hr)

variable {T : Type} {g : Grid T} {line : ℤ}

theorem Inv.row_modifyRow_self (hi : g.Inv) (h1 : -(g.historySize : ℤ) ≤ line) (h2 : line < g.lines) (f : Row T → Row T) :
    (g.modifyRow line f).row line = f (g.row line) := by
  have hr := hi.inRange h1 h2
  obtain ⟨r, hg⟩ := isSome_iff_exists.mp (Storage.get_isSome hi.sized.ok hr)
  show ((g.raw.modify line f).get line).getD default = f ((g.raw.get line).getD default)
  rw [Storage.get_modify_self hi.sized.ok hr, hg]
  rfl

theorem Inv.row_modifyRow_of_ne (hi : g.Inv) {a : ℤ} (ha : -(g.historySize : ℤ) ≤ a ∧ a < g.lines)
    (h1 : -(g.historySize : ℤ) ≤ line) (h2 : line < g.lines) (hne : line ≠ a) (f : Row T → Row T) :
    (g.modifyRow a f).row line = g.row line := by
  show ((g.raw.modify a f).get line).getD default = (g.raw.get line).getD default
  rw [Storage.get_modify_of_ne hi.sized.ok (hi.inRange ha.1 ha.2) (hi.inRange h1 h2) hne]

theorem new_shaped {lines columns : ℕ} (hl : 0 < lines) (hc : 0 < columns) (history : ℕ) :
    (Grid.newForTerminal lines columns history).Shaped where
  inv :=
    have h := Grid.new_inv columns history hl
    ⟨⟨⟨h.sized.ok.zero_lt, h.sized.ok.len_le⟩, h.sized.visibleLines_eq, h.sized.len_eq⟩, hl, h.history_le, h.cursor_nonneg, h.cursor_lt⟩
  column_lt := hc
  width r hr := by
    rw [eq_of_mem_replicate hr]
    exact length_replicate

end Grid

namespace Term

variable {t t' : Term} {cells : ℕ → Cell}

/-- The cells of the cursor's line. -/
def lineCells (t : Term) (j : ℕ) : Cell := t.grid.cell ⟨t.cursor.point.line, j⟩

/-- A cell without content, on the background of the template. -/
def blank (t : Term) : Cell := .ofColor t.cursor.template.bg

/-- The cursor's line has these cells afterwards, and every other line of the buffer is as it was. -/
structure EditsLine (t t' : Term) (cells : ℕ → Cell) : Prop where
  cells_eq : ∀ j < t.columns, t'.grid.cell ⟨t.cursor.point.line, j⟩ = cells j
  others : ∀ line, -(t.grid.historySize : ℤ) ≤ line → line < t.grid.lines → line ≠ t.cursor.point.line →
    t'.grid.row line = t.grid.row line

/-- Only the cells of the cursor's line have to be looked at after a write to its row. -/
theorem editsLine_iff (h : t.grid.Shaped) {f : Row Cell → Row Cell} (ht : t'.grid = t.grid.modifyRow t.cursor.point.line f) :
    t.EditsLine t' cells ↔ ∀ j < t.columns, (f (t.grid.row t.cursor.point.line)).get j = cells j := by
  have hl : -(t.grid.historySize : ℤ) ≤ t.cursor.point.line ∧ t.cursor.point.line < t.grid.lines := by
    have := h.inv.cursor_nonneg
    exact ⟨by show -(t.grid.historySize : ℤ) ≤ t.grid.cursor.point.line; omega, h.inv.cursor_lt⟩
  have hc : ∀ j, t'.grid.cell ⟨t.cursor.point.line, j⟩ = (f (t.grid.row t.cursor.point.line)).get j := by
    intro j
    show (t'.grid.row t.cursor.point.line).get j = _
    rw [ht, h.inv.row_modifyRow_self hl.1 hl.2]
  constructor
  · intro he j hj
    rw [← hc]
    exact he.cells_eq j hj
  · intro hcs
    refine ⟨fun j hj => (hc j).trans (hcs j hj), fun line h1 h2 hne => ?_⟩
    rw [ht]
    exact h.inv.row_modifyRow_of_ne hl h1 h2 hne f

/-! ### The control sequences -/

/-- ECH: the cells from the cursor on, as many as there are up to the count, become blank. -/
def erased (t : Term) (count j : ℕ) : Cell :=
  if t.cursor.point.column ≤ j ∧ j < min (t.cursor.point.column + count) t.columns then t.blank else t.lineCells j

/-- DCH: the cells past the ones deleted move to the cursor, and blank cells follow. -/
def deleted (t : Term) (count j : ℕ) : Cell :=
  if j < t.cursor.point.column then t.lineCells j
  else if j + count < t.columns then t.lineCells (j + count)
  else t.blank

/-- ICH: blank cells come in at the cursor, and the cells from it on move out. -/
def inserted (t : Term) (count j : ℕ) : Cell :=
  if j < t.cursor.point.column then t.lineCells j
  else if j < min (t.cursor.point.column + count) t.columns then t.blank
  else t.lineCells (j - count)

/-- The cells that a deletion clears left of the cursor are blank already. -/
def ClearsNothingLeft (t : Term) (count : ℕ) : Prop :=
  ∀ j, t.columns - count ≤ j → j < t.cursor.point.column → t.lineCells j = t.blank

/-- The row of the cursor is as wide as the terminal. -/
theorem length_cursorRow (h : t.grid.Shaped) : (t.grid.row t.cursor.point.line).inner.length = t.columns := by
  have := h.inv.cursor_nonneg
  exact h.row_len (by show -(t.grid.historySize : ℤ) ≤ t.grid.cursor.point.line; omega) h.inv.cursor_lt

theorem eraseChars_edits (h : t.grid.Shaped) (count : ℕ) : t.EditsLine (t.eraseChars count) (t.erased count) := by
  refine (editsLine_iff h rfl).mpr fun j hj => ?_
  exact getD_fillCells (by rw [length_cursorRow h]; exact hj) ..

theorem insertBlank_edits (h : t.grid.Shaped) (count : ℕ) : t.EditsLine (t.insertBlank count) (t.inserted count) := by
  have hc : t.cursor.point.column < t.columns := h.column_lt
  have hl := length_cursorRow h
  refine (editsLine_iff h rfl).mpr fun j hj => ?_
  obtain ⟨n, hn⟩ : ∃ n, n = min count (t.columns - t.cursor.point.column) := ⟨_, rfl⟩
  show (fillCells (moveOut (t.grid.row t.cursor.point.line).inner t.cursor.point.column
    (t.cursor.point.column + min count (t.columns - t.cursor.point.column))
    (t.columns - (t.cursor.point.column + min count (t.columns - t.cursor.point.column)))) t.cursor.point.column
    (t.cursor.point.column + min count (t.columns - t.cursor.point.column)) t.blank).getD j default = _
  rw [← hn, getD_fillCells (by rw [(moveOut_spec ..).1, hl]; exact hj), getD_eq_getElem?_getD]
  have hmv := fun j => getElem?_moveOut (j := j) (show t.cursor.point.column ≤ t.cursor.point.column + n by omega)
    (show t.cursor.point.column + n + (t.columns - (t.cursor.point.column + n)) ≤ (t.grid.row t.cursor.point.line).inner.length by
      omega)
  unfold inserted
  by_cases hlf : j < t.cursor.point.column
  · rw [if_neg (by omega), if_pos hlf, (hmv j).1 (Or.inl hlf)]
    exact (getD_eq_getElem?_getD ..).symm
  rw [if_neg hlf]
  by_cases hbl : j < min (t.cursor.point.column + count) t.columns
  · rw [if_pos (by omega), if_pos hbl]
  · rw [if_neg (by omega), if_neg hbl, (hmv j).2 (by omega),
      show j - (t.cursor.point.column + n - t.cursor.point.column) = j - count by omega]
    exact (getD_eq_getElem?_getD ..).symm

/-- What a deletion does to the row of the cursor. -/
def deletedRow (t : Term) (count : ℕ) (r : Row Cell) : Row Cell :=
  r.modifyAll fun cells =>
    fillCells (moveIn cells t.cursor.point.column (min (t.cursor.point.column + min count t.columns) (t.columns - 1))
      (t.columns - min (t.cursor.point.column + min count t.columns) (t.columns - 1))) (t.columns - min count t.columns)
      cells.length t.blank

/-- After a deletion as many cells as the count, up to the width, are blank at the end of the
line, wherever the cursor is. -/
theorem get_deletedRow (h : t.grid.Shaped) (count : ℕ) {j : ℕ} (hj : j < t.columns) :
    (t.deletedRow count (t.grid.row t.cursor.point.line)).get j =
      if t.columns - count ≤ j then t.blank else t.deleted count j := by
  have hc : t.cursor.point.column < t.columns := h.column_lt
  have hl := length_cursorRow h
  obtain ⟨n, hn⟩ : ∃ n, n = min count t.columns := ⟨_, rfl⟩
  obtain ⟨stop, hsp⟩ : ∃ stop, stop = min (t.cursor.point.column + n) (t.columns - 1) := ⟨_, rfl⟩
  unfold deletedRow Row.get Row.modifyAll
  rw [← hn, ← hsp]
  simp only
  rw [getD_fillCells (by rw [(moveIn_spec ..).1, hl]; exact hj), getD_eq_getElem?_getD]
  have hmv := getElem?_moveIn (j := j) (show t.cursor.point.column ≤ stop by omega)
    (show stop + (t.columns - stop) ≤ (t.grid.row t.cursor.point.line).inner.length by omega)
  by_cases he : t.columns - count ≤ j
  · rw [if_pos (by omega), if_pos he]
  unfold deleted
  rw [if_neg (by omega), if_neg he]
  by_cases hlf : j < t.cursor.point.column
  · rw [if_pos hlf, hmv.1 (Or.inl hlf)]
    exact (getD_eq_getElem?_getD ..).symm
  · rw [if_neg hlf, if_pos (by omega), hmv.2 (by omega), show j + (stop - t.cursor.point.column) = j + count by omega]
    exact (getD_eq_getElem?_getD ..).symm

/-- A deletion does what DCH asks for exactly where what it clears left of the cursor is blank. -/
theorem deleteChars_edits_iff (h : t.grid.Shaped) (count : ℕ) :
    t.EditsLine (t.deleteChars count) (t.deleted count) ↔ t.ClearsNothingLeft count := by
  have hc : t.cursor.point.column < t.columns := h.column_lt
  rw [editsLine_iff h (f := t.deletedRow count) rfl]
  constructor
  · intro hcs j h1 h2
    have hcell := hcs j (h2.trans hc)
    rw [get_deletedRow h count (h2.trans hc), if_pos h1] at hcell
    rw [hcell]
    exact (if_pos h2).symm
  · intro hlf j hj
    rw [get_deletedRow h count hj]
    split
    · rename_i he
      unfold deleted
      by_cases hcur : j < t.cursor.point.column
      · rw [if_pos hcur, hlf j he hcur]
      · rw [if_neg hcur, if_neg (by omega)]
    · rfl

/-- **Editing characters**: ICH, DCH and ECH do to the line of the cursor what they are defined
to do, and nothing to other lines, exactly where a deletion does not clear a cell left of the
cursor that is not blank: where the count is at most the space from the cursor on, or what lies
`count` cells from the end is blank. -/
theorem edit_chars_iff (h : t.grid.Shaped) (count : ℕ) :
    (t.EditsLine (t.insertBlank count) (t.inserted count) ∧ t.EditsLine (t.deleteChars count) (t.deleted count) ∧
      t.EditsLine (t.eraseChars count) (t.erased count)) ↔ t.ClearsNothingLeft count :=
  ⟨fun hedi => (deleteChars_edits_iff h count).mp hedi.2.1,
    fun hlf => ⟨insertBlank_edits h count, (deleteChars_edits_iff h count).mpr hlf, eraseChars_edits h count⟩⟩

/-- A count up to the space from the cursor on clears nothing left of the cursor. -/
theorem clearsNothingLeft_of_le {count : ℕ} (hcnt : count ≤ t.columns - t.cursor.point.column)
    (hc : t.cursor.point.column < t.columns) : t.ClearsNothingLeft count := fun j h1 h2 => absurd h1 (by omega)

/-- Five characters, and the cursor on the second one. -/
def letters : Term := ((Term.new 2 5 10 false).inputs "abcde").gotoCol 1

theorem letters_shaped : letters.grid.Shaped where
  inv := ⟨⟨⟨by decide, by decide⟩, rfl, rfl⟩, by decide, by decide, by decide, by decide⟩
  column_lt := by decide
  width := show ∀ r ∈ letters.grid.raw.inner, r.len = letters.grid.columns by decide

theorem edit_chars_letters :
    (letters.EditsLine (letters.insertBlank 2) (letters.inserted 2) ∧ letters.EditsLine (letters.deleteChars 2) (letters.deleted 2) ∧
      letters.EditsLine (letters.eraseChars 2) (letters.erased 2)) ∧
    (List.range 5).map (fun j => ((letters.inserted 2 j).c, (letters.deleted 2 j).c, (letters.erased 2 j).c)) =
      [('a', 'a', 'a'), (' ', 'd', ' '), (' ', 'e', ' '), ('b', ' ', 'd'), ('c', ' ', 'e')] :=
  ⟨(edit_chars_iff letters_shaped 2).mpr (clearsNothingLeft_of_le (by decide) (by decide)), by decide⟩

/-- A screen full of `E`, and the cursor in its last column. -/
def filledScreen : Term := (Term.new 1 3 0 false).decaln.gotoCol 2

theorem filledScreen_shaped : filledScreen.grid.Shaped where
  inv := ⟨⟨⟨by decide, by decide⟩, rfl, rfl⟩, by decide, by decide, by decide, by decide⟩
  column_lt := by decide
  width := show ∀ r ∈ filledScreen.grid.raw.inner, r.len = filledScreen.grid.columns by decide

/-- Two characters are deleted in the last column, and the one before it is cleared. -/
theorem deleteChars_clears_left : ¬ ∀ (t : Term) (count : ℕ), t.grid.Shaped →
    t.EditsLine (t.insertBlank count) (t.inserted count) ∧ t.EditsLine (t.deleteChars count) (t.deleted count) ∧
      t.EditsLine (t.eraseChars count) (t.erased count) := fun h =>
  absurd ((h filledScreen 2 filledScreen_shaped).2.1.cells_eq 1 (by decide)) (by decide)

end Term

end Pebrel.Terminal
