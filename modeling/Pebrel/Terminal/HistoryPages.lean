import Pebrel.Terminal.HistoryPage
import Pebrel.Terminal.ResizeLines
import Pebrel.Terminal.TermRuns

/-!
# What the pages of the history have

In every state of a terminal a page is made of rows of its buffer: it names the absolute
numbers of its rows, and its rows are those of the grid with these numbers (`IsPage`). Where
it cannot be sent it fails; nothing is read outside the buffer. How many rows there are is
limited by what is asked for, by the number of cells, and by the buffer (`pageRows`), so
it is by that number that a reader has to go on to see all of them (`history_pages`).
-/

namespace Pebrel.Terminal.History

open Library Library.Transition List Option Nat Term
open Text (byteLen)

/-- The row with an absolute number. -/
def rowAt (g : Grid Cell) (n : ℕ) : Option (Row Cell) := g.raw.get ((n : ℤ) - g.scrolledOut - g.historySize)

/-- The cells of a row as they are sent. -/
def wireRow : List Cell → List WireCell
  | [] => []
  | [cell] => [wireCell cell 1]
  | cell :: next :: cells => if isWide cell then wireCell cell 2 :: wireRow cells else wireCell cell 1 :: wireRow (next :: cells)

/-- The widths of a row make up its length. -/
theorem sum_wireRow (cells : List Cell) : ((wireRow cells).map WireCell.width).sum = cells.length := by
  fun_induction wireRow cells with
  | case1 => rfl
  | case2 cell => rfl
  | case3 cell next cells hwide ih =>
    rw [map_cons, sum_cons, ih, length_cons, length_cons]
    exact Nat.add_comm 2 _
  | case4 cell next cells hwide ih =>
    rw [map_cons, sum_cons, ih]
    exact Nat.add_comm 1 _

/-! ### Rows -/

section
variable {g : Grid Cell} {line : ℤ} {r : Row Cell}

/-- A line of the buffer. -/
def InBuffer (g : Grid Cell) (line : ℤ) : Prop := -(g.historySize : ℤ) ≤ line ∧ line < g.lines

theorem row_of_good (h : g.Good) (hl : InBuffer g line) : ∃ r, g.raw.get line = some r ∧ r.inner.length = g.columns := by
  have hrg : g.raw.InRange line := h.inv.sized.inRange_iff.mpr ⟨by have := hl.1; omega, hl.2⟩
  obtain ⟨r, hr⟩ := isSome_iff_exists.mp (Storage.get_isSome h.inv.sized.ok hrg)
  exact ⟨r, hr, (h.rows.get h.inv.sized.ok hrg hr).len_eq⟩

theorem cellAt_eq (hl : InBuffer g line) (hr : g.raw.get line = some r) {x : ℕ} {cell : Cell} (hc : r.inner[x]? = some cell) :
    cellAt g ⟨line, x⟩ = .ok cell := by
  rw [cellAt, if_pos (show -(g.historySize : ℤ) ≤ line ∧ line < g.lines from hl)]
  simp only [hr, bind_some, hc]

/-- What is read of a row, from a column on. -/
theorem captureRow_spec (hl : InBuffer g line) (hr : g.raw.get line = some r) (hlen : r.inner.length = g.columns) {fuel x : ℕ}
    (hfuel : g.columns - x ≤ fuel) (textBytes : ℕ) : captureRow g line fuel x textBytes = .error textTooLarge ∨
      ∃ textBytes', captureRow g line fuel x textBytes = .ok (wireRow (r.inner.drop x), textBytes') := by
  induction fuel generalizing x textBytes with
  | zero =>
    refine .inr ⟨textBytes, ?_⟩
    rw [captureRow, drop_eq_nil_of_le (by omega)]
    rfl
  | succ fuel ih =>
    rw [captureRow]
    by_cases hx : g.columns ≤ x
    · rw [if_pos hx, drop_eq_nil_of_le (by omega)]
      exact .inr ⟨textBytes, rfl⟩
    rw [if_neg hx]
    have hlt : x < r.inner.length := by omega
    have hcell : r.inner[x]? = some r.inner[x] := getElem?_eq_getElem hlt
    rw [cellAt_eq hl hr hcell]
    generalize hc : r.inner[x] = cell
    simp only [bind, Except.bind]
    split
    · exact .inl rfl
    by_cases hwide : isWide cell = true ∧ x + 1 < g.columns
    · have hnx : x + 1 < r.inner.length := by omega
      have hdr : r.inner.drop x = cell :: r.inner[x + 1] :: r.inner.drop (x + 2) := by
        rw [drop_eq_getElem_cons hlt, drop_eq_getElem_cons hnx, hc]
      rw [if_pos (by rw [hwide.1, decide_eq_true hwide.2]; rfl), hdr, wireRow, if_pos hwide.1]
      rcases @ih (x + 2) (by omega) (textBytes + byteLen (glyph cell)) with h | ⟨textBytes', h⟩
      · rw [h]
        exact .inl rfl
      · rw [h]
        exact .inr ⟨textBytes', rfl⟩
    · have hdr : wireRow (r.inner.drop x) = wireCell cell 1 :: wireRow (r.inner.drop (x + 1)) := by
        rw [drop_eq_getElem_cons hlt, hc]
        by_cases hnx : x + 1 < r.inner.length
        · have hn : ¬ isWide cell = true := fun hw => hwide ⟨hw, hlen ▸ hnx⟩
          rw [drop_eq_getElem_cons hnx, wireRow, if_neg hn]
        · rw [drop_eq_nil_of_le (by omega)]
          rfl
      rw [if_neg (by rw [Bool.and_eq_true, decide_eq_true_eq]; exact hwide), hdr]
      rcases @ih (x + 1) (by omega) (textBytes + byteLen (glyph cell)) with h | ⟨textBytes', h⟩
      · rw [h]
        exact .inl rfl
      · rw [h]
        exact .inr ⟨textBytes', rfl⟩

/-- A row whose cells have little text is read. -/
theorem captureRow_small (hl : InBuffer g line) (hr : g.raw.get line = some r) (hlen : r.inner.length = g.columns)
    (hs : ∀ cell ∈ r.inner, byteLen (glyph cell) ≤ 3) {fuel x textBytes : ℕ} (ht : textBytes + 3 * (g.columns - x) ≤ maxText) :
    ∃ row textBytes', captureRow g line fuel x textBytes = .ok (row, textBytes') ∧ textBytes' ≤ textBytes + 3 * (g.columns - x) := by
  induction fuel generalizing x textBytes with
  | zero => exact ⟨[], textBytes, rfl, Nat.le_add_right _ _⟩
  | succ fuel ih =>
    rw [captureRow]
    by_cases hx : g.columns ≤ x
    · rw [if_pos hx]
      exact ⟨[], textBytes, rfl, Nat.le_add_right _ _⟩
    rw [if_neg hx]
    have hlt : x < r.inner.length := by omega
    have hc : r.inner[x]? = some r.inner[x] := getElem?_eq_getElem hlt
    rw [cellAt_eq hl hr hc]
    have hg := hs _ (getElem_mem hlt)
    generalize r.inner[x] = cell at hg
    simp only [bind, Except.bind]
    rw [if_neg (by rw [maxGlyph]; omega)]
    generalize hw : (if isWide cell && decide (x + 1 < g.columns) then 2 else 1) = width
    have hp : 1 ≤ width := by
      rw [← hw]
      split <;> omega
    obtain ⟨row, textBytes', hok, hle⟩ := @ih (x + width) (textBytes + byteLen (glyph cell)) (by omega)
    rw [hok]
    exact ⟨_, textBytes', rfl, by omega⟩

theorem captureRows_spec (h : g.Good) {lines : List ℤ} (hls : ∀ line ∈ lines, InBuffer g line) (textBytes : ℕ) :
    captureRows g lines textBytes = .error textTooLarge ∨ captureRows g lines textBytes = .ok
      (lines.map fun line => wireRow (g.row line).inner) := by
  induction lines generalizing textBytes with
  | nil => exact .inr rfl
  | cons line lines ih =>
    obtain ⟨hl, hrest⟩ := forall_mem_cons.mp hls
    obtain ⟨r, hr, hlen⟩ := row_of_good h hl
    rw [captureRows]
    rcases captureRow_spec hl hr hlen (sub_le g.columns 0) textBytes with hrow | ⟨textBytes', hrow⟩
    · rw [hrow]
      exact .inl rfl
    rw [hrow]
    simp only [bind, Except.bind]
    rcases ih hrest textBytes' with hrows | hrows
    · rw [hrows]
      exact .inl rfl
    · rw [hrows, map_cons, Grid.row, hr]
      exact .inr rfl

theorem captureRows_small (h : g.Good) {lines : List ℤ} (hls : ∀ line ∈ lines, InBuffer g line)
    (hs : ∀ line r, g.raw.get line = some r → ∀ cell ∈ r.inner, byteLen (glyph cell) ≤ 3) {textBytes : ℕ}
    (ht : textBytes + 3 * (g.columns * lines.length) ≤ maxText) : ∃ rows, captureRows g lines textBytes = .ok rows := by
  induction lines generalizing textBytes with
  | nil => exact ⟨[], rfl⟩
  | cons line lines ih =>
    obtain ⟨hl, hrest⟩ := forall_mem_cons.mp hls
    obtain ⟨r, hr, hlen⟩ := row_of_good h hl
    rw [length_cons, mul_succ] at ht
    obtain ⟨row, textBytes', hrow, hle⟩ := @captureRow_small g line r hl hr hlen (hs line r hr) g.columns 0 textBytes (by omega)
    obtain ⟨rows, hrows⟩ := @ih hrest textBytes' (by omega)
    exact ⟨row :: rows, by rw [captureRows, hrow]; simp only [bind, Except.bind]; rw [hrows]⟩

end

/-! ### Pages -/

section
variable {t : Term} {paletteColor : ℕ → UInt8 × UInt8 × UInt8} {cursor : RenderableCursor}

theorem eq_of_getElem?_lineRange {a b line : ℤ} {i : ℕ} (h : (lineRange a b)[i]? = some line) : line = a + i := by
  rw [lineRange_eq_map, getElem?_map, map_eq_some_iff] at h
  obtain ⟨k, hk, rfl⟩ := h
  obtain ⟨hi, rfl⟩ := List.getElem?_eq_some_iff.mp hk
  rw [getElem_range]

theorem mapM_ok {α β ε : Type} {f : α → Except ε β} {l : List α} (h : ∀ a ∈ l, ∃ b, f a = .ok b) : ∃ bs, l.mapM f = .ok bs := by
  induction l with
  | nil => exact ⟨[], rfl⟩
  | cons a l ih =>
    obtain ⟨⟨b, hb⟩, hl⟩ := forall_mem_cons.mp h
    obtain ⟨bs, hbs⟩ := ih hl
    exact ⟨b :: bs, by rw [mapM_cons, hb, hbs]; rfl⟩

/-- The marks of wrapped lines are read inside the buffer. -/
theorem wrapped_ok (h : t.grid.Good) (hc : 1 ≤ t.columns) {lines : List ℤ} (hls : ∀ line ∈ lines, InBuffer t.grid line) :
    ∃ wrapped, (lines.mapM fun line => do
      let cell ← cellAt t.grid ⟨line, t.columns - 1⟩
      .ok cell.flags.wrapline) = .ok wrapped := by
  refine mapM_ok fun line hl => ?_
  obtain ⟨r, hr, hlen⟩ := row_of_good h (hls line hl)
  have hlt : t.columns - 1 < r.inner.length := by
    rw [hlen]
    exact sub_lt hc Nat.one_pos
  exact ⟨_, by rw [cellAt_eq (hls line hl) hr (getElem?_eq_getElem hlt)]; rfl⟩

/-- The rows that are read, or that there is too much. -/
theorem captureTerminalGrid_spec (h : t.grid.Good) {firstLine : ℤ} {lines : ℕ} (hc : 1 ≤ t.columns)
    (hf : -(t.grid.historySize : ℤ) ≤ firstLine) (hlast : firstLine + lines ≤ t.grid.lines) :
    (∃ message, captureTerminalGrid t paletteColor cursor firstLine lines = .error (.screenTooLarge message)) ∨
      ∃ page, captureTerminalGrid t paletteColor cursor firstLine lines = .ok page ∧
        page.rows = (lineRange firstLine (firstLine + lines)).map fun line => wireRow (t.grid.row line).inner := by
  rw [captureTerminalGrid]
  split
  · exact .inl ⟨_, rfl⟩
  have hls : ∀ line ∈ lineRange firstLine (firstLine + lines), InBuffer t.grid line := fun line hl => by
    rw [mem_lineRange] at hl
    exact ⟨by omega, by omega⟩
  obtain ⟨wrapped, hwr⟩ := wrapped_ok h hc hls
  rcases captureRows_spec h hls 0 with hr | hr
  · refine .inl ⟨"screen glyphs exceed the screen v1 text budget".toList, ?_⟩
    simp only [bind, Except.bind, hr]
    rfl
  · refine .inr ⟨terminalScreen t paletteColor cursor firstLine lines _ wrapped, ?_, rfl⟩
    simp only [bind, Except.bind, hr] at hwr ⊢
    rw [hwr]

/-- Cells with little text are always read. -/
theorem captureTerminalGrid_small (h : t.grid.Good) {firstLine : ℤ} {lines : ℕ} (hc : 1 ≤ t.columns ∧ t.columns ≤ 400)
    (hf : -(t.grid.historySize : ℤ) ≤ firstLine) (hlast : firstLine + lines ≤ t.grid.lines) (hls : 1 ≤ lines ∧ lines ≤ 200)
    (hcs : t.columns * lines ≤ 40000)
    (hs : ∀ line r, t.grid.raw.get line = some r → ∀ cell ∈ r.inner, byteLen (glyph cell) ≤ 3) :
    ∃ page, captureTerminalGrid t paletteColor cursor firstLine lines = .ok page := by
  have hin : ∀ line ∈ lineRange firstLine (firstLine + lines), InBuffer t.grid line := fun line hl => by
    rw [mem_lineRange] at hl
    exact ⟨by omega, by omega⟩
  obtain ⟨wrapped, hwr⟩ := wrapped_ok h hc.1 hin
  have hlen : (lineRange firstLine (firstLine + lines)).length = lines := by
    rw [length_lineRange]
    omega
  obtain ⟨rows, hr⟩ := @captureRows_small t.grid h _ hin hs 0 (by
    rw [hlen]
    have : t.grid.columns * lines ≤ 40000 := hcs
    rw [maxText]
    omega)
  rw [captureTerminalGrid, if_neg (by omega)]
  refine ⟨terminalScreen t paletteColor cursor firstLine lines rows wrapped, ?_⟩
  simp only [bind, Except.bind, hr] at hwr ⊢
  rw [hwr]

/-- How many rows a page has. -/
def pageRows (t : Term) (requestedRows : ℕ) : ℕ :=
  if t.mode.altScreen then t.screenLines else min (min requestedRows (40000 / t.columns)) t.grid.raw.len

/-- The number of the first row of a page. -/
def pageFirst (t : Term) (start : Option ℕ) (requestedRows : ℕ) : ℕ :=
  let stop := t.grid.scrolledOut + t.grid.historySize + t.screenLines
  if t.mode.altScreen then t.grid.scrolledOut + t.grid.historySize
  else max t.grid.scrolledOut (min (start.getD (stop - pageRows t requestedRows)) (max (stop - pageRows t requestedRows) t.grid.scrolledOut))

/-- What a page is of a grid. -/
structure IsPage (g : Grid Cell) (page : RuntimeTerminalScreen) (history : RuntimeScreenHistory) : Prop where
  history_eq : page.history = some history
  oldest_eq : history.oldest = g.scrolledOut
  stop_eq : history.stop = g.scrolledOut + g.historySize + g.lines
  oldest_le : history.oldest ≤ history.first
  le_stop : history.first + page.rows.length ≤ history.stop
  widths : ∀ row ∈ page.rows, (row.map WireCell.width).sum = g.columns
  rows_eq : ∀ i row, page.rows[i]? = some row → ∃ r, rowAt g (history.first + i) = some r ∧ row = wireRow r.inner

variable {start : Option ℕ} {requestedRows : ℕ}

theorem len_eq (h : t.grid.Good) : t.grid.raw.len = t.screenLines + t.grid.historySize := h.inv.sized.len_eq

/-- The rows of a page are in the buffer. -/
theorem pageFirst_le (h : t.grid.Good) : t.grid.scrolledOut ≤ pageFirst t start requestedRows ∧
    pageFirst t start requestedRows + pageRows t requestedRows ≤ t.grid.scrolledOut + t.grid.historySize + t.screenLines := by
  have hl := len_eq h
  rw [pageFirst, pageRows]
  by_cases ha : t.mode.altScreen = true
  · rw [if_pos ha, if_pos ha]
    omega
  · rw [if_neg ha, if_neg ha]
    omega

theorem captureTerminalHistory_eq (hc : 1 ≤ t.columns ∧ t.columns ≤ 400) (hr : 1 ≤ requestedRows ∧ requestedRows ≤ 200) :
    captureTerminalHistory t paletteColor cursor start requestedRows = (captureTerminalGrid t paletteColor cursor
        ((pageFirst t start requestedRows : ℤ) - (t.grid.scrolledOut + t.grid.historySize : ℕ)) (pageRows t requestedRows)).map fun screen =>
          { screen with
            history := some
              { first := pageFirst t start requestedRows
                oldest := t.grid.scrolledOut
                stop := t.grid.scrolledOut + t.grid.historySize + t.screenLines
                liveStart := t.grid.scrolledOut + t.grid.historySize
                liveRows := t.screenLines
                applicationScroll := t.mode.altScreen } } := by
  rw [captureTerminalHistory, if_neg (by omega)]
  rfl

/-- **A page is made of the rows of the buffer that it names, or it is too large to be sent.** -/
theorem captureTerminalHistory_spec (h : t.grid.Good) (hcol : 1 ≤ t.columns ∧ t.columns ≤ 400)
    (hrows : 1 ≤ requestedRows ∧ requestedRows ≤ 200) :
    (∃ message, captureTerminalHistory t paletteColor cursor start requestedRows = .error (.screenTooLarge message)) ∨
      ∃ page history, captureTerminalHistory t paletteColor cursor start requestedRows = .ok page ∧ IsPage t.grid page history ∧
        history.first = pageFirst t start requestedRows ∧ page.rows.length = pageRows t requestedRows := by
  obtain ⟨hold, hsp⟩ := @pageFirst_le t start requestedRows h
  have hls : t.screenLines = t.grid.lines := rfl
  rw [captureTerminalHistory_eq hcol hrows]
  rcases @captureTerminalGrid_spec t paletteColor cursor h ((pageFirst t start requestedRows : ℤ) -
    (t.grid.scrolledOut + t.grid.historySize : ℕ))
      (pageRows t requestedRows) hcol.1 (by omega) (by omega) with ⟨message, hc⟩ | ⟨page, hc, hpage⟩
  · rw [hc]
    exact .inl ⟨message, rfl⟩
  rw [hc]
  have hlen : page.rows.length = pageRows t requestedRows := by
    rw [hpage, length_map, length_lineRange]
    omega
  have hl : ∀ i row, page.rows[i]? = some row → ∃ r, r.inner.length = t.grid.columns ∧ row = wireRow r.inner ∧
      rowAt t.grid (pageFirst t start requestedRows + i) = some r := by
    intro i row hrow
    rw [hpage, getElem?_map, map_eq_some_iff] at hrow
    obtain ⟨line, hl, rfl⟩ := hrow
    have hrg := mem_lineRange.mp (mem_of_getElem? hl)
    have hat := eq_of_getElem?_lineRange hl
    obtain ⟨r, hr, hw⟩ := @row_of_good t.grid line h ⟨by omega, by omega⟩
    have hn : line = ((pageFirst t start requestedRows + i : ℕ) : ℤ) - t.grid.scrolledOut - t.grid.historySize := by
      omega
    refine ⟨r, hw, by rw [Grid.row, hr]; rfl, ?_⟩
    rw [rowAt, ← hn]
    exact hr
  refine .inr ⟨_, _, rfl, ⟨rfl, rfl, rfl, hold, ?_, fun row hrow => ?_, fun i row hrow => ?_⟩, rfl, hlen⟩
  · show pageFirst t start requestedRows + page.rows.length ≤ _
    rw [hlen]
    exact hsp
  · obtain ⟨i, hi⟩ := getElem?_of_mem hrow
    obtain ⟨r, hw, rfl, -⟩ := hl i row hi
    rw [sum_wireRow, hw]
  · obtain ⟨r, -, hwire, hr⟩ := hl i row hrow
    exact ⟨r, hr, hwire⟩

/-- The page of a number has it, if the pages begin no further apart than they have rows. -/
theorem pageFirst_covers (h : t.grid.Good) (halt : t.mode.altScreen = false) {n a : ℕ} (hp : 1 ≤ n)
    (hn : n ≤ pageRows t requestedRows) (ha : t.grid.scrolledOut ≤ a)
    (hsp : a < t.grid.scrolledOut + t.grid.historySize + t.screenLines) :
    pageFirst t (some (t.grid.scrolledOut + (a - t.grid.scrolledOut) / n * n)) requestedRows ≤ a ∧
      a < pageFirst t (some (t.grid.scrolledOut + (a - t.grid.scrolledOut) / n * n)) requestedRows + pageRows t requestedRows := by
  have hl := len_eq h
  have hle : pageRows t requestedRows ≤ t.grid.raw.len := by
    rw [pageRows, halt, if_neg Bool.false_ne_true]
    exact Nat.min_le_right _ _
  have hd := div_add_mod (a - t.grid.scrolledOut) n
  have hm := mod_lt (a - t.grid.scrolledOut) hp
  rw [Nat.mul_comm] at hd
  rw [pageFirst, halt, if_neg Bool.false_ne_true, getD_some]
  generalize pageRows t requestedRows = rows at hn hle ⊢
  generalize (a - t.grid.scrolledOut) / n * n = k at hd ⊢
  omega

/-- Pages of cells with little text can always be sent from the main screen. -/
theorem captureTerminalHistory_small (h : t.grid.Good) (ha : t.mode.altScreen = false)
    (hc : 1 ≤ t.columns ∧ t.columns ≤ 400) (hr : 1 ≤ requestedRows ∧ requestedRows ≤ 200)
    (hs : ∀ line r, t.grid.raw.get line = some r → ∀ cell ∈ r.inner, byteLen (glyph cell) ≤ 3) :
    ∃ page, captureTerminalHistory t paletteColor cursor start requestedRows = .ok page := by
  obtain ⟨hold, hsp⟩ := @pageFirst_le t start requestedRows h
  have hls : t.screenLines = t.grid.lines := rfl
  have hp := h.inv.lines_pos
  have hl := len_eq h
  have hd : 1 ≤ 40000 / t.columns := (Nat.one_le_div_iff (by omega)).mpr (by omega)
  have hm : t.columns * (40000 / t.columns) ≤ 40000 := mul_div_le _ _
  have hrg : 1 ≤ pageRows t requestedRows ∧ pageRows t requestedRows ≤ requestedRows ∧ pageRows t requestedRows ≤ 40000 / t.columns := by
    rw [pageRows, ha, if_neg Bool.false_ne_true]
    omega
  obtain ⟨page, hpage⟩ := @captureTerminalGrid_small t paletteColor cursor h
    ((pageFirst t start requestedRows : ℤ) - (t.grid.scrolledOut + t.grid.historySize : ℕ)) (pageRows t requestedRows) hc
    (by omega) (by omega) ⟨hrg.1, by omega⟩ ((Nat.mul_le_mul_left _ hrg.2.2).trans hm) hs
  rw [captureTerminalHistory_eq hc hr, hpage]
  exact ⟨_, rfl⟩

/-- Pages of one grid agree where they meet. -/
theorem IsPage.agree {g : Grid Cell} {page page' : RuntimeTerminalScreen} {history history' : RuntimeScreenHistory}
    (h : IsPage g page history)
    (h' : IsPage g page' history') {i j : ℕ} (hi : i < page.rows.length) (hj : j < page'.rows.length)
    (hsm : history.first + i = history'.first + j) : page.rows[i]? = page'.rows[j]? := by
  obtain ⟨r, hr, hrow⟩ := h.rows_eq i _ (getElem?_eq_getElem hi)
  obtain ⟨r', hr', hrow'⟩ := h'.rows_eq j _ (getElem?_eq_getElem hj)
  rw [hsm, hr'] at hr
  rw [getElem?_eq_getElem hi, getElem?_eq_getElem hj, hrow, hrow', some.inj hr]

end

/-- **Pages of the history.** In every state of a terminal a page is sent that is made of rows of the buffer, with the numbers that it names, or
it is refused as too large; pages of one state agree where they meet; and on the main screen the pages that begin no further apart than they have
rows have all rows of the buffer between them. -/
theorem history_pages {lines columns history : ℕ} {conpty : Bool} {ops : List TermOp} {t : Term} (hlines : minScreenLines ≤ lines)
    (hcolumns : minColumns ≤ columns) (hcalled : Meets TermOp.step (fun t op => op.Called t) (new lines columns history conpty) ops)
    (hrun : Library.Transition.run TermOp.step (new lines columns history conpty) ops = some t) (hwide : t.columns ≤ 400)
    (paletteColor : ℕ → UInt8 × UInt8 × UInt8) (cursor : RenderableCursor) :
    (∀ start requestedRows, 1 ≤ requestedRows → requestedRows ≤ 200 →
      (∃ message, captureTerminalHistory t paletteColor cursor start requestedRows = .error (.screenTooLarge message)) ∨
        ∃ page history, captureTerminalHistory t paletteColor cursor start requestedRows = .ok page ∧ IsPage t.grid page history ∧
          page.rows.length = pageRows t requestedRows) ∧
    (∀ start requestedRows start' requestedRows' page page' history history',
      captureTerminalHistory t paletteColor cursor start requestedRows = .ok page → page.history = some history →
      captureTerminalHistory t paletteColor cursor start' requestedRows' = .ok page' → page'.history = some history' →
      ∀ i j, i < page.rows.length → j < page'.rows.length → history.first + i = history'.first + j → page.rows[i]? = page'.rows[j]?) ∧
    (t.mode.altScreen = false → ∀ requestedRows n, 1 ≤ requestedRows → requestedRows ≤ 200 → 1 ≤ n → n ≤ pageRows t requestedRows →
      ∀ a, t.grid.scrolledOut ≤ a → a < t.grid.scrolledOut + t.grid.historySize + t.screenLines →
        ∃ k, t.grid.scrolledOut + k * n < t.grid.scrolledOut + t.grid.historySize + t.screenLines ∧ ∀ page history,
          captureTerminalHistory t paletteColor cursor (some (t.grid.scrolledOut + k * n)) requestedRows = .ok page →
          page.history = some history → history.first ≤ a ∧ a < history.first + page.rows.length) := by
  have hnew : (new lines columns history conpty).Sound := sound_new history conpty hlines hcolumns
  have hs := hnew.run hcalled hrun
  have hgood := hs.grid
  have hin : 1 ≤ t.columns ∧ t.columns ≤ 400 := ⟨by have : 2 ≤ t.columns := hs.columns_ge; omega, hwide⟩
  have hspec : ∀ start requestedRows page history, captureTerminalHistory t paletteColor cursor start requestedRows = .ok page →
      page.history = some history → (1 ≤ requestedRows ∧ requestedRows ≤ 200) ∧ IsPage t.grid page history ∧
        history.first = pageFirst t start requestedRows ∧ page.rows.length = pageRows t requestedRows := by
    intro start requestedRows page history hpage hhist
    have hr : 1 ≤ requestedRows ∧ requestedRows ≤ 200 := by
      by_contra hno
      rw [captureTerminalHistory, if_pos (.inr hno)] at hpage
      cases hpage
    rcases @captureTerminalHistory_spec t paletteColor cursor start requestedRows hgood hin hr with
      ⟨message, herr⟩ | ⟨page', history', hok, his, hfst, hlen⟩
    · rw [herr] at hpage
      cases hpage
    · obtain rfl := Except.ok.inj (hok.symm.trans hpage)
      obtain rfl := some.inj (his.history_eq.symm.trans hhist)
      exact ⟨hr, his, hfst, hlen⟩
  refine ⟨?_, ?_, ?_⟩
  · intro start requestedRows hpos hle
    rcases @captureTerminalHistory_spec t paletteColor cursor start requestedRows hgood hin ⟨hpos, hle⟩ with
      herr | ⟨page, history', hok, his, -, hlen⟩
    · exact .inl herr
    · exact .inr ⟨page, history', hok, his, hlen⟩
  · intro start requestedRows start' requestedRows' page page' history history' hpage hhist hpage' hhist' i j hi hj hsm
    obtain ⟨-, his, -⟩ := hspec _ _ _ _ hpage hhist
    obtain ⟨-, his', -⟩ := hspec _ _ _ _ hpage' hhist'
    exact his.agree his' hi hj hsm
  · intro halt requestedRows n hpos hle hn hnle a ha hsp
    have hdiv := div_mul_le_self (a - t.grid.scrolledOut) n
    refine ⟨(a - t.grid.scrolledOut) / n, by omega, fun page history hpage hhist => ?_⟩
    obtain ⟨-, -, hfst, hlen⟩ := hspec _ _ _ _ hpage hhist
    rw [hfst, hlen]
    exact pageFirst_covers hgood halt hn hnle ha hsp

/-- A cursor in the corner. -/
def corner : RenderableCursor := ⟨.origin, false⟩

/-- A palette without colors. -/
def black (_ : ℕ) : UInt8 × UInt8 × UInt8 := (0, 0, 0)

/-- A terminal of one line, with two in its history. -/
def scrolled : Term := (new 1 2 3 false).linefeed.linefeed

/-- A page of a history. -/
theorem history_pages_scrolled : ∃ page history, captureTerminalHistory scrolled black corner (some 0) 2 = .ok page ∧
    IsPage scrolled.grid page history ∧ page.rows.length = 2 := by
  have hpag := (@history_pages 1 2 3 false [.linefeed, .linefeed] scrolled (by decide) (by decide)
    ⟨trivial, fun _ _ => ⟨trivial, fun _ _ => trivial⟩⟩ rfl (by decide) black corner).1 (some 0) 2 (by decide) (by decide)
  rcases hpag with ⟨message, herr⟩ | ⟨page, history, hok, his, hlen⟩
  · have hok : (captureTerminalHistory scrolled black corner (some 0) 2).isOk = true := by decide
    rw [herr] at hok
    cases hok
  · exact ⟨page, history, hok, his, hlen.trans (by decide)⟩

/-- The rows of a new terminal have little text. -/
theorem small_new {lines columns history : ℕ} {line : ℤ} {r : Row Cell} (hr : (new lines columns history false).grid.raw.get line = some r) :
    ∀ cell ∈ r.inner, byteLen (glyph cell) ≤ 3 := by
  intro cell hc
  have hm : r ∈ replicate lines (.new columns) := mem_of_getElem? hr
  rw [eq_of_mem_replicate hm] at hc
  rw [eq_of_mem_replicate hc]
  decide

/-- **Pages that begin as far apart as the rows that were asked for.** With 400 columns a page has at most a hundred rows, and those
that are asked for a hundred and one rows at a time leave out a row. -/
theorem pages_apart : (∀ k, ∃ page, captureTerminalHistory (new 202 400 0 false) black corner (some (k * 101)) 101 = .ok page) ∧
    ¬ ∃ k page history, captureTerminalHistory (new 202 400 0 false) black corner (some (k * 101)) 101 = .ok page ∧
      page.history = some history ∧ history.first ≤ 100 ∧ 100 < history.first + page.rows.length := by
  have hs : (new 202 400 0 false).Sound := sound_new 0 false (by decide) (by decide)
  have hcol : 1 ≤ (new 202 400 0 false).columns ∧ (new 202 400 0 false).columns ≤ 400 := ⟨by decide, by decide⟩
  refine ⟨fun k => captureTerminalHistory_small hs.grid rfl hcol ⟨by decide, by decide⟩ fun _ _ => small_new, ?_⟩
  rintro ⟨k, page, history, hpage, hhist, hle, hlt⟩
  rcases @captureTerminalHistory_spec (new 202 400 0 false) black corner (some (k * 101)) 101 hs.grid hcol ⟨by decide, by decide⟩ with
    ⟨message, herr⟩ | ⟨page', history', hok, his, hfst, hlen⟩
  · rw [herr] at hpage
    cases hpage
  obtain rfl := Except.ok.inj (hok.symm.trans hpage)
  obtain rfl := some.inj (his.history_eq.symm.trans hhist)
  have hr : pageRows (new 202 400 0 false) 101 = 100 := by decide
  have hmin : pageFirst (new 202 400 0 false) (some (k * 101)) 101 = max 0 (min (k * 101) 102) := by
    rw [pageFirst, hr]
    rfl
  rw [hlen, hr] at hlt
  rw [hfst, hmin] at hle hlt
  omega

end Pebrel.Terminal.History
