import Mathlib.Data.List.GetD
import Pebrel.Terminal.CellOrder
import Pebrel.Terminal.LineEdits

/-!
# Erasing the screen and the line

What ED and EL name and what `clear_screen` and `clear_line` do. `Term.Clears`
says that the named cells are blank afterwards and that every other cell of the
screen and all of the history is as it was; `Term.ScrollsOut` that the rows up
to the last one with content move into the history. Where a sequence resets
rows, a reset has to leave them blank (`Row.LeftBlank`, see `RowReset`).
-/

namespace Pebrel.Terminal

open List Nat Option Row Storage
open GridCell (isEmpty)

/-! ### Rows that are reset -/

/-- The cells that a reset with the template does not write are blank on its background. -/
def Row.LeftBlank (template : Cell) (r : Row Cell) : Prop :=
  ∀ i c, (if GridCell.discriminantEq (r.get (r.inner.length - 1)) template then r.occ else r.inner.length) ≤ i →
    r.inner[i]? = some c → c = .ofColor template.bg

variable {r : Row Cell} {columns : ℕ}

/-- The cells of a row by their columns. -/
theorem Row.forall_get_iff (hl : r.len = columns) {P : Cell → Prop} : (∀ j < columns, P (r.get j)) ↔ ∀ c ∈ r.inner, P c := by
  subst hl
  have hg : ∀ j (hj : j < r.inner.length), r.get j = r.inner[j] := fun j hj => getD_eq_getElem _ _ hj
  constructor
  · intro h c hc
    obtain ⟨j, hj, rfl⟩ := mem_iff_getElem.mp hc
    rw [← hg j hj]
    exact h j hj
  · intro h j hj
    rw [hg j hj]
    exact h _ (getElem_mem hj)

theorem Row.leftBlank_iff (hl : r.len = columns) (template : Cell) :
    r.LeftBlank template ↔ ∀ j < columns, (r.reset template).get j = Cell.ofColor template.bg := by
  have hrs : (r.reset template).len = columns := (len_reset r template).trans hl
  exact (mem_reset_iff rfl).symm.trans (forall_get_iff hrs).symm

theorem Row.isClear_iff (hl : r.len = columns) : r.isClear = true ↔ ∀ j < columns, isEmpty (r.get j) = true := by
  rw [isClear, List.all_eq_true]
  exact (forall_get_iff hl).symm

theorem nodup_lineRange (a b : ℤ) : (lineRange a b).Nodup := by
  rw [lineRange_eq_map]
  exact nodup_range.map fun i j hij => by simpa using hij

theorem Storage.get_resetLines_of_nodup {s : Storage Cell} {v n : ℕ} (h : s.Sized v n) {template : Cell} {lines : List ℤ}
    {line : ℤ} (hm : line ∈ lines) (hls : ∀ a ∈ lines, s.InRange a) (hnd : lines.Nodup) :
    (s.resetLines template lines).get line = (s.get line).map (·.reset template) := by
  induction lines generalizing s with
  | nil => cases hm
  | cons a lines ih =>
    have ha := hls a mem_cons_self
    have hs := h.modify a (·.reset template)
    obtain ⟨hna, hnd⟩ := nodup_cons.mp hnd
    rcases mem_cons.mp hm with rfl | hin
    · refine (get_resetLines_of_notMem hs ha fun b hb => ⟨hls b (mem_cons_of_mem line hb), ?_⟩).trans (get_modify_self h.ok ha _)
      rintro rfl
      exact hna hb
    · refine (ih hs hin (fun b hb => hls b (mem_cons_of_mem a hb)) hnd).trans (congrArg _ ?_)
      refine get_modify_of_ne h.ok ha (hls line hm) ?_ _
      rintro rfl
      exact hna hin

namespace Grid

variable {g : Grid Cell} {line : ℤ} {a : ℤ}

theorem Inv.modifyRow (hi : g.Inv) (a : ℤ) (f : Row Cell → Row Cell) :
    (g.modifyRow a f).Inv ∧ (g.modifyRow a f).historySize = g.historySize :=
  hi.of_sized (hi.sized.modify a f) hi.history_le g.displayOffset g.scrolledOut

/-- The rows after a write to one of them. -/
theorem Inv.row_modifyRow (hi : g.Inv) (ha : 0 ≤ a ∧ a < g.lines) (h1 : -(g.historySize : ℤ) ≤ line)
    (h2 : line < g.lines) (f : Row Cell → Row Cell) :
    (g.modifyRow a f).row line = if line = a then f (g.row line) else g.row line := by
  split
  · rename_i heq
    subst heq
    exact hi.row_modifyRow_self h1 h2 f
  · rename_i hne
    exact hi.row_modifyRow_of_ne ⟨by omega, ha.2⟩ h1 h2 hne f

/-- The rows after a reset of the lines `a..b`. -/
theorem Inv.row_resetLines (hi : g.Inv) {b : ℤ} (ha : 0 ≤ a) (hb : b ≤ g.lines) (h1 : -(g.historySize : ℤ) ≤ line) (h2 : line < g.lines) :
    (g.resetLines (lineRange a b)).row line =
      if a ≤ line ∧ line < b then (g.row line).reset g.cursor.template else g.row line := by
  have hin : ∀ c ∈ lineRange a b, g.raw.InRange c := by
    intro c hc
    rw [mem_lineRange] at hc
    exact hi.inRange (by omega) (by omega)
  show ((g.raw.resetLines g.cursor.template (lineRange a b)).get line).getD default = _
  split
  · rename_i hm
    rw [get_resetLines_of_nodup hi.sized (mem_lineRange.mpr hm) hin (nodup_lineRange a b)]
    obtain ⟨r, hr⟩ := isSome_iff_exists.mp (get_isSome hi.sized.ok (hi.inRange h1 h2))
    unfold row
    rw [hr]
    rfl
  · rename_i hm
    rw [Storage.get_resetLines_of_notMem hi.sized (hi.inRange h1 h2) fun c hc => ⟨hin c hc, ?_⟩]
    · rfl
    · rintro rfl
      exact hm (mem_lineRange.mp hc)

/-! ### The content of the screen -/

/-- The number of lines among the first ones down to the last that is not clear. -/
def contentAmong (g : Grid Cell) : ℕ → ℕ
  | 0 => 0
  | n + 1 => if (g.row n).isClear then g.contentAmong n else n + 1

/-- The number of visible lines down to the last one that is not clear. -/
def contentLines (g : Grid Cell) : ℕ := g.contentAmong g.lines

/-- By how many lines `clear_viewport` scrolls where there are so many lines of content. -/
def viewportScroll (g : Grid Cell) (content : ℕ) : ℕ :=
  if content = 0 then if g.historySize = 0 then 1 else 0 else content

theorem contentAmong_succ (g : Grid Cell) (n : ℕ) : g.contentAmong (n + 1) = if (g.row n).isClear then g.contentAmong n else n + 1 := rfl

theorem contentAmong_le (g : Grid Cell) (n : ℕ) : g.contentAmong n ≤ n := by
  induction n with
  | zero => exact le_rfl
  | succ n ih =>
    rw [contentAmong_succ]
    split
    · omega
    · exact le_rfl

/-- By how many lines it scrolls when the loop has come back to column `c` of line `l`. -/
def scrollFrom (g : Grid Cell) (l c : ℕ) : ℕ :=
  if ∃ j < c, isEmpty ((g.row l).get j) = false then l + 1 else g.viewportScroll (g.contentAmong l)

theorem scrollFrom_zero (g : Grid Cell) (l : ℕ) : g.scrollFrom l 0 = g.viewportScroll (g.contentAmong l) := by
  unfold scrollFrom
  rw [if_neg]
  rintro ⟨j, hj, -⟩
  omega

theorem scrollFrom_succ (g : Grid Cell) (l c : ℕ) :
    g.scrollFrom l (c + 1) = if isEmpty ((g.row l).get c) then g.scrollFrom l c else l + 1 := by
  unfold scrollFrom
  by_cases hc : isEmpty ((g.row l).get c) = true
  · rw [if_pos hc]
    refine if_congr ⟨?_, ?_⟩ rfl rfl
    · rintro ⟨j, hj, he⟩
      refine ⟨j, lt_of_le_of_ne (Nat.lt_succ_iff.mp hj) ?_, he⟩
      rintro rfl
      rw [hc] at he
      cases he
    · rintro ⟨j, hj, he⟩
      exact ⟨j, hj.trans (lt_succ_self c), he⟩
  · rw [if_neg hc, if_pos ⟨c, lt_succ_self c, by simpa using hc⟩]

theorem scrollFrom_line (h : g.Shaped) {l : ℕ} (hl : l < g.lines) : g.scrollFrom (l + 1) 0 = g.scrollFrom l g.columns := by
  have hclr := isClear_iff (h.row_len (show -(g.historySize : ℤ) ≤ l by omega) (by omega))
  rw [scrollFrom_zero, contentAmong_succ]
  unfold scrollFrom
  by_cases hr : (g.row l).isClear = true
  · have he := hclr.mp hr
    rw [if_pos hr, if_neg]
    rintro ⟨j, hj, hc⟩
    rw [he j hj] at hc
    cases hc
  · have hs : ∃ j < g.columns, isEmpty ((g.row l).get j) = false := by
      by_contra hn
      refine hr (hclr.mpr fun j hj => ?_)
      by_contra hc
      exact hn ⟨j, hj, by simpa using hc⟩
    rw [if_neg hr, if_pos hs]
    rfl

/-- The loop of `clear_viewport` from column `c` of line `l` ends at the last cell before it that is not empty; where
there is none, above the screen, or in its first line where there is no history. -/
theorem lastOccupied_line (h : g.Shaped) (fuel l : ℕ) (it : GridIterator) (hline : it.point.line = l) (hl : l < g.lines)
    (hcol : it.point.column ≤ g.columns) (hlast : it.lastColumn + 1 = g.columns)
    (hfuel : l * g.columns + it.point.column < fuel) :
    ((g.lastOccupied fuel it).point.line + 1).toNat = g.scrollFrom l it.point.column := by
  induction fuel generalizing l it with
  | zero => omega
  | succ fuel ih =>
    have ht : g.dims.topmostLine = -(g.historySize : ℤ) := rfl
    -- the cell stepped to, and the rest of the loop from it
    have hst : ∀ (l c : ℕ), l < g.lines → c < g.columns → l * g.columns + c < fuel →
        ((if (!isEmpty (g.cell ⟨l, c⟩) || decide ((l : ℤ) < 0)) = true then { it with point := ⟨l, c⟩ }
          else g.lastOccupied fuel { it with point := ⟨l, c⟩ }).point.line + 1).toNat = g.scrollFrom l (c + 1) := by
      intro l c hl hc hfuel
      rw [scrollFrom_succ]
      by_cases hcell : isEmpty ((g.row l).get c) = true
      · rw [if_pos hcell, if_neg (by simp [cell, hcell])]
        exact ih l { it with point := ⟨l, c⟩ } rfl hl hc.le hlast hfuel
      · rw [if_neg hcell, if_pos (by simp [cell, hcell])]
        simp
    unfold lastOccupied
    rw [GridIterator.prev_spec (by rw [ht, hline]; omega), ht, hline]
    cases hc : it.point.column with
    | succ c =>
      rw [if_neg (succ_ne_zero c)]
      exact hst l c hl (by omega) (by omega)
    | zero =>
      rw [if_pos rfl]
      cases l with
      | zero =>
        have hz : g.scrollFrom 0 0 = if g.historySize = 0 then 1 else 0 := g.scrollFrom_zero 0
        rw [hz]
        by_cases hh : g.historySize = 0
        · rw [if_pos (by omega), if_pos hh]
          simp [hline]
        · rw [if_neg (by omega), if_neg hh]
          simp
      | succ l =>
        rw [if_neg (by omega), scrollFrom_line h (by omega), show ((l + 1 : ℕ) : ℤ) - 1 = l by omega, ← hlast]
        rw [succ_mul, hc] at hfuel
        exact hst l it.lastColumn (by omega) (by omega) (by omega)

/-- `clear_viewport` scrolls by the lines of content, or by one where there is neither content nor history. -/
theorem clearViewport_eq (h : g.Shaped) : g.clearViewport = (g.scrollUp 0 g.lines (g.viewportScroll g.contentLines)).resetLines
        (lineRange 0 (g.lines - g.viewportScroll g.contentLines : ℕ)) := by
  have hp := h.inv.lines_pos
  have hc : 0 < g.columns := lt_of_le_of_lt (Nat.zero_le _) h.column_lt
  have hl : ((g.lines - 1 : ℕ) : ℤ) = (g.lines : ℤ) - 1 := by omega
  have hscan : ((g.lastOccupied (g.lines * g.columns + 1) (g.iterFrom ⟨g.lines - 1, g.columns⟩)).point.line + 1).toNat =
      g.scrollFrom (g.lines - 1) g.columns := lastOccupied_line h _ (g.lines - 1) _ hl.symm
    (by omega) le_rfl (by show g.columns - 1 + 1 = g.columns; omega) (by
      show (g.lines - 1) * g.columns + g.columns < g.lines * g.columns + 1
      rw [← succ_mul, succ_eq_add_one, Nat.sub_add_cancel hp]
      exact lt_succ_self _)
  have hs : g.scrollFrom (g.lines - 1) g.columns = g.viewportScroll g.contentLines := by
    rw [← scrollFrom_line h (by omega), Nat.sub_add_cancel hp, scrollFrom_zero]
    rfl
  unfold clearViewport
  simp only
  rw [hscan, hs]

/-- The rows after `clear_viewport` has scrolled the content out, before they are reset. -/
def scrolledOutGrid (g : Grid Cell) (positions : ℕ) : Grid Cell :=
  { g with
    raw := g.scrolledRaw g.lines positions
    displayOffset := g.bumpedOffset positions
    scrolledOut := g.scrolledOut + (positions - (g.maxScrollLimit - g.historySize)) }

variable {positions : ℕ}

theorem scrolledOutGrid_inv (hi : g.Inv) (positions : ℕ) : (g.scrolledOutGrid positions).Inv ∧
      (g.scrolledOutGrid positions).historySize = min (g.historySize + positions) g.maxScrollLimit :=
  hi.of_sized (scrolledRaw_sized hi g.lines positions) (Nat.min_le_right _ _) _ _

/-- Rows that all have one width keep it. -/
theorem width_carries (columns : ℕ) : Carries (fun r : Row Cell => r.len = columns) columns :=
  ⟨length_replicate, fun r h => (len_discard r).trans h, fun r template h => (len_reset r template).trans h⟩

theorem scrolledOutGrid_width (h : g.Shaped) (positions : ℕ) : (g.scrolledOutGrid positions).raw.Every fun r => r.len = g.columns := by
  have hg := every_increaseScrollLimit (width_carries g.columns) h.width positions
  rw [increaseScrollLimit_eq] at hg
  exact (Every.rotate (width_carries g.columns) hg _).swapLines _ _

theorem scrolledOutGrid_row_len (h : g.Shaped) (positions : ℕ) (h1 : 0 ≤ line) (h2 : line < g.lines) :
    ((g.scrolledOutGrid positions).row line).len = g.columns := by
  obtain ⟨hi, -⟩ := scrolledOutGrid_inv h.inv positions
  obtain ⟨r, hr⟩ := isSome_iff_exists.mp (get_isSome hi.sized.ok (hi.inRange (by omega) h2))
  show (((g.scrolledOutGrid positions).raw.get line).getD default).len = g.columns
  rw [hr]
  exact scrolledOutGrid_width h positions r (mem_of_getElem? hr)

/-- Scrolled out and reset, the rows of the screen are reset once each, and those of the history
come from the lines below. -/
theorem row_scrolledOut (hi : g.Inv) (hp : positions ≤ g.lines)
    (h1 : -(min (g.historySize + positions) g.maxScrollLimit : ℕ) ≤ line) (h2 : line < g.lines) :
    ((g.scrollUp 0 g.lines positions).resetLines (lineRange 0 (g.lines - positions : ℕ))).row line =
      if 0 ≤ line then ((g.scrolledOutGrid positions).row line).reset g.cursor.template else g.row (line + positions) := by
  obtain ⟨hs, hhist⟩ := scrolledOutGrid_inv hi positions
  have hup : g.scrollUp 0 g.lines positions =
      (g.scrolledOutGrid positions).resetLines (lineRange (g.lines - positions) g.lines) := scrollUp_top_eq g g.lines positions
  have hls : (g.scrolledOutGrid positions).lines = g.lines := rfl
  obtain ⟨hr, hrhi⟩ := resetLines_inv hs (lineRange (g.lines - positions) g.lines)
  have hf := hs.row_resetLines (a := g.lines - positions) (b := g.lines) (by omega) (by rw [hls])
    (show _ ≤ line by rw [hhist]; exact h1) (by rw [hls]; exact h2)
  have hsnd := hr.row_resetLines (a := 0) (b := (g.lines - positions : ℕ)) le_rfl (by
    show ((g.lines - positions : ℕ) : ℤ) ≤ g.lines
    omega) (show _ ≤ line by rw [hrhi, hhist]; exact h1) h2
  rw [hup, hsnd, hf]
  by_cases hn : 0 ≤ line
  · rw [if_pos hn]
    by_cases hnew : (g.lines : ℤ) - positions ≤ line
    · rw [if_neg (by omega), if_pos ⟨hnew, h2⟩]
      rfl
    · rw [if_pos (by omega), if_neg (by omega)]
      rfl
  · rw [if_neg hn, if_neg (by omega), if_neg (by omega)]
    show ((g.scrolledRaw g.lines positions).get line).getD default = (g.raw.get (line + positions)).getD default
    rw [(scrolledRaw_get hi (by omega) le_rfl h1 h2).1 (by omega)]

end Grid

namespace Term

variable {t t' : Term} {line : ℤ}

/-! ### What the sequences name -/

/-- The named cells are blank afterwards; every other cell of the screen and all of the history is
as it was. -/
structure Clears (t t' : Term) (named : ℤ → ℕ → Bool) : Prop where
  historySize_eq : t'.grid.historySize = t.grid.historySize
  history : ∀ line, -(t.grid.historySize : ℤ) ≤ line → line < 0 → t'.grid.row line = t.grid.row line
  cells : ∀ line : ℤ, 0 ≤ line → line < t.grid.lines → ∀ j < t.columns,
    t'.grid.cell ⟨line, j⟩ = if named line j then t.blank else t.grid.cell ⟨line, j⟩

/-- So many rows of the screen have moved into the history, within its limit, and the screen is blank. -/
structure ScrollsOut (t t' : Term) (count : ℕ) : Prop where
  historySize_eq : t'.grid.historySize = min (t.grid.historySize + count) t.grid.maxScrollLimit
  history : ∀ line, -(t'.grid.historySize : ℤ) ≤ line → line < 0 → t'.grid.row line = t.grid.row (line + count)
  cells : ∀ line : ℤ, 0 ≤ line → line < t.grid.lines → ∀ j < t.columns, t'.grid.cell ⟨line, j⟩ = t.blank

/-- ED above: what comes before the cursor, and its cell. -/
def namedAbove (t : Term) (line : ℤ) (j : ℕ) : Bool :=
  decide (line < t.cursor.point.line) || (decide (line = t.cursor.point.line) && decide (j ≤ t.cursor.point.column))

/-- ED below: the cell of the cursor and what comes after it. -/
def namedBelow (t : Term) (line : ℤ) (j : ℕ) : Bool :=
  decide (t.cursor.point.line < line) || (decide (line = t.cursor.point.line) && decide (t.cursor.point.column ≤ j))

/-- EL: the cells of the cursor's line from the cursor, up to it, or all. A cursor with a pending
wrap is past the last column. -/
def namedInLine (t : Term) (mode : LineClearMode) (line : ℤ) (j : ℕ) : Bool :=
  decide (line = t.cursor.point.line) &&
    match mode with
    | .right => !t.cursor.inputNeedsWrap && decide (t.cursor.point.column ≤ j)
    | .left => decide (j ≤ t.cursor.point.column)
    | .all => true

/-! ### When they are met -/

/-- ED above, on line 1: the first line is blank already. Further down: a reset of each line above
leaves it blank. -/
def AboveClears (t : Term) : Prop :=
  (t.cursor.point.line = 1 → ∀ j < t.columns, t.grid.cell ⟨0, j⟩ = t.blank) ∧
    (1 < t.cursor.point.line → ∀ line, 0 ≤ line → line < t.cursor.point.line → (t.grid.row line).LeftBlank t.cursor.template)

/-- ED below: a reset of each line below leaves it blank. -/
def BelowClears (t : Term) : Prop :=
  ∀ line, t.cursor.point.line < line → line < t.grid.lines → (t.grid.row line).LeftBlank t.cursor.template

/-- ED on the alternate screen: a reset of each line leaves it blank. -/
def AllClears (t : Term) : Prop :=
  ∀ line : ℤ, 0 ≤ line → line < t.grid.lines → (t.grid.row line).LeftBlank t.cursor.template

/-- ED on the primary screen: the screen has content, or there is history, or none is kept; and a
reset of each row on the screen once the content has moved out leaves it blank. -/
def ViewportClears (t : Term) : Prop :=
  (t.grid.contentLines = 0 → t.grid.historySize = 0 → t.grid.maxScrollLimit = 0) ∧
    ∀ line : ℤ, 0 ≤ line → line < t.grid.lines →
      ((t.grid.scrolledOutGrid (t.grid.viewportScroll t.grid.contentLines)).row line).LeftBlank t.cursor.template

/-! ### The line of the cursor -/

variable {named : ℤ → ℕ → Bool}

theorem cell_fill (h : t.grid.Shaped) (h1 : -(t.grid.historySize : ℤ) ≤ line) (h2 : line < t.grid.lines) {j : ℕ}
    (hj : j < t.columns) (start stop : ℕ) (value : Cell) :
    ((t.grid.row line).fill start stop value).get j = if start ≤ j ∧ j < stop then value else t.grid.cell ⟨line, j⟩ :=
  getD_fillCells (by rw [show (t.grid.row line).inner.length = _ from h.row_len h1 h2]; exact hj) start stop value default

theorem cursor_line (h : t.grid.Shaped) : 0 ≤ t.cursor.point.line ∧ t.cursor.point.line < t.grid.lines :=
  ⟨h.inv.cursor_nonneg, h.inv.cursor_lt⟩

/-- Filling cells of the cursor's line clears them and nothing else. -/
theorem fill_clears (h : t.grid.Shaped) (start stop : ℕ) (ht : t'.grid = t.grid.modifyRow t.cursor.point.line (·.fill start stop t.blank))
    (hnm : ∀ line, ∀ j < t.columns, named line j = true ↔ line = t.cursor.point.line ∧ start ≤ j ∧ j < stop) :
    t.Clears t' named := by
  have hcur := cursor_line h
  obtain ⟨-, hhist⟩ := h.inv.modifyRow t.cursor.point.line (·.fill start stop t.blank)
  refine ⟨by rw [ht, hhist], fun line h1 h2 => ?_, fun line h1 h2 j hj => ?_⟩
  · rw [ht, h.inv.row_modifyRow hcur h1 (by omega), if_neg (by omega)]
  · show (t'.grid.row line).get j = _
    rw [ht, h.inv.row_modifyRow hcur (by omega) h2]
    by_cases hl : line = t.cursor.point.line
    · rw [if_pos hl, cell_fill h (by omega) h2 hj]
      exact if_congr ⟨fun hc => (hnm line j hj).mpr ⟨hl, hc⟩, fun hn => ((hnm line j hj).mp hn).2⟩ rfl rfl
    · rw [if_neg hl, if_neg fun hn => hl ((hnm line j hj).mp hn).1]
      rfl

theorem clears_refl (t : Term) (ht : t'.grid = t.grid) (hnm : ∀ line, ∀ j < t.columns, named line j = false) : t.Clears t' named := by
  refine ⟨by rw [ht], fun line _ _ => by rw [ht], fun line _ _ j hj => ?_⟩
  rw [ht, hnm line j hj]
  rfl

theorem clearLine_clears (h : t.grid.Shaped) (mode : LineClearMode) : t.Clears (t.clearLine mode) (t.namedInLine mode) := by
  have hc : t.cursor.point.column < t.columns := h.column_lt
  cases mode with
  | right =>
    by_cases hwrap : t.cursor.inputNeedsWrap = true
    · refine clears_refl t ?_ fun line j _ => by simp [namedInLine, hwrap]
      have hn : t.resetInputCluster.clearedColumns .right = none := if_pos hwrap
      unfold clearLine
      simp only [hn]
      rfl
    · refine fill_clears h t.cursor.point.column t.columns ?_ fun line j hj => ?_
      · have hs : t.resetInputCluster.clearedColumns .right = some (t.cursor.point.column, t.columns) := if_neg hwrap
        unfold clearLine
        simp only [hs]
        rfl
      · simp only [namedInLine, Bool.and_eq_true, decide_eq_true_eq, Bool.not_eq_true', Bool.not_eq_true] at hwrap ⊢
        tauto
  | left =>
    refine fill_clears h 0 (t.cursor.point.column + 1) rfl fun line j hj => ?_
    simp only [namedInLine, Bool.and_eq_true, decide_eq_true_eq, Nat.lt_succ_iff, Nat.zero_le, true_and]
  | all =>
    refine fill_clears h 0 t.columns rfl fun line j hj => ?_
    simp only [namedInLine, Bool.and_eq_true, decide_eq_true_eq, Nat.zero_le, true_and, hj]

/-! ### The screen -/

/-- Only the rows of the screen have to be looked at where those of the history are as they were. -/
theorem clears_iff_rows (hh : t'.grid.historySize = t.grid.historySize)
    (hhist : ∀ line, -(t.grid.historySize : ℤ) ≤ line → line < 0 → t'.grid.row line = t.grid.row line)
    :
    t.Clears t' named ↔ ∀ line : ℤ, 0 ≤ line → line < t.grid.lines → ∀ j < t.columns,
      (t'.grid.row line).get j = if named line j then t.blank else t.grid.cell ⟨line, j⟩ :=
  ⟨fun hc => hc.cells, fun hc => ⟨hh, hhist, hc⟩⟩

/-- ED above resets the lines above the cursor, from line 2 on, and fills its line. -/
theorem clearAbove_grid (t : Term) : (t.clearScreen .above).grid =
      (t.grid.resetLines (lineRange 0 (if t.cursor.point.line > 1 then t.cursor.point.line else 0))).modifyRow
        t.cursor.point.line (·.fill 0 (min (t.cursor.point.column + 1) t.columns) t.blank) := by
  unfold clearScreen clearContents
  simp only
  by_cases hl : t.cursor.point.line > 1
  · rw [if_pos hl, if_pos (show t.resetInputCluster.cursor.point.line > 1 from hl)]
    rfl
  · rw [if_neg hl, if_neg (show ¬ t.resetInputCluster.cursor.point.line > 1 from hl)]
    rfl

theorem clearAbove_iff (h : t.grid.Shaped) : t.Clears (t.clearScreen .above) t.namedAbove ↔ t.AboveClears := by
  have hcur := cursor_line h
  have hcol : t.cursor.point.column < t.columns := h.column_lt
  obtain ⟨stop, hsp⟩ : ∃ stop : ℤ, stop = if t.cursor.point.line > 1 then t.cursor.point.line else 0 := ⟨_, rfl⟩
  have hgrid := t.clearAbove_grid
  rw [← hsp] at hgrid
  obtain ⟨hi, hhist⟩ := Grid.resetLines_inv h.inv (lineRange 0 stop)
  obtain ⟨-, hhist'⟩ := hi.modifyRow t.cursor.point.line (·.fill 0 (min (t.cursor.point.column + 1) t.columns) t.blank)
  have hle : 0 ≤ stop ∧ stop ≤ t.cursor.point.line := by
    rw [hsp]
    split <;> omega
  -- the row at each line afterwards
  have hr : ∀ line, -(t.grid.historySize : ℤ) ≤ line → line < t.grid.lines → (t.clearScreen .above).grid.row line =
      if line = t.cursor.point.line then (t.grid.row line).fill 0 (min (t.cursor.point.column + 1) t.columns) t.blank
      else if 0 ≤ line ∧ line < stop then (t.grid.row line).reset t.cursor.template else t.grid.row line := by
    intro line h1 h2
    rw [hgrid, hi.row_modifyRow hcur (by rw [hhist]; exact h1) h2, h.inv.row_resetLines le_rfl (by omega) h1 h2]
    by_cases hl : line = t.cursor.point.line
    · rw [if_pos hl, if_pos hl, if_neg (by omega)]
    · rw [if_neg hl, if_neg hl]
      rfl
  rw [clears_iff_rows (by rw [hgrid, hhist', hhist]) fun line h1 h2 => by
    rw [hr line h1 (by omega), if_neg (by omega), if_neg (by omega)]]
  have hcurs : ∀ j < t.columns, ((t.clearScreen .above).grid.row t.cursor.point.line).get j =
      if t.namedAbove t.cursor.point.line j then t.blank else t.grid.cell ⟨t.cursor.point.line, j⟩ := by
    intro j hj
    rw [hr _ (by omega) hcur.2, if_pos rfl, cell_fill h (by omega) hcur.2 hj]
    refine if_congr ?_ rfl rfl
    simp only [namedAbove, lt_irrefl, decide_false, Bool.false_or, decide_true, Bool.true_and, decide_eq_true_eq]
    omega
  constructor
  · intro hcle
    refine ⟨fun ho j hj => ?_, fun hlow line h1 h2 => ?_⟩
    · have hc := hcle 0 le_rfl (by omega) j hj
      rw [if_pos (by simp [namedAbove, ho]), hr 0 (by omega) (by omega), if_neg (by omega),
        if_neg (by rw [hsp, if_neg (by omega)]; omega)] at hc
      exact hc
    · refine (leftBlank_iff (h.row_len (by omega) (by omega)) _).mpr fun j hj => ?_
      have hc := hcle line h1 (by omega) j hj
      rw [if_pos (by simp [namedAbove, h2]), hr line (by omega) (by omega), if_neg (by omega),
        if_pos (by rw [hsp, if_pos hlow]; exact ⟨h1, h2⟩)] at hc
      exact hc
  · rintro ⟨ho, hlow⟩ line h1 h2 j hj
    rcases lt_trichotomy line t.cursor.point.line with hlt | rfl | hgt
    · rw [hr line (by omega) h2, if_neg hlt.ne, if_pos (show t.namedAbove line j = true by simp [namedAbove, hlt])]
      by_cases hs : t.cursor.point.line > 1
      · rw [if_pos (show 0 ≤ line ∧ line < stop by rw [hsp, if_pos hs]; exact ⟨h1, hlt⟩)]
        exact (leftBlank_iff (h.row_len (by omega) h2) _).mp (hlow hs line h1 hlt) j hj
      · rw [if_neg (show ¬ (0 ≤ line ∧ line < stop) by rw [hsp, if_neg hs]; omega)]
        obtain rfl : line = 0 := by omega
        exact ho (by omega) j hj
    · exact hcurs j hj
    · have hnm : ¬ t.namedAbove line j = true := by
        simp only [namedAbove, Bool.or_eq_true, decide_eq_true_eq, Bool.and_eq_true]
        omega
      rw [hr line (by omega) h2, if_neg hgt.ne', if_neg (show ¬ (0 ≤ line ∧ line < stop) by omega), if_neg hnm]
      rfl

/-- ED below fills the cursor's line from the cursor on and resets the lines below it. -/
theorem clearBelow_grid (h : t.grid.Shaped) : (t.clearScreen .below).grid =
      (t.grid.modifyRow t.cursor.point.line (·.fillFrom t.cursor.point.column t.blank)).resetLines
        (lineRange (t.cursor.point.line + 1) t.grid.lines) := by
  have hc := cursor_line h
  have hp := h.inv.lines_pos
  unfold clearScreen clearContents
  simp only
  split
  · rfl
  rename_i hl
  have hl' : ¬ t.cursor.point.line.toNat < t.grid.lines - 1 := hl
  have hn : lineRange (t.cursor.point.line + 1) t.grid.lines = [] := by
    rw [lineRange_eq_map, show ((t.grid.lines : ℤ) - (t.cursor.point.line + 1)).toNat = 0 by omega]
    rfl
  rw [hn]
  rfl

theorem clearBelow_iff (h : t.grid.Shaped) : t.Clears (t.clearScreen .below) t.namedBelow ↔ t.BelowClears := by
  have hcur := cursor_line h
  obtain ⟨hi, hhist⟩ := h.inv.modifyRow t.cursor.point.line (·.fillFrom t.cursor.point.column t.blank)
  obtain ⟨-, hhist'⟩ := Grid.resetLines_inv hi (lineRange (t.cursor.point.line + 1) t.grid.lines)
  have hr : ∀ line, -(t.grid.historySize : ℤ) ≤ line → line < t.grid.lines → (t.clearScreen .below).grid.row line =
      if line = t.cursor.point.line then (t.grid.row line).fillFrom t.cursor.point.column t.blank
      else if t.cursor.point.line < line then (t.grid.row line).reset t.cursor.template else t.grid.row line := by
    intro line h1 h2
    rw [clearBelow_grid h, hi.row_resetLines (show 0 ≤ t.cursor.point.line + 1 by omega)
      (show (t.grid.lines : ℤ) ≤ t.grid.lines from le_rfl) (by rw [hhist]; exact h1) h2, h.inv.row_modifyRow hcur h1 h2]
    by_cases hl : line = t.cursor.point.line
    · rw [if_neg (by omega), if_pos hl, if_pos hl]
    · rw [if_neg hl, if_neg hl]
      exact if_congr (by omega) rfl rfl
  rw [clears_iff_rows (by rw [clearBelow_grid h, hhist', hhist]) fun line h1 h2 => by
    rw [hr line h1 (by omega), if_neg (by omega), if_neg (by omega)]]
  constructor
  · intro hcle line h1 h2
    refine (leftBlank_iff (h.row_len (by omega) (by omega)) _).mpr fun j hj => ?_
    have hcell := hcle line (by omega) h2 j hj
    rw [if_pos (by simp [namedBelow, h1]), hr line (by omega) h2, if_neg (by omega), if_pos h1] at hcell
    exact hcell
  · intro hb line h1 h2 j hj
    rcases lt_trichotomy line t.cursor.point.line with hlt | hl | hgt
    · rw [hr line (by omega) h2, if_neg hlt.ne, if_neg (by omega), if_neg]
      · rfl
      · simp only [namedBelow, Bool.or_eq_true, decide_eq_true_eq, Bool.and_eq_true]
        omega
    · have hlen := h.row_len (show -(t.grid.historySize : ℤ) ≤ line by omega) h2
      rw [hr line (by omega) h2, if_pos hl]
      refine (getD_fillCells (by rw [show (t.grid.row line).inner.length = _ from hlen]; exact hj) _ _ _ _).trans ?_
      refine if_congr ?_ rfl rfl
      rw [hlen]
      simp only [namedBelow, hl, lt_irrefl, decide_false, Bool.false_or, decide_true, Bool.true_and, decide_eq_true_eq]
      exact ⟨fun hc => hc.1, fun hc => ⟨hc, hj⟩⟩
    · rw [hr line (by omega) h2, if_neg hgt.ne', if_pos hgt, if_pos (by simp [namedBelow, hgt])]
      exact (leftBlank_iff (h.row_len (by omega) h2) _).mp (hb line hgt h2) j hj

theorem clearAll_iff (h : t.grid.Shaped) (ha : t.mode.altScreen = true) :
    t.Clears (t.clearScreen .all) (fun _ _ => true) ↔ t.AllClears := by
  have hgrid : (t.clearScreen .all).grid = t.grid.resetLines (lineRange 0 t.grid.lines) := by
    unfold clearScreen clearContents
    simp only
    rw [if_pos (show t.resetInputCluster.mode.altScreen = true from ha)]
    rfl
  have hr : ∀ line, -(t.grid.historySize : ℤ) ≤ line → line < t.grid.lines → (t.clearScreen .all).grid.row line =
      if 0 ≤ line then (t.grid.row line).reset t.cursor.template else t.grid.row line := by
    intro line h1 h2
    rw [hgrid, h.inv.row_resetLines le_rfl le_rfl h1 h2]
    exact if_congr ⟨fun hc => hc.1, fun hc => ⟨hc, h2⟩⟩ rfl rfl
  rw [clears_iff_rows (by rw [hgrid, (Grid.resetLines_inv h.inv _).2]) fun line h1 h2 => by
    rw [hr line h1 (by omega), if_neg (by omega)]]
  refine forall_congr' fun line => forall₂_congr fun h1 h2 => ?_
  rw [leftBlank_iff (h.row_len (by omega) h2), hr line (by omega) h2, if_pos h1]
  rfl

/-- ED on the primary screen moves the content into the history exactly where there is some, or
history to stop at. -/
theorem clearViewport_iff (h : t.grid.Shaped) (ha : t.mode.altScreen = false) :
    t.ScrollsOut (t.clearScreen .all) t.grid.contentLines ↔ t.ViewportClears := by
  have hpos := h.inv.lines_pos
  have hhist := h.inv.history_le
  have hcon : t.grid.contentLines ≤ t.grid.lines := t.grid.contentAmong_le _
  obtain ⟨p, hp⟩ : ∃ p, p = t.grid.viewportScroll t.grid.contentLines := ⟨_, rfl⟩
  have hc : (t.grid.contentLines = 0 ∧ t.grid.historySize = 0 ∧ p = 1) ∨
      ((t.grid.contentLines ≠ 0 ∨ t.grid.historySize ≠ 0) ∧ p = t.grid.contentLines) := by
    rw [hp]
    unfold Grid.viewportScroll
    split
    · split
      · exact .inl ⟨‹_›, ‹_›, rfl⟩
      · exact .inr ⟨.inr ‹_›, by omega⟩
    · exact .inr ⟨.inl ‹_›, rfl⟩
  have hgrid : (t.clearScreen .all).grid = (t.grid.scrollUp 0 t.grid.lines p).resetLines (lineRange 0 (t.grid.lines - p : ℕ)) := by
    rw [hp, ← Grid.clearViewport_eq h]
    unfold clearScreen clearContents
    simp only
    rw [if_neg (show ¬ t.resetInputCluster.mode.altScreen = true from Bool.eq_false_iff.mp ha)]
    rfl
  have hsz : (t.clearScreen .all).grid.historySize = min (t.grid.historySize + p) t.grid.maxScrollLimit := by
    rw [hgrid, (Grid.resetLines_inv (Grid.scrollUp_inv h.inv ..) _).2, Grid.scrollUp_historySize h.inv, if_pos rfl]
  have hr : ∀ line : ℤ, -(min (t.grid.historySize + p) t.grid.maxScrollLimit : ℕ) ≤ line → line < t.grid.lines →
      (t.clearScreen .all).grid.row line =
        if 0 ≤ line then ((t.grid.scrolledOutGrid p).row line).reset t.cursor.template else t.grid.row (line + p) := by
    intro line h1 h2
    rw [hgrid, Grid.row_scrolledOut h.inv (by omega) h1 h2]
    rfl
  -- the screen is blank afterwards where every reset leaves the row blank
  have hscr : (∀ line : ℤ, 0 ≤ line → line < t.grid.lines → ∀ j < t.columns, (t.clearScreen .all).grid.cell ⟨line, j⟩ = t.blank) ↔
      ∀ line : ℤ, 0 ≤ line → line < t.grid.lines → ((t.grid.scrolledOutGrid p).row line).LeftBlank t.cursor.template := by
    refine forall_congr' fun line => forall₂_congr fun h1 h2 => ?_
    rw [leftBlank_iff (Grid.scrolledOutGrid_row_len h p h1 h2)]
    refine forall₂_congr fun j _ => ?_
    show ((t.clearScreen .all).grid.row line).get j = t.blank ↔ _
    rw [hr line (by omega) h2, if_pos h1]
    rfl
  unfold ViewportClears
  rw [← hp, ← hscr]
  constructor
  · intro ho
    refine ⟨fun hz hn => ?_, ho.cells⟩
    have hsz' := ho.historySize_eq
    rw [hsz] at hsz'
    omega
  · rintro ⟨hs, hcs⟩
    have hsm : min (t.grid.historySize + p) t.grid.maxScrollLimit =
        min (t.grid.historySize + t.grid.contentLines) t.grid.maxScrollLimit := by
      rcases hc with ⟨hz, hn, -⟩ | ⟨-, hsm⟩
      · have := hs hz hn
        omega
      · rw [hsm]
    refine ⟨hsz.trans hsm, fun line h1 h2 => ?_, hcs⟩
    rw [hsz] at h1
    rw [hr line h1 (by omega), if_neg (by omega)]
    rcases hc with ⟨hz, hn, -⟩ | ⟨-, hsm⟩
    · have := hs hz hn
      omega
    · rw [hsm]

/-- **Erasing**: EL blanks the cells it names and changes no other. ED above, ED below and ED on the
alternate screen do so exactly where every row that they reset is left blank and, on line 1, the
line above is blank already; on the primary screen ED moves the content into the history exactly
where, besides, an empty screen has a history or cannot have one. -/
theorem erase_iff (h : t.grid.Shaped) :
    (∀ mode, t.Clears (t.clearLine mode) (t.namedInLine mode)) ∧
      (t.Clears (t.clearScreen .above) t.namedAbove ↔ t.AboveClears) ∧
      (t.Clears (t.clearScreen .below) t.namedBelow ↔ t.BelowClears) ∧
      (t.mode.altScreen = true → (t.Clears (t.clearScreen .all) (fun _ _ => true) ↔ t.AllClears)) ∧
      (t.mode.altScreen = false → (t.ScrollsOut (t.clearScreen .all) t.grid.contentLines ↔ t.ViewportClears)) :=
  ⟨clearLine_clears h, clearAbove_iff h, clearBelow_iff h, clearAll_iff h, clearViewport_iff h⟩

theorem erase_filledScreen :
    filledScreen.Clears (filledScreen.clearScreen .above) filledScreen.namedAbove ∧
      filledScreen.Clears (filledScreen.clearScreen .below) filledScreen.namedBelow := by
  obtain ⟨-, hab, hbel, -⟩ := erase_iff filledScreen_shaped
  have hl : filledScreen.cursor.point.line = 0 := by decide
  refine ⟨hab.mpr ⟨fun h => ?_, fun h => ?_⟩, hbel.mpr fun line h1 h2 => ?_⟩
  · rw [hl] at h
    exact absurd h (by decide)
  · rw [hl] at h
    exact absurd h (by decide)
  · rw [hl] at h1
    have hls : line < 1 := h2
    omega

/-- Two lines full of `E`, and the cursor in the second one. -/
def filledLines : Term := (Term.new 2 3 0 false).decaln.gotoLine 1

theorem filledLines_shaped : filledLines.grid.Shaped where
  inv := ⟨⟨⟨by decide, by decide⟩, rfl, rfl⟩, by decide, by decide, by decide, by decide⟩
  column_lt := by decide
  width := show ∀ r ∈ filledLines.grid.raw.inner, r.len = filledLines.grid.columns by decide

/-- On line 1 ED above leaves the first line; on an empty screen ED moves a row into the history. -/
theorem erase_misses_and_moves :
    (¬ ∀ t : Term, t.grid.Shaped → t.Clears (t.clearScreen .above) t.namedAbove) ∧
      ¬ ∀ t : Term, t.grid.Shaped → t.mode.altScreen = false → t.ScrollsOut (t.clearScreen .all) t.grid.contentLines := by
  constructor
  · intro h
    exact absurd ((h filledLines filledLines_shaped).cells 0 le_rfl (by decide) 0 (by decide)) (by decide)
  · intro h
    exact absurd (h (Term.new 1 1 5 false) (Grid.new_shaped (by decide) (by decide) 5) rfl).historySize_eq (by decide)

end Term

end Pebrel.Terminal
