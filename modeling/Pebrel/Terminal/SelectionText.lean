import Mathlib.Data.List.GetD
import Pebrel.Terminal.SelectionRange

/-!
# The text of a selection

`line_to_string` reads a row from its first column, and from the one before it
where that is the spacer of a wide character: there is none before column `0`.
Every other index lies in its row, so that the text of a selection that is not
crossed can be read in a terminal none of whose rows begins with such a spacer.
-/

namespace Pebrel.Terminal

open Grid List Option Selection

/-! ### Lines -/

/-- A row has no more columns of text than columns. -/
theorem Row.lineLength_le (r : Row Cell) (hasGridSource : ℕ → Bool) : r.lineLength hasGridSource ≤ r.len := by
  unfold lineLength
  split
  · exact le_rfl
  · exact (dropWhile_sublist _).length_le.trans_eq length_reverse

namespace Term

variable {t : Term} {line : ℤ} {start stop : ℕ} {hasGridSource : ℕ → Bool} {includeWrappedWide : Bool}

/-- Columns inside a row can be read. -/
theorem columnsToString_isSome (t : Term) {row : List Cell} {columns : List ℕ} (h : ∀ c ∈ columns, c < row.length)
    (tabMode : Bool) : (t.columnsToString row columns tabMode).isSome := by
  induction columns generalizing tabMode with
  | nil => rfl
  | cons column columns ih =>
    have hr : ∀ tabMode, (t.columnsToString row columns tabMode).isSome := ih fun c hc => h c (mem_cons_of_mem column hc)
    rw [columnsToString, getElem?_eq_getElem (h column mem_cons_self)]
    simp only [bind_some]
    split
    · exact hr true
    · rw [isSome_map]
      exact hr _

/-- A line of the buffer has a row of the width of the terminal. -/
theorem exists_row (h : t.grid.Shaped) (h1 : -(t.grid.historySize : ℤ) ≤ line) (h2 : line < t.grid.lines) :
    ∃ r, t.grid.raw.get line = some r ∧ t.grid.row line = r ∧ r.inner.length = t.columns := by
  obtain ⟨r, hr⟩ := isSome_iff_exists.mp (Storage.get_isSome h.inv.sized.ok (h.inv.inRange h1 h2))
  have hrow : t.grid.row line = r := by
    unfold Grid.row
    rw [hr]
    rfl
  have hl : r.inner.length = t.columns := by
    rw [← hrow]
    exact h.row_len h1 h2
  exact ⟨r, hr, hrow, hl⟩

theorem wrappedWide_isSome (h : t.grid.Shaped) (h1 : -(t.grid.historySize : ℤ) ≤ line) {row : List Cell} {lineLength : ℕ}
    (hle : lineLength ≤ row.length) : (t.wrappedWide line row lineLength).isSome := by
  have hc : 0 < t.columns := lt_of_le_of_lt (Nat.zero_le _) h.column_lt
  unfold wrappedWide
  split
  · rw [getElem?_eq_getElem (show lineLength - 1 < row.length by omega)]
    simp only [bind_some]
    split
    · rename_i hb
      have hlt : line < (t.grid.lines : ℤ) - 1 := hb.2
      obtain ⟨r, hr, -, hl⟩ := exists_row h (show -(t.grid.historySize : ℤ) ≤ line + 1 by omega) (by omega)
      rw [hr, bind_some, getElem?_eq_getElem (show 0 < r.inner.length by omega)]
      rfl
    · rfl
  · rfl

/-- Where the columns of a line are inside its row, so is what follows them. -/
theorem newline_isSome (t : Term) {row : List Cell} {lineLength : ℕ} (h : lineLength ≤ row.length) : (if stop ≥ t.columns - 1 then
      if lineLength = 0 then some ['\n']
      else row[lineLength - 1]?.map fun last => if hasWrapline last then [] else ['\n']
    else some []).isSome := by
  split
  · split
    · rfl
    · rw [getElem?_eq_getElem (show lineLength - 1 < row.length by omega)]
      rfl
  · rfl

/-- A line can be read from a column on, unless it begins with a spacer and is read from its start. -/
theorem lineToString_isSome_iff (h : t.grid.Shaped) (h1 : -(t.grid.historySize : ℤ) ≤ line) (h2 : line < t.grid.lines)
    (hst : start < t.columns) :
    (t.lineToString hasGridSource line start stop includeWrappedWide).isSome ↔
      ¬ (start = 0 ∧ (t.grid.cell ⟨line, 0⟩).flags.wideCharSpacer = true) := by
  obtain ⟨r, hr, hrow, hl⟩ := exists_row h h1 h2
  have hleng : min (r.lineLength hasGridSource) (stop + 1) ≤ r.inner.length := (min_le_left _ _).trans (r.lineLength_le hasGridSource)
  have hf : r.inner[start]? = some (t.grid.cell ⟨line, start⟩) := by
    have hg : t.grid.cell ⟨line, start⟩ = r.get start := by rw [← hrow]; rfl
    rw [hg, Row.get, getD_eq_getElem _ _ (by omega), getElem?_eq_getElem (by omega)]
  unfold lineToString
  rw [hr, bind_some, hf, bind_some]
  by_cases hb : start = 0 ∧ (t.grid.cell ⟨line, 0⟩).flags.wideCharSpacer = true
  · obtain ⟨rfl, hs⟩ := hb
    rw [if_pos hs, if_pos rfl]
    exact iff_of_false (by simp) fun hn => hn ⟨rfl, hs⟩
  refine iff_of_true ?_ hb
  obtain ⟨column, hcol⟩ : ∃ column, (if (t.grid.cell ⟨line, start⟩).flags.wideCharSpacer = true then
      if start = 0 then none else some (start - 1) else some start) = some column := by
    split
    · rename_i hs
      rw [if_neg (by rintro rfl; exact hb ⟨rfl, hs⟩)]
      exact ⟨_, rfl⟩
    · exact ⟨_, rfl⟩
  rw [hcol, bind_some]
  obtain ⟨text, ht⟩ := isSome_iff_exists.mp (t.columnsToString_isSome (fun c hc => by
    rw [mem_range'_1] at hc
    omega) false : (t.columnsToString r.inner (range' column (min (r.lineLength hasGridSource) (stop + 1) - column)) false).isSome)
  obtain ⟨newline, hnl⟩ := isSome_iff_exists.mp (t.newline_isSome hleng : (if stop ≥ t.columns - 1 then
    if min (r.lineLength hasGridSource) (stop + 1) = 0 then some ['\n']
    else r.inner[min (r.lineLength hasGridSource) (stop + 1) - 1]?.map fun last => if hasWrapline last then [] else ['\n']
    else some []).isSome)
  rw [ht, bind_some, hnl, bind_some, isSome_map]
  split
  · exact wrappedWide_isSome h h1 hleng
  · rfl

/-! ### Ranges -/

@[simp] theorem linesToString_isSome_iff (f : ℤ → Option (List Char)) (lines : List ℤ) :
    (linesToString f lines).isSome ↔ ∀ line ∈ lines, (f line).isSome := by
  induction lines with
  | nil => simp [linesToString]
  | cons line lines ih =>
    rw [forall_mem_cons, ← ih, linesToString]
    cases f line with
    | none => simp
    | some text => simp

/-- No row of the buffer begins with the spacer of a wide character. -/
def NoLeadingSpacer (t : Term) : Prop :=
  ∀ line : ℤ, -(t.grid.historySize : ℤ) ≤ line → line < t.grid.lines → ¬ (t.grid.cell ⟨line, 0⟩).flags.wideCharSpacer = true

/-- The lines of a range can be read, where none of them begins with a spacer. -/
theorem boundsToString_isSome (h : t.grid.Shaped) (hs : t.NoLeadingSpacer) {a b : Point} (ha : t.grid.InGrid a)
    (hb : t.grid.InGrid b) : (t.boundsToString hasGridSource a b).isSome := by
  unfold boundsToString
  rw [isSome_map, linesToString_isSome_iff]
  intro line hl
  rw [mem_lineRange] at hl
  have h1 : -(t.grid.historySize : ℤ) ≤ line := ha.topmost_le.trans hl.1
  have h2 : line < t.grid.lines := by
    have := hb.line_lt
    omega
  refine (lineToString_isSome_iff h h1 h2 ?_).mpr fun hn => hs line h1 h2 hn.2
  split
  · exact ha.column_lt
  · exact hb.columns_pos

/-- So can the lines of a block. -/
theorem blockToString_isSome (h : t.grid.Shaped) (hs : t.NoLeadingSpacer) {a b : Point} (ha : t.grid.InGrid a)
    (hb : t.grid.InGrid b) : (t.blockToString hasGridSource a b).isSome := by
  have hrd : ∀ (line : ℤ) (wide : Bool), -(t.grid.historySize : ℤ) ≤ line → line < t.grid.lines →
      (t.lineToString hasGridSource line a.column b.column wide).isSome := fun line wide h1 h2 =>
    (lineToString_isSome_iff h h1 h2 ha.column_lt).mpr fun hn => hs line h1 h2 hn.2
  unfold blockToString
  obtain ⟨text, ht⟩ := isSome_iff_exists.mp ((linesToString_isSome_iff (fun line =>
      (t.lineToString hasGridSource line a.column b.column (a.column ≠ 0)).map fun text => trimEnd text ++ ['\n'])
      (lineRange a.line b.line)).mpr fun line hl => by
    rw [mem_lineRange] at hl
    rw [isSome_map]
    exact hrd line _ (ha.topmost_le.trans hl.1) (hl.2.trans hb.line_lt))
  rw [ht, bind_some, isSome_map]
  exact hrd b.line true hb.topmost_le hb.line_lt

/-- The text of a selection whose range is valid can be read, where no row begins with a spacer. -/
theorem selectionToString_isSome (h : t.grid.Shaped) (hs : t.NoLeadingSpacer) {escape : List Char} {s : Selection}
    (hv : ∀ r ∈ s.toRange t.grid escape, r.Valid t.grid) : (t.selectionToString escape hasGridSource s).isSome := by
  unfold selectionToString
  split
  · rfl
  rename_i range hrg
  obtain ⟨ha, hb, -, -⟩ := hv range hrg
  cases s.ty with
  | block => simpa using blockToString_isSome h hs ha hb
  | lines => simpa using boundsToString_isSome h hs ha hb
  | simple => simpa using boundsToString_isSome h hs ha hb
  | semantic => simpa using boundsToString_isSome h hs ha hb

/-- The selection of the first cell of a line. -/
def firstCell (line : ℤ) : Selection := ⟨.simple, ⟨⟨line, 0⟩, .left⟩, ⟨⟨line, 0⟩, .right⟩⟩

theorem toRange_firstCell (h1 : -(t.grid.historySize : ℤ) ≤ line) (h2 : line < t.grid.lines) (escape : List Char)
    (hc : 0 < t.grid.columns) : (firstCell line).toRange t.grid escape = some ⟨⟨line, 0⟩, ⟨line, 0⟩, false⟩ := by
  have hin : t.grid.InGrid ⟨line, 0⟩ := ⟨h1, h2, hc⟩
  have ho : (firstCell line).ordered = (⟨⟨line, 0⟩, .left⟩, ⟨⟨line, 0⟩, .right⟩) := by
    unfold ordered
    exact if_pos ((Point.le_iff ..).mpr (Or.inr ⟨rfl, le_rfl⟩))
  have ht : ¬ line < t.grid.dims.topmostLine := not_lt.mpr h1
  have he : (firstCell line).isEmpty = false := by
    have hty : (firstCell line).ty = .simple := rfl
    unfold Selection.isEmpty
    rw [hty, ho]
    simp
  unfold toRange
  simp only [ho]
  rw [if_neg ht, hin.gridClamp]
  show (firstCell line).rangeSimple _ _ _ = _
  unfold rangeSimple
  rw [he]
  simp

/-- The first cell of a line that begins with a spacer cannot be read. -/
theorem selectionToString_firstCell (h : t.grid.Shaped) (h1 : -(t.grid.historySize : ℤ) ≤ line) (h2 : line < t.grid.lines)
    (escape : List Char) (hspc : (t.grid.cell ⟨line, 0⟩).flags.wideCharSpacer = true) :
    ¬ (t.selectionToString escape hasGridSource (firstCell line)).isSome := by
  have hc : 0 < t.grid.columns := lt_of_le_of_lt (Nat.zero_le _) h.column_lt
  intro hs
  unfold selectionToString at hs
  rw [toRange_firstCell h1 h2 escape hc] at hs
  simp only [firstCell, isSome_map, boundsToString, linesToString_isSome_iff, mem_lineRange] at hs
  have hrd := hs line ⟨le_rfl, by omega⟩
  rw [if_pos rfl, lineToString_isSome_iff h h1 h2 hc] at hrd
  exact hrd ⟨rfl, hspc⟩

/-- **Selections**: the range of a selection inside the grid is inside the grid, and in order, unless the selection is
crossed; the text of every other selection can be read exactly where no row begins with the spacer of a wide character,
which is all that keeps a line from being read. -/
theorem selection_iff (h : t.grid.Shaped) (escape : List Char) (hasGridSource : ℕ → Bool) :
    (∀ s : Selection, s.Inside t.grid → ((∀ r ∈ s.toRange t.grid escape, r.Valid t.grid) ↔ ¬ s.Crossed t.grid escape)) ∧
      ((∀ s : Selection, s.Inside t.grid → ¬ s.Crossed t.grid escape →
        (t.selectionToString escape hasGridSource s).isSome) ↔ t.NoLeadingSpacer) ∧
      ∀ (line : ℤ) (start stop : ℕ) (includeWrappedWide : Bool), -(t.grid.historySize : ℤ) ≤ line → line < t.grid.lines →
        start < t.columns → ((t.lineToString hasGridSource line start stop includeWrappedWide).isSome ↔
          ¬ (start = 0 ∧ (t.grid.cell ⟨line, 0⟩).flags.wideCharSpacer = true)) := by
  have hc : 0 < t.grid.columns := lt_of_le_of_lt (Nat.zero_le _) h.column_lt
  refine ⟨fun s hs => toRange_valid_iff hs escape, ⟨?_, ?_⟩, fun line start stop wide h1 h2 hst =>
    lineToString_isSome_iff h h1 h2 hst⟩
  · intro hrd line h1 h2 hspc
    exact selectionToString_firstCell h h1 h2 escape hspc (hrd (firstCell line) ⟨⟨h1, h2, hc⟩, ⟨h1, h2, hc⟩⟩ (fun hcro => hcro))
  · intro hspc s hs hcro
    exact selectionToString_isSome h hspc ((toRange_valid_iff hs escape).mpr hcro)

/-- A narrow and a wide character. -/
def wideScreen : Term := (Term.new 2 3 10 false).inputs "a你"

theorem wideScreen_shaped : wideScreen.grid.Shaped where
  inv := ⟨⟨⟨by decide, by decide⟩, rfl, rfl⟩, by decide, by decide, by decide, by decide⟩
  column_lt := by decide
  width := show ∀ r ∈ wideScreen.grid.raw.inner, r.len = wideScreen.grid.columns by decide

theorem selection_wide :
    (∀ s : Selection, s.Inside wideScreen.grid →
        ((∀ r ∈ s.toRange wideScreen.grid [' '], r.Valid wideScreen.grid) ↔ ¬ s.Crossed wideScreen.grid [' '])) ∧
      ((∀ s : Selection, s.Inside wideScreen.grid → ¬ s.Crossed wideScreen.grid [' '] →
        (wideScreen.selectionToString [' '] (fun _ => false) s).isSome) ↔ wideScreen.NoLeadingSpacer) :=
  have h := selection_iff wideScreen_shaped [' '] fun _ => false
  ⟨h.1, h.2.1⟩

/-- A wide character of which the first half has been deleted. -/
def cutScreen : Term := (((Term.new 2 3 0 false).input wideFromHan '你').gotoCol 0).deleteChars 1

theorem cutScreen_shaped : cutScreen.grid.Shaped where
  inv := ⟨⟨⟨by decide, by decide⟩, rfl, rfl⟩, by decide, by decide, by decide, by decide⟩
  column_lt := by decide
  width := show ∀ r ∈ cutScreen.grid.raw.inner, r.len = cutScreen.grid.columns by decide

/-- A block whose anchors face each other in the last column starts outside its rows, and the row that begins with
the second half of a character is read from before column `0`. -/
theorem selection_crossed_or_cut :
    (¬ ∀ (t : Term) (escape : List Char) (s : Selection), t.grid.Shaped → s.Inside t.grid →
      ∀ r ∈ s.toRange t.grid escape, r.Valid t.grid) ∧
    (¬ ∀ (t : Term) (escape : List Char) (s : Selection), t.grid.Shaped → s.Inside t.grid → ¬ s.Crossed t.grid escape →
      (t.selectionToString escape (fun _ => false) s).isSome) := by
  constructor
  · intro h
    have hval := h cutScreen [' '] ⟨.block, ⟨⟨0, 2⟩, .right⟩, ⟨⟨1, 2⟩, .left⟩⟩ cutScreen_shaped
      ⟨⟨by decide, by decide, by decide⟩, ⟨by decide, by decide, by decide⟩⟩ ⟨⟨0, 3⟩, ⟨1, 1⟩, true⟩ (by decide)
    exact absurd hval.start_inGrid.column_lt (by decide)
  · intro h
    have hrd := h cutScreen [' '] (firstCell 0) cutScreen_shaped
      ⟨⟨by decide, by decide, by decide⟩, ⟨by decide, by decide, by decide⟩⟩ (fun hcro => hcro)
    exact selectionToString_firstCell cutScreen_shaped (by decide) (by decide) [' '] (by decide) hrd

end Term

end Pebrel.Terminal
