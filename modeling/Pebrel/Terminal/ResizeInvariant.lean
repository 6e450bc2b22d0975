import Pebrel.Terminal.Invariant

/-!
# The sizes of a grid under a resize

A resize keeps the invariant of a grid, and its display offset ends within the
history. For the loops over the rows this takes two facts about each turn: how
many rows it pushes, and that the cursor's line stays on the screen.
-/

namespace Pebrel.Terminal

open List Option Nat

variable {T : Type}

/-- The cursor's line is on the screen. -/
def OnScreen (lines : ℕ) (cursor : Cursor T) : Prop := 0 ≤ cursor.point.line ∧ cursor.point.line < lines

namespace Grid

theorem Inv.onScreen {g : Grid T} (hi : g.Inv) : OnScreen g.lines g.cursor := ⟨hi.cursor_nonneg, hi.cursor_lt⟩

/-- The rows taken out of the storage of a grid are the logical ones. -/
theorem Inv.length_rows {g : Grid T} (hi : g.Inv) : g.raw.takeAll.2.length = g.lines + g.historySize := by
  have hl := hi.sized.len_eq
  have hle := hi.sized.ok.len_le
  simp only [Storage.takeAll, Storage.truncate, Storage.rezero, length_take, length_rotate]
  omega

end Grid

variable [GridCell T]

/-! ### Growing columns -/

variable {lines columns i : ℕ} {cursor : Cursor T} {reflow : Bool} {st' : ShrinkState T} {row : Row T}

omit [GridCell T] in
theorem onScreen_unwrapCursor (h : OnScreen lines cursor) (reflow : Bool) : OnScreen lines (unwrapCursor reflow cursor) := by
  unfold unwrapCursor
  split <;> exact h

theorem onScreen_growCursor (h : OnScreen lines cursor) (columns : ℕ) (m : Merge T) :
    OnScreen lines (growCursor lines columns cursor m).1 := h

omit [GridCell T] in
theorem onScreen_lowerCursor (h : OnScreen lines cursor) (i : ℕ) : OnScreen lines (lowerCursor lines i cursor) := by
  obtain ⟨h1, h2⟩ := h
  unfold lowerCursor
  split
  · rename_i hi
    unfold cursorBufferLine at hi
    constructor <;> simp only <;> omega
  · exact ⟨h1, h2⟩

/-- A turn of the loop pushes at most one row, and the cursor stays on the screen. -/
theorem growStep_spec {st : GrowState T} (h : OnScreen lines st.cursor) (columns : ℕ) (reflow : Bool) (i : ℕ) (row : Row T) :
    OnScreen lines (growStep lines columns reflow st i row).cursor ∧ (growStep lines columns reflow st i row).done ≠ [] ∧
      (growStep lines columns reflow st i row).done.length ≤ st.done.length + 1 := by
  unfold growStep
  split
  · rename_i hd
    exact ⟨h, by simp, by simp [hd]⟩
  rename_i last done hd
  rw [hd]
  split
  · exact ⟨h, by simp, by simp⟩
  simp only
  split_ifs
  · exact ⟨onScreen_growCursor h columns _, by simp, by simp⟩
  · exact ⟨onScreen_growCursor h columns _, by simp, by simp⟩
  · exact ⟨onScreen_lowerCursor h i, by simp, by simp⟩
  · exact ⟨h, by simp, by simp⟩

theorem growLoop_spec {st : GrowState T} (h : OnScreen lines st.cursor) (columns : ℕ) (reflow : Bool) (rows : List (Row T × ℕ)) :
    OnScreen lines (growLoop lines columns reflow st rows).cursor ∧
      (growLoop lines columns reflow st rows).done.length ≤ st.done.length + rows.length := by
  induction rows with
  | nil => exact ⟨h, le_rfl⟩
  | cons ri rows ih =>
    obtain ⟨hc, hl⟩ := ih
    obtain ⟨hc', -, hl'⟩ := growStep_spec hc columns reflow ri.2 ri.1
    exact ⟨hc', hl'.trans (by rw [length_cons]; omega)⟩

theorem fillViewport_spec {st : GrowState T} (h : OnScreen lines st.cursor) (columns : ℕ) :
    OnScreen lines (fillViewport lines columns st).cursor ∧ (fillViewport lines columns st).done.length = max st.done.length lines := by
  obtain ⟨h1, h2⟩ := h
  unfold fillViewport
  split
  · refine ⟨⟨?_, ?_⟩, ?_⟩ <;> simp only [length_append, length_replicate] <;> omega
  · exact ⟨⟨h1, h2⟩, by omega⟩

omit [GridCell T] in
theorem pullDown_spec {st : GrowState T} (h : OnScreen lines st.cursor) (hl : lines ≤ st.done.length) :
    OnScreen lines (pullDown lines st).cursor ∧ lines ≤ (pullDown lines st).done.length ∧
      (pullDown lines st).done.length ≤ st.done.length := by
  obtain ⟨h1, h2⟩ := h
  unfold pullDown
  split
  · refine ⟨⟨?_, ?_⟩, ?_, ?_⟩ <;> simp only [length_drop] <;> omega
  · exact ⟨⟨h1, h2⟩, hl, le_rfl⟩

namespace Grid

variable {g : Grid T}

/-- The state in which the loop of `grow_columns` ends. -/
def growResult (g : Grid T) (reflow : Bool) (columns : ℕ) : GrowState T :=
  pullDown g.lines (fillViewport g.lines columns (growLoop g.lines columns reflow
    ⟨[], unwrapCursor reflow g.cursor, 0, g.displayOffset⟩ g.raw.takeAll.2.zipIdx))

theorem growResult_spec (hi : g.Inv) (reflow : Bool) (columns : ℕ) :
    OnScreen g.lines (g.growResult reflow columns).cursor ∧ g.lines ≤ (g.growResult reflow columns).done.length ∧
      (g.growResult reflow columns).done.length ≤ g.lines + g.historySize := by
  have hr := hi.length_rows
  have hst : OnScreen g.lines (⟨[], unwrapCursor reflow g.cursor, 0, g.displayOffset⟩ : GrowState T).cursor :=
    onScreen_unwrapCursor hi.onScreen reflow
  obtain ⟨hloop, hl⟩ := growLoop_spec hst columns reflow g.raw.takeAll.2.zipIdx
  rw [length_zipIdx, hr] at hl
  simp only [length_nil, Nat.zero_add] at hl
  obtain ⟨hfl, hf⟩ := fillViewport_spec hloop columns
  obtain ⟨hpull, hle, hge⟩ := pullDown_spec hfl (by rw [hf]; exact Nat.le_max_right _ _)
  refine ⟨hpull, hle, hge.trans ?_⟩
  rw [hf]
  omega

omit [GridCell T] in
/-- The invariant of a grid with new rows and a new cursor. -/
theorem inv_of_rows (hi : g.Inv) (rows : List (Row T)) (hlo : g.lines ≤ rows.length)
    (hhi : rows.length ≤ g.lines + g.maxScrollLimit) {cursor : Cursor T} (hc : OnScreen g.lines cursor)
    (columns offset : ℕ) :
    ({ g with
        columns
        cursor
        raw := g.raw.takeAll.1.replaceInner rows
        displayOffset := offset } : Grid T).Inv ∧
      ({ g with
        columns
        cursor
        raw := g.raw.takeAll.1.replaceInner rows
        displayOffset := offset } : Grid T).historySize = rows.length - g.lines := by
  have hp := hi.lines_pos
  have hne : rows ≠ [] := fun h => by simp [h] at hlo; omega
  have hsz := hi.sized.replaceInner hne
  have hh : ({ g with
      columns
      cursor
      raw := g.raw.takeAll.1.replaceInner rows
      displayOffset := offset } : Grid T).historySize = rows.length - g.lines := rfl
  refine ⟨⟨?_, hp, ?_, hc.1, hc.2⟩, hh⟩
  · rw [hh]
    rw [show rows.length = g.lines + (rows.length - g.lines) by omega] at hsz
    exact hsz
  · rw [hh]
    show rows.length - g.lines ≤ g.maxScrollLimit
    omega

theorem growColumns_spec (hi : g.Inv) (reflow : Bool) (columns : ℕ) : (g.growColumns reflow columns).Inv ∧
      (g.growColumns reflow columns).displayOffset ≤ (g.growColumns reflow columns).historySize := by
  have hle := hi.history_le
  obtain ⟨hc, hlo, hhi⟩ := growResult_spec hi reflow columns
  have hr : ((g.growResult reflow columns).done.map (·.grow columns)).length = (g.growResult reflow columns).done.length := length_map ..
  have hspec := inv_of_rows hi ((g.growResult reflow columns).done.map (·.grow columns))
    (by rw [hr]; exact hlo) (by rw [hr]; omega) hc columns
  exact ⟨(hspec _).1, (Nat.min_le_right _ _).trans_eq ((hspec 0).2.trans (hspec _).2.symm)⟩

end Grid

/-! ### Shrinking columns -/

omit [GridCell T] in
theorem onScreen_shrinkCursor (h : OnScreen lines cursor) (columns i : ℕ) : OnScreen lines (shrinkCursor lines columns i cursor) := by
  obtain ⟨h1, h2⟩ := h
  unfold shrinkCursor
  constructor <;> simp only <;> split <;> omega

/-- Splitting a row pushes at least one row, and the cursor stays on the screen. -/
theorem shrinkRow_spec {fuel : ℕ} (st : ShrinkState T)
    (h : OnScreen lines st.cursor) (hr : shrinkRow lines columns reflow i fuel st row = some st') :
    OnScreen lines st'.cursor ∧ st.done.length < st'.done.length := by
  induction fuel generalizing st row with
  | zero => cases hr
  | succ fuel ih =>
    unfold shrinkRow at hr
    simp only at hr
    split at hr
    · cases hr
      exact ⟨h, lt_succ_self _⟩
    split_ifs at hr
    · cases hr
      exact ⟨h, lt_succ_self _⟩
    · cases hr
      exact ⟨h, lt_succ_self _⟩
    · obtain ⟨hc, hl⟩ := ih _ (onScreen_shrinkCursor h columns i) hr
      exact ⟨hc, (lt_succ_self _).trans hl⟩

theorem shrinkStep_spec {st : ShrinkState T} (h : OnScreen lines st.cursor) (hst : shrinkStep lines columns reflow st i row = some st') :
    OnScreen lines st'.cursor ∧ st.done.length < st'.done.length := by
  unfold shrinkStep at hst
  split at hst
  · exact shrinkRow_spec st h hst
  simp only at hst
  generalize (if (i : ℤ) = cursorBufferLine lines st.cursor then _ else _) = column at hst
  exact shrinkRow_spec { st with
    buffered := none
    cursor := { st.cursor with point := { st.cursor.point with column } } } h hst

theorem shrinkLoop_spec {st : ShrinkState T} {rows : List (Row T × ℕ)}
    (h : OnScreen lines st.cursor) (hloop : shrinkLoop lines columns reflow st rows = some st') :
    OnScreen lines st'.cursor ∧ st.done.length + rows.length ≤ st'.done.length := by
  induction rows generalizing st' with
  | nil =>
    cases hloop
    exact ⟨h, le_rfl⟩
  | cons ri rows ih =>
    obtain ⟨st1, hloop1, hst⟩ := bind_eq_some_iff.mp hloop
    obtain ⟨hc, hl⟩ := ih hloop1
    obtain ⟨hc', hl'⟩ := shrinkStep_spec hc hst
    exact ⟨hc', by rw [length_cons]; omega⟩

namespace Grid

variable {g g' : Grid T} {reflow : Bool} {columns target lines : ℕ} {line : ℤ}

/-- Settling the cursors moves neither the rows nor the display offset. -/
theorem settleCursors_spec (hi : g.Inv) (reflow : Bool) (columns : ℕ) :
    (g.settleCursors reflow columns).Inv ∧ (g.settleCursors reflow columns).historySize = g.historySize ∧
      (g.settleCursors reflow columns).displayOffset = g.displayOffset := by
  refine ⟨?_, rfl, rfl⟩
  have hp := hi.lines_pos
  have hc : OnScreen g.lines (g.settleCursors reflow columns).cursor := by
    unfold settleCursors
    simp only
    split_ifs
    · exact hi.onScreen
    · exact hi.onScreen
    · exact Point.gridClamp_cursor_line (d := g.dims) hp
  exact ⟨hi.sized, hp, hi.history_le, hc.1, hc.2⟩

theorem shrinkColumns_spec (hi : g.Inv) (h : g.shrinkColumns reflow columns = some g') : g'.Inv ∧ g'.displayOffset ≤ g'.historySize := by
  obtain ⟨st, hloop, rfl⟩ := map_eq_some_iff.mp h
  obtain ⟨hc, hl⟩ := shrinkLoop_spec (onScreen_unwrapCursor hi.onScreen reflow) hloop
  have hl : g.lines + g.historySize ≤ st.done.length := by
    have hr := hi.length_rows
    rw [← hr]
    exact (Nat.zero_add _).symm.le.trans ((congrArg _ length_zipIdx.symm).le.trans hl)
  have hle := hi.history_le
  have hr := inv_of_rows hi (st.done.take (g.maxScrollLimit + g.lines))
    (by rw [length_take]; omega) (by rw [length_take]; omega) hc columns
  have hs := settleCursors_spec (hr (min st.displayOffset (Grid.historySize { g with
    columns
    cursor := st.cursor
    raw := g.raw.takeAll.1.replaceInner (st.done.take (g.maxScrollLimit + g.lines)) }))).1 reflow columns
  exact ⟨hs.1, hs.2.2.le.trans ((Nat.min_le_right _ _).trans hs.2.1.ge)⟩

/-! ### Restoring the cursor -/

omit [GridCell T] in
theorem inv_cursor (hi : g.Inv) {cursor : Cursor T} (h : OnScreen g.lines cursor) : ({ g with cursor } : Grid T).Inv :=
  ⟨hi.sized, hi.lines_pos, hi.history_le, h.1, h.2⟩

theorem passLines_le (g : Grid T) (below fuel : ℕ) (stop : ℤ) (seen : ℕ) : ∀ line ∈ g.passLines below fuel stop seen, line ≤ stop := by
  induction fuel generalizing stop seen with
  | zero =>
    intro line h
    exact (mem_some_iff.mp h).ge
  | succ fuel ih =>
    intro line h
    unfold passLines at h
    split at h
    · simp only at h
      split at h
      · cases h
      · exact (ih (stop - 1) _ line h).trans (by omega)
    · exact (mem_some_iff.mp h).ge

theorem walkUp_le (g : Grid T) (fuel : ℕ) (start : ℤ) (offset : ℕ) : (g.walkUp fuel start offset).1 ≤ start := by
  induction fuel generalizing start offset with
  | zero => exact le_rfl
  | succ fuel ih =>
    unfold walkUp
    split
    · exact (ih (start - 1) _).trans (by omega)
    · exact le_rfl

theorem spendOffset_le (g : Grid T) {stop : ℤ} (h : line ≤ stop) (fuel remaining : ℕ) :
    (g.spendOffset stop fuel line remaining).1 ≤ stop := by
  induction fuel generalizing line remaining with
  | zero => exact h
  | succ fuel ih =>
    unfold spendOffset
    split
    · split
      · exact h
      · exact ih (by omega) _
    · exact h

/-- A cursor put back on its content is on the screen. -/
theorem restoreCursorAnchor_spec (hi : g.Inv) (anchor : CursorAnchor) :
    (g.restoreCursorAnchor anchor).Inv ∧ (g.restoreCursorAnchor anchor).historySize = g.historySize ∧
      (g.restoreCursorAnchor anchor).displayOffset = g.displayOffset := by
  have hp := hi.lines_pos
  unfold restoreCursorAnchor
  split
  · exact ⟨hi, rfl, rfl⟩
  rename_i stop hsp
  have hb := passLines_le g _ _ _ _ stop hsp
  have hl := spendOffset_le g (walkUp_le g g.raw.len stop 0) g.raw.len anchor.offset
  refine ⟨inv_cursor hi ⟨Int.le_max_right _ 0, ?_⟩, rfl, rfl⟩
  have : g.dims.bottommostLine = (g.lines : ℤ) - 1 := rfl
  simp only at hl ⊢
  omega

/-! ### Changing the number of lines -/

/-- More visible lines, as rows that are new at the bottom: the history stays. -/
theorem growVisibleLines_inv (hi : g.Inv) (ht : g.lines < target) :
    ({ g with raw := g.raw.growVisibleLines target, lines := target } : Grid T).Inv ∧
      ({ g with raw := g.raw.growVisibleLines target, lines := target } : Grid T).historySize = g.historySize := by
  have hsz : (g.raw.growVisibleLines target).Sized target (target + g.historySize) := by
    rw [show target + g.historySize = g.lines + g.historySize + (target - g.lines) by omega]
    exact hi.sized.growVisibleLines target
  have hh := historySize_of_sized (g := { g with raw := g.raw.growVisibleLines target, lines := target }) hsz
  have hc := hi.cursor_lt
  refine ⟨⟨by rw [hh]; exact hsz, by show 0 < target; omega, by rw [hh]; exact hi.history_le, hi.cursor_nonneg, ?_⟩, hh⟩
  show g.cursor.point.line < (target : ℤ)
  omega

/-- Scrolling up from the top keeps the display offset within the history: the history has
grown as far as the offset has, or both are at the limit. -/
theorem scrollUp_top_offset (hi : g.Inv) (hd : g.displayOffset ≤ g.historySize) (stop : ℤ) (positions : ℕ) :
    (g.scrollUp 0 stop positions).displayOffset ≤ (g.scrollUp 0 stop positions).historySize := by
  have hle := hi.history_le
  rw [scrollUp_displayOffset, scrollUp_historySize hi, if_pos rfl, if_neg fun h => h.2 rfl]
  unfold bumpedOffset
  split <;> omega

theorem growLines_spec (hi : g.Inv) (conpty : Bool) (ht : g.lines < target) :
    (g.growLines conpty target).Inv ∧ (g.displayOffset ≤ g.historySize →
      (g.growLines conpty target).displayOffset ≤ (g.growLines conpty target).historySize) := by
  obtain ⟨hi1, hh1⟩ := growVisibleLines_inv hi ht
  have hc := hi.onScreen
  unfold growLines
  simp only [hh1]
  generalize hfrom : (if conpty = true then 0 else min g.historySize (target - g.lines)) = fromHistory
  have hfrom_le : fromHistory ≤ target - g.lines := by
    rw [← hfrom]
    split <;> omega
  generalize hg2 : (if fromHistory ≠ target - g.lines then
    ({ g with raw := g.raw.growVisibleLines target, lines := target } : Grid T).scrollUp 0 target (target - g.lines - fromHistory)
    else { g with raw := g.raw.growVisibleLines target, lines := target }) = g2
  have hspec : g2.Inv ∧ g2.lines = target ∧ g2.cursor = g.cursor ∧
      (g.displayOffset ≤ g.historySize → g2.displayOffset ≤ g2.historySize) := by
    rw [← hg2]
    split
    · exact ⟨scrollUp_inv hi1 _ _ _, scrollUp_lines .., scrollUp_cursor .., fun hd =>
        scrollUp_top_offset hi1 (by rw [hh1]; exact hd) _ _⟩
    · exact ⟨hi1, rfl, rfl, fun hd => by rw [hh1]; exact hd⟩
  obtain ⟨hi2, hls, hcurs, hd2⟩ := hspec
  have hi3 : ({ g2 with
      savedCursor := { g2.savedCursor with
        point := { g2.savedCursor.point with line := g2.savedCursor.point.line + fromHistory } }
      cursor := { g2.cursor with point := { g2.cursor.point with line := g2.cursor.point.line + fromHistory } }
      displayOffset := g2.displayOffset - (target - g.lines) } : Grid T).Inv := by
    refine ⟨hi2.sized, hi2.lines_pos, hi2.history_le, ?_, ?_⟩
    · have := hi2.cursor_nonneg
      simp only
      omega
    · simp only [hcurs, hls]
      have := hc.2
      omega
  obtain ⟨hinv, hh, ho⟩ := decreaseScrollLimit_inv hi3 (target - g.lines)
  refine ⟨hinv, fun hd => ?_⟩
  have hd2 := hd2 hd
  rw [hh, ho]
  have hsm : ∀ (c s : Cursor T) (d : ℕ), Grid.historySize { g2 with savedCursor := s, cursor := c, displayOffset := d } =
      g2.historySize := fun _ _ _ => rfl
  rw [hsm]
  simp only
  split_ifs <;> omega

omit [GridCell T] in
theorem gridClampLine_cursor {d : Dimensions} (h : 0 ≤ line ∧ line < d.screenLines) : gridClampLine line d .cursor = line := by
  unfold gridClampLine Dimensions.bottommostLine
  simp only
  omega

/-- A shrink scrolls out at least the lines that keep the cursor on the screen. -/
theorem le_shrinkScrollAmount (hi : g.Inv) (conpty : Bool) (target : ℕ) :
    g.cursor.point.line.toNat + 1 - target ≤ g.shrinkScrollAmount conpty target := by
  unfold shrinkScrollAmount
  rw [gridClampLine_cursor (d := g.dims) hi.onScreen]
  simp only
  split
  · exact Nat.le_max_left _ _
  · exact le_rfl

theorem shrinkLines_spec (hi : g.Inv) (conpty : Bool) (hp : 0 < target) (ht : target < g.lines) :
    (g.shrinkLines conpty target).Inv ∧ (g.displayOffset ≤ g.historySize →
      (g.shrinkLines conpty target).displayOffset ≤ (g.shrinkLines conpty target).historySize) := by
  have hs := le_shrinkScrollAmount hi conpty target
  have hc := hi.onScreen
  unfold shrinkLines
  generalize g.shrinkScrollAmount conpty target = required at hs ⊢
  simp only
  generalize hg1 : (if required > 0 then
      { g.scrollUp 0 g.lines required with
        cursor := { (g.scrollUp 0 g.lines required).cursor with
          point := { (g.scrollUp 0 g.lines required).cursor.point with
            line := min ((g.cursor.point.line.toNat - min required g.cursor.point.line.toNat : ℕ) : ℤ) ((target : ℤ) - 1) } } }
    else g) = g1
  have hspec : g1.Inv ∧ g1.lines = g.lines ∧ g1.cursor.point.line < target ∧
      (g.displayOffset ≤ g.historySize → g1.displayOffset ≤ g1.historySize) := by
    rw [← hg1]
    split
    · have hi' := scrollUp_inv hi 0 g.lines required
      refine ⟨inv_cursor hi' ⟨?_, ?_⟩, scrollUp_lines .., ?_, fun hd => scrollUp_top_offset hi hd g.lines required⟩
      · simp only
        omega
      · rw [scrollUp_lines]
        simp only
        omega
      · simp only
        omega
    · refine ⟨hi, rfl, ?_, id⟩
      have := hc.1
      omega
  obtain ⟨hi1, hls, hl, hd1⟩ := hspec
  have hsz : ((g1.raw.rotate ((g1.lines : ℤ) - target)).shrinkVisibleLines target).Sized target (target + g1.historySize) := by
    rw [show target + g1.historySize = g1.lines + g1.historySize - (g1.lines - target) by omega]
    exact (hi1.sized.rotate _).shrinkVisibleLines (by omega)
  have hh : ∀ (saved : Cursor T), Grid.historySize { g1 with
      savedCursor := saved
      raw := (g1.raw.rotate ((g1.lines : ℤ) - target)).shrinkVisibleLines target
      lines := target } = g1.historySize := fun saved => historySize_of_sized (g := { g1 with
        savedCursor := saved
        raw := (g1.raw.rotate ((g1.lines : ℤ) - target)).shrinkVisibleLines target
        lines := target }) hsz
  refine ⟨⟨?_, hp, ?_, hi1.cursor_nonneg, hl⟩, ?_⟩
  · rw [hh]
    exact hsz
  · rw [hh]
    exact hi1.history_le
  · rw [hh]
    exact hd1

/-! ### Resizing -/

theorem resizeLines_spec (hi : g.Inv) (conpty : Bool) (hp : 0 < lines) :
    (g.resizeLines conpty lines).Inv ∧ (g.displayOffset ≤ g.historySize →
      (g.resizeLines conpty lines).displayOffset ≤ (g.resizeLines conpty lines).historySize) := by
  unfold resizeLines
  split_ifs with hgrow hs
  · exact growLines_spec hi conpty hgrow
  · exact shrinkLines_spec hi conpty hp hs
  · exact ⟨hi, id⟩

theorem resizeColumns_spec (hi : g.Inv) (h : g.resizeColumns reflow columns = some g') :
    g'.Inv ∧ (g.displayOffset ≤ g.historySize → g'.displayOffset ≤ g'.historySize) := by
  obtain ⟨g1, hr, rfl⟩ := map_eq_some_iff.mp h
  have hspec : g1.Inv ∧ (g.displayOffset ≤ g.historySize → g1.displayOffset ≤ g1.historySize) := by
    split_ifs at hr
    · cases hr
      obtain ⟨hinv, ho⟩ := growColumns_spec hi (reflow && g.reflowOnGrow) columns
      exact ⟨hinv, fun _ => ho⟩
    · obtain ⟨hinv, ho⟩ := shrinkColumns_spec hi hr
      exact ⟨hinv, fun _ => ho⟩
    · cases hr
      exact ⟨hi, id⟩
  split
  · rename_i anchor _
    obtain ⟨hinv, hh, ho⟩ := restoreCursorAnchor_spec hspec.1 anchor
    exact ⟨hinv, fun hd => by rw [hh, ho]; exact hspec.2 hd⟩
  · exact hspec

/-- A resize that comes to an end keeps the invariant, and the display offset within the
history. -/
theorem resizeImpl_spec (hi : g.Inv) {conpty : Bool} (hp : 0 < lines) (h : g.resizeImpl reflow conpty lines columns = some g') :
    g'.Inv ∧ (g.displayOffset ≤ g.historySize → g'.displayOffset ≤ g'.historySize) := by
  obtain ⟨g1, hr, rfl⟩ := map_eq_some_iff.mp h
  have hi1 : ({ g with cursor := { g.cursor with template := default } } : Grid T).Inv := inv_cursor hi hi.onScreen
  obtain ⟨hi2, hd2⟩ := resizeLines_spec hi1 conpty hp
  obtain ⟨hi3, hd3⟩ := resizeColumns_spec hi2 hr
  exact ⟨inv_cursor hi3 hi3.onScreen, fun hd => hd3 (hd2 hd)⟩

end Grid

end Pebrel.Terminal
