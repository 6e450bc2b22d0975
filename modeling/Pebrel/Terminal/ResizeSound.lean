import Pebrel.Terminal.GridLaws

/-!
# What a resize keeps

A resize makes new rows of the cells of the old ones. They have the new width,
the cells past their bound are blank, and a cell is transient only where it was
before, so that a grid is as good (`Grid.Good`) after a resize as it was.
-/

namespace Pebrel.Terminal

open List Option Nat

/-! ### Cells -/

namespace Cell

/-- A cell that a grid may hold. -/
def Allowed (flag : Bool) (c : Cell) : Prop := c.transient = true → flag = true

variable {flag : Bool} {cells : List Cell}

theorem allowed_default : (default : Cell).Allowed flag := nofun

theorem allowed_leadingSpacer : (leadingSpacer : Cell).Allowed flag := nofun

theorem Allowed.insertWrapline {c : Cell} (h : c.Allowed flag) : (Terminal.insertWrapline c).Allowed flag := h

theorem Allowed.removeWrapline {c : Cell} (h : c.Allowed flag) : (Terminal.removeWrapline c).Allowed flag := h

/-- The last cell is written. -/
theorem allowed_modifyLastCell (h : ∀ c ∈ cells, c.Allowed flag) {f : Cell → Cell}
    (hf : ∀ c, c.Allowed flag → (f c).Allowed flag) : ∀ c ∈ modifyLastCell cells f, c.Allowed flag := by
  intro c hc
  rcases Row.mem_modify hc with hc | ⟨d, hd, rfl⟩
  · exact h c hc
  · exact hf d (h d hd)

end Cell

/-! ### Rows -/

namespace Row

variable {flag : Bool} {r : Row Cell} {cells : List Cell}

/-- Cells of which those past the bound were past it already, or are blank. -/
theorem Tracked.of_tail (h : r.Tracked flag) {occ : ℕ}
    (htl : ∀ i c, occ ≤ i → cells[i]? = some c → c.Blank ∨ ∃ j, r.occ ≤ j ∧ r.inner[j]? = some c)
    (hcs : ∀ c ∈ cells, c.Allowed flag) : (⟨cells, occ⟩ : Row Cell).Tracked flag := by
  refine ⟨fun i c hi hc => ?_, hcs⟩
  rcases htl i c hi hc with hbl | ⟨j, hj, hc⟩
  · exact hbl
  · exact h.blank j c hj hc

theorem Tracked.appendFront (h : r.Tracked flag) (hcs : ∀ c ∈ cells, c.Allowed flag) : (r.appendFront cells).Tracked flag := by
  refine h.of_tail (fun i c hi hc => .inr ⟨i - cells.length, by omega, ?_⟩) fun c hc => ?_
  · rwa [getElem?_append_right (by omega)] at hc
  · exact (mem_append.mp hc).elim (hcs c) (h.transient c)

theorem Tracked.frontSplitOff (h : r.Tracked flag) (n : ℕ) :
    (r.frontSplitOff n).1.Tracked flag ∧ ∀ c ∈ (r.frontSplitOff n).2, c.Allowed flag := by
  refine ⟨h.of_tail (fun i c hi hc => .inr ⟨n + i, by omega, ?_⟩) fun c hc => h.transient c (mem_of_mem_drop hc),
    fun c hc => h.transient c (mem_of_mem_take hc)⟩
  rwa [getElem?_drop] at hc

/-- A row cut to a width, and the cells cut off. -/
theorem Tracked.shrinkWithMinimum (h : r.Tracked flag) (columns minimum : ℕ) : (r.shrinkWithMinimum columns minimum).1.Tracked flag ∧
      ∀ wrapped ∈ (r.shrinkWithMinimum columns minimum).2, ∀ c ∈ wrapped, c.Allowed flag := by
  unfold Row.shrinkWithMinimum
  split
  · exact ⟨h, nofun⟩
  refine ⟨h.of_tail (fun i c hi hc => .inr ⟨i, ?_, ?_⟩) fun c hc => h.transient c (mem_of_mem_take hc), ?_⟩
  · have := (List.getElem?_eq_some_iff.mp hc).1
    rw [length_take] at this
    omega
  · have := (List.getElem?_eq_some_iff.mp hc).1
    rw [length_take] at this
    rwa [getElem?_take_of_lt (by omega)] at hc
  · intro wrapped hwr c hc
    simp only at hwr
    split at hwr
    · cases hwr
    · cases hwr
      exact h.transient c (mem_of_mem_drop (mem_of_mem_take hc))

theorem len_shrinkWithMinimum (r : Row Cell) (columns minimum : ℕ) : (r.shrinkWithMinimum columns minimum).1.len = min r.len columns := by
  unfold Row.shrinkWithMinimum
  split
  · rename_i hle
    exact (Nat.min_eq_left hle).symm
  · exact (length_take ..).trans (Nat.min_comm ..)

theorem Tracked.grow (h : r.Tracked flag) (columns : ℕ) : (r.grow columns).Tracked flag := by
  unfold Row.grow
  split
  · exact h
  refine h.of_tail (fun i c hi hc => ?_) fun c hc => ?_
  · rw [getElem?_append] at hc
    split at hc
    · exact .inr ⟨i, hi, hc⟩
    · rw [eq_of_mem_replicate (mem_of_getElem? hc)]
      exact Or.inl Cell.blank_default
  · rcases mem_append.mp hc with hc | hc
    · exact h.transient c hc
    · rw [eq_of_mem_replicate hc]
      exact Cell.allowed_default

theorem len_grow (r : Row Cell) (columns : ℕ) : (r.grow columns).len = max r.len columns := by
  unfold Row.grow len
  split
  · omega
  · simp only [length_append, length_replicate]
    omega

/-- Cells cut off, in a row of their own. -/
theorem tracked_wrappedRow (columns : ℕ) {wrapped : List Cell} (h : ∀ c ∈ wrapped, c.Allowed flag) :
    (wrappedRow columns wrapped).Tracked flag := by
  refine ⟨fun i c hi hc => ?_, fun c hc => ?_⟩
  · rw [wrappedRow, fromVec, getElem?_append_right hi] at hc
    rw [eq_of_mem_replicate (mem_of_getElem? hc)]
    exact Cell.blank_default
  · rcases mem_append.mp hc with hc | hc
    · exact h c hc
    · rw [eq_of_mem_replicate hc]
      exact Cell.allowed_default

theorem le_len_wrappedRow (columns : ℕ) (wrapped : List Cell) : columns ≤ (wrappedRow columns wrapped).len := by
  simp only [wrappedRow, fromVec, len, length_append, length_replicate]
  omega

/-- A row written in full may have cells appended. -/
theorem Tracked.append (h : r.Tracked flag) (hfu : r.inner.length ≤ r.occ)
    (hcs : ∀ c ∈ cells, c.Allowed flag) : (r.append cells).Tracked flag := by
  refine tracked_of_full ?_ fun c hc => (mem_append.mp hc).elim (h.transient c) (hcs c)
  rw [length_append]
  omega

theorem Tracked.get (h : r.Tracked flag) (i : ℕ) : (r.get i).Allowed flag := by
  unfold Row.get
  rw [getD_eq_getElem?_getD]
  cases hc : r.inner[i]? with
  | none => exact Cell.allowed_default
  | some c => exact h.transient c (mem_of_getElem? hc)

end Row

/-! ### Narrower -/

section
variable {flag : Bool} {lines columns : ℕ} {reflow : Bool} {row : Row Cell}
  {wrapped : List Cell} {st st' : ShrinkState Cell} {i : ℕ}

/-- A row cut to the new width, and the cells that go on. -/
theorem tracked_wrappedCells (columns : ℕ) (reflow : Bool) (h : row.Tracked flag) (atCursor : Bool) (cursor : Cursor Cell) :
    (wrappedCells columns reflow atCursor cursor row).1.Tracked flag ∧
      ∀ wrapped ∈ (wrappedCells columns reflow atCursor cursor row).2, ∀ c ∈ wrapped, c.Allowed flag := by
  obtain ⟨hr, hwr⟩ := h.shrinkWithMinimum columns (if reflow && atCursor then cursor.point.column + 1 else 0)
  unfold wrappedCells
  simp only
  generalize row.shrinkWithMinimum columns (if reflow && atCursor then cursor.point.column + 1 else 0) = cut at hr hwr ⊢
  split_ifs
  · exact ⟨hr, hwr⟩
  · exact ⟨hr, by rintro _ ⟨⟩ c hc; cases hc⟩
  · exact ⟨hr, nofun⟩

theorem len_wrappedCells (columns : ℕ) (reflow : Bool) (row : Row Cell) (atCursor : Bool) (cursor : Cursor Cell) :
    (wrappedCells columns reflow atCursor cursor row).1.len = min row.len columns := by
  unfold wrappedCells
  simp only
  split_ifs <;> exact row.len_shrinkWithMinimum _ _

theorem tracked_spaceWideChar (columns : ℕ) (h : row.Tracked flag) (hw : ∀ c ∈ wrapped, c.Allowed flag) :
    (spaceWideChar columns row wrapped).1.Tracked flag ∧ ∀ c ∈ (spaceWideChar columns row wrapped).2, c.Allowed flag := by
  unfold spaceWideChar
  split
  · exact ⟨h.modify _ fun _ _ ht => absurd ht nofun, forall_mem_cons.mpr ⟨h.get _, hw⟩⟩
  · exact ⟨h, hw⟩

theorem len_spaceWideChar (columns : ℕ) (row : Row Cell) (wrapped : List Cell) : (spaceWideChar columns row wrapped).1.len = row.len := by
  unfold spaceWideChar
  split
  · exact Row.len_modify ..
  · rfl

theorem allowed_dropSpacer (h : ∀ c ∈ wrapped, c.Allowed flag) : ∀ c ∈ dropSpacer wrapped, c.Allowed flag := by
  unfold dropSpacer
  split
  · exact Cell.allowed_modifyLastCell (fun c hc => h c (dropLast_subset _ hc)) fun _ => Cell.Allowed.insertWrapline
  · exact h

/-- What the loops hold: rows of the new width, and cells that the grid may have. -/
structure ShrinkState.Good (flag : Bool) (columns : ℕ) (st : ShrinkState Cell) : Prop where
  rows : ∀ r ∈ st.done, r.Sound columns flag
  buffered : ∀ cells ∈ st.buffered, ∀ c ∈ cells, c.Allowed flag

theorem ShrinkState.Good.push (h : st.Good flag columns) {r : Row Cell} (hr : r.Sound columns flag) :
    ∀ r' ∈ r :: st.done, r'.Sound columns flag := forall_mem_cons.mpr ⟨hr, h.rows⟩

/-- Splitting a row pushes rows of the new width. -/
theorem good_shrinkRow {fuel : ℕ} (h : st.Good flag columns) (hr : row.Tracked flag)
    (hlen : columns ≤ row.len) (hst : shrinkRow lines columns reflow i fuel st row = some st') : st'.Good flag columns := by
  induction fuel generalizing st row with
  | zero => cases hst
  | succ fuel ih =>
    have hc := tracked_wrappedCells columns reflow hr (decide ((i : ℤ) = cursorBufferLine lines st.cursor)) st.cursor
    have hwid := len_wrappedCells columns reflow row (decide ((i : ℤ) = cursorBufferLine lines st.cursor)) st.cursor
    rw [Nat.min_eq_right hlen] at hwid
    rw [shrinkRow] at hst
    cases hw : wrappedCells columns reflow (decide ((i : ℤ) = cursorBufferLine lines st.cursor)) st.cursor row with
    | mk cut rest =>
      rw [hw] at hst hc hwid
      cases rest with
      | none =>
        cases hst
        exact ⟨h.push ⟨hwid, hc.1⟩, h.buffered⟩
      | some wrapped =>
        obtain ⟨hs, hcs⟩ := tracked_spaceWideChar columns hc.1 (hc.2 wrapped rfl)
        have hlenS := (len_spaceWideChar columns cut wrapped).trans hwid
        simp only at hst
        generalize spaceWideChar columns cut wrapped = spaced at hst hs hcs hlenS
        have hdr := allowed_dropSpacer hcs
        have hl : (spaced.1.modifyLast insertWrapline).Sound columns flag :=
          ⟨(Row.len_modifyLast ..).trans hlenS, hs.modifyLast fun _ _ ht => Or.inl ht⟩
        split_ifs at hst
        · cases hst
          exact ⟨h.push ⟨(Row.len_modify ..).trans hlenS, hs.modify _ fun _ _ ht => Or.inl ht⟩, h.buffered⟩
        · cases hst
          refine ⟨h.push hl, ?_⟩
          rintro _ ⟨⟩
          exact Cell.allowed_modifyLastCell hdr fun _ => Cell.Allowed.removeWrapline
        · have hnx : ({ st with
              done := spaced.1.modifyLast insertWrapline :: st.done
              cursor := shrinkCursor lines columns i st.cursor
              displayOffset := raiseOffset i st.displayOffset } : ShrinkState Cell).Good flag columns :=
            ⟨h.push hl, h.buffered⟩
          exact ih hnx (Row.tracked_wrappedRow columns hdr) (Row.le_len_wrappedRow columns _) hst

theorem good_shrinkStep (h : st.Good flag columns) (hr : row.Tracked flag)
    (hl : columns ≤ row.len) (hst : shrinkStep lines columns reflow st i row = some st') : st'.Good flag columns := by
  rw [shrinkStep] at hst
  cases hb : st.buffered with
  | none =>
    rw [hb] at hst
    exact good_shrinkRow h hr hl hst
  | some cells =>
    rw [hb] at hst
    simp only at hst
    generalize (if (i : ℤ) = cursorBufferLine lines st.cursor then _ else _) = column at hst
    have hs : ({ st with
        buffered := none
        cursor := { st.cursor with point := { st.cursor.point with column } } } : ShrinkState Cell).Good flag columns :=
      ⟨h.rows, nofun⟩
    refine good_shrinkRow hs (hr.appendFront (h.buffered cells hb)) ?_ hst
    show columns ≤ (cells ++ row.inner).length
    rw [length_append]
    exact hl.trans (Nat.le_add_left _ _)

theorem good_shrinkLoop {rows : List (Row Cell × ℕ)} (h : st.Good flag columns)
    (hrows : ∀ ri ∈ rows, ri.1.Tracked flag ∧ columns ≤ ri.1.len)
    (hst : shrinkLoop lines columns reflow st rows = some st') : st'.Good flag columns := by
  induction rows generalizing st' with
  | nil =>
    cases hst
    exact h
  | cons ri rows ih =>
    obtain ⟨st1, hloop, hstep⟩ := bind_eq_some_iff.mp hst
    obtain ⟨hrow, hl⟩ := hrows ri mem_cons_self
    exact good_shrinkStep (ih (fun r hr => hrows r (mem_cons_of_mem ri hr)) hloop) hrow hl hstep

end

/-! ### Wider -/

section
variable {flag : Bool} {lines columns : ℕ} {reflow : Bool} {last row : Row Cell} {st : GrowState Cell}

/-- The row above a merge is no longer than it was, and written in full. -/
theorem tracked_unwrapped (h : last.Tracked flag) :
    (unwrapped last).Tracked flag ∧ (unwrapped last).inner.length ≤ (unwrapped last).occ ∧ (unwrapped last).len ≤ last.len := by
  have hl : (last.modifyLast removeWrapline).Tracked flag := h.modifyLast fun _ _ ht => Or.inl ht
  have hlen := Row.len_modifyLast last removeWrapline
  unfold unwrapped
  simp only
  split
  · refine ⟨(hl.shrinkWithMinimum _ 0).1, ?_, ?_⟩
    · unfold Row.shrink Row.shrinkWithMinimum
      split
      · exact (congrArg Nat.cast (length_modify ..)).le
      · simp only [length_take, Row.modifyLast, length_modify]
        omega
    · have := (last.modifyLast removeWrapline).len_shrinkWithMinimum ((last.modifyLast removeWrapline).len - 1) 0
      rw [Row.shrink]
      omega
  · exact ⟨hl, (congrArg Nat.cast (length_modify ..)).le, hlen.le⟩

/-- What a merge makes of a row that has room. -/
theorem tracked_mergeRows (hl : last.Tracked flag) (hfu : last.inner.length ≤ last.occ) (hrm : last.len < columns)
    (hr : row.Tracked flag) :
    (mergeRows columns last row).above.Tracked flag ∧ (mergeRows columns last row).above.len ≤ columns ∧
      (mergeRows columns last row).below.Tracked flag ∧ (mergeRows columns last row).below.len ≤ row.len := by
  unfold mergeRows
  simp only
  split
  · obtain ⟨hb, hcs⟩ := hr.frontSplitOff (min row.len (columns - last.len) - 1)
    refine ⟨hl.append hfu fun c hc => ?_, ?_, hb, ?_⟩
    · rcases mem_append.mp hc with hc | hc
      · exact hcs c hc
      · rw [mem_singleton.mp hc]
        exact Cell.allowed_leadingSpacer
    · simp only [Row.append, Row.frontSplitOff, Row.len, length_append, length_take, length_singleton] at hrm ⊢
      omega
    · exact (length_drop ..).trans_le (sub_le _ _)
  · obtain ⟨hb, hcs⟩ := hr.frontSplitOff (min row.len (columns - last.len))
    refine ⟨hl.append hfu hcs, ?_, hb, ?_⟩
    · simp only [Row.append, Row.frontSplitOff, Row.len, length_append, length_take] at hrm ⊢
      omega
    · exact (length_drop ..).trans_le (sub_le _ _)

/-- Rows that are no longer than the new width. -/
def GoodRows (flag : Bool) (columns : ℕ) (rows : List (Row Cell)) : Prop := ∀ r ∈ rows, r.Tracked flag ∧ r.len ≤ columns

/-- A turn of the loop makes no longer rows. -/
theorem good_growStep (h : GoodRows flag columns st.done) (i : ℕ) (hrow : row.Tracked flag)
    (hlen : row.len ≤ columns) : GoodRows flag columns (growStep lines columns reflow st i row).done := by
  rw [growStep]
  cases hst : st.done with
  | nil => exact forall_mem_cons.mpr ⟨⟨hrow, hlen⟩, nofun⟩
  | cons last done =>
    rw [hst] at h
    obtain ⟨⟨hl, hlas⟩, hd⟩ := forall_mem_cons.mp h
    simp only
    by_cases href : shouldReflow reflow columns last
    · have hrm : last.len < columns := by
        simp only [shouldReflow, Bool.and_eq_true, decide_eq_true_eq] at href
        exact href.1.2
      obtain ⟨hun, hfu, hle⟩ := tracked_unwrapped hl
      obtain ⟨hab, ha, hb, hbelo⟩ := tracked_mergeRows hun hfu (hle.trans_lt hrm) hrow
      have hm : GoodRows flag columns ((mergeRows columns (unwrapped last) row).above :: done) := forall_mem_cons.mpr ⟨⟨hab, ha⟩, hd⟩
      have hwr : ((mergeRows columns (unwrapped last) row).above.modifyLast insertWrapline).Tracked flag ∧
          ((mergeRows columns (unwrapped last) row).above.modifyLast insertWrapline).len ≤ columns :=
        ⟨hab.modifyLast fun _ _ ht => Or.inl ht, (Row.len_modifyLast ..).trans_le ha⟩
      have hpush : GoodRows flag columns ((mergeRows columns (unwrapped last) row).below ::
          (mergeRows columns (unwrapped last) row).above.modifyLast insertWrapline :: done) :=
        forall_mem_cons.mpr ⟨⟨hb, hbelo.trans hlen⟩, forall_mem_cons.mpr ⟨hwr, hd⟩⟩
      rw [if_neg (by simp [href])]
      split_ifs
      · exact hm
      · exact hpush
      · exact hm
      · exact hpush
    · rw [if_pos (by simp [href])]
      exact forall_mem_cons.mpr ⟨⟨hrow, hlen⟩, h⟩

theorem good_growLoop (h : GoodRows flag columns st.done) {rows : List (Row Cell × ℕ)}
    (hrows : ∀ ri ∈ rows, ri.1.Tracked flag ∧ ri.1.len ≤ columns) :
    GoodRows flag columns (growLoop lines columns reflow st rows).done := by
  induction rows with
  | nil => exact h
  | cons ri rows ih =>
    obtain ⟨hrow, hl⟩ := hrows ri mem_cons_self
    exact good_growStep (ih fun r hr => hrows r (mem_cons_of_mem ri hr)) ri.2 hrow hl

theorem good_fillViewport (h : GoodRows flag columns st.done) : GoodRows flag columns (fillViewport lines columns st).done := by
  unfold fillViewport
  split
  · refine fun r hr => ?_
    rcases mem_append.mp hr with hr | hr
    · rw [eq_of_mem_replicate hr]
      exact ⟨Row.tracked_new columns, (length_replicate ..).le⟩
    · exact h r hr
  · exact h

theorem good_pullDown (h : GoodRows flag columns st.done) : GoodRows flag columns (pullDown lines st).done := by
  unfold pullDown
  split
  · exact fun r hr => h r (mem_of_mem_drop hr)
  · exact h

end

/-! ### Changing the number of lines -/

namespace Grid

variable {g g' : Grid Cell}

/-- A grid that is good but for the template of its cursor, with the width and the flag given. -/
structure Resized (lines columns : ℕ) (flag : Bool) (g : Grid Cell) : Prop where
  inv : g.Inv
  lines_eq : g.lines = lines
  columns_eq : g.columns = columns
  flag_eq : g.raw.mayHaveTransientContent = flag
  rows : g.raw.Holds (Row.Sound columns flag) Row.Clean
  saved : g.CursorOk g.savedCursor

variable {lines columns target : ℕ} {flag reflow : Bool}

theorem Good.resized (h : g.Good) : g.Resized g.lines g.columns g.raw.mayHaveTransientContent :=
  ⟨h.inv, rfl, rfl, rfl, h.rows, h.saved⟩

/-- With a template that its grid may have the grid is good. -/
theorem Resized.good (h : g.Resized lines columns flag) {template : Cell} (ht : template.transient = true → flag = true) :
    ({ g with cursor := { g.cursor with template } } : Grid Cell).Good where
  inv := inv_cursor h.inv h.inv.onScreen
  rows := by
    show g.raw.Holds (Row.Sound g.columns g.raw.mayHaveTransientContent) Row.Clean
    rw [h.columns_eq, h.flag_eq]
    exact h.rows
  cursor := ⟨h.inv.cursor_nonneg, h.inv.cursor_lt, fun hc => h.flag_eq.trans (ht hc)⟩
  saved := h.saved.congr rfl id

/-- More visible lines: the rows that come are new. -/
theorem growVisibleLines_good (h : g.Good) (ht : g.lines < target) :
    ({ g with raw := g.raw.growVisibleLines target, lines := target } : Grid Cell).Good := by
  have hp := h.inv.lines_pos
  have hfl : (g.raw.growVisibleLines target).mayHaveTransientContent = g.raw.mayHaveTransientContent := Storage.transient_initializeRows ..
  have hw : ((g.raw.get 0).map Row.len).getD 0 = g.columns := by
    have hin : g.raw.InRange 0 := h.inv.inRange (by omega) (by omega)
    obtain ⟨r, hr⟩ := isSome_iff_exists.mp (Storage.get_isSome h.inv.sized.ok hin)
    rw [hr]
    exact (h.rows.get h.inv.sized.ok hin hr).len_eq
  refine ⟨(growVisibleLines_inv h.inv ht).1, ?_, ?_, ?_⟩
  · show (g.raw.growVisibleLines target).Holds (Row.Sound g.columns (g.raw.growVisibleLines target).mayHaveTransientContent) Row.Clean
    rw [hfl]
    have hrows := h.rows.initializeRows h.inv.sized.ok (Row.sound_laws _ _) (target - g.raw.visibleLines)
    unfold Storage.growVisibleLines
    simp only [hw]
    exact ⟨hrows.rows, hrows.cache⟩
  · exact ⟨h.cursor.line_nonneg, h.cursor.line_lt.trans (Int.ofNat_lt.mpr ht), fun hc => hfl.trans (h.cursor.transient hc)⟩
  · exact ⟨h.saved.line_nonneg, h.saved.line_lt.trans (Int.ofNat_lt.mpr ht), fun hc => hfl.trans (h.saved.transient hc)⟩

theorem decreaseScrollLimit_good (h : g.Good) (count : ℕ) : (g.decreaseScrollLimit count).Good := by
  have hi := (decreaseScrollLimit_inv h.inv count).1
  unfold decreaseScrollLimit at hi ⊢
  simp only at hi ⊢
  split_ifs at hi ⊢
  · refine h.of_storage hi (Storage.transient_shrinkLines ..) (h.rows.shrinkLines h.inv.sized.ok (Row.sound_laws _ _) ?_)
    have := h.inv.sized.len_eq
    omega
  · exact h

theorem decreaseScrollLimit_size (g : Grid Cell) (count : ℕ) :
    (g.decreaseScrollLimit count).lines = g.lines ∧ (g.decreaseScrollLimit count).columns = g.columns ∧
      (g.decreaseScrollLimit count).raw.mayHaveTransientContent = g.raw.mayHaveTransientContent := by
  unfold decreaseScrollLimit
  simp only
  split
  · exact ⟨rfl, rfl, Storage.transient_shrinkLines ..⟩
  · exact ⟨rfl, rfl, rfl⟩

theorem transient_scrolledRaw (g : Grid Cell) (stop : ℤ) (positions : ℕ) :
    (g.scrolledRaw stop positions).mayHaveTransientContent = g.raw.mayHaveTransientContent := by
  unfold scrolledRaw
  simp only [Storage.transient_swapLines, Storage.transient_rotate]
  split
  · exact Storage.transient_initializeRows ..
  · rfl

theorem growLines_good (h : g.Good) (conpty : Bool) (ht : g.lines < target) :
    (g.growLines conpty target).Good ∧ (g.growLines conpty target).lines = target ∧ (g.growLines conpty target).columns = g.columns ∧
      (g.growLines conpty target).raw.mayHaveTransientContent = g.raw.mayHaveTransientContent := by
  have hgro := growVisibleLines_good h ht
  have hh := (growVisibleLines_inv h.inv ht).2
  have hfl : (g.raw.growVisibleLines target).mayHaveTransientContent = g.raw.mayHaveTransientContent := Storage.transient_initializeRows ..
  unfold growLines
  simp only [hh]
  generalize hfrom : (if conpty = true then 0 else min g.historySize (target - g.lines)) = fromHistory
  have hfrom_le : fromHistory ≤ target - g.lines := by
    rw [← hfrom]
    split <;> omega
  generalize hg1 : (if fromHistory ≠ target - g.lines then
    ({ g with raw := g.raw.growVisibleLines target, lines := target } : Grid Cell).scrollUp 0 target (target - g.lines - fromHistory)
    else { g with raw := g.raw.growVisibleLines target, lines := target }) = g1
  have hspec : g1.Good ∧ g1.lines = target ∧ g1.columns = g.columns ∧
      g1.raw.mayHaveTransientContent = g.raw.mayHaveTransientContent ∧ g1.cursor = g.cursor ∧ g1.savedCursor = g.savedCursor := by
    rw [← hg1]
    split
    · refine ⟨(scrollUp_evolves hgro le_rfl (Int.natCast_nonneg _) le_rfl fun _ => ?_).good, scrollUp_lines ..,
        by rw [scrollUp_top_eq], ?_, scrollUp_cursor .., by rw [scrollUp_top_eq]⟩
      · exact Int.ofNat_le.mpr ((sub_le _ _).trans (sub_le _ _))
      · rw [scrollUp_top_eq]
        exact (Storage.transient_resetLines ..).trans ((transient_scrolledRaw ..).trans hfl)
    · exact ⟨hgro, rfl, rfl, hfl, rfl, rfl⟩
  obtain ⟨hgood, hls, hcol, hfl1, hcur, hsv⟩ := hspec
  have hdown : ∀ c : Cursor Cell, g.CursorOk c →
      g1.CursorOk { c with point := { c.point with line := c.point.line + fromHistory } } := by
    intro c hc
    have h1 := hc.line_nonneg
    have h2 := hc.line_lt
    exact ⟨by show 0 ≤ c.point.line + fromHistory; omega, by show c.point.line + fromHistory < g1.lines; omega,
      fun ht => hfl1.trans (hc.transient ht)⟩
  have hmv := (setCursors_evolves hgood (hcur ▸ hdown _ h.cursor) (hsv ▸ hdown _ h.saved)).good
  have ho := hmv.of_storage (show Inv { g1 with
      savedCursor := { g1.savedCursor with
        point := { g1.savedCursor.point with line := g1.savedCursor.point.line + fromHistory } }
      cursor := { g1.cursor with point := { g1.cursor.point with line := g1.cursor.point.line + fromHistory } }
      displayOffset := g1.displayOffset - (target - g.lines) } from
    ⟨hmv.inv.sized, hmv.inv.lines_pos, hmv.inv.history_le, hmv.inv.cursor_nonneg, hmv.inv.cursor_lt⟩) rfl hmv.rows
  exact ⟨decreaseScrollLimit_good ho _, (decreaseScrollLimit_size _ _).1.trans hls,
    (decreaseScrollLimit_size _ _).2.1.trans hcol, (decreaseScrollLimit_size _ _).2.2.trans hfl1⟩

/-- The cursor on another line of the screen. -/
theorem Good.setLine (h : g.Good) {line : ℤ} (h1 : 0 ≤ line) (h2 : line < g.lines) :
    ({ g with cursor := { g.cursor with point := { g.cursor.point with line } } } : Grid Cell).Good := by
  have hok : g.CursorOk { g.cursor with point := { g.cursor.point with line } } := ⟨h1, h2, h.cursor.transient⟩
  exact (setCursor_evolves h hok).good

theorem shrinkScrollAmount_le (h : g.Inv) (conpty : Bool) (target : ℕ) : g.shrinkScrollAmount conpty target ≤ g.lines := by
  have hc := h.onScreen
  unfold shrinkScrollAmount
  rw [gridClampLine_cursor (d := g.dims) hc]
  obtain ⟨h1, h2⟩ := hc
  simp only
  split <;> omega

theorem shrinkLines_good (h : g.Good) (conpty : Bool) (hp : 0 < target) (ht : target < g.lines) :
    (g.shrinkLines conpty target).Good ∧ (g.shrinkLines conpty target).lines = target ∧
      (g.shrinkLines conpty target).columns = g.columns ∧
      (g.shrinkLines conpty target).raw.mayHaveTransientContent = g.raw.mayHaveTransientContent := by
  have hi := (shrinkLines_spec h.inv conpty hp ht).1
  have hs := le_shrinkScrollAmount h.inv conpty target
  have ha := shrinkScrollAmount_le h.inv conpty target
  have hl := h.cursor.line_nonneg
  have hlt := h.cursor.line_lt
  unfold shrinkLines at hi ⊢
  generalize g.shrinkScrollAmount conpty target = required at hs ha hi ⊢
  simp only at hi ⊢
  generalize hg1 : (if required > 0 then
      { g.scrollUp 0 g.lines required with
        cursor := { (g.scrollUp 0 g.lines required).cursor with
          point := { (g.scrollUp 0 g.lines required).cursor.point with
            line := min ((g.cursor.point.line.toNat - min required g.cursor.point.line.toNat : ℕ) : ℤ) ((target : ℤ) - 1) } } }
    else g) = g1 at hi ⊢
  have hspec : g1.Good ∧ g1.lines = g.lines ∧ g1.columns = g.columns ∧
      g1.raw.mayHaveTransientContent = g.raw.mayHaveTransientContent ∧ g1.cursor.point.line < target := by
    rw [← hg1]
    split
    · have hup : g.Evolves (g.scrollUp 0 g.lines required) :=
        scrollUp_evolves h le_rfl (Int.natCast_nonneg _) le_rfl fun _ => Int.ofNat_le.mpr ha
      have hls : (g.scrollUp 0 g.lines required).lines = g.lines := scrollUp_lines ..
      refine ⟨hup.good.setLine ?_ ?_, hls, by rw [scrollUp_top_eq], ?_, ?_⟩
      · omega
      · omega
      · rw [scrollUp_top_eq]
        exact (Storage.transient_resetLines ..).trans (transient_scrolledRaw ..)
      · show min _ ((target : ℤ) - 1) < (target : ℤ)
        omega
    · exact ⟨h, rfl, rfl, rfl, by omega⟩
  obtain ⟨hgood, hls, hcol, hfl, hcur⟩ := hspec
  have hok := hgood.inv.sized.ok
  have hv := hgood.inv.sized.visibleLines_eq
  have hlen := hgood.inv.sized.len_eq
  have hcnt : ((g1.lines : ℤ) - target).natAbs ≤ g1.raw.inner.length := by
    have := hok.len_le
    omega
  have hfl' : ((g1.raw.rotate ((g1.lines : ℤ) - target)).shrinkVisibleLines target).mayHaveTransientContent =
      g1.raw.mayHaveTransientContent := Storage.transient_shrinkLines ..
  have hr := hgood.rows.rotate hok (Row.sound_laws _ _) hcnt
  have hsz := hgood.inv.sized.rotate ((g1.lines : ℤ) - target)
  refine ⟨⟨hi, ?_, ?_, ?_⟩, trivial, hcol, hfl'.trans hfl⟩
  · show Storage.Holds (Row.Sound g1.columns (Storage.mayHaveTransientContent _)) Row.Clean _
    rw [hfl']
    refine Storage.Holds.shrinkLines (s := { g1.raw.rotate ((g1.lines : ℤ) - target) with visibleLines := target })
      ⟨hr.rows, hr.cache⟩ ⟨hsz.ok.zero_lt, hsz.ok.len_le⟩ (Row.sound_laws _ _) ?_
    show (g1.raw.rotate ((g1.lines : ℤ) - target)).visibleLines - target ≤ (g1.raw.rotate ((g1.lines : ℤ) - target)).len
    rw [hsz.visibleLines_eq, hsz.len_eq]
    omega
  · exact ⟨hgood.cursor.line_nonneg, hcur, fun hc => hfl'.trans (hgood.cursor.transient hc)⟩
  · have := hgood.saved.line_nonneg
    exact ⟨by show 0 ≤ min g1.savedCursor.point.line ((target : ℤ) - 1); omega,
      by show min g1.savedCursor.point.line ((target : ℤ) - 1) < (target : ℤ); omega,
      fun hc => hfl'.trans (hgood.saved.transient hc)⟩

theorem resizeLines_good (h : g.Good) (conpty : Bool) (hp : 0 < lines) :
    (g.resizeLines conpty lines).Good ∧ (g.resizeLines conpty lines).lines = lines ∧
      (g.resizeLines conpty lines).columns = g.columns ∧
      (g.resizeLines conpty lines).raw.mayHaveTransientContent = g.raw.mayHaveTransientContent := by
  unfold resizeLines
  split_ifs with hgrow hs
  · exact growLines_good h conpty hgrow
  · exact shrinkLines_good h conpty hp hs
  · exact ⟨h, by omega, rfl, rfl⟩

/-! ### Changing the number of columns -/

/-- The rows that a resize takes out of the storage are the rows of the grid. -/
theorem Good.takeAll (h : g.Good) {ri : Row Cell × ℕ} (hri : ri ∈ g.raw.takeAll.2.zipIdx) :
    ri.1.Sound g.columns g.raw.mayHaveTransientContent := by
  have hm := fst_mem_of_mem_zipIdx hri
  rw [Storage.takeAll_rows] at hm
  exact h.rows.rows _ hm

theorem growColumns_good (h : g.Good) (reflow : Bool) (hc : g.columns < columns) :
    (g.growColumns reflow columns).Resized g.lines columns g.raw.mayHaveTransientContent := by
  have hst : GoodRows g.raw.mayHaveTransientContent columns
      (⟨[], unwrapCursor reflow g.cursor, 0, g.displayOffset⟩ : GrowState Cell).done := forall_mem_nil _
  have hres : GoodRows g.raw.mayHaveTransientContent columns (g.growResult reflow columns).done :=
    good_pullDown (good_fillViewport (good_growLoop hst fun ri hri =>
      ⟨(h.takeAll hri).tracked, (h.takeAll hri).len_eq.le.trans hc.le⟩))
  refine ⟨(growColumns_spec h.inv reflow columns).1, rfl, rfl, rfl, ?_, h.saved.line_nonneg, h.saved.line_lt, h.saved.transient⟩
  refine .replace g.raw fun r hr => ?_
  obtain ⟨r', hr', rfl⟩ := List.mem_map.mp hr
  obtain ⟨ht, hl⟩ := hres r' hr'
  exact ⟨(Row.len_grow ..).trans (Nat.max_eq_right hl), ht.grow columns⟩

theorem shrinkColumns_good (h : g.Good) (hc : columns < g.columns) (hg : g.shrinkColumns reflow columns = some g') :
    g'.Resized g.lines columns g.raw.mayHaveTransientContent := by
  have hi := (shrinkColumns_spec h.inv hg).1
  obtain ⟨st, hloop, rfl⟩ := map_eq_some_iff.mp hg
  have hs : (⟨[], none, unwrapCursor reflow g.cursor, g.displayOffset⟩ : ShrinkState Cell).Good
      g.raw.mayHaveTransientContent columns := ⟨nofun, nofun⟩
  have hst : st.Good g.raw.mayHaveTransientContent columns :=
    good_shrinkLoop hs (fun ri hri => ⟨(h.takeAll hri).tracked, hc.le.trans (h.takeAll hri).len_eq.ge⟩) hloop
  exact ⟨hi, rfl, rfl, rfl, .replace g.raw fun r hr => hst.rows r (mem_of_mem_take hr), h.saved.line_nonneg,
    h.saved.line_lt, h.saved.transient⟩

theorem restoreCursorAnchor_fits (h : g.Resized lines columns flag) (anchor : CursorAnchor) :
    (g.restoreCursorAnchor anchor).Resized lines columns flag := by
  have hi := (restoreCursorAnchor_spec h.inv anchor).1
  unfold restoreCursorAnchor at hi ⊢
  cases hsp : g.passLines anchor.logicalLinesBelow (g.raw.len + 1) g.dims.bottommostLine 0 with
  | none => exact h
  | some stop =>
    rw [hsp] at hi
    exact ⟨hi, h.lines_eq, h.columns_eq, h.flag_eq, h.rows, h.saved.congr rfl id⟩

theorem resizeColumns_fits (h : g.Good) (hg : g.resizeColumns reflow columns = some g') :
    g'.Resized g.lines columns g.raw.mayHaveTransientContent := by
  obtain ⟨g1, hr, rfl⟩ := map_eq_some_iff.mp hg
  have hfits : g1.Resized g.lines columns g.raw.mayHaveTransientContent := by
    split_ifs at hr with hgrow hs
    · cases hr
      exact growColumns_good h _ hgrow
    · exact shrinkColumns_good h hs hr
    · cases hr
      have heq : g.columns = columns := by omega
      exact heq ▸ h.resized
  split
  · exact restoreCursorAnchor_fits hfits _
  · exact hfits

/-- **A resize keeps a grid good.** Its rows have the new width, the cells past their bounds are blank, both cursors are on
lines of the screen, and no cell is transient in a grid that had no such content. -/
theorem resizeImpl_good (h : g.Good) {conpty : Bool} (hl : 0 < lines)
    (hg : g.resizeImpl reflow conpty lines columns = some g') :
    g'.Good ∧ g'.lines = lines ∧ g'.columns = columns ∧ g'.raw.mayHaveTransientContent = g.raw.mayHaveTransientContent := by
  obtain ⟨g1, hr, rfl⟩ := map_eq_some_iff.mp hg
  have hok : g.CursorOk { g.cursor with template := default } := ⟨h.cursor.line_nonneg, h.cursor.line_lt, nofun⟩
  have hbl := (setCursor_evolves h hok).good
  obtain ⟨hgood, hls, -, hfl⟩ := resizeLines_good hbl conpty hl
  have hfits := resizeColumns_fits hgood hr
  have hfl1 := hfits.flag_eq.trans hfl
  exact ⟨hfits.good fun ht => hfl.trans (h.cursor.transient ht), hfits.lines_eq.trans hls, hfits.columns_eq, hfl1⟩

end Grid

end Pebrel.Terminal
