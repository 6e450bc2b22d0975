import Pebrel.Terminal.CellEdit
import Pebrel.Terminal.DisplayOffset

/-!
# What a reset leaves in a row

`reset` writes no cell past `occ` while the last cell of the row has the
background of the template. A row all of whose cells past `occ` are one blank
cell (`Row.Uniform`) is the kind of row that every reset leaves blank
(`Row.uniform_iff_reset`), and the operations on rows and on grids keep rows
uniform. One does not: `Row::grow` pads a row with default cells, whatever the
cells past `occ` are. `resets_blank_iff` says when a run of a grid is free of
that.
-/

namespace Pebrel.Terminal

open Library.Transition List Option Cell

/-! ### Rows -/

namespace Row

/-- The cells past `occ` are one blank cell. -/
def Uniform (r : Row Cell) : Prop := ∃ color, ∀ i c, r.occ ≤ i → r.inner[i]? = some c → c = ofColor color

/-- Every reset leaves every cell blank, on the background of its template. -/
def ResetsBlank (r : Row Cell) : Prop := ∀ template, ∀ c ∈ (r.reset template).inner, c = ofColor template.bg

variable {r : Row Cell} {occ : ℕ} {cells : List Cell}

/-- The cells of a row that is reset, where the first `occ` of them are written. -/
theorem mem_reset_iff {template : Cell}
    (ho : occ = if GridCell.discriminantEq (r.get (r.inner.length - 1)) template then r.occ else r.inner.length) :
    (∀ c ∈ (r.reset template).inner, c = ofColor template.bg) ↔
      ∀ i c, occ ≤ i → r.inner[i]? = some c → c = ofColor template.bg := by
  have hinn : (r.reset template).inner = (r.inner.take occ).map (.reset · template) ++ r.inner.drop occ := by
    rw [ho]
    rfl
  rw [hinn]
  constructor
  · intro h i c hi hc
    refine h c (mem_append_right _ (mem_of_getElem? (i := i - occ) ?_))
    rw [getElem?_drop, Nat.add_sub_cancel' hi]
    exact hc
  · intro h c hc
    rcases mem_append.mp hc with hc | hc
    · obtain ⟨c0, -, rfl⟩ := List.mem_map.mp hc
      rfl
    · obtain ⟨j, hj⟩ := getElem?_of_mem hc
      rw [getElem?_drop] at hj
      exact h (occ + j) c (Nat.le_add_right _ _) hj

/-- The uniform rows are the ones that every reset leaves blank. -/
theorem uniform_iff_reset : r.Uniform ↔ r.ResetsBlank := by
  constructor
  · rintro ⟨color, h⟩ template
    rw [mem_reset_iff rfl]
    intro i c hi hc
    have hlt := (List.getElem?_eq_some_iff.mp hc).1
    split at hi
    · rename_i hsm
      -- the last cell is one of those past `occ`, and has the template's background
      have hl : r.inner[r.inner.length - 1]? = some (r.get (r.inner.length - 1)) := by
        unfold get
        rw [getD_eq_getElem?_getD, getElem?_eq_getElem (by omega)]
        rfl
      have hcol := h _ _ (by omega) hl
      rw [h i c hi hc]
      have hbg : (r.get (r.inner.length - 1)).bg = template.bg := eq_of_beq hsm
      rw [← hbg, hcol]
      rfl
    · omega
  · intro h
    refine ⟨(r.get (r.inner.length - 1)).bg, fun i c hi hc => ?_⟩
    refine (mem_reset_iff rfl).mp (h (ofColor (r.get (r.inner.length - 1)).bg)) i c ?_ hc
    exact (if_pos (beq_self_eq_true (r.get (r.inner.length - 1)).bg)).trans_le hi

/-- A reset that leaves cells of one color has left them on the background of its template. -/
theorem Uniform.blank {template : Cell} (h : (r.reset template).Uniform) :
    ∀ c ∈ (r.reset template).inner, c = ofColor template.bg := by
  by_cases hsm : GridCell.discriminantEq (r.get (r.inner.length - 1)) template = true
  · -- what a reset leaves past `occ` was there before
    obtain ⟨color, h⟩ := h
    refine uniform_iff_reset.mp ⟨color, fun i c hi hc => ?_⟩ template
    have hm : c ∈ (r.reset template).inner := by
      unfold reset
      rw [if_pos hsm]
      refine mem_append_right _ (mem_of_getElem? (i := i - r.occ) ?_)
      rw [getElem?_drop, Nat.add_sub_cancel' hi, hc]
    obtain ⟨j, hj⟩ := getElem?_of_mem hm
    exact h j c (Nat.zero_le j) hj
  · refine (mem_reset_iff rfl).mpr fun i c hi hc => ?_
    rw [if_neg hsm] at hi
    exact absurd (List.getElem?_eq_some_iff.mp hc).1 (not_lt.mpr hi)

/-- A full row is uniform. -/
theorem uniform_of_full (h : cells.length ≤ occ) : (⟨cells, occ⟩ : Row Cell).Uniform :=
  ⟨.background, fun _ _ hi hc => absurd (List.getElem?_eq_some_iff.mp hc).1 (not_lt.mpr (h.trans hi))⟩

theorem uniform_new (columns : ℕ) : (.new columns : Row Cell).Uniform :=
  ⟨.background, fun _ _ _ hc => eq_of_mem_replicate (mem_of_getElem? hc)⟩

/-- Cells of which the ones past `occ` were cells past `occ` already. -/
theorem Uniform.of_tail (h : r.Uniform) (htl : ∀ i c, occ ≤ i → cells[i]? = some c → ∃ j, r.occ ≤ j ∧ r.inner[j]? = some c) :
    (⟨cells, occ⟩ : Row Cell).Uniform := by
  obtain ⟨color, h⟩ := h
  refine ⟨color, fun i c hi hc => ?_⟩
  obtain ⟨j, hj, hc⟩ := htl i c hi hc
  exact h j c hj hc

theorem Uniform.modify (h : r.Uniform) (i : ℕ) (f : Cell → Cell) : (r.modify i f).Uniform := by
  refine h.of_tail fun j c hj hc => ⟨j, by omega, ?_⟩
  rw [getElem?_modify] at hc
  simpa only [if_neg (show ¬ i = j by omega), Option.map_eq_map, Option.map_id'] using hc

theorem Uniform.reset (h : r.Uniform) (template : Cell) : (r.reset template).Uniform :=
  ⟨template.bg, fun _ c _ hc => uniform_iff_reset.mp h template c (mem_of_getElem? hc)⟩

theorem Uniform.discard (h : r.Uniform) : r.discard.Uniform := by
  refine h.of_tail fun i c hi hc => ⟨i, hi, ?_⟩
  rw [getElem?_append_right (by simp; omega), getElem?_drop] at hc
  simp only [length_map, length_take] at hc
  by_cases ho : r.occ ≤ r.inner.length
  · rw [← hc]
    congr 1
    omega
  · rw [getElem?_eq_none (by omega)] at hc
    cases hc

theorem uniform_modifyLast (r : Row Cell) (f : Cell → Cell) : (r.modifyLast f).Uniform := uniform_of_full (by simp)

theorem Uniform.appendFront (h : r.Uniform) (cells : List Cell) : (r.appendFront cells).Uniform := by
  refine h.of_tail fun i c hi hc => ⟨i - cells.length, by omega, ?_⟩
  rw [getElem?_append_right (by omega)] at hc
  exact hc

theorem Uniform.frontSplitOff (h : r.Uniform) (n : ℕ) : (r.frontSplitOff n).1.Uniform := by
  refine h.of_tail fun i c hi hc => ⟨n + i, by omega, ?_⟩
  rw [getElem?_drop] at hc
  exact hc

theorem Uniform.shrinkWithMinimum (h : r.Uniform) (columns minimum : ℕ) : (r.shrinkWithMinimum columns minimum).1.Uniform := by
  unfold Row.shrinkWithMinimum
  split
  · exact h
  refine h.of_tail fun i c hi hc => ⟨i, ?_, ?_⟩
  · have := (List.getElem?_eq_some_iff.mp hc).1
    rw [length_take] at this
    omega
  · have := (List.getElem?_eq_some_iff.mp hc).1
    rw [length_take] at this
    rw [getElem?_take_of_lt (by omega)] at hc
    exact hc

/-- Cells followed by default ones. -/
theorem uniform_wrappedRow (columns : ℕ) (wrapped : List Cell) : (wrappedRow columns wrapped).Uniform := by
  refine ⟨.background, fun i c hi hc => ?_⟩
  rw [wrappedRow, fromVec, getElem?_append_right hi] at hc
  exact eq_of_mem_replicate (mem_of_getElem? hc)

/-- The cells past `occ` are default cells. -/
def PadsBlank (r : Row Cell) : Prop := ∀ i c, r.occ ≤ i → r.inner[i]? = some c → c = default

/-- Padding keeps a row uniform exactly where it has no other cells past `occ` than the padding. -/
theorem uniform_grow_iff (h : r.Uniform) (columns : ℕ) : (r.grow columns).Uniform ↔ (r.len < columns → r.PadsBlank) := by
  unfold grow len
  split
  · exact iff_of_true h fun hlt => absurd hlt (by omega)
  rename_i hlt
  constructor
  · rintro ⟨color, hp⟩ - i c hi hc
    have hc' := (List.getElem?_eq_some_iff.mp hc).1
    have hf : (r.inner ++ replicate (columns - r.inner.length) (default : Cell))[r.inner.length]? = some default := by
      rw [getElem?_append_right le_rfl, getElem?_replicate, if_pos (by omega)]
    have hcol : (default : Cell) = ofColor color := hp _ _ (by simp only; omega) hf
    rw [hcol]
    refine hp i c hi ?_
    rw [getElem?_append_left hc']
    exact hc
  · intro hpads
    refine ⟨.background, fun i c hi hc => ?_⟩
    simp only [getElem?_append] at hc
    split at hc
    · exact hpads (by omega) i c hi hc
    · exact eq_of_mem_replicate (mem_of_getElem? hc)

end Row

/-- The rows of a merge: the one above is full. -/
theorem uniform_mergeRows (columns : ℕ) (last : Row Cell) {row : Row Cell} (h : row.Uniform) :
    (mergeRows columns (unwrapped last) row).above.Uniform ∧ (mergeRows columns (unwrapped last) row).below.Uniform := by
  have hfu : (unwrapped last).inner.length ≤ (unwrapped last).occ := by
    unfold unwrapped
    simp only
    split
    · unfold Row.shrink Row.shrinkWithMinimum
      split
      · simp [Row.modifyLast]
      · simp [Row.modifyLast, Row.len]
    · simp [Row.modifyLast]
  have ha : ∀ cells, ((unwrapped last).append cells).Uniform := fun cells =>
    Row.uniform_of_full (by rw [length_append]; exact Nat.add_le_add_right hfu _)
  unfold mergeRows
  simp only
  split
  · exact ⟨ha _, h.frontSplitOff _⟩
  · exact ⟨ha _, h.frontSplitOff _⟩

/-! ### Every row that a storage holds -/

namespace Storage

/-- Every row satisfies `K`, logical or kept ready. -/
def Every (K : Row Cell → Prop) (s : Storage Cell) : Prop := ∀ r ∈ s.inner, K r

/-- A property of rows that new rows of a width have, and that a discard and a reset keep. -/
structure Carries (K : Row Cell → Prop) (columns : ℕ) : Prop where
  fresh : K (.new columns)
  discard : ∀ r, K r → K r.discard
  reset : ∀ r template, K r → K (r.reset template)

theorem uniform_carries (columns : ℕ) : Carries Row.Uniform columns :=
  ⟨Row.uniform_new columns, fun _ h => h.discard, fun _ template h => h.reset template⟩

namespace Every

variable {K : Row Cell → Prop} {s : Storage Cell} {columns : ℕ}

theorem modify (h : s.Every K) (line : ℤ) {f : Row Cell → Row Cell} (hf : ∀ r, K r → K (f r)) : (s.modify line f).Every K := by
  intro r hr
  obtain ⟨i, hi⟩ := getElem?_of_mem hr
  simp only [Storage.modify, getElem?_modify, Option.map_eq_map, map_eq_some_iff] at hi
  obtain ⟨r0, hr0, rfl⟩ := hi
  have hK := h r0 (mem_of_getElem? hr0)
  split
  · exact hf r0 hK
  · exact hK

theorem swap (h : s.Every K) (a b : ℤ) : (s.swap a b).Every K := by
  unfold Storage.swap
  split
  · rename_i ra rb ha hb
    intro r hr
    rcases mem_or_eq_of_mem_set hr with hr | rfl
    · rcases mem_or_eq_of_mem_set hr with hr | rfl
      · exact h r hr
      · exact h _ (mem_of_getElem? hb)
    · exact h _ (mem_of_getElem? ha)
  · exact h

theorem swapLines (h : s.Every K) (d : ℤ) (lines : List ℤ) : (s.swapLines d lines).Every K := by
  induction lines generalizing s with
  | nil => exact h
  | cons a lines ih => exact ih (h.swap a (a + d))

theorem resetLines (hK : Carries K columns) (h : s.Every K) (template : Cell) (lines : List ℤ) : (s.resetLines template lines).Every K := by
  induction lines generalizing s with
  | nil => exact h
  | cons a lines ih => exact ih (h.modify a fun r hr => hK.reset r template hr)

theorem rezero (h : s.Every K) : s.rezero.Every K := fun r hr => h r (mem_rotate.mp hr)

theorem truncate (h : s.Every K) : s.truncate.Every K := fun r hr => h.rezero r (mem_of_mem_take hr)

theorem mem_discardWhere (hK : Carries K columns) {inner : List (Row Cell)} (h : ∀ r ∈ inner, K r) (p : ℕ → Bool) :
    ∀ r ∈ discardWhere inner p, K r := by
  intro r hr
  obtain ⟨i, hi, rfl⟩ := mem_mapIdx.mp hr
  have hm := h _ (getElem_mem hi)
  split
  · exact hK.discard _ hm
  · exact hm

theorem rotate (hK : Carries K columns) (h : s.Every K) (count : ℤ) : (s.rotate count).Every K := by
  unfold Storage.rotate
  simp only
  split
  · exact mem_discardWhere hK h _
  · exact h

theorem initializeRows (hK : Carries K columns) (h : s.Every K) (additionalRows : ℕ) :
    (s.initializeRows additionalRows columns).Every K := by
  unfold Storage.initializeRows
  simp only
  split
  · intro r hr
    rcases mem_append.mp hr with hr | hr
    · exact h.rezero r hr
    · rw [eq_of_mem_replicate hr]
      exact hK.fresh
  · exact h

theorem shrinkLines (hK : Carries K columns) (h : s.Every K) (shrinkage : ℕ) : (s.shrinkLines shrinkage).Every K := by
  have hl : (s.shrinkLen shrinkage).Every K := by
    unfold Storage.shrinkLen
    split
    · exact mem_discardWhere hK h _
    · exact h
  rw [shrinkLines_eq]
  split
  · exact hl.truncate
  · exact hl

theorem growVisibleLines (hK : ∀ columns, Carries K columns) (h : s.Every K) (next : ℕ) : (s.growVisibleLines next).Every K :=
  initializeRows (hK _) h _

theorem shrinkVisibleLines (hK : Carries K columns) (h : s.Every K) (next : ℕ) : (s.shrinkVisibleLines next).Every K :=
  shrinkLines (s := { s with visibleLines := next }) hK h _

/-- The rows taken out of a storage. -/
theorem takeAll (h : s.Every K) : ∀ r ∈ s.takeAll.2, K r := h.truncate

end Every

end Storage

/-! ### Operations on grids -/

namespace Grid

open Storage

variable {K : Row Cell → Prop} {g : Grid Cell} {columns : ℕ}
  {reflow : Bool} {st' : ShrinkState Cell} {row : Row Cell} {rows : List (Row Cell × ℕ)}

theorem every_resetLines (hK : Carries K columns) (h : g.raw.Every K) (lines : List ℤ) : (g.resetLines lines).raw.Every K :=
  .resetLines hK h g.cursor.template lines

theorem every_increaseScrollLimit (hK : Carries K g.columns) (h : g.raw.Every K) (count : ℕ) :
    (g.increaseScrollLimit count).raw.Every K := by
  unfold increaseScrollLimit
  simp only
  split
  · exact .initializeRows hK h _
  · exact h

theorem every_scrollUp (hK : Carries K g.columns) (h : g.raw.Every K) (start stop : ℤ) (positions : ℕ) :
    (g.scrollUp start stop positions).raw.Every K := by
  unfold scrollUp
  split_ifs
  · exact every_resetLines hK h _
  · refine every_resetLines hK (.swapLines (.rotate hK (.swapLines ?_ _ _) _) _ _) _
    exact every_increaseScrollLimit (g := { g with
      displayOffset := g.bumpedOffset positions
      scrolledOut := g.scrolledOut + (positions - (g.maxScrollLimit - g.historySize)) }) hK h positions
  · exact every_resetLines (g := { g with
      displayOffset := g.bumpedOffset positions
      raw := g.raw.swapLines positions (lineRange start (stop - positions)) }) hK (h.swapLines _ _) _

theorem every_scrollDown (hK : Carries K columns) (h : g.raw.Every K) (start stop : ℤ) (positions : ℕ) :
    (g.scrollDown start stop positions).raw.Every K := by
  unfold scrollDown
  split_ifs
  · exact every_resetLines hK h _
  · exact (Every.resetLines hK (Every.rotate hK (h.swapLines _ _) _) _ _).swapLines _ _
  · exact every_resetLines (g := { g with
      raw := g.raw.swapLines (-positions) (lineRange (start + positions) stop).reverse }) hK (h.swapLines _ _) _

theorem every_updateHistory (hK : Carries K columns) (h : g.raw.Every K) (n : ℕ) : (g.updateHistory n).raw.Every K := by
  unfold updateHistory
  simp only
  split
  · exact .shrinkLines hK h _
  · exact h

theorem every_decreaseScrollLimit (hK : Carries K columns) (h : g.raw.Every K) (count : ℕ) : (g.decreaseScrollLimit count).raw.Every K := by
  unfold decreaseScrollLimit
  simp only
  split
  · exact .shrinkLines hK h _
  · exact h

theorem every_clearViewport (hK : Carries K g.columns) (h : g.raw.Every K) : g.clearViewport.raw.Every K :=
  every_resetLines hK (every_scrollUp hK h _ _ _) _

theorem every_reset (hK : Carries K columns) (h : g.raw.Every K) : g.reset.raw.Every K := .resetLines hK (.shrinkLines hK h _) _ _

theorem every_growLines (hK : ∀ columns, Carries K columns) (h : g.raw.Every K) (conpty : Bool) (target : ℕ) :
    (g.growLines conpty target).raw.Every K := by
  unfold growLines
  simp only
  refine every_decreaseScrollLimit (hK 0) ?_ _
  simp only
  split
  all_goals split
  · exact every_scrollUp (g := { g with raw := g.raw.growVisibleLines target, lines := target }) (hK _)
      (.growVisibleLines hK h target) _ _ _
  · exact .growVisibleLines hK h target
  · exact every_scrollUp (g := { g with raw := g.raw.growVisibleLines target, lines := target }) (hK _)
      (.growVisibleLines hK h target) _ _ _
  · exact .growVisibleLines hK h target

theorem every_shrinkLines (hK : ∀ columns, Carries K columns) (h : g.raw.Every K) (conpty : Bool) (target : ℕ) :
    (g.shrinkLines conpty target).raw.Every K := by
  unfold shrinkLines
  simp only
  refine .shrinkVisibleLines (hK 0) (.rotate (hK 0) ?_ _) _
  split
  · exact every_scrollUp (hK _) h _ _ _
  · exact h

theorem every_resizeLines (hK : ∀ columns, Carries K columns) (h : g.raw.Every K) (conpty : Bool) (lines : ℕ) :
    (g.resizeLines conpty lines).raw.Every K := by
  unfold resizeLines
  split_ifs
  · exact every_growLines hK h conpty lines
  · exact every_shrinkLines hK h conpty lines
  · exact h

/-! ### Narrower -/

/-- Splitting a row pushes uniform rows. -/
theorem uniform_shrinkRow {lines i : ℕ} {fuel : ℕ} (st : ShrinkState Cell) (hd : ∀ r ∈ st.done, r.Uniform) (h : row.Uniform)
    (hrow : shrinkRow lines columns reflow i fuel st row = some st') : ∀ r ∈ st'.done, r.Uniform := by
  induction fuel generalizing st row with
  | zero => cases hrow
  | succ fuel ih =>
    have hc : (wrappedCells columns reflow (decide ((i : ℤ) = cursorBufferLine lines st.cursor)) st.cursor row).1.Uniform := by
      unfold wrappedCells
      simp only
      split_ifs <;> exact h.shrinkWithMinimum _ _
    have hpush : ∀ {r : Row Cell}, r.Uniform → ∀ r' ∈ r :: st.done, r'.Uniform := by
      intro r hr r' hr'
      rcases mem_cons.mp hr' with rfl | hr'
      · exact hr
      · exact hd r' hr'
    have hs : ∀ {r : Row Cell} (wrapped : List Cell), r.Uniform → (spaceWideChar columns r wrapped).1.Uniform := by
      intro r wrapped hr
      unfold spaceWideChar
      split
      · exact hr.modify _ _
      · exact hr
    unfold shrinkRow at hrow
    simp only at hrow
    split at hrow
    · rename_i row' heq
      rw [heq] at hc
      cases hrow
      exact hpush hc
    · rename_i row' wrapped heq
      rw [heq] at hc
      split_ifs at hrow
      · cases hrow
        exact hpush ((hs wrapped hc).modify _ _)
      · cases hrow
        exact hpush (Row.uniform_modifyLast _ _)
      · exact ih _ (hpush (Row.uniform_modifyLast _ _)) (Row.uniform_wrappedRow _ _) hrow

theorem uniform_shrinkLoop {lines : ℕ} {st : ShrinkState Cell} (hd : ∀ r ∈ st.done, r.Uniform) (hr : ∀ ri ∈ rows, ri.1.Uniform)
    (hloop : shrinkLoop lines columns reflow st rows = some st') : ∀ r ∈ st'.done, r.Uniform := by
  induction rows generalizing st' with
  | nil =>
    cases hloop
    exact hd
  | cons ri rows ih =>
    obtain ⟨st1, hloop1, hst⟩ := bind_eq_some_iff.mp hloop
    have hd1 := ih (fun ri hri => hr ri (mem_cons_of_mem _ hri)) hloop1
    have hrow := hr ri mem_cons_self
    unfold shrinkStep at hst
    split at hst
    · exact uniform_shrinkRow st1 hd1 hrow hst
    simp only at hst
    generalize (if (ri.2 : ℤ) = cursorBufferLine lines st1.cursor then _ else _) = column at hst
    exact uniform_shrinkRow { st1 with
      buffered := none
      cursor := { st1.cursor with point := { st1.cursor.point with column } } } hd1 (hrow.appendFront _) hst

theorem uniform_shrinkColumns {g' : Grid Cell} (h : g.raw.Every Row.Uniform)
    (hg : g.shrinkColumns reflow columns = some g') : g'.raw.Every Row.Uniform := by
  obtain ⟨st, hloop, rfl⟩ := map_eq_some_iff.mp hg
  have hrows : ∀ ri ∈ g.raw.takeAll.2.zipIdx, ri.1.Uniform := fun ri hri => h.takeAll _ (fst_mem_of_mem_zipIdx hri)
  have hd := uniform_shrinkLoop (fun r hr => absurd hr not_mem_nil) hrows hloop
  exact fun r hr => hd r (mem_of_mem_take hr)

/-! ### Wider -/

/-- A turn of the loop that makes rows wider pushes uniform rows. -/
theorem uniform_growStep {lines : ℕ} {st : GrowState Cell} (i : ℕ)
    (hd : ∀ r ∈ st.done, r.Uniform) (h : row.Uniform) : ∀ r ∈ (growStep lines columns reflow st i row).done, r.Uniform := by
  unfold growStep
  split
  · simpa using h
  rename_i last done hst
  rw [hst] at hd
  have hrest : ∀ r ∈ done, r.Uniform := fun r hr => hd r (mem_cons_of_mem last hr)
  split
  · simpa using ⟨h, hd last mem_cons_self, hrest⟩
  obtain ⟨hab, hb⟩ := uniform_mergeRows columns last h
  have hm : ∀ r ∈ (mergeRows columns (unwrapped last) row).above :: done, r.Uniform := forall_mem_cons.mpr ⟨hab, hrest⟩
  have hpush : ∀ r ∈ (mergeRows columns (unwrapped last) row).below ::
      (mergeRows columns (unwrapped last) row).above.modifyLast insertWrapline :: done, r.Uniform :=
    forall_mem_cons.mpr ⟨hb, forall_mem_cons.mpr ⟨Row.uniform_modifyLast _ _, hrest⟩⟩
  simp only
  split_ifs
  · exact hm
  · exact hpush
  · exact hm
  · exact hpush

theorem uniform_growLoop {lines : ℕ} {st : GrowState Cell} (hd : ∀ r ∈ st.done, r.Uniform) (hr : ∀ ri ∈ rows, ri.1.Uniform) :
    ∀ r ∈ (growLoop lines columns reflow st rows).done, r.Uniform := by
  induction rows with
  | nil => exact hd
  | cons ri rows ih =>
    exact uniform_growStep ri.2 (ih fun ri hri => hr ri (mem_cons_of_mem _ hri)) (hr ri mem_cons_self)

/-- The rows that a grid is made of when it becomes wider, before they are padded. -/
theorem uniform_growResult (h : g.raw.Every Row.Uniform) (reflow : Bool) (columns : ℕ) :
    ∀ r ∈ (g.growResult reflow columns).done, r.Uniform := by
  have hrows : ∀ ri ∈ g.raw.takeAll.2.zipIdx, ri.1.Uniform := fun ri hri => h.takeAll _ (fst_mem_of_mem_zipIdx hri)
  have hloop : ∀ r ∈ (growLoop g.lines columns reflow ⟨[], unwrapCursor reflow g.cursor, 0, g.displayOffset⟩
      g.raw.takeAll.2.zipIdx).done, r.Uniform := uniform_growLoop (fun r hr => absurd hr not_mem_nil) hrows
  have hfl : ∀ st : GrowState Cell, (∀ r ∈ st.done, r.Uniform) → ∀ r ∈ (fillViewport g.lines columns st).done, r.Uniform := by
    intro st hst
    unfold fillViewport
    split
    · intro r hr
      rcases mem_append.mp hr with hr | hr
      · rw [eq_of_mem_replicate hr]
        exact Row.uniform_new columns
      · exact hst r hr
    · exact hst
  have hpull : ∀ st : GrowState Cell, (∀ r ∈ st.done, r.Uniform) → ∀ r ∈ (pullDown g.lines st).done, r.Uniform := by
    intro st hst
    unfold pullDown
    split
    · exact fun r hr => hst r (mem_of_mem_drop hr)
    · exact hst
  exact hpull _ (hfl _ hloop)

/-- The rows that a widening to `columns` pads have default cells past `occ`. -/
def PadsBlank (g : Grid Cell) (reflow : Bool) (columns : ℕ) : Prop :=
  ∀ r ∈ (g.growResult reflow columns).done, r.len < columns → r.PadsBlank

theorem uniform_growColumns_iff (h : g.raw.Every Row.Uniform) (reflow : Bool) (columns : ℕ) :
    (g.growColumns reflow columns).raw.Every Row.Uniform ↔ g.PadsBlank reflow columns := by
  have hd := uniform_growResult h reflow columns
  have hraw : (g.growColumns reflow columns).raw.inner = (g.growResult reflow columns).done.map (·.grow columns) := rfl
  unfold Every PadsBlank
  rw [hraw, List.forall_mem_map]
  exact forall₂_congr fun r hr => Row.uniform_grow_iff (hd r hr) columns

end Grid

/-! ### Runs of a grid -/

namespace Grid

/-- Every row of the grid, shown, scrolled out or kept ready, is left blank by every reset. -/
def ResetsBlank (g : Grid Cell) : Prop := ∀ r ∈ g.raw.inner, r.ResetsBlank

/-- The rows that a resize pads, if it makes the grid wider, have default cells past `occ`. -/
def ResizePadsBlank (g : Grid Cell) (reflow conpty : Bool) (lines columns : ℕ) : Prop :=
  let g := ({ g with cursor := { g.cursor with template := default } } : Grid Cell).resizeLines conpty lines
  g.columns < columns → g.PadsBlank (reflow && g.reflowOnGrow) columns

/-- The condition on a step: a resize pads no row that has other than default cells past `occ`. -/
def StepPadsBlank (g : Grid Cell) : GridOp Cell → Prop
  | .resize reflow lines columns => g.ResizePadsBlank reflow false lines columns
  | .resizeConpty reflow lines columns => g.ResizePadsBlank reflow true lines columns
  | _ => True

variable {g g' : Grid Cell}

theorem resetsBlank_iff : g.ResetsBlank ↔ g.raw.Every Row.Uniform := forall₂_congr fun _ _ => Row.uniform_iff_reset.symm

theorem uniform_resizeImpl_iff (h : g.raw.Every Row.Uniform) {reflow conpty : Bool} {lines columns : ℕ}
    (hg : g.resizeImpl reflow conpty lines columns = some g') :
    g'.raw.Every Row.Uniform ↔ g.ResizePadsBlank reflow conpty lines columns := by
  obtain ⟨g1, hr, rfl⟩ := map_eq_some_iff.mp hg
  obtain ⟨g2, hc, rfl⟩ := map_eq_some_iff.mp hr
  have hls := every_resizeLines (g := { g with cursor := { g.cursor with template := default } }) Storage.uniform_carries h conpty lines
  unfold ResizePadsBlank
  simp only
  generalize ({ g with cursor := { g.cursor with template := default } } : Grid Cell).resizeLines conpty lines = g0 at *
  have ha : ∀ anchor, (g2.restoreCursorAnchor anchor).raw = g2.raw := by
    intro anchor
    unfold restoreCursorAnchor
    split <;> rfl
  refine (iff_of_eq (congrArg (Storage.Every Row.Uniform) (?_ : _ = g2.raw))).trans ?_
  · split
    · exact ha _
    · rfl
  split_ifs at hc with hgrow hs
  · cases hc
    exact (uniform_growColumns_iff hls _ columns).trans ⟨fun h _ => h, fun h => h hgrow⟩
  · exact iff_of_true (uniform_shrinkColumns hls hc) fun h => absurd h hgrow
  · cases hc
    exact iff_of_true hls fun h => absurd h hgrow

end Grid

namespace GridOp

open Grid Storage

/-- What one operation does to the rows: they stay uniform exactly when no row with other than
default cells past `occ` is padded. -/
theorem uniform_step_iff {g g' : Grid Cell} (h : g.raw.Every Row.Uniform) {op : GridOp Cell} (hst : step g op = some g') :
    g'.raw.Every Row.Uniform ↔ g.StepPadsBlank op := by
  have hK := uniform_carries
  have hkp : ∀ {g1 : Grid Cell}, g1.raw.Every Row.Uniform → (g1.raw.Every Row.Uniform ↔ True) := fun h => iff_of_true h trivial
  cases op with
  | scrollUp start stop positions =>
    obtain ⟨-, hst⟩ := ite_none_right_eq_some.mp hst
    cases hst
    exact hkp (every_scrollUp (hK _) h _ _ _)
  | scrollDown start stop positions =>
    obtain ⟨-, hst⟩ := ite_none_right_eq_some.mp hst
    cases hst
    exact hkp (every_scrollDown (hK 0) h _ _ _)
  | scrollDisplay scroll =>
    cases hst
    exact hkp h
  | updateHistory n =>
    cases hst
    exact hkp (every_updateHistory (hK 0) h n)
  | clearHistory =>
    cases hst
    exact hkp (.shrinkLines (hK 0) h _)
  | clearViewport =>
    cases hst
    exact hkp (every_clearViewport (hK _) h)
  | reset =>
    cases hst
    exact hkp (every_reset (hK 0) h)
  | resize reflow lines columns =>
    obtain ⟨-, hst⟩ := ite_none_right_eq_some.mp hst
    exact uniform_resizeImpl_iff h hst
  | resizeConpty reflow lines columns =>
    obtain ⟨-, hst⟩ := ite_none_right_eq_some.mp hst
    exact uniform_resizeImpl_iff h hst
  | write point cell =>
    cases hst
    exact hkp (h.modify point.line fun r hr => hr.modify point.column _)
  | setCursor cursor =>
    obtain ⟨-, hst⟩ := ite_none_right_eq_some.mp hst
    cases hst
    exact hkp h
  | setReflowOnGrow reflow =>
    cases hst
    exact hkp h

/-- **Resets are complete**: in a run of a grid every reset of every row would leave it blank, on
the background of its template, exactly when no resize of the run pads a row that has other than
default cells past `occ`. -/
theorem resets_blank_iff (lines columns maxScrollLimit : ℕ) {ops : List (GridOp Cell)} {g : Grid Cell}
    (h : run step (new lines columns maxScrollLimit) ops = some g) :
    Along step Grid.ResetsBlank (new lines columns maxScrollLimit) ops ↔
      Meets step Grid.StepPadsBlank (new lines columns maxScrollLimit) ops := by
  have hnew : (new lines columns maxScrollLimit : Grid Cell).raw.Every Row.Uniform := fun r hr => by
    rw [eq_of_mem_replicate hr]
    exact Row.uniform_new columns
  refine run_along_iff step (Q := fun _ => True) (fun _ _ _ _ _ _ => trivial) ?_ trivial (resetsBlank_iff.mpr hnew) h
  intro s op s' _ hs hst
  exact resetsBlank_iff.trans (uniform_step_iff (resetsBlank_iff.mp hs) hst)

/-- A screen of one column, scrolled by a line with a coloured template. -/
def colouredScroll : List (GridOp Cell) :=
  [.setCursor ⟨.origin, .ofColor (.named 1), false⟩, .scrollUp 0 2 1]

theorem resets_blank_iff_scrolled : Along step Grid.ResetsBlank (new 2 1 0) colouredScroll :=
  (resets_blank_iff 2 1 0 (show run step _ colouredScroll = some _ from rfl)).mpr ⟨trivial, fun _ _ => ⟨trivial, fun _ _ => trivial⟩⟩

/-- The row that has scrolled in is padded with default cells by a resize, and keeps its color
through a reset. -/
theorem reset_keeps_color : ¬ ∀ (lines columns maxScrollLimit : ℕ) (ops : List (GridOp Cell)) (g : Grid Cell),
    run step (new lines columns maxScrollLimit) ops = some g →
      ∀ r ∈ g.raw.inner, ∀ template, ∀ c ∈ (r.reset template).inner, c = ofColor template.bg := by
  intro h
  have hred := h 2 1 0 (colouredScroll ++ [.resize false 2 2]) _ rfl ⟨[.ofColor (.named 1), default], 0⟩ (by decide)
    default (.ofColor (.named 1)) (by decide)
  exact absurd hred (by decide)

end GridOp

end Pebrel.Terminal
