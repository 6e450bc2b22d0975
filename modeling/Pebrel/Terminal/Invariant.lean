import Pebrel.Terminal.Resize
import Pebrel.Terminal.StorageRefinement

/-!
# The sizes of a grid

What every operation of a grid does to its sizes: the rows its storage holds, the
history, the display offset and the line of the cursor. `Grid.Inv` is what holds
in every state, whatever the operations: the storage is in order and holds the
screen and a history within the limit, and the cursor is on the screen. The
display offset is not part of it (see `DisplayOffset`).
-/

namespace Pebrel.Terminal

variable {T : Type}

/-! ### Sizes of the storage -/

/-- The storage is in order, with so many visible lines and so many logical rows. -/
structure Storage.Sized (s : Storage T) (visibleLines len : ℕ) : Prop where
  ok : s.Ok
  visibleLines_eq : s.visibleLines = visibleLines
  len_eq : s.len = len

namespace Storage

variable {s : Storage T} {v n : ℕ}

theorem Sized.swap (h : s.Sized v n) (a b : ℤ) : (s.swap a b).Sized v n := by
  refine ⟨ok_swap h.ok a b, ?_, ?_⟩
  · rw [← h.visibleLines_eq]
    unfold Storage.swap
    split <;> rfl
  · rw [← h.len_eq]
    unfold Storage.swap
    split <;> rfl

theorem Sized.modify (h : s.Sized v n) (line : ℤ) (f : Row T → Row T) : (s.modify line f).Sized v n :=
  ⟨⟨by simpa [Storage.modify] using h.ok.zero_lt, by simpa [Storage.modify] using h.ok.len_le⟩, h.visibleLines_eq, h.len_eq⟩

theorem Sized.swapLines (h : s.Sized v n) (d : ℤ) (lines : List ℤ) : (s.swapLines d lines).Sized v n := by
  induction lines generalizing s with
  | nil => exact h
  | cons line lines ih => exact ih (h.swap line (line + d))

theorem Sized.replaceInner (h : s.Sized v n) {vec : List (Row T)} (hv : vec ≠ []) : (s.takeAll.1.replaceInner vec).Sized v vec.length :=
  ⟨ok_replace s hv, h.visibleLines_eq, rfl⟩

variable [GridCell T]

section
variable (h : s.Sized v n)
include h

theorem Sized.resetLines (template : T) (lines : List ℤ) : (s.resetLines template lines).Sized v n := by
  induction lines generalizing s with
  | nil => exact h
  | cons line lines ih => exact ih (h.modify line (·.reset template))

theorem Sized.rotate (count : ℤ) : (s.rotate count).Sized v n := ⟨ok_rotate h.ok count, h.visibleLines_eq, h.len_eq⟩

theorem Sized.initializeRows (additionalRows columns : ℕ) : (s.initializeRows additionalRows columns).Sized v (n + additionalRows) :=
  ⟨ok_initializeRows h.ok additionalRows columns, by rw [visibleLines_initializeRows, h.visibleLines_eq],
    by rw [len_initializeRows, h.len_eq]⟩

theorem Sized.shrinkLines {shrinkage : ℕ} (hs : shrinkage < n) : (s.shrinkLines shrinkage).Sized v (n - shrinkage) := by
  refine ⟨ok_shrinkLines h.ok (by rw [h.len_eq]; exact hs), ?_, ?_⟩
  · rw [← h.visibleLines_eq, shrinkLines_eq]
    split <;> rfl
  · rw [← h.len_eq, shrinkLines_eq]
    split <;> rfl

theorem Sized.growVisibleLines (next : ℕ) : (s.growVisibleLines next).Sized next (n + (next - v)) := by
  refine ⟨ok_growVisibleLines h.ok next, rfl, ?_⟩
  unfold Storage.growVisibleLines
  simp only [len_initializeRows, h.len_eq, h.visibleLines_eq]

theorem Sized.shrinkVisibleLines {next : ℕ} (hs : v - next < n) : (s.shrinkVisibleLines next).Sized next (n - (v - next)) := by
  have hv := h.visibleLines_eq
  have hsub : ({ s with visibleLines := next } : Storage T).Sized next n := ⟨⟨h.ok.zero_lt, h.ok.len_le⟩, rfl, h.len_eq⟩
  unfold Storage.shrinkVisibleLines
  simp only [hv]
  exact hsub.shrinkLines hs

end

end Storage

/-! ### The invariant -/

/-- What holds of a grid in every state. -/
structure Grid.Inv (g : Grid T) : Prop where
  /-- The storage holds the screen and the history. -/
  sized : g.raw.Sized g.lines (g.lines + g.historySize)
  lines_pos : 0 < g.lines
  history_le : g.historySize ≤ g.maxScrollLimit
  cursor_nonneg : 0 ≤ g.cursor.point.line
  cursor_lt : g.cursor.point.line < g.lines

namespace Grid

variable {g : Grid T}

theorem historySize_eq (g : Grid T) : g.historySize = g.raw.len - g.lines := rfl

/-- The history that a sized storage has. -/
theorem historySize_of_sized {h : ℕ} (hs : g.raw.Sized g.lines (g.lines + h)) : g.historySize = h := by
  rw [historySize_eq, hs.len_eq]; omega

theorem scrollDisplay_inv (hi : g.Inv) (scroll : Scroll) : (g.scrollDisplay scroll).Inv :=
  ⟨hi.sized, hi.lines_pos, hi.history_le, hi.cursor_nonneg, hi.cursor_lt⟩

/-- The invariant of a grid of which only the storage and numbers that it does not speak
of have changed. -/
theorem Inv.of_sized (hi : g.Inv) {raw : Storage T} {h : ℕ} (hs : raw.Sized g.lines (g.lines + h))
    (hle : h ≤ g.maxScrollLimit) (offset out : ℕ) :
    ({ g with raw, displayOffset := offset, scrolledOut := out } : Grid T).Inv ∧
      ({ g with raw, displayOffset := offset, scrolledOut := out } : Grid T).historySize = h := by
  have hh : ({ g with raw, displayOffset := offset, scrolledOut := out } : Grid T).historySize = h :=
    historySize_of_sized (g := { g with raw, displayOffset := offset, scrolledOut := out }) hs
  exact ⟨⟨by rw [hh]; exact hs, hi.lines_pos, by rw [hh]; exact hle, hi.cursor_nonneg, hi.cursor_lt⟩, hh⟩

variable [GridCell T]

theorem new_inv {lines : ℕ} (columns maxScrollLimit : ℕ) (hl : 0 < lines) : (.new lines columns maxScrollLimit : Grid T).Inv where
  sized := ⟨Storage.ok_withCapacity columns hl, rfl, by simp [Grid.new, historySize, dims, Dimensions.historySize, Storage.withCapacity]⟩
  lines_pos := hl
  history_le := by simp [Grid.new, historySize, dims, Dimensions.historySize, Storage.withCapacity]
  cursor_nonneg := le_rfl
  cursor_lt := by simp [Grid.new, Cursor.fresh, Point.origin, hl]

theorem increaseScrollLimit_spec (hi : g.Inv) (count : ℕ) : (g.increaseScrollLimit count).raw.Sized g.lines
      (g.lines + min (g.historySize + count) g.maxScrollLimit) := by
  have hle := hi.history_le
  unfold increaseScrollLimit
  simp only
  split
  · rw [show g.lines + min (g.historySize + count) g.maxScrollLimit =
      g.lines + g.historySize + min count (g.maxScrollLimit - g.historySize) by omega]
    exact hi.sized.initializeRows _ _
  · rw [show g.lines + min (g.historySize + count) g.maxScrollLimit = g.lines + g.historySize by omega]
    exact hi.sized

/-! ### Scrolling -/

theorem resetLines_inv (hi : g.Inv) (lines : List ℤ) : (g.resetLines lines).Inv ∧ (g.resetLines lines).historySize = g.historySize :=
  hi.of_sized (hi.sized.resetLines g.cursor.template lines) hi.history_le g.displayOffset g.scrolledOut

/-- What scrolling into the history leaves alone: the fields it does not name. -/
theorem rotateIntoHistory_fields (g : Grid T) (stop : ℤ) (positions : ℕ) : (g.rotateIntoHistory stop positions).lines = g.lines ∧
      (g.rotateIntoHistory stop positions).maxScrollLimit = g.maxScrollLimit ∧
      (g.rotateIntoHistory stop positions).cursor = g.cursor ∧
      (g.rotateIntoHistory stop positions).displayOffset = g.displayOffset := by
  unfold rotateIntoHistory increaseScrollLimit
  simp only
  split_ifs <;> exact ⟨rfl, rfl, rfl, rfl⟩

/-- The fields that `scroll_up` leaves alone. -/
theorem scrollUp_fields (g : Grid T) (start stop : ℤ) (positions : ℕ) : (g.scrollUp start stop positions).lines = g.lines ∧
      (g.scrollUp start stop positions).maxScrollLimit = g.maxScrollLimit ∧
      (g.scrollUp start stop positions).cursor = g.cursor := by
  obtain ⟨h1, h2, h3, -⟩ := rotateIntoHistory_fields { g with displayOffset := g.bumpedOffset positions } stop positions
  unfold scrollUp resetLines
  split_ifs
  · exact ⟨rfl, rfl, rfl⟩
  · exact ⟨h1, h2, h3⟩
  · exact ⟨rfl, rfl, rfl⟩

@[simp] theorem scrollUp_lines (g : Grid T) (start stop : ℤ) (positions : ℕ) :
    (g.scrollUp start stop positions).lines = g.lines := (scrollUp_fields g start stop positions).1

@[simp] theorem scrollUp_maxScrollLimit (g : Grid T) (start stop : ℤ) (positions : ℕ) :
    (g.scrollUp start stop positions).maxScrollLimit = g.maxScrollLimit := (scrollUp_fields g start stop positions).2.1

@[simp] theorem scrollUp_cursor (g : Grid T) (start stop : ℤ) (positions : ℕ) :
    (g.scrollUp start stop positions).cursor = g.cursor := (scrollUp_fields g start stop positions).2.2

/-- The display offset moves with the positions unless the region is reset. -/
theorem scrollUp_displayOffset (g : Grid T) (start stop : ℤ) (positions : ℕ) : (g.scrollUp start stop positions).displayOffset =
      if resetsRegion start stop positions then g.displayOffset else g.bumpedOffset positions := by
  obtain ⟨-, -, -, h⟩ := rotateIntoHistory_fields { g with displayOffset := g.bumpedOffset positions } stop positions
  unfold scrollUp resetLines
  split_ifs
  · rfl
  · exact h
  · rfl

/-- The history grows, within its limit, when the region starts at the top. -/
theorem scrollUp_sized (hi : g.Inv) (start stop : ℤ) (positions : ℕ) : (g.scrollUp start stop positions).raw.Sized g.lines
      (g.lines + if start = 0 then min (g.historySize + positions) g.maxScrollLimit else g.historySize) := by
  unfold scrollUp resetLines
  split_ifs with hrs hst hst
  · exact absurd hst hrs.2
  · exact hi.sized.resetLines _ _
  · have hinc := increaseScrollLimit_spec (g := { g with
      displayOffset := g.bumpedOffset positions
      scrolledOut := g.scrolledOut + (positions - (g.maxScrollLimit - g.historySize)) })
      (hi.of_sized hi.sized hi.history_le _ _).1 positions
    exact (((hinc.swapLines _ _).rotate _).swapLines _ _).resetLines _ _
  · exact (hi.sized.swapLines _ _).resetLines _ _

theorem scrollUp_historySize (hi : g.Inv) (start stop : ℤ) (positions : ℕ) : (g.scrollUp start stop positions).historySize =
      if start = 0 then min (g.historySize + positions) g.maxScrollLimit else g.historySize := by
  refine historySize_of_sized ?_
  rw [scrollUp_lines]
  exact scrollUp_sized hi start stop positions

theorem scrollUp_inv (hi : g.Inv) (start stop : ℤ) (positions : ℕ) : (g.scrollUp start stop positions).Inv where
  sized := by
    rw [scrollUp_lines, scrollUp_historySize hi]
    exact scrollUp_sized hi start stop positions
  lines_pos := by rw [scrollUp_lines]; exact hi.lines_pos
  history_le := by
    rw [scrollUp_historySize hi, scrollUp_maxScrollLimit]
    have := hi.history_le
    split <;> omega
  cursor_nonneg := by rw [scrollUp_cursor]; exact hi.cursor_nonneg
  cursor_lt := by rw [scrollUp_cursor, scrollUp_lines]; exact hi.cursor_lt

theorem scrollDown_inv (hi : g.Inv) (start stop : ℤ) (positions : ℕ) :
    (g.scrollDown start stop positions).Inv ∧ (g.scrollDown start stop positions).historySize = g.historySize := by
  unfold scrollDown
  split_ifs
  · exact resetLines_inv hi _
  · exact hi.of_sized ((((hi.sized.swapLines _ _).rotate _).resetLines _ _).swapLines _ _) hi.history_le _ _
  · exact hi.of_sized ((hi.sized.swapLines _ _).resetLines _ _) hi.history_le _ _

/-! ### The history -/

theorem updateHistory_inv (hi : g.Inv) (n : ℕ) : (g.updateHistory n).Inv ∧ (g.updateHistory n).historySize = min g.historySize n := by
  have hp := hi.lines_pos
  have hsz : (g.updateHistory n).raw.Sized g.lines (g.lines + min g.historySize n) := by
    unfold updateHistory
    simp only
    split
    · rw [show g.lines + min g.historySize n = g.lines + g.historySize - (g.historySize - n) by omega]
      exact hi.sized.shrinkLines (by omega)
    · rw [show g.lines + min g.historySize n = g.lines + g.historySize by omega]
      exact hi.sized
  have hls : (g.updateHistory n).lines = g.lines := by unfold updateHistory; simp only; split <;> rfl
  have hc : (g.updateHistory n).cursor = g.cursor := by unfold updateHistory; simp only; split <;> rfl
  have hhist : (g.updateHistory n).historySize = min g.historySize n := historySize_of_sized (by rw [hls]; exact hsz)
  refine ⟨⟨by rw [hls, hhist]; exact hsz, by rw [hls]; exact hp, ?_, by rw [hc]; exact hi.cursor_nonneg,
    by rw [hc, hls]; exact hi.cursor_lt⟩, hhist⟩
  rw [hhist]
  exact Nat.min_le_right _ _

theorem clearHistory_inv (hi : g.Inv) : g.clearHistory.Inv ∧ g.clearHistory.historySize = 0 := by
  have hp := hi.lines_pos
  refine hi.of_sized (h := 0) ?_ (Nat.zero_le _) 0 _
  rw [show g.lines + 0 = g.lines + g.historySize - g.historySize by omega]
  exact hi.sized.shrinkLines (by omega)

theorem decreaseScrollLimit_inv (hi : g.Inv) (count : ℕ) :
    (g.decreaseScrollLimit count).Inv ∧ (g.decreaseScrollLimit count).historySize = g.historySize - count ∧
      (g.decreaseScrollLimit count).displayOffset =
        if min count g.historySize ≠ 0 then min g.displayOffset (g.historySize - count) else g.displayOffset := by
  have hp := hi.lines_pos
  unfold decreaseScrollLimit
  simp only
  split_ifs with h
  · have hs : (g.raw.shrinkLines (min (min count g.historySize) g.historySize)).Sized g.lines (g.lines + (g.historySize - count)) := by
      rw [show g.lines + (g.historySize - count) = g.lines + g.historySize - min (min count g.historySize) g.historySize by omega]
      exact hi.sized.shrinkLines (by omega)
    have hle := hi.history_le
    have hspec := hi.of_sized hs (by omega) (min g.displayOffset (g.historySize - count)) (g.scrolledOut + min count g.historySize)
    have hh := (hi.of_sized hs (by omega) g.displayOffset (g.scrolledOut + min count g.historySize)).2
    simp only [hh]
    exact ⟨hspec.1, hspec.2, trivial⟩
  · exact ⟨hi, by omega, rfl⟩

/-! ### Clearing -/

theorem clearViewport_inv (hi : g.Inv) : g.clearViewport.Inv ∧ ∃ positions : ℕ,
      g.clearViewport.historySize = min (g.historySize + positions) g.maxScrollLimit ∧
        g.clearViewport.displayOffset = g.bumpedOffset positions ∧
        g.clearViewport.maxScrollLimit = g.maxScrollLimit := by
  unfold clearViewport
  simp only
  generalize ((g.lastOccupied (g.lines * g.columns + 1) (g.iterFrom ⟨g.lines - 1, g.columns⟩)).point.line + 1).toNat = p
  have hrs := resetLines_inv (scrollUp_inv hi 0 g.lines p) (lineRange 0 (g.lines - p : ℕ))
  refine ⟨hrs.1, p, ?_, ?_, scrollUp_maxScrollLimit g 0 g.lines p⟩
  · rw [hrs.2, scrollUp_historySize hi, if_pos rfl]
  · exact (scrollUp_displayOffset g 0 g.lines p).trans (if_neg fun h => h.2 rfl)

theorem reset_inv (hi : g.Inv) : g.reset.Inv ∧ g.reset.historySize = 0 ∧ g.reset.displayOffset = 0 := by
  obtain ⟨hc, hz⟩ := clearHistory_inv hi
  have hcur : ({ g.clearHistory with savedCursor := .fresh, cursor := .fresh, displayOffset := 0 } : Grid T).Inv :=
    ⟨hc.sized, hc.lines_pos, hc.history_le, le_rfl, by
      have := hc.lines_pos
      simpa [Cursor.fresh, Point.origin] using this⟩
  have hrs := resetLines_inv hcur (lineRange
    (dims { g.clearHistory with savedCursor := .fresh, cursor := .fresh, displayOffset := 0 }).topmostLine
    g.clearHistory.lines)
  exact ⟨hrs.1, hrs.2.trans hz, rfl⟩

end Grid

end Pebrel.Terminal
