import Pebrel.Terminal.ResizeInvariant

/-!
# The display offset

A grid as a machine whose actions are its operations, and the view into its
buffer: the display offset lies within the history, the history within its
limit, and what `display_iter` visits exists.

One operation can break this. `scroll_up` moves the display offset along with
the lines whenever the view is not pinned to the bottom, up to the scroll limit,
but lines enter the history only when the region starts at the top.
`inView_iff` says that nothing else does: the states of a run are all in view
exactly when none of its steps is a `scroll_up` of that kind.
-/

namespace Pebrel.Terminal

open Library.Transition Option

/-! ### The operations -/

/-- The operations of a grid, and what its owner writes to it between them. -/
inductive GridOp (T : Type) where
  | scrollUp (start stop : ℤ) (positions : ℕ)
  | scrollDown (start stop : ℤ) (positions : ℕ)
  | scrollDisplay (scroll : Scroll)
  | updateHistory (historySize : ℕ)
  | clearHistory
  | clearViewport
  | reset
  | resize (reflow : Bool) (lines columns : ℕ)
  | resizeConpty (reflow : Bool) (lines columns : ℕ)
  /-- Write a cell. -/
  | write (point : Point) (cell : T)
  /-- Move the cursor on the screen, or change its template. -/
  | setCursor (cursor : Cursor T)
  | setReflowOnGrow (reflow : Bool)

/-- A region inside the screen and positions up to its length. -/
def RegionOk (lines : ℕ) (start stop : ℤ) (positions : ℕ) : Prop :=
  0 ≤ start ∧ stop ≤ lines ∧ (positions : ℤ) ≤ stop - start
deriving Decidable

namespace GridOp

variable {T : Type} [GridCell T]

/-- One operation; nothing where it is called out of its domain or does not end. -/
def step (g : Grid T) : GridOp T → Option (Grid T)
  | scrollUp start stop positions =>
    if RegionOk g.lines start stop positions then some (g.scrollUp start stop positions) else none
  | scrollDown start stop positions =>
    if RegionOk g.lines start stop positions then some (g.scrollDown start stop positions) else none
  | scrollDisplay scroll => some (g.scrollDisplay scroll)
  | updateHistory historySize => some (g.updateHistory historySize)
  | clearHistory => some g.clearHistory
  | clearViewport => some g.clearViewport
  | reset => some g.reset
  | resize reflow lines columns =>
    if 0 < lines ∧ 0 < columns then g.resize reflow lines columns else none
  | resizeConpty reflow lines columns =>
    if 0 < lines ∧ 0 < columns then g.resizeConpty reflow lines columns else none
  | write point cell =>
    some { g with raw := g.raw.modify point.line (·.modify point.column fun _ => cell) }
  | setCursor cursor =>
    if 0 ≤ cursor.point.line ∧ cursor.point.line < g.lines then some { g with cursor } else none
  | setReflowOnGrow reflow => some { g with reflowOnGrow := reflow }

end GridOp

/-! ### The view -/

namespace Grid

variable {T : Type}

/-- The display offset is within the history, the history within its limit, and every line
that `display_iter` visits is a row of the buffer. -/
structure InView (g : Grid T) : Prop where
  displayOffset_le : g.displayOffset ≤ g.historySize
  historySize_le : g.historySize ≤ g.maxScrollLimit
  visited : ∀ n, ∀ p ∈ g.displayIter.points n, -(g.historySize : ℤ) ≤ p.line ∧ p.line < g.lines

/-- Lines scrolled up in the region enter the history, or the view stays within what
history there is. -/
def KeepsInView (g : Grid T) : GridOp T → Prop
  | .scrollUp start stop positions =>
    start = 0 ∨ resetsRegion start stop positions ∨ g.displayOffset = 0 ∨
      min (g.displayOffset + positions) g.maxScrollLimit ≤ g.historySize
  | _ => True

end Grid

/-! ### What is visited -/

namespace GridIterator

variable {it it' : GridIterator}

/-- A cell yielded lies after the current position, on the next line where the row ends. -/
theorem next_spec (hsp : it.stop.column = it.lastColumn) (h : it.next = some it') :
    it'.stop = it.stop ∧ it'.lastColumn = it.lastColumn ∧ it.point.line ≤ it'.point.line ∧
      it'.point.line ≤ it.stop.line ∧ (it.lastColumn ≤ it.point.column → it.point.line < it'.point.line) := by
  unfold next at h
  split at h
  · cases h
  · rename_i hle
    simp only [Point.le, Bool.or_eq_true, decide_eq_true_eq, Bool.and_eq_true, beq_iff_eq, not_or, not_and] at hle
    split at h <;> cases h <;> refine ⟨rfl, rfl, ?_, ?_, ?_⟩ <;> simp only <;> omega

/-- The points that an iterator yields lie after its first position and up to its stop. -/
theorem mem_points (hsp : it.stop.column = it.lastColumn) {n : ℕ} {p : Point} (h : p ∈ it.points n) :
    it.point.line ≤ p.line ∧ p.line ≤ it.stop.line ∧ (it.lastColumn ≤ it.point.column → it.point.line < p.line) := by
  induction n generalizing it with
  | zero => cases h
  | succ n ih =>
    unfold points at h
    split at h
    · cases h
    rename_i it' hnx
    obtain ⟨hs, hl, hlo, hhi, hwrap⟩ := next_spec hsp hnx
    rcases List.mem_cons.mp h with rfl | h
    · exact ⟨hlo, hhi, hwrap⟩
    · obtain ⟨h1, h2, -⟩ := ih (by rw [hs, hl]; exact hsp) h
      rw [hs] at h2
      exact ⟨hlo.trans h1, h2, fun hc => (hwrap hc).trans_le h1⟩

end GridIterator

namespace Grid

variable {T : Type} {g : Grid T}

/-- `display_iter` visits rows of the buffer while the display offset is within the history. -/
theorem Inv.displayOffset_le_iff (hi : g.Inv) : g.InView ↔ g.displayOffset ≤ g.historySize := by
  refine ⟨InView.displayOffset_le, fun hd => ⟨hd, hi.history_le, fun n p hp => ?_⟩⟩
  obtain ⟨-, hhi, hlo⟩ := GridIterator.mem_points (show g.displayIter.stop.column = g.displayIter.lastColumn from rfl) hp
  have hlo := hlo le_rfl
  have hb : g.displayIter.stop.line ≤ (g.lines : ℤ) - 1 := min_le_right _ _
  have hst : g.displayIter.point.line = -(g.displayOffset : ℤ) - 1 := rfl
  omega

variable [GridCell T]

/-! ### What the operations do to the view -/

theorem scrollUp_inView_iff (hi : g.Inv) (hd : g.displayOffset ≤ g.historySize) (start stop : ℤ) (positions : ℕ) :
    (g.scrollUp start stop positions).displayOffset ≤ (g.scrollUp start stop positions).historySize ↔
      g.KeepsInView (.scrollUp start stop positions) := by
  have hle := hi.history_le
  rw [scrollUp_displayOffset, scrollUp_historySize hi]
  unfold KeepsInView bumpedOffset
  by_cases hst : start = 0
  · have hrs : ¬ resetsRegion start stop positions := fun h => h.2 hst
    rw [if_pos hst, if_neg hrs]
    refine iff_of_true ?_ (.inl hst)
    split <;> omega
  · by_cases hrs : resetsRegion start stop positions
    · rw [if_neg hst, if_pos hrs]
      exact iff_of_true hd (.inr (.inl hrs))
    · rw [if_neg hst, if_neg hrs]
      simp only [hst, hrs, false_or]
      split <;> omega

omit [GridCell T] in
theorem scrollDisplay_le (hd : g.displayOffset ≤ g.historySize) (scroll : Scroll) :
    (g.scrollDisplay scroll).displayOffset ≤ (g.scrollDisplay scroll).historySize := by
  have hh : (g.scrollDisplay scroll).historySize = g.historySize := rfl
  rw [hh]
  unfold scrollDisplay
  cases scroll with
  | delta count => exact Nat.min_le_right _ _
  | pageUp => exact Nat.min_le_right _ _
  | pageDown => exact (Nat.sub_le _ _).trans hd
  | top => exact le_rfl
  | bottom => exact Nat.zero_le _

theorem scrollDown_displayOffset (g : Grid T) (start stop : ℤ) (positions : ℕ) :
    (g.scrollDown start stop positions).displayOffset = g.displayOffset := by
  unfold scrollDown resetLines
  split_ifs <;> rfl

theorem updateHistory_displayOffset (g : Grid T) (n : ℕ) : (g.updateHistory n).displayOffset = min g.displayOffset n := by
  unfold updateHistory
  simp only
  split <;> rfl

end Grid

namespace GridOp

variable {T : Type} [GridCell T] {g g' : Grid T}

/-- What one operation does: the invariant is kept, and the display offset stays within the
history exactly when the operation keeps the view. -/
theorem step_spec (hi : g.Inv) (hd : g.displayOffset ≤ g.historySize) {op : GridOp T} (h : step g op = some g') :
    g'.Inv ∧ (g'.displayOffset ≤ g'.historySize ↔ g.KeepsInView op) := by
  have hkp : ∀ {g1 : Grid T}, g1.displayOffset ≤ g1.historySize → (g1.displayOffset ≤ g1.historySize ↔ True) :=
    fun h => iff_of_true h trivial
  cases op with
  | scrollUp start stop positions =>
    obtain ⟨-, h⟩ := ite_none_right_eq_some.mp h
    cases h
    exact ⟨Grid.scrollUp_inv hi _ _ _, Grid.scrollUp_inView_iff hi hd start stop positions⟩
  | scrollDown start stop positions =>
    obtain ⟨-, h⟩ := ite_none_right_eq_some.mp h
    cases h
    obtain ⟨hinv, hh⟩ := Grid.scrollDown_inv hi start stop positions
    exact ⟨hinv, hkp (by rw [Grid.scrollDown_displayOffset, hh]; exact hd)⟩
  | scrollDisplay scroll =>
    cases h
    exact ⟨Grid.scrollDisplay_inv hi scroll, hkp (Grid.scrollDisplay_le hd scroll)⟩
  | updateHistory n =>
    cases h
    obtain ⟨hinv, hh⟩ := Grid.updateHistory_inv hi n
    refine ⟨hinv, hkp ?_⟩
    rw [hh, Grid.updateHistory_displayOffset]
    omega
  | clearHistory =>
    cases h
    exact ⟨(Grid.clearHistory_inv hi).1, hkp (Nat.zero_le _)⟩
  | clearViewport =>
    cases h
    have hle := hi.history_le
    obtain ⟨hinv, positions, hh, ho, -⟩ := Grid.clearViewport_inv hi
    refine ⟨hinv, hkp ?_⟩
    rw [hh, ho]
    unfold Grid.bumpedOffset
    split <;> omega
  | reset =>
    cases h
    obtain ⟨hinv, hh, ho⟩ := Grid.reset_inv hi
    exact ⟨hinv, hkp (by rw [ho]; exact Nat.zero_le _)⟩
  | resize reflow lines columns =>
    obtain ⟨hp, h⟩ := ite_none_right_eq_some.mp h
    obtain ⟨hinv, ho⟩ := Grid.resizeImpl_spec hi hp.1 h
    exact ⟨hinv, hkp (ho hd)⟩
  | resizeConpty reflow lines columns =>
    obtain ⟨hp, h⟩ := ite_none_right_eq_some.mp h
    obtain ⟨hinv, ho⟩ := Grid.resizeImpl_spec hi hp.1 h
    exact ⟨hinv, hkp (ho hd)⟩
  | write point cell =>
    cases h
    obtain ⟨hinv, hh⟩ := hi.of_sized (hi.sized.modify point.line (·.modify point.column fun _ => cell)) hi.history_le
      g.displayOffset g.scrolledOut
    exact ⟨hinv, hkp (hd.trans_eq hh.symm)⟩
  | setCursor cursor =>
    obtain ⟨hc, h⟩ := ite_none_right_eq_some.mp h
    cases h
    exact ⟨Grid.inv_cursor hi hc, hkp hd⟩
  | setReflowOnGrow reflow =>
    cases h
    exact ⟨⟨hi.sized, hi.lines_pos, hi.history_le, hi.cursor_nonneg, hi.cursor_lt⟩, hkp hd⟩

/-- **The view into the buffer**: every state of a run is in view exactly when none of its
steps scrolls up, with the view off the bottom, a region that does not start at the top. -/
theorem inView_iff {lines : ℕ} (columns maxScrollLimit : ℕ) (hpos : 0 < lines) {ops : List (GridOp T)} {g : Grid T}
    (h : run step (.new lines columns maxScrollLimit) ops = some g) :
    Along step Grid.InView (.new lines columns maxScrollLimit) ops ↔
      Meets step Grid.KeepsInView (.new lines columns maxScrollLimit) ops := by
  have hnew : (Grid.new lines columns maxScrollLimit : Grid T).Inv := Grid.new_inv columns maxScrollLimit hpos
  refine run_along_iff step (Q := Grid.Inv) ?_ ?_ hnew (hnew.displayOffset_le_iff.mpr (Nat.zero_le _)) h
  · intro s op s' hi hview hst
    exact (step_spec hi hview.displayOffset_le hst).1
  · intro s op s' hi hview hst
    obtain ⟨hinv, hiff⟩ := step_spec hi hview.displayOffset_le hst
    exact hinv.displayOffset_le_iff.trans hiff

/-- A screen scrolled by a line, and the view at the top of the history. -/
theorem inView_iff_scrolled :
    Along step Grid.InView (.new 3 2 10 : Grid Cell) [.scrollUp 0 3 1, .scrollDisplay .top] :=
  (inView_iff 2 10 (by decide) (show run step _ [.scrollUp 0 3 1, .scrollDisplay .top] = some _ from rfl)).mpr
    ⟨.inl rfl, fun _ _ => ⟨trivial, fun _ _ => trivial⟩⟩

/-- Scrolling a region below the top moves the view past the one line of history. -/
theorem scrollUp_out_of_view :
    ¬ ∀ g, run step (.new 3 2 10 : Grid Cell) [.scrollUp 0 3 1, .scrollDisplay .top, .scrollUp 1 3 1] = some g →
      g.displayOffset ≤ g.historySize := by
  intro h
  exact absurd (h _ rfl) (by decide)

end GridOp

end Pebrel.Terminal
