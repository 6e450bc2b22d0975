import Pebrel.Terminal.RowBound
import Pebrel.Terminal.RowMoves
import Pebrel.Terminal.Term

/-!
# What a terminal's grid keeps

`Grid.Good` is what holds of a terminal's grid in every state: `Grid.Inv`, rows
that are sound (`Row.Sound`), and both cursors on lines of the screen, with
templates that the grid may have. `Grid.Evolves` is what an operation does that
keeps the size of a grid: the grid stays good, and may have what it might have.
-/

namespace Pebrel.Terminal

open List Nat

variable {T : Type}

/-! ### The flag of a storage -/

namespace Storage

@[simp] theorem transient_swapLines (s : Storage T) (d : ℤ) (lines : List ℤ) :
    (s.swapLines d lines).mayHaveTransientContent = s.mayHaveTransientContent := by
  induction lines generalizing s with
  | nil => rfl
  | cons a lines ih =>
    refine (ih (s.swap a (a + d))).trans ?_
    unfold swap
    split <;> rfl

variable [GridCell T]

@[simp] theorem transient_resetLines (s : Storage T) (template : T) (lines : List ℤ) :
    (s.resetLines template lines).mayHaveTransientContent = s.mayHaveTransientContent := by
  induction lines generalizing s with
  | nil => rfl
  | cons a lines ih => exact ih (s.modify a (·.reset template))

@[simp] theorem transient_rotate (s : Storage T) (count : ℤ) : (s.rotate count).mayHaveTransientContent = s.mayHaveTransientContent := rfl

@[simp] theorem transient_shrinkLines (s : Storage T) (shrinkage : ℕ) :
    (s.shrinkLines shrinkage).mayHaveTransientContent = s.mayHaveTransientContent := by
  rw [shrinkLines_eq]
  split <;> rfl

end Storage

/-! ### Good grids -/

namespace Grid

variable {g g' g'' : Grid Cell}

/-- A cursor on a line of the screen, with a template that the grid may have. -/
structure CursorOk (g : Grid Cell) (c : Cursor Cell) : Prop where
  line_nonneg : 0 ≤ c.point.line
  line_lt : c.point.line < g.lines
  transient : c.template.transient = true → g.raw.mayHaveTransientContent = true

/-- What holds of a terminal's grid in every state. -/
structure Good (g : Grid Cell) : Prop where
  inv : g.Inv
  rows : g.raw.Holds (Row.Sound g.columns g.raw.mayHaveTransientContent) Row.Clean
  cursor : g.CursorOk g.cursor
  saved : g.CursorOk g.savedCursor

/-- The cursor is as good in a grid of the same size that may have more. -/
theorem CursorOk.congr {c : Cursor Cell} (h : g.CursorOk c) (hl : g'.lines = g.lines)
    (hfl : g.raw.mayHaveTransientContent = true → g'.raw.mayHaveTransientContent = true) : g'.CursorOk c :=
  ⟨h.line_nonneg, by rw [hl]; exact h.line_lt, fun ht => hfl (h.transient ht)⟩

/-! ### One operation -/

/-- What an operation that keeps the size of a grid does to it. -/
structure Evolves (g g' : Grid Cell) : Prop where
  good : g'.Good
  lines_eq : g'.lines = g.lines
  columns_eq : g'.columns = g.columns
  flag : g.raw.mayHaveTransientContent = true → g'.raw.mayHaveTransientContent = true

theorem Evolves.refl (h : g.Good) : g.Evolves g := ⟨h, rfl, rfl, id⟩

theorem Evolves.trans (h : g.Evolves g') (h' : g'.Evolves g'') : g.Evolves g'' :=
  ⟨h'.good, h'.lines_eq.trans h.lines_eq, h'.columns_eq.trans h.columns_eq, fun hf => h'.flag (h.flag hf)⟩

/-- A storage that keeps its flag and its rows in a grid that keeps its invariant. -/
theorem Good.of_storage (h : g.Good) {raw : Storage Cell} {offset out : ℕ}
    (hi : ({ g with raw, displayOffset := offset, scrolledOut := out } : Grid Cell).Inv)
    (hfl : raw.mayHaveTransientContent = g.raw.mayHaveTransientContent)
    (hr : raw.Holds (Row.Sound g.columns g.raw.mayHaveTransientContent) Row.Clean) :
    ({ g with raw, displayOffset := offset, scrolledOut := out } : Grid Cell).Good where
  inv := hi
  rows := by rw [hfl]; exact hr
  cursor := h.cursor.congr rfl fun hf => hfl.trans hf
  saved := h.saved.congr rfl fun hf => hfl.trans hf

theorem setCursors_evolves (h : g.Good) {cursor savedCursor : Cursor Cell} (hc : g.CursorOk cursor)
    (hs : g.CursorOk savedCursor) : g.Evolves { g with cursor, savedCursor } where
  good :=
    { inv := ⟨h.inv.sized, h.inv.lines_pos, h.inv.history_le, hc.line_nonneg, hc.line_lt⟩
      rows := h.rows
      cursor := hc.congr rfl id
      saved := hs.congr rfl id }
  lines_eq := rfl
  columns_eq := rfl
  flag := id

theorem setCursor_evolves (h : g.Good) {cursor : Cursor Cell} (hc : g.CursorOk cursor) :
    g.Evolves { g with cursor } := setCursors_evolves h hc h.saved

theorem track_evolves (h : g.Good) : g.Evolves g.track where
  good :=
    { inv := ⟨⟨⟨h.inv.sized.ok.zero_lt, h.inv.sized.ok.len_le⟩, h.inv.sized.visibleLines_eq, h.inv.sized.len_eq⟩,
        h.inv.lines_pos, h.inv.history_le, h.inv.cursor_nonneg, h.inv.cursor_lt⟩
      rows := ⟨fun r hr => (h.rows.rows r hr).mono, fun r hr => ⟨(h.rows.cache r hr).1.mono, (h.rows.cache r hr).2⟩⟩
      cursor := h.cursor.congr rfl fun _ => rfl
      saved := h.saved.congr rfl fun _ => rfl }
  lines_eq := rfl
  columns_eq := rfl
  flag _ := rfl

/-- A write to a row of the buffer. -/
theorem modifyRow_evolves (h : g.Good) {line : ℤ} (h1 : -(g.historySize : ℤ) ≤ line) (h2 : line < g.lines) {f : Row Cell → Row Cell}
    (hf : ∀ r, Row.Sound g.columns g.raw.mayHaveTransientContent r → Row.Sound g.columns g.raw.mayHaveTransientContent (f r)) :
    g.Evolves (g.modifyRow line f) := by
  obtain ⟨hi, -⟩ := h.inv.of_sized (h.inv.sized.modify line f) h.inv.history_le g.displayOffset g.scrolledOut
  exact ⟨h.of_storage hi rfl (h.rows.modify h.inv.sized.ok (h.inv.inRange h1 h2) fun r _ => hf r), rfl, rfl, id⟩

/-- An edit of a cell of the buffer. -/
theorem modifyCell_evolves (h : g.Good) {p : Point} (h1 : -(g.historySize : ℤ) ≤ p.line) (h2 : p.line < g.lines) {f : Cell → Cell}
    (hf : ∀ c, (f c).transient = true → c.transient = true ∨ g.raw.mayHaveTransientContent = true) : g.Evolves (g.modifyCell p f) :=
  modifyRow_evolves h h1 h2 fun _ hr => ⟨(Row.len_modify ..).trans hr.len_eq, hr.tracked.modify p.column fun c _ => hf c⟩

theorem resetLines_evolves (h : g.Good) {lines : List ℤ} (hls : ∀ a ∈ lines, 0 ≤ a ∧ a < g.lines) :
    g.Evolves (g.resetLines lines) := by
  have hin : ∀ a ∈ lines, g.raw.InRange a := fun a ha => h.inv.inRange (by have := hls a ha; omega) (hls a ha).2
  obtain ⟨hi, -⟩ := resetLines_inv h.inv lines
  exact ⟨h.of_storage hi (Storage.transient_resetLines ..) (h.rows.resetLines h.inv.sized (Row.sound_laws _ _) hin), rfl, rfl,
    fun hf => (Storage.transient_resetLines ..).trans hf⟩

/-! ### Scrolling -/

section
variable {stop : ℤ} {positions : ℕ}

/-- What the rows satisfy after scrolling into the history, before the lines of the region are reset. -/
theorem scrolledRaw_holds (h : g.Good) (hn : (positions : ℤ) ≤ stop) (hsp : stop ≤ g.lines) :
    (g.scrolledRaw stop positions).mayHaveTransientContent = g.raw.mayHaveTransientContent ∧
      (g.scrolledRaw stop positions).Holds (Row.Sound g.columns g.raw.mayHaveTransientContent) Row.Clean := by
  have hle := h.inv.history_le
  unfold scrolledRaw
  simp only
  generalize hraw : (if min positions (g.maxScrollLimit - g.historySize) ≠ 0 then
    g.raw.initializeRows (min positions (g.maxScrollLimit - g.historySize)) g.columns else g.raw) = raw
  obtain ⟨hsz, -⟩ := grownRaw_spec h.inv hraw
  have hfl : raw.mayHaveTransientContent = g.raw.mayHaveTransientContent := by
    rw [← hraw]
    split
    · exact Storage.transient_initializeRows ..
    · rfl
  have hr : raw.Holds (Row.Sound g.columns g.raw.mayHaveTransientContent) Row.Clean := by
    rw [← hraw]
    split
    · exact h.rows.initializeRows h.inv.sized.ok (Row.sound_laws _ _) _
    · exact h.rows
  have hc : (-(positions : ℤ)).natAbs ≤ raw.inner.length := by
    have := hsz.ok.len_le
    rw [hsz.len_eq] at this
    omega
  have hrot := hsz.rotate (-positions)
  refine ⟨by simp [hfl], .swapLines ?_ hrot fun a ha => ?_⟩
  · exact hr.rotate hsz.ok (by rw [hfl]; exact Row.sound_laws g.columns _) hc
  · rw [mem_reverse, mem_lineRange] at ha
    exact ⟨hrot.inRange (by omega) (by omega), hrot.inRange (by omega) (by omega)⟩

theorem scrollUp_evolves (h : g.Good) {start : ℤ} (hst : 0 ≤ start) (hle : start ≤ stop)
    (hsp : stop ≤ g.lines) (hn : start = 0 → (positions : ℤ) ≤ stop) : g.Evolves (g.scrollUp start stop positions) := by
  have hl := h.inv.history_le
  have hi := scrollUp_inv h.inv start stop positions
  by_cases h0 : start = 0
  · subst h0
    have hsz := scrolledRaw_sized h.inv stop positions
    obtain ⟨hfl, hr⟩ := scrolledRaw_holds h (hn rfl) hsp
    rw [scrollUp_top_eq] at hi ⊢
    refine ⟨h.of_storage hi (by simp [hfl]) (hr.resetLines hsz (Row.sound_laws g.columns _) fun a ha => ?_), rfl, rfl, fun hf => ?_⟩
    · rw [mem_lineRange] at ha
      have := hn rfl
      exact hsz.inRange (by omega) (by omega)
    · exact ((Storage.transient_resetLines ..).trans hfl).trans hf
  · unfold scrollUp
    split
    · exact resetLines_evolves h fun a ha => by rw [mem_lineRange] at ha; omega
    rename_i hrs
    have hrs' : (positions : ℤ) < stop - start := by
      by_contra hc
      exact hrs ⟨by omega, h0⟩
    have hswap : ∀ a ∈ lineRange start (stop - positions), g.raw.InRange a ∧ g.raw.InRange (a + positions) := by
      intro a ha
      rw [mem_lineRange] at ha
      exact ⟨h.inv.inRange (by omega) (by omega), h.inv.inRange (by omega) (by omega)⟩
    have hs : g.Evolves { g with
        raw := g.raw.swapLines positions (lineRange start (stop - positions))
        displayOffset := g.bumpedOffset positions } := by
      obtain ⟨hi', -⟩ := h.inv.of_sized (h.inv.sized.swapLines positions (lineRange start (stop - positions)))
        h.inv.history_le (g.bumpedOffset positions) g.scrolledOut
      exact ⟨h.of_storage hi' (by simp) (h.rows.swapLines h.inv.sized hswap), rfl, rfl,
        fun hf => (Storage.transient_swapLines ..).trans hf⟩
    exact hs.trans (resetLines_evolves hs.good fun a ha => by
      rw [mem_lineRange] at ha
      show 0 ≤ a ∧ a < g.lines
      omega)

theorem scrollDown_evolves (h : g.Good) {start : ℤ} (hst : 0 ≤ start)
    (hsp : stop ≤ g.lines) : g.Evolves (g.scrollDown start stop positions) := by
  have hsz := h.inv.sized
  unfold scrollDown
  split_ifs with hrs hl
  · exact resetLines_evolves h fun a ha => by rw [mem_lineRange] at ha; omega
  · -- without a history all rows are on the screen
    have hz : g.historySize = 0 := by have := h.inv.history_le; omega
    have hb : ∀ a ∈ lineRange stop g.lines, g.raw.InRange a ∧ g.raw.InRange (a + -positions) := by
      intro a ha
      rw [mem_lineRange] at ha
      exact ⟨h.inv.inRange (by omega) (by omega), h.inv.inRange (by omega) (by omega)⟩
    have hs1 := hsz.swapLines (-positions) (lineRange stop g.lines)
    have hr1 := h.rows.swapLines hsz hb
    have hc : (positions : ℤ).natAbs ≤ (g.raw.swapLines (-positions) (lineRange stop g.lines)).inner.length := by
      have := hs1.ok.len_le
      rw [hs1.len_eq] at this
      omega
    have hs2 := hs1.rotate positions
    have hr2 := hr1.rotate hs1.ok (by rw [Storage.transient_swapLines]; exact Row.sound_laws g.columns _) hc
    have hs3 := hs2.resetLines g.cursor.template (lineRange 0 positions)
    have hr3 : Storage.Holds _ _ (.resetLines _ g.cursor.template (lineRange 0 positions)) :=
      hr2.resetLines hs2 (Row.sound_laws g.columns _) fun a ha => by
        rw [mem_lineRange] at ha
        exact hs2.inRange (by omega) (by omega)
    obtain ⟨hi, -⟩ := h.inv.of_sized (hs3.swapLines positions (lineRange 0 start)) h.inv.history_le g.displayOffset g.scrolledOut
    simp only [Storage.rotateDown]
    refine ⟨h.of_storage hi (by simp) (hr3.swapLines hs3 fun a ha => ?_), rfl, rfl, fun hf => by simpa using hf⟩
    rw [mem_lineRange] at ha
    exact ⟨hs3.inRange (by omega) (by omega), hs3.inRange (by omega) (by omega)⟩
  · have hin : ∀ a ∈ (lineRange (start + positions) stop).reverse, g.raw.InRange a ∧ g.raw.InRange (a + -positions) := by
      intro a ha
      rw [mem_reverse, mem_lineRange] at ha
      exact ⟨h.inv.inRange (by omega) (by omega), h.inv.inRange (by omega) (by omega)⟩
    have hswa : g.Evolves { g with
        raw := g.raw.swapLines (-positions) (lineRange (start + positions) stop).reverse } := by
      obtain ⟨hi, -⟩ := h.inv.of_sized (hsz.swapLines (-positions) (lineRange (start + positions) stop).reverse)
        h.inv.history_le g.displayOffset g.scrolledOut
      exact ⟨h.of_storage hi (by simp) (h.rows.swapLines hsz hin), rfl, rfl, fun hf => (Storage.transient_swapLines ..).trans hf⟩
    exact hswa.trans (resetLines_evolves hswa.good fun a ha => by
      rw [mem_reverse, mem_lineRange] at ha
      show 0 ≤ a ∧ a < g.lines
      omega)

end

theorem scrollDisplay_evolves (h : g.Good) (scroll : Scroll) : g.Evolves (g.scrollDisplay scroll) :=
  ⟨h.of_storage (scrollDisplay_inv h.inv scroll) rfl h.rows, rfl, rfl, id⟩

/-! ### Clearing -/

/-- Dropping lines from the top of the history. -/
theorem dropHistory (h : g.Good) {count : ℕ} (hc : count ≤ g.historySize) (offset : ℕ) :
    ({ g with
        scrolledOut := g.scrolledOut + count
        raw := g.raw.shrinkLines count
        displayOffset := offset } : Grid Cell).Good := by
  have hp := h.inv.lines_pos
  have hl := h.inv.sized.len_eq
  have hs : (g.raw.shrinkLines count).Sized g.lines (g.lines + (g.historySize - count)) := by
    rw [show g.lines + (g.historySize - count) = g.lines + g.historySize - count by omega]
    exact h.inv.sized.shrinkLines (by omega)
  obtain ⟨hi, -⟩ := h.inv.of_sized hs (by have := h.inv.history_le; omega) offset (g.scrolledOut + count)
  exact h.of_storage hi (by simp) (h.rows.shrinkLines h.inv.sized.ok (Row.sound_laws _ _) (by omega))

theorem clearHistory_evolves (h : g.Good) : g.Evolves g.clearHistory :=
  ⟨dropHistory h le_rfl 0, rfl, rfl, fun hf => (Storage.transient_shrinkLines ..).trans hf⟩

/-- A new limit of the history; the lines beyond it are dropped. -/
theorem updateHistory_spec (h : g.Good) (n : ℕ) :
    (g.updateHistory n).Good ∧ (g.updateHistory n).lines = g.lines ∧ (g.updateHistory n).columns = g.columns := by
  obtain ⟨hi, -⟩ := updateHistory_inv h.inv n
  unfold updateHistory at hi ⊢
  simp only at hi ⊢
  split at hi
  · rename_i hgt
    simp only [if_pos hgt]
    have hgood := dropHistory h (show g.historySize - n ≤ g.historySize by omega) (min g.displayOffset n)
    exact ⟨⟨hi, hgood.rows, hgood.cursor.congr rfl id, hgood.saved.congr rfl id⟩, trivial, trivial⟩
  · rename_i hgt
    simp only [if_neg hgt]
    exact ⟨⟨hi, h.rows, h.cursor.congr rfl id, h.saved.congr rfl id⟩, trivial, trivial⟩

/-- Walking back through the cells never leads to a line below. -/
theorem lastOccupied_le (g : Grid Cell) (fuel : ℕ) (it : GridIterator) : (g.lastOccupied fuel it).point.line ≤ it.point.line := by
  induction fuel generalizing it with
  | zero => exact le_rfl
  | succ fuel ih =>
    unfold lastOccupied
    split
    · exact le_rfl
    rename_i it' hpv
    have hle : it'.point.line ≤ it.point.line := by
      unfold GridIterator.prev at hpv
      split_ifs at hpv
      · cases hpv
        show it.point.line - 1 ≤ it.point.line
        omega
      · cases hpv
        exact le_rfl
    split
    · exact hle
    · exact (ih it').trans hle

theorem clearViewport_evolves (h : g.Good) : g.Evolves g.clearViewport := by
  unfold clearViewport
  have hle := g.lastOccupied_le (g.lines * g.columns + 1) (g.iterFrom ⟨g.lines - 1, g.columns⟩)
  generalize g.lastOccupied (g.lines * g.columns + 1) (g.iterFrom ⟨g.lines - 1, g.columns⟩) = it at hle ⊢
  have hst : (g.iterFrom ⟨(g.lines : ℤ) - 1, g.columns⟩).point.line = (g.lines : ℤ) - 1 := rfl
  rw [hst] at hle
  have hposs : ((it.point.line + 1).toNat : ℤ) ≤ g.lines := by
    have := h.inv.lines_pos
    omega
  have hup : g.Evolves (g.scrollUp 0 g.lines (it.point.line + 1).toNat) :=
    scrollUp_evolves h le_rfl (by omega) le_rfl fun _ => hposs
  refine hup.trans (resetLines_evolves hup.good fun a ha => ?_)
  rw [mem_lineRange] at ha
  rw [scrollUp_lines]
  omega

theorem cursorOk_fresh (h : g.Good) : g.CursorOk .fresh :=
  ⟨le_rfl, Int.ofNat_lt.mpr h.inv.lines_pos, nofun⟩

theorem reset_evolves (h : g.Good) : g.Evolves g.reset := by
  have hc := clearHistory_evolves h
  have hfr := cursorOk_fresh hc.good
  have hcur := hc.trans (setCursors_evolves hc.good hfr hfr)
  have hz : ({ g.clearHistory with savedCursor := .fresh, cursor := .fresh, displayOffset := 0 } : Grid Cell).historySize = 0 :=
    (clearHistory_inv h.inv).2
  refine hcur.trans (resetLines_evolves hcur.good fun a ha => ?_)
  rw [mem_lineRange] at ha
  have ht : (dims { g.clearHistory with savedCursor := .fresh, cursor := .fresh, displayOffset := 0 }).topmostLine =
      -((0 : ℕ) : ℤ) := by rw [← hz]; rfl
  rw [ht] at ha
  exact ⟨by omega, ha.2⟩

theorem newForTerminal_good {lines : ℕ} (columns history : ℕ) (hl : 0 < lines) :
    (newForTerminal lines columns history).Good where
  inv := by
    have hi : (.new lines columns history : Grid Cell).Inv := new_inv columns history hl
    exact ⟨⟨⟨hi.sized.ok.zero_lt, hi.sized.ok.len_le⟩, hi.sized.visibleLines_eq, hi.sized.len_eq⟩, hi.lines_pos,
      hi.history_le, hi.cursor_nonneg, hi.cursor_lt⟩
  rows := by
    have hfr : (newForTerminal lines columns history).raw.abs = ⟨replicate lines (.new columns), [], lines, false⟩ := by
      simp [newForTerminal, Grid.new, Storage.withCapacity, Storage.abs, Storage.ring]
    unfold Storage.Holds
    rw [hfr]
    refine ⟨fun r hr => ?_, fun r hr => by cases hr⟩
    rw [eq_of_mem_replicate hr]
    exact (Row.sound_laws columns false).fresh.1
  cursor := ⟨le_rfl, Int.ofNat_lt.mpr hl, nofun⟩
  saved := ⟨le_rfl, Int.ofNat_lt.mpr hl, nofun⟩

end Grid

end Pebrel.Terminal
