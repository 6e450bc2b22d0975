import Pebrel.Terminal.GridLaws
import Pebrel.Terminal.TermScreen

/-!
# What a terminal keeps

`Term.Sound` is what holds of a terminal in every state: both of its grids are
good, of one size, and the scroll region is on the screen. `Term.Evolves` is what
an operation that keeps the size and the screen does: the terminal stays sound,
and its active grid goes on as `Grid.Evolves` says. Each theorem of the namespace
`Term.Evolves` carries an evolution over one more operation, so that the
operations that the source composes of others have proofs composed in the same way.
-/

namespace Pebrel.Terminal

open List Nat Option Grid

namespace Term

variable {t u v : Term}

/-- What holds of a terminal in every state. -/
structure Sound (t : Term) : Prop where
  grid : t.grid.Good
  inactive : t.inactiveGrid.Good
  lines_eq : t.inactiveGrid.lines = t.grid.lines
  columns_eq : t.inactiveGrid.columns = t.grid.columns
  columns_ge : minColumns ≤ t.columns
  region_nonneg : 0 ≤ t.scrollRegion.start
  region_le : t.scrollRegion.start ≤ t.scrollRegion.stop
  region_stop : t.scrollRegion.stop ≤ t.screenLines

namespace Sound

section
variable (h : t.Sound)
include h

theorem line_nonneg : 0 ≤ t.cursor.point.line := h.grid.inv.cursor_nonneg

theorem line_lt : t.cursor.point.line < t.screenLines := h.grid.inv.cursor_lt

theorem lines_pos : 0 < t.screenLines := h.grid.inv.lines_pos

theorem region : 0 ≤ t.scrollRegion.start ∧ t.scrollRegion.start ≤ t.scrollRegion.stop ∧ t.scrollRegion.stop ≤ t.screenLines :=
  ⟨h.region_nonneg, h.region_le, h.region_stop⟩

end

end Sound

/-- What an operation that keeps the size and the screen does to a terminal. -/
structure Evolves (t u : Term) : Prop where
  sound : u.Sound
  grid : t.grid.Evolves u.grid

namespace Evolves

theorem refl (h : t.Sound) : t.Evolves t := ⟨h, .refl h.grid⟩

theorem trans (h : t.Evolves u) (h' : u.Evolves v) : t.Evolves v := ⟨h'.sound, h.grid.trans h'.grid⟩

theorem screenLines_eq (h : t.Evolves u) : u.screenLines = t.screenLines := h.grid.lines_eq

/-! ### Primitive changes -/

/-- A change of the active grid. -/
theorem modifyGrid (h : t.Evolves u) {f : Grid Cell → Grid Cell} (hf : u.grid.Evolves (f u.grid)) : t.Evolves (u.modifyGrid f) := by
  have hs := h.sound
  refine h.trans ⟨⟨hf.good, hs.inactive, hs.lines_eq.trans hf.lines_eq.symm, hs.columns_eq.trans hf.columns_eq.symm, ?_,
    hs.region_nonneg, hs.region_le, ?_⟩, hf⟩
  · exact hs.columns_ge.trans_eq hf.columns_eq.symm
  · exact hs.region_stop.trans_eq (congrArg Nat.cast hf.lines_eq.symm)

/-- A change of what neither the cursor nor a row depends on. -/
theorem modifyRest (h : t.Evolves u) {v : Term} (hgrid : v.grid = u.grid) (hi : v.inactiveGrid = u.inactiveGrid)
    (hr : 0 ≤ v.scrollRegion.start ∧ v.scrollRegion.start ≤ v.scrollRegion.stop ∧ v.scrollRegion.stop ≤ u.screenLines) :
    t.Evolves v := by
  have hs := h.sound
  have hcols : v.columns = u.columns := by rw [columns, columns, hgrid]
  have hls : v.screenLines = u.screenLines := by rw [screenLines, screenLines, hgrid]
  refine h.trans ⟨⟨?_, ?_, ?_, ?_, hcols ▸ hs.columns_ge, hr.1, hr.2.1, hls ▸ hr.2.2⟩, ?_⟩
  · rw [hgrid]; exact hs.grid
  · rw [hi]; exact hs.inactive
  · rw [hgrid, hi]; exact hs.lines_eq
  · rw [hgrid, hi]; exact hs.columns_eq
  · rw [hgrid]; exact .refl hs.grid

/-- A change of what nothing here depends on. -/
theorem keepRest (h : t.Evolves u) {v : Term} (hgrid : v.grid = u.grid) (hi : v.inactiveGrid = u.inactiveGrid)
    (hr : v.scrollRegion = u.scrollRegion) : t.Evolves v :=
  h.modifyRest hgrid hi (hr ▸ h.sound.region)

section
variable (h : t.Evolves u)
include h

theorem resetInputCluster : t.Evolves u.resetInputCluster := h.keepRest rfl rfl rfl

theorem setInput (inputCluster : Option EmojiInput) (inputEnd : Option (Point × Bool)) :
    t.Evolves { u with inputCluster, inputEnd } := h.keepRest rfl rfl rfl

theorem markFullyDamaged : t.Evolves u.markFullyDamaged := h.keepRest rfl rfl rfl

theorem damageLine (line left right : ℕ) : t.Evolves (u.damageLine line left right) := h.keepRest rfl rfl rfl

theorem damagePoint (p : Point) : t.Evolves (u.damagePoint p) := h.keepRest rfl rfl rfl

theorem damageCursor : t.Evolves u.damageCursor := h.damagePoint u.cursor.point

theorem setMode (mode : TermMode) : t.Evolves { u with mode } := h.keepRest rfl rfl rfl

theorem modifyCursor {f : Cursor Cell → Cursor Cell} (hf : u.grid.CursorOk (f u.cursor)) : t.Evolves (u.modifyCursor f) :=
  h.modifyGrid (setCursor_evolves h.sound.grid hf)

theorem setPoint {p : Point} (h1 : 0 ≤ p.line) (h2 : p.line < u.screenLines) : t.Evolves (u.setPoint p) :=
  h.modifyCursor ⟨h1, h2, h.sound.grid.cursor.transient⟩

theorem setColumn (column : ℕ) : t.Evolves (u.setColumn column) :=
  h.modifyCursor ⟨h.sound.line_nonneg, h.sound.line_lt, h.sound.grid.cursor.transient⟩

theorem setLine {line : ℤ} (h1 : 0 ≤ line) (h2 : line < u.screenLines) : t.Evolves (u.setLine line) :=
  h.modifyCursor ⟨h1, h2, h.sound.grid.cursor.transient⟩

theorem setNeedsWrap (wrap : Bool) : t.Evolves (u.setNeedsWrap wrap) :=
  h.modifyCursor ⟨h.sound.line_nonneg, h.sound.line_lt, h.sound.grid.cursor.transient⟩

theorem modifyTemplate {f : Cell → Cell} (hf : ∀ c, (f c).transient = true → c.transient = true) : t.Evolves (u.modifyTemplate f) :=
  h.modifyCursor ⟨h.sound.line_nonneg, h.sound.line_lt, fun ht => h.sound.grid.cursor.transient (hf _ ht)⟩

theorem track : t.Evolves (u.modifyGrid (·.track)) := h.modifyGrid (track_evolves h.sound.grid)

theorem modifyCursorRow {f : Row Cell → Row Cell}
    (hf : ∀ r, Row.Sound u.columns u.grid.raw.mayHaveTransientContent r → Row.Sound u.columns u.grid.raw.mayHaveTransientContent (f r)) :
    t.Evolves (u.modifyCursorRow f) :=
  h.modifyGrid (modifyRow_evolves h.sound.grid (by have := h.sound.line_nonneg; show _ ≤ u.cursor.point.line; omega)
    h.sound.line_lt hf)

/-- An edit of a cell in the buffer. -/
theorem modifyCell {p : Point} (h1 : -(u.grid.historySize : ℤ) ≤ p.line) (h2 : p.line < u.screenLines)
    {f : Cell → Cell} (hf : ∀ c, (f c).transient = true → c.transient = true ∨ u.grid.raw.mayHaveTransientContent = true) :
    t.Evolves (u.modifyGrid (·.modifyCell p f)) :=
  h.modifyGrid (modifyCell_evolves h.sound.grid h1 h2 hf)

/-- An edit of a cell on the screen. -/
theorem editScreen {p : Point} (h1 : 0 ≤ p.line) (h2 : p.line < u.screenLines)
    {f : Cell → Cell} (hf : ∀ c, (f c).transient = true → c.transient = true ∨ u.grid.raw.mayHaveTransientContent = true) :
    t.Evolves (u.modifyGrid (·.modifyCell p f)) :=
  h.modifyCell ((Int.neg_nonpos_of_nonneg (Int.natCast_nonneg _)).trans h1) h2 hf

theorem modifyCursorCell {f : Cell → Cell}
    (hf : ∀ c, (f c).transient = true → c.transient = true ∨ u.grid.raw.mayHaveTransientContent = true) :
    t.Evolves (u.modifyCursorCell f) :=
  h.editScreen (p := u.cursor.point) h.sound.line_nonneg h.sound.line_lt hf

end

/-! ### Scrolling -/

section
variable (h : t.Evolves u)
include h

theorem scrollDownRelative {origin : ℤ} (ho : 0 ≤ origin) (lines : ℕ) : t.Evolves (u.scrollDownRelative origin lines) := by
  unfold Term.scrollDownRelative
  refine .markFullyDamaged (h.resetInputCluster.modifyGrid ?_)
  exact scrollDown_evolves h.sound.grid ho h.sound.region_stop

theorem scrollUpRelative {origin : ℤ} (h1 : u.scrollRegion.start ≤ origin)
    (h2 : origin ≤ u.scrollRegion.stop) (lines : ℕ) : t.Evolves (u.scrollUpRelative origin lines) := by
  have hs := h.sound
  have hr := hs.region
  unfold Term.scrollUpRelative
  refine .markFullyDamaged (h.resetInputCluster.modifyGrid ?_)
  refine scrollUp_evolves hs.grid (by omega) h2 hs.region_stop fun h0 => ?_
  show ((min lines (u.scrollRegion.stop - u.scrollRegion.start).toNat : ℕ) : ℤ) ≤ u.scrollRegion.stop
  omega

theorem conptyRealign {target : ℕ} (ht : target < u.screenLines) : t.Evolves (u.conptyRealign target) := by
  have h1 := h.sound.line_nonneg
  have h2 := h.sound.line_lt
  unfold Term.conptyRealign
  simp only
  split
  · exact h
  rename_i hn
  refine .markFullyDamaged ?_
  split
  · have hup : t.Evolves (u.resetInputCluster.modifyGrid (·.scrollUp 0 u.screenLines (u.grid.cursor.point.line - target).natAbs)) :=
      h.resetInputCluster.modifyGrid (scrollUp_evolves h.sound.grid le_rfl (by omega) le_rfl fun _ => by omega)
    exact hup.setLine (by omega) (by rw [hup.screenLines_eq, ← h.screenLines_eq]; omega)
  · have hdo : t.Evolves (u.resetInputCluster.modifyGrid (·.scrollDown 0 u.screenLines (u.grid.cursor.point.line - target).natAbs)) :=
      h.resetInputCluster.modifyGrid (scrollDown_evolves h.sound.grid le_rfl le_rfl)
    exact hdo.setLine (by omega) (by rw [hdo.screenLines_eq, ← h.screenLines_eq]; omega)

theorem scrollUp (lines : ℕ) : t.Evolves (u.scrollUp lines) := h.scrollUpRelative le_rfl h.sound.region_le lines

theorem scrollDown (lines : ℕ) : t.Evolves (u.scrollDown lines) := h.scrollDownRelative h.sound.region_nonneg lines

theorem insertBlankLines (lines : ℕ) : t.Evolves (u.insertBlankLines lines) := by
  unfold Term.insertBlankLines
  simp only
  split
  · exact h.scrollDownRelative h.sound.line_nonneg lines
  · exact h

theorem deleteLines (lines : ℕ) : t.Evolves (u.deleteLines lines) := by
  unfold Term.deleteLines
  simp only
  split
  · rename_i hin
    simp only [Region.contains, Bool.and_eq_true, decide_eq_true_eq] at hin
    exact h.scrollUpRelative hin.2.1 hin.2.2.le _
  · exact h

theorem scrollDisplay (scroll : Scroll) : t.Evolves (u.scrollDisplay scroll) := by
  have hgrid := h.modifyGrid (f := (·.scrollDisplay scroll)) (scrollDisplay_evolves h.sound.grid scroll)
  unfold Term.scrollDisplay
  simp only
  split
  · exact hgrid.markFullyDamaged
  · exact hgrid

end

/-! ### Moving the cursor -/

section
variable (h : t.Evolves u)
include h

theorem goto (line : ℤ) (col : ℕ) : t.Evolves (u.goto line col) := by
  have hp := h.sound.lines_pos
  have hr := h.sound.region
  have hb : u.bottommostLine = (u.screenLines : ℤ) - 1 := rfl
  refine (((h.resetInputCluster.damageCursor).setPoint ?_ ?_).damageCursor).setNeedsWrap false
  · exact le_max_right _ _
  · show max (min (line + _) (if u.mode.origin = true then u.scrollRegion.stop - 1 else u.bottommostLine)) 0 < (u.screenLines : ℤ)
    split <;> omega

theorem moveForward (cols : ℕ) : t.Evolves (u.moveForward cols) :=
  ((h.resetInputCluster.damageLine _ _ _).setColumn _).setNeedsWrap false

theorem moveBackward (cols : ℕ) : t.Evolves (u.moveBackward cols) :=
  ((h.resetInputCluster.damageLine _ _ _).setColumn _).setNeedsWrap false

theorem backspace : t.Evolves u.backspace := by
  unfold Term.backspace
  simp only
  split
  · exact ((h.resetInputCluster.setColumn _).setNeedsWrap false).damageLine _ _ _
  · exact h.resetInputCluster

theorem carriageReturn : t.Evolves u.carriageReturn := ((h.resetInputCluster.damageLine _ _ _).setColumn 0).setNeedsWrap false

theorem linefeed : t.Evolves u.linefeed := by
  have hl := h.sound.line_nonneg
  unfold Term.linefeed
  simp only
  split_ifs with hsp hnx
  · exact h.resetInputCluster.scrollUp 1
  · exact ((h.resetInputCluster.damageCursor).setLine (by show 0 ≤ u.cursor.point.line + 1; omega) hnx).damageCursor
  · exact h.resetInputCluster

theorem newline : t.Evolves u.newline := by
  unfold Term.newline
  simp only
  split
  · exact h.linefeed.carriageReturn
  · exact h.linefeed

theorem reverseIndex : t.Evolves u.reverseIndex := by
  have hlt := h.sound.line_lt
  have hp := h.sound.lines_pos
  unfold Term.reverseIndex
  simp only
  split
  · exact h.resetInputCluster.scrollDown 1
  · refine ((h.resetInputCluster.damageCursor).setLine (le_max_right _ _) ?_).damageCursor
    show max (u.cursor.point.line - 1) 0 < (u.screenLines : ℤ)
    omega

theorem saveCursorPosition : t.Evolves u.saveCursorPosition :=
  h.modifyGrid (setCursors_evolves h.sound.grid h.sound.grid.cursor h.sound.grid.cursor)

theorem restoreCursorPosition : t.Evolves u.restoreCursorPosition := by
  unfold Term.restoreCursorPosition
  refine .damageCursor (h.resetInputCluster.damageCursor.modifyGrid ?_)
  exact setCursor_evolves h.sound.grid h.sound.grid.saved

theorem setScrollingRegion {top : ℕ} (ht : 1 ≤ top) (bottom : Option ℕ) : t.Evolves (u.setScrollingRegion top bottom) := by
  unfold Term.setScrollingRegion
  simp only
  split
  · exact h
  rename_i hlt
  refine .goto ?_ 0 0
  refine h.modifyRest rfl rfl ?_
  show 0 ≤ min ((top : ℤ) - 1) u.screenLines ∧ min ((top : ℤ) - 1) u.screenLines ≤ min ((bottom.getD u.screenLines : ℕ) : ℤ) u.screenLines ∧
    min ((bottom.getD u.screenLines : ℕ) : ℤ) u.screenLines ≤ u.screenLines
  omega

theorem moveForwardTabs (count : ℕ) : t.Evolves (u.moveForwardTabs count) := (h.resetInputCluster.setColumn _).damageLine _ _ _

theorem moveBackwardTabs (count : ℕ) : t.Evolves (u.moveBackwardTabs count) := (h.resetInputCluster.setColumn _).damageLine _ _ _

theorem setTabs (tabs : List Bool) : t.Evolves { u with tabs } := h.keepRest rfl rfl rfl

theorem putOneTab (map : Char → Char) : t.Evolves (u.putOneTab map) := by
  unfold Term.putOneTab
  refine (h.modifyCursorCell fun c => ?_).setColumn _
  split
  · exact .inl
  · exact .inl

theorem putTabs (map : Char → Char) (count : ℕ) : t.Evolves ((.putOneTab map)^[count] u) := by
  induction count generalizing u with
  | zero => exact h
  | succ n ih => exact ih (h.putOneTab map)

theorem wrapline : t.Evolves u.wrapline := by
  unfold Term.wrapline
  simp only
  split
  · exact h
  generalize hmark : (if u.cursor.point.line + 1 < (u.screenLines : ℤ) ∨ u.cursor.point.line + 1 = u.scrollRegion.stop then
    u.modifyCursorCell insertWrapline else u.modifyCursorCell .removeWrap) = marked
  have hm : u.Evolves marked := by
    rw [← hmark]
    split
    · exact (refl h.sound).modifyCursorCell fun _ => .inl
    · exact (refl h.sound).modifyCursorCell fun _ => .inl
  have hr : marked.scrollRegion = u.scrollRegion := by
    rw [← hmark]
    split <;> rfl
  have hmv : u.Evolves (if u.cursor.point.line + 1 ≥ marked.scrollRegion.stop then marked.linefeed
      else marked.damageCursor.setLine (u.cursor.point.line + 1)) := by
    split
    · exact hm.linefeed
    rename_i hlt
    have hl := h.sound.line_nonneg
    have hsp := h.sound.region_stop
    rw [hr] at hlt
    refine hm.damageCursor.setLine (by omega) ?_
    rw [show marked.damageCursor.screenLines = u.screenLines from hm.screenLines_eq]
    omega
  exact h.trans (((hmv.setColumn 0).setNeedsWrap false).damageCursor)

theorem putTab (x : Unicode) (count : ℕ) : t.Evolves (u.putTab x count) := by
  unfold Term.putTab
  simp only
  split
  · exact h.resetInputCluster.wrapline
  · exact h.resetInputCluster.putTabs x.map count

/-- A combining character. -/
theorem pushZerowidth {p : Point} (h1 : 0 ≤ p.line) (h2 : p.line < u.screenLines) (c : Char) :
    t.Evolves (u.modifyGrid (·.modifyCell p (·.pushZerowidth c))) :=
  h.editScreen h1 h2 fun d ht => .inl (by simpa using ht)

end

theorem clusterPoint_line (t : Term) : t.clusterPoint.line = t.cursor.point.line := by
  unfold clusterPoint
  simp only
  split_ifs <;> rfl

theorem combine (h : t.Evolves u) (c : Char) : t.Evolves (u.combine c) :=
  h.pushZerowidth (p := u.clusterPoint) (by rw [clusterPoint_line]; exact h.sound.line_nonneg)
    (by rw [clusterPoint_line]; exact h.sound.line_lt) c

/-! ### The screen -/

section
variable (h : t.Evolves u)
include h

theorem resetRegion {a b : ℤ} (ha : 0 ≤ a) (hb : b ≤ u.screenLines) : t.Evolves (u.resetRegion a b) := by
  refine h.modifyGrid (resetLines_evolves h.sound.grid fun line hl => ?_)
  rw [mem_lineRange] at hl
  show 0 ≤ line ∧ line < (u.screenLines : ℤ)
  omega

theorem deccolm : t.Evolves u.deccolm := ((h.setScrollingRegion le_rfl none).resetRegion le_rfl le_rfl).markFullyDamaged

theorem finishRedrawAnchor (line : Option ℤ) : t.Evolves (u.finishRedrawAnchor line) := by
  unfold Term.finishRedrawAnchor
  split
  · exact h
  · exact (h.scrollDisplay .bottom).scrollDisplay _

theorem promptJump (up : Bool) : t.Evolves (u.promptJump up).1 := by
  unfold Term.promptJump
  split
  · exact h
  cases u.jumpTarget up with
  | none => exact h
  | some mark =>
    dsimp only
    generalize wrapI32 (wrapI32 (u.jumpOffset mark) - wrapI32 u.grid.displayOffset) = delta
    split
    · exact h
    · exact h.scrollDisplay (.delta delta)

theorem endPrompt : t.Evolves u.endPrompt := h.keepRest rfl rfl rfl

theorem markPromptInput : t.Evolves u.markPromptInput := by
  unfold Term.markPromptInput
  split
  · exact h.keepRest rfl rfl rfl
  · exact h

theorem inlineContentGridMut : t.Evolves u.inlineContentGridMut := h.resetInputCluster.track

/-- An inline marker on a cell of the buffer. -/
theorem setInlineMarker {p : Point} (h1 : -(u.grid.historySize : ℤ) ≤ p.line) (h2 : p.line < u.screenLines)
    (hfl : u.grid.raw.mayHaveTransientContent = true) (marker : ℕ) :
    t.Evolves (u.modifyGrid (·.modifyCell p (·.setInlineMarker marker))) := h.modifyCell h1 h2 fun _ _ => .inr hfl

theorem placeMarker (marker : ℕ) : t.Evolves (u.placeMarker marker) := by
  have ht := h.inlineContentGridMut
  unfold Term.placeMarker
  simp only
  split
  · have hrs := ht.modifyCursorRow (f := (·.reset default)) fun r hr => (Row.sound_laws _ _).reset r default hr
    refine hrs.setInlineMarker ?_ hrs.sound.line_lt rfl marker
    have hl := hrs.sound.line_nonneg
    exact (Int.neg_nonpos_of_nonneg (Int.natCast_nonneg _)).trans hl
  · exact ht

/-- Markers on lines of the buffer. -/
theorem markLines {line : ℤ} {count : ℕ} (h1 : -(u.grid.historySize : ℤ) ≤ line)
    (h2 : line + count ≤ u.screenLines) (marker : ℕ) : t.Evolves (u.markLines line count marker) := by
  unfold Term.markLines
  have hfold : ∀ (rows : List ℕ) (v : Term), t.Evolves v → v.grid.raw.mayHaveTransientContent = true →
      v.grid.historySize = u.grid.historySize → v.screenLines = u.screenLines → (∀ row ∈ rows, row < count) →
      t.Evolves (rows.foldl (fun t row => t.modifyGrid (·.modifyCell ⟨line + row, 0⟩ (·.setInlineMarker marker))) v) := by
    intro rows
    induction rows with
    | nil => exact fun v hv _ _ _ _ => hv
    | cons row rows ih =>
      intro v hv hfl hh hl hrows
      have hrow := hrows row mem_cons_self
      refine ih _ (hv.setInlineMarker ?_ ?_ hfl marker) hfl hh hl fun r hr => hrows r (mem_cons_of_mem row hr)
      · show -(v.grid.historySize : ℤ) ≤ line + row
        omega
      · show line + row < (v.screenLines : ℤ)
        omega
  exact hfold _ _ h.inlineContentGridMut rfl rfl rfl fun row hr => mem_range.mp hr

end

end Evolves

end Term

end Pebrel.Terminal
