import Pebrel.Terminal.ResizeSound
import Pebrel.Terminal.TermWrites

/-!
# Runs of a terminal

Every step of a terminal keeps what holds of it (`Term.Sound`). The steps that
keep the size and the screen are evolutions; the others, which swap the screens,
reset, resize or give the history a new limit, are treated one by one.
-/

namespace Pebrel.Terminal

open Library.Transition List Nat Option Int Grid

/-! ### Steps that keep the screen -/

namespace Attr

/-- An attribute of the template makes no cell transient. -/
theorem transient_apply {c : Cell} (attr : Attr) (h : (attr.apply c).transient = true) : c.transient = true := by
  cases attr with
  | underlineColor color => exact Cell.transient_setUnderlineColor h
  | reset => exact Cell.transient_setUnderlineColor (c := { c with fg := .foreground, bg := .background, flags := {} }) h
  | _ => exact h

end Attr

namespace TermOp

/-- The operation neither changes the size or the screen nor marks a prompt. -/
def KeepsScreen : TermOp → Prop
  | resetState | setAltScreen _ | swapAlt | resize _ _ | setOptions _ _ | addPromptMark => False
  | _ => True

variable {t u : Term} {op : TermOp}

/-- A step that keeps the screen is an evolution. -/
theorem step_evolves (h : t.Sound) (hkp : op.KeepsScreen) (hc : op.Called t)
    (hst : step t op = some u) : t.Evolves u := by
  have he := Term.Evolves.refl h
  cases op with
  | resetState | setAltScreen _ | swapAlt | resize _ _ | setOptions _ _ | addPromptMark => cases hkp
  | input x c => cases hst; exact he.input x c
  | putTab x count => cases hst; exact he.putTab x count
  | decaln => cases hst; exact he.decaln
  | goto line col => cases hst; exact he.goto line col
  | gotoLine line => cases hst; exact he.goto line _
  | gotoCol col => cases hst; exact he.goto _ col
  | insertBlank count => cases hst; exact he.insertBlank count
  | moveUp lines => cases hst; exact he.goto _ _
  | moveDown lines => cases hst; exact he.goto _ _
  | moveForward cols => cases hst; exact he.moveForward cols
  | moveBackward cols => cases hst; exact he.moveBackward cols
  | moveDownAndCr lines => cases hst; exact he.goto _ _
  | moveUpAndCr lines => cases hst; exact he.goto _ _
  | backspace => cases hst; exact he.backspace
  | carriageReturn => cases hst; exact he.carriageReturn
  | linefeed => cases hst; exact he.linefeed
  | newline => cases hst; exact he.newline
  | setHorizontalTabstop => cases hst; exact he.setTabs _
  | scrollUp lines => cases hst; exact he.scrollUp lines
  | scrollDown lines => cases hst; exact he.scrollDown lines
  | insertBlankLines lines => cases hst; exact he.insertBlankLines lines
  | deleteLines lines => cases hst; exact he.deleteLines lines
  | eraseChars count => cases hst; exact he.eraseChars count
  | deleteChars count => cases hst; exact he.deleteChars count
  | moveBackwardTabs count => cases hst; exact he.moveBackwardTabs count
  | moveForwardTabs count => cases hst; exact he.moveForwardTabs count
  | saveCursorPosition => cases hst; exact he.saveCursorPosition
  | restoreCursorPosition => cases hst; exact he.restoreCursorPosition
  | clearLine mode => cases hst; exact he.clearLine mode
  | clearScreen mode => cases hst; exact he.clearScreen mode
  | clearTab => cases hst; exact he.setTabs _
  | clearAllTabs => cases hst; exact he.setTabs _
  | reverseIndex => cases hst; exact he.reverseIndex
  | setHyperlink hyperlink => cases hst; exact he.modifyTemplate fun _ => Cell.transient_setHyperlink
  | terminalAttribute attr => cases hst; exact he.modifyTemplate fun _ => attr.transient_apply
  | setLineWrap on => cases hst; exact he.setMode _
  | setOrigin =>
    cases hst
    have hm : t.Evolves { t with mode := { t.mode with origin := true } } := he.setMode _
    exact hm.goto 0 0
  | unsetOrigin => cases hst; exact he.setMode _
  | columnMode => cases hst; exact he.deccolm
  | setInsert => cases hst; exact he.resetInputCluster.setMode _
  | unsetInsert =>
    cases hst
    have hm : t.Evolves { t.resetInputCluster with mode := { t.mode with insert := false } } :=
      he.resetInputCluster.setMode _
    exact hm.markFullyDamaged
  | setLineFeedNewLine on => cases hst; exact he.resetInputCluster.setMode _
  | setScrollingRegion top bottom => cases hst; exact he.setScrollingRegion hc bottom
  | restyle => cases hst; exact he.markFullyDamaged
  | conptyRealign target => cases hst; exact he.conptyRealign hc
  | scrollDisplay scroll => cases hst; exact he.scrollDisplay scroll
  | finishRedrawAnchor line => cases hst; exact he.finishRedrawAnchor line
  | insertInlineImage x rows cols tile => cases hst; exact he.insertInlineImage x.map rows cols tile
  | insertKittyBlock x rows cols tile keepCursor => cases hst; exact he.insertKittyBlock x.map rows cols tile keepCursor
  | placeMarker marker => cases hst; exact he.placeMarker marker
  | markLines line count marker => cases hst; exact he.markLines hc.1 hc.2 marker
  | endPrompt => cases hst; exact he.endPrompt
  | markPromptInput => cases hst; exact he.markPromptInput
  | promptJump up => cases hst; exact he.promptJump up

end TermOp

/-! ### Steps of both screens -/

namespace Grid

variable {g g' : Grid Cell}

/-- The cursor of one grid in the other, of the same size. -/
theorem copyCursorFrom_evolves (h : g.Good) (h' : g'.Good) (hl : g.lines = g'.lines) : g.Evolves (g.copyCursorFrom g') := by
  have hlt : g'.cursor.point.line < g.lines := h'.cursor.line_lt.trans_eq (congrArg Nat.cast hl.symm)
  unfold copyCursorFrom
  simp only
  by_cases ht : (g'.cursor.template.image.isSome || g'.cursor.template.inlineMarker.isSome) = true
  · rw [if_pos ht]
    have htr := track_evolves h
    exact htr.trans (setCursor_evolves htr.good ⟨h'.cursor.line_nonneg, hlt, fun _ => rfl⟩)
  · rw [if_neg ht]
    exact setCursor_evolves h ⟨h'.cursor.line_nonneg, hlt, fun hc => absurd hc ht⟩

end Grid

namespace Term

variable {t u : Term}

/-- The screens change places. -/
theorem Sound.swapped (h : t.Sound) {grid inactive : Grid Cell} (hg : t.grid.Evolves grid) (hi : t.inactiveGrid.Evolves inactive)
    (mode : TermMode) (inputCluster : Option EmojiInput) (inputEnd : Option (Point × Bool)) :
    ({ t with grid := inactive, inactiveGrid := grid, mode, inputCluster, inputEnd } : Term).Sound where
  grid := hi.good
  inactive := hg.good
  lines_eq := hg.lines_eq.trans (h.lines_eq.symm.trans hi.lines_eq.symm)
  columns_eq := hg.columns_eq.trans (h.columns_eq.symm.trans hi.columns_eq.symm)
  columns_ge := h.columns_ge.trans_eq (h.columns_eq.symm.trans hi.columns_eq.symm)
  region_nonneg := h.region_nonneg
  region_le := h.region_le
  region_stop := h.region_stop.trans_eq (congrArg Nat.cast (h.lines_eq.symm.trans hi.lines_eq.symm))

theorem Sound.markFullyDamaged (h : t.Sound) : t.markFullyDamaged.Sound := (Evolves.refl h).markFullyDamaged.sound

theorem Sound.swapAlt (h : t.Sound) : t.swapAlt.Sound := by
  unfold Term.swapAlt
  simp only
  refine Sound.markFullyDamaged ?_
  split
  · exact h.swapped (.refl h.grid) (.refl h.inactive) _ none none
  have hcp := Grid.copyCursorFrom_evolves h.inactive h.grid h.lines_eq
  have hrs := resetLines_evolves hcp.good fun a
    (ha : a ∈ lineRange 0 (t.inactiveGrid.copyCursorFrom t.grid).lines) => mem_lineRange.mp ha
  exact h.swapped (setCursors_evolves h.grid h.grid.cursor h.grid.cursor) (hcp.trans hrs) _ none none

section
variable (h : t.Sound)
include h

/-- A terminal whose screens were reset. -/
theorem Sound.resetState : t.resetState.Sound := by
  have hgrid := reset_evolves h.grid
  have hi := reset_evolves h.inactive
  have hls := h.lines_eq.symm.trans hi.lines_eq.symm
  have hcs := h.columns_eq.symm.trans hi.columns_eq.symm
  unfold Term.resetState
  simp only
  refine .markFullyDamaged ?_
  by_cases ha : t.resetInputCluster.mode.altScreen = true
  · rw [if_pos ha]
    exact ⟨hi.good, hgrid.good, hgrid.lines_eq.trans hls, hgrid.columns_eq.trans hcs, h.columns_ge.trans_eq hcs, le_rfl,
      natCast_nonneg _, (congrArg Nat.cast hi.lines_eq.symm).le⟩
  · rw [if_neg ha]
    exact ⟨hgrid.good, hi.good, (hgrid.lines_eq.trans hls).symm, (hgrid.columns_eq.trans hcs).symm,
      h.columns_ge.trans_eq hgrid.columns_eq.symm, le_rfl, natCast_nonneg _, (congrArg Nat.cast hgrid.lines_eq.symm).le⟩

theorem Sound.resize {lines columns : ℕ} (hl : minScreenLines ≤ lines) (hc : minColumns ≤ columns)
    (hu : t.resize lines columns = some u) : u.Sound := by
  unfold Term.resize at hu
  split at hu
  · cases hu
    exact h
  obtain ⟨grid, hgrid, hu⟩ := bind_eq_some_iff.mp hu
  obtain ⟨inactive, hi, rfl⟩ := map_eq_some_iff.mp hu
  obtain ⟨hgood, hgl, hgc, -⟩ := resizeImpl_good h.grid hl hgrid
  obtain ⟨higo, hil, hic, -⟩ := resizeImpl_good h.inactive hl hi
  exact ⟨hgood, higo, hil.trans hgl.symm, hic.trans hgc.symm, hc.trans_eq hgc.symm, le_rfl, natCast_nonneg _, le_rfl⟩

theorem Sound.setOptions (scrollingHistory : ℕ) (conptyResize : Bool) : (t.setOptions scrollingHistory conptyResize).Sound := by
  unfold Term.setOptions
  simp only
  refine .markFullyDamaged ?_
  split
  · obtain ⟨hgood, hl, hc⟩ := updateHistory_spec h.inactive scrollingHistory
    exact ⟨h.grid, hgood, hl.trans h.lines_eq, hc.trans h.columns_eq, h.columns_ge, h.region_nonneg, h.region_le, h.region_stop⟩
  obtain ⟨hgood, hl, hc⟩ := updateHistory_spec h.grid scrollingHistory
  exact ⟨hgood, h.inactive, h.lines_eq.trans hl.symm, h.columns_eq.trans hc.symm, h.columns_ge.trans_eq hc.symm,
    h.region_nonneg, h.region_le, h.region_stop.trans_eq (congrArg Nat.cast hl.symm)⟩

theorem Sound.addPromptMark : t.addPromptMark.Sound := by
  unfold Term.addPromptMark
  split
  · exact h
  · exact ⟨h.grid, h.inactive, h.lines_eq, h.columns_eq, h.columns_ge, h.region_nonneg, h.region_le, h.region_stop⟩

end

/-- A new terminal. -/
theorem sound_new {lines columns : ℕ} (history : ℕ) (conpty : Bool) (hl : minScreenLines ≤ lines) (hc : minColumns ≤ columns) :
    (new lines columns history conpty).Sound where
  grid := newForTerminal_good columns history hl
  inactive := newForTerminal_good columns 0 hl
  lines_eq := rfl
  columns_eq := rfl
  columns_ge := hc
  region_nonneg := le_rfl
  region_le := natCast_nonneg _
  region_stop := le_rfl

/-! ### Runs -/

/-- One step keeps what holds of a terminal. -/
theorem Sound.step {op : TermOp} (h : t.Sound) (hc : op.Called t)
    (hst : TermOp.step t op = some u) : u.Sound := by
  by_cases hkp : op.KeepsScreen
  · exact (TermOp.step_evolves h hkp hc hst).sound
  cases op with
  | resetState => cases hst; exact h.resetState
  | swapAlt => cases hst; exact h.swapAlt
  | setAltScreen on =>
    cases hst
    split
    · exact h.swapAlt
    · exact h
  | resize lines columns => exact h.resize hc.1 hc.2 hst
  | setOptions scrollingHistory conptyResize => cases hst; exact h.setOptions scrollingHistory conptyResize
  | addPromptMark => cases hst; exact h.addPromptMark
  | _ => exact absurd trivial hkp

/-- Every state of a run from a sound terminal is sound. -/
theorem Sound.run {ops : List TermOp} (h : t.Sound) (hcal : Meets TermOp.step (fun t op => op.Called t) t ops)
    (hr : Library.Transition.run TermOp.step t ops = some u) : u.Sound :=
  (along_of_meets TermOp.step (fun _ hs => hs) (fun _ _ _ hs hc hst => hs.step hc hst) h hcal).last hr

end Term

/-! ### Transient content -/

namespace Grid

/-- No transient content is left behind: the rows kept ready have none, a grid whose flag is not
set has none, and the rows that are added at the top of the history have none. -/
structure NothingLeft (g : Grid Cell) : Prop where
  cached : ∀ r ∈ g.raw.ring.drop g.raw.len, r.Clean
  unflagged : g.raw.mayHaveTransientContent = false → ∀ r ∈ g.raw.inner, r.Clean
  recycled : ∀ (additionalRows columns : ℕ),
    ∀ r ∈ ((g.raw.initializeRows additionalRows columns).ring.take (g.raw.len + additionalRows)).drop g.raw.len, r.Clean

variable {g : Grid Cell}

theorem Good.nothingLeft (h : g.Good) : g.NothingLeft where
  cached r hr := (h.rows.cache r hr).2
  unflagged hfl r hr := by
    have hring : r ∈ g.raw.ring := mem_rotate.mpr hr
    rw [← take_append_drop g.raw.len g.raw.ring] at hring
    rcases mem_append.mp hring with hr | hr
    · have hs := h.rows.rows r hr
      rw [hfl] at hs
      exact hs.tracked.clean
    · exact (h.rows.cache r hr).2
  recycled additionalRows columns r hr := by
    have ha := congrArg Ideal.rows (Storage.abs_initializeRows h.inv.sized.ok additionalRows columns)
    have hrows : (g.raw.initializeRows additionalRows columns).ring.take (g.raw.len + additionalRows) =
        (g.raw.abs.initializeRows additionalRows columns).rows := by
      rw [← ha]
      show _ = (g.raw.initializeRows additionalRows columns).ring.take (g.raw.initializeRows additionalRows columns).len
      rw [Storage.len_initializeRows]
    have hl : g.raw.abs.rows.length = g.raw.len := Storage.Ok.length_rows h.inv.sized.ok
    rw [hrows, Ideal.initializeRows, drop_append_of_le_length hl.ge, drop_eq_nil_of_le hl.le, nil_append] at hr
    have hm := mem_of_mem_take hr
    split at hm
    · rcases mem_append.mp hm with hm | hm
      · exact (h.rows.cache r hm).2
      · rw [eq_of_mem_replicate hm]
        exact Row.clean_new columns
    · exact (h.rows.cache r hm).2

end Grid

namespace Term

/-- **No image comes back.** In every state that a new terminal reaches, on both screens, the rows kept ready hold no
transient cell, a grid that is not flagged holds none, and no row that is taken into the history again holds one. -/
theorem transient_content {lines columns history : ℕ} {conpty : Bool} {ops : List TermOp} {t : Term}
    (hlines : minScreenLines ≤ lines) (hcolumns : minColumns ≤ columns)
    (hcalled : Meets TermOp.step (fun t op => op.Called t) (new lines columns history conpty) ops)
    (hrun : Library.Transition.run TermOp.step (new lines columns history conpty) ops = some t) :
    t.grid.NothingLeft ∧ t.inactiveGrid.NothingLeft := by
  have hnew : (new lines columns history conpty).Sound := sound_new history conpty hlines hcolumns
  have hs := hnew.run hcalled hrun
  exact ⟨hs.grid.nothingLeft, hs.inactive.nothingLeft⟩

/-- An image that scrolls out of the screen, and the screen left. -/
theorem transient_content_scrolled :
    ((((new 1 2 0 false).insertInlineImage id 1 1 fun _ _ => 7).scrollUp 1).swapAlt).grid.NothingLeft ∧
      ((((new 1 2 0 false).insertInlineImage id 1 1 fun _ _ => 7).scrollUp 1).swapAlt).inactiveGrid.NothingLeft :=
  transient_content (by decide) (by decide) (show Meets TermOp.step (fun t op => op.Called t) (new 1 2 0 false)
      [.insertInlineImage ⟨fun _ => none, fun _ => false, length, fun _ _ => false, id⟩ 1 1 fun _ _ => 7, .scrollUp 1, .swapAlt]
      from ⟨trivial, fun _ _ => ⟨trivial, fun _ _ => ⟨trivial, fun _ _ => trivial⟩⟩⟩) rfl

end Term

end Pebrel.Terminal
