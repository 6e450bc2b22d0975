import Pebrel.Terminal.TermLaws

/-!
# What writing keeps

Writing characters, clearing and images: the operations of a terminal that make
new cells. They keep rows sound (`Row.Sound`), so that what `TermLaws` says of
the other operations holds of them as well. A cell becomes transient only after
its grid has been told that it may have such content.
-/

namespace Pebrel.Terminal

open List Option Nat Int Cell

/-! ### Rows -/

namespace Row.Sound

variable {columns : ℕ} {flag : Bool} {r : Row Cell}

section
variable (h : r.Sound columns flag)
include h

theorem fill (start stop : ℕ) {value : Cell} (hv : value.transient = false) : (r.fill start stop value).Sound columns flag :=
  ⟨(length_fillCells ..).trans h.len_eq, h.tracked.fill start stop hv⟩

theorem fillFrom (start : ℕ) {value : Cell} (hv : value.transient = false) : (r.fillFrom start value).Sound columns flag :=
  ⟨(length_fillCells ..).trans h.len_eq, h.tracked.fillFrom start hv⟩

theorem modifyAll {f : List Cell → List Cell} (hl : (f r.inner).length = r.inner.length)
    (hf : ∀ c ∈ f r.inner, c.transient = true → c ∈ r.inner) : (r.modifyAll f).Sound columns flag :=
  ⟨hl.trans h.len_eq, h.tracked.modifyAll hl hf⟩

/-- Cells that only move, with blanks where they have moved from. -/
theorem shift {move : List Cell → List Cell} (hl : (move r.inner).length = r.inner.length)
    (hm : ∀ c ∈ move r.inner, c ∈ r.inner) (bg : Color) (start : ℕ) (stop : List Cell → ℕ) :
    (r.modifyAll fun cells => fillCells (move cells) start (stop cells) (.ofColor bg)).Sound columns flag := by
  refine h.modifyAll ((length_fillCells ..).trans hl) fun c hc ht => ?_
  rcases mem_fillCells hc with rfl | hc
  · cases ht
  · exact hm c hc

end

end Row.Sound

/-! ### Grids -/

namespace Grid

variable {g : Grid Cell} {p : Point} {f : Cell → Cell} {cell : Cell}

/-- A cell of the buffer is transient only where the grid may have such content. -/
theorem Good.transient_cell (h : g.Good) (h1 : -(g.historySize : ℤ) ≤ p.line) (h2 : p.line < g.lines)
    (ht : (g.cell p).transient = true) : g.raw.mayHaveTransientContent = true := by
  have hr := h.inv.inRange h1 h2
  obtain ⟨r, hg⟩ := isSome_iff_exists.mp (Storage.get_isSome h.inv.sized.ok hr)
  have hs := h.rows.get h.inv.sized.ok hr hg
  have hcell : g.cell p = r.get p.column := by
    show ((g.raw.get p.line).getD default).get p.column = _
    rw [hg]
    rfl
  rw [hcell, Row.get, getD_eq_getElem?_getD] at ht
  cases hc : r.inner[p.column]? with
  | none =>
    rw [hc] at ht
    cases ht
  | some c =>
    rw [hc] at ht
    exact hs.tracked.transient c (mem_of_getElem? hc) ht

theorem clearRelated_evolves (h : g.Good) : g.Evolves g.clearRelated := by
  have hl := h.cursor.line_nonneg
  unfold clearRelated
  simp only
  split
  · generalize hp : (if (g.cell g.cursor.point).flags.wideChar = true ∧ g.cursor.point.column < g.dims.lastColumn then
      g.modifyCell ⟨g.cursor.point.line, g.cursor.point.column + 1⟩ removeSpacer
    else if g.cursor.point.column > 0 then
      g.modifyCell ⟨g.cursor.point.line, g.cursor.point.column - 1⟩ clearWide
    else g) = g'
    have hb : ∀ (column : ℕ) {f : Cell → Cell}, (∀ c, (f c).transient = true → c.transient = true) →
        g.Evolves (g.modifyCell ⟨g.cursor.point.line, column⟩ f) := fun column f hf =>
      modifyCell_evolves (p := ⟨g.cursor.point.line, column⟩) h ((Int.neg_nonpos_of_nonneg (natCast_nonneg _)).trans hl) h.cursor.line_lt
        fun c ht => .inl (hf c ht)
    have hg' : g.Evolves g' := by
      rw [← hp]
      split_ifs
      · exact hb _ fun _ ht => ht
      · exact hb _ fun c ht => by rw [transient_clearWide] at ht; cases ht
      · exact .refl h
    split
    · rename_i hab
      have htop : g.cursor.point.line ≠ -(g'.historySize : ℤ) := hab.2
      have hls := hg'.lines_eq
      have hlt := h.cursor.line_lt
      refine hg'.trans (modifyCell_evolves hg'.good ?_ ?_ fun _ => .inl)
      · show -(g'.historySize : ℤ) ≤ g.cursor.point.line - 1
        omega
      · show g.cursor.point.line - 1 < (g'.lines : ℤ)
        omega
    · exact hg'
  · exact .refl h

/-- A cell put at the cursor: what `write_at_cursor` does but for the choice of the cell. -/
def put (g : Grid Cell) (cell : Cell) : Grid Cell := g.clearRelated.modifyCell g.cursor.point fun _ => cell

theorem put_evolves (h : g.Good) (hc : cell.transient = true → g.raw.mayHaveTransientContent = true) : g.Evolves (g.put cell) := by
  have hclr := clearRelated_evolves h
  refine hclr.trans (modifyCell_evolves hclr.good ((Int.neg_nonpos_of_nonneg (natCast_nonneg _)).trans h.cursor.line_nonneg) ?_
    fun _ ht => .inr (hclr.flag (hc ht)))
  exact h.cursor.line_lt.trans_eq (congrArg Nat.cast hclr.lines_eq.symm)

end Grid

namespace Term

variable {t u v : Term}

/-- The point is on a line of the screen. -/
structure OnLine (t : Term) (p : Point) : Prop where
  line_nonneg : 0 ≤ p.line
  line_lt : p.line < t.screenLines

theorem OnLine.congr {p : Point} (hp : u.OnLine p) (h : u.Evolves v) : v.OnLine p := ⟨hp.line_nonneg, h.screenLines_eq ▸ hp.line_lt⟩

theorem Sound.onLine (h : t.Sound) : t.OnLine t.cursor.point := ⟨h.line_nonneg, h.line_lt⟩

namespace Evolves

/-! ### Cells of the cursor's line -/

variable {p : Point} {f : Cell → Cell} {cell : Cell}

section
variable (h : t.Evolves u)
include h

/-- A cell put on the screen. -/
theorem setCell (hp : u.OnLine p) (hc : cell.transient = true → u.grid.raw.mayHaveTransientContent = true) :
    t.Evolves (u.modifyGrid (·.modifyCell p fun _ => cell)) := h.editScreen hp.line_nonneg hp.line_lt fun _ ht => .inr (hc ht)

theorem put (hc : cell.transient = true → u.grid.raw.mayHaveTransientContent = true) :
    t.Evolves (u.modifyGrid (·.put cell)) := h.modifyGrid (Grid.put_evolves h.sound.grid hc)

theorem writeAtCursor (c : Char) : t.Evolves (u.writeAtCursor c) :=
  h.put (show ({ u.cursor.template with c } : Cell).transient = true → _ from h.sound.grid.cursor.transient)

theorem insertBlank (count : ℕ) : t.Evolves (u.insertBlank count) := by
  unfold Term.insertBlank
  refine (h.resetInputCluster.damageLine _ _ _).modifyCursorRow fun r hr => ?_
  obtain ⟨hl, hm⟩ := moveOut_spec r.inner u.cursor.point.column (u.cursor.point.column + min count (u.columns - u.cursor.point.column))
    (u.columns - (u.cursor.point.column + min count (u.columns - u.cursor.point.column)))
  exact hr.shift hl hm _ _ fun _ => _

theorem deleteChars (count : ℕ) : t.Evolves (u.deleteChars count) := by
  unfold Term.deleteChars
  refine (h.resetInputCluster.damageLine _ _ _).modifyCursorRow fun r hr => ?_
  obtain ⟨hl, hm⟩ := moveIn_spec r.inner u.cursor.point.column (min (u.cursor.point.column + min count u.columns) (u.columns - 1))
    (u.columns - min (u.cursor.point.column + min count u.columns) (u.columns - 1))
  exact hr.shift hl hm _ _ length

theorem eraseChars (count : ℕ) : t.Evolves (u.eraseChars count) := by
  unfold Term.eraseChars
  exact (h.resetInputCluster.damageLine _ _ _).modifyCursorRow fun r hr => hr.fill _ _ rfl

theorem clearLine (mode : LineClearMode) : t.Evolves (u.clearLine mode) := by
  unfold Term.clearLine
  simp only
  split
  · exact h.resetInputCluster
  · exact (h.resetInputCluster.damageLine _ _ _).modifyCursorRow fun r hr => hr.fill _ _ rfl

end

/-! ### Characters -/

section
variable (h : t.Evolves u)
include h

/-- In insert mode cells are moved out of the way of a character. -/
theorem shiftCells (width : ℕ) : t.Evolves (u.shiftCells width) := by
  unfold Term.shiftCells
  simp only
  split
  · refine h.modifyCursorRow fun r hr => ?_
    obtain ⟨hl, hm⟩ := moveOut_spec r.inner u.cursor.point.column (u.cursor.point.column + width)
      (u.columns - width - u.cursor.point.column)
    exact hr.modifyAll hl fun c hc _ => hm c hc
  · exact h

theorem setLeadingSpacer (b : Bool) : t.Evolves (u.modifyTemplate (·.setLeadingSpacer b)) := h.modifyTemplate fun _ ht => ht

theorem placeholder (x : Unicode) : t.Evolves (u.placeholder x) := by
  have hwr := (((h.setLeadingSpacer true).writeAtCursor (x.map ' ')).setLeadingSpacer false).wrapline
  unfold Term.placeholder
  simp only
  split
  · exact hwr.insertBlank 2
  · exact hwr

theorem writeWide (x : Unicode) (c : Char) : t.Evolves (u.writeWide x c) := by
  have hwide (b : Bool) {v : Term} (hv : t.Evolves v) : t.Evolves (v.modifyTemplate (·.setWide b)) := hv.modifyTemplate fun _ ht => ht
  have hspacer (b : Bool) {v : Term} (hv : t.Evolves v) : t.Evolves (v.modifyTemplate (·.setSpacer b)) := hv.modifyTemplate fun _ ht => ht
  unfold Term.writeWide
  exact hspacer false ((hspacer true ((hwide false ((hwide true h).writeAtCursor _)).setColumn _)).writeAtCursor _)

/-- The wrap that is pending. -/
theorem wrapPending : t.Evolves (if u.resetInputCluster.cursor.inputNeedsWrap = true then u.resetInputCluster.wrapline
    else u.resetInputCluster) := by
  split
  · exact h.resetInputCluster.wrapline
  · exact h.resetInputCluster

theorem advance : t.Evolves u.advance := by
  unfold Term.advance
  simp only
  split
  · exact (h.setColumn _).setInput _ _
  · exact (h.setNeedsWrap true).setInput _ _

theorem writeCharacter (x : Unicode) (c : Char) (width : Fin 3) : t.Evolves (u.writeCharacter x c width) := by
  unfold Term.writeCharacter
  simp only
  split
  · exact h.resetInputCluster.combine c
  have hw := h.wrapPending
  generalize (if u.resetInputCluster.cursor.inputNeedsWrap = true then u.resetInputCluster.wrapline else u.resetInputCluster) = w at hw ⊢
  have hs := hw.shiftCells width
  generalize w.shiftCells width = w' at hs ⊢
  split_ifs with ho hl hwrap
  · exact (hs.writeAtCursor _).advance
  · exact ((hs.placeholder x).writeWide x c).advance
  · exact hs.setNeedsWrap true
  · exact (hs.writeWide x c).advance

end

/-! ### Emoji -/

section
variable (h : t.Evolves u)
include h

theorem narrowEmojiCell (hp : u.OnLine p) : t.Evolves (u.narrowEmojiCell p) := by
  have htra : ((u.grid.cell p).setWide false).transient = true → u.grid.raw.mayHaveTransientContent = true := fun ht =>
    h.sound.grid.transient_cell ((Int.neg_nonpos_of_nonneg (natCast_nonneg _)).trans hp.line_nonneg) hp.line_lt ht
  have hbl : (ofColor u.cursor.template.bg).transient = true → u.grid.raw.mayHaveTransientContent = true := nofun
  have hcs := ((h.setCell hp htra).setCell (p := ⟨p.line, p.column + 1⟩) ⟨hp.line_nonneg, hp.line_lt⟩ hbl).setPoint
    (p := ⟨p.line, p.column + 1⟩) hp.line_nonneg hp.line_lt
  unfold Term.narrowEmojiCell
  simp only
  split
  · exact (hcs.deleteChars 1).setNeedsWrap false
  · exact hcs.setNeedsWrap false

/-- Room for a wide character is made where it is, or at the cursor on the next line. -/
theorem makeRoom (hp : u.OnLine p) : t.Evolves (u.makeRoom p).1 ∧ (u.makeRoom p).1.OnLine (u.makeRoom p).2 := by
  unfold Term.makeRoom
  simp only
  split
  · have hpl := ((h.setCell hp (show ((ofColor (u.grid.cell p).bg).setLeadingSpacer true).transient = true → _ from
      nofun)).setPoint hp.line_nonneg hp.line_lt).wrapline
    split
    · exact ⟨hpl.insertBlank 2, hpl.sound.onLine.congr ((refl hpl.sound).insertBlank 2)⟩
    · exact ⟨hpl, hpl.sound.onLine⟩
  · split
    · have hbl := ((refl h.sound).setPoint (p := ⟨p.line, p.column + 1⟩) hp.line_nonneg hp.line_lt).insertBlank 1
      exact ⟨h.trans hbl, hp.congr hbl⟩
    · exact ⟨h, hp⟩

theorem placeEmoji (hp : u.OnLine p) (x : Unicode) (hc : cell.transient = true → u.grid.raw.mayHaveTransientContent = true) :
    t.Evolves (.placeEmoji x u p cell) := by
  have htl : (cell.clearWide.setSpacer true).transient = false := (transient_congr rfl).trans (transient_clearWide cell)
  unfold Term.placeEmoji
  simp only
  have hfst := ((refl h.sound).setPoint hp.line_nonneg hp.line_lt).writeAtCursor (x.map ' ')
  generalize (u.setPoint p).writeAtCursor (x.map ' ') = v at hfst ⊢
  have hpv := hp.congr hfst
  have hs := (hfst.setPoint (p := ⟨p.line, p.column + 1⟩) hpv.line_nonneg hpv.line_lt).writeAtCursor (x.map ' ')
  generalize (v.setPoint ⟨p.line, p.column + 1⟩).writeAtCursor (x.map ' ') = w at hs ⊢
  have hpw := hp.congr hs
  have hhd := hs.setCell hpw (show (cell.setWide true).transient = true → _ from fun ht => hs.grid.flag (hc ht))
  have hcs := hhd.setCell (p := ⟨p.line, p.column + 1⟩) ⟨hpw.line_nonneg, hpw.line_lt⟩
    (show (cell.clearWide.setSpacer true).transient = true → _ from fun ht => by rw [htl] at ht; cases ht)
  refine h.trans (.damagePoint ?_ _)
  split
  · exact (hcs.setColumn _).setNeedsWrap false
  · exact hcs.setNeedsWrap true

theorem resizeEmojiCell (hp : u.OnLine p) (width : ℕ) (x : Unicode) : t.Evolves (Term.resizeEmojiCell x u p width).1 := by
  unfold Term.resizeEmojiCell
  split_ifs
  · exact h.narrowEmojiCell hp
  · exact h
  · obtain ⟨hrm, hat⟩ := (refl h.sound).makeRoom hp
    refine h.trans (hrm.placeEmoji hat x fun ht => hrm.grid.flag ?_)
    exact h.sound.grid.transient_cell ((Int.neg_nonpos_of_nonneg (natCast_nonneg _)).trans hp.line_nonneg) hp.line_lt ht

end

theorem extendEmojiInput (h : t.Evolves u) (x : Unicode) (c : Char) (charWidth : Fin 3) (hv : v ∈ u.extendEmojiInput x c charWidth) :
    t.Evolves v := by
  have hl : u.clusterPoint.line = u.cursor.point.line := clusterPoint_line u
  have hp : u.OnLine u.clusterPoint := ⟨hl ▸ h.sound.line_nonneg, hl ▸ h.sound.line_lt⟩
  unfold Term.extendEmojiInput at hv
  split at hv
  · cases hv
  obtain ⟨cluster, -, hv⟩ := bind_eq_some_iff.mp hv
  obtain ⟨width, -, hv⟩ := bind_eq_some_iff.mp hv
  have hpush := h.pushZerowidth hp.line_nonneg hp.line_lt c
  split at hv
  · cases hv
  have hr : t.Evolves (if width ≠ (if (u.grid.cell u.clusterPoint).flags.wideChar = true then 2 else 1) then
      Term.resizeEmojiCell x (u.modifyGrid (·.modifyCell u.clusterPoint (·.pushZerowidth c))) u.clusterPoint width
    else (u.modifyGrid (·.modifyCell u.clusterPoint (·.pushZerowidth c)), u.clusterPoint)).1 := by
    generalize (if (u.grid.cell u.clusterPoint).flags.wideChar = true then 2 else 1) = old
    split
    · exact hpush.resizeEmojiCell ⟨hp.line_nonneg, hp.line_lt⟩ width x
    · exact hpush
  obtain rfl := some.inj hv
  exact (hr.damagePoint _).setInput _ _

/-- **Writing a character** keeps what holds of a terminal. -/
theorem input (h : t.Evolves u) (x : Unicode) (c : Char) : t.Evolves (u.input x c) := by
  unfold Term.input
  split
  · exact h
  rename_i width hw
  simp only
  generalize he : (if ¬c.toNat < 128 ∧ (u.inputCluster.isSome = true ∨ width = 0 ∨ c.toNat > 65535) then
    Term.extendEmojiInput x u c width else none) = extended
  cases extended with
  | none => exact h.writeCharacter x c width
  | some v =>
    obtain ⟨-, hv⟩ := ite_none_right_eq_some.mp he
    exact h.extendEmojiInput x c width hv

/-! ### The screen -/

theorem clearContents (h : t.Evolves u) (mode : ClearMode) : t.Evolves (u.clearContents mode) := by
  cases mode with
  | above =>
    unfold Term.clearContents
    simp only
    refine .modifyCursorRow ?_ fun r hr => hr.fill _ _ rfl
    split
    · exact h.resetRegion le_rfl h.sound.line_lt.le
    · exact h
  | below =>
    unfold Term.clearContents
    simp only
    have hfl := h.modifyCursorRow (f := (·.fillFrom u.cursor.point.column (.ofColor u.cursor.template.bg))) fun r hr => hr.fillFrom _ rfl
    have hl := h.sound.line_nonneg
    split
    · exact hfl.resetRegion (by omega) le_rfl
    · exact hfl
  | all =>
    unfold Term.clearContents
    simp only
    split
    · exact h.resetRegion le_rfl le_rfl
    · exact h.modifyGrid (Grid.clearViewport_evolves h.sound.grid)
  | saved =>
    unfold Term.clearContents
    simp only
    split
    · exact h.modifyGrid (Grid.clearHistory_evolves h.sound.grid)
    · exact h

theorem clearScreen (h : t.Evolves u) (mode : ClearMode) : t.Evolves (u.clearScreen mode) :=
  (h.resetInputCluster.clearContents mode).markFullyDamaged

theorem decaln (h : t.Evolves u) : t.Evolves u.decaln := by
  have hfold : ∀ (lines : List ℤ) (g : Grid Cell), g.Good → (∀ a ∈ lines, 0 ≤ a ∧ a < g.lines) →
      g.Evolves (lines.foldl (fun g line => g.modifyRow line (·.fill 0 g.columns { c := 'E' })) g) := by
    intro lines
    induction lines with
    | nil => exact fun g hg _ => .refl hg
    | cons a lines ih =>
      intro g hg hls
      obtain ⟨h1, h2⟩ := hls a mem_cons_self
      have hrow : g.Evolves (g.modifyRow a (·.fill 0 g.columns { c := 'E' })) :=
        Grid.modifyRow_evolves hg ((Int.neg_nonpos_of_nonneg (natCast_nonneg _)).trans h1) h2 fun r hr => hr.fill _ _ rfl
      exact hrow.trans (ih _ hrow.good fun b hb => hls b (mem_cons_of_mem a hb))
  unfold Term.decaln
  refine .markFullyDamaged (h.resetInputCluster.modifyGrid ?_)
  exact hfold _ u.grid h.sound.grid fun a ha => mem_lineRange.mp ha

/-! ### Images -/

section
variable (h : t.Evolves u)
include h

theorem writeTile (hfl : u.grid.raw.mayHaveTransientContent = true) (map : Char → Char)
    (extra : Option CellExtra) (tile : ℕ) : t.Evolves (u.writeTile map extra tile) := by
  have hwr := (refl h.sound).writeAtCursor (map ' ')
  exact h.trans (hwr.editScreen hwr.sound.line_nonneg hwr.sound.line_lt fun _ _ => .inr (hwr.grid.flag hfl))

/-- The tiles of one row of an image. -/
theorem writeTiles (hfl : u.grid.raw.mayHaveTransientContent = true) (map : Char → Char)
    (extra : Option CellExtra) (tile : ℕ → ℕ) (columns : List ℕ) :
    t.Evolves (columns.foldl (fun t c => (t.setColumn c).writeTile map extra (tile c)) u) := by
  induction columns generalizing u with
  | nil => exact h
  | cons c columns ih =>
    have hst := ((refl h.sound).setColumn c).writeTile hfl map extra (tile c)
    exact ih (h.trans hst) (hst.grid.flag hfl)

theorem insertInlineImage (map : Char → Char) (rows cols : ℕ) (tile : ℕ → ℕ → ℕ) : t.Evolves (u.insertInlineImage map rows cols tile) := by
  have hr : ∀ (extra : Option CellExtra) (start stop : ℕ) (rows : List ℕ) (w : Term), t.Evolves w →
      w.grid.raw.mayHaveTransientContent = true →
      t.Evolves (rows.foldl (fun t row =>
        let t := if row ≠ 0 then t.linefeed else t
        (range' start (stop - start)).foldl (fun t column =>
          (t.setColumn column).writeTile map extra (tile row (column - start))) t) w) := by
    intro extra start stop rows
    induction rows with
    | nil => exact fun w hw _ => hw
    | cons row rows ih =>
      intro w hw hfl
      have hf : w.Evolves (if row ≠ 0 then w.linefeed else w) := by
        split
        · exact (refl hw.sound).linefeed
        · exact refl hw.sound
      have ht := hf.writeTiles (hf.grid.flag hfl) map extra (fun column => tile row (column - start)) (range' start (stop - start))
      exact ih _ (hw.trans ht) (ht.grid.flag hfl)
  unfold Term.insertInlineImage
  simp only
  have hw := h.wrapPending
  generalize (if u.resetInputCluster.cursor.inputNeedsWrap = true then u.resetInputCluster.wrapline else u.resetInputCluster) = w at hw ⊢
  have hd := hr ((w.modifyGrid (·.track)).cursor.template.setImage (tile 0 0)).extra w.cursor.point.column
    (min (w.cursor.point.column + cols) w.columns) (range rows) _ hw.track rfl
  exact ((hd.setColumn _).setNeedsWrap _).markFullyDamaged

/-- The tiles of one row of an image that is addressed by cell. -/
theorem kittyTiles (hfl : u.grid.raw.mayHaveTransientContent = true) (map : Char → Char)
    {line : ℤ} (h1 : 0 ≤ line) (h2 : line < u.screenLines) (start : ℕ) (tile : ℕ → ℕ) (columns : List ℕ) :
    t.Evolves (columns.foldl (fun t column =>
      ((t.setPoint ⟨line, start + column⟩).writeAtCursor (map ' ')).modifyGrid
        (·.modifyCell ⟨line, start + column⟩ (·.setImage (tile column)))) u) := by
  induction columns generalizing u with
  | nil => exact h
  | cons c columns ih =>
    have hwr := ((refl h.sound).setPoint (p := ⟨line, start + c⟩) h1 h2).writeAtCursor (map ' ')
    have hst := hwr.editScreen (p := ⟨line, start + c⟩) (f := (·.setImage (tile c))) h1
      (by rw [hwr.screenLines_eq]; exact h2) fun _ _ => .inr (hwr.grid.flag hfl)
    exact ih (h.trans hst) (hst.grid.flag hfl) (hst.screenLines_eq ▸ h2)

/-- The cursor is on the next row of an image. -/
theorem kittyFeed (column : ℕ) (p : Prop) [Decidable p] : t.Evolves (if p then (u.setColumn column).linefeed else u) := by
  split
  · exact (h.setColumn column).linefeed
  · exact h

theorem kittyRow (hfl : u.grid.raw.mayHaveTransientContent = true) (map : Char → Char)
    (start : Point) (cols : ℕ) (tile : ℕ → ℕ → ℕ) (keepCursor : Bool) (row : ℕ)
    (hv : v ∈ Term.kittyRow map u start cols tile keepCursor row) : t.Evolves v := by
  unfold Term.kittyRow at hv
  simp only at hv
  have hf := (refl h.sound).kittyFeed start.column ((!keepCursor) = true ∧ row ≠ 0)
  generalize (if (!keepCursor) = true ∧ row ≠ 0 then (u.setColumn start.column).linefeed else u) = w at hf hv
  obtain ⟨hl, hv⟩ := ite_none_left_eq_some.mp hv
  obtain rfl := some.inj hv
  simp only [not_or, not_lt, not_le, ge_iff_le] at hl
  exact h.trans (hf.kittyTiles (hf.grid.flag hfl) map hl.1 hl.2 start.column (tile row) _)

theorem kittyRows (hfl : u.grid.raw.mayHaveTransientContent = true) (map : Char → Char)
    (start : Point) (cols : ℕ) (tile : ℕ → ℕ → ℕ) (keepCursor : Bool) (row n : ℕ) :
    t.Evolves (.kittyRows map start cols tile keepCursor row n u) := by
  induction n generalizing u row with
  | zero => exact h
  | succ n ih =>
    unfold Term.kittyRows
    cases hr : Term.kittyRow map u start cols tile keepCursor row with
    | none => exact h.kittyFeed _ _
    | some v =>
      have hv := (refl h.sound).kittyRow hfl map start cols tile keepCursor row hr
      exact ih (h.trans hv) (hv.grid.flag hfl) (row + 1)

theorem insertKittyBlock (map : Char → Char) (rows cols : ℕ) (tile : ℕ → ℕ → ℕ) (keepCursor : Bool) :
    t.Evolves (u.insertKittyBlock map rows cols tile keepCursor) := by
  have hd := ((refl h.sound).track).kittyRows rfl map u.cursor.point cols tile keepCursor 0 rows
  unfold Term.insertKittyBlock
  simp only
  refine h.trans (.markFullyDamaged ?_)
  have hc := h.sound.onLine.congr hd
  split
  · exact (hd.setPoint hc.line_nonneg hc.line_lt).setNeedsWrap _
  · exact (hd.linefeed.setColumn _).setNeedsWrap _

end

end Evolves

end Term

end Pebrel.Terminal
