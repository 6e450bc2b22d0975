import Pebrel.Terminal.RowMoves
import Pebrel.Terminal.Selection

/-!
# Selections that follow a scroll

When lines are scrolled within a region the selection is rotated with them
(`Selection::rotate`): the anchors in the region are moved, an anchor whose row
leaves the region is clamped to the first or the last line of it, or the
selection is dropped.

Which rows move is the grid's matter (`Grid.Moved`): scrolling up from the top of
the screen moves the history with the region, scrolling down does not.
`Movement.carry` says where a movement brings the row of a line, and a rotation
follows it if each anchor goes where its row goes. The rotation decides by the top
of the region alone whether the history moves, and clamps each anchor on one side
only; `UpKeeps` and `DownKeeps` are the exact conditions.
-/

namespace Pebrel.Terminal

open Library Option Grid Dimensions

/-! ### Rotation -/

namespace Anchor

/-- An anchor in another line. -/
def onLine (a : Anchor) (line : ℤ) : Anchor := { a with point := { a.point with line } }

/-- An anchor clamped to the start of the first line of a region. -/
def clampedTop (ty : SelectionType) (a : Anchor) (line : ℤ) : Anchor :=
  if ty = .block then a.onLine line else ⟨⟨line, 0⟩, .left⟩

/-- An anchor clamped to the end of the last line of a region. -/
def clampedBottom (ty : SelectionType) (lastColumn : ℕ) (a : Anchor) (line : ℤ) : Anchor :=
  if ty = .block then a.onLine line else ⟨⟨line, lastColumn⟩, .right⟩

@[simp] theorem onLine_line (a : Anchor) (line : ℤ) : (a.onLine line).point.line = line := rfl

@[simp] theorem clampedTop_line (ty : SelectionType) (a : Anchor) (line : ℤ) : (a.clampedTop ty line).point.line = line := by
  unfold clampedTop
  split <;> rfl

@[simp] theorem clampedBottom_line (ty : SelectionType) (column : ℕ) (a : Anchor) (line : ℤ) :
    (a.clampedBottom ty column line).point.line = line := by
  unfold clampedBottom
  split <;> rfl

end Anchor

namespace Selection

/-- The selection with other anchors, the one above first. -/
def withOrdered (s : Selection) (anchors : Anchor × Anchor) : Selection :=
  if s.start.point.le s.stop.point then { s with start := anchors.1, stop := anchors.2 }
  else { s with start := anchors.2, stop := anchors.1 }

/-- The lines whose anchors are rotated. -/
def rotates (top bottom line : ℤ) : Prop := (top ≤ line ∨ top = 0) ∧ line < bottom
deriving Decidable

/-- The rotation of the upper anchor, which may delete the selection. -/
def rotateStart (ty : SelectionType) (dims : Dimensions) (top bottom delta : ℤ) (start stop : Anchor) : Option Anchor :=
  if rotates top bottom start.point.line then
    let line := min (start.point.line - delta) dims.bottommostLine
    -- If end is within the same region, delete selection once start rotates out.
    if bottom ≤ line ∧ stop.point.line < bottom then none
    -- Clamp selection to start of region.
    else if line < top ∧ top ≠ 0 then some (start.clampedTop ty top)
    else some (start.onLine line)
  else some start

/-- The rotation of the lower anchor, when the upper one has been rotated. -/
def rotateEnd (ty : SelectionType) (dims : Dimensions) (top bottom delta : ℤ) (start stop : Anchor) : Option Anchor :=
  if rotates top bottom stop.point.line then
    let line := min (stop.point.line - delta) dims.bottommostLine
    -- Delete selection if end has overtaken the start.
    if line < start.point.line then none
    -- Clamp selection to end of region.
    else if bottom ≤ line then some (stop.clampedBottom ty dims.lastColumn (bottom - 1))
    else some (stop.onLine line)
  else some stop

/-- The rotation of the two anchors, the one above first. -/
def rotateOrdered (ty : SelectionType) (dims : Dimensions) (top bottom delta : ℤ) (anchors : Anchor × Anchor) :
    Option (Anchor × Anchor) :=
  (rotateStart ty dims top bottom delta anchors.1 anchors.2).bind fun start =>
    (rotateEnd ty dims top bottom delta start anchors.2).map fun stop => (start, stop)

def rotate (s : Selection) (dims : Dimensions) (top bottom delta : ℤ) : Option Selection :=
  (rotateOrdered s.ty dims top bottom delta s.ordered).map s.withOrdered

end Selection

/-- A terminal with the selection in it. -/
structure Selected where
  term : Term
  selection : Option Selection

namespace Selected

def scrollDownRelative (t : Selected) (origin : ℤ) (lines : ℕ) : Selected :=
  let region := t.term.scrollRegion
  let count := min (min lines (region.stop - region.start).toNat) (region.stop - origin).toNat
  ⟨t.term.scrollDownRelative origin lines, t.selection.bind fun s => s.rotate t.term.grid.dims origin region.stop (-count)⟩

def scrollUpRelative (t : Selected) (origin : ℤ) (lines : ℕ) : Selected :=
  let region := t.term.scrollRegion
  let count := min lines (region.stop - region.start).toNat
  ⟨t.term.scrollUpRelative origin lines, t.selection.bind fun s => s.rotate t.term.grid.dims origin region.stop count⟩

end Selected

/-! ### Where the rows go -/

/-- A movement of rows that a selection is rotated for: the rows from `lo` to `stop` move up by `d` lines. -/
structure Movement where
  lo : ℤ
  stop : ℤ
  d : ℤ

namespace Movement

/-- Where the row of a line is brought: nowhere if it leaves the rows that move. -/
def carry (m : Movement) (line : ℤ) : Option ℤ :=
  if line < m.lo ∨ m.stop ≤ line then some line
  else if m.lo ≤ line - m.d ∧ line - m.d < m.stop then some (line - m.d)
  else none

variable {m : Movement} {line line' : ℤ}

theorem carry_outside (h : line < m.lo ∨ m.stop ≤ line) : m.carry line = some line := if_pos h

theorem carry_inside (h : m.lo ≤ line ∧ line < m.stop) :
    m.carry line = if m.lo ≤ line - m.d ∧ line - m.d < m.stop then some (line - m.d) else none := if_neg (by omega)

/-- The grid brings the rows where the movement says. -/
theorem get_carry {T : Type} [GridCell T] {g g' : Grid T} (h : Moved g g' m.lo m.stop m.d)
    (h1 : -(g'.historySize : ℤ) ≤ line) (h2 : line < g.lines) (hc : m.carry line = some line') :
    g'.raw.get line' = g.raw.get line := by
  simp only [carry] at hc
  split at hc
  · next ho =>
    cases hc
    exact h.fixed _ h1 h2 ho
  next ho =>
  split at hc
  · next hin =>
    cases hc
    have hmv := h.moved (line - m.d) hin.1 hin.2 (by omega) (by omega)
    rwa [sub_add_cancel] at hmv
  · cases hc

end Movement

/-! ### Anchors that follow their rows -/

namespace Movement

/-- An anchor, if there is a row in its line, goes where the row goes, or is clamped if the row leaves the region. -/
def AnchorFollows (m : Movement) (topmost : ℤ) (clamped : Prop) (before after : Anchor) : Prop :=
  topmost ≤ before.point.line →
    match m.carry before.point.line with
    | some line => after = before.onLine line
    | none => clamped

/-- The upper anchor is clamped to the first line if its row leaves the region there. -/
def UpperFollows (m : Movement) (topmost : ℤ) (before after : Anchor) : Prop :=
  m.AnchorFollows topmost (before.point.line - m.d < m.lo ∧ after.point.line = m.lo) before after

/-- The lower anchor is clamped to the last line if its row leaves the region there. -/
def LowerFollows (m : Movement) (topmost : ℤ) (before after : Anchor) : Prop :=
  m.AnchorFollows topmost (m.stop ≤ before.point.line - m.d ∧ after.point.line = m.stop - 1) before after

/-- The anchors of a selection that stays follow their rows, and a selection is dropped only if the row of one of them
leaves the region. -/
def OrderedFollows (m : Movement) (topmost : ℤ) (before : Anchor × Anchor) : Option (Anchor × Anchor) → Prop
  | none => m.carry before.1.point.line = none ∨ m.carry before.2.point.line = none
  | some after => m.UpperFollows topmost before.1 after.1 ∧ m.LowerFollows topmost before.2 after.2

/-- A selection follows a movement. -/
def Follows (m : Movement) (topmost : ℤ) (before : Selection) : Option Selection → Prop
  | none => m.OrderedFollows topmost before.ordered none
  | some after => ∃ anchors, after = before.withOrdered anchors ∧ m.OrderedFollows topmost before.ordered (some anchors)

variable {m : Movement} {topmost line : ℤ} {clamped : Prop} {a b : Anchor}

/-- An anchor that is moved follows its row just if the row is moved there. -/
theorem anchorFollows_onLine_iff (hc : m.carry a.point.line = none → ¬clamped) :
    m.AnchorFollows topmost clamped a (a.onLine line) ↔ (topmost ≤ a.point.line → m.carry a.point.line = some line) := by
  refine imp_congr_right fun _ => ?_
  cases hcar : m.carry a.point.line with
  | none => simpa using hc hcar
  | some line' =>
    simp only [some.injEq]
    constructor
    · intro heq
      have := congrArg (fun a : Anchor => a.point.line) heq
      simpa using this.symm
    · rintro rfl
      rfl

/-- An anchor outside of the rows that move stays. -/
theorem anchorFollows_outside (h : a.point.line < m.lo ∨ m.stop ≤ a.point.line) : m.AnchorFollows topmost clamped a a := by
  intro _
  rw [carry_outside h]
  rfl

/-- An anchor whose row moves within the region is moved with it. -/
theorem anchorFollows_moved (h : m.lo ≤ a.point.line ∧ a.point.line < m.stop)
    (hmv : m.lo ≤ a.point.line - m.d ∧ a.point.line - m.d < m.stop) :
    m.AnchorFollows topmost clamped a (a.onLine (a.point.line - m.d)) := by
  intro _
  rw [carry_inside h, if_pos hmv]

/-- An anchor whose row leaves the region is to be clamped. -/
theorem anchorFollows_lost (h : m.lo ≤ a.point.line ∧ a.point.line < m.stop)
    (hlost : ¬(m.lo ≤ a.point.line - m.d ∧ a.point.line - m.d < m.stop)) :
    m.AnchorFollows topmost clamped a b ↔ (topmost ≤ a.point.line → clamped) := by
  refine imp_congr_right fun _ => ?_
  rw [carry_inside h, if_neg hlost]

end Movement

namespace Selection

variable {s : Selection} {dims : Dimensions} {top bottom delta topmost : ℤ}

theorem ordered_le (s : Selection) : s.ordered.1.point.line ≤ s.ordered.2.point.line := by
  simp only [ordered, Point.le, Bool.or_eq_true, Bool.and_eq_true, decide_eq_true_eq, beq_iff_eq]
  split
  · next h => rcases h with h | h <;> simp only <;> omega
  · next h => simp only; omega

theorem withOrdered_injective (s : Selection) : Function.Injective s.withOrdered := by
  rintro ⟨a, b⟩ ⟨a', b'⟩ h
  simp only [withOrdered] at h
  split at h <;> simp_all

/-- A rotation of the selection follows a movement as that of the two anchors does. -/
theorem follows_rotate_iff (m : Movement) : m.Follows topmost s (s.rotate dims top bottom delta) ↔
      m.OrderedFollows topmost s.ordered (rotateOrdered s.ty dims top bottom delta s.ordered) := by
  rw [rotate]
  cases h : rotateOrdered s.ty dims top bottom delta s.ordered with
  | none => rfl
  | some anchors =>
    simp only [map_some, Movement.Follows]
    constructor
    · rintro ⟨anchors', heq, hf⟩
      rwa [← withOrdered_injective s heq] at hf
    · exact fun hf => ⟨anchors, rfl, hf⟩

variable {ty : SelectionType} {a b : Anchor} {k lo : ℤ}

/-! ### Scrolling up below the top of the screen -/

/-- The upper anchor follows its row, and is clamped where the row is lost. -/
theorem rotateStart_up (ty : SelectionType) (a b : Anchor) (topmost : ℤ) (ht : 0 < top) (hb : bottom ≤ dims.screenLines) (hk : 0 ≤ k) :
    ∃ a', rotateStart ty dims top bottom k a b = some a' ∧ (Movement.mk top bottom k).UpperFollows topmost a a' ∧
      a'.point.line = if top ≤ a.point.line ∧ a.point.line < bottom then max (a.point.line - k) top else a.point.line := by
  by_cases hin : top ≤ a.point.line ∧ a.point.line < bottom
  · have hm : min (a.point.line - k) dims.bottommostLine = a.point.line - k := by
      simp only [bottommostLine]
      omega
    simp only [rotateStart, if_pos (show rotates top bottom a.point.line from ⟨Or.inl hin.1, hin.2⟩), hm, if_pos hin,
      if_neg (show ¬(bottom ≤ a.point.line - k ∧ b.point.line < bottom) by omega)]
    by_cases hlost : a.point.line - k < top
    · rw [if_pos ⟨hlost, by omega⟩]
      refine ⟨_, rfl, ?_, by rw [Anchor.clampedTop_line]; omega⟩
      exact (Movement.anchorFollows_lost hin (by simp only; omega)).2 fun _ => ⟨hlost, Anchor.clampedTop_line _ _ _⟩
    · rw [if_neg (by omega)]
      exact ⟨_, rfl, Movement.anchorFollows_moved (m := ⟨top, bottom, k⟩) hin (by simp only; omega), by rw [Anchor.onLine_line]; omega⟩
  · rw [if_neg hin, rotateStart, if_neg (by simp only [rotates]; omega)]
    exact ⟨a, rfl, Movement.anchorFollows_outside (by simp only; omega), rfl⟩

/-- **Scrolling up below the top of the screen**, the selection follows its rows unless the row of the lower anchor is
lost and the lower anchor comes to lie above the region, not above the upper anchor. -/
theorem rotateOrdered_up_iff (ht : 0 < top) (hb : bottom ≤ dims.screenLines) (hk : 0 ≤ k)
    (hle : a.point.line ≤ b.point.line) (htopm : topmost ≤ 0) :
    (Movement.mk top bottom k).OrderedFollows topmost (a, b) (rotateOrdered ty dims top bottom k (a, b)) ↔
      ¬(a.point.line ≤ b.point.line - k ∧ b.point.line - k < top ∧ top ≤ b.point.line ∧ b.point.line < bottom) := by
  obtain ⟨a', ha', hf, hl⟩ := rotateStart_up ty a b topmost ht hb hk
  rw [rotateOrdered, ha', bind_some]
  by_cases hin : top ≤ b.point.line ∧ b.point.line < bottom
  · have hm : min (b.point.line - k) dims.bottommostLine = b.point.line - k := by
      simp only [bottommostLine]
      omega
    simp only [rotateEnd, if_pos (show rotates top bottom b.point.line from ⟨Or.inl hin.1, hin.2⟩), hm]
    by_cases hover : b.point.line - k < a'.point.line
    · rw [if_pos hover, map_none]
      have hlost : b.point.line - k < top := by split at hl <;> omega
      refine iff_of_true (.inr ?_) (by split at hl <;> omega)
      rw [Movement.carry_inside hin, if_neg (by simp only; omega)]
    · rw [if_neg hover, if_neg (show ¬bottom ≤ b.point.line - k by omega), map_some, Movement.OrderedFollows, and_iff_right hf]
      by_cases hkept : top ≤ b.point.line - k
      · exact iff_of_true (Movement.anchorFollows_moved (m := ⟨top, bottom, k⟩) hin (by simp only; omega)) (by omega)
      refine iff_of_false (fun h => ?_) (by split at hl <;> omega)
      rw [Movement.LowerFollows, Movement.anchorFollows_lost hin (by simp only; omega)] at h
      have hc := h (by simp only; omega)
      simp only at hc
      omega
  · rw [rotateEnd, if_neg (by simp only [rotates]; omega), map_some]
    exact iff_of_true ⟨hf, Movement.anchorFollows_outside (by simp only; omega)⟩ (by omega)

/-! ### Scrolling up from the top of the screen -/

/-- **Scrolling up from the top of the screen**, the selection follows its rows unless the row of an anchor is lost from
the history. -/
theorem rotateOrdered_up_top_iff (hbot : bottom ≤ dims.screenLines) (hk : 0 ≤ k) (hkb : k ≤ bottom)
    (hle : a.point.line ≤ b.point.line) (hlo : lo ≤ topmost) (ht : topmost ≤ 0) :
    (Movement.mk lo bottom k).OrderedFollows topmost (a, b) (rotateOrdered ty dims 0 bottom k (a, b)) ↔
      ¬(topmost ≤ a.point.line ∧ a.point.line - k < lo ∨ topmost ≤ b.point.line ∧ b.point.line - k < lo) := by
  have hanc : ∀ (c : Anchor) (clamped : Prop), c.point.line < bottom → (c.point.line - k < lo → ¬clamped) →
      ((Movement.mk lo bottom k).AnchorFollows topmost clamped c (c.onLine (c.point.line - k)) ↔
        ¬(topmost ≤ c.point.line ∧ c.point.line - k < lo)) := by
    intro c clamped hc hcla
    by_cases hr : topmost ≤ c.point.line
    · by_cases hkept : lo ≤ c.point.line - k
      · exact iff_of_true (Movement.anchorFollows_moved (m := ⟨lo, bottom, k⟩) (by simp only; omega) (by simp only; omega)) (by omega)
      · rw [Movement.anchorFollows_lost (by simp only; omega) (by simp only; omega)]
        exact iff_of_false (fun h => hcla (by omega) (h hr)) (by omega)
    · exact iff_of_true (fun h => absurd h hr) (by omega)
  have hs : ∀ (c : Anchor) (clamped : Prop), bottom ≤ c.point.line →
      ((Movement.mk lo bottom k).AnchorFollows topmost clamped c c ↔ ¬(topmost ≤ c.point.line ∧ c.point.line - k < lo)) :=
    fun c clamped hc => iff_of_true (Movement.anchorFollows_outside (Or.inr hc)) (by omega)
  have hrot : ∀ c : Anchor, c.point.line < bottom → min (c.point.line - k) dims.bottommostLine = c.point.line - k := by
    intro c hc
    simp only [bottommostLine]
    omega
  rw [not_or]
  by_cases ha : a.point.line < bottom
  · have hst : rotateStart ty dims 0 bottom k a b = some (a.onLine (a.point.line - k)) := by
      simp only [rotateStart, if_pos (show rotates 0 bottom a.point.line from ⟨Or.inr rfl, ha⟩), hrot a ha,
        if_neg (show ¬(bottom ≤ a.point.line - k ∧ b.point.line < bottom) by omega),
        if_neg (show ¬(a.point.line - k < 0 ∧ (0 : ℤ) ≠ 0) by simp)]
    rw [rotateOrdered, hst, bind_some]
    have hu := hanc a _ ha fun hlost (hcla : a.point.line - k < lo ∧ (a.onLine (a.point.line - k)).point.line = lo) => by
      rw [Anchor.onLine_line] at hcla
      omega
    by_cases hb : b.point.line < bottom
    · simp only [rotateEnd, if_pos (show rotates 0 bottom b.point.line from ⟨Or.inr rfl, hb⟩), hrot b hb, Anchor.onLine_line,
        if_neg (show ¬b.point.line - k < a.point.line - k by omega), if_neg (show ¬bottom ≤ b.point.line - k by omega),
        map_some, Movement.OrderedFollows]
      refine and_congr hu (hanc b _ hb fun hlost hcla => ?_)
      simp only at hcla
      omega
    · rw [rotateEnd, if_neg (by simp only [rotates]; omega), map_some]
      exact and_congr hu (hs b _ (by omega))
  · rw [rotateOrdered, rotateStart, if_neg (by simp only [rotates]; omega), bind_some, rotateEnd,
      if_neg (by simp only [rotates]; omega), map_some]
    exact and_congr (hs a _ (by omega)) (hs b _ (by omega))

/-! ### Scrolling down -/

/-- An anchor in the history does not follow its row when it is moved. -/
theorem anchorFollows_history {c : Anchor} {clamped : Prop} (hc : c.point.line < 0) :
    (Movement.mk 0 bottom (-k)).AnchorFollows topmost clamped c (c.onLine (c.point.line + k)) ↔ ¬(k ≠ 0 ∧ topmost ≤ c.point.line) := by
  have hcar : (Movement.mk 0 bottom (-k)).carry c.point.line = some c.point.line := Movement.carry_outside (Or.inl hc)
  rw [Movement.anchorFollows_onLine_iff (by simp [hcar]), hcar, some.injEq]
  omega

/-- The lower anchor follows its row if that is not in the history, and is clamped where the row is lost. -/
theorem rotateEnd_down (ty : SelectionType) (b a' : Anchor) (topmost : ℤ) (hbot : bottom ≤ dims.screenLines)
    (hk : 0 ≤ k) (hkb : k ≤ bottom - top)
    (hover : a'.point.line ≤ b.point.line ∨ a'.point.line ≤ min (b.point.line + k) (dims.screenLines - 1)) :
    ∃ b', rotateEnd ty dims top bottom (-k) a' b = some b' ∧ ((Movement.mk top bottom (-k)).LowerFollows topmost b b' ↔
        ¬(0 < k ∧ top = 0 ∧ topmost ≤ b.point.line ∧ b.point.line < 0)) := by
  by_cases hb : rotates top bottom b.point.line
  · have hm : min (b.point.line - -k) dims.bottommostLine = min (b.point.line + k) (dims.screenLines - 1) := by
      simp only [bottommostLine, sub_neg_eq_add]
    have hlt := hb.2
    simp only [rotateEnd, if_pos hb, hm, if_neg (show ¬min (b.point.line + k) (dims.screenLines - 1) < a'.point.line by omega)]
    by_cases hin : top ≤ b.point.line
    · by_cases hkept : b.point.line + k < bottom
      · rw [if_neg (by omega), show min (b.point.line + k) ((dims.screenLines : ℤ) - 1) = b.point.line - -k by omega]
        exact ⟨_, rfl, iff_of_true (Movement.anchorFollows_moved (m := ⟨top, bottom, -k⟩) ⟨hin, hlt⟩ (by simp only; omega)) (by omega)⟩
      · have hlost : ∀ b' : Anchor, b'.point.line = bottom - 1 → (Movement.mk top bottom (-k)).LowerFollows topmost b b' := by
          intro b' hb'
          rw [Movement.LowerFollows, Movement.anchorFollows_lost ⟨hin, hlt⟩ (by simp only; omega)]
          exact fun _ => ⟨by simp only; omega, hb'⟩
        by_cases he : bottom ≤ min (b.point.line + k) (dims.screenLines - 1)
        · rw [if_pos he]
          exact ⟨_, rfl, iff_of_true (hlost _ (Anchor.clampedBottom_line _ _ _ _)) (by omega)⟩
        · rw [if_neg he]
          exact ⟨_, rfl, iff_of_true (hlost _ (by rw [Anchor.onLine_line]; omega)) (by omega)⟩
    · obtain rfl : top = 0 := hb.1.resolve_left hin
      rw [if_neg (by omega), show min (b.point.line + k) ((dims.screenLines : ℤ) - 1) = b.point.line + k by omega]
      refine ⟨_, rfl, (anchorFollows_history (by omega)).trans ?_⟩
      omega
  · rw [rotateEnd, if_neg hb]
    simp only [rotates] at hb
    exact ⟨b, rfl, iff_of_true (Movement.anchorFollows_outside (by simp only; omega)) (by omega)⟩

/-- **Scrolling down**, the selection follows its rows unless the region begins at the top of the screen and an anchor is
in the history, or the row of the upper anchor is lost and the region ends at the bottom of the screen or the lower
anchor is below it. -/
theorem rotateOrdered_down_iff (ht : 0 ≤ top) (htb : top ≤ bottom) (hbot : bottom ≤ dims.screenLines) (hk : 0 ≤ k)
    (hkb : k ≤ bottom - top) (hle : a.point.line ≤ b.point.line) (htopm : topmost ≤ 0) :
    (Movement.mk top bottom (-k)).OrderedFollows topmost (a, b) (rotateOrdered ty dims top bottom (-k) (a, b)) ↔
      ¬(0 < k ∧ top = 0 ∧ (topmost ≤ a.point.line ∧ a.point.line < 0 ∨ topmost ≤ b.point.line ∧ b.point.line < 0) ∨
        top ≤ a.point.line ∧ a.point.line < bottom ∧ bottom ≤ a.point.line + k ∧ (bottom = dims.screenLines ∨ bottom ≤ b.point.line)) := by
  have hr : ∀ c : Anchor, c.point.line < bottom →
      min (c.point.line - -k) dims.bottommostLine = min (c.point.line + k) (dims.screenLines - 1) := by
    intro c _
    simp only [bottommostLine, sub_neg_eq_add]
  by_cases ha : rotates top bottom a.point.line
  · by_cases ho : bottom ≤ min (a.point.line + k) (dims.screenLines - 1) ∧ b.point.line < bottom
    · have hst : rotateStart ty dims top bottom (-k) a b = none := by
        simp only [rotateStart, if_pos ha, hr a ha.2, if_pos ho]
      rw [rotateOrdered, hst, bind_none]
      have htopa : top ≤ a.point.line := by
        simp only [rotates] at ha
        omega
      refine iff_of_true (.inl ?_) (by omega)
      rw [Movement.carry_inside ⟨htopa, ha.2⟩, if_neg (by simp only; omega)]
    · have hst : rotateStart ty dims top bottom (-k) a b = some (a.onLine (min (a.point.line + k) (dims.screenLines - 1))) := by
        simp only [rotateStart, if_pos ha, hr a ha.2, if_neg ho]
        rw [if_neg]
        simp only [rotates] at ha
        omega
      obtain ⟨b', hb', hl⟩ := rotateEnd_down ty b (a.onLine (min (a.point.line + k) (dims.screenLines - 1))) topmost
        hbot hk hkb (.inr (by rw [Anchor.onLine_line]; omega))
      rw [rotateOrdered, hst, bind_some, hb', map_some, Movement.OrderedFollows, hl]
      have hlt := ha.2
      by_cases hin : top ≤ a.point.line
      · by_cases hkept : a.point.line + k < bottom
        · rw [show min (a.point.line + k) ((dims.screenLines : ℤ) - 1) = a.point.line - -k by omega]
          have hu : (Movement.mk top bottom (-k)).UpperFollows topmost a (a.onLine (a.point.line - -k)) :=
            Movement.anchorFollows_moved (m := ⟨top, bottom, -k⟩) ⟨hin, hlt⟩ (by simp only; omega)
          rw [iff_true_intro hu, true_and]
          omega
        · refine iff_of_false (fun h => ?_) (by omega)
          have hc := h.1
          rw [Movement.UpperFollows, Movement.anchorFollows_lost ⟨hin, hlt⟩ (by simp only; omega)] at hc
          have := (hc (by simp only; omega)).1
          simp only at this
          omega
      · obtain rfl : top = 0 := ha.1.resolve_left hin
        rw [show min (a.point.line + k) ((dims.screenLines : ℤ) - 1) = a.point.line + k by omega, Movement.UpperFollows,
          anchorFollows_history (c := a) (by omega)]
        omega
  · obtain ⟨b', hb', hl⟩ := rotateEnd_down ty b a topmost hbot hk hkb (.inl hle)
    rw [rotateOrdered, rotateStart, if_neg ha, bind_some, hb', map_some, Movement.OrderedFollows, hl]
    simp only [rotates] at ha
    have hu : (Movement.mk top bottom (-k)).UpperFollows topmost a a := Movement.anchorFollows_outside (by simp only; omega)
    rw [iff_true_intro hu, true_and]
    omega

end Selection

/-! ### Scrolls of a terminal -/

namespace Selected

/-- The number of lines that scrolling up scrolls by. -/
def upCount (t : Term) (lines : ℕ) : ℕ := min lines (t.scrollRegion.stop - t.scrollRegion.start).toNat

/-- The number of lines that scrolling down scrolls by. -/
def downCount (t : Term) (origin : ℤ) (lines : ℕ) : ℕ := min (upCount t lines) (t.scrollRegion.stop - origin).toNat

/-- The rows that scrolling up moves: from the top of the screen, those of the history with those of the region. -/
def upMovement (t : Term) (origin : ℤ) (lines : ℕ) : Movement where
  lo := if origin = 0 then -(min (t.grid.historySize + upCount t lines) t.grid.maxScrollLimit : ℕ) else origin
  stop := t.scrollRegion.stop
  d := upCount t lines

/-- The rows that scrolling down moves: those of the region. -/
def downMovement (t : Term) (origin : ℤ) (lines : ℕ) : Movement where
  lo := origin
  stop := t.scrollRegion.stop
  d := -downCount t origin lines

/-- A selection is kept with its rows: each row is where the movement brings it, and the selection follows the
movement. -/
structure Keeps (m : Movement) (t : Term) (s : Selection) (after : Selected) : Prop where
  moved : Moved t.grid after.term.grid m.lo m.stop m.d
  sameRow : ∀ line line', -(t.grid.historySize : ℤ) ≤ line → line < t.grid.lines → m.carry line = some line' →
    after.term.grid.raw.get line' = t.grid.raw.get line
  follows : m.Follows (-t.grid.historySize) s after.selection

/-- The line of an anchor, if there is a row in it. -/
def HasRow (t : Term) (a : Anchor) : Prop := -(t.grid.historySize : ℤ) ≤ a.point.line

/-- When scrolling up keeps a selection with its rows: from the top of the screen, if the history takes the rows of both
anchors; below it, unless the row of the lower anchor is lost and comes to lie above the region, not above the upper
anchor. -/
def UpKeeps (t : Term) (s : Selection) (origin : ℤ) (lines : ℕ) : Prop :=
  let (a, b) := s.ordered
  let m := upMovement t origin lines
  if origin = 0 then (HasRow t a → m.lo ≤ a.point.line - m.d) ∧ (HasRow t b → m.lo ≤ b.point.line - m.d)
  else ¬(a.point.line ≤ b.point.line - m.d ∧ b.point.line - m.d < origin ∧ origin ≤ b.point.line ∧ b.point.line < m.stop)

/-- When scrolling down keeps a selection with its rows: from the top of the screen, if no anchor is in the history; and
the row of the upper anchor is lost only if both anchors are in the region and this does not end at the bottom of the
screen. -/
def DownKeeps (t : Term) (s : Selection) (origin : ℤ) (lines : ℕ) : Prop :=
  let (a, b) := s.ordered
  let count : ℤ := downCount t origin lines
  let stop := t.scrollRegion.stop
  (0 < count → origin = 0 → (HasRow t a → 0 ≤ a.point.line) ∧ (HasRow t b → 0 ≤ b.point.line)) ∧
    (origin ≤ a.point.line → a.point.line < stop → stop ≤ a.point.line + count → b.point.line < stop ∧ stop ≠ t.grid.lines)

variable {t : Term} {s : Selection} {origin : ℤ} {lines : ℕ}

/-- A selection is kept where the rows move with the grid's, if it follows the movement. -/
theorem keeps_iff {m : Movement} (after : Selected) (hmv : Moved t.grid after.term.grid m.lo m.stop m.d)
    (hhist : t.grid.historySize ≤ after.term.grid.historySize) :
    Keeps m t s after ↔ m.Follows (-t.grid.historySize) s after.selection :=
  ⟨fun h => h.follows, fun h => ⟨hmv, fun _ _ h1 h2 => Movement.get_carry hmv (by omega) h2, h⟩⟩

/-- Scrolling up keeps a selection with its rows just if it is to. -/
theorem keeps_up_iff (hi : t.grid.Inv) (hst : 0 ≤ t.scrollRegion.start) (ho : t.scrollRegion.start ≤ origin)
    (hr : origin ≤ t.scrollRegion.stop) (hsp : t.scrollRegion.stop ≤ t.grid.lines) :
    Keeps (upMovement t origin lines) t s (scrollUpRelative ⟨t, some s⟩ origin lines) ↔ UpKeeps t s origin lines := by
  have hhist : (t.grid.scrollUp origin t.scrollRegion.stop (upCount t lines)).historySize =
      if origin = 0 then min (t.grid.historySize + upCount t lines) t.grid.maxScrollLimit else t.grid.historySize :=
    scrollUp_historySize hi ..
  have hle := Selection.ordered_le s
  have hl := hi.history_le
  rcases eq_or_ne origin 0 with rfl | hne
  · have hc : (upCount t lines : ℤ) ≤ t.scrollRegion.stop := by
      simp only [upCount]
      omega
    rw [if_pos rfl] at hhist
    have hmv := scrollUp_top_moved hi hc hsp
    rw [hhist] at hmv
    have hm : upMovement t 0 lines =
        ⟨-(min (t.grid.historySize + upCount t lines) t.grid.maxScrollLimit : ℕ), t.scrollRegion.stop, upCount t lines⟩ := rfl
    rw [hm, keeps_iff (scrollUpRelative ⟨t, some s⟩ 0 lines) hmv (by
      show _ ≤ (t.grid.scrollUp 0 t.scrollRegion.stop (upCount t lines)).historySize
      omega)]
    refine (Selection.follows_rotate_iff _).trans ?_
    refine (Selection.rotateOrdered_up_top_iff hsp (by omega) hc hle (by omega) (by omega)).trans ?_
    simp only [UpKeeps, if_pos, HasRow, hm]
    omega
  · rw [if_neg hne] at hhist
    have hm : upMovement t origin lines = ⟨origin, t.scrollRegion.stop, upCount t lines⟩ := by
      rw [upMovement, if_neg hne]
    have hmv := scrollUp_moved hi (show 0 < origin by omega) hsp (upCount t lines)
    rw [hm, keeps_iff (scrollUpRelative ⟨t, some s⟩ origin lines) hmv (by
      show _ ≤ (t.grid.scrollUp origin t.scrollRegion.stop (upCount t lines)).historySize
      omega)]
    refine (Selection.follows_rotate_iff _).trans ?_
    refine (Selection.rotateOrdered_up_iff (by omega) hsp (by omega) hle (by omega)).trans ?_
    simp only [UpKeeps, if_neg hne, hm]

/-- Scrolling down keeps a selection with its rows just if it is to. -/
theorem keeps_down_iff (hi : t.grid.Inv) (hst : 0 ≤ t.scrollRegion.start) (ho : t.scrollRegion.start ≤ origin)
    (hr : origin ≤ t.scrollRegion.stop) (hsp : t.scrollRegion.stop ≤ t.grid.lines) :
    Keeps (downMovement t origin lines) t s (scrollDownRelative ⟨t, some s⟩ origin lines) ↔ DownKeeps t s origin lines := by
  have hhist : (t.grid.scrollDown origin t.scrollRegion.stop (downCount t origin lines)).historySize = t.grid.historySize :=
    (scrollDown_inv hi ..).2
  have hle := Selection.ordered_le s
  have hc : (downCount t origin lines : ℤ) ≤ t.scrollRegion.stop - origin := by
    simp only [downCount]
    omega
  have hmv := scrollDown_moved hi (show 0 ≤ origin by omega) hsp (downCount t origin lines)
  rw [downMovement, keeps_iff (scrollDownRelative ⟨t, some s⟩ origin lines) hmv (by
    show _ ≤ (t.grid.scrollDown origin t.scrollRegion.stop (downCount t origin lines)).historySize
    omega)]
  refine (Selection.follows_rotate_iff _).trans ?_
  refine (Selection.rotateOrdered_down_iff (by omega) hr hsp (by omega) hc hle (by omega)).trans ?_
  have hls : t.grid.dims.screenLines = t.grid.lines := rfl
  simp only [DownKeeps, HasRow, hls]
  omega

/-- **Selections follow their rows** when the region is scrolled up, and when it is scrolled down, just as `UpKeeps` and
`DownKeeps` say. -/
theorem scrolling_selection_iff (t : Term) (s : Selection) (origin : ℤ) (lines : ℕ) (hi : t.grid.Inv)
    (hstart : 0 ≤ t.scrollRegion.start) (horigin : t.scrollRegion.start ≤ origin) (hregion : origin ≤ t.scrollRegion.stop)
    (hstop : t.scrollRegion.stop ≤ t.grid.lines) :
    (Keeps (upMovement t origin lines) t s (scrollUpRelative ⟨t, some s⟩ origin lines) ↔ UpKeeps t s origin lines) ∧
      (Keeps (downMovement t origin lines) t s (scrollDownRelative ⟨t, some s⟩ origin lines) ↔ DownKeeps t s origin lines) :=
  ⟨keeps_up_iff hi hstart horigin hregion hstop, keeps_down_iff hi hstart horigin hregion hstop⟩

/-- A terminal of two lines with a character in the line of its history. -/
def markedHistory : Term :=
  let g : Grid Cell := new 2 1 1
  let g := { g with raw := g.raw.modify 0 (·.modify 0 fun c => { c with c := 'x' }) }
  { Term.new 2 1 1 false with grid := g.scrollUp 0 2 1 }

theorem markedHistory_inv : markedHistory.grid.Inv := scrollUp_inv (Grid.Inv.of_sized (new_inv 1 1 (by decide))
    ((new_inv 1 1 (by decide) : (new 2 1 1 : Grid Cell).Inv).sized.modify 0 _) (Nat.zero_le 1) 0 0).1 0 2 1

/-- The selection of the character in the history. -/
def markedSelection : Selection := ⟨.simple, ⟨⟨-1, 0⟩, .left⟩, ⟨⟨-1, 0⟩, .right⟩⟩

theorem scrolling_selection_iff_marked :
    (Keeps (upMovement markedHistory 0 1) markedHistory markedSelection (scrollUpRelative ⟨markedHistory, some markedSelection⟩ 0 1) ↔
        UpKeeps markedHistory markedSelection 0 1) ∧
      (Keeps (downMovement markedHistory 0 1) markedHistory markedSelection
          (scrollDownRelative ⟨markedHistory, some markedSelection⟩ 0 1) ↔ DownKeeps markedHistory markedSelection 0 1) :=
  scrolling_selection_iff markedHistory markedSelection 0 1 markedHistory_inv (by decide) (by decide) (by decide) (by decide)

/-- Scrolling the screen down leaves the history, and takes the anchors in it along. -/
theorem scroll_down_past_the_history : ¬ ∀ (t : Term) (s s' : Selection) (origin : ℤ) (lines : ℕ), t.grid.Inv →
    0 ≤ t.scrollRegion.start → t.scrollRegion.start ≤ origin → origin ≤ t.scrollRegion.stop → t.scrollRegion.stop ≤ t.grid.lines →
    (scrollDownRelative ⟨t, some s⟩ origin lines).selection = some s' →
    (downMovement t origin lines).carry s.start.point.line = some s.start.point.line →
    s'.start = s.start ∨ (t.scrollDownRelative origin lines).grid.raw.get s'.start.point.line = t.grid.raw.get s.start.point.line := by
  intro h
  have hrow := h markedHistory markedSelection ⟨.simple, ⟨⟨0, 0⟩, .left⟩, ⟨⟨0, 0⟩, .right⟩⟩ 0 1 markedHistory_inv (by decide)
    (by decide) (by decide) (by decide) (by decide) (by decide)
  revert hrow
  decide

end Selected

end Pebrel.Terminal
