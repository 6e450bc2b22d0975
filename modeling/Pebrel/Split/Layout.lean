import Mathlib.Data.Rat.Floor

/-!
# The layout of the panes of a tab

The panes of a tab are the leaves of a tree of splits. A split shares its rectangle
between two trees and the bar that divides them, so that each of the two gets at least
the length of one cell (`nebula_split/src/lib.rs`).

Where each split has the room for two cells and the bar, panes and bars tile the
viewport (`layout_tiles`). Where one has not, its trees get the length of a cell all the
same, and reach out of the viewport.

The numbers of the source are `f32`, here they are exact.
-/

namespace Pebrel.Split

open List

inductive SplitDirection where
  | leftRight
  | topBottom
  deriving DecidableEq

structure Rect where
  x : ℚ
  y : ℚ
  w : ℚ
  h : ℚ
  deriving DecidableEq

/-- `SplitTree`: a pane, or two trees beside each other. -/
inductive SplitTree (T : Type) where
  | leaf (id : T)
  | split (direction : SplitDirection) (ratio : ℚ) (previewRatio : Option ℚ) (dragging : Bool) (first second : SplitTree T)

structure Divider where
  rect : Rect
  direction : SplitDirection
  /-- The way from the root, `true` where it goes to the second tree. -/
  path : List Bool
  viewport : Rect

structure SplitLayout (T : Type) where
  panes : List (T × Rect)
  dividers : List Divider

/-! ### Rectangles -/

/-- What is along the direction in which the trees of a split are beside each other. -/
def SplitDirection.along (d : SplitDirection) (horizontal vertical : ℚ) : ℚ :=
  match d with
  | .leftRight => horizontal
  | .topBottom => vertical

namespace Rect

def contains (r : Rect) (x y : ℚ) : Prop := (r.x ≤ x ∧ x < r.x + r.w) ∧ r.y ≤ y ∧ y < r.y + r.h

/-- The part of a rectangle that begins at an offset and has a length. -/
def part (r : Rect) (d : SplitDirection) (offset length : ℚ) : Rect :=
  match d with
  | .leftRight => { r with x := r.x + offset, w := length }
  | .topBottom => { r with y := r.y + offset, h := length }

/-- The length of a rectangle. -/
def extent (r : Rect) (d : SplitDirection) : ℚ := d.along r.w r.h

def Disjoint (r s : Rect) : Prop := ∀ x y, ¬(r.contains x y ∧ s.contains x y)

def Within (r viewport : Rect) : Prop :=
  (viewport.x ≤ r.x ∧ r.x + r.w ≤ viewport.x + viewport.w) ∧ viewport.y ≤ r.y ∧ r.y + r.h ≤ viewport.y + viewport.h

end Rect

/-! ### The layout -/

/-- The length of the first tree, of what a split has without the bar. -/
def firstLength (usable cell r : ℚ) : ℚ := min (max (⌊usable * r⌋ : ℚ) cell) (max (usable - cell) cell)

namespace SplitTree

variable {T : Type}

def collectRects (cellW cellH divider : ℚ) (usePreview : Bool) (path : List Bool) (vp : Rect) : SplitTree T → SplitLayout T
  | leaf id => ⟨[(id, vp)], []⟩
  | split direction ratio previewRatio _ first second =>
    let cell := direction.along cellW cellH
    let usable := max (vp.extent direction - divider) cell
    let length := firstLength usable cell (if usePreview then previewRatio.getD ratio else ratio)
    let a := first.collectRects cellW cellH divider usePreview (path ++ [false]) (vp.part direction 0 length)
    let b := second.collectRects cellW cellH divider usePreview (path ++ [true])
      (vp.part direction (length + divider) (max (usable - length) cell))
    ⟨a.panes ++ b.panes, ⟨vp.part direction length divider, direction, path, vp⟩ :: (a.dividers ++ b.dividers)⟩

def layout (t : SplitTree T) (viewport : Rect) (cellW cellH divider : ℚ) (usePreview : Bool) : SplitLayout T :=
  t.collectRects cellW cellH divider usePreview [] viewport

end SplitTree

/-- The rectangles of the panes and of the bars. -/
def SplitLayout.rects {T : Type} (l : SplitLayout T) : List Rect := l.panes.map Prod.snd ++ l.dividers.map Divider.rect

/-- A split has the room for two cells and the bar. -/
def Divider.Roomy (cellW cellH divider : ℚ) (d : Divider) : Prop :=
  2 * d.direction.along cellW cellH + divider ≤ d.viewport.extent d.direction

/-! ### Tilings -/

/-- The rectangles tile the viewport. -/
structure Tiles (viewport : Rect) (rects : List Rect) : Prop where
  nonneg : ∀ r ∈ rects, 0 ≤ r.w ∧ 0 ≤ r.h
  within : ∀ r ∈ rects, r.Within viewport
  disjoint : rects.Pairwise Rect.Disjoint
  cover : ∀ x y, viewport.contains x y → ∃ r ∈ rects, r.contains x y

section
variable {viewport r s : Rect} {rs rects rest : List Rect} {d : SplitDirection} {a b c x y : ℚ}

theorem Rect.Disjoint.symm (h : r.Disjoint s) : s.Disjoint r := fun x y hxy => h x y hxy.symm

theorem Rect.Within.trans (h : r.Within s) (hs : s.Within viewport) : r.Within viewport := by
  obtain ⟨⟨h1, h2⟩, h3, h4⟩ := h
  obtain ⟨⟨k1, k2⟩, k3, k4⟩ := hs
  exact ⟨⟨k1.trans h1, h2.trans k2⟩, k3.trans h3, h4.trans k4⟩

theorem Rect.Within.contains (h : r.Within s) (hr : r.contains x y) : s.contains x y := by
  obtain ⟨⟨h1, h2⟩, h3, h4⟩ := h
  obtain ⟨⟨k1, k2⟩, k3, k4⟩ := hr
  exact ⟨⟨h1.trans k1, k2.trans_le h2⟩, h3.trans k3, k4.trans_le h4⟩

theorem Tiles.perm (h : Tiles viewport rects) (hperm : rects.Perm rs) : Tiles viewport rs where
  nonneg r hr := h.nonneg r (hperm.mem_iff.mpr hr)
  within r hr := h.within r (hperm.mem_iff.mpr hr)
  disjoint := (hperm.pairwise_iff .symm).mp h.disjoint
  cover x y hxy := by
    obtain ⟨r, hr, hxy⟩ := h.cover x y hxy
    exact ⟨r, hperm.mem_iff.mp hr, hxy⟩

/-- A rectangle of a tiling is tiled itself. -/
theorem Tiles.refine (h : Tiles viewport (r :: rest)) (hr : Tiles r rs) : Tiles viewport (rs ++ rest) := by
  obtain ⟨hne, hd⟩ := pairwise_cons.mp h.disjoint
  refine ⟨fun s hs => ?_, fun s hs => ?_, pairwise_append.mpr ⟨hr.disjoint, hd, fun s hs t ht x y hxy => ?_⟩, fun x y hxy => ?_⟩
  · exact (mem_append.mp hs).elim (hr.nonneg s) fun hs => h.nonneg s (mem_cons_of_mem r hs)
  · rcases mem_append.mp hs with hs | hs
    · exact (hr.within s hs).trans (h.within r mem_cons_self)
    · exact h.within s (mem_cons_of_mem r hs)
  · exact hne t ht x y ⟨(hr.within s hs).contains hxy.1, hxy.2⟩
  · obtain ⟨s, hs, hs'⟩ := h.cover x y hxy
    rcases mem_cons.mp hs with rfl | hs
    · obtain ⟨t, ht, ht'⟩ := hr.cover x y hs'
      exact ⟨t, mem_append_left rest ht, ht'⟩
    · exact ⟨s, mem_append_right rs hs, hs'⟩

theorem tiles_self (hw : 0 ≤ viewport.w) (hh : 0 ≤ viewport.h) : Tiles viewport [viewport] where
  nonneg := forall_mem_singleton.mpr ⟨hw, hh⟩
  within := forall_mem_singleton.mpr ⟨⟨le_rfl, le_rfl⟩, le_rfl, le_rfl⟩
  disjoint := pairwise_singleton _ _
  cover _ _ h := ⟨viewport, mem_singleton_self viewport, h⟩

/-- Three lengths that add up tile a rectangle. -/
theorem tiles_parts (hw : 0 ≤ viewport.w) (hh : 0 ≤ viewport.h) (ha : 0 ≤ a) (hb : 0 ≤ b) (hc : 0 ≤ c)
    (hs : a + b + c = viewport.extent d) :
    Tiles viewport [viewport.part d 0 a, viewport.part d (a + b) c, viewport.part d a b] := by
  cases d <;> simp only [Rect.extent, SplitDirection.along] at hs <;>
    refine ⟨?_, ?_, ?_, fun x y hxy => ?_⟩ <;>
    simp only [Rect.part, forall_mem_cons, not_mem_nil, false_imp_iff, implies_true, and_true, pairwise_cons, Pairwise.nil,
      exists_mem_cons_iff, false_and, exists_false, or_false, Rect.Disjoint, Rect.Within, Rect.contains] at *
  · exact ⟨⟨ha, hh⟩, ⟨hc, hh⟩, hb, hh⟩
  · refine ⟨⟨⟨?_, ?_⟩, le_rfl, le_rfl⟩, ⟨⟨?_, ?_⟩, le_rfl, le_rfl⟩, ⟨?_, ?_⟩, le_rfl, le_rfl⟩ <;> linarith
  · refine ⟨⟨fun x y h => ?_, fun x y h => ?_⟩, fun x y h => ?_⟩ <;> linarith [h.1.1.1, h.1.1.2, h.2.1.1, h.2.1.2]
  · obtain ⟨⟨hx, hx'⟩, hy⟩ := hxy
    rcases lt_or_ge x (viewport.x + a) with hlt | hge
    · exact .inl ⟨⟨by linarith, by linarith⟩, hy⟩
    rcases lt_or_ge x (viewport.x + a + b) with hlt | hge'
    · exact .inr (.inr ⟨⟨hge, hlt⟩, hy⟩)
    · exact .inr (.inl ⟨⟨by linarith, by linarith⟩, hy⟩)
  · exact ⟨⟨hw, ha⟩, ⟨hw, hc⟩, hw, hb⟩
  · refine ⟨⟨⟨le_rfl, le_rfl⟩, ?_, ?_⟩, ⟨⟨le_rfl, le_rfl⟩, ?_, ?_⟩, ⟨le_rfl, le_rfl⟩, ?_, ?_⟩ <;> linarith
  · refine ⟨⟨fun x y h => ?_, fun x y h => ?_⟩, fun x y h => ?_⟩ <;> linarith [h.1.2.1, h.1.2.2, h.2.2.1, h.2.2.2]
  · obtain ⟨hx, hy, hy'⟩ := hxy
    rcases lt_or_ge y (viewport.y + a) with hlt | hge
    · exact .inl ⟨hx, by linarith, by linarith⟩
    rcases lt_or_ge y (viewport.y + a + b) with hlt | hge'
    · exact .inr (.inr ⟨hx, hge, hlt⟩)
    · exact .inr (.inl ⟨hx, by linarith, by linarith⟩)

/-- The lengths of a split that has the room add up to its own. -/
theorem firstLength_add {extent divider cell : ℚ} (r : ℚ) (hc : 0 ≤ cell) (hrm : 2 * cell + divider ≤ extent) :
    ∃ length, firstLength (max (extent - divider) cell) cell r = length ∧ 0 ≤ length ∧
      0 ≤ max (max (extent - divider) cell - length) cell ∧ length + divider + max (max (extent - divider) cell - length) cell = extent := by
  rw [firstLength, max_eq_left (by linarith : cell ≤ extent - divider), max_eq_left (by linarith : cell ≤ extent - divider - cell)]
  obtain ⟨length, hl⟩ : ∃ length, min (max (⌊(extent - divider) * r⌋ : ℚ) cell) (extent - divider - cell) = length := ⟨_, rfl⟩
  have hle : length ≤ extent - divider - cell := hl ▸ min_le_right _ _
  have hge : cell ≤ length := hl ▸ le_min (le_max_right _ _) (by linarith)
  rw [hl]
  refine ⟨length, rfl, hc.trans hge, ?_⟩
  rw [max_eq_left (by linarith)]
  exact ⟨by linarith, by linarith⟩

variable {T : Type} {cellW cellH divider : ℚ}

/-- Each tree tiles its rectangle, where all its splits have the room. -/
theorem tiles_collectRects (hcel : 0 ≤ cellW) (hcell : 0 ≤ cellH) (hdiv : 0 ≤ divider) (usePreview : Bool) (t : SplitTree T)
    (path : List Bool) (vp : Rect) (hw : 0 ≤ vp.w) (hh : 0 ≤ vp.h)
    (hr : ∀ d ∈ (t.collectRects cellW cellH divider usePreview path vp).dividers, d.Roomy cellW cellH divider) :
    Tiles vp (t.collectRects cellW cellH divider usePreview path vp).rects := by
  induction t generalizing path vp with
  | leaf id => exact tiles_self hw hh
  | split direction ratio previewRatio dragging first second ihFirst ihSecond =>
    rw [SplitTree.collectRects] at hr ⊢
    obtain ⟨hrm, hr⟩ := forall_mem_cons.mp hr
    have hc : 0 ≤ direction.along cellW cellH := by cases direction <;> assumption
    obtain ⟨length, hl, hf, hs, hsum⟩ := firstLength_add (if usePreview then previewRatio.getD ratio else ratio) hc hrm
    dsimp only at hl hs hsum hr ⊢
    rw [hl] at hr ⊢
    have hps := tiles_parts hw hh hf hdiv hs hsum
    obtain ⟨hw1, hh1⟩ := hps.nonneg _ (.head _)
    obtain ⟨hw2, hh2⟩ := hps.nonneg _ (.tail _ (.head _))
    have hp := ihFirst (path ++ [false]) _ hw1 hh1 fun d hd => hr d (mem_append_left _ hd)
    have hp' := ihSecond (path ++ [true]) _ hw2 hh2 fun d hd => hr d (mem_append_right _ hd)
    refine (((hps.refine hp).perm perm_append_comm).refine hp').perm ?_
    refine perm_iff_count.mpr fun r => ?_
    simp only [SplitLayout.rects, map_append, map_cons, append_eq, count_append, count_cons, count_nil]
    omega

/-- **Panes and bars tile the viewport**, if each split has the room for two cells and the bar. -/
theorem layout_tiles (t : SplitTree T) (viewport : Rect) (cellW cellH divider : ℚ) (usePreview : Bool) (hw : 0 ≤ viewport.w)
    (hh : 0 ≤ viewport.h) (hcellW : 0 ≤ cellW) (hcellH : 0 ≤ cellH) (hdivider : 0 ≤ divider)
    (hroomy : ∀ d ∈ (t.layout viewport cellW cellH divider usePreview).dividers, d.Roomy cellW cellH divider) :
    Tiles viewport (t.layout viewport cellW cellH divider usePreview).rects :=
  tiles_collectRects hcellW hcellH hdivider usePreview t [] viewport hw hh hroomy

/-- Two panes beside each other. -/
def twoPanes : SplitTree ℕ := .split .leftRight (1 / 2) none false (.leaf 1) (.leaf 2)

theorem layout_tiles_twoPanes : Tiles ⟨0, 0, 10, 4⟩ (twoPanes.layout ⟨0, 0, 10, 4⟩ 1 1 2 false).rects := by
  refine layout_tiles twoPanes ⟨0, 0, 10, 4⟩ 1 1 2 false (by norm_num) (by norm_num) (by norm_num) (by norm_num) (by norm_num) ?_
  simp only [twoPanes, SplitTree.layout, SplitTree.collectRects, append_nil, forall_mem_singleton]
  norm_num [Divider.Roomy, SplitDirection.along, Rect.extent]

/-- A viewport of width 3 has no room for two panes of one cell each, where a cell is 2 wide. -/
theorem layout_overflows : ¬∀ (t : SplitTree ℕ) (viewport : Rect) (cellW cellH divider : ℚ) (usePreview : Bool), 0 ≤ viewport.w →
    0 ≤ viewport.h → 0 < cellW → 0 < cellH → 0 ≤ divider → Tiles viewport (t.layout viewport cellW cellH divider usePreview).rects := by
  intro h
  have hwth := (h twoPanes ⟨0, 0, 3, 4⟩ 2 1 1 false (by norm_num) (by norm_num) (by norm_num) (by norm_num) (by norm_num)).within
    ⟨3, 0, 2, 4⟩ (by decide +kernel)
  norm_num [Rect.Within] at hwth

end

end Pebrel.Split
