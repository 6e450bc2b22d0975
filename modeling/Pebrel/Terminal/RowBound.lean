import Pebrel.Terminal.CellEdit
import Pebrel.Terminal.RowLaws

/-!
# The occupied part of a row

`occ` bounds the cells of a row that were written since its last reset. A reset
and a discard trust it: they touch no cell past it. Here is what makes that
right. The cells past the bound are as a reset leaves them, on some background
(`Row.Tracked`), and every edit of the terminal keeps this.

Transient content, an image tile or an inline marker, is in a row only while its
grid may have such content.
-/

namespace Pebrel.Terminal

open List Option CellExtra

/-! ### Transient content of a cell -/

namespace Cell

/-- The cell shows an image or carries an inline marker. -/
def transient (c : Cell) : Bool := c.image.isSome || c.inlineMarker.isSome

variable {c : Cell} {f : TextExtra → TextExtra}

/-- Only the extra of a cell decides. -/
theorem transient_congr {d : Cell} (h : c.extra = d.extra) : c.transient = d.transient := by
  simp only [transient, image, inlineMarker, h]

/-- Text attributes without their marker are not transient. -/
theorem transient_dropMarker (c : Cell) (t : TextExtra) : ({ c with extra := dropMarker (.text t) } : Cell).transient = false := by
  unfold dropMarker
  simp only
  split
  · rename_i h
    simpa [transient, image, inlineMarker, textOf] using h
  · split <;> rfl

@[simp] theorem transient_discard (c : Cell) : c.discard.transient = false := by
  unfold discard
  rcases h : c.extra with _ | t | ⟨tile, alive, _ | t⟩
  · rfl
  · exact transient_dropMarker c t
  · rfl
  · exact transient_dropMarker c t

/-- A change of texts that keeps the markers makes nothing transient. -/
theorem transient_map_modifyText (hf : ∀ t, (f t).inlineMarker = t.inlineMarker) :
    ({ c with extra := c.extra.map (·.modifyText f) } : Cell).transient = c.transient := by
  rcases c with ⟨_, _, _, _, _ | e⟩
  · rfl
  · rcases e with t | ⟨tile, _ | _, _ | t⟩ <;>
      simp [transient, image, inlineMarker, modifyText, textOf, hf]

@[simp] theorem transient_clearWide (c : Cell) : c.clearWide.transient = false := by
  have h := transient_map_modifyText (c := { c with flags := { c.flags with wideChar := false } }.discard)
    (f := fun t => { t with zerowidth := [] }) fun _ => rfl
  exact (transient_congr rfl).trans (h.trans (transient_discard _))

@[simp] theorem transient_modifyExtra (c : Cell) (hf : ∀ t, (f t).inlineMarker = t.inlineMarker) :
    (c.modifyExtra f).transient = c.transient := by
  rcases c with ⟨_, _, _, _, _ | e⟩
  · simp [modifyExtra, transient, image, inlineMarker, modifyText, textOf, hf]
  · rcases e with t | ⟨tile, _ | _, _ | t⟩ <;>
      simp [modifyExtra, transient, image, inlineMarker, modifyText, textOf, hf]

@[simp] theorem transient_pushZerowidth (c : Cell) (character : Char) : (c.pushZerowidth character).transient = c.transient :=
  transient_modifyExtra c fun _ => rfl

/-- An extra without needless text attributes is as transient as before. -/
theorem transient_pruneEmptyText (c : Cell) (e : CellExtra) :
    ({ c with extra := some e.pruneEmptyText } : Cell).transient = ({ c with extra := some e } : Cell).transient := by
  rcases e with t | ⟨tile, _ | _, _ | t⟩
  · rfl
  · rfl
  · by_cases h : t.isEmpty
    · have hm : t.inlineMarker = none := by
        simp only [TextExtra.isEmpty, Bool.and_eq_true, isNone_iff_eq_none] at h
        exact h.2
      simp [transient, image, inlineMarker, pruneEmptyText, h, textOf, hm]
    · simp [transient, image, inlineMarker, pruneEmptyText, h, textOf]
  · rfl
  · rfl

theorem transient_setUnderlineColor {color : Option Color} (h : (c.setUnderlineColor color).transient = true) : c.transient = true := by
  unfold setUnderlineColor at h
  simp only at h
  split at h
  · cases h
  · rw [transient_pruneEmptyText] at h
    exact (transient_modifyExtra c (f := fun t => { t with underlineColor := color }) fun _ => rfl).symm.trans h

theorem transient_setHyperlink {hyperlink : Option ℕ} (h : (c.setHyperlink hyperlink).transient = true) : c.transient = true := by
  unfold setHyperlink at h
  simp only at h
  split at h
  · cases h
  · rw [transient_pruneEmptyText] at h
    exact (transient_modifyExtra c (f := fun t => { t with hyperlink }) fun _ => rfl).symm.trans h

/-- As a reset leaves a cell: empty on some background. -/
def Blank (c : Cell) : Prop := c = ofColor c.bg

theorem blank_ofColor (bg : Color) : (ofColor bg).Blank := rfl

theorem blank_default : (default : Cell).Blank := rfl

theorem Blank.transient (h : c.Blank) : c.transient = false := by
  rw [h]
  rfl

end Cell

/-! ### Lengths and members -/

section
variable {T : Type}

@[simp] theorem length_swapCells (cells : List T) (a b : ℕ) : (swapCells cells a b).length = cells.length := by
  unfold swapCells
  split <;> simp

theorem mem_swapCells {cells : List T} {a b : ℕ} {c : T} (h : c ∈ swapCells cells a b) : c ∈ cells := by
  unfold swapCells at h
  split at h
  · rename_i x y hx hy
    rcases mem_or_eq_of_mem_set h with h | rfl
    · rcases mem_or_eq_of_mem_set h with h | rfl
      · exact h
      · exact mem_of_getElem? hy
    · exact mem_of_getElem? hx
  · exact h

@[simp] theorem length_fillCells (cells : List T) (start stop : ℕ) (value : T) :
    (fillCells cells start stop value).length = cells.length := by
  simp [fillCells]

theorem getElem?_fillCells (cells : List T) (start stop : ℕ) (value : T) (i : ℕ) :
    (fillCells cells start stop value)[i]? = cells[i]?.map fun c => if start ≤ i ∧ i < stop then value else c :=
  getElem?_mapIdx ..

theorem mem_fillCells {cells : List T} {start stop : ℕ} {value c : T} (h : c ∈ fillCells cells start stop value) :
    c = value ∨ c ∈ cells := by
  obtain ⟨i, hi⟩ := getElem?_of_mem h
  rw [getElem?_fillCells] at hi
  obtain ⟨d, hd, rfl⟩ := map_eq_some_iff.mp hi
  split
  · exact .inl rfl
  · exact .inr (mem_of_getElem? hd)

/-- A fold of exchanges neither changes the length nor adds a cell. -/
theorem foldl_swapCells (places : List (ℕ × ℕ)) (cells : List T) :
    (places.foldl (fun cells p => swapCells cells p.1 p.2) cells).length = cells.length ∧
      ∀ c ∈ places.foldl (fun cells p => swapCells cells p.1 p.2) cells, c ∈ cells := by
  induction places generalizing cells with
  | nil => exact ⟨rfl, fun c hc => hc⟩
  | cons p places ih =>
    obtain ⟨hl, hm⟩ := ih (swapCells cells p.1 p.2)
    exact ⟨hl.trans (length_swapCells ..), fun c hc => mem_swapCells (hm c hc)⟩

theorem moveOut_spec (cells : List T) (source destination numCells : ℕ) :
    (moveOut cells source destination numCells).length = cells.length ∧ ∀ c ∈ moveOut cells source destination numCells, c ∈ cells := by
  have h := foldl_swapCells ((range numCells).reverse.map fun offset => (destination + offset, source + offset)) cells
  rw [foldl_map] at h
  exact h

theorem moveIn_spec (cells : List T) (start stop numCells : ℕ) :
    (moveIn cells start stop numCells).length = cells.length ∧ ∀ c ∈ moveIn cells start stop numCells, c ∈ cells := by
  have h := foldl_swapCells ((range numCells).map fun offset => (start + offset, stop + offset)) cells
  rw [foldl_map] at h
  exact h

end

/-! ### Rows -/

namespace Row

/-- No cell of the row is transient. -/
def Clean (r : Row Cell) : Prop := ∀ c ∈ r.inner, c.transient = false

/-- The cells past the bound are blank, and where the row has transient content its grid may
have such content. -/
structure Tracked (flag : Bool) (r : Row Cell) : Prop where
  blank : ∀ i c, r.occ ≤ i → r.inner[i]? = some c → c.Blank
  transient : ∀ c ∈ r.inner, c.transient = true → flag = true

/-- A row of a grid: of its width, and tracked. -/
structure Sound (columns : ℕ) (flag : Bool) (r : Row Cell) : Prop where
  len_eq : r.len = columns
  tracked : r.Tracked flag

variable {flag : Bool} {r : Row Cell} {columns : ℕ} {cells : List Cell} {value : Cell}

/-- A blank row is clean, and so is one of a grid that may not have transient content. -/
theorem Tracked.clean (h : r.Tracked false) : r.Clean := fun c hc => by
  cases ht : c.transient with
  | false => rfl
  | true => cases h.transient c hc ht

theorem Tracked.mono (h : r.Tracked flag) : r.Tracked true := ⟨h.blank, fun _ _ _ => rfl⟩

theorem Sound.mono (h : r.Sound columns flag) : r.Sound columns true := ⟨h.len_eq, h.tracked.mono⟩

theorem tracked_new (columns : ℕ) : (.new columns : Row Cell).Tracked flag := by
  refine ⟨fun i c _ hc => ?_, fun c hc ht => ?_⟩
  · rw [eq_of_mem_replicate (mem_of_getElem? hc)]
    exact Cell.blank_default
  · rw [eq_of_mem_replicate hc] at ht
    cases ht

theorem clean_new (columns : ℕ) : (.new columns : Row Cell).Clean := fun c hc => by
  rw [eq_of_mem_replicate hc]
  rfl

/-- A row whose cells were all written may hold any cells that its grid may have. -/
theorem tracked_of_full {occ : ℕ} (ho : cells.length ≤ occ)
    (h : ∀ c ∈ cells, c.transient = true → flag = true) : (⟨cells, occ⟩ : Row Cell).Tracked flag := by
  refine ⟨fun i c hi hc => ?_, h⟩
  have hlt := (List.getElem?_eq_some_iff.mp hc).1
  exact absurd (ho.trans hi) (Nat.not_le.mpr hlt)

theorem mem_modify {i : ℕ} {f : Cell → Cell} {c : Cell} (h : c ∈ cells.modify i f) : c ∈ cells ∨ ∃ d ∈ cells, c = f d := by
  obtain ⟨j, hj⟩ := getElem?_of_mem h
  rw [getElem?_modify] at hj
  obtain ⟨d, hd, rfl⟩ := map_eq_some_iff.mp hj
  have hm := mem_of_getElem? hd
  split
  · exact .inr ⟨d, hm, rfl⟩
  · exact .inl hm

section
variable (h : r.Tracked flag)
include h

theorem Tracked.modify (i : ℕ) {f : Cell → Cell}
    (hf : ∀ c ∈ r.inner, (f c).transient = true → c.transient = true ∨ flag = true) : (r.modify i f).Tracked flag := by
  refine ⟨fun j c hj hc => ?_, fun c hc ht => ?_⟩
  · have hne : ¬ i = j := by
      rintro rfl
      have := (Nat.le_max_right r.occ (i + 1)).trans hj
      omega
    simp only [Row.modify, getElem?_modify, if_neg hne, Option.map_eq_map, Option.map_id'] at hc
    exact h.blank j c ((Nat.le_max_left _ _).trans hj) hc
  · rcases mem_modify hc with hc | ⟨d, hd, rfl⟩
    · exact h.transient c hc ht
    · exact (hf d hd ht).elim (h.transient d hd) id

theorem Tracked.modifyLast {f : Cell → Cell}
    (hf : ∀ c ∈ r.inner, (f c).transient = true → c.transient = true ∨ flag = true) : (r.modifyLast f).Tracked flag := by
  refine tracked_of_full (by simp) fun c hc ht => ?_
  rcases mem_modify hc with hc | ⟨d, hd, rfl⟩
  · exact h.transient c hc ht
  · exact (hf d hd ht).elim (h.transient d hd) id

theorem Tracked.fill (start stop : ℕ) (hv : value.transient = false) : (r.fill start stop value).Tracked flag := by
  refine ⟨fun j c hj hc => ?_, fun c hc ht => ?_⟩
  · simp only [Row.fill] at hj hc
    have hle := (Nat.le_max_right r.occ stop).trans hj
    rw [getElem?_fillCells] at hc
    simp only [if_neg (show ¬(start ≤ j ∧ j < stop) by omega), Option.map_id'] at hc
    exact h.blank j c ((Nat.le_max_left _ _).trans hj) hc
  · rcases mem_fillCells hc with rfl | hc
    · rw [hv] at ht
      cases ht
    · exact h.transient c hc ht

theorem Tracked.modifyAll {f : List Cell → List Cell} (hl : (f r.inner).length = r.inner.length)
    (hf : ∀ c ∈ f r.inner, c.transient = true → c ∈ r.inner) : (r.modifyAll f).Tracked flag :=
  tracked_of_full hl.le fun c hc ht => h.transient c (hf c hc ht) ht

theorem Tracked.fillFrom (start : ℕ) (hv : value.transient = false) : (r.fillFrom start value).Tracked flag := by
  refine tracked_of_full (length_fillCells ..).le fun c hc ht => ?_
  rcases mem_fillCells hc with rfl | hc
  · rw [hv] at ht
    cases ht
  · exact h.transient c hc ht

/-- A row after a reset: no cell counts as written, and all are blank. -/
theorem reset_blank (template : Cell) : ∀ c ∈ (r.reset template).inner, c.Blank := by
  intro c hc
  simp only [Row.reset] at hc
  rcases mem_append.mp hc with hc | hc
  · obtain ⟨d, -, rfl⟩ := mem_map.mp hc
    exact Cell.blank_ofColor template.bg
  obtain ⟨k, hk⟩ := getElem?_of_mem hc
  rw [getElem?_drop] at hk
  split at hk
  · exact h.blank _ c (Nat.le_add_right _ _) hk
  · have := (List.getElem?_eq_some_iff.mp hk).1
    omega

theorem reset_clean (template : Cell) : (r.reset template).Clean := fun c hc => (reset_blank h template c hc).transient

theorem Tracked.reset (template : Cell) {flag' : Bool} : (r.reset template).Tracked flag' := by
  refine ⟨fun i c _ hc => reset_blank h template c (mem_of_getElem? hc), fun c hc ht => ?_⟩
  rw [reset_clean h template c hc] at ht
  cases ht

theorem discard_clean : r.discard.Clean := by
  intro c hc
  simp only [Row.discard] at hc
  rcases mem_append.mp hc with hc | hc
  · obtain ⟨d, -, rfl⟩ := mem_map.mp hc
    exact Cell.transient_discard d
  · obtain ⟨k, hk⟩ := getElem?_of_mem hc
    rw [getElem?_drop] at hk
    exact (h.blank _ c (Nat.le_add_right _ _) hk).transient

theorem Tracked.discard : r.discard.Tracked flag := by
  refine ⟨fun i c hi hc => ?_, fun c hc ht => ?_⟩
  · simp only [Row.discard] at hi hc
    rw [getElem?_append_right (by simp; omega), getElem?_drop, length_map, length_take] at hc
    have hlt := (List.getElem?_eq_some_iff.mp hc).1
    exact h.blank _ c (by omega) hc
  · rw [discard_clean h c hc] at ht
    cases ht

end

@[simp] theorem len_reset (r : Row Cell) (template : Cell) : (r.reset template).len = r.len := by
  simp only [Row.reset, len, length_append, length_map, length_take, length_drop]
  split <;> omega

@[simp] theorem len_discard (r : Row Cell) : r.discard.len = r.len := by
  simp only [Row.discard, len, length_append, length_map, length_take, length_drop]
  omega

/-- Sound rows are what the storage of a grid needs. -/
theorem sound_laws (columns : ℕ) (flag : Bool) : RowLaws (Sound columns flag) Clean flag columns where
  fresh := ⟨⟨by simp [Row.new, len], tracked_new columns⟩, clean_new columns⟩
  release r hr := by
    cases flag with
    | false => exact ⟨hr, hr.tracked.clean⟩
    | true => exact ⟨⟨(len_discard r).trans hr.len_eq, hr.tracked.discard⟩, discard_clean hr.tracked⟩
  reset r template hr := ⟨(len_reset r template).trans hr.len_eq, hr.tracked.reset template⟩

end Row

end Pebrel.Terminal
