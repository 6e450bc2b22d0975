import Pebrel.Terminal.RowLaws
import Pebrel.Terminal.RowReset

/-!
# How scrolling moves rows

What scrolling does to the rows of a region, said once: `Grid.Moved` is a
movement of the rows from `lo` to `stop` by `d` lines, in which the rows outside
stay and those that nothing moves into are reset. Both ways in which
`scroll_down` scrolls and all of `scroll_up` are such movements; the one that
starts at the top of the screen has the history for the upper part of its
region. The rows reset are blank where the rows that the grid holds are uniform
(`Grid.Scrolled`).
-/

namespace Pebrel.Terminal

open Library List Function Storage

variable {T : Type}

/-! ### Ranges of lines -/

@[simp, grind =] theorem mem_lineRange {a b line : ℤ} : line ∈ lineRange a b ↔ a ≤ line ∧ line < b := by
  simp only [lineRange, mem_map, bind_eq_flatMap, pure_def, mem_flatMap, mem_range, mem_singleton]
  constructor
  · rintro ⟨_, ⟨k, hk, rfl⟩, rfl⟩
    omega
  · intro h
    exact ⟨line - a, ⟨(line - a).toNat, by omega, by omega⟩, by omega⟩

theorem lineRange_eq_map (a b : ℤ) : lineRange a b = (List.range (b - a).toNat).map fun k : ℕ => a + (k : ℤ) := by
  simp only [lineRange, bind_eq_flatMap, pure_def, map_eq_flatMap, flatMap_assoc, flatMap_singleton]

theorem lineRange_split {a b i : ℤ} (h1 : a ≤ i) (h2 : i < b) : lineRange a b = lineRange a i ++ i :: lineRange (i + 1) b := by
  have hc : (b - a).toNat = (i - a).toNat + ((b - (i + 1)).toNat + 1) := by omega
  rw [lineRange_eq_map, lineRange_eq_map, lineRange_eq_map, hc, range_add, map_append, map_map, range_succ_eq_map, map_cons, map_map]
  congr 2
  · simp only [comp]
    omega
  · refine map_congr_left fun k _ => ?_
    simp only [comp]
    omega

namespace Storage

/-! ### Swapping the lines of a region -/

section
variable {s : Storage T} {v n : ℕ} {l₁ l₂ : List ℤ} {i : ℤ}

/-- A swap brings the other line. -/
theorem get_swap_left (h : s.Ok) {a b : ℤ} (ha : s.InRange a) (hb : s.InRange b) : (s.swap a b).get a = s.get b := by
  obtain ⟨ra, rb, hra, hrb, hs⟩ := swap_of_inRange h ha hb
  have hi : (s.swap a b).computeIndex a = s.computeIndex a := by
    rw [hs]
    simp [computeIndex, positive]
  have hlt : s.computeIndex a < s.inner.length := (List.getElem?_eq_some_iff.mp hra).1
  rw [get, hi, hrb, hs]
  show ((s.inner.set (s.computeIndex a) rb).set (s.computeIndex b) ra)[s.computeIndex a]? = some rb
  by_cases heq : s.computeIndex b = s.computeIndex a
  · have hr : ra = rb := by
      have : s.get a = s.get b := by rw [get, get, heq]
      rw [hra, hrb] at this
      exact Option.some.inj this
    rw [heq, getElem?_set_self (by rwa [length_set]), hr]
  · rw [getElem?_set_ne heq, getElem?_set_self hlt]

theorem get_swap_right (h : s.Ok) {a b : ℤ} (ha : s.InRange a) (hb : s.InRange b) : (s.swap a b).get b = s.get a := by
  obtain ⟨ra, rb, hra, hrb, hs⟩ := swap_of_inRange h ha hb
  have hi : (s.swap a b).computeIndex b = s.computeIndex b := by
    rw [hs]
    simp [computeIndex, positive]
  have hlt : s.computeIndex b < s.inner.length := (List.getElem?_eq_some_iff.mp hrb).1
  rw [get, hi, hra, hs]
  exact getElem?_set_self (by rwa [length_set])

theorem swapLines_append (d : ℤ) (l₁ l₂ : List ℤ) : s.swapLines d (l₁ ++ l₂) = (s.swapLines d l₁).swapLines d l₂ := foldl_append ..

theorem Sized.inRange_iff (h : s.Sized v n) {line : ℤ} : s.InRange line ↔ (v : ℤ) - n ≤ line ∧ line < v := by
  unfold InRange
  rw [h.visibleLines_eq, h.len_eq]

theorem Sized.inRange_of {t : Storage T} (h : s.Sized v n) (ht : t.Sized v n) {c : ℤ} (hc : s.InRange c) : t.InRange c :=
  ht.inRange_iff.mpr (h.inRange_iff.mp hc)

/-- The line that is exchanged once brings the other line, when no exchange has moved that one before. -/
theorem Sized.get_swapLines_fst (h : s.Sized v n) {d a : ℤ}
    (hrg : ∀ b ∈ l₁ ++ a :: l₂, s.InRange b ∧ s.InRange (b + d)) (h1 : ∀ b ∈ l₁, a + d ≠ b ∧ a + d ≠ b + d)
    (h2 : ∀ b ∈ l₂, a ≠ b ∧ a ≠ b + d) : (s.swapLines d (l₁ ++ a :: l₂)).get a = s.get (a + d) := by
  have hs1 := h.swapLines d l₁
  have hs2 := hs1.swap a (a + d)
  have ha := hrg a (by simp)
  rw [swapLines_append]
  show (((s.swapLines d l₁).swap a (a + d)).swapLines d l₂).get a = _
  rw [hs2.get_swapLines (h.inRange_of hs2 ha.1) fun b hb => ?_, get_swap_left hs1.ok (h.inRange_of hs1 ha.1) (h.inRange_of hs1 ha.2),
    h.get_swapLines ha.2 fun b hb => ?_]
  · exact ⟨(hrg b (by simp [hb])).1, (hrg b (by simp [hb])).2, h1 b hb⟩
  · exact ⟨h.inRange_of hs2 (hrg b (by simp [hb])).1, h.inRange_of hs2 (hrg b (by simp [hb])).2, h2 b hb⟩

/-- The line exchanged with it brings the first one, when no exchange has moved that one before. -/
theorem Sized.get_swapLines_snd (h : s.Sized v n) {d a : ℤ}
    (hrg : ∀ b ∈ l₁ ++ a :: l₂, s.InRange b ∧ s.InRange (b + d)) (h1 : ∀ b ∈ l₁, a ≠ b ∧ a ≠ b + d)
    (h2 : ∀ b ∈ l₂, a + d ≠ b ∧ a + d ≠ b + d) : (s.swapLines d (l₁ ++ a :: l₂)).get (a + d) = s.get a := by
  have hs1 := h.swapLines d l₁
  have hs2 := hs1.swap a (a + d)
  have ha := hrg a (by simp)
  rw [swapLines_append]
  show (((s.swapLines d l₁).swap a (a + d)).swapLines d l₂).get (a + d) = _
  rw [hs2.get_swapLines (h.inRange_of hs2 ha.2) fun b hb => ?_, get_swap_right hs1.ok (h.inRange_of hs1 ha.1) (h.inRange_of hs1 ha.2),
    h.get_swapLines ha.1 fun b hb => ?_]
  · exact ⟨(hrg b (by simp [hb])).1, (hrg b (by simp [hb])).2, h1 b hb⟩
  · exact ⟨h.inRange_of hs2 (hrg b (by simp [hb])).1, h.inRange_of hs2 (hrg b (by simp [hb])).2, h2 b hb⟩

variable {a b : ℤ} {d : ℕ}

/-- Swapping down through a region brings each line the one `d` below it. -/
theorem Sized.get_swapLines_up (h : s.Sized v n) (hrg : ∀ i, a ≤ i → i < b → s.InRange i ∧ s.InRange (i + d))
    (h1 : a ≤ i) (h2 : i < b) : (s.swapLines d (lineRange a b)).get i = s.get (i + d) := by
  rw [lineRange_split h1 h2]
  refine h.get_swapLines_fst (fun c hc => ?_) (fun c hc => ?_) fun c hc => ?_
  · rw [← lineRange_split h1 h2, mem_lineRange] at hc
    exact hrg c hc.1 hc.2
  · grind
  · grind

/-- Swapping up through a region brings each line the one `d` above it. -/
theorem Sized.get_swapLines_down (h : s.Sized v n) (hrg : ∀ i, a ≤ i → i < b → s.InRange i ∧ s.InRange (i + -d))
    (h1 : a ≤ i) (h2 : i < b) : (s.swapLines (-d) (lineRange a b).reverse).get i = s.get (i - d) := by
  have hr : (lineRange a b).reverse = (lineRange (i + 1) b).reverse ++ i :: (lineRange a i).reverse := by
    rw [lineRange_split h1 h2, reverse_append, reverse_cons, append_assoc]
    rfl
  rw [hr]
  refine h.get_swapLines_fst (fun c hc => ?_) (fun c hc => ?_) fun c hc => ?_
  · rw [← hr, mem_reverse, mem_lineRange] at hc
    exact hrg c hc.1 hc.2
  · grind
  · grind

/-- Swapping down through the lines from `a` to `b` with those `d` above brings each of them there. -/
theorem Sized.get_swapLines_above (h : s.Sized v n) (hrg : ∀ i, a ≤ i → i < b → s.InRange i ∧ s.InRange (i + -d))
    (h1 : a ≤ i) (h2 : i < b) : (s.swapLines (-d) (lineRange a b)).get (i - d) = s.get i := by
  rw [lineRange_split h1 h2]
  refine h.get_swapLines_snd (fun c hc => ?_) (fun c hc => ?_) fun c hc => ?_
  · rw [← lineRange_split h1 h2, mem_lineRange] at hc
    exact hrg c hc.1 hc.2
  · grind
  · grind

/-- What `d` lines satisfy goes along below the lines that are swapped with the ones `d` below them. -/
theorem Sized.swapLines_window (h : s.Sized v n) {P : Row T → Prop} (hab : a ≤ b)
    (hrg : ∀ i, a ≤ i → i < b → s.InRange i ∧ s.InRange (i + d))
    (hP : ∀ i, a ≤ i → i < a + d → ∃ r, s.get i = some r ∧ P r) (h1 : b ≤ i) (h2 : i < b + d) :
    ∃ r, (s.swapLines d (lineRange a b)).get i = some r ∧ P r := by
  obtain ⟨k, rfl⟩ : ∃ k : ℕ, b = a + k := ⟨(b - a).toNat, by omega⟩
  induction k generalizing i with
  | zero =>
    have hn : lineRange a (a + (0 : ℕ)) = [] := by
      rw [eq_nil_iff_forall_not_mem]
      intro c hc
      grind
    rw [hn]
    exact hP i (by omega) (by omega)
  | succ k ih =>
    have hl : lineRange a (a + (k + 1 : ℕ)) = lineRange a (a + k) ++ [a + k] := by
      rw [lineRange_split (i := a + k) (by omega) (by omega)]
      congr 2
      rw [eq_nil_iff_forall_not_mem]
      intro c hc
      grind
    have ht := h.swapLines d (lineRange a (a + k))
    obtain ⟨hr1, hr2⟩ := hrg (a + k) (by omega) (by omega)
    have hin1 := ht.inRange_iff.mpr (h.inRange_iff.mp hr1)
    have hin2 := ht.inRange_iff.mpr (h.inRange_iff.mp hr2)
    have hrest : ∀ j : ℤ, a + k ≤ j → j < a + k + d → ∃ r, (s.swapLines d (lineRange a (a + k))).get j = some r ∧ P r :=
      fun j hj1 hj2 => ih (by omega) (fun c hc1 hc2 => hrg c hc1 (by omega)) hj1 hj2
    rw [hl, swapLines_append]
    show ∃ r, ((s.swapLines d (lineRange a (a + k))).swap (a + k) (a + k + d)).get i = some r ∧ P r
    by_cases hi : i = a + k + d
    · rw [hi, get_swap_right ht.ok hin1 hin2]
      exact hrest (a + k) (by omega) (by omega)
    have hin : (s.swapLines d (lineRange a (a + k))).InRange i := by
      have h₁' := hin1.1
      have h₂' := hin2.2
      exact ⟨by omega, by omega⟩
    rw [get_swap_of_ne ht.ok hin1 hin2 hin (by omega) hi]
    exact hrest i (by omega) (by omega)

end

end Storage

/-! ### Movements -/

namespace Grid

variable {start stop : ℤ} {positions : ℕ}

/-- The lines of a grid are those of its storage. -/
theorem Inv.inRange {g : Grid T} (hi : g.Inv) {line : ℤ} (h1 : -(g.historySize : ℤ) ≤ line) (h2 : line < g.lines) :
    g.raw.InRange line := hi.sized.inRange (by omega) h2

/-- The rows between `lo` and `stop` move by `d` lines, down where it is negative: each line of `g'` has the row that
is `d` lines on in `g`, the lines that have none there are reset with the template, and those outside stay. -/
structure Moved [GridCell T] (g g' : Grid T) (lo stop d : ℤ) : Prop where
  fixed : ∀ line, -(g'.historySize : ℤ) ≤ line → line < g.lines → line < lo ∨ stop ≤ line → g'.raw.get line = g.raw.get line
  moved : ∀ line, lo ≤ line → line < stop → lo ≤ line + d → line + d < stop → g'.raw.get line = g.raw.get (line + d)
  vacated : ∀ line, lo ≤ line → line < stop → line + d < lo ∨ stop ≤ line + d →
    ∃ r : Row T, g'.raw.get line = some (r.reset g.cursor.template)

variable [GridCell T] {g : Grid T}

/-- Resetting the lines of a region moves nothing into it. -/
theorem resetLines_moved (hi : g.Inv) (hst : 0 ≤ start) (hsp : stop ≤ g.lines) {d : ℤ}
    (hd : stop - start ≤ d ∨ d ≤ -(stop - start)) : Moved g (g.resetLines (lineRange start stop)) start stop d := by
  have hin : ∀ a ∈ lineRange start stop, g.raw.InRange a := by
    intro a ha
    rw [mem_lineRange] at ha
    exact hi.inRange (by omega) (by omega)
  refine ⟨fun line h1 h2 ho => ?_, fun line h1 h2 h3 h4 => by omega, fun line h1 h2 _ => ?_⟩
  · rw [(resetLines_inv hi _).2] at h1
    refine get_resetLines_of_notMem hi.sized (hi.inRange h1 h2) fun a ha => ⟨hin a ha, ?_⟩
    grind
  · exact get_resetLines_of_mem hi.sized (mem_lineRange.mpr ⟨h1, h2⟩) hin

/-- Scrolling down by swapping the lines of the region. -/
theorem scrollDown_swap_moved (hi : g.Inv) (hst : 0 ≤ start) (hsp : stop ≤ g.lines) (hn : positions < stop - start) :
    Moved g ({ g with raw := g.raw.swapLines (-positions) (lineRange (start + positions) stop).reverse }.resetLines
      (lineRange start (start + positions)).reverse) start stop (-positions) := by
  have hrg : ∀ i : ℤ, start + positions ≤ i → i < stop → g.raw.InRange i ∧ g.raw.InRange (i + -positions) :=
    fun i h1 h2 => ⟨hi.inRange (by omega) (by omega), hi.inRange (by omega) (by omega)⟩
  have hs := hi.sized.swapLines (-positions) (lineRange (start + positions) stop).reverse
  have hin : ∀ {c : ℤ}, -(g.historySize : ℤ) ≤ c → c < g.lines →
      (g.raw.swapLines (-positions) (lineRange (start + positions) stop).reverse).InRange c :=
    fun h1 h2 => hs.inRange (by omega) h2
  have hrs : ∀ a ∈ (lineRange start (start + positions)).reverse,
      (g.raw.swapLines (-positions) (lineRange (start + positions) stop).reverse).InRange a := by
    intro a ha
    rw [mem_reverse, mem_lineRange] at ha
    exact hin (by omega) (by omega)
  have hhist : ({ g with raw := g.raw.swapLines (-positions) (lineRange (start + positions) stop).reverse }.resetLines
      (lineRange start (start + positions)).reverse).historySize = g.historySize :=
    historySize_of_sized (hs.resetLines g.cursor.template (lineRange start (start + positions)).reverse)
  refine ⟨fun line h1 h2 ho => ?_, fun line h1 h2 h3 h4 => ?_, fun line h1 h2 hv => ?_⟩
  · rw [hhist] at h1
    refine (get_resetLines_of_notMem hs (hin h1 h2) fun a ha => ⟨hrs a ha, ?_⟩).trans
      (hi.sized.get_swapLines (hi.inRange h1 h2) fun a ha => ?_)
    · grind
    · rw [mem_reverse, mem_lineRange] at ha
      obtain ⟨hr1, hr2⟩ := hrg a ha.1 ha.2
      exact ⟨hr1, hr2, by omega, by omega⟩
  · refine (get_resetLines_of_notMem hs (hin (by omega) (by omega)) fun a ha => ⟨hrs a ha, ?_⟩).trans
      (hi.sized.get_swapLines_down hrg (by omega) h2)
    grind
  · refine get_resetLines_of_mem hs ?_ hrs
    rw [mem_reverse, mem_lineRange]
    omega

/-- Scrolling down by rotating all rows, which are those on the screen, and swapping the fixed lines back. -/
theorem scrollDown_rotate_moved (hi : g.Inv) (hst : 0 ≤ start) (hsp : stop ≤ g.lines)
    (hn : positions < stop - start) (hhist : g.historySize = 0) :
    Moved g { g with raw := ((((g.raw.swapLines (-positions) (lineRange stop g.lines)).rotateDown positions).resetLines
      g.cursor.template (lineRange 0 positions)).swapLines positions (lineRange 0 start)) } start stop (-positions) := by
  set raw1 := g.raw.swapLines (-positions) (lineRange stop g.lines) with hraw1
  set raw2 := raw1.rotateDown positions with hraw2
  set raw3 := raw2.resetLines g.cursor.template (lineRange 0 positions) with hraw3
  have hs1 : raw1.Sized g.lines (g.lines + g.historySize) := hi.sized.swapLines _ _
  have hs2 : raw2.Sized g.lines (g.lines + g.historySize) := hs1.rotate positions
  have hs3 : raw3.Sized g.lines (g.lines + g.historySize) := hs2.resetLines g.cursor.template (lineRange 0 positions)
  have hh : ({ g with raw := raw3.swapLines positions (lineRange 0 start) } : Grid T).historySize = g.historySize :=
    historySize_of_sized (hs3.swapLines positions (lineRange 0 start))
  have hin : ∀ {t : Storage T}, t.Sized g.lines (g.lines + g.historySize) → ∀ {c : ℤ}, 0 ≤ c → c < g.lines → t.InRange c :=
    fun ht _ h1 h2 => ht.inRange (by omega) h2
  have hc : (positions : ℤ).natAbs ≤ raw1.inner.length := by
    have := hs1.ok.len_le
    rw [hs1.len_eq] at this
    omega
  have hrs : ∀ a ∈ lineRange 0 positions, raw2.InRange a := by
    intro a ha
    rw [mem_lineRange] at ha
    exact hin hs2 ha.1 (by omega)
  -- the swaps after the rotation stay above line `start + positions`
  have hb : ∀ line : ℤ, start + positions ≤ line → line < g.lines →
      (raw3.swapLines positions (lineRange 0 start)).get line = raw1.get (line - positions) := by
    intro line h1 h2
    rw [hs3.get_swapLines (hin hs3 (by omega) h2) fun a ha => ?_,
      get_resetLines_of_notMem hs2 (hin hs2 (by omega) h2) fun a ha => ⟨hrs a ha, ?_⟩]
    · exact Storage.get_rotate hs1.ok hc (hin hs1 (by omega) h2) (hin hs1 (by omega) (by omega))
    · grind
    · rw [mem_lineRange] at ha
      exact ⟨hin hs3 ha.1 (by omega), hin hs3 (by omega) (by omega), by omega, by omega⟩
  -- the swaps before it stay at or below line `stop - positions`
  have hab : ∀ line : ℤ, 0 ≤ line → line < stop - positions → raw1.get line = g.raw.get line := by
    intro line h1 h2
    refine hi.sized.get_swapLines (hin hi.sized h1 (by omega)) fun a ha => ?_
    rw [mem_lineRange] at ha
    exact ⟨hin hi.sized (by omega) ha.2, hin hi.sized (by omega) (by omega), by omega, by omega⟩
  refine ⟨fun line h1 h2 ho => ?_, fun line h1 h2 h3 h4 => ?_, fun line h1 h2 hv => ?_⟩
  · rw [hh, hhist] at h1
    rcases ho with ho | ho
    · have hup := hs3.get_swapLines_up (a := 0) (b := start) (d := positions)
        (fun i hi1 hi2 => ⟨hin hs3 hi1 (by omega), hin hs3 (by omega) (by omega)⟩) (by omega) ho
      refine hup.trans ?_
      rw [get_resetLines_of_notMem hs2 (hin hs2 (by omega) (by omega)) fun a ha => ⟨hrs a ha, ?_⟩]
      · refine (Storage.get_rotate hs1.ok hc (hin hs1 (by omega) (by omega)) (hin hs1 (by omega) (by omega))).trans ?_
        rw [add_sub_cancel_right]
        exact hab line (by omega) (by omega)
      · grind
    · rw [hb line (by omega) h2]
      exact hi.sized.get_swapLines_above (fun i hi1 hi2 => ⟨hin hi.sized (by omega) hi2, hin hi.sized (by omega) (by omega)⟩) ho h2
  · rw [hb line (by omega) (by omega)]
    exact hab (line - positions) (by omega) (by omega)
  · obtain ⟨r, hr, r0, rfl⟩ := hs3.swapLines_window (a := 0) (b := start) (d := positions)
      (P := fun r => ∃ r0 : Row T, r = r0.reset g.cursor.template) hst
      (fun i hi1 hi2 => ⟨hin hs3 hi1 (by omega), hin hs3 (by omega) (by omega)⟩)
      (fun i hi1 hi2 => by
        obtain ⟨r0, hr0⟩ : ∃ r0 : Row T, _ = some (r0.reset g.cursor.template) :=
          get_resetLines_of_mem hs2 (mem_lineRange.mpr ⟨hi1, by omega⟩) hrs
        exact ⟨_, hr0, r0, rfl⟩)
      h1 (by omega)
    exact ⟨r0, hr⟩

/-- Scrolling down moves the rows of the region down, with a history and without. -/
theorem scrollDown_moved (hi : g.Inv) (hst : 0 ≤ start) (hsp : stop ≤ g.lines) (positions : ℕ) :
    Moved g (g.scrollDown start stop positions) start stop (-positions) := by
  unfold scrollDown
  split_ifs with ha hl
  · exact resetLines_moved hi hst hsp (.inr (by omega))
  · have := hi.history_le
    exact scrollDown_rotate_moved hi hst hsp (by omega) (by omega)
  · exact scrollDown_swap_moved hi hst hsp (by omega)

/-- Scrolling up a region below the top of the screen moves its rows up. -/
theorem scrollUp_moved (hi : g.Inv) (hst : 0 < start) (hsp : stop ≤ g.lines) (positions : ℕ) :
    Moved g (g.scrollUp start stop positions) start stop positions := by
  have hhist := scrollUp_historySize hi start stop positions
  rw [if_neg (by omega)] at hhist
  revert hhist
  unfold scrollUp
  split_ifs with hrs h0
  · exact fun _ => resetLines_moved hi hst.le hsp (.inl hrs.1)
  · omega
  intro hhist
  have hn : (positions : ℤ) < stop - start := by
    by_contra hc
    exact hrs ⟨by omega, h0⟩
  have hrg : ∀ i : ℤ, start ≤ i → i < stop - positions → g.raw.InRange i ∧ g.raw.InRange (i + positions) :=
    fun i h1 h2 => ⟨hi.inRange (by omega) (by omega), hi.inRange (by omega) (by omega)⟩
  have hs := hi.sized.swapLines positions (lineRange start (stop - positions))
  have hin : ∀ {c : ℤ}, -(g.historySize : ℤ) ≤ c → c < g.lines →
      (g.raw.swapLines positions (lineRange start (stop - positions))).InRange c := fun h1 h2 => hs.inRange (by omega) h2
  have hrs' : ∀ a ∈ lineRange (stop - positions) stop, (g.raw.swapLines positions (lineRange start (stop - positions))).InRange a := by
    intro a ha
    rw [mem_lineRange] at ha
    exact hin (by omega) (by omega)
  refine ⟨fun line h1 h2 ho => ?_, fun line h1 h2 h3 h4 => ?_, fun line h1 h2 hv => ?_⟩
  · rw [hhist] at h1
    refine (get_resetLines_of_notMem hs (hin h1 h2) fun a ha => ⟨hrs' a ha, ?_⟩).trans
      (hi.sized.get_swapLines (hi.inRange h1 h2) fun a ha => ?_)
    · grind
    · rw [mem_lineRange] at ha
      obtain ⟨hr1, hr2⟩ := hrg a ha.1 ha.2
      exact ⟨hr1, hr2, by omega, by omega⟩
  · refine (get_resetLines_of_notMem hs (hin (by omega) (by omega)) fun a ha => ⟨hrs' a ha, ?_⟩).trans
      (hi.sized.get_swapLines_up hrg h1 (by omega))
    grind
  · exact get_resetLines_of_mem hs (mem_lineRange.mpr ⟨by omega, h2⟩) hrs'

/-! ### Into the history -/

/-- The rows of a grid after scrolling into the history, before the lines of the region are reset. -/
def scrolledRaw (g : Grid T) (stop : ℤ) (positions : ℕ) : Storage T :=
  let count := min positions (g.maxScrollLimit - g.historySize)
  let raw := if count ≠ 0 then g.raw.initializeRows count g.columns else g.raw
  (raw.rotate (-positions)).swapLines (-positions) (lineRange stop g.lines).reverse

theorem increaseScrollLimit_eq (g : Grid T) (count : ℕ) : g.increaseScrollLimit count =
      { g with
        raw :=
          if min count (g.maxScrollLimit - g.historySize) ≠ 0 then
            g.raw.initializeRows (min count (g.maxScrollLimit - g.historySize)) g.columns
          else g.raw } := by
  unfold increaseScrollLimit
  simp only
  split <;> rfl

theorem scrollUp_top_eq (g : Grid T) (stop : ℤ) (positions : ℕ) : g.scrollUp 0 stop positions =
      { g with
        raw := (g.scrolledRaw stop positions).resetLines g.cursor.template (lineRange (stop - positions) stop)
        displayOffset := g.bumpedOffset positions
        scrolledOut := g.scrolledOut + (positions - (g.maxScrollLimit - g.historySize)) } := by
  unfold scrollUp rotateIntoHistory
  rw [if_neg fun h => h.2 rfl]
  simp only [if_true, increaseScrollLimit_eq, show (lineRange 0 0) = [] from rfl, reverse_nil]
  rfl

section
variable {stop : ℤ} {positions : ℕ}

/-- The rows that the history has grown by, and those it had. -/
theorem grownRaw_spec (hi : g.Inv) {raw : Storage T} (hr : (if min positions (g.maxScrollLimit - g.historySize) ≠ 0 then
    g.raw.initializeRows (min positions (g.maxScrollLimit - g.historySize)) g.columns else g.raw) = raw) :
    raw.Sized g.lines (g.lines + min (g.historySize + positions) g.maxScrollLimit) ∧
      ∀ line : ℤ, -(g.historySize : ℤ) ≤ line → line < g.lines → raw.get line = g.raw.get line := by
  constructor
  · have hinc := increaseScrollLimit_spec hi positions
    rwa [increaseScrollLimit_eq, hr] at hinc
  · intro line h1 h2
    rw [← hr]
    split
    · exact get_initializeRows hi.sized.ok (hi.inRange h1 h2) _ _
    · rfl

theorem scrolledRaw_sized (hi : g.Inv) (stop : ℤ) (positions : ℕ) :
    (g.scrolledRaw stop positions).Sized g.lines (g.lines + min (g.historySize + positions) g.maxScrollLimit) :=
  ((grownRaw_spec hi rfl).1.rotate _).swapLines _ _

/-- Before the lines of the region are reset, each line above its last ones has the row `positions` below it,
and the lines below the region have theirs. -/
theorem scrolledRaw_get (hi : g.Inv) (hn : (positions : ℤ) ≤ stop) (hsp : stop ≤ g.lines) {line : ℤ}
    (h1 : -(min (g.historySize + positions) g.maxScrollLimit : ℕ) ≤ line) (h2 : line < g.lines) :
    (line < stop - positions → (g.scrolledRaw stop positions).get line = g.raw.get (line + positions)) ∧
      (stop ≤ line → (g.scrolledRaw stop positions).get line = g.raw.get line) := by
  have hle := hi.history_le
  unfold scrolledRaw
  simp only
  generalize hraw : (if min positions (g.maxScrollLimit - g.historySize) ≠ 0 then
    g.raw.initializeRows (min positions (g.maxScrollLimit - g.historySize)) g.columns else g.raw) = raw
  obtain ⟨hsz, hg⟩ := grownRaw_spec hi hraw
  have hc : (-(positions : ℤ)).natAbs ≤ raw.inner.length := by
    have := hsz.ok.len_le
    rw [hsz.len_eq] at this
    omega
  have hrot := hsz.rotate (-positions)
  have hin : ∀ {t : Storage T}, t.Sized g.lines (g.lines + min (g.historySize + positions) g.maxScrollLimit) →
      ∀ {c : ℤ}, -(min (g.historySize + positions) g.maxScrollLimit : ℕ) ≤ c → c < g.lines → t.InRange c :=
    fun ht _ h1 h2 => ht.inRange (by omega) h2
  have hrota : ∀ c : ℤ, -(min (g.historySize + positions) g.maxScrollLimit : ℕ) ≤ c → c + positions < g.lines →
      (raw.rotate (-positions)).get c = g.raw.get (c + positions) := by
    intro c h1 h2
    rw [Storage.get_rotate hsz.ok hc (hin hsz h1 (by omega)) (hin hsz (by omega) (by omega)), sub_neg_eq_add]
    exact hg _ (by omega) h2
  have hf : ∀ a : ℤ, stop ≤ a → a < g.lines → (raw.rotate (-positions)).InRange a ∧ (raw.rotate (-positions)).InRange (a + -positions) :=
    fun a ha1 ha2 => ⟨hin hrot (by omega) ha2, hin hrot (by omega) (by omega)⟩
  constructor
  · intro hlt
    rw [hrot.get_swapLines (hin hrot h1 h2) fun a ha => ?_, hrota line h1 (by omega)]
    rw [mem_reverse, mem_lineRange] at ha
    obtain ⟨hr1, hr2⟩ := hf a ha.1 ha.2
    exact ⟨hr1, hr2, by omega, by omega⟩
  · intro hge
    rw [hrot.get_swapLines_down hf hge h2, hrota (line - positions) (by omega) (by omega), sub_add_cancel]

/-- Scrolling up a region that starts at the top: every line above its last `positions` ones
moves up by them, into the history where it has to. -/
theorem scrollUp_get (hi : g.Inv) (hn : (positions : ℤ) ≤ stop) (hsp : stop ≤ g.lines)
    {line : ℤ} (h1 : -((g.scrollUp 0 stop positions).historySize : ℤ) ≤ line) (h2 : line < stop - positions) :
    (g.scrollUp 0 stop positions).raw.get line = g.raw.get (line + positions) := by
  have hsz := scrolledRaw_sized hi stop positions
  rw [scrollUp_historySize hi, if_pos rfl] at h1
  rw [scrollUp_top_eq]
  refine (get_resetLines_of_notMem hsz (hsz.inRange (by omega) (by omega)) fun a ha => ?_).trans
    ((scrolledRaw_get hi hn hsp h1 (by omega)).1 h2)
  rw [mem_lineRange] at ha
  exact ⟨hsz.inRange (by omega) (by omega), by omega⟩

/-- Scrolling up from the top of the screen moves the rows of the region and of the history up. -/
theorem scrollUp_top_moved (hi : g.Inv) (hn : (positions : ℤ) ≤ stop) (hsp : stop ≤ g.lines) :
    Moved g (g.scrollUp 0 stop positions) (-((g.scrollUp 0 stop positions).historySize : ℤ)) stop positions := by
  have hsz := scrolledRaw_sized hi stop positions
  have hhist := scrollUp_historySize hi 0 stop positions
  rw [if_pos rfl] at hhist
  have hrs : ∀ a ∈ lineRange (stop - positions) stop, (g.scrolledRaw stop positions).InRange a := by
    intro a ha
    rw [mem_lineRange] at ha
    exact hsz.inRange (by omega) (by omega)
  refine ⟨fun line h1 h2 ho => ?_, fun line h1 h2 h3 h4 => scrollUp_get hi hn hsp h1 (by omega), fun line h1 h2 hv => ?_⟩
  · rw [scrollUp_top_eq]
    refine (get_resetLines_of_notMem hsz (hsz.inRange (by omega) h2) fun a ha => ⟨hrs a ha, ?_⟩).trans
      ((scrolledRaw_get hi hn hsp (by omega) h2).2 (by omega))
    grind
  · rw [scrollUp_top_eq]
    exact get_resetLines_of_mem hsz (mem_lineRange.mpr ⟨by omega, h2⟩) hrs

end

/-! ### All paths -/

/-- A movement of rows in a terminal: the rows that nothing moves into are blank with the background of the template,
where every row of the grid, kept ready or not, has one blank cell in all places past the ones written. -/
structure Scrolled (g g' : Grid Cell) (lo stop d : ℤ) : Prop extends Moved g g' lo stop d where
  blank : g.raw.Every Row.Uniform → ∀ line, lo ≤ line → line < stop → line + d < lo ∨ stop ≤ line + d →
    ∀ c ∈ (g'.row line).inner, c = .ofColor g.cursor.template.bg

theorem Moved.scrolled {g g' : Grid Cell} {lo d : ℤ} (h : Moved g g' lo stop d)
    (hu : g.raw.Every Row.Uniform → g'.raw.Every Row.Uniform) : Scrolled g g' lo stop d := by
  refine ⟨h, fun hg line h1 h2 hv c hc => ?_⟩
  obtain ⟨r, hr⟩ := h.vacated line h1 h2 hv
  rw [row, hr] at hc
  exact Row.Uniform.blank (hu hg _ (mem_of_getElem? hr)) c hc

/-- **Scrolling is one movement of rows.** Both ways of scrolling down, and scrolling up a region below the top of the
screen, move the rows of the region by the positions and leave the other rows and the history; scrolling up by no more
lines than a region at the top has moves the rows of the history with those of the region, the history growing by
the positions within its limit. The rows that nothing moves into are blank. -/
theorem scrolling_moves_rows {g : Grid Cell} (hi : g.Inv) {start stop : ℤ} (hstart : 0 ≤ start) (hstop : stop ≤ g.lines)
    (positions : ℕ) :
    (Scrolled g (g.scrollDown start stop positions) start stop (-positions) ∧
        (g.scrollDown start stop positions).historySize = g.historySize) ∧
      (0 < start → Scrolled g (g.scrollUp start stop positions) start stop positions ∧
        (g.scrollUp start stop positions).historySize = g.historySize) ∧
      (start = 0 → (positions : ℤ) ≤ stop →
        Scrolled g (g.scrollUp start stop positions) (-((g.scrollUp start stop positions).historySize : ℤ)) stop positions ∧
          (g.scrollUp start stop positions).historySize = min (g.historySize + positions) g.maxScrollLimit) := by
  refine ⟨⟨(scrollDown_moved hi hstart hstop positions).scrolled fun h => every_scrollDown (uniform_carries 0) h _ _ _,
    (scrollDown_inv hi start stop positions).2⟩, fun h => ?_, ?_⟩
  · refine ⟨(scrollUp_moved hi h hstop positions).scrolled fun h => every_scrollUp (uniform_carries g.columns) h _ _ _, ?_⟩
    rw [scrollUp_historySize hi, if_neg (by omega)]
  · rintro rfl hn
    refine ⟨(scrollUp_top_moved hi hn hstop).scrolled fun h => every_scrollUp (uniform_carries g.columns) h _ _ _, ?_⟩
    rw [scrollUp_historySize hi, if_pos rfl]

/-- Three lines without a history, with a character on the last. -/
def markedBelow : Grid Cell :=
  let g : Grid Cell := .new 3 1 0
  { g with raw := g.raw.modify 2 (·.modify 0 fun c => { c with c := 'x' }) }

theorem markedBelow_inv : markedBelow.Inv :=
  (Inv.of_sized (new_inv 1 0 (by decide)) ((new_inv 1 0 (by decide) : (Grid.new 3 1 0 : Grid Cell).Inv).sized.modify 2 _)
    (Nat.zero_le 0) 0 0).1

theorem scrolling_moves_rows_written :
    (Scrolled markedBelow (markedBelow.scrollDown 1 3 1) 1 3 (-(1 : ℕ)) ∧
        (markedBelow.scrollDown 1 3 1).historySize = markedBelow.historySize) ∧
      (0 < (1 : ℤ) → Scrolled markedBelow (markedBelow.scrollUp 1 3 1) 1 3 (1 : ℕ) ∧
        (markedBelow.scrollUp 1 3 1).historySize = markedBelow.historySize) ∧
      ((1 : ℤ) = 0 → ((1 : ℕ) : ℤ) ≤ 3 →
        Scrolled markedBelow (markedBelow.scrollUp 1 3 1) (-((markedBelow.scrollUp 1 3 1).historySize : ℤ)) 3 (1 : ℕ) ∧
          (markedBelow.scrollUp 1 3 1).historySize = min (markedBelow.historySize + 1) markedBelow.maxScrollLimit) :=
  scrolling_moves_rows markedBelow_inv (by decide) (by decide) 1

/-- By more lines than the region has, scrolling up at the top takes a row from below it. -/
theorem scroll_up_past_the_region : ¬ ∀ (g : Grid Cell) (stop : ℤ) (positions : ℕ), g.Inv → 0 ≤ stop → stop ≤ g.lines →
    Moved g (g.scrollUp 0 stop positions) (-((g.scrollUp 0 stop positions).historySize : ℤ)) stop positions := by
  intro h
  have hfix := (h markedBelow 2 3 markedBelow_inv (by decide) (by decide)).fixed 2 (by decide) (by decide) (.inr (by decide))
  revert hfix
  decide

end Grid

end Pebrel.Terminal
