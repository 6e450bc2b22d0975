import Pebrel.Terminal.LineEdits
import Pebrel.Terminal.Selection

/-!
# Where selections end

The searches cell by cell, in terms of the numbers of cells, and from them when
`to_range` gives a range inside the grid whose start comes before its end, and
when the text of a selection can be read. A block whose anchors are in one
column and face each other, and a semantic selection among spacers that follow
a separator, have a start past their end (`Selection.Crossed`). A row that
begins with the spacer of a wide character cannot be read from its start.
-/

namespace Pebrel.Terminal

open Option Nat

/-! ### Searching -/

namespace Grid

variable {g : Grid Cell} {needles : List Char} {n fuel a b : ℕ} {p : Point} {line : ℤ}

theorem searchLeft_zero (g : Grid Cell) (needles : List Char) (fuel : ℕ) :
    g.searchLeft needles fuel (g.iterAt 0) = .error (g.numbered 0) := by
  cases fuel with
  | zero => rfl
  | succ fuel =>
    rw [searchLeft, prev_iterAt_zero]
    rfl

section
variable (hc : 0 < g.columns)
include hc

theorem searchLeft_succ (needles : List Char) (fuel n : ℕ) : g.searchLeft needles (fuel + 1) (g.iterAt (n + 1)) =
      if g.endsLine (g.numbered n) then .error (g.numbered (n + 1))
      else if g.isNeedle needles (g.numbered n) then .ok (g.numbered n)
      else g.searchLeft needles fuel (g.iterAt n) := by
  rw [searchLeft, prev_iterAt hc n]
  rfl

theorem searchRight_succ (needles : List Char) (fuel : ℕ) (hn : n < g.cellCount) : g.searchRight needles (fuel + 1) (g.iterAt n) =
      if n + 1 < g.cellCount then
        if g.isNeedle needles (g.numbered (n + 1)) then .ok (g.numbered (n + 1))
        else if g.endsLine (g.numbered (n + 1)) then .error (g.numbered (n + 1))
        else g.searchRight needles fuel (g.iterAt (n + 1))
      else .error (g.numbered n) := by
  rw [searchRight, next_iterAt hc hn]
  by_cases hl : n + 1 < g.cellCount
  · rw [if_pos hl, if_pos hl]
    rfl
  · rw [if_neg hl, if_neg hl]
    rfl

theorem findText_succ (fuel : ℕ) (hn : n < g.cellCount) : g.findText (fuel + 1) (g.iterAt n) =
      if n + 1 < g.cellCount then
        if (g.cell (g.numbered (n + 1))).isSpacer then g.findText fuel (g.iterAt (n + 1)) else some (g.numbered (n + 1))
      else none := by
  rw [findText, next_iterAt hc hn]
  by_cases hl : n + 1 < g.cellCount
  · rw [if_pos hl, if_pos hl]
    rfl
  · rw [if_neg hl, if_neg hl]

/-- Searching to the left from a cell: the nearest match, or the first cell of the line. -/
theorem searchLeft_spec (needles : List Char) (hfuel : n ≤ fuel) :
    (∃ k < n, g.searchLeft needles fuel (g.iterAt n) = .ok (g.numbered k) ∧ g.isNeedle needles (g.numbered k) ∧
        (∀ i, k < i → i < n → ¬ g.isNeedle needles (g.numbered i)) ∧ ∀ i, k ≤ i → i < n → ¬ g.endsLine (g.numbered i)) ∨
      ∃ k ≤ n, g.searchLeft needles fuel (g.iterAt n) = .error (g.numbered k) ∧
        (∀ i, k ≤ i → i < n → ¬ g.isNeedle needles (g.numbered i)) ∧ (k = 0 ∨ g.endsLine (g.numbered (k - 1))) := by
  induction fuel generalizing n with
  | zero => exact .inr ⟨n, le_rfl, rfl, fun i h1 h2 => absurd h1 (by omega), .inl (by omega)⟩
  | succ fuel ih =>
    cases n with
    | zero =>
      rw [searchLeft_zero]
      exact .inr ⟨0, le_rfl, rfl, fun i h1 h2 => absurd h2 (by omega), .inl rfl⟩
    | succ n =>
      rw [searchLeft_succ hc]
      by_cases he : g.endsLine (g.numbered n) = true
      · rw [if_pos he]
        exact .inr ⟨n + 1, le_rfl, rfl, fun i h1 h2 => absurd h1 (by omega), .inr he⟩
      rw [if_neg he]
      by_cases hndl : g.isNeedle needles (g.numbered n) = true
      · rw [if_pos hndl]
        refine .inl ⟨n, lt_succ_self n, rfl, hndl, fun i h1 h2 => absurd h1 (by omega), fun i h1 h2 => ?_⟩
        obtain rfl : i = n := by omega
        exact he
      · rw [if_neg hndl]
        have hstep : ∀ {k : ℕ} {P : ℕ → Prop}, (∀ i, k ≤ i → i < n → P i) → P n → ∀ i, k ≤ i → i < n + 1 → P i := by
          intro k P h hn i h1 h2
          rcases Nat.lt_succ_iff_lt_or_eq.mp h2 with h2 | rfl
          · exact h i h1 h2
          · exact hn
        rcases ih (show n ≤ fuel by omega) with ⟨k, hk, heq, hfd, hnone, hl⟩ | ⟨k, hk, heq, hnone, hst⟩
        · exact .inl ⟨k, by omega, heq, hfd, hstep hnone hndl, hstep hl he⟩
        · exact .inr ⟨k, by omega, heq, hstep hnone hndl, hst⟩

/-- Searching to the right from a cell: the nearest match, or the last cell of the line. -/
theorem searchRight_spec (needles : List Char) (hn : n < g.cellCount) (hfuel : g.cellCount ≤ n + 1 + fuel) :
    (∃ k, n < k ∧ k < g.cellCount ∧ g.searchRight needles fuel (g.iterAt n) = .ok (g.numbered k) ∧ g.isNeedle needles (g.numbered k) ∧
        ∀ i, n < i → i < k → ¬ g.isNeedle needles (g.numbered i) ∧ ¬ g.endsLine (g.numbered i)) ∨
      ∃ k, n ≤ k ∧ k < g.cellCount ∧ g.searchRight needles fuel (g.iterAt n) = .error (g.numbered k) ∧
        (∀ i, n < i → i ≤ k → ¬ g.isNeedle needles (g.numbered i)) ∧
        (∀ i, n < i → i < k → ¬ g.endsLine (g.numbered i)) ∧
        (k + 1 = g.cellCount ∨ (n < k ∧ g.endsLine (g.numbered k))) := by
  induction fuel generalizing n with
  | zero =>
    exact .inr ⟨n, le_rfl, hn, rfl, fun i h1 h2 => absurd h1 (by omega), fun i h1 h2 => absurd h1 (by omega), .inl (by omega)⟩
  | succ fuel ih =>
    rw [searchRight_succ hc needles fuel hn]
    by_cases hl : n + 1 < g.cellCount
    · rw [if_pos hl]
      by_cases hndl : g.isNeedle needles (g.numbered (n + 1)) = true
      · rw [if_pos hndl]
        exact .inl ⟨n + 1, lt_succ_self n, hl, rfl, hndl, fun i h1 h2 => absurd h1 (by omega)⟩
      rw [if_neg hndl]
      by_cases he : g.endsLine (g.numbered (n + 1)) = true
      · rw [if_pos he]
        refine .inr ⟨n + 1, le_succ n, hl, rfl, fun i h1 h2 => ?_, fun i h1 h2 => absurd h1 (by omega), .inr ⟨lt_succ_self n, he⟩⟩
        obtain rfl : i = n + 1 := by omega
        exact hndl
      · rw [if_neg he]
        rcases ih hl (by omega) with ⟨k, h1, h2, heq, hfd, hnone⟩ | ⟨k, h1, h2, heq, hnone, hline, hsp⟩
        · refine .inl ⟨k, by omega, h2, heq, hfd, fun i hi1 hi2 => ?_⟩
          rcases Nat.lt_or_ge (n + 1) i with hi | hi
          · exact hnone i hi hi2
          · obtain rfl : i = n + 1 := by omega
            exact ⟨hndl, he⟩
        · refine .inr ⟨k, by omega, h2, heq, fun i hi1 hi2 => ?_, fun i hi1 hi2 => ?_, hsp.imp_right fun h => ⟨by omega, h.2⟩⟩
          · rcases Nat.lt_or_ge (n + 1) i with hi | hi
            · exact hnone i hi hi2
            · obtain rfl : i = n + 1 := by omega
              exact hndl
          · rcases Nat.lt_or_ge (n + 1) i with hi | hi
            · exact hline i hi hi2
            · obtain rfl : i = n + 1 := by omega
              exact he
    · rw [if_neg hl]
      exact .inr ⟨n, le_rfl, hn, rfl, fun i h1 h2 => absurd h1 (by omega), fun i h1 h2 => absurd h1 (by omega), .inl (by omega)⟩

/-- The first cell after a cell that is not a spacer, if there is one. -/
theorem findText_spec (hn : n < g.cellCount) (hfuel : g.cellCount ≤ n + 1 + fuel) :
    (∃ k, n < k ∧ k < g.cellCount ∧ g.findText fuel (g.iterAt n) = some (g.numbered k) ∧
        ¬ (g.cell (g.numbered k)).isSpacer ∧ ∀ i, n < i → i < k → (g.cell (g.numbered i)).isSpacer) ∨
      (g.findText fuel (g.iterAt n) = none ∧ ∀ i, n < i → i < g.cellCount → (g.cell (g.numbered i)).isSpacer) := by
  induction fuel generalizing n with
  | zero => exact .inr ⟨rfl, fun i h1 h2 => absurd h2 (by omega)⟩
  | succ fuel ih =>
    rw [findText_succ hc fuel hn]
    by_cases hl : n + 1 < g.cellCount
    · rw [if_pos hl]
      by_cases hs : (g.cell (g.numbered (n + 1))).isSpacer = true
      · rw [if_pos hs]
        have hst : ∀ {i : ℕ}, n < i → ¬ n + 1 < i → (g.cell (g.numbered i)).isSpacer = true := by
          intro i h1 h2
          obtain rfl : i = n + 1 := by omega
          exact hs
        rcases ih hl (by omega) with ⟨k, h1, h2, heq, ht, hspa⟩ | ⟨heq, hspa⟩
        · exact .inl ⟨k, by omega, h2, heq, ht, fun i hi1 hi2 =>
            if hi : n + 1 < i then hspa i hi hi2 else hst hi1 hi⟩
        · exact .inr ⟨heq, fun i hi1 hi2 => if hi : n + 1 < i then hspa i hi hi2 else hst hi1 hi⟩
      · rw [if_neg hs]
        exact .inl ⟨n + 1, lt_succ_self n, hl, rfl, hs, fun i h1 h2 => absurd h1 (by omega)⟩
    · rw [if_neg hl]
      exact .inr ⟨rfl, fun i h1 h2 => absurd h2 (by omega)⟩

end

/-! ### Semantic selections -/

theorem limited_numbered (g : Grid Cell) (n : ℕ) : g.limited (g.numbered n) = g.numbered n := by
  unfold limited
  rw [max_eq_left (topmost_le_numbered g n)]

theorem semanticSearchLeft_numbered (g : Grid Cell) (escape : List Char) (a : ℕ) : g.semanticSearchLeft escape (g.numbered a) =
    match g.searchLeft escape g.cellCount (g.iterAt a) with
    | .ok p => (g.findText g.cellCount (g.iterFrom p)).getD p
    | .error p => p := by
  unfold semanticSearchLeft inlineSearchLeft
  rw [limited_numbered]
  rfl

theorem semanticSearchRight_numbered (g : Grid Cell) (escape : List Char) (b : ℕ) : g.semanticSearchRight escape (g.numbered b) =
    match if g.endsLine (g.numbered b) then .error (g.numbered b) else g.searchRight escape g.cellCount (g.iterAt b) with
    | .ok p => (((g.iterFrom p).prev g.dims.topmostLine).map (·.point)).getD p
    | .error p => p := by
  unfold semanticSearchRight inlineSearchRight
  rw [limited_numbered]
  rfl

/-- A separator is not a spacer. -/
theorem not_isNeedle_of_isSpacer (h : (g.cell p).isSpacer = true) : ¬ g.isNeedle needles p = true := by
  simp [isNeedle, h]

/-- Cell `m` is the first one after the separator `k` that is not a spacer, and `k` is in the line of cell `a`,
before it. -/
structure FollowsSeparator (g : Grid Cell) (escape : List Char) (a k m : ℕ) : Prop where
  lt : k < a
  separator : g.isNeedle escape (g.numbered k)
  text : ¬ (g.cell (g.numbered m)).isSpacer
  spacers : ∀ i, k < i → i < m → (g.cell (g.numbered i)).isSpacer
  same_line : ∀ i, k ≤ i → i < a → ¬ g.endsLine (g.numbered i)

/-- The left end of a semantic selection is past the cell it starts from exactly where that is
among spacers that follow a separator. -/
theorem semanticSearchLeft_spec (hc : 0 < g.columns) (escape : List Char) (ha : a < g.cellCount) :
    ∃ L < g.cellCount, g.semanticSearchLeft escape (g.numbered a) = g.numbered L ∧ (L ≤ a ∨ ∃ k, g.FollowsSeparator escape a k L) ∧
      ∀ k m, a < m → m < g.cellCount → g.FollowsSeparator escape a k m → L = m := by
  have hlf := searchLeft_spec hc escape ha.le
  rw [semanticSearchLeft_numbered]
  rcases hlf with ⟨k, hk, heq, hndl, hn, hl⟩ | ⟨k, hk, heq, hn, hst⟩
  · rw [heq]
    show ∃ L < g.cellCount, (g.findText g.cellCount (g.iterAt k)).getD (g.numbered k) = g.numbered L ∧ _
    -- the separator found is the one that spacers up to a cell past the start follow
    have hsm : ∀ k' m, a < m → g.FollowsSeparator escape a k' m → k' = k := by
      intro k' m hm hf
      rcases lt_trichotomy k' k with hlt | heq | hgt
      · exact absurd hndl (not_isNeedle_of_isSpacer (hf.spacers k hlt (by omega)))
      · exact heq
      · exact absurd hf.separator (hn k' hgt hf.lt)
    rcases findText_spec hc (hk.trans ha) (show g.cellCount ≤ k + 1 + g.cellCount by omega) with
      ⟨m, hm, hmN, ht, hnot, hs⟩ | ⟨ht, hs⟩
    · rw [ht]
      refine ⟨m, hmN, rfl, .inr ⟨k, hk, hndl, hnot, hs, hl⟩, fun k' m' hm' hmN' hf => ?_⟩
      obtain rfl := hsm k' m' hm' hf
      rcases lt_trichotomy m m' with hlt | heq | hgt
      · exact absurd (hf.spacers m hm hlt) hnot
      · exact heq
      · exact absurd (hs m' (by omega) hgt) hf.text
    · rw [ht]
      refine ⟨k, hk.trans ha, rfl, .inl hk.le, fun k' m' hm' hmN' hf => ?_⟩
      exact absurd (hs m' (by omega) hmN') hf.text
  · rw [heq]
    refine ⟨k, hk.trans_lt ha, rfl, .inl hk, fun k' m hm hmN hf => ?_⟩
    -- no separator lies before the first cell of the line
    have hlt : k' < k := by
      by_contra hle
      exact hn k' (by omega) hf.lt hf.separator
    rcases hst with rfl | he
    · omega
    · exact absurd he (hf.same_line (k - 1) (by omega) (by omega))

/-- The right end of a semantic selection is not before the cell it starts from; it is before a
later cell where a separator or the end of a line is in between. -/
theorem semanticSearchRight_spec (hc : 0 < g.columns) (escape : List Char) (hb : b < g.cellCount) :
    ∃ R < g.cellCount, g.semanticSearchRight escape (g.numbered b) = g.numbered R ∧ b ≤ R ∧
      ∀ m, b < m → m < g.cellCount → (∀ i, b < i → i < m → (g.cell (g.numbered i)).isSpacer) →
        (R < m ↔ g.isNeedle escape (g.numbered m) ∨ ∃ i, b ≤ i ∧ i < m ∧ g.endsLine (g.numbered i)) := by
  have hr := searchRight_spec hc escape hb (show g.cellCount ≤ b + 1 + g.cellCount by omega)
  rw [semanticSearchRight_numbered]
  by_cases he : g.endsLine (g.numbered b) = true
  · rw [if_pos he]
    exact ⟨b, hb, rfl, le_rfl, fun m hm _ _ => iff_of_true hm (.inr ⟨b, le_rfl, hm, he⟩)⟩
  rw [if_neg he]
  rcases hr with ⟨k, hk, hkN, heq, hndl, hn⟩ | ⟨k, hk, hkN, heq, hn, hl, hsp⟩
  · obtain ⟨R, rfl⟩ := Nat.exists_eq_add_of_lt hk
    rw [heq]
    show ∃ R' < g.cellCount, (((g.iterAt (b + R + 1)).prev g.dims.topmostLine).map (·.point)).getD _ = g.numbered R' ∧ _
    rw [prev_iterAt hc]
    refine ⟨b + R, by omega, rfl, by omega, fun m hm hmN hspa => ⟨fun hlt => ?_, ?_⟩⟩
    · rcases Nat.lt_or_ge (b + R + 1) m with hin | hin
      · exact absurd hndl (not_isNeedle_of_isSpacer (hspa _ hk hin))
      · obtain rfl : m = b + R + 1 := by omega
        exact .inl hndl
    · rintro (hs | ⟨i, h1, h2, hi⟩)
      · by_contra hle
        exact (hn m hm (by omega)).1 hs
      · by_contra hle
        rcases Nat.eq_or_lt_of_le h1 with rfl | h1
        · exact he hi
        · exact (hn i h1 (by omega)).2 hi
  · rw [heq]
    refine ⟨k, hkN, rfl, hk, fun m hm hmN hspa => ⟨fun hlt => ?_, ?_⟩⟩
    · rcases hsp with hlast | ⟨hbk, hk'⟩
      · omega
      · exact .inr ⟨k, hbk.le, hlt, hk'⟩
    · rintro (hs | ⟨i, h1, h2, hi⟩)
      · by_contra hle
        exact hn m hm (by omega) hs
      · by_contra hle
        rcases Nat.eq_or_lt_of_le h1 with rfl | h1
        · exact he hi
        · exact hl i h1 (by omega) hi

/-- The cells from `a` to `b` are among spacers that follow a separator, and a separator or the end of a line comes
before the next text. -/
def SpacerGap (g : Grid Cell) (escape : List Char) (a b : ℕ) : Prop :=
  ∃ k m, b < m ∧ m < g.cellCount ∧ g.FollowsSeparator escape a k m ∧
    (g.isNeedle escape (g.numbered m) ∨ ∃ i, b ≤ i ∧ i < m ∧ g.endsLine (g.numbered i))

/-- The ends of a semantic selection are crossed exactly among such spacers. -/
theorem semantic_crossed_iff (hc : 0 < g.columns) (escape : List Char) (hab : a ≤ b) (hb : b < g.cellCount) :
    ∃ L < g.cellCount, ∃ R < g.cellCount, g.semanticSearchLeft escape (g.numbered a) = g.numbered L ∧
      g.semanticSearchRight escape (g.numbered b) = g.numbered R ∧ (R < L ↔ g.SpacerGap escape a b) := by
  obtain ⟨L, hL, hlf, hpast, hu⟩ := semanticSearchLeft_spec hc escape (hab.trans_lt hb)
  obtain ⟨R, hR, hr, hbR, hbef⟩ := semanticSearchRight_spec hc escape hb
  refine ⟨L, hL, R, hR, hlf, hr, fun hcro => ?_, ?_⟩
  · rcases hpast with hle | ⟨k, hf⟩
    · omega
    · refine ⟨k, L, by omega, hL, hf, (hbef L (by omega) hL fun i h1 h2 => ?_).mp hcro⟩
      exact hf.spacers i (by have := hf.lt; omega) h2
  · rintro ⟨k, m, hm, hmN, hf, hs⟩
    obtain rfl := hu k m (by omega) hmN hf
    exact (hbef L hm hmN fun i h1 h2 => hf.spacers i (by have := hf.lt; omega) h2).mpr hs

/-! ### Brackets and lines -/

/-- A matching bracket is a cell of the buffer. -/
theorem searchBracket_spec (hc : 0 < g.columns) (forward : Bool) (startChar endChar : Char) (hn : n < g.cellCount) (skipPairs : ℤ) :
    ∀ p ∈ g.searchBracket forward startChar endChar fuel (g.iterAt n) skipPairs, ∃ k < g.cellCount, p = g.numbered k := by
  induction fuel generalizing n skipPairs with
  | zero => nofun
  | succ fuel ih =>
    intro p hp
    have hst : ∀ next, (if forward then (g.iterAt n).next else (g.iterAt n).prev g.dims.topmostLine) = some next →
        ∃ k < g.cellCount, next = g.iterAt k := by
      intro next hnx
      split at hnx
      · rw [next_iterAt hc hn] at hnx
        obtain ⟨hlt, hnx⟩ := ite_none_right_eq_some.mp hnx
        exact ⟨n + 1, hlt, (some.inj hnx).symm⟩
      cases n with
      | zero =>
        rw [prev_iterAt_zero] at hnx
        cases hnx
      | succ n =>
        rw [prev_iterAt hc] at hnx
        exact ⟨n, by omega, (some.inj hnx).symm⟩
    rw [searchBracket] at hp
    split at hp
    · cases hp
    rename_i next hnx
    obtain ⟨k, hk, rfl⟩ := hst next hnx
    simp only at hp
    split_ifs at hp
    · cases hp
      exact ⟨k, hk, rfl⟩
    · exact ih hk _ p hp
    · exact ih hk _ p hp
    · exact ih hk _ p hp

theorem bracketSearch_inGrid (h : g.InGrid p) : ∀ q ∈ g.bracketSearch p, g.InGrid q := by
  intro q hq
  obtain ⟨⟨forward, endChar⟩, -, hq⟩ := bind_eq_some_iff.mp hq
  have hiter := h.iterFrom_eq
  rw [hiter] at hq
  obtain ⟨k, hk, rfl⟩ := searchBracket_spec h.columns_pos forward _ endChar h.number_lt 0 q hq
  exact inGrid_numbered h.columns_pos hk

theorem lineStart_spec (g : Grid Cell) (fuel : ℕ) (h : -(g.historySize : ℤ) ≤ line) :
    -(g.historySize : ℤ) ≤ g.lineStart fuel line ∧ g.lineStart fuel line ≤ line := by
  induction fuel generalizing line with
  | zero => exact ⟨h, le_rfl⟩
  | succ fuel ih =>
    unfold lineStart
    split
    · rename_i hup
      have ht : line > -(g.historySize : ℤ) := hup.1
      obtain ⟨h1, h2⟩ := ih (show -(g.historySize : ℤ) ≤ line - 1 by omega)
      exact ⟨h1, by omega⟩
    · exact ⟨h, le_rfl⟩

theorem lineEnd_spec (g : Grid Cell) (fuel : ℕ) (h : line < g.lines) : line ≤ g.lineEnd fuel line ∧ g.lineEnd fuel line < g.lines := by
  induction fuel generalizing line with
  | zero => exact ⟨le_rfl, h⟩
  | succ fuel ih =>
    unfold lineEnd
    split
    · rename_i hdown
      obtain ⟨h1, h2⟩ := ih hdown.1
      exact ⟨by omega, h2⟩
    · exact ⟨le_rfl, h⟩

theorem InGrid.gridClamp (h : g.InGrid p) : p.gridClamp g.dims .grid = p := by
  have hc := h.column_lt
  have ht : ¬ p.line < g.dims.topmostLine := not_lt.mpr h.topmost_le
  have hb : ¬ p.line > g.dims.bottommostLine := by
    have := h.line_lt
    show ¬ p.line > (g.lines : ℤ) - 1
    omega
  have hm : min p.column g.dims.lastColumn = p.column := by
    show min p.column (g.columns - 1) = p.column
    omega
  unfold Point.gridClamp
  simp only [hm]
  rw [if_neg ht, if_neg hb]

end Grid

/-! ### Ranges -/

/-- A range inside the grid whose start is not past its end, and for a block neither its start column. -/
structure SelectionRange.Valid (g : Grid Cell) (r : SelectionRange) : Prop where
  start_inGrid : g.InGrid r.start
  stop_inGrid : g.InGrid r.stop
  start_le : r.start.le r.stop = true
  column_le : r.isBlock = true → r.start.column ≤ r.stop.column

namespace Selection

open Grid

variable {g : Grid Cell} {s : Selection} {a b : Anchor}

/-- The anchors are cells of the buffer. -/
def Inside (g : Grid Cell) (s : Selection) : Prop := g.InGrid s.start.point ∧ g.InGrid s.stop.point

/-- The selections whose ends are crossed. -/
def Crossed (g : Grid Cell) (escape : List Char) (s : Selection) : Prop :=
  match s.ty with
  | .block =>
    s.ordered.1.point.column = s.ordered.2.point.column ∧ s.ordered.1.point.line ≠ s.ordered.2.point.line ∧
      s.ordered.1.side = .right ∧ s.ordered.2.side = .left
  | .semantic =>
    (s.ordered.1.point = s.ordered.2.point → g.bracketSearch s.ordered.1.point = none) ∧
      g.SpacerGap escape (g.number s.ordered.1.point) (g.number s.ordered.2.point)
  | .simple | .lines => False

variable {l₁ l₂ : ℤ} {c₁ c₂ : ℕ}

theorem ordered_spec (h : s.Inside g) :
    g.InGrid s.ordered.1.point ∧ g.InGrid s.ordered.2.point ∧ s.ordered.1.point.le s.ordered.2.point = true := by
  unfold ordered
  split
  · rename_i hle
    exact ⟨h.1, h.2, hle⟩
  rename_i hle
  refine ⟨h.2, h.1, ?_⟩
  rw [h.2.le_iff h.1]
  rw [h.1.le_iff h.2] at hle
  omega

/-- A simple selection: the first cell and the last one each move by a cell at most, toward each other. -/
theorem rangeSimple_valid (ha : g.InGrid a.point) (hb : g.InGrid b.point) (hle : a.point.le b.point = true) :
    ∀ r ∈ s.rangeSimple a b g.columns, r.Valid g := by
  have hc := ha.columns_pos
  intro r hr
  unfold rangeSimple at hr
  split at hr
  · cases hr
  obtain rfl := (some.inj hr).symm
  obtain ⟨x, hx, hax⟩ : ∃ x < g.cellCount, a.point = g.numbered x := ⟨_, ha.number_lt, ha.numbered_number.symm⟩
  obtain ⟨y, hy, hby⟩ : ∃ y < g.cellCount, b.point = g.numbered y := ⟨_, hb.number_lt, hb.numbered_number.symm⟩
  have hxy : x ≤ y := by
    rw [hax, hby] at hle
    exact (numbered_le_iff g x y).mp hle
  -- the last cell
  obtain ⟨y', hy', hxy', hl⟩ : ∃ y' ≤ y, x ≤ y' ∧ (if b.side = .left ∧ a.point ≠ b.point then
        if b.point.column = 0 then (⟨b.point.line - 1, g.columns - 1⟩ : Point) else ⟨b.point.line, b.point.column - 1⟩
      else b.point) = g.numbered y' := by
    split
    · rename_i hmv
      have hne : x ≠ y := by
        rintro rfl
        exact hmv.2 (hax.trans hby.symm)
      obtain ⟨z, rfl⟩ := Nat.exists_eq_add_of_lt (show 0 < y by omega)
      refine ⟨0 + z, by omega, by omega, ?_⟩
      rw [numbered_pred hc (0 + z), hby]
    · exact ⟨y, le_rfl, hxy, hby⟩
  rw [hl]
  -- the first cell
  obtain ⟨x', hx', hf⟩ : ∃ x' ≤ y', (if a.side = .right ∧ a.point ≠ g.numbered y' then
        if a.point.column + 1 = g.columns then (⟨a.point.line + 1, 0⟩ : Point) else ⟨a.point.line, a.point.column + 1⟩
      else a.point) = g.numbered x' := by
    split
    · rename_i hmv
      have hne : x ≠ y' := by
        rintro rfl
        exact hmv.2 hax
      have hcol := ha.column_lt
      refine ⟨x + 1, by omega, ?_⟩
      rw [numbered_succ hc x, ← hax]
      exact if_congr (by omega) rfl rfl
    · exact ⟨x, hxy', hax⟩
  rw [hf]
  exact ⟨inGrid_numbered hc (by omega), inGrid_numbered hc (by omega), (numbered_le_iff g x' y').mpr hx', nofun⟩

/-- Where a block is empty, whichever of its anchors is above. -/
theorem isEmpty_block_iff (hs : s.ty = .block) (hab : s.ordered = (a, b)) : s.isEmpty = true ↔
      (a.point.column = b.point.column ∧ a.side = b.side) ∨ (a.point.column + 1 = b.point.column ∧ a.side = .right ∧ b.side = .left) ∨
          (b.point.column + 1 = a.point.column ∧ a.side = .left ∧ b.side = .right) := by
  have hr : s.isEmpty = true ↔ (s.start.point.column = s.stop.point.column ∧ s.start.side = s.stop.side) ∨
        (s.start.point.column + 1 = s.stop.point.column ∧ s.start.side = .right ∧ s.stop.side = .left) ∨
          (s.stop.point.column + 1 = s.start.point.column ∧ s.start.side = .left ∧ s.stop.side = .right) := by
    unfold isEmpty
    rw [hs]
    simp only [Bool.or_eq_true, Bool.and_eq_true, beq_iff_eq]
    tauto
  rw [hr]
  unfold ordered at hab
  split at hab
  · cases hab
    exact .rfl
  cases hab
  constructor
  · rintro (⟨h1, h2⟩ | ⟨h1, h2, h3⟩ | ⟨h1, h2, h3⟩)
    · exact .inl ⟨h1.symm, h2.symm⟩
    · exact .inr (.inr ⟨h1, h3, h2⟩)
    · exact .inr (.inl ⟨h1, h3, h2⟩)
  · rintro (⟨h1, h2⟩ | ⟨h1, h2, h3⟩ | ⟨h1, h2, h3⟩)
    · exact .inl ⟨h1.symm, h2.symm⟩
    · exact .inr (.inr ⟨h1, h3, h2⟩)
    · exact .inr (.inl ⟨h1, h3, h2⟩)

/-- What makes a block of two lines valid. -/
theorem valid_block_iff (h1 : -(g.historySize : ℤ) ≤ l₁) (h2 : l₂ < g.lines) (h : l₁ ≤ l₂) :
    (⟨⟨l₁, c₁⟩, ⟨l₂, c₂⟩, true⟩ : SelectionRange).Valid g ↔ c₁ ≤ c₂ ∧ c₂ < g.columns := by
  constructor
  · intro hv
    exact ⟨hv.column_le rfl, hv.stop_inGrid.column_lt⟩
  · rintro ⟨hle, hlt⟩
    exact ⟨⟨h1, h.trans_lt h2, hle.trans_lt hlt⟩, ⟨h1.trans h, h2, hlt⟩, (Point.le_iff ..).mpr (by simp only; omega), fun _ => hle⟩

/-- The trimming of a block from its top left to its bottom right leaves it valid unless it has one column, two lines
and loses a cell on either side. -/
theorem trimmed_valid_iff {s1 s2 : Side} (h1 : -(g.historySize : ℤ) ≤ l₁) (h2 : l₂ < g.lines)
    (h : l₁ ≤ l₂) (hle : c₁ ≤ c₂) (hlt : c₂ < g.columns) (hne : ¬ (c₁ = c₂ ∧ s1 = s2))
    (ha : ¬ (c₁ + 1 = c₂ ∧ s1 = .right ∧ s2 = .left)) {first last : Point}
    (hl : last = if s2 = .left ∧ (⟨l₁, c₁⟩ : Point) ≠ ⟨l₂, c₂⟩ ∧ c₂ > 0 then ⟨l₂, c₂ - 1⟩ else ⟨l₂, c₂⟩)
    (hf : first = if s1 = .right ∧ (⟨l₁, c₁⟩ : Point) ≠ last then ⟨l₁, c₁ + 1⟩ else ⟨l₁, c₁⟩) :
    (⟨first, last, true⟩ : SelectionRange).Valid g ↔ ¬ (c₁ = c₂ ∧ l₁ ≠ l₂ ∧ s1 = .right ∧ s2 = .left) := by
  obtain ⟨c, rfl, hc⟩ : ∃ c, last = ⟨l₂, c⟩ ∧ c = if s2 = .left ∧ ¬ (l₁ = l₂ ∧ c₁ = c₂) ∧ c₂ > 0 then c₂ - 1 else c₂ := by
    refine ⟨_, hl.trans ?_, rfl⟩
    simp only [ne_eq, Point.mk.injEq]
    split <;> rfl
  obtain ⟨d, rfl, hd⟩ : ∃ d, first = ⟨l₁, d⟩ ∧ d = if s1 = .right ∧ ¬ (l₁ = l₂ ∧ c₁ = c) then c₁ + 1 else c₁ := by
    refine ⟨_, hf.trans ?_, rfl⟩
    simp only [ne_eq, Point.mk.injEq]
    split <;> rfl
  rw [valid_block_iff h1 h2 h]
  cases s1 with
  | left =>
    simp only [reduceCtorEq, false_and, if_false, and_false, not_false_eq_true, iff_true] at hd hne ⊢
    subst hd
    cases s2 with
    | left =>
      simp only [and_true, true_and] at hne hc
      split at hc <;> omega
    | right =>
      simp only [reduceCtorEq, false_and, if_false] at hc
      omega
  | right =>
    cases s2 with
    | left =>
      simp only [and_true, true_and] at ha hc hd ⊢
      split at hc <;> split at hd <;> omega
    | right =>
      simp only [reduceCtorEq, false_and, if_false, and_false, not_false_eq_true, iff_true, and_true, true_and] at hc hd hne ⊢
      split at hd <;> omega

/-- A block is valid unless its anchors are in one column of two lines and face each other. -/
theorem rangeBlock_valid_iff (hs : s.ty = .block) (hab : s.ordered = (a, b)) (ha : g.InGrid a.point) (hb : g.InGrid b.point)
    (hle : a.point.le b.point = true) :
    (∀ r ∈ s.rangeBlock a b, r.Valid g) ↔
      ¬ (a.point.column = b.point.column ∧ a.point.line ≠ b.point.line ∧ a.side = .right ∧ b.side = .left) := by
  have hemp := isEmpty_block_iff hs hab
  obtain ⟨⟨la, ca⟩, sa⟩ := a
  obtain ⟨⟨lb, cb⟩, sb⟩ := b
  have hls : la ≤ lb ∧ (la = lb → ca ≤ cb) := by
    rw [Point.le_iff] at hle
    simp only at hle
    omega
  have ht : -(g.historySize : ℤ) ≤ la := ha.topmost_le
  have hbot : lb < g.lines := hb.line_lt
  simp only at hemp ⊢
  unfold rangeBlock
  by_cases he : s.isEmpty = true
  · rw [if_pos he]
    refine iff_of_true nofun ?_
    rintro ⟨rfl, -, rfl, rfl⟩
    rcases hemp.mp he with ⟨-, h⟩ | ⟨h, -⟩ | ⟨h, -⟩
    · cases h
    · omega
    · omega
  · rw [if_neg he]
    rw [hemp] at he
    simp only [not_or] at he
    obtain ⟨hne, hadj, hadj'⟩ := he
    by_cases hcols : ca > cb
    · simp only [if_pos hcols, mem_def, some.injEq, forall_eq']
      have htrim := trimmed_valid_iff ht hbot hls.1 hcols.le ha.column_lt (fun h => absurd h.1 (by omega))
        (fun h => hadj' ⟨h.1, h.2.2, h.2.1⟩) rfl rfl
      exact htrim.trans (iff_of_true (fun h => absurd h.1 (by omega)) fun h => absurd h.1 (by omega))
    · simp only [if_neg hcols, mem_def, some.injEq, forall_eq']
      exact trimmed_valid_iff ht hbot hls.1 (not_lt.mp hcols) hb.column_lt hne hadj rfl rfl

/-- A semantic selection is valid unless it is among spacers that follow a separator, and no bracket is matched. -/
theorem rangeSemantic_valid_iff {p q : Point} (hp : g.InGrid p) (hq : g.InGrid q) (hle : p.le q = true) (escape : List Char) :
    (rangeSemantic g escape p q).Valid g ↔ ¬ ((p = q → g.bracketSearch p = none) ∧ g.SpacerGap escape (g.number p) (g.number q)) := by
  have hc := hp.columns_pos
  unfold rangeSemantic
  split
  · rename_i matching hm
    obtain ⟨rfl, hfd⟩ : p = q ∧ g.bracketSearch p = some matching := by
      split at hm
      · exact ⟨‹_›, hm⟩
      · cases hm
    have hin := bracketSearch_inGrid hp matching hfd
    refine iff_of_true ?_ fun hcro => ?_
    · split
      · rename_i hbef
        exact ⟨hin, hq, (Point.le_iff ..).mpr (by simp only; omega), nofun⟩
      · rename_i ha
        exact ⟨hp, hin, (Point.le_iff ..).mpr (by simp only; omega), nofun⟩
    · rw [hcro.1 rfl] at hfd
      cases hfd
  · rename_i hn
    have hb : p = q → g.bracketSearch p = none := by
      intro heq
      rwa [if_pos heq] at hn
    obtain ⟨L, hL, R, hR, hlf, hr, hcro⟩ := semantic_crossed_iff hc escape ((hp.le_iff hq).mp hle) hq.number_lt
    rw [hp.numbered_number] at hlf
    rw [hq.numbered_number] at hr
    rw [hlf, hr]
    constructor
    · rintro hv ⟨-, hg⟩
      have hle' := (numbered_le_iff g L R).mp hv.start_le
      have := hcro.mpr hg
      omega
    · intro hg
      refine ⟨inGrid_numbered hc hL, inGrid_numbered hc hR, (numbered_le_iff g L R).mpr ?_, nofun⟩
      by_contra hlt
      exact hg ⟨hb, hcro.mp (by omega)⟩

/-- **Ranges**: the range of a selection inside the grid is inside the grid, and in order, exactly where the selection
is not one of the crossed ones. -/
theorem toRange_valid_iff (h : s.Inside g) (escape : List Char) : (∀ r ∈ s.toRange g escape, r.Valid g) ↔ ¬ s.Crossed g escape := by
  obtain ⟨ha, hb, hle⟩ := ordered_spec h
  have hc := ha.columns_pos
  unfold toRange
  have ht : ¬ s.ordered.2.point.line < g.dims.topmostLine := not_lt.mpr hb.topmost_le
  simp only
  rw [if_neg ht, ha.gridClamp, hb.gridClamp]
  unfold Crossed
  cases hty : s.ty with
  | simple =>
    simp only [not_false_eq_true, iff_true]
    exact rangeSimple_valid ha hb hle
  | block => exact rangeBlock_valid_iff hty rfl ha hb hle
  | semantic =>
    simp only [mem_def, some.injEq, forall_eq']
    exact rangeSemantic_valid_iff ha hb hle escape
  | lines =>
    simp only [mem_def, some.injEq, forall_eq', not_false_eq_true, iff_true]
    obtain ⟨h1, h2⟩ := lineStart_spec g (g.historySize + g.lines) ha.topmost_le
    obtain ⟨h3, h4⟩ := lineEnd_spec g (g.historySize + g.lines) hb.line_lt
    have hls : s.ordered.1.point.line ≤ s.ordered.2.point.line := by
      rw [Point.le_iff] at hle
      omega
    have hl : g.columns - 1 < g.columns := by omega
    refine ⟨⟨h1, h2.trans_lt ha.line_lt, hc⟩, ⟨hb.topmost_le.trans h3, h4, hl⟩, (Point.le_iff ..).mpr ?_, nofun⟩
    have hle' : g.lineStart (g.historySize + g.lines) s.ordered.1.point.line ≤
        g.lineEnd (g.historySize + g.lines) s.ordered.2.point.line := by omega
    rcases hle'.lt_or_eq with hlt | heq
    · exact .inl hlt
    · exact Or.inr ⟨heq, Nat.zero_le _⟩

end Selection

end Pebrel.Terminal
