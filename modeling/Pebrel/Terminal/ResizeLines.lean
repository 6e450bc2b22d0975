import Pebrel.Terminal.RowMoves
import Pebrel.Terminal.TermScreen

/-!
# Resizing to another number of lines

Where the rows of a grid are after a resize that keeps the columns. `buffer` is
all of them, the oldest of the history first. More lines take rows from the
history and then add blank ones at the bottom, on ConPTY the latter alone; fewer
lines scroll rows out at the top and cut the rest at the bottom.
-/

namespace Pebrel.Terminal

open Library List Option Function Storage
open Storage (length_ring)

variable {T : Type} [GridCell T] {t : Term} {target : ℕ}

theorem lineRange_map_shift {α : Type} (f : ℤ → α) (a b k : ℤ) :
    (lineRange (a + k) (b + k)).map f = (lineRange a b).map fun line => f (line + k) := by
  rw [lineRange_eq_map, lineRange_eq_map, List.map_map, List.map_map, show (b + k - (a + k)).toNat = (b - a).toNat by omega]
  refine map_congr_left fun i _ => ?_
  simp only [comp]
  congr 1
  omega

theorem length_lineRange (a b : ℤ) : (lineRange a b).length = (b - a).toNat := by
  rw [lineRange_eq_map, length_map, length_range]

theorem lineRange_append {a b c : ℤ} (h1 : a ≤ b) (h2 : b ≤ c) : lineRange a c = lineRange a b ++ lineRange b c := by
  have hc : (c - a).toNat = (b - a).toNat + (c - b).toNat := by omega
  rw [lineRange_eq_map, lineRange_eq_map, lineRange_eq_map, hc, range_add, map_append, List.map_map]
  congr 1
  refine map_congr_left fun i _ => ?_
  simp only [comp]
  omega

namespace Storage

omit [GridCell T] in
/-- With another number of visible lines the rows are at other lines. -/
theorem get_visibleLines (s : Storage T) (next : ℕ) (line : ℤ) :
    ({ s with visibleLines := next } : Storage T).get line = s.get (line - (next - s.visibleLines)) := by
  unfold get computeIndex positive
  rw [show ((next : ℤ) - line - 1).toNat = ((s.visibleLines : ℤ) - (line - (next - s.visibleLines)) - 1).toNat by omega]

theorem get_growVisibleLines {s : Storage T} (h : s.Ok) {next : ℕ} {line : ℤ}
    (hl : s.InRange (line - (next - s.visibleLines))) : (s.growVisibleLines next).get line = s.get (line - (next - s.visibleLines)) := by
  unfold growVisibleLines
  rw [get_visibleLines, visibleLines_initializeRows]
  exact get_initializeRows h hl _ _

/-- The row at a line when the last `count` rows of the ring are at the bottom. -/
def turned (s : Storage T) (count : ℕ) (line : ℤ) : Option (Row T) := s.ring[s.inner.length - count + s.positive line]?

/-- A rotation up brings the far end of the ring to the bottom. -/
theorem get_rotate_neg {s : Storage T} (h : s.Ok) {count : ℕ} (hc : count ≤ s.len) {line : ℤ} (h1 : (s.visibleLines : ℤ) - count ≤ line)
    (h2 : line < s.visibleLines) : (s.rotate (-count)).get line = s.turned count line := by
  have hle := h.len_le
  have hp : s.positive line < count := by
    unfold positive
    omega
  have hl : (s.rotate (-count)).InRange line := ⟨by show (s.visibleLines : ℤ) - s.len ≤ line; omega, h2⟩
  have hoff : Ring.offset s.inner.length (-count) = (s.inner.length - count) % s.inner.length := by
    unfold Ring.offset
    rw [← Int.add_emod_right, show -(count : ℤ) + s.inner.length = (s.inner.length - count : ℕ) by omega]
    rfl
  rw [get_eq_ring (ok_rotate h _) hl, ring_rotate h (by omega)]
  show (List.rotate _ _)[s.positive line]? = _
  rw [getElem?_rotate (by rw [length_mapIdx, length_ring]; omega), length_mapIdx, length_ring, hoff, Nat.add_mod_mod,
    Nat.mod_eq_of_lt (by omega), Nat.add_comm, getElem?_mapIdx]
  refine (congrArg (Option.map · _) (funext fun r => if_neg ?_)).trans (Option.map_id' ..)
  rintro ⟨-, hst⟩
  have : Ring.offset s.inner.length (((s.inner.length - count + s.positive line : ℕ) : ℤ) - -count) = s.positive line := by
    unfold Ring.offset
    rw [show ((s.inner.length - count + s.positive line : ℕ) : ℤ) - -count = s.positive line + s.inner.length by omega,
      Int.add_emod_right, Int.emod_eq_of_lt (by omega) (by omega), Int.toNat_natCast]
  omega

/-- Each line of a range is reset once. -/
theorem Sized.get_resetLines_lineRange {s : Storage T} {v n : ℕ} (h : s.Sized v n) {a b line : ℤ} {template : T}
    (h1 : a ≤ line) (h2 : line < b)
    (hin : ∀ c, a ≤ c → c < b → s.InRange c) : (s.resetLines template (lineRange a b)).get line = (s.get line).map (·.reset template) := by
  have hb : s.resetLines template (lineRange a b) =
      (((s.resetLines template (lineRange a line)).modify line (·.reset template)).resetLines template (lineRange (line + 1) b)) := by
    rw [lineRange_split h1 h2]
    exact foldl_append ..
  have hs := h.resetLines template (lineRange a line)
  have hl := hin line h1 h2
  have hne : ∀ {c}, c ∈ lineRange a line → s.InRange c ∧ line ≠ c := fun hc => by
    rw [mem_lineRange] at hc
    exact ⟨hin _ hc.1 (by omega), by omega⟩
  rw [hb, get_resetLines_of_notMem (hs.modify line _) (h.inRange_of (hs.modify line _) hl) fun c hc => ?_,
    get_modify_self hs.ok (h.inRange_of hs hl), get_resetLines_of_notMem h hl fun c hc => hne hc]
  rw [mem_lineRange] at hc
  exact ⟨h.inRange_of (hs.modify line _) (hin c (by omega) hc.2), by omega⟩

end Storage

/-- A reset with the default template leaves the row blank. -/
def Row.ClearsBlank (r : Row Cell) : Prop := (r.get (r.inner.length - 1)).bg = (default : Cell).bg → r.PadsBlank

theorem Row.clearsBlank_iff {r : Row Cell} : (∀ c ∈ (r.reset default).inner, c = default) ↔ r.ClearsBlank := by
  refine (mem_reset_iff rfl).trans ?_
  unfold ClearsBlank
  have hd : (GridCell.discriminantEq (r.get (r.inner.length - 1)) default = true) =
    ((r.get (r.inner.length - 1)).bg = (default : Cell).bg) :=
    propext beq_iff_eq
  simp only [hd]
  by_cases hsm : (r.get (r.inner.length - 1)).bg = (default : Cell).bg
  · rw [if_pos hsm]
    exact ⟨fun h _ => h, fun h => h hsm⟩
  · rw [if_neg hsm]
    exact iff_of_true (fun i c hi hc => absurd (List.getElem?_eq_some_iff.mp hc).1 (not_lt.mpr hi)) fun h => absurd h hsm

namespace Grid

variable {g g' : Grid T}

/-- All rows of a grid, the oldest of the history first. -/
def buffer (g : Grid T) : List (Row T) := (lineRange (-g.historySize) g.lines).map g.row

variable {line : ℤ} {target fromHistory positions : ℕ}

omit [GridCell T] in
theorem length_buffer (g : Grid T) : g.buffer.length = g.historySize + g.lines := by
  rw [buffer, length_map, length_lineRange]
  omega

omit [GridCell T] in
theorem row_congr {line' : ℤ} (h : g'.raw.get line' = g.raw.get line) : g'.row line' = g.row line := by
  rw [row, row, h]

/-! ### More lines -/

/-- What there is in the buffer is there, and after it come `count` rows that satisfy `P`. -/
def Extends (P : Row T → Prop) (g g' : Grid T) (count : ℕ) : Prop :=
  ∃ rows : List (Row T), g'.buffer = g.buffer ++ rows ∧ rows.length = count ∧ ∀ r ∈ rows, P r

/-- Scrolling up the whole screen resets the rows at the far end of the ring, which come to the bottom. -/
theorem scrollUp_bottom (hi : g.Inv) (hn : positions ≤ g.lines) {raw : Storage T}
    (hr : (if min positions (g.maxScrollLimit - g.historySize) ≠ 0
    then g.raw.initializeRows (min positions (g.maxScrollLimit - g.historySize)) g.columns else g.raw) = raw)
    (h1 : (g.lines : ℤ) - positions ≤ line) (h2 : line < g.lines) :
    (g.scrollUp 0 g.lines positions).raw.get line = (raw.turned positions line).map (·.reset g.cursor.template) := by
  have hz := scrolledRaw_sized hi g.lines positions
  have hsc : g.scrolledRaw g.lines positions = raw.rotate (-positions) := by
    unfold scrolledRaw
    simp only [hr, lineRange_eq_map, sub_self, Int.toNat_zero, range_zero, map_nil, reverse_nil]
    rfl
  obtain ⟨hraw, -⟩ := grownRaw_spec hi hr
  rw [hsc] at hz
  rw [scrollUp_top_eq, hsc]
  refine (hz.get_resetLines_lineRange h1 h2 fun c h1 h2 => hz.inRange (by omega) h2).trans ?_
  rw [Storage.get_rotate_neg hraw.ok (by rw [hraw.len_eq]; omega) (by rwa [hraw.visibleLines_eq]) (by rwa [hraw.visibleLines_eq])]

/-- The storage in which a grid that grows to `target` lines scrolls, with room for the rows that go to the history. -/
def grownStorage (g : Grid T) (target positions : ℕ) : Storage T :=
  if min positions (g.maxScrollLimit - g.historySize) ≠ 0 then
    (g.raw.growVisibleLines target).initializeRows (min positions (g.maxScrollLimit - g.historySize)) g.columns
  else g.raw.growVisibleLines target

theorem uniform_grownStorage {g : Grid Cell} (h : g.raw.Every Row.Uniform) (target positions : ℕ) :
    (g.grownStorage target positions).Every Row.Uniform := by
  have hs := Every.growVisibleLines uniform_carries h target
  unfold grownStorage
  split
  · exact .initializeRows (uniform_carries _) hs _
  · exact hs

/-- The rows kept ready that come to the bottom of the screen when ConPTY grows it to `target` lines: the last ones of the
ring, as far as no new rows are put behind them for want of room. -/
def turnedIn (g : Grid T) (target : ℕ) : List (Row T) :=
  let added := target - g.lines
  let room := min added (g.maxScrollLimit - g.historySize)
  let ready := g.raw.inner.length - g.raw.len
  let fresh :=
    if ready < added then added
    else if ready < added + room then max room (max minCacheSize (min target maxCacheSize))
    else 0
  g.raw.ring.drop (g.raw.inner.length - (added - fresh))

/-- What new rows satisfy holds of the rows that come to the bottom where it holds of those kept ready. -/
theorem forall_grownStorage_iff (hi : g.Inv) (ht : g.lines < target) {P : Row T → Prop} (hnew : ∀ columns, P (.new columns)) :
    (∀ r ∈ (g.grownStorage target (target - g.lines)).ring.drop ((g.grownStorage target (target - g.lines)).inner.length - (target - g.lines)),
      P r) ↔ ∀ r ∈ g.turnedIn target, P r := by
  have hdrop : ∀ (l : List (Row T)) (m c k : ℕ),
      ((∀ r ∈ (l ++ replicate m (Row.new c)).drop (l.length + m - k), P r) ↔ ∀ r ∈ l.drop (l.length - (k - m)), P r) := by
    intro l m c k
    have hsame : l.drop (l.length + m - k) = l.drop (l.length - (k - m)) := by
      by_cases hm : k ≤ m
      · rw [drop_eq_nil_of_le (by omega), drop_eq_nil_of_le (by omega)]
      · rw [show l.length + m - k = l.length - (k - m) by omega]
    rw [drop_append, forall_mem_append, hsame]
    refine and_iff_left_of_imp fun _ r hr => ?_
    rw [eq_of_mem_replicate (mem_of_mem_drop hr)]
    exact hnew c
  have hinit : ∀ {s : Storage T}, s.Ok → ∀ n c, ∃ m, m = (if s.len + n > s.inner.length then max n s.cacheSize else 0) ∧
      (s.initializeRows n c).ring = s.ring ++ replicate m (.new c) := by
    intro s hs n c
    refine ⟨_, rfl, (ring_initializeRows hs n c).trans ?_⟩
    split <;> simp
  have hsz := hi.sized.growVisibleLines target
  obtain ⟨f1, hf1, hr1⟩ := hinit hi.sized.ok (target - g.raw.visibleLines) (((g.raw.get 0).map Row.len).getD 0)
  replace hr1 : (g.raw.growVisibleLines target).ring = g.raw.ring ++ replicate f1 (Row.new (((g.raw.get 0).map Row.len).getD 0)) := hr1
  have hl1 : (g.raw.growVisibleLines target).inner.length = g.raw.inner.length + f1 := by
    rw [← length_ring, hr1, length_append, length_replicate, length_ring]
  have hlen := hsz.len_eq
  have hlen0 := hi.sized.len_eq
  have hle := hi.sized.ok.len_le
  rw [hi.sized.visibleLines_eq] at hf1
  unfold grownStorage turnedIn
  simp only
  generalize hroom : min (target - g.lines) (g.maxScrollLimit - g.historySize) = room
  obtain ⟨f2, hf2, hr2⟩ : ∃ f2, f2 = (if room ≠ 0 ∧ g.lines + g.historySize + (target - g.lines) + room > g.raw.inner.length + f1 then
        max room (max minCacheSize (min target maxCacheSize)) else 0) ∧
      (if room ≠ 0 then (g.raw.growVisibleLines target).initializeRows room g.columns else g.raw.growVisibleLines target).ring =
        (g.raw.growVisibleLines target).ring ++ replicate f2 (.new g.columns) := by
    by_cases h0 : room = 0
    · exact ⟨0, by simp [h0], by simp [h0]⟩
    · obtain ⟨f2, hf2, hr2⟩ := hinit hsz.ok room g.columns
      rw [hlen, hl1] at hf2
      exact ⟨f2, hf2.trans (if_congr (by simp [h0]) rfl rfl), by simpa [h0] using hr2⟩
  rw [← length_ring, hr2, length_append, length_replicate, hdrop, hr1, length_append,
    length_replicate, hdrop, length_ring]
  refine iff_of_eq (congrArg (fun k => ∀ r ∈ g.raw.ring.drop (g.raw.inner.length - k), P r) ?_)
  rw [hf2, hf1, hlen0]
  split_ifs <;> omega

theorem decreaseScrollLimit_get (hi : g.Inv) (count : ℕ) (h1 : -((g.historySize - count : ℕ) : ℤ) ≤ line)
    (h2 : line < g.lines) : (g.decreaseScrollLimit count).raw.get line = g.raw.get line := by
  have hp := hi.lines_pos
  unfold decreaseScrollLimit
  simp only
  split
  · have hl := hi.sized.len_eq
    have hv := hi.sized.visibleLines_eq
    exact get_shrinkLines hi.sized.ok (by omega) ⟨by omega, by omega⟩
  · rfl

theorem decreaseScrollLimit_fields (g : Grid T) (count : ℕ) :
    (g.decreaseScrollLimit count).lines = g.lines ∧ (g.decreaseScrollLimit count).cursor = g.cursor := by
  unfold decreaseScrollLimit
  simp only
  split <;> exact ⟨rfl, rfl⟩

/-- Where the rows are after growing: `fromHistory` lines further down, as far up as the history goes, and below them
those at the far end of the ring, which were reset. -/
theorem growLines_get (hi : g.Inv) (conpty : Bool) (ht : g.lines < target)
    (hfrom : (if conpty then 0 else min g.historySize (target - g.lines)) = fromHistory)
    (hpos : target - g.lines - fromHistory = positions) :
    (g.growLines conpty target).lines = target ∧ (g.growLines conpty target).historySize =
        (if fromHistory ≠ target - g.lines then min (g.historySize + (target - g.lines - fromHistory)) g.maxScrollLimit
          else g.historySize) - (target - g.lines) ∧
      (∀ line, -((g.growLines conpty target).historySize : ℤ) ≤ line → line < (g.lines : ℤ) + fromHistory →
        (g.growLines conpty target).raw.get line = g.raw.get (line - fromHistory)) ∧
      ∀ line, (g.lines : ℤ) + fromHistory ≤ line → line < target →
        (g.growLines conpty target).raw.get line =
          ((g.grownStorage target positions).turned positions line).map (·.reset g.cursor.template) := by
  subst hpos
  have hv := hi.sized.visibleLines_eq
  have hlim := hi.history_le
  have hfrom_le : fromHistory ≤ target - g.lines := by
    rw [← hfrom]
    split <;> omega
  have hfrom_hist : fromHistory ≤ g.historySize := by
    rw [← hfrom]
    split <;> omega
  set g1 : Grid T := { g with raw := g.raw.growVisibleLines target, lines := target } with hg1
  obtain ⟨hi1, hh1⟩ := growVisibleLines_inv hi ht
  -- the new rows are above the history until the lines are scrolled
  have hget1 : ∀ line : ℤ, (target : ℤ) - g.lines - g.historySize ≤ line → line < target →
      g1.raw.get line = g.raw.get (line - (target - g.lines)) := by
    intro line h1 h2
    have hin : g.raw.InRange (line - (target - g.raw.visibleLines)) := by
      rw [hv]
      exact hi.inRange (by omega) (by omega)
    have hget := Storage.get_growVisibleLines hi.sized.ok hin
    rwa [hv] at hget
  set g2 : Grid T := if fromHistory ≠ target - g.lines then g1.scrollUp 0 target (target - g.lines - fromHistory) else g1 with hg2
  have hspec : g2.Inv ∧ g2.lines = target ∧ g2.cursor = g.cursor ∧ g2.historySize = (if fromHistory ≠ target - g.lines then
        min (g.historySize + (target - g.lines - fromHistory)) g.maxScrollLimit else g.historySize) ∧
      (∀ line, -(g2.historySize : ℤ) ≤ line → line < (g.lines : ℤ) + fromHistory →
        g2.raw.get line = g1.raw.get (line + (target - g.lines - fromHistory))) ∧
      ∀ line, (g.lines : ℤ) + fromHistory ≤ line → line < target → g2.raw.get line =
        ((g.grownStorage target (target - g.lines - fromHistory)).turned (target - g.lines - fromHistory) line).map
          (·.reset g.cursor.template) := by
    rw [hg2]
    split
    · have hmv : Moved g1 (g1.scrollUp 0 target (target - g.lines - fromHistory))
          (-((g1.scrollUp 0 target (target - g.lines - fromHistory)).historySize : ℤ)) target
          (target - g.lines - fromHistory : ℕ) := scrollUp_top_moved hi1 (by omega) le_rfl
      have hhist := scrollUp_historySize hi1 0 target (target - g.lines - fromHistory)
      rw [if_pos rfl, hh1] at hhist
      refine ⟨scrollUp_inv hi1 _ _ _, scrollUp_lines .., scrollUp_cursor .., hhist, fun line h1 h2 => ?_, fun line h1 h2 => ?_⟩
      · have hlo : -((g1.scrollUp 0 target (target - g.lines - fromHistory)).historySize : ℤ) ≤
            line + (target - g.lines - fromHistory : ℕ) := by omega
        rw [hmv.moved line h1 (by omega) hlo (by omega)]
        congr 1
        omega
      · refine scrollUp_bottom (g := g1) hi1 (by show _ ≤ target; omega) ?_ (by show (target : ℤ) - _ ≤ line; omega) h2
        rw [hh1]
        rfl
    · refine ⟨hi1, rfl, rfl, hh1, fun line h1 h2 => ?_, fun line h1 h2 => by omega⟩
      congr 1
      omega
  obtain ⟨hi2, hl2, hc2, hh2, hget2, hbl2⟩ := hspec
  set g3 : Grid T := { g2 with
    savedCursor := { g2.savedCursor with
      point := { g2.savedCursor.point with line := g2.savedCursor.point.line + fromHistory } }
    cursor := { g2.cursor with point := { g2.cursor.point with line := g2.cursor.point.line + fromHistory } }
    displayOffset := g2.displayOffset - (target - g.lines) } with hg3
  have hgrow : g.growLines conpty target = g3.decreaseScrollLimit (target - g.lines) := by
    unfold growLines
    simp only [hh1, hfrom]
    rfl
  have hi3 : g3.Inv := by
    have hcur := hi.onScreen
    refine ⟨hi2.sized, hi2.lines_pos, hi2.history_le, ?_, ?_⟩
    · have := hi2.cursor_nonneg
      show 0 ≤ g2.cursor.point.line + (fromHistory : ℤ)
      omega
    · show g2.cursor.point.line + (fromHistory : ℤ) < (g2.lines : ℤ)
      rw [hc2, hl2]
      have := hcur.2
      omega
  have hh3 : g3.historySize = g2.historySize := rfl
  have hl3 : g3.lines = target := hl2
  obtain ⟨-, hh, -⟩ := decreaseScrollLimit_inv hi3 (target - g.lines)
  rw [hh3, hh2] at hh
  rw [hgrow]
  have hk : ∀ line : ℤ, -((g3.decreaseScrollLimit (target - g.lines)).historySize : ℤ) ≤ line → line < target →
      (g3.decreaseScrollLimit (target - g.lines)).raw.get line = g2.raw.get line := by
    intro line h1 h2
    rw [(decreaseScrollLimit_inv hi3 (target - g.lines)).2.1] at h1
    exact decreaseScrollLimit_get hi3 _ h1 (by rw [hl3]; exact h2)
  refine ⟨(decreaseScrollLimit_fields g3 _).1.trans hl3, hh, fun line h1 h2 => ?_, fun line h1 h2 => ?_⟩
  · rw [hk line h1 (by omega)]
    rw [hh] at h1
    split at h1
    · rename_i hne
      rw [if_pos hne] at hh2
      rw [hget2 line (by omega) h2, hget1 _ (by omega) (by omega)]
      congr 1
      omega
    · rename_i heq
      rw [if_neg heq] at hh2
      rw [hget2 line (by omega) h2, hget1 _ (by omega) (by omega)]
      congr 1
      omega
  · rw [hk line (by omega) h2]
    exact hbl2 line h1 h2

/-- Growing extends the buffer by the lines that do not come from the history, exactly when it gives up no line of
the history but those and the rows at the far end of the ring are reset to what is asked. -/
theorem growLines_extends_iff (hi : g.Inv) (conpty : Bool) (ht : g.lines < target)
    (hfrom : (if conpty then 0 else min g.historySize (target - g.lines)) = fromHistory)
    (hpos : target - g.lines - fromHistory = positions) (P : Row T → Prop) :
    Extends P g (g.growLines conpty target) positions ↔ (g.growLines conpty target).historySize = g.historySize - fromHistory ∧
      ∀ r ∈ (g.grownStorage target positions).ring.drop ((g.grownStorage target positions).inner.length - positions),
        P (r.reset g.cursor.template) := by
  have hfrom_le : fromHistory ≤ target - g.lines := by
    rw [← hfrom]
    split <;> omega
  have hfrom_hist : fromHistory ≤ g.historySize := by
    rw [← hfrom]
    split <;> omega
  obtain ⟨hl, -, hg, hbl⟩ := growLines_get hi conpty ht hfrom hpos
  obtain ⟨hN, hv⟩ : positions ≤ (g.grownStorage target positions).inner.length ∧
    (g.grownStorage target positions).visibleLines = target := by
    have h1 := hi.sized.growVisibleLines target
    have h2 := h1.initializeRows (min positions (g.maxScrollLimit - g.historySize)) g.columns
    have h3 := h1.ok.len_le
    have h4 := h2.ok.len_le
    rw [h1.len_eq] at h3
    rw [h2.len_eq] at h4
    unfold grownStorage
    split
    · exact ⟨by omega, h2.visibleLines_eq⟩
    · exact ⟨by omega, h1.visibleLines_eq⟩
  generalize g.grownStorage target positions = s at hbl hN hv ⊢
  have ht' : ∀ line, s.turned positions line = s.ring[s.inner.length - positions + ((target : ℤ) - line - 1).toNat]? := fun line => by
    rw [Storage.turned, Storage.positive, hv]
  set rows := (lineRange (g.lines + fromHistory) target).map (g.growLines conpty target).row with hrows
  have hlen : rows.length = positions := by
    rw [hrows, length_map, length_lineRange]
    omega
  have hbuf : (g.growLines conpty target).historySize = g.historySize - fromHistory →
      (g.growLines conpty target).buffer = g.buffer ++ rows := by
    intro hh
    rw [buffer, hl, hh, lineRange_append (b := (g.lines : ℤ) + fromHistory) (by omega) (by omega), map_append]
    congr 1
    rw [show -((g.historySize - fromHistory : ℕ) : ℤ) = -(g.historySize : ℤ) + fromHistory by omega, lineRange_map_shift, buffer]
    refine map_congr_left fun line hline => ?_
    rw [mem_lineRange] at hline
    refine row_congr ((hg _ (by rw [hh]; omega) (by omega)).trans ?_)
    rw [add_sub_cancel_right]
  have hP : (∀ r ∈ rows, P r) ↔ ∀ r ∈ s.ring.drop (s.inner.length - positions), P (r.reset g.cursor.template) := by
    rw [hrows, List.forall_mem_map]
    constructor
    · intro h r hr
      obtain ⟨j, hj⟩ := getElem?_of_mem hr
      rw [getElem?_drop] at hj
      have hlt := (List.getElem?_eq_some_iff.mp hj).1
      rw [length_ring] at hlt
      have hrow := h ((target : ℤ) - 1 - j) (mem_lineRange.mpr ⟨by omega, by omega⟩)
      rwa [row, hbl _ (by omega) (by omega), ht', show ((target : ℤ) - (target - 1 - j) - 1).toNat = j by omega, hj] at hrow
    · intro h line hline
      rw [mem_lineRange] at hline
      have hlt : s.inner.length - positions + ((target : ℤ) - line - 1).toNat < s.ring.length := by
        rw [length_ring]
        omega
      rw [row, hbl line hline.1 hline.2, ht', getElem?_eq_getElem hlt]
      refine h _ (mem_of_getElem? (i := ((target : ℤ) - line - 1).toNat) ?_)
      rw [getElem?_drop, getElem?_eq_getElem hlt]
  rw [← hP]
  constructor
  · rintro ⟨rows', hb, hlen', hall⟩
    have hh : (g.growLines conpty target).historySize = g.historySize - fromHistory := by
      have := congrArg length hb
      rw [length_append, length_buffer, length_buffer, hl, hlen'] at this
      omega
    rw [← append_cancel_left (hb.symm.trans (hbuf hh))]
    exact ⟨hh, hall⟩
  · rintro ⟨hh, hall⟩
    exact ⟨rows, hbuf hh, hlen, hall⟩

theorem growLines_columns (g : Grid T) (conpty : Bool) (target : ℕ) : (g.growLines conpty target).columns = g.columns := by
  have hd : ∀ (g : Grid T) (count : ℕ), (g.decreaseScrollLimit count).columns = g.columns := by
    intro g count
    unfold decreaseScrollLimit
    simp only
    split <;> rfl
  unfold growLines
  simp only
  rw [hd]
  simp only
  split_ifs
  all_goals first
    | rw [scrollUp_top_eq]
    | rfl

/-- A resize that keeps the columns changes the lines, with an empty template. -/
theorem resizeImpl_lines (g : Grid T) (reflow conpty : Bool) (lines : ℕ)
    (hc : (({ g with cursor := { g.cursor with template := default } } : Grid T).resizeLines conpty lines).columns = g.columns) :
    g.resizeImpl reflow conpty lines g.columns =
      some { ({ g with cursor := { g.cursor with template := default } } : Grid T).resizeLines conpty lines with
        cursor := { (({ g with cursor := { g.cursor with template := default } } : Grid T).resizeLines conpty lines).cursor with
          template := g.cursor.template } } := by
  unfold resizeImpl
  simp only
  generalize ({ g with cursor := { g.cursor with template := default } } : Grid T).resizeLines conpty lines = g1 at hc ⊢
  unfold resizeColumns splicesRows
  rw [hc]
  simp [hc]

theorem resizeImpl_grow (g : Grid T) (reflow conpty : Bool) (ht : g.lines < target) :
    ∃ g', g.resizeImpl reflow conpty target g.columns = some g' ∧
      g'.buffer = (({ g with cursor := { g.cursor with template := default } } : Grid T).growLines conpty target).buffer := by
  have hg : ({ g with cursor := { g.cursor with template := default } } : Grid T).resizeLines conpty target
      = ({ g with cursor := { g.cursor with template := default } } : Grid T).growLines conpty target := if_pos ht
  refine ⟨_, resizeImpl_lines g reflow conpty target ?_, ?_⟩
  · rw [hg, growLines_columns]
  · rw [hg]
    rfl

/-- **More lines.** A resize takes rows from the history and then adds others, blank ones where the rows that the grid holds are
uniform; on ConPTY it only adds blank ones and leaves the history, exactly when there is no history or its limit has room
for as many lines as are added, and the rows kept ready that it brings to the bottom are left blank by a reset. -/
theorem grow_extends_buffer {g : Grid Cell} (hi : g.Inv) {target : ℕ} (ht : g.lines < target) (reflow : Bool) :
    (∃ g', g.resize reflow target g.columns = some g' ∧ Extends (fun r => g.raw.Every Row.Uniform → ∀ c ∈ r.inner, c = default) g g'
        (target - g.lines - min g.historySize (target - g.lines))) ∧
      ∃ g', g.resizeConpty reflow target g.columns = some g' ∧
        (Extends (fun r => ∀ c ∈ r.inner, c = default) g g' (target - g.lines) ↔
          (g.historySize = 0 ∨ target - g.lines ≤ g.maxScrollLimit - g.historySize) ∧ ∀ r ∈ g.turnedIn target, r.ClearsBlank) := by
  have hlim := hi.history_le
  set g0 : Grid Cell := { g with cursor := { g.cursor with template := default } } with hg0
  have hi0 : g0.Inv := ⟨hi.sized, hi.lines_pos, hi.history_le, hi.cursor_nonneg, hi.cursor_lt⟩
  have hcon : ∀ (P : Row Cell → Prop) (g' : Grid Cell) (conpty : Bool) (count : ℕ), g'.buffer = (g0.growLines conpty target).buffer →
      (Extends P g g' count ↔ Extends P g0 (g0.growLines conpty target) count) := by
    intro P g' conpty count hbuf
    unfold Extends
    rw [hbuf]
    rfl
  refine ⟨?_, ?_⟩
  · obtain ⟨g', hg', hbuf⟩ := resizeImpl_grow g reflow false ht
    refine ⟨g', hg', ?_⟩
    rw [hcon _ g' false _ hbuf]
    refine (growLines_extends_iff hi0 false ht rfl rfl _).mpr ⟨?_, fun r hr hu => ?_⟩
    · have hh := (growLines_get hi0 false ht rfl rfl).2.1
      rw [hh]
      have : g0.historySize = g.historySize := rfl
      have : g0.lines = g.lines := rfl
      have : g0.maxScrollLimit = g.maxScrollLimit := rfl
      simp only [Bool.false_eq_true, if_false]
      split <;> omega
    · exact Row.uniform_iff_reset.mp (uniform_grownStorage (g := g0) hu target _ r (mem_rotate.mp (mem_of_mem_drop hr))) default
  · obtain ⟨g', hg', hbuf⟩ := resizeImpl_grow g reflow true ht
    refine ⟨g', hg', ?_⟩
    rw [hcon _ g' true _ hbuf]
    refine (growLines_extends_iff hi0 true ht rfl rfl _).trans (and_congr ?_ ?_)
    · have hh := (growLines_get hi0 true ht rfl rfl).2.1
      simp only [if_true, Nat.sub_zero] at hh
      rw [hh]
      have h1 : g0.historySize = g.historySize := rfl
      have h2 : g0.lines = g.lines := rfl
      have h3 : g0.maxScrollLimit = g.maxScrollLimit := rfl
      rw [h1, h2, h3, if_pos (by omega)]
      simp only [if_true]
      omega
    · refine (forall_grownStorage_iff hi0 ht fun columns => Row.uniform_iff_reset.mp (Row.uniform_new columns) default).trans ?_
      exact forall₂_congr fun r _ => Row.clearsBlank_iff

/-- A line on the screen and one in the history, which is full. -/
def saturated : Grid Cell := (Grid.new 1 1 1).scrollUp 0 1 1

theorem saturated_inv : saturated.Inv := scrollUp_inv (new_inv 1 1 (by decide)) 0 1 1

theorem grow_extends_buffer_saturated :
    (∃ g', saturated.resize true 2 1 = some g' ∧ Extends (fun r => saturated.raw.Every Row.Uniform → ∀ c ∈ r.inner, c = default)
        saturated g' (2 - 1 - min 1 (2 - 1))) ∧
      ∃ g', saturated.resizeConpty true 2 1 = some g' ∧ (Extends (fun r => ∀ c ∈ r.inner, c = default) saturated g' (2 - 1) ↔
        (1 = 0 ∨ 2 - 1 ≤ 1 - 1) ∧ ∀ r ∈ saturated.turnedIn 2, r.ClearsBlank) :=
  grow_extends_buffer saturated_inv (by decide : saturated.lines < 2) true

/-- On ConPTY a full history loses its lines to the screen that grows. -/
theorem grow_conpty_loses_history : ¬ ∀ (g : Grid Cell) (target : ℕ) (reflow : Bool), g.Inv → g.lines < target →
    ∃ g', g.resizeConpty reflow target g.columns = some g' ∧ Extends (fun r => ∀ c ∈ r.inner, c = default) g g' (target - g.lines) := by
  intro h
  obtain ⟨g', hg', rows, hbuf, hlen, -⟩ := h saturated 2 true saturated_inv (by decide)
  have hleng : (saturated.resizeConpty true 2 saturated.columns).map (fun g => g.buffer.length) = some 2 := by decide
  have hold : saturated.buffer.length = 2 := by decide
  have hls : saturated.lines = 1 := by decide
  rw [hg'] at hleng
  have hnew : g'.buffer.length = 2 := some.inj hleng
  have := congrArg length hbuf
  rw [length_append, hnew, hold, hlen, hls] at this
  omega

/-! ### Fewer lines -/

theorem bottommostOccupiedLine_lt (hi : g.Inv) : g.bottommostOccupiedLine < g.lines := by
  have hp := hi.lines_pos
  unfold bottommostOccupiedLine
  cases h : (range g.lines).reverse.find? fun (line : ℕ) => !(g.row line).isClear with
  | none => exact hp
  | some line =>
    have := mem_of_find?_eq_some h
    rw [mem_reverse, mem_range] at this
    exact this

/-- The lines scrolled out are above the cursor, and enough and no more than there must be. -/
theorem shrinkScrollAmount_bounds (hi : g.Inv) (conpty : Bool) (hp : 0 < target) (hlt : target < g.lines) :
    (g.shrinkScrollAmount conpty target : ℤ) ≤ g.cursor.point.line ∧
      g.cursor.point.line - g.shrinkScrollAmount conpty target < target ∧ g.shrinkScrollAmount conpty target ≤ g.lines - target := by
  have hc := hi.onScreen
  have hb := bottommostOccupiedLine_lt hi
  have h1 := hc.1
  have h2 := hc.2
  unfold shrinkScrollAmount
  rw [gridClampLine_cursor (d := g.dims) hc]
  simp only
  split <;> omega

/-- `g'` shows the `target` lines of `g` from `amount` on, and has the cursor on the same row. -/
structure Cropped (g g' : Grid T) (amount target : ℕ) : Prop where
  rows : ∀ line : ℤ, 0 ≤ line → line < target → g'.raw.get line = g.raw.get (line + amount)
  cursor : g'.cursor.point.line = g.cursor.point.line - amount
  offset : g'.displayOffset = 0

theorem shrinkLines_cropped (hi : g.Inv) (hoff : g.displayOffset = 0) (conpty : Bool) (hp : 0 < target)
    (hlt : target < g.lines) : Cropped g (g.shrinkLines conpty target) (g.shrinkScrollAmount conpty target) target := by
  obtain ⟨hcurs, hfits, hs⟩ := shrinkScrollAmount_bounds hi conpty hp hlt
  have hn := hi.cursor_nonneg
  unfold shrinkLines
  simp only
  generalize g.shrinkScrollAmount conpty target = amount at hcurs hfits hs
  generalize hg1 : (if amount > 0 then
    ({ g.scrollUp 0 g.lines amount with cursor := { (g.scrollUp 0 g.lines amount).cursor with
        point := { (g.scrollUp 0 g.lines amount).cursor.point with
          line := min ((g.cursor.point.line.toNat - min amount g.cursor.point.line.toNat : ℕ) : ℤ) ((target : ℤ) - 1) } } } : Grid T)
    else g) = g1
  have hspec : g1.raw.Sized g.lines (g.lines + g1.historySize) ∧ g1.lines = g.lines ∧
      (∀ line : ℤ, 0 ≤ line → line < target → g1.raw.get line = g.raw.get (line + amount)) ∧
      g1.cursor.point.line = g.cursor.point.line - amount ∧ g1.displayOffset = 0 := by
    rw [← hg1]
    split
    · have hscro := scrollUp_inv hi 0 g.lines amount
      refine ⟨?_, scrollUp_lines .., fun line h1 h2 => ?_, ?_, ?_⟩
      · have := hscro.sized
        rw [scrollUp_lines] at this
        exact this
      · exact scrollUp_get hi (by omega) le_rfl (by omega) (by omega)
      · show min ((g.cursor.point.line.toNat - min amount g.cursor.point.line.toNat : ℕ) : ℤ) ((target : ℤ) - 1) = _
        omega
      · show (g.scrollUp 0 g.lines amount).displayOffset = 0
        rw [scrollUp_displayOffset, bumpedOffset, hoff]
        simp
    · have h0 : amount = 0 := by omega
      subst h0
      refine ⟨hi.sized, rfl, fun line _ _ => ?_, ?_, hoff⟩
      · rw [Nat.cast_zero, add_zero]
      · rw [Nat.cast_zero, sub_zero]
  obtain ⟨hsz, hl, hget, hc, ho⟩ := hspec
  rw [hl]
  refine ⟨fun line h1 h2 => ?_, hc, ho⟩
  have hr := hsz.rotate ((g.lines : ℤ) - target)
  have hcnt : ((g.lines : ℤ) - target).natAbs ≤ g1.raw.inner.length := by
    have := hsz.ok.len_le
    rw [hsz.len_eq] at this
    omega
  show ((g1.raw.rotate ((g.lines : ℤ) - target)).shrinkVisibleLines target).get line = _
  unfold shrinkVisibleLines
  rw [hr.visibleLines_eq]
  simp only
  have hok : ({ g1.raw.rotate ((g.lines : ℤ) - target) with visibleLines := target } : Storage T).Ok := ⟨hr.ok.zero_lt, hr.ok.len_le⟩
  have hlen := hr.len_eq
  refine (get_shrinkLines hok (by show _ < (g1.raw.rotate ((g.lines : ℤ) - target)).len; omega)
    ⟨by show (target : ℤ) - (g1.raw.rotate ((g.lines : ℤ) - target)).len + _ ≤ line; omega, h2⟩).trans ?_
  rw [Storage.get_visibleLines, hr.visibleLines_eq, Storage.get_rotate hsz.ok hcnt
    (hsz.inRange (by omega) (by omega)) (hsz.inRange (by omega) (by omega))]
  rw [← hget line h1 h2]
  congr 1
  omega

theorem shrinkLines_columns (g : Grid T) (conpty : Bool) (target : ℕ) : (g.shrinkLines conpty target).columns = g.columns := by
  unfold shrinkLines
  simp only
  split
  · rw [scrollUp_top_eq]
  · rfl

/-- A resize to fewer lines, with the same columns, crops the screen. -/
theorem resizeImpl_cropped (hi : g.Inv) (ho : g.displayOffset = 0) (reflow conpty : Bool) (hp : 0 < target) (hlt : target < g.lines) :
    ∃ g', g.resizeImpl reflow conpty target g.columns = some g' ∧ Cropped g g' (g.shrinkScrollAmount conpty target) target := by
  set g0 : Grid T := { g with cursor := { g.cursor with template := default } } with hg0
  have hi0 : g0.Inv := ⟨hi.sized, hi.lines_pos, hi.history_le, hi.cursor_nonneg, hi.cursor_lt⟩
  have hres : g0.resizeLines conpty target = g0.shrinkLines conpty target := by
    unfold resizeLines
    rw [if_neg (by show ¬ g.lines < target; omega), if_pos (by show g.lines > target; exact hlt)]
  refine ⟨_, resizeImpl_lines g reflow conpty target ?_, ?_⟩
  · rw [← hg0, hres, shrinkLines_columns]
  · rw [← hg0, hres]
    obtain ⟨hr, hc, hoffs⟩ := shrinkLines_cropped hi0 ho conpty hp hlt
    exact ⟨hr, hc, hoffs⟩

end Grid

/-! ### The preview -/

/-- `viewport_origin_for`, with the presentation origin, and whether a mouse or vi mode is on. -/
def Term.viewportOriginFor (t : Term) (presentationOrigin : Option ℤ) (mouseOrVi : Bool) (lines : ℕ) : ℤ :=
  match if t.mode.altScreen || mouseOrVi then none else presentationOrigin with
  | some origin => min (max origin t.grid.dims.topmostLine) t.grid.dims.bottommostLine
  | none =>
    if t.grid.displayOffset ≠ 0 ∨ lines ≥ t.screenLines then -t.grid.displayOffset
    else
      -- the alternate screen is repainted by its application, and its shrink only follows the cursor
      t.grid.shrinkScrollAmount (t.conptyResize && !t.mode.altScreen) lines

/-- Without a presentation origin, an unscrolled screen is previewed from the lines that a shrink scrolls out. -/
theorem Term.viewportOriginFor_eq (ho : t.grid.displayOffset = 0) (mouseOrVi : Bool) (hlt : target < t.grid.lines) :
    t.viewportOriginFor none mouseOrVi target = t.grid.shrinkScrollAmount (t.conptyResize && !t.mode.altScreen) target := by
  unfold viewportOriginFor
  rw [ite_self]
  simp only
  rw [if_neg (by simp only [ho]; show ¬ (_ ∨ target ≥ t.grid.lines); omega)]

/-- **The preview is the settled resize.** Both resizes to fewer lines show at each line the row `shrink_scroll_amount`
lines below it and move the cursor up by as many; the one that the terminal does shows what it has previewed. -/
theorem Term.crop_previews_resize (hi : t.grid.Inv) (hoff : t.grid.displayOffset = 0) (hpos : 0 < target)
    (hlt : target < t.grid.lines) (reflow mouseOrVi : Bool) :
    (∃ g', t.grid.resize reflow target t.grid.columns = some g' ∧
        t.grid.Cropped g' (t.grid.shrinkScrollAmount false target) target) ∧
      (∃ g', t.grid.resizeConpty reflow target t.grid.columns = some g' ∧
        t.grid.Cropped g' (t.grid.shrinkScrollAmount true target) target) ∧
      ∀ t', t.resize target t.columns = some t' →
        t.grid.Cropped t'.grid (t.viewportOriginFor none mouseOrVi target).toNat target := by
  refine ⟨Grid.resizeImpl_cropped hi hoff reflow false hpos hlt, Grid.resizeImpl_cropped hi hoff reflow true hpos hlt, ?_⟩
  intro t' ht'
  rw [viewportOriginFor_eq hoff mouseOrVi hlt, Int.toNat_natCast]
  unfold Term.resize at ht'
  rw [if_neg (by show ¬ (_ ∧ t.grid.lines = target); omega)] at ht'
  simp only at ht'
  obtain ⟨grid, hgrid, ht'⟩ := bind_eq_some_iff.mp ht'
  obtain ⟨inactive, -, rfl⟩ := map_eq_some_iff.mp ht'
  obtain ⟨g', hg', hcro⟩ := Grid.resizeImpl_cropped hi hoff (!t.mode.altScreen) (t.conptyResize && !t.mode.altScreen) hpos hlt
  have : grid = g' := some.inj (hgrid.symm.trans hg')
  rw [this]
  exact hcro

/-- Four lines of text, and the cursor on the third one. -/
def writtenScreen : Term :=
  ((["ab", "cd", "ef"].foldl (fun t line => (t.inputs line).carriageReturn.linefeed) (Term.new 4 3 10 true)).inputs "gh").goto 2 1

set_option maxRecDepth 4000 in
theorem writtenScreen_inv : writtenScreen.grid.Inv :=
  ⟨⟨⟨by decide, by decide⟩, rfl, rfl⟩, by decide, by decide, by decide, by decide⟩

set_option maxRecDepth 4000 in
/-- Two of four written lines are left. The resize keeps the line of the cursor and the one above it; the ConPTY variant also
follows the line written below the cursor. -/
theorem Term.crop_previews_resize_written :
    ((∃ g', writtenScreen.grid.resize true 2 3 = some g' ∧
        writtenScreen.grid.Cropped g' (writtenScreen.grid.shrinkScrollAmount false 2) 2) ∧
      (∃ g', writtenScreen.grid.resizeConpty true 2 3 = some g' ∧
        writtenScreen.grid.Cropped g' (writtenScreen.grid.shrinkScrollAmount true 2) 2) ∧
      ∀ t', writtenScreen.resize 2 3 = some t' →
        writtenScreen.grid.Cropped t'.grid (writtenScreen.viewportOriginFor none false 2).toNat 2) ∧
    writtenScreen.grid.shrinkScrollAmount false 2 = 1 ∧ writtenScreen.grid.shrinkScrollAmount true 2 = 2 ∧
      (writtenScreen.resize 2 3).isSome = true :=
  ⟨crop_previews_resize writtenScreen_inv (by decide) (by decide) (by decide) true false, by decide, by decide, by decide⟩

end Pebrel.Terminal
