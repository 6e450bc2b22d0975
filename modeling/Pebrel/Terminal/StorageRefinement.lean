import Pebrel.Terminal.Storage
import Pebrel.Library.Transition

/-!
# The storage refines a list of rows

`Ideal` is what a storage is for: the logical rows of a terminal as a plain
list, the bottommost first, with the list of rows kept ready above them.
It has no ring, no place of the bottommost row and no rezeroing. Scrolling
rotates the two lists as one; rows that leave the logical list release their
transient content; the ready rows are dropped when they outgrow their allowance.

`Storage.abs` reads an `Ideal` off a storage. Every operation of a storage whose
ring is in order (`Storage.Ok`) keeps it in order and does to the abstraction
what the operation of the same name does to the ideal rows (`abs_*`, collected
in `StorageOp.abs_apply`), so that a storage and its ideal list stay together over every
run.

`take_all` empties the storage and is always followed by `replace_inner`, with
the rows of the new grid; the pair is one operation here, `replace`.
-/

namespace Pebrel.Terminal

open Library List Option

/-- The rows of a terminal as lists, the bottommost first. -/
structure Ideal (T : Type) where
  /-- The logical rows. -/
  rows : List (Row T)
  /-- The rows kept ready above them. -/
  cache : List (Row T)
  visibleLines : ℕ
  mayHaveTransientContent : Bool

namespace Ideal

variable {T : Type}

/-- The row at a line: line `0` is the top of the visible rows, and the history is above. -/
def get (m : Ideal T) (line : ℤ) : Option (Row T) := m.rows[((m.visibleLines : ℤ) - line - 1).toNat]?

/-- How many rows are kept ready at most when rows leave the logical list. -/
def allowance (m : Ideal T) : ℕ := max minCacheSize (min m.visibleLines maxCacheSize)

/-- Drop the rows kept ready. -/
def truncate (m : Ideal T) : Ideal T := { m with cache := [] }

/-- Exchange the rows at two lines. -/
def swap (m : Ideal T) (a b : ℤ) : Ideal T :=
  match m.get a, m.get b with
  | some ra, some rb =>
    { m with
      rows := (m.rows.set ((m.visibleLines : ℤ) - a - 1).toNat rb).set ((m.visibleLines : ℤ) - b - 1).toNat ra }
  | _, _ => m

/-- Take new rows in place of the old ones. -/
def replace (m : Ideal T) (vec : List (Row T)) : Ideal T := { m with rows := vec, cache := [] }

variable [GridCell T]

/-- A row on its way out of the logical list. -/
def release (m : Ideal T) (r : Row T) : Row T := if m.mayHaveTransientContent then r.discard else r

/-- Add rows at the top, from the rows kept ready; if these are too few, new ones are made. -/
def initializeRows (m : Ideal T) (additionalRows columns : ℕ) : Ideal T :=
  let cache :=
    if additionalRows > m.cache.length then
      m.cache ++ .replicate (max additionalRows m.allowance) (.new columns)
    else m.cache
  { m with rows := m.rows ++ cache.take additionalRows, cache := cache.drop additionalRows }

/-- Remove rows at the top. -/
def shrinkLines (m : Ideal T) (shrinkage : ℕ) : Ideal T :=
  let keep := m.rows.length - shrinkage
  let cache := (m.rows.drop keep).map m.release ++ m.cache
  { m with rows := m.rows.take keep, cache := if cache.length > m.allowance then [] else cache }

/-- Make more rows visible. -/
def growVisibleLines (m : Ideal T) (next : ℕ) : Ideal T :=
  let columns := ((m.get 0).map Row.len).getD 0
  { m.initializeRows (next - m.visibleLines) columns with visibleLines := next }

/-- Make fewer rows visible. -/
def shrinkVisibleLines (m : Ideal T) (next : ℕ) : Ideal T :=
  { m with visibleLines := next }.shrinkLines (m.visibleLines - next)

/-- Move all rows by `count` lines, down where it is positive; the rows that leave the
logical list at one end are kept ready and come back at the other. -/
def rotate (m : Ideal T) (count : ℤ) : Ideal T :=
  let all := m.rows ++ m.cache
  let leaves k := k < m.rows.length ∧ m.rows.length ≤ Ring.offset all.length (k - count)
  let all := (all.mapIdx fun k r => if leaves k then m.release r else r).rotate (Ring.offset all.length count)
  { m with rows := all.take m.rows.length, cache := all.drop m.rows.length }

end Ideal

/-! ### Storages in order -/

namespace Storage

section
variable {T : Type}

/-- The ring is in order: `zero` lies in it, and it holds the logical rows. -/
structure Ok (s : Storage T) : Prop where
  zero_lt : s.zero < s.inner.length
  len_le : s.len ≤ s.inner.length

/-- The ring as a list, the bottommost row first. -/
def ring (s : Storage T) : List (Row T) := s.inner.rotate s.zero

/-- The ideal rows that a storage holds. -/
def abs (s : Storage T) : Ideal T where
  rows := s.ring.take s.len
  cache := s.ring.drop s.len
  visibleLines := s.visibleLines
  mayHaveTransientContent := s.mayHaveTransientContent

/-- A line of the logical range. -/
def InRange (s : Storage T) (line : ℤ) : Prop := (s.visibleLines : ℤ) - s.len ≤ line ∧ line < s.visibleLines
deriving Decidable

variable {s : Storage T} {line a b : ℤ}

@[simp] theorem length_ring (s : Storage T) : s.ring.length = s.inner.length := by simp [ring]

theorem Ok.length_rows (h : s.Ok) : s.abs.rows.length = s.len := by
  have := h.len_le
  simp [abs]; omega

theorem abs_rows_append_cache (s : Storage T) : s.abs.rows ++ s.abs.cache = s.ring := take_append_drop ..

/-- Where the ring splits at `len`, the abstraction can be read off. -/
theorem abs_eq_of_ring {rows rest : List (Row T)} (hring : s.ring = rows ++ rest)
    (hl : s.len = rows.length) : s.abs = ⟨rows, rest, s.visibleLines, s.mayHaveTransientContent⟩ := by
  simp [abs, hring, hl]

theorem InRange.positive_lt (hl : s.InRange line) : s.positive line < s.len := by
  have h1 := hl.1; have h2 := hl.2
  unfold positive
  omega

/-- The storage's index is the ideal list's: the wrap by comparison reads the ring. -/
theorem get_eq_ring (h : s.Ok) (hl : s.InRange line) : s.get line = s.ring[s.positive line]? :=
  Ring.getElem?_place h.zero_lt (lt_of_lt_of_le hl.positive_lt h.len_le)

theorem get_eq_abs_get (h : s.Ok) (hl : s.InRange line) : s.get line = s.abs.get line := by
  rw [get_eq_ring h hl]
  exact (getElem?_take_of_lt hl.positive_lt).symm

theorem get_isSome (h : s.Ok) (hl : s.InRange line) : (s.get line).isSome := by
  rw [get_eq_ring h hl]
  have := lt_of_lt_of_le hl.positive_lt h.len_le
  simpa using this

/-! ### Each operation -/

theorem abs_truncate (s : Storage T) : s.truncate.abs = s.abs.truncate := by
  simp [abs, truncate, Ideal.truncate, ring, rezero, take_take]

theorem ok_truncate (h : s.Ok) (hl : 0 < s.len) : s.truncate.Ok := by
  have := h.len_le
  constructor <;> simp [truncate, rezero] <;> omega

theorem takeAll_rows (s : Storage T) : s.takeAll.2 = s.abs.rows := by simp [abs, takeAll, ring, truncate, rezero]

theorem abs_replace (s : Storage T) (vec : List (Row T)) : (s.takeAll.1.replaceInner vec).abs = s.abs.replace vec := by
  simp [abs, takeAll, replaceInner, Ideal.replace, ring, truncate, rezero]

theorem ok_replace (s : Storage T) {vec : List (Row T)} (hv : vec ≠ []) : (s.takeAll.1.replaceInner vec).Ok := by
  have := length_pos_of_ne_nil hv
  constructor <;> simp [takeAll, replaceInner]; omega

theorem swap_of_inRange (h : s.Ok) (ha : s.InRange a) (hb : s.InRange b) : ∃ ra rb, s.get a = some ra ∧ s.get b = some rb ∧
      s.swap a b = { s with inner := (s.inner.set (s.computeIndex a) rb).set (s.computeIndex b) ra } := by
  obtain ⟨ra, hra⟩ := isSome_iff_exists.mp (get_isSome h ha)
  obtain ⟨rb, hrb⟩ := isSome_iff_exists.mp (get_isSome h hb)
  exact ⟨ra, rb, hra, hrb, by simp only [swap, hra, hrb]⟩

theorem ok_swap (h : s.Ok) (a b : ℤ) : (s.swap a b).Ok := by
  unfold swap
  split
  · exact ⟨by simpa using h.zero_lt, by simpa using h.len_le⟩
  · exact h

theorem abs_swap (h : s.Ok) (ha : s.InRange a) (hb : s.InRange b) : (s.swap a b).abs = s.abs.swap a b := by
  obtain ⟨ra, rb, hra, hrb, hswap⟩ := swap_of_inRange h ha hb
  have hpa := lt_of_lt_of_le ha.positive_lt h.len_le
  have hpb := lt_of_lt_of_le hb.positive_lt h.len_le
  have hring : (s.swap a b).ring = (s.ring.set (s.positive a) rb).set (s.positive b) ra := by
    have hlen : (s.inner.set (s.computeIndex a) rb).length = s.inner.length := length_set ..
    rw [hswap]
    show ((s.inner.set (s.computeIndex a) rb).set (s.computeIndex b) ra).rotate s.zero = _
    have hcb : s.computeIndex b = Ring.place (s.inner.set (s.computeIndex a) rb).length s.zero (s.positive b) := by
      rw [hlen]; rfl
    rw [hcb, Ring.rotate_set (by rw [hlen]; exact h.zero_lt) (by rw [hlen]; exact hpb)]
    congr 1
    exact Ring.rotate_set h.zero_lt hpa rb
  rw [get_eq_abs_get h ha] at hra
  rw [get_eq_abs_get h hb] at hrb
  have hl : (s.swap a b).len = s.len ∧ (s.swap a b).visibleLines = s.visibleLines ∧
      (s.swap a b).mayHaveTransientContent = s.mayHaveTransientContent := by rw [hswap]; exact ⟨rfl, rfl, rfl⟩
  simp only [Ideal.swap, hra, hrb]
  simp only [abs, hring, hl, take_set, Ideal.mk.injEq, and_true]
  refine ⟨rfl, ?_⟩
  rw [drop_set_of_lt hb.positive_lt, drop_set_of_lt ha.positive_lt]

end

variable {T : Type} [GridCell T] {s : Storage T} {n k shrinkage next : ℕ}

theorem ok_withCapacity {visibleLines : ℕ} (columns : ℕ) (h : 0 < visibleLines) : (withCapacity visibleLines columns : Storage T).Ok := by
  constructor <;> simp [withCapacity, h]

/-- Growing the ring by fresh rows, from the place of the bottommost row on. -/
theorem ring_initializeRows (h : s.Ok) (additionalRows columns : ℕ) : (s.initializeRows additionalRows columns).ring =
      if s.len + additionalRows > s.inner.length then
        s.ring ++ .replicate (max additionalRows s.cacheSize) (.new columns)
      else s.ring := by
  have := h.zero_lt
  unfold initializeRows
  split
  · simp [ring, rezero, cacheSize]
  · rfl

@[simp] theorem len_initializeRows (s : Storage T) (additionalRows columns : ℕ) :
    (s.initializeRows additionalRows columns).len = s.len + additionalRows := by
  unfold initializeRows; split <;> rfl

@[simp] theorem visibleLines_initializeRows (s : Storage T) (additionalRows columns : ℕ) :
    (s.initializeRows additionalRows columns).visibleLines = s.visibleLines := by
  unfold initializeRows; split <;> rfl

@[simp] theorem transient_initializeRows (s : Storage T) (additionalRows columns : ℕ) :
    (s.initializeRows additionalRows columns).mayHaveTransientContent = s.mayHaveTransientContent := by
  unfold initializeRows; split <;> rfl

theorem abs_initializeRows (h : s.Ok) (additionalRows columns : ℕ) :
    (s.initializeRows additionalRows columns).abs = s.abs.initializeRows additionalRows columns := by
  have hle := h.len_le
  have hr := h.length_rows
  have hc : s.abs.cache.length = s.inner.length - s.len := by simp [abs]
  have hcond : (s.len + additionalRows > s.inner.length) ↔ additionalRows > s.abs.cache.length := by omega
  -- the rows kept ready from which the added rows come
  obtain ⟨ready, hrd⟩ : ∃ ready, ready = if additionalRows > s.abs.cache.length then
      s.abs.cache ++ replicate (max additionalRows s.abs.allowance) (.new columns) else s.abs.cache := ⟨_, rfl⟩
  have hl : additionalRows ≤ ready.length := by
    rw [hrd]
    split
    · simp; omega
    · omega
  have hring : (s.initializeRows additionalRows columns).ring = (s.abs.rows ++ ready.take additionalRows) ++ ready.drop additionalRows := by
    rw [append_assoc, take_append_drop, ring_initializeRows h, hrd, ← s.abs_rows_append_cache]
    simp only [hcond]
    split
    · rw [append_assoc]; rfl
    · rfl
  rw [abs_eq_of_ring hring (by simp [hr]; omega)]
  simp only [Ideal.initializeRows, ← hrd, visibleLines_initializeRows, transient_initializeRows]
  rfl

theorem ok_initializeRows (h : s.Ok) (additionalRows columns : ℕ) : (s.initializeRows additionalRows columns).Ok := by
  have hz := h.zero_lt
  have hle := h.len_le
  constructor <;> unfold initializeRows <;> split <;> simp [rezero] <;> omega

theorem abs_growVisibleLines (h : s.Ok) (h0 : s.InRange 0) (next : ℕ) : (s.growVisibleLines next).abs = s.abs.growVisibleLines next := by
  have hinit := abs_initializeRows h (next - s.visibleLines) (((s.get 0).map Row.len).getD 0)
  rw [Ideal.growVisibleLines, ← get_eq_abs_get h h0]
  show { (s.initializeRows _ _).abs with visibleLines := next } = _
  rw [hinit]
  rfl

theorem ok_growVisibleLines (h : s.Ok) (next : ℕ) : (s.growVisibleLines next).Ok := by
  have hinit := ok_initializeRows h (next - s.visibleLines) (((s.get 0).map Row.len).getD 0)
  exact ⟨hinit.zero_lt, hinit.len_le⟩

@[simp] theorem length_discardWhere (inner : List (Row T)) (p : ℕ → Bool) :
    (discardWhere inner p).length = inner.length := by simp [discardWhere]

/-- Discarding by places of `inner` is discarding by indices of the ring. -/
theorem rotate_discardWhere (inner : List (Row T)) (z : ℕ) (p : ℕ → Bool) : (discardWhere inner p).rotate z =
      (inner.rotate z).mapIdx fun k r => if p ((z + k) % inner.length) then r.discard else r :=
  Ring.rotate_mapIdx inner z _

/-- A place that `shrink_lines` and `rotate` compute for the row with index `start + j` is the
place of the row with index `k` exactly when `k` is among these. -/
theorem any_place_eq {z start count : ℕ} (hk : k < n) (hc : start + count ≤ n) :
    ((List.range count).any fun j => (z + (start + j)) % n == (z + k) % n) = true ↔ start ≤ k ∧ k < start + count := by
  simp only [List.any_eq_true, mem_range, beq_iff_eq]
  constructor
  · rintro ⟨j, hj, hjk⟩
    have := (Ring.mod_inj (by omega) hk).mp hjk
    omega
  · rintro ⟨h1, h2⟩
    exact ⟨k - start, by omega, by rw [show start + (k - start) = k by omega]⟩

/-- `shrink_lines` before memory is freed. -/
def shrinkLen (s : Storage T) (shrinkage : ℕ) : Storage T :=
  { s with
    inner :=
      if s.mayHaveTransientContent then
        discardWhere s.inner fun index =>
          (List.range shrinkage).any fun k => (s.zero + (s.len - shrinkage + k)) % s.inner.length == index
      else s.inner
    len := s.len - shrinkage }

theorem shrinkLines_eq (s : Storage T) (shrinkage : ℕ) : s.shrinkLines shrinkage =
      if (s.shrinkLen shrinkage).inner.length > (s.shrinkLen shrinkage).len + (s.shrinkLen shrinkage).cacheSize then
        (s.shrinkLen shrinkage).truncate
      else s.shrinkLen shrinkage := rfl

theorem length_shrinkLen (s : Storage T) (shrinkage : ℕ) : (s.shrinkLen shrinkage).inner.length = s.inner.length := by
  unfold shrinkLen
  split <;> simp

theorem ring_shrinkLen (h : s.Ok) (hs : shrinkage ≤ s.len) : (s.shrinkLen shrinkage).ring = s.abs.rows.take (s.len - shrinkage) ++
        ((s.abs.rows.drop (s.len - shrinkage)).map s.abs.release ++ s.abs.cache) := by
  have hle := h.len_le
  have hr := h.length_rows
  have hsp : s.ring = s.abs.rows.take (s.len - shrinkage) ++ (s.abs.rows.drop (s.len - shrinkage) ++ s.abs.cache) := by
    rw [← append_assoc, take_append_drop, abs_rows_append_cache]
  have htk : (s.abs.rows.take (s.len - shrinkage)).length = s.len - shrinkage := by
    rw [length_take, hr]; omega
  have hdr : (s.abs.rows.drop (s.len - shrinkage)).length = shrinkage := by
    rw [length_drop, hr]; omega
  by_cases ht : s.mayHaveTransientContent = true
  · have hrel : s.abs.release = .discard := by funext r; simp [Ideal.release, abs, ht]
    rw [ring, shrinkLen]
    simp only [ht, if_true]
    rw [rotate_discardWhere, show s.inner.rotate s.zero = s.ring from rfl, hsp, hrel]
    -- only the rows from `len - shrinkage` up to `len` are discarded
    have ha : ∀ k, k < s.inner.length → (((range shrinkage).any fun j =>
        (s.zero + (s.len - shrinkage + j)) % s.inner.length == (s.zero + k) % s.inner.length) = true ↔
          s.len - shrinkage ≤ k ∧ k < s.len - shrinkage + shrinkage) :=
      fun k hk => any_place_eq hk (by omega)
    have hc : s.abs.cache.length = s.inner.length - s.len := by simp [abs]
    refine Ring.mapIdx_window (fun k r h1 h2 => ?_) (fun k r h1 h2 => ?_)
    · exact if_pos ((ha k (by omega)).mpr ⟨by omega, by omega⟩)
    · refine if_neg fun hp => ?_
      have := (ha k (by omega)).mp hp
      omega
  · have hrel : s.abs.release = id := by funext r; simp [Ideal.release, abs, ht]
    rw [ring, shrinkLen]
    simp only [ht]
    rw [hrel, List.map_id, ← hsp]
    rfl

theorem ok_shrinkLen (h : s.Ok) (shrinkage : ℕ) : (s.shrinkLen shrinkage).Ok := by
  have hz := h.zero_lt
  have hle := h.len_le
  have hl := length_shrinkLen s shrinkage
  refine ⟨by rw [hl]; exact hz, ?_⟩
  rw [hl]
  show s.len - shrinkage ≤ _
  omega

theorem abs_shrinkLines (h : s.Ok) (hs : shrinkage ≤ s.len) : (s.shrinkLines shrinkage).abs = s.abs.shrinkLines shrinkage := by
  have hr := h.length_rows
  have hle := h.len_le
  have hc : s.abs.cache.length = s.inner.length - s.len := by simp [abs]
  have ha := abs_eq_of_ring (ring_shrinkLen h hs) (by rw [length_take, hr]; show s.len - _ = _; omega)
  have hcond : (s.shrinkLen shrinkage).inner.length > (s.shrinkLen shrinkage).len + (s.shrinkLen shrinkage).cacheSize ↔
      ((s.abs.rows.drop (s.len - shrinkage)).map s.abs.release ++ s.abs.cache).length > s.abs.allowance := by
    rw [length_shrinkLen, length_append, length_map, length_drop, hr, hc]
    show s.inner.length > s.len - shrinkage + s.cacheSize ↔ _ > s.cacheSize
    omega
  rw [shrinkLines_eq, Ideal.shrinkLines, hr]
  simp only [hcond]
  split
  · rw [abs_truncate, ha]; rfl
  · rw [ha]; rfl

theorem ok_shrinkLines (h : s.Ok) (hs : shrinkage < s.len) : (s.shrinkLines shrinkage).Ok := by
  have hshr := ok_shrinkLen h shrinkage
  rw [shrinkLines_eq]
  split
  · exact ok_truncate hshr (Nat.sub_pos_of_lt hs)
  · exact hshr

theorem abs_shrinkVisibleLines (h : s.Ok) (hs : s.visibleLines - next ≤ s.len) :
    (s.shrinkVisibleLines next).abs = s.abs.shrinkVisibleLines next :=
  abs_shrinkLines (s := { s with visibleLines := next }) ⟨h.zero_lt, h.len_le⟩ hs

theorem ok_shrinkVisibleLines (h : s.Ok) (hs : s.visibleLines - next < s.len) : (s.shrinkVisibleLines next).Ok :=
  ok_shrinkLines (s := { s with visibleLines := next }) ⟨h.zero_lt, h.len_le⟩ hs

/-- The rows that a rotation takes out of the logical range are among its candidates. -/
theorem leaves_candidate {len : ℕ} {count : ℤ} (hl : len ≤ n) (hk : k < len) (hlea : len ≤ Ring.offset n (k - count)) :
    (if count < 0 then len - min count.natAbs len else 0) ≤ k ∧
      k < (if count < 0 then len - min count.natAbs len else 0) + min count.natAbs len := by
  by_cases hc : count < 0
  · rw [if_pos hc]
    by_contra hcand
    have : Ring.offset n (k - count) = k + count.natAbs := Ring.offset_of_lt (by omega) (by omega)
    omega
  · rw [if_neg hc]
    by_contra hcand
    have : Ring.offset n (k - count) = k - count.natAbs := Ring.offset_of_lt (by omega) (by omega)
    omega

theorem length_rotate (s : Storage T) (count : ℤ) : (s.rotate count).inner.length = s.inner.length := by
  unfold rotate
  simp only
  split <;> simp

theorem ring_rotate (h : s.Ok) {count : ℤ} (hc : count.natAbs ≤ s.inner.length) : (s.rotate count).ring =
      ((s.ring.mapIdx fun k r =>
        if k < s.len ∧ s.len ≤ Ring.offset s.inner.length (k - count) then s.abs.release r else r).rotate
          (Ring.offset s.inner.length count)) := by
  have hz := h.zero_lt
  have hle := h.len_le
  have hn : 0 < (s.rotate count).inner.length := by rw [length_rotate]; omega
  show (s.rotate count).inner.rotate ((s.zero + count + s.inner.length).toNat % s.inner.length) = _
  rw [← length_rotate s count, Ring.rotate_offset hn (by rw [length_rotate]; exact hc)]
  congr 1
  rw [length_rotate]
  by_cases ht : s.mayHaveTransientContent = true
  · have hr : s.abs.release = .discard := by funext r; simp [Ideal.release, abs, ht]
    unfold rotate
    simp only [ht, if_true]
    rw [rotate_discardWhere, hr]
    apply ext_getElem
    · simp
    intro k h1 h2
    have hk : k < s.inner.length := by simpa using h2
    simp only [getElem_mapIdx, Ring.place_sub hz hc]
    congr 1
    rw [Bool.and_eq_true, decide_eq_true_eq, any_place_eq hk (by split <;> omega)]
    simp only [eq_iff_iff]
    constructor
    · rintro ⟨⟨-, hk⟩, hl⟩
      exact ⟨by split at hk <;> omega, hl⟩
    · rintro ⟨hk, hl⟩
      exact ⟨leaves_candidate hle hk hl, hl⟩
  · have hr : s.abs.release = id := by funext r; simp [Ideal.release, abs, ht]
    unfold rotate
    simp only [ht, hr, id_eq, ite_self]
    apply ext_getElem
    · simp [ring]
    · intro k h1 h2
      rw [getElem_mapIdx]
      rfl

theorem abs_rotate (h : s.Ok) {count : ℤ} (hc : count.natAbs ≤ s.inner.length) : (s.rotate count).abs = s.abs.rotate count := by
  have hr := h.length_rows
  unfold Ideal.rotate
  simp only [abs_rows_append_cache, length_ring, hr, ← ring_rotate h hc]
  rfl

theorem ok_rotate (h : s.Ok) (count : ℤ) : (s.rotate count).Ok := by
  have hz := h.zero_lt
  have hle := h.len_le
  refine ⟨?_, by rw [length_rotate]; exact hle⟩
  rw [length_rotate]
  exact Nat.mod_lt _ (by omega)

end Storage

/-! ### Runs -/

/-- The operations of a storage, with their arguments. -/
inductive StorageOp (T : Type) where
  | rotate (count : ℤ)
  | initializeRows (additionalRows columns : ℕ)
  | shrinkLines (shrinkage : ℕ)
  | growVisibleLines (next : ℕ)
  | shrinkVisibleLines (next : ℕ)
  | swap (a b : ℤ)
  /-- `take_all`, then `replace_inner` with the new rows. -/
  | replace (vec : List (Row T))
  | truncate

namespace StorageOp

variable {T : Type}

/-- What the callers of an operation promise: a rotation by at most the rows there are, at
least one row left by a shrink, rows of at least one column, lines in the logical range. -/
def Allowed (s : Storage T) : StorageOp T → Prop
  | rotate count => count.natAbs ≤ s.inner.length
  | initializeRows _ columns => 0 < columns
  | shrinkLines shrinkage => shrinkage < s.len
  | growVisibleLines next => s.visibleLines ≤ next ∧ s.InRange 0
  | shrinkVisibleLines next => next ≤ s.visibleLines ∧ s.visibleLines - next < s.len
  | swap a b => s.InRange a ∧ s.InRange b
  | replace vec => vec ≠ []
  | truncate => 0 < s.len

instance (s : Storage T) : (op : StorageOp T) → Decidable (op.Allowed s)
  | rotate _ => inferInstanceAs (Decidable (_ ≤ _))
  | initializeRows _ _ => inferInstanceAs (Decidable (_ < _))
  | shrinkLines _ => inferInstanceAs (Decidable (_ < _))
  | growVisibleLines _ => inferInstanceAs (Decidable (_ ∧ _))
  | shrinkVisibleLines _ => inferInstanceAs (Decidable (_ ∧ _))
  | swap _ _ => inferInstanceAs (Decidable (_ ∧ _))
  | replace vec => decidable_of_iff (vec.isEmpty = false) (by cases vec <;> simp [Allowed])
  | truncate => inferInstanceAs (Decidable (_ < _))

variable [GridCell T]

/-- The operation on the storage. -/
def apply (s : Storage T) : StorageOp T → Storage T
  | rotate count => s.rotate count
  | initializeRows additionalRows columns => s.initializeRows additionalRows columns
  | shrinkLines shrinkage => s.shrinkLines shrinkage
  | growVisibleLines next => s.growVisibleLines next
  | shrinkVisibleLines next => s.shrinkVisibleLines next
  | swap a b => s.swap a b
  | replace vec => s.takeAll.1.replaceInner vec
  | truncate => s.truncate

/-- The operation on the ideal rows. -/
def applyIdeal (m : Ideal T) : StorageOp T → Ideal T
  | rotate count => m.rotate count
  | initializeRows additionalRows columns => m.initializeRows additionalRows columns
  | shrinkLines shrinkage => m.shrinkLines shrinkage
  | growVisibleLines next => m.growVisibleLines next
  | shrinkVisibleLines next => m.shrinkVisibleLines next
  | swap a b => m.swap a b
  | replace vec => m.replace vec
  | truncate => m.truncate

/-- A step of a storage: an operation whose caller keeps the promises. -/
def step (s : Storage T) (op : StorageOp T) : Option (Storage T) := if op.Allowed s then some (op.apply s) else none

variable {s s' : Storage T} {op : StorageOp T} {m : Ideal T}

theorem step_eq_some : step s op = some s' ↔ op.Allowed s ∧ s' = op.apply s := by
  unfold step
  split <;> simp_all [eq_comm]

theorem ok_apply (h : s.Ok) (ha : op.Allowed s) : (op.apply s).Ok := by
  cases op with
  | rotate count => exact Storage.ok_rotate h count
  | initializeRows additionalRows columns => exact Storage.ok_initializeRows h additionalRows columns
  | shrinkLines shrinkage => exact Storage.ok_shrinkLines h ha
  | growVisibleLines next => exact Storage.ok_growVisibleLines h next
  | shrinkVisibleLines next => exact Storage.ok_shrinkVisibleLines h ha.2
  | swap a b => exact Storage.ok_swap h a b
  | replace vec => exact Storage.ok_replace s ha
  | truncate => exact Storage.ok_truncate h ha

/-- **The storage simulates the ideal list, operation by operation.** -/
theorem abs_apply (h : s.Ok) (ha : op.Allowed s) : (op.apply s).abs = op.applyIdeal s.abs := by
  cases op with
  | rotate count => exact Storage.abs_rotate h ha
  | initializeRows additionalRows columns => exact Storage.abs_initializeRows h additionalRows columns
  | shrinkLines shrinkage => exact Storage.abs_shrinkLines h (le_of_lt ha)
  | growVisibleLines next => exact Storage.abs_growVisibleLines h ha.2 next
  | shrinkVisibleLines next => exact Storage.abs_shrinkVisibleLines h (le_of_lt ha.2)
  | swap a b => exact Storage.abs_swap h ha.1 ha.2
  | replace vec => exact Storage.abs_replace s vec
  | truncate => exact Storage.abs_truncate s

/-- Over a run the storage stays in order and holds the ideal rows of the same run. -/
theorem run_refines (h : s.Ok) {ops : List (StorageOp T)}
    (hr : Transition.run step s ops = some s') : s'.Ok ∧ s'.abs = ops.foldl applyIdeal s.abs := by
  induction ops generalizing s with
  | nil =>
    cases hr
    exact ⟨h, rfl⟩
  | cons op ops ih =>
    obtain ⟨u, hu, hr⟩ := (Transition.run_cons_eq_some step).mp hr
    obtain ⟨ha, rfl⟩ := step_eq_some.mp hu
    rw [foldl_cons, ← abs_apply h ha]
    exact ih (ok_apply h ha) hr

/-- The rows that stay in the logical list keep their order and their content. A rotation
moves them by its count; the rows it takes out at one end make place for rows at the
other. -/
def Survives (old new : List (Row T)) (visibleLines : ℕ) : StorageOp T → Prop
  | rotate count =>
    (count < 0 → new.drop count.natAbs = old.take (old.length - count.natAbs)) ∧
      (0 ≤ count → new.take (old.length - count.natAbs) = old.drop count.natAbs)
  | initializeRows additionalRows _ => old <+: new ∧ new.length = old.length + additionalRows
  | shrinkLines shrinkage => new = old.take (old.length - shrinkage)
  | growVisibleLines next => old <+: new ∧ new.length = old.length + (next - visibleLines)
  | shrinkVisibleLines next => new = old.take (old.length - (visibleLines - next))
  | swap a b =>
    let i := ((visibleLines : ℤ) - a - 1).toNat
    let j := ((visibleLines : ℤ) - b - 1).toNat
    new[i]? = old[j]? ∧ new[j]? = old[i]? ∧ ∀ k, k ≠ i → k ≠ j → new[k]? = old[k]?
  | replace vec => new = vec
  | truncate => new = old

theorem length_rotate_ideal (m : Ideal T) (count : ℤ) : (m.rotate count).rows.length = m.rows.length := by
  simp [Ideal.rotate]

/-- A row that a rotation keeps in the logical list is found at its new index. -/
theorem getElem?_rotate_ideal {count : ℤ} {k j : ℕ} (hk : k < m.rows.length) (hj : j < m.rows.length)
    (hjk : (j : ℤ) = k - count) : (m.rotate count).rows[j]? = m.rows[k]? := by
  have hn : 0 < (m.rows ++ m.cache).length := by simp; omega
  have hnew : Ring.offset (m.rows ++ m.cache).length (k - count) = j := Ring.offset_of_lt (by simp; omega) hjk.symm
  have hbk : (j + Ring.offset (m.rows ++ m.cache).length count) % (m.rows ++ m.cache).length = k := by
    have hcast := Ring.cast_offset hn count
    zify
    rw [hcast, Int.add_emod_emod, show (j : ℤ) + count = k by omega]
    exact Int.emod_eq_of_lt (by omega) (by simp; omega)
  unfold Ideal.rotate
  simp only
  rw [getElem?_take_of_lt hj, getElem?_rotate (by simp; omega), length_mapIdx, hbk,
    getElem?_mapIdx, getElem?_append_left hk, getElem?_eq_getElem hk, map_some, hnew,
    if_neg (by omega)]

theorem survives_rotate (m : Ideal T) (count : ℤ) (visibleLines : ℕ) :
    (rotate count).Survives m.rows (m.rotate count).rows visibleLines := by
  have hl := length_rotate_ideal m count
  constructor
  · intro hc
    apply ext_getElem?
    intro j
    rw [getElem?_drop]
    by_cases hj : j < m.rows.length - count.natAbs
    · rw [getElem?_take_of_lt hj]
      exact getElem?_rotate_ideal (by omega) (by omega) (by omega)
    · rw [getElem?_eq_none (by omega), getElem?_eq_none (by simp; omega)]
  · intro hc
    apply ext_getElem?
    intro j
    rw [getElem?_drop]
    by_cases hj : j < m.rows.length - count.natAbs
    · rw [getElem?_take_of_lt hj]
      exact getElem?_rotate_ideal (by omega) (by omega) (by omega)
    · rw [getElem?_eq_none (by simp; omega), getElem?_eq_none (by omega)]

theorem survives_initializeRows (m : Ideal T) (additionalRows columns visibleLines : ℕ) :
    (initializeRows additionalRows columns).Survives m.rows (m.initializeRows additionalRows columns).rows
      visibleLines := by
  refine ⟨prefix_append .., ?_⟩
  simp only [Ideal.initializeRows, length_append, length_take]
  split
  · simp; omega
  · omega

omit [GridCell T] in
theorem survives_swap {a b : ℤ} (ha : (m.get a).isSome) (hb : (m.get b).isSome) :
    (swap a b).Survives m.rows (m.swap a b).rows m.visibleLines := by
  obtain ⟨ra, hra⟩ := isSome_iff_exists.mp ha
  obtain ⟨rb, hrb⟩ := isSome_iff_exists.mp hb
  have hla := (List.getElem?_eq_some_iff.mp hra).1
  have hlb := (List.getElem?_eq_some_iff.mp hrb).1
  simp only [Survives, Ideal.swap, hra, hrb]
  rw [Ideal.get] at hra hrb
  refine ⟨?_, ?_, fun k hka hkb => ?_⟩
  · rw [hrb, getElem?_set, getElem?_set_self hla]
    split
    · rename_i hab
      rw [hab, hra] at hrb
      rw [if_pos (by simpa using hlb), hrb]
    · rfl
  · rw [hra, getElem?_set_self (by simpa using hlb)]
  · rw [getElem?_set_ne (Ne.symm hkb), getElem?_set_ne (Ne.symm hka)]

/-- A step of the ideal list keeps the surviving rows. -/
theorem survives_applyIdeal (h : s.Ok) (ha : op.Allowed s) : op.Survives s.abs.rows (op.applyIdeal s.abs).rows s.visibleLines := by
  cases op with
  | rotate count => exact survives_rotate _ count _
  | initializeRows additionalRows columns => exact survives_initializeRows _ additionalRows columns _
  | shrinkLines shrinkage => rfl
  | growVisibleLines next => exact survives_initializeRows _ _ (((s.abs.get 0).map Row.len).getD 0) 0
  | shrinkVisibleLines next => rfl
  | swap a b =>
    refine survives_swap ?_ ?_
    · rw [← Storage.get_eq_abs_get h ha.1]; exact Storage.get_isSome h ha.1
    · rw [← Storage.get_eq_abs_get h ha.2]; exact Storage.get_isSome h ha.2
  | replace vec => rfl
  | truncate => rfl

/-- The ideal rows of a fresh storage. -/
def freshIdeal (visibleLines columns : ℕ) (transient : Bool) : Ideal T :=
  ⟨.replicate visibleLines (.new columns), [], visibleLines, transient⟩

/-- **A storage refines the list of its rows.** After any operations whose callers keep their
promises the ring is in order, every line of the logical range reads the row of the ideal
list after the same operations, its rows are those taken out, and the next operation keeps the order and the content of
the rows that survive it. -/
theorem storage_refines_ideal {visibleLines columns : ℕ} {transient : Bool} {ops : List (StorageOp T)}
    {s : Storage T} (hvis : 0 < visibleLines)
    (hrun : Transition.run step
      { Storage.withCapacity visibleLines columns with mayHaveTransientContent := transient } ops = some s) :
    (s.zero < s.inner.length ∧ s.len ≤ s.inner.length) ∧
      (∀ line, s.InRange line → ∃ r, s.get line = some r ∧
        (ops.foldl applyIdeal (freshIdeal visibleLines columns transient)).get line = some r) ∧
      s.takeAll.2 = (ops.foldl applyIdeal (freshIdeal visibleLines columns transient)).rows ∧
      ∀ op s', step s op = some s' → op.Survives s.abs.rows s'.abs.rows s.visibleLines := by
  have hinit := Storage.ok_withCapacity (T := T) columns hvis
  obtain ⟨hok, habs⟩ := run_refines (s := { Storage.withCapacity visibleLines columns with
    mayHaveTransientContent := transient }) ⟨hinit.zero_lt, hinit.len_le⟩ hrun
  have hfr : ({ Storage.withCapacity visibleLines columns with mayHaveTransientContent := transient } :
      Storage T).abs = freshIdeal visibleLines columns transient := by
    simp [Storage.abs, Storage.withCapacity, Storage.ring, freshIdeal]
  rw [hfr] at habs
  refine ⟨⟨hok.zero_lt, hok.len_le⟩, fun line hl => ?_, by rw [Storage.takeAll_rows, habs], fun op s' hst => ?_⟩
  · obtain ⟨r, hr⟩ := isSome_iff_exists.mp (Storage.get_isSome hok hl)
    exact ⟨r, hr, by rw [← habs, ← Storage.get_eq_abs_get hok hl, hr]⟩
  · obtain ⟨ha, rfl⟩ := step_eq_some.mp hst
    rw [abs_apply hok ha]
    exact survives_applyIdeal hok ha

/-- A run that grows the history, scrolls, exchanges two rows, and gives lines back. -/
def sampleOps : List (StorageOp Cell) :=
  [.initializeRows 1 1, .rotate (-1), .swap 0 (-1), .growVisibleLines 3, .shrinkVisibleLines 2, .shrinkLines 1, .truncate]

theorem storage_refines_ideal_scrolling :
    ∃ s : Storage Cell, Transition.run step { Storage.withCapacity 2 1 with mayHaveTransientContent := true } sampleOps = some s ∧
      (s.zero < s.inner.length ∧ s.len ≤ s.inner.length) ∧
      (∀ line, s.InRange line → ∃ r, s.get line = some r ∧ (sampleOps.foldl applyIdeal (freshIdeal 2 1 true)).get line = some r) ∧
      s.takeAll.2 = (sampleOps.foldl applyIdeal (freshIdeal 2 1 true)).rows ∧
      ∀ op s', step s op = some s' → op.Survives s.abs.rows s'.abs.rows s.visibleLines :=
  ⟨_, rfl, storage_refines_ideal (by decide) rfl⟩

end StorageOp

end Pebrel.Terminal
