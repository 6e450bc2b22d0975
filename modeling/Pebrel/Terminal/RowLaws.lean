import Pebrel.Terminal.Invariant

/-!
# Rows under the operations of a storage

What holds of every row of a storage, and what in addition of the rows it keeps
ready: a property of rows that new rows have, that a row keeps when it leaves
the logical range, and that a reset keeps (`RowLaws`) is kept by every
operation (`Ideal.Holds`). The lists of the ideal storage carry the proofs.
-/

namespace Pebrel.Terminal

open Library List Option Int

variable {T : Type}

/-! ### Writes and exchanges on the ideal rows -/

namespace Ideal

/-- The index of a line among the rows, counted from the bottom. -/
def index (m : Ideal T) (line : ℤ) : ℕ := ((m.visibleLines : ℤ) - line - 1).toNat

/-- A write to the row at a line. -/
def modify (m : Ideal T) (line : ℤ) (f : Row T → Row T) : Ideal T :=
  { m with rows := m.rows.modify (m.index line) f }

variable {m : Ideal T} {a b : ℤ} {k : ℕ}

theorem get_eq (m : Ideal T) (line : ℤ) : m.get line = m.rows[m.index line]? := rfl

theorem swap_rows (m : Ideal T) (a b : ℤ) : (m.swap a b).cache = m.cache ∧ (m.swap a b).visibleLines = m.visibleLines ∧
      (m.swap a b).mayHaveTransientContent = m.mayHaveTransientContent := by
  unfold swap
  split <;> exact ⟨rfl, rfl, rfl⟩

theorem mem_swap {r : Row T} (h : r ∈ (m.swap a b).rows) : r ∈ m.rows := by
  unfold swap at h
  split at h
  · rename_i ra rb hra hrb
    rcases mem_or_eq_of_mem_set h with h | rfl
    · rcases mem_or_eq_of_mem_set h with h | rfl
      · exact h
      · exact mem_of_getElem? hrb
    · exact mem_of_getElem? hra
  · exact h

/-- An exchange leaves the other rows alone. -/
theorem getElem?_swap_of_ne (ha : m.index a ≠ k) (hb : m.index b ≠ k) : (m.swap a b).rows[k]? = m.rows[k]? := by
  unfold swap
  split
  · exact (getElem?_set_ne hb).trans (getElem?_set_ne ha)
  · rfl

/-- A write leaves the other rows alone. -/
theorem getElem?_modify_of_ne {line : ℤ} {f : Row T → Row T} (h : m.index line ≠ k) : (m.modify line f).rows[k]? = m.rows[k]? := by
  show (m.rows.modify (m.index line) f)[k]? = _
  rw [getElem?_modify]
  simp only [if_neg h]
  exact Option.map_id' ..

end Ideal

namespace Storage

variable {s : Storage T} {line : ℤ}

theorem abs_modify (h : s.Ok) (hl : s.InRange line) (f : Row T → Row T) : (s.modify line f).abs = s.abs.modify line f := by
  have hp := lt_of_lt_of_le hl.positive_lt h.len_le
  have hring : (s.modify line f).ring = s.ring.modify (s.positive line) f := Ring.rotate_modify h.zero_lt hp f
  have hr : (s.modify line f).abs.rows = (s.abs.rows).modify (s.positive line) f := by
    show ((s.modify line f).ring.take s.len) = (s.ring.take s.len).modify (s.positive line) f
    rw [hring]
    apply ext_getElem?
    intro j
    by_cases hj : j < s.len
    · rw [getElem?_take_of_lt hj, getElem?_modify, getElem?_modify, getElem?_take_of_lt hj]
    · rw [getElem?_eq_none (by simp; omega), getElem?_eq_none (by simp; omega)]
  have hc : (s.modify line f).abs.cache = s.abs.cache := by
    show ((s.modify line f).ring.drop s.len) = s.ring.drop s.len
    rw [hring]
    apply ext_getElem?
    intro j
    have := hl.positive_lt
    rw [getElem?_drop, getElem?_drop, getElem?_modify]
    simp only [if_neg (show ¬ s.positive line = s.len + j by omega)]
    exact Option.map_id' ..
  show (⟨(s.modify line f).abs.rows, (s.modify line f).abs.cache, s.visibleLines, s.mayHaveTransientContent⟩ : Ideal T) = _
  rw [hr, hc]
  rfl

/-- The lines that a sized storage has. -/
theorem Sized.inRange {v n : ℕ} (h : s.Sized v n) (h1 : (v : ℤ) - n ≤ line) (h2 : line < v) : s.InRange line := by
  unfold InRange
  rw [h.visibleLines_eq, h.len_eq]
  exact ⟨h1, h2⟩

/-! ### Reading a line after an operation -/

section
variable {s : Storage T} {a b line : ℤ}

/-- Two lines of the logical range have different rows. -/
theorem InRange.index_ne (ha : s.InRange a) (hb : s.InRange b) (h : a ≠ b) : s.abs.index a ≠ s.abs.index b := by
  have h1 := ha.2
  have h2 := hb.2
  show ((s.visibleLines : ℤ) - a - 1).toNat ≠ ((s.visibleLines : ℤ) - b - 1).toNat
  omega

theorem get_modify_of_ne (h : s.Ok) (ha : s.InRange a) (hl : s.InRange line) (hne : line ≠ a)
    (f : Row T → Row T) : (s.modify a f).get line = s.get line := by
  have hok : (s.modify a f).Ok := ⟨by simpa [modify] using h.zero_lt, by simpa [modify] using h.len_le⟩
  rw [get_eq_abs_get hok hl, get_eq_abs_get h hl, abs_modify h ha]
  exact Ideal.getElem?_modify_of_ne (ha.index_ne hl hne.symm)

theorem get_modify_self (h : s.Ok) (hl : s.InRange line) (f : Row T → Row T) : (s.modify line f).get line = (s.get line).map f := by
  have hok : (s.modify line f).Ok := ⟨by simpa [modify] using h.zero_lt, by simpa [modify] using h.len_le⟩
  rw [get_eq_abs_get hok hl, get_eq_abs_get h hl, abs_modify h hl]
  show (s.abs.rows.modify (s.abs.index line) f)[s.abs.index line]? = _
  rw [getElem?_modify]
  simp only [if_pos]
  rfl

theorem get_swap_of_ne (h : s.Ok) (ha : s.InRange a) (hb : s.InRange b) (hl : s.InRange line)
    (hna : line ≠ a) (hnb : line ≠ b) : (s.swap a b).get line = s.get line := by
  have hr : (s.swap a b).InRange line := by
    obtain ⟨_, _, -, -, hs⟩ := swap_of_inRange h ha hb
    rw [hs]
    exact hl
  rw [get_eq_abs_get (ok_swap h a b) hr, get_eq_abs_get h hl, abs_swap h ha hb]
  obtain ⟨-, hv, -⟩ := s.abs.swap_rows a b
  rw [Ideal.get_eq, Ideal.get_eq]
  unfold Ideal.index
  rw [hv]
  exact Ideal.getElem?_swap_of_ne (ha.index_ne hl hna.symm) (hb.index_ne hl hnb.symm)

theorem Sized.get_swapLines {v n : ℕ} (h : s.Sized v n) {d : ℤ} {lines : List ℤ} (hl : s.InRange line)
    (hls : ∀ a ∈ lines, s.InRange a ∧ s.InRange (a + d) ∧ line ≠ a ∧ line ≠ a + d) :
    (s.swapLines d lines).get line = s.get line := by
  induction lines generalizing s with
  | nil => rfl
  | cons a lines ih =>
    obtain ⟨ha, hb, hna, hnb⟩ := hls a mem_cons_self
    have hswap := h.swap a (a + d)
    have hrg : ∀ {c : ℤ}, s.InRange c → (s.swap a (a + d)).InRange c := by
      intro c hc
      unfold InRange at hc ⊢
      rw [hswap.visibleLines_eq, hswap.len_eq]
      rwa [h.visibleLines_eq, h.len_eq] at hc
    refine (ih hswap (hrg hl) fun b hb => ?_).trans (get_swap_of_ne h.ok ha hb hl hna hnb)
    obtain ⟨h1, h2, h3, h4⟩ := hls b (mem_cons_of_mem a hb)
    exact ⟨hrg h1, hrg h2, h3, h4⟩

end

section
variable [GridCell T] {s : Storage T} {v n : ℕ} {template : T} {lines : List ℤ} {line : ℤ}

theorem get_resetLines_of_notMem (h : s.Sized v n) (hl : s.InRange line) (hls : ∀ a ∈ lines, s.InRange a ∧ line ≠ a) :
    (s.resetLines template lines).get line = s.get line := by
  induction lines generalizing s with
  | nil => rfl
  | cons a lines ih =>
    obtain ⟨ha, hna⟩ := hls a mem_cons_self
    have hr := ih (h.modify a (·.reset template)) hl fun b hb => hls b (mem_cons_of_mem a hb)
    exact hr.trans (get_modify_of_ne h.ok ha hl hna _)

/-- A line that is reset has a row that is the reset of a row. -/
theorem get_resetLines_of_mem (h : s.Sized v n) (hm : line ∈ lines) (hls : ∀ a ∈ lines, s.InRange a) :
    ∃ r : Row T, (s.resetLines template lines).get line = some (r.reset template) := by
  induction lines generalizing s with
  | nil => cases hm
  | cons a lines ih =>
    have ha := hls a mem_cons_self
    have hs := h.modify a (·.reset template)
    by_cases hin : line ∈ lines
    · exact ih hs hin fun b hb => hls b (mem_cons_of_mem a hb)
    obtain rfl : line = a := (mem_cons.mp hm).resolve_right hin
    obtain ⟨r, hr⟩ := isSome_iff_exists.mp (get_isSome h.ok ha)
    refine ⟨r, (get_resetLines_of_notMem hs ha fun b hb => ⟨hls b (mem_cons_of_mem line hb), ?_⟩).trans ?_⟩
    · rintro rfl
      exact hin hb
    · rw [get_modify_self h.ok ha, hr]
      rfl

/-- A rotation moves the rows by its count. -/
theorem get_rotate (h : s.Ok) {count : ℤ} (hc : count.natAbs ≤ s.inner.length) (hl : s.InRange line)
    (hfrom : s.InRange (line - count)) : (s.rotate count).get line = s.get (line - count) := by
  have hok := ok_rotate h count
  have hl' : (s.rotate count).InRange line := hl
  have hr := h.length_rows
  have hp := hl.positive_lt
  have hp' := hfrom.positive_lt
  rw [get_eq_abs_get hok hl', get_eq_abs_get h hfrom, abs_rotate h hc]
  unfold positive at hp hp'
  have hlt := hl.2
  have hlt' := hfrom.2
  exact StorageOp.getElem?_rotate_ideal (by rw [hr]; exact hp') (by rw [hr]; exact hp) (by
    show (((s.visibleLines : ℤ) - line - 1).toNat : ℤ) = ((s.visibleLines : ℤ) - (line - count) - 1).toNat - count
    omega)

theorem get_initializeRows (h : s.Ok) (hl : s.InRange line) (additionalRows columns : ℕ) :
    (s.initializeRows additionalRows columns).get line = s.get line := by
  have hr : (s.initializeRows additionalRows columns).InRange line := by
    unfold InRange at hl ⊢
    rw [visibleLines_initializeRows, len_initializeRows]
    omega
  have hp := hl.positive_lt
  have hrows := h.length_rows
  rw [get_eq_abs_get (ok_initializeRows h _ _) hr, get_eq_abs_get h hl, abs_initializeRows h]
  exact getElem?_append_left (by rw [hrows]; exact hp)

theorem get_shrinkLines (h : s.Ok) {shrinkage : ℕ} (hs : shrinkage < s.len)
    (hl : (s.visibleLines : ℤ) - s.len + shrinkage ≤ line ∧ line < s.visibleLines) :
    (s.shrinkLines shrinkage).get line = s.get line := by
  have hv : (s.shrinkLines shrinkage).visibleLines = s.visibleLines ∧ (s.shrinkLines shrinkage).len = s.len - shrinkage := by
    rw [shrinkLines_eq]
    split <;> exact ⟨rfl, rfl⟩
  have hr : (s.shrinkLines shrinkage).InRange line := by
    unfold InRange
    rw [hv.1, hv.2]
    omega
  have hl' : s.InRange line := ⟨by omega, hl.2⟩
  have hrows := h.length_rows
  rw [get_eq_abs_get (ok_shrinkLines h hs) hr, get_eq_abs_get h hl', abs_shrinkLines h (le_of_lt hs)]
  refine getElem?_take_of_lt ?_
  rw [hrows]
  show ((s.visibleLines : ℤ) - line - 1).toNat < s.len - shrinkage
  omega

end

end Storage

/-! ### What rows satisfy -/

variable [GridCell T]

/-- Every row satisfies `K`, and the rows kept ready also `C`. -/
structure Ideal.Holds (K C : Row T → Prop) (m : Ideal T) : Prop where
  rows : ∀ r ∈ m.rows, K r
  cache : ∀ r ∈ m.cache, K r ∧ C r

/-- What a property of the rows of a storage has to have: new rows satisfy it, a row keeps it on
its way out of the logical range, and a reset keeps it. -/
structure RowLaws (K C : Row T → Prop) (transient : Bool) (columns : ℕ) : Prop where
  fresh : K (.new columns) ∧ C (.new columns)
  release : ∀ r, K r → K (if transient then r.discard else r) ∧ C (if transient then r.discard else r)
  reset : ∀ r template, K r → K (r.reset template)

namespace Ideal.Holds

variable {K C : Row T → Prop} {m : Ideal T} {columns : ℕ}

section
omit [GridCell T]

theorem swap (h : m.Holds K C) (a b : ℤ) : (m.swap a b).Holds K C := by
  refine ⟨fun r hr => h.rows r (mem_swap hr), fun r hr => h.cache r ?_⟩
  rw [← (m.swap_rows a b).1]
  exact hr

theorem modify (h : m.Holds K C) (line : ℤ) {f : Row T → Row T} (hf : ∀ r, m.get line = some r → K r → K (f r)) :
    (m.modify line f).Holds K C := by
  refine ⟨fun r hr => ?_, h.cache⟩
  obtain ⟨j, hj⟩ := getElem?_of_mem hr
  simp only [Ideal.modify, getElem?_modify] at hj
  cases hrow : m.rows[j]? with
  | none => rw [hrow] at hj; cases hj
  | some r0 =>
    rw [hrow] at hj
    have hK := h.rows r0 (mem_of_getElem? hrow)
    simp only [Option.map_eq_map, map_some, some.injEq] at hj
    subst hj
    split
    · rename_i heq
      exact hf r0 (by rw [get_eq, heq]; exact hrow) hK
    · exact hK

omit [GridCell T] in
theorem replace (m : Ideal T) {vec : List (Row T)} (hv : ∀ r ∈ vec, K r) : (m.replace vec).Holds K C := ⟨hv, nofun⟩

end

theorem initializeRows (h : m.Holds K C) (hlaws : RowLaws K C m.mayHaveTransientContent columns) (additionalRows : ℕ) :
    (m.initializeRows additionalRows columns).Holds K C := by
  have hrd : ∀ r ∈ (if additionalRows > m.cache.length then
      m.cache ++ replicate (max additionalRows m.allowance) (.new columns) else m.cache), K r ∧ C r := by
    intro r hr
    split at hr
    · rcases mem_append.mp hr with hr | hr
      · exact h.cache r hr
      · rw [eq_of_mem_replicate hr]
        exact hlaws.fresh
    · exact h.cache r hr
  refine ⟨fun r hr => ?_, fun r hr => hrd r (mem_of_mem_drop hr)⟩
  rcases mem_append.mp hr with hr | hr
  · exact h.rows r hr
  · exact (hrd r (mem_of_mem_take hr)).1

theorem shrinkLines (h : m.Holds K C) (hlaws : RowLaws K C m.mayHaveTransientContent columns) (shrinkage : ℕ) :
    (m.shrinkLines shrinkage).Holds K C := by
  refine ⟨fun r hr => h.rows r (mem_of_mem_take hr), fun r hr => ?_⟩
  simp only [Ideal.shrinkLines] at hr
  split at hr
  · cases hr
  rcases mem_append.mp hr with hr | hr
  · obtain ⟨r0, hr0, rfl⟩ := mem_map.mp hr
    exact hlaws.release r0 (h.rows r0 (mem_of_mem_drop hr0))
  · exact h.cache r hr

theorem rotate (h : m.Holds K C) (hlaws : RowLaws K C m.mayHaveTransientContent columns) (count : ℤ) : (m.rotate count).Holds K C := by
  -- a row at index `k` after the rotation comes from an index `j` before it
  have hm : ∀ k r, ((m.rotate count).rows ++ (m.rotate count).cache)[k]? = some r → K r ∧ (m.rows.length ≤ k → C r) := by
    intro k r hr
    have ha : (m.rotate count).rows ++ (m.rotate count).cache =
        ((m.rows ++ m.cache).mapIdx fun k r =>
          if k < m.rows.length ∧ m.rows.length ≤ Ring.offset (m.rows ++ m.cache).length (k - count) then m.release r
          else r).rotate (Ring.offset (m.rows ++ m.cache).length count) := take_append_drop ..
    have hl : ((m.rotate count).rows ++ (m.rotate count).cache).length = (m.rows ++ m.cache).length := by
      rw [ha]; simp
    have hk : k < (m.rows ++ m.cache).length := by
      rw [← hl]; exact (List.getElem?_eq_some_iff.mp hr).1
    have hn : 0 < (m.rows ++ m.cache).length := by omega
    rw [ha, getElem?_rotate (by simpa using hk), length_mapIdx, getElem?_mapIdx] at hr
    generalize hj : (k + Ring.offset (m.rows ++ m.cache).length count) % (m.rows ++ m.cache).length = j at hr
    have hjlt : j < (m.rows ++ m.cache).length := by rw [← hj]; exact Nat.mod_lt _ hn
    have hbk : Ring.offset (m.rows ++ m.cache).length (j - count) = k := by
      have hcast := Ring.cast_offset hn count
      have : (j : ℤ) = (k + count % (m.rows ++ m.cache).length) % (m.rows ++ m.cache).length := by
        rw [← hj, ← hcast]; push_cast; rfl
      unfold Ring.offset
      rw [this, emod_sub_emod, add_sub_right_comm, add_emod_emod, sub_add_cancel, emod_eq_of_lt (by omega) (by omega)]
      rfl
    rw [getElem?_eq_getElem hjlt, map_some, some.injEq, hbk] at hr
    subst hr
    by_cases hrow : j < m.rows.length
    · have hK : K ((m.rows ++ m.cache)[j]) := by
        rw [getElem_append_left hrow]
        exact h.rows _ (getElem_mem hrow)
      split
      · exact ⟨(hlaws.release _ hK).1, fun _ => (hlaws.release _ hK).2⟩
      · rename_i hst
        exact ⟨hK, fun hkl => absurd ⟨hrow, hkl⟩ hst⟩
    · have hc := h.cache _ (getElem_mem (l := m.cache) (n := j - m.rows.length) (by
        rw [length_append] at hjlt; omega))
      rw [if_neg (by omega), getElem_append_right (by omega)]
      exact ⟨hc.1, fun _ => hc.2⟩
  have hl := StorageOp.length_rotate_ideal m count
  refine ⟨fun r hr => ?_, fun r hr => ?_⟩
  · obtain ⟨k, hk⟩ := getElem?_of_mem hr
    exact (hm k r (by rw [getElem?_append_left (List.getElem?_eq_some_iff.mp hk).1]; exact hk)).1
  · obtain ⟨k, hk⟩ := getElem?_of_mem hr
    have := hm (k + (m.rotate count).rows.length) r (by
      rw [getElem?_append_right (by omega), Nat.add_sub_cancel]; exact hk)
    exact ⟨this.1, this.2 (by omega)⟩

end Ideal.Holds

namespace Storage

/-- Every logical row satisfies `K`, and the rows kept ready also `C`. -/
def Holds (K C : Row T → Prop) (s : Storage T) : Prop := s.abs.Holds K C

namespace Holds

variable {K C : Row T → Prop} {s : Storage T} {v n columns : ℕ} {line : ℤ} {lines : List ℤ}

section
variable (h : s.Holds K C)
include h

section
omit [GridCell T]

theorem get (hok : s.Ok) (hl : s.InRange line) {r : Row T} (hr : s.get line = some r) : K r := by
  rw [get_eq_abs_get hok hl] at hr
  exact h.rows r (mem_of_getElem? hr)

theorem modify (hok : s.Ok) (hl : s.InRange line) {f : Row T → Row T}
    (hf : ∀ r, s.get line = some r → K r → K (f r)) : (s.modify line f).Holds K C := by
  unfold Holds
  rw [abs_modify hok hl]
  exact .modify h line fun r hr => hf r (by rw [get_eq_abs_get hok hl]; exact hr)

theorem swapLines (hs : s.Sized v n) {d : ℤ} (hls : ∀ a ∈ lines, s.InRange a ∧ s.InRange (a + d)) : (s.swapLines d lines).Holds K C := by
  induction lines generalizing s with
  | nil => exact h
  | cons a lines ih =>
    obtain ⟨ha, hb⟩ := hls a mem_cons_self
    have hswap := hs.swap a (a + d)
    refine ih ?_ hswap fun b hb => ?_
    · unfold Holds
      rw [abs_swap hs.ok ha hb]
      exact .swap h a (a + d)
    have hrg := hls b (mem_cons_of_mem a hb)
    unfold InRange at hrg ⊢
    rw [hswap.visibleLines_eq, hswap.len_eq]
    rwa [hs.visibleLines_eq, hs.len_eq] at hrg

end

theorem resetLines (hs : s.Sized v n) {transient : Bool} (hlaws : RowLaws K C transient columns)
    {template : T} (hls : ∀ a ∈ lines, s.InRange a) : (s.resetLines template lines).Holds K C := by
  induction lines generalizing s with
  | nil => exact h
  | cons a lines ih =>
    refine ih ?_ (hs.modify a (·.reset template)) fun b hb => hls b (mem_cons_of_mem a hb)
    exact h.modify hs.ok (hls a mem_cons_self) fun r _ hr => hlaws.reset r template hr

theorem rotate (hok : s.Ok) (hlaws : RowLaws K C s.mayHaveTransientContent columns) {count : ℤ}
    (hc : count.natAbs ≤ s.inner.length) : (s.rotate count).Holds K C := by
  unfold Holds
  rw [abs_rotate hok hc]
  exact .rotate h hlaws count

theorem initializeRows (hok : s.Ok) (hlaws : RowLaws K C s.mayHaveTransientContent columns)
    (additionalRows : ℕ) : (s.initializeRows additionalRows columns).Holds K C := by
  unfold Holds
  rw [abs_initializeRows hok]
  exact .initializeRows h hlaws additionalRows

theorem shrinkLines (hok : s.Ok) (hlaws : RowLaws K C s.mayHaveTransientContent columns)
    {shrinkage : ℕ} (hsh : shrinkage ≤ s.len) : (s.shrinkLines shrinkage).Holds K C := by
  unfold Holds
  rw [abs_shrinkLines hok hsh]
  exact .shrinkLines h hlaws shrinkage

end

omit [GridCell T] in
theorem replace (s : Storage T) {vec : List (Row T)} (hv : ∀ r ∈ vec, K r) : (s.takeAll.1.replaceInner vec).Holds K C := by
  unfold Holds
  rw [abs_replace]
  exact .replace s.abs hv

end Holds

end Storage

end Pebrel.Terminal
