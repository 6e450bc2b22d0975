import Pebrel.Sftp.DownloadSafety

/-!
# Downloads as a whole

The workers of a download keep to ranges that do not overlap, so a step of one of
them leaves what the others have confirmed as it is (`Download.step_inv`). The number of
steps that are left falls with each of them. When all workers have returned,
the ranges tell what the local file has (`download_reassembles`).
-/

namespace Pebrel.Sftp

open Library Spans List Option Worker

/-! ### Lists with one entry changed -/

variable {total : ℕ} {segments : List SegmentProgress} {results : List (Except DownloadError ℕ)} {workers : List Worker} {remote : Bytes}
  {file : LocalFile}

theorem sum_map_set {α : Type*} (f : α → ℕ) {l : List α} {i : ℕ} {a : α} (h : l[i]? = some a) (b : α) :
    ((l.set i b).map f).sum + f a = (l.map f).sum + f b := by
  induction l generalizing i with
  | nil => cases h
  | cons c l ih =>
    cases i with
    | zero =>
      obtain rfl := some.inj h
      simp only [set_cons_zero, map_cons, sum_cons]
      omega
    | succ i =>
      have := ih h
      simp only [set_cons_succ, map_cons, sum_cons]
      omega

/-! ### Ranges -/

/-- The range of a worker. -/
def Worker.range (w : Worker) : ℕ × ℕ := (w.offset, w.length)

theorem ranges_covers {plan : Plan} (h : Covers 0 plan total) : Covers 0 (ranges total plan) total := by
  rw [ranges]
  split
  · rename_i hz
    exact hz.symm
  rename_i hz
  split
  · exact ⟨rfl, Nat.pos_of_ne_zero hz, Nat.zero_add total⟩
  · exact h

/-! ### All workers -/

namespace Download

variable {remote : Bytes} {total : ℕ} {spans : Plan} {s s' : Download}

/-- What holds in every state of a download. -/
structure Inv (remote : Bytes) (spans : Plan) (s : Download) : Prop where
  workers : s.workers.map Worker.range = spans
  sound : ∀ w ∈ s.workers, w.Sound remote s.file
  progress : s.progress = (s.workers.map Worker.written).sum
  own : ∀ p, s.file p ≠ none → ∃ r ∈ spans, r.1 ≤ p ∧ p < r.1 + r.2

/-- A bound on the steps that the workers can still make. -/
def left (s : Download) : ℕ := (s.workers.map Worker.left).sum

variable {a : ℕ × WorkerStep} {w v : Worker} {i : ℕ}

theorem start_inv (total : ℕ) (plan : Plan) : (start total plan).Inv remote (ranges total plan) where
  workers := by
    rw [start, List.map_map]
    exact List.map_id _
  sound w hw := by
    obtain ⟨r, -, rfl⟩ := List.mem_map.mp hw
    exact start_sound r.1 r.2
  progress := by
    have hz : Worker.written ∘ (fun r : ℕ × ℕ => Worker.start r.1 r.2) = fun _ => 0 := rfl
    rw [start, List.map_map, hz, map_const', sum_replicate]
    rfl
  own p hp := absurd rfl hp

theorem sum_left_start (rs : Plan) : (rs.map fun r => 3 * r.2 + 2).sum = 3 * (rs.map Prod.snd).sum + 2 * rs.length := by
  induction rs with
  | nil => rfl
  | cons r rs ih =>
    simp only [map_cons, sum_cons, length_cons, ih]
    omega

theorem left_start {plan : Plan} (h : Covers 0 plan total) : (start total plan).left = 3 * total + 2 * (ranges total plan).length := by
  have hs := (ranges_covers h).sum_eq
  rw [Nat.zero_add] at hs
  have hlf : Worker.left ∘ (fun r : ℕ × ℕ => Worker.start r.1 r.2) = fun r => 3 * r.2 + 2 := rfl
  rw [left, start, List.map_map, hlf, sum_left_start, hs]

/-- The worker that takes a step, and what it does. -/
theorem step_cases (hi : s.Inv remote spans) (h : s.step remote a = some s') :
    ∃ w w' advanced, s.workers[a.1]? = some w ∧ Next remote s.file w w' s'.file advanced ∧
      s'.progress = s.progress + advanced ∧ s'.workers = s.workers.set a.1 w' := by
  rw [step] at h
  cases hw : s.workers[a.1]? with
  | none =>
    rw [hw] at h
    cases h
  | some w =>
    rw [hw] at h
    obtain ⟨⟨w', file', advanced⟩, hst, rfl⟩ := map_eq_some_iff.mp h
    exact ⟨w, w', advanced, rfl, step_next (hi.sound w (mem_of_getElem? hw)) hst, rfl, rfl⟩

/-- What a worker has confirmed is no concern of the workers of other ranges. -/
theorem sound_of_apart {file file' : LocalFile} (hv : v.Sound remote file)
    (ho : ∀ p, file' p ≠ file p → w.offset ≤ p ∧ p < w.offset + w.length)
    (hap : w.offset + w.length ≤ v.offset ∨ v.offset + v.length ≤ w.offset) : v.Sound remote file' := by
  refine ⟨fun p hp hlt => ?_, hv.within, hv.place⟩
  have hsm : file' p = file p := by
    by_contra hne
    have := ho p hne
    have := hv.within
    omega
  rw [hsm]
  exact hv.confirmed p hp hlt

theorem apart_of_ne (hc : Covers 0 spans total) (hwor : s.workers.map Worker.range = spans) {j : ℕ}
    (hw : s.workers[i]? = some w) (hv : s.workers[j]? = some v) (hne : i ≠ j) :
    w.offset + w.length ≤ v.offset ∨ v.offset + v.length ≤ w.offset := by
  have hpw := hc.pairwise
  rw [← hwor, pairwise_map] at hpw
  obtain ⟨hi, rfl⟩ := List.getElem?_eq_some_iff.mp hw
  obtain ⟨hj, rfl⟩ := List.getElem?_eq_some_iff.mp hv
  rcases Nat.lt_or_gt_of_ne hne with hlt | hgt
  · exact .inl (pairwise_iff_getElem.mp hpw i j hi hj hlt)
  · exact .inr (pairwise_iff_getElem.mp hpw j i hj hi hgt)

/-- **A step of a download.** -/
theorem step_inv (hc : Covers 0 spans total) (hinv : s.Inv remote spans)
    (h : s.step remote a = some s') : s'.Inv remote spans ∧ s'.left < s.left ∧
      ∀ p, s'.file p ≠ s.file p → ∃ r, spans[a.1]? = some r ∧ r.1 ≤ p ∧ p < r.1 + r.2 := by
  obtain ⟨w, w', advanced, hw, hnx, hpro, hwor⟩ := step_cases hinv h
  have hi : a.1 < s.workers.length := (List.getElem?_eq_some_iff.mp hw).1
  have hrg : spans[a.1]? = some (w.offset, w.length) := by
    rw [← hinv.workers, getElem?_map, hw]
    rfl
  refine ⟨⟨?_, ?_, ?_, ?_⟩, ?_, fun p hp => ⟨_, hrg, hnx.own p hp⟩⟩
  · have hsm : w'.range = w.range := Prod.ext hnx.offset hnx.length
    have hg : (s.workers.map Worker.range)[a.1]? = some w.range := by rw [getElem?_map, hw, map_some]
    obtain ⟨hlt, hrg'⟩ := List.getElem?_eq_some_iff.mp hg
    rw [hwor, map_set, hsm, ← hrg', set_getElem_self]
    exact hinv.workers
  · intro v hv
    obtain ⟨j, hj⟩ := mem_iff_getElem?.mp hv
    rw [hwor] at hj
    by_cases hij : a.1 = j
    · rw [← hij, getElem?_set_self hi] at hj
      obtain rfl := some.inj hj
      exact hnx.sound
    · rw [getElem?_set_ne hij] at hj
      exact sound_of_apart (hinv.sound v (mem_of_getElem? hj)) hnx.own (apart_of_ne hc hinv.workers hw hj hij)
  · have hs := sum_map_set Worker.written hw w'
    have hwr := hnx.written
    have hb := hinv.progress
    rw [← hwor] at hs
    omega
  · intro p hp
    by_cases hsm : s'.file p = s.file p
    · rw [hsm] at hp
      exact hinv.own p hp
    · exact ⟨_, mem_of_getElem? hrg, hnx.own p hsm⟩
  · have hs := sum_map_set Worker.left hw w'
    have hlf := hnx.left
    rw [← hwor] at hs
    simp only [left]
    omega

/-- The bytes of a write are in the range of the worker. -/
theorem wrote_within (hi : s.Inv remote spans) {count : ℕ} (hw : s.workers[i]? = some w)
    (h : s.step remote (i, .wrote count) = some s') : ∃ r, spans[i]? = some r ∧ r.1 ≤ w.target ∧ w.target + count ≤ r.1 + r.2 := by
  refine ⟨w.range, ?_, ?_⟩
  · rw [← hi.workers, getElem?_map, hw, map_some]
  · have hpl := (hi.sound w (mem_of_getElem? hw)).place
    simp only [step, hw, map_eq_some_iff, Worker.step] at h
    obtain ⟨_, h, -⟩ := h
    split at h
    · rename_i rest hph
      simp only [Place, hph] at hpl
      obtain ⟨hfl, -, hle, -, he⟩ := hpl
      have hs := hfl.source
      split at h
      · rename_i hc
        simp only [Worker.range]
        omega
      · cases h
    · cases h

/-- **The states of a run.** -/
theorem run_inv (hc : Covers 0 spans total) (hi : s.Inv remote spans) {actions : List (ℕ × WorkerStep)}
    (h : Transition.run (step remote) s actions = some s') : s'.Inv remote spans ∧ s'.left + actions.length ≤ s.left := by
  induction actions generalizing s with
  | nil =>
    obtain rfl := some.inj h
    exact ⟨hi, Nat.le_refl _⟩
  | cons a actions ih =>
    obtain ⟨u, hst, hr⟩ := (Transition.run_cons_eq_some _).mp h
    obtain ⟨hi', hlt, -⟩ := step_inv hc hi hst
    obtain ⟨hs', hle⟩ := ih hi' hr
    refine ⟨hs', ?_⟩
    rw [length_cons]
    omega

end Download

/-! ### Outcomes -/

/-- What is below the offset was done. -/
theorem contiguousFrom_done {reached p : ℕ} (hle : reached ≤ p)
    (hlt : p < contiguousFrom reached segments) : ∃ t ∈ segments, t.offset ≤ p ∧ p < t.offset + t.done := by
  induction segments generalizing reached with
  | nil =>
    rw [contiguousFrom] at hlt
    omega
  | cons t segments ih =>
    rw [contiguousFrom] at hlt
    by_cases ho : t.offset = reached
    · rw [if_neg (not_not_intro ho)] at hlt
      by_cases hp : p < reached + t.done
      · exact ⟨t, mem_cons_self, by omega, by omega⟩
      by_cases hd : t.done = t.length
      · rw [if_neg (not_not_intro hd)] at hlt
        obtain ⟨t', ht', hin⟩ := ih (by omega) hlt
        exact ⟨t', mem_cons_of_mem _ ht', hin⟩
      · rw [if_pos hd] at hlt
        omega
    · rw [if_pos ho] at hlt
      omega

/-- Segments that are all done. -/
theorem contiguousFrom_all {a b : ℕ}
    (h : Covers a (segments.map fun t => (t.offset, t.length)) b) (hd : ∀ t ∈ segments, t.done = t.length) :
    contiguousFrom a segments = b := by
  induction segments generalizing a with
  | nil => exact h
  | cons t segments ih =>
    obtain ⟨ho, -, hr⟩ := h
    obtain ⟨ht, hts⟩ := forall_mem_cons.mp hd
    rw [contiguousFrom, if_neg (not_not_intro ho), if_neg (not_not_intro ht), ht]
    exact ih hr hts

theorem firstError_eq_none (h : firstError results = none) : ∀ r ∈ results, ∃ n, r = .ok n := by
  induction results with
  | nil => exact nofun
  | cons r results ih =>
    cases r with
    | error e => cases h
    | ok n => exact forall_mem_cons.mpr ⟨⟨n, rfl⟩, ih h⟩

/-- A download that succeeds has workers that all do. -/
theorem outcomeOf_ok {outcome : DownloadOutcome} (h : outcomeOf workers results = .ok outcome) : ∀ r ∈ results, ∃ n, r = .ok n := by
  rcases results with - | ⟨r, - | ⟨r', results⟩⟩
  · exact nofun
  · cases r with
    | error e => cases h
    | ok n => exact forall_mem_singleton.mpr ⟨n, rfl⟩
  · refine firstError_eq_none ?_
    cases he : firstError (r :: r' :: results) with
    | none => rfl
    | some e =>
      simp only [outcomeOf, he] at h
      cases h

/-! ### Workers that have returned -/

theorem mapM_result (h : workers.mapM result = some results) : List.Forall₂ (fun w r => w.result = some r) workers results := by
  induction workers generalizing results with
  | nil =>
    obtain rfl := some.inj h
    exact .nil
  | cons w workers ih =>
    simp only [mapM_cons, bind_eq_bind, bind_eq_some_iff, Option.pure_def, some.injEq] at h
    obtain ⟨r, hr, rs, hrs, rfl⟩ := h
    exact .cons hr (ih hrs)

/-- What is booked for workers that have returned was written. -/
theorem segmentsOf_confirmed
    (hres : List.Forall₂ (fun w r => w.result = some r) workers results) (hs : ∀ w ∈ workers, w.Sound remote file) :
    ∀ t ∈ segmentsOf workers results, ∀ p, t.offset ≤ p → p < t.offset + t.done → file p = remote[p]? ∧ p < remote.length := by
  induction hres with
  | nil => exact nofun
  | @cons w r workers results hr _ ih =>
    obtain ⟨hw, hws⟩ := forall_mem_cons.mp hs
    refine forall_mem_cons.mpr ⟨fun p hp hlt => ?_, ih hws⟩
    cases r with
    | error e => exact absurd hlt (Nat.not_lt.mpr hp)
    | ok n =>
      have hpl := hw.place
      cases hph : w.phase with
      | finished written =>
        simp only [result, hph, some.injEq, Except.ok.injEq] at hr
        simp only [Place, hph] at hpl
        obtain ⟨hl, -, htg⟩ := hpl
        refine hw.confirmed p hp ?_
        rw [htg, ← hl, hr]
        exact hlt
      | _ => simp [result, hph] at hr

/-- What workers that have all succeeded have written. -/
theorem succeeded (hres : List.Forall₂ (fun w r => w.result = some r) workers results) (hok : ∀ r ∈ results, ∃ n, r = .ok n)
    (hs : ∀ w ∈ workers, w.Sound remote file) :
    (∀ w ∈ workers, w.target = w.offset + w.length) ∧ results = workers.map (fun w => .ok w.length) ∧
      workers.map Worker.written = workers.map Worker.length := by
  induction hres with
  | nil => exact ⟨nofun, rfl, rfl⟩
  | @cons w r workers results hr _ ih =>
    obtain ⟨hw, hws⟩ := forall_mem_cons.mp hs
    obtain ⟨⟨n, rfl⟩, hns⟩ := forall_mem_cons.mp hok
    obtain ⟨ht, hres, hwr⟩ := ih hns hws
    have hpl := hw.place
    cases hph : w.phase with
    | finished written =>
      simp only [result, hph, some.injEq, Except.ok.injEq] at hr
      simp only [Place, hph] at hpl
      obtain ⟨hl, ha, htg⟩ := hpl
      refine ⟨forall_mem_cons.mpr ⟨htg, ht⟩, ?_, ?_⟩
      · rw [map_cons, ← hres, ← hr, hl]
      · rw [map_cons, map_cons, hwr, ha]
    | _ => simp [result, hph] at hr

theorem writtenOf_ok (workers : List Worker) : writtenOf (workers.map fun w => .ok w.length) = (workers.map Worker.length).sum := by
  induction workers with
  | nil => rfl
  | cons w workers ih => rw [map_cons, map_cons, sum_cons, writtenOf, ih]

theorem firstError_ok (workers : List Worker) : firstError (workers.map fun w => .ok w.length) = none := by
  induction workers with
  | nil => rfl
  | cons w workers ih => exact ih

theorem segmentsOf_ok (workers : List Worker) :
    segmentsOf workers (workers.map fun w => .ok w.length) = workers.map fun w => ⟨w.offset, w.length, w.length⟩ := by
  rw [segmentsOf, zip_map_right, List.map_map]
  induction workers with
  | nil => rfl
  | cons w workers ih => exact congrArg _ ih

/-- What is returned when workers that cover the file have all succeeded. -/
theorem outcomeOf_all (hc : Covers 0 (workers.map Worker.range) total) :
    outcomeOf workers (workers.map fun w => .ok w.length) = .ok ⟨total, total⟩ := by
  have hs := hc.sum_eq
  rw [Nat.zero_add, List.map_map] at hs
  rcases workers with - | ⟨w, - | ⟨v, workers⟩⟩
  · obtain rfl : 0 = total := hc
    rfl
  · obtain rfl : w.length + 0 = total := hs
    rfl
  · have hcon : contiguousFrom 0 (segmentsOf (w :: v :: workers) ((w :: v :: workers).map fun w => .ok w.length)) = total := by
      rw [segmentsOf_ok]
      refine contiguousFrom_all ?_ fun t ht => ?_
      · rw [List.map_map]
        exact hc
      · obtain ⟨u, -, rfl⟩ := List.mem_map.mp ht
        rfl
    have hwr := writtenOf_ok (w :: v :: workers)
    have he := firstError_ok (w :: v :: workers)
    rw [map_cons, map_cons] at hcon hwr he ⊢
    simp only [outcomeOf, he, contiguousOffset, hcon, hwr]
    rw [← hs]
    rfl

/-! ### The file -/

/-- **Downloads put the file together, whatever the plan, the order of the workers and the lengths of the reads.** -/
theorem download_reassembles {plan : Plan} {total : ℕ} (hplan : Covers 0 plan total) (remote : Bytes)
    {actions : List (ℕ × WorkerStep)} {s : Download} (hrun :
    Transition.run (Download.step remote) (Download.start total plan) actions = some s) :
    (∀ w ∈ s.workers, w.phase ≠ .panicked) ∧
    (∀ a s', s.step remote a = some s' →
      ∀ p, s'.file p ≠ s.file p → ∃ r, (ranges total plan)[a.1]? = some r ∧ r.1 ≤ p ∧ p < r.1 + r.2) ∧
    (∀ i count w s', s.workers[i]? = some w → s.step remote (i, .wrote count) = some s' →
      ∃ r, (ranges total plan)[i]? = some r ∧ r.1 ≤ w.target ∧ w.target + count ≤ r.1 + r.2) ∧
    (∀ outcome, s.finish = some (.ok outcome) →
      (∀ p, s.file p = (remote.take total)[p]?) ∧ total ≤ remote.length ∧ s.progress = total ∧ outcome = ⟨total, total⟩) ∧
    (remote.length < total → ∀ r, s.finish = some r → ∃ e, r = .error e) ∧
    (∀ results, s.workers.mapM result = some results → ∀ p, p < contiguousOffset (segmentsOf s.workers results) →
      s.file p = remote[p]? ∧ p < remote.length) ∧
    actions.length ≤ 3 * total + 2 * (ranges total plan).length := by
  have hcov := ranges_covers hplan
  obtain ⟨hinv, hlen⟩ := Download.run_inv hcov (Download.start_inv total plan) hrun
  have hfin : ∀ outcome, s.finish = some (.ok outcome) →
      (∀ p, s.file p = (remote.take total)[p]?) ∧ total ≤ remote.length ∧ s.progress = total ∧ outcome = ⟨total, total⟩ := by
    intro outcome h
    obtain ⟨results, hres, hok⟩ := map_eq_some_iff.mp h
    obtain ⟨htar, hall, hwr⟩ := succeeded (mapM_result hres) (outcomeOf_ok hok) hinv.sound
    have hin : ∀ p, p < total → s.file p = remote[p]? ∧ p < remote.length := by
      intro p hp
      obtain ⟨r, hr, hle, hlt⟩ := hcov.exists_mem (Nat.zero_le p) hp
      rw [← hinv.workers] at hr
      obtain ⟨w, hw, rfl⟩ := List.mem_map.mp hr
      exact (hinv.sound w hw).confirmed p hle ((htar w hw).symm ▸ hlt)
    have hout : ∀ p, total ≤ p → s.file p = none := by
      intro p hp
      by_contra hne
      obtain ⟨r, hr, -, hlt⟩ := hinv.own p hne
      have := (hcov.of_mem hr).2.2
      omega
    have hth : total ≤ remote.length := by
      by_contra hsh
      have := (hin (total - 1) (by omega)).2
      omega
    refine ⟨fun p => ?_, hth, ?_, ?_⟩
    · by_cases hp : p < total
      · rw [(hin p hp).1, getElem?_take_of_lt hp]
      · have htk : (remote.take total).length ≤ p := (length_take_le _ _).trans (Nat.le_of_not_lt hp)
        rw [hout p (Nat.le_of_not_lt hp), getElem?_eq_none htk]
    · have hsum := hcov.sum_eq
      rw [Nat.zero_add, ← hinv.workers, List.map_map] at hsum
      rw [hinv.progress, hwr]
      exact hsum
    · rw [hall, outcomeOf_all (hinv.workers.symm ▸ hcov)] at hok
      exact (Except.ok.inj hok).symm
  refine ⟨fun w hw hph => ?_, fun a s' hst => (Download.step_inv hcov hinv hst).2.2,
    fun i count w s' hw hst => Download.wrote_within hinv hw hst, hfin, fun hsh r h => ?_, fun results hres p hp => ?_, ?_⟩
  · have hpl := (hinv.sound w hw).place
    simp only [Place, hph] at hpl
  · cases r with
    | error e => exact ⟨e, rfl⟩
    | ok outcome => exact absurd (hfin outcome h).2.1 (Nat.not_le.mpr hsh)
  · obtain ⟨t, ht, hle, hlt⟩ := contiguousFrom_done (Nat.zero_le p) hp
    exact segmentsOf_confirmed (mapM_result hres) hinv.sound t ht p hle hlt
  · have := Download.left_start hplan
    omega

/-- Three bytes in two segments: the second worker is done before the first one has read its second byte. -/
def threeBytes : List (ℕ × WorkerStep) :=
  [(0, .opened), (1, .opened), (0, .read 1), (1, .read 1), (1, .wrote 1), (1, .flushed), (0, .wrote 1), (0, .flushed), (0, .read 1),
    (0, .wrote 1), (0, .flushed)]

theorem download_reassembles_three : Covers 0 [(0, 2), (2, 1)] 3 ∧
    ∃ s, Transition.run (Download.step [7, 8, 9, 10]) (Download.start 3 [(0, 2), (2, 1)]) threeBytes = some s ∧
      s.finish = some (.ok ⟨3, 3⟩) ∧ s.file 1 = some 8 ∧ s.progress = 3 := by
  have hcov : Covers 0 [(0, 2), (2, 1)] 3 := by decide
  have hd : (Transition.run (Download.step [7, 8, 9, 10]) (Download.start 3 [(0, 2), (2, 1)]) threeBytes).bind Download.finish =
      some (.ok ⟨3, 3⟩) := rfl
  obtain ⟨s, hrun, hfin⟩ := bind_eq_some_iff.mp hd
  obtain ⟨-, -, -, hok, -⟩ := download_reassembles hcov [7, 8, 9, 10] hrun
  obtain ⟨hf, -, hpro, -⟩ := hok _ hfin
  exact ⟨hcov, s, hrun, hfin, hf 1, hpro⟩

end Pebrel.Sftp
