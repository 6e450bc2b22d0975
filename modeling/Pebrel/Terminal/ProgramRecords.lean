import Pebrel.Terminal.ProgramStatus
import Mathlib.Tactic

/-!
# The records of programs are a bounded tree

The ids of the records are paths in a tree, kept in one flat list. `path` says
where in the tree an id is: clearing an id takes its subtree and nothing else,
and a record inherits the app of the nearest id above it. The list is in the
order in which the ids were last updated, so what a full list loses is the
record that has gone without an update for longest.
-/

namespace Pebrel.Terminal.ProgramStatus

open List

/-! ### Ids are paths -/

/-- The parts of an id, from the root down. -/
def path (id : Bytes) : List Bytes := if id = [] then [] else id.splitOn slash

@[simp] theorem path_nil : path [] = [] := rfl

theorem path_of_ne {id : Bytes} (h : id ≠ []) : path id = id.splitOn slash := if_neg h

theorem path_ne_nil {id : Bytes} (h : id ≠ []) : path id ≠ [] := by
  rw [path_of_ne h]
  exact splitOn_ne_nil _ _

/-- An id is put together from its parts. -/
theorem path_inj {a b : Bytes} (h : path a = path b) : a = b := by
  by_cases ha : a = []
  · by_cases hb : b = []
    · rw [ha, hb]
    · rw [ha, path_nil] at h
      exact absurd h.symm (path_ne_nil hb)
  · by_cases hb : b = []
    · rw [hb, path_nil] at h
      exact absurd h (path_ne_nil ha)
    · rw [path_of_ne ha, path_of_ne hb] at h
      rw [← (intercalate_splitOn slash : [slash].intercalate (a.splitOn slash) = a), h, intercalate_splitOn]

/-- Below `id` is what goes on with a slash. -/
theorem below_iff {id entry : Bytes} : below id entry = true ↔ ∃ tail, entry = id ++ slash :: tail := by
  rw [below, Bool.and_eq_true, isPrefixOf_iff_prefix]
  constructor
  · rintro ⟨⟨rest, rfl⟩, hhd⟩
    rw [drop_left, beq_iff_eq, head?_eq_some_iff] at hhd
    obtain ⟨tail, rfl⟩ := hhd
    exact ⟨tail, rfl⟩
  · rintro ⟨tail, rfl⟩
    exact ⟨prefix_append _ _, by simp⟩

theorem intercalate_append_cons {x : UInt8} {xs : List Bytes} (h : xs ≠ []) (part : Bytes) (rest : List Bytes) :
    [x].intercalate (xs ++ part :: rest) = [x].intercalate xs ++ x :: [x].intercalate (part :: rest) := by
  induction xs with
  | nil => exact absurd rfl h
  | cons y ys ih =>
    cases ys with
    | nil => simp [intercalate_cons_cons]
    | cons z zs =>
      rw [cons_append, cons_append, intercalate_cons_cons, intercalate_cons_cons, ← cons_append, ih (cons_ne_nil _ _)]
      simp

/-- What `clear` takes is what has a path that the cleared one is the beginning of. -/
theorem path_prefix_iff {id entry : Bytes} : path id <+: path entry ↔ id = [] ∨ entry = id ∨ ∃ tail, entry = id ++ slash :: tail := by
  by_cases hid : id = []
  · simp [hid]
  constructor
  · intro h
    by_cases he : entry = []
    · rw [he, path_nil, prefix_nil] at h
      exact absurd h (path_ne_nil hid)
    rw [path_of_ne hid, path_of_ne he] at h
    obtain ⟨rest, hr⟩ := h
    have hjoin : [slash].intercalate (entry.splitOn slash) = entry := intercalate_splitOn slash
    rw [← hr] at hjoin
    cases rest with
    | nil =>
      rw [append_nil, intercalate_splitOn] at hjoin
      exact .inr (.inl hjoin.symm)
    | cons part rest =>
      rw [intercalate_append_cons (splitOn_ne_nil _ _), intercalate_splitOn] at hjoin
      exact .inr (.inr ⟨_, hjoin.symm⟩)
  · rintro (h | rfl | ⟨tail, rfl⟩)
    · exact absurd h hid
    · exact prefix_rfl
    · rw [path_of_ne hid, path_of_ne (by simp), splitOn_append_cons_self]
      exact prefix_append _ _

/-- An id none of whose parts is empty. -/
def Proper (id : Bytes) : Prop := ∀ part ∈ path id, part ≠ []

theorem proper_nil : Proper [] := by simp [Proper]

theorem proper_of_validId {id : Bytes} (h : validId id = true) : Proper id := by
  intro part hpt
  simp only [validId, Bool.and_eq_true, all_eq_true] at h
  by_cases hid : id = []
  · simp [hid] at hpt
  rw [path_of_ne hid] at hpt
  have hi := (h.2 part hpt).2
  rintro rfl
  simp [identifier] at hi

/-- The parent of an id is the path without its last part. -/
theorem path_parent {id : Bytes} (hp : Proper id) : path (parent id) = (path id).dropLast := by
  by_cases hid : id = []
  · simp [hid, parent]
  have hsp := takeWhile_append_dropWhile (l := id.reverse) (p := (· ≠ slash))
  have hn : slash ∉ id.reverse.takeWhile (· ≠ slash) := by
    intro hm
    have := mem_takeWhile_imp hm
    simp at this
  cases hd : id.reverse.dropWhile (· ≠ slash) with
  | nil =>
    rw [hd, append_nil] at hsp
    rw [hsp, mem_reverse] at hn
    rw [parent, hd, path_of_ne hid, splitOn_eq_singleton hn]
    rfl
  | cons c rest =>
    have hc : c = slash := by
      have := head_dropWhile_not (fun x : UInt8 => decide (x ≠ slash)) (w := by rw [hd]; exact cons_ne_nil _ _)
      simp only [hd, head_cons] at this
      simpa using this
    subst hc
    rw [hd] at hsp
    set last := (id.reverse.takeWhile (· ≠ slash)).reverse with hl
    have hid' : id = rest.reverse ++ slash :: last := by
      rw [← reverse_reverse id, ← hsp, hl]
      simp
    have hl' : slash ∉ last := by rwa [hl, mem_reverse]
    have hps : path id = rest.reverse.splitOn slash ++ [last] := by
      rw [path_of_ne hid, hid', splitOn_append_cons_self, splitOn_eq_singleton hl']
    have hr : rest.reverse ≠ [] := by
      intro he
      refine hp [] ?_ rfl
      rw [hps, he]
      simp
    have hpar : parent id = rest.reverse := by rw [parent, hd, drop_one, tail_cons]
    rw [hpar, path_of_ne hr, hps, dropLast_concat]

theorem Proper.parent {id : Bytes} (hp : Proper id) : Proper (parent id) := by
  intro part hpt
  rw [path_parent hp] at hpt
  exact hp part (mem_of_mem_dropLast hpt)

/-! ### The app of a record -/

/-- `app` is the app of the nearest record on the path `p` from the root that has one. -/
def Inherits (entries : List Record) (p : List Bytes) (app : Bytes) : Prop :=
  ∃ anc ∈ entries, path anc.id <+: p ∧ anc.app = some app ∧
    ∀ other ∈ entries, path other.id <+: p → other.app ≠ none → (path other.id).length ≤ (path anc.id).length

section
variable {entries : List Record} (hn : (entries.map (·.id)).Nodup)
include hn

theorem eq_of_id {a b : Record} (ha : a ∈ entries) (hb : b ∈ entries) (h : a.id = b.id) : a = b := inj_on_of_nodup_map hn ha hb h

/-- A record at the end of the path with an app is the nearest. -/
theorem inherits_of_mem {entry : Record} (he : entry ∈ entries) {own : Bytes} (ho : entry.app = some own) {app : Bytes} :
    Inherits entries (path entry.id) app ↔ own = app := by
  constructor
  · rintro ⟨anc, hanc, hp, ha, hf⟩
    have hl := hf entry he prefix_rfl (by simp [ho])
    have heq : path anc.id = path entry.id := hp.eq_of_length (le_antisymm hp.length_le hl)
    rw [eq_of_id hn hanc he (path_inj heq), ho] at ha
    exact Option.some.inj ha
  · rintro rfl
    exact ⟨entry, he, prefix_rfl, ho, fun other _ hp _ => hp.length_le⟩

theorem find_app {id app : Bytes} :
    (entries.find? fun entry => entry.id == id).bind (·.app) = some app ↔ ∃ entry ∈ entries, entry.id = id ∧ entry.app = some app := by
  rw [Option.bind_eq_some_iff]
  constructor
  · rintro ⟨entry, hfd, ha⟩
    have hid := find?_some hfd
    exact ⟨entry, mem_of_find?_eq_some hfd, by simpa using hid, ha⟩
  · rintro ⟨entry, hm, hid, ha⟩
    cases hfd : entries.find? fun entry => entry.id == id with
    | none =>
      have := find?_eq_none.mp hfd entry hm
      simp [hid] at this
    | some found =>
      have hid' := find?_some hfd
      rw [beq_iff_eq] at hid'
      rw [eq_of_id hn hm (mem_of_find?_eq_some hfd) (hid.trans hid'.symm)] at ha
      exact ⟨found, rfl, ha⟩

omit hn in
/-- Without an app at its end, a path inherits what the path above does. -/
theorem inherits_dropLast {p : List Bytes} (h : ∀ entry ∈ entries, path entry.id = p → entry.app = none) {app : Bytes} :
    Inherits entries p app ↔ p ≠ [] ∧ Inherits entries p.dropLast app := by
  have hst : ∀ entry ∈ entries, entry.app ≠ none → path entry.id <+: p → path entry.id <+: p.dropLast := by
    intro entry he ha hp
    rcases eq_nil_or_concat p with rfl | ⟨q, x, rfl⟩
    · exact hp
    rw [concat_eq_append, dropLast_concat]
    rcases prefix_concat_iff.mp (by simpa using hp) with heq | hq
    · exact absurd (h entry he (by simpa using heq)) ha
    · exact hq
  constructor
  · rintro ⟨anc, hanc, hp, ha, hf⟩
    refine ⟨?_, anc, hanc, hst anc hanc (by simp [ha]) hp, ha, fun other ho hpo hao =>
      hf other ho (hpo.trans (List.dropLast_prefix p)) hao⟩
    rintro rfl
    rw [h anc hanc (prefix_nil.mp hp)] at ha
    cases ha
  · rintro ⟨-, anc, hanc, hp, ha, hf⟩
    exact ⟨anc, hanc, hp.trans (List.dropLast_prefix p), ha, fun other ho hpo hao =>
      hf other ho (hst other ho hao hpo) hao⟩

/-- The loop of `app_for` finds the nearest app above an id. -/
theorem appAbove_iff {id app : Bytes} (hp : Proper id) :
    appAbove entries id = some app ↔ id ≠ [] ∧ Inherits entries (path (parent id)) app := by
  induction hl : id.length using Nat.strong_induction_on generalizing id with
  | _ n ih =>
    rw [appAbove]
    split_ifs with hid
    · simp [hid]
    cases hfd : (entries.find? fun entry => entry.id == parent id).bind (·.app) with
    | some own =>
      obtain ⟨entry, hm, hent, ho⟩ := (find_app hn).mp hfd
      have hi : Inherits entries (path entry.id) app ↔ own = app := inherits_of_mem hn hm ho
      rw [hent] at hi
      simp [hi, hid]
    | none =>
      have hnone : ∀ entry ∈ entries, path entry.id = path (parent id) → entry.app = none := by
        intro entry hm heq
        cases ha : entry.app with
        | none => rfl
        | some own =>
          have := (find_app hn).mpr ⟨entry, hm, path_inj heq, ha⟩
          rw [hfd] at this
          cases this
      have hlt := length_parent_lt hid
      rw [ih (parent id).length (hl ▸ hlt) hp.parent rfl, inherits_dropLast hnone, path_parent hp.parent]
      constructor
      · rintro ⟨hne, h⟩
        exact ⟨hid, path_ne_nil hne, h⟩
      · rintro ⟨-, hne, h⟩
        exact ⟨fun he => hne (by rw [he, path_nil]), h⟩

/-- `app_for` gives a kept record the app of the nearest record at or above it that has one. -/
theorem appFor_spec {r : Records} (hr : r.entries = entries) {record : Record} (hm : record ∈ entries)
    (hp : Proper record.id) {app : Bytes} : r.appFor record = some app ↔ Inherits entries (path record.id) app := by
  rw [Records.appFor]
  cases ho : record.app with
  | some own =>
    rw [inherits_of_mem hn hm ho]
    simp
  | none =>
    have hnone : ∀ entry ∈ entries, path entry.id = path record.id → entry.app = none := by
      intro entry hmem heq
      rw [eq_of_id hn hmem hm (path_inj heq), ho]
    rw [hr, appAbove_iff hn hp, inherits_dropLast hnone, path_parent hp]
    constructor
    · rintro ⟨hne, h⟩
      exact ⟨path_ne_nil hne, h⟩
    · rintro ⟨hne, h⟩
      exact ⟨fun he => hne (by rw [he, path_nil]), h⟩

end

/-! ### What a report may name -/

/-- The id of a report's record, or of what it clears. -/
def Report.id : Report → Bytes
  | .query => []
  | .clear id => id
  | .replace record => record.id

theorem assign_id {base64 : Bytes → Option Bytes} {d d' : Draft} {key value : Bytes}
    (h : assign base64 d key value = some d') : d'.id = d.id ∨ key = ascii "id" ∧ d'.id = value := by
  simp only [assign] at h
  split_ifs at h
  all_goals
    first
    | obtain ⟨t, -, rfl⟩ := Option.map_eq_some_iff.mp h
      exact .inl rfl
    | cases h
      first
      | exact .inl rfl
      | exact .inr ⟨‹_›, rfl⟩

theorem readPair_proper {base64 : Bytes → Option Bytes} {d d' : Draft} {pair : Bytes}
    (h : readPair base64 d pair = some d') (hd : Proper d.id) : Proper d'.id := by
  rw [readPair] at h
  split at h
  · cases h
    exact hd
  simp only at h
  split_ifs at h with h1 h2 h3 h4 h5 h6
  · cases h
    exact hd
  · cases h
    exact hd
  · rcases assign_id h with hid | ⟨hk, hid⟩
    · rw [hid]
      exact hd
    · rw [hid]
      simp only [hk, decide_true, Bool.true_and, Bool.not_eq_true', Bool.not_eq_false, Bool.and_eq_true] at h3
      exact proper_of_validId h3.2

theorem readPairs_proper {base64 : Bytes → Option Bytes} {pairs : List Bytes} {d d' : Draft}
    (h : pairs.foldlM (readPair base64) d = some d') (hd : Proper d.id) : Proper d'.id := by
  induction pairs generalizing d with
  | nil =>
    cases h
    exact hd
  | cons pair pairs ih =>
    rw [foldlM_cons] at h
    obtain ⟨d1, h1, h2⟩ := Option.bind_eq_some_iff.mp h
    exact ih h2 (readPair_proper h1 hd)

theorem finish_id {d : Draft} {report : Report} (h : finish d = some report) : report.id = d.id := by
  rw [finish] at h
  split at h
  · cases h
  · simp only at h
    split_ifs at h <;> cases h <;> rfl

/-- A report that is read never has an empty part in its id. -/
theorem parse_proper {base64 : Bytes → Option Bytes} {body : Bytes} {report : Report}
    (h : parse base64 body = some report) : Proper report.id := by
  rw [parse] at h
  split_ifs at h
  · cases h
    exact proper_nil
  · obtain ⟨d, hd, hf⟩ := Option.bind_eq_some_iff.mp h
    rw [finish_id hf]
    exact readPairs_proper hd proper_nil

/-! ### Reports and the list -/

namespace Records

/-- Clearing an id takes the records of its subtree. -/
theorem clear_entries (r : Records) (id : Bytes) :
    (r.apply (.clear id)).1.entries = r.entries.filter fun entry => !decide (path id <+: path entry.id) := by
  simp only [apply]
  congr 1
  funext entry
  congr 1
  rw [Bool.eq_iff_iff, decide_eq_true_iff, path_prefix_iff, ← below_iff, Bool.or_eq_true, Bool.or_eq_true,
    List.isEmpty_iff, beq_iff_eq, or_assoc]

theorem eraseP_eq_filter {entries : List Record} (hn : (entries.map (·.id)).Nodup) (id : Bytes) :
    entries.eraseP (fun entry => entry.id == id) = entries.filter fun entry => entry.id != id := by
  induction entries with
  | nil => rfl
  | cons entry entries ih =>
    obtain ⟨hnot, hn⟩ := nodup_cons.mp hn
    by_cases h : entry.id = id
    · rw [eraseP_cons_of_pos (by simp [h]), filter_cons_of_neg (by simp [h])]
      refine (filter_eq_self.mpr fun other ho => ?_).symm
      rw [bne_iff_ne]
      intro he
      exact hnot (by simpa only [h, he] using mem_map_of_mem (f := (·.id)) ho)
    · rw [eraseP_cons_of_neg (by simp [h]), filter_cons_of_pos (by simp [h]), ih hn]

/-- A report puts its record last, in the place of the one of its id; when there is none and the list is full,
the first record goes. -/
theorem replace_entries {r : Records} (hn : (r.entries.map (·.id)).Nodup) (record : Record) : (r.apply (.replace record)).1.entries =
      (if record.id ∈ r.entries.map (·.id) ∨ r.entries.length ≠ maxRecords
        then r.entries.filter fun entry => entry.id != record.id
        else r.entries.tail) ++ [record] := by
  by_cases hl : r.entries.getLast? = some record
  · obtain ⟨front, hfro⟩ := getLast?_eq_some_iff.mp hl
    have hm : record.id ∈ r.entries.map (·.id) := mem_map_of_mem (by rw [hfro]; simp)
    rw [if_pos (.inl hm)]
    simp only [apply, hl, if_true]
    rw [hfro] at hn ⊢
    rw [map_append, nodup_append] at hn
    rw [filter_append, filter_cons_of_neg (by simp), filter_nil, append_nil]
    congr 1
    refine (filter_eq_self.mpr fun other ho => ?_).symm
    rw [bne_iff_ne]
    exact fun he => hn.2.2 other.id (mem_map_of_mem ho) record.id (by simp) he
  · have hera := eraseP_eq_filter hn record.id
    rw [eraseP_eq_eraseIdx] at hera
    simp only [apply, hl, if_false]
    cases hf : r.entries.findIdx? fun entry => entry.id == record.id with
    | some index =>
      have hm : record.id ∈ r.entries.map (·.id) := by
        obtain ⟨hi, hid, -⟩ := findIdx?_eq_some_iff_getElem.mp hf
        rw [← beq_iff_eq.mp hid]
        exact mem_map_of_mem (getElem_mem hi)
      rw [hf] at hera
      simp only [hm, true_or, if_true]
      rw [← hera]
    | none =>
      have hnot : record.id ∉ r.entries.map (·.id) := by
        intro hm
        obtain ⟨entry, he, hid⟩ := mem_map.mp hm
        have := findIdx?_eq_none_iff.mp hf entry he
        simp [hid] at this
      rw [hf] at hera
      by_cases hfu : r.entries.length = maxRecords
      · rw [if_pos hfu, if_neg (by simp only [hnot, hfu, ne_eq, not_true, or_self, not_false_eq_true])]
      · rw [if_neg hfu, if_pos (.inr hfu), ← hera]

/-! ### Runs -/

/-- The id that an operation updates. -/
def updated (base64 : Bytes → Option Bytes) : Op → Option Bytes
  | .report body => match parse base64 body with
    | some (.replace record) => some record.id
    | _ => none
  | .commandEnded | .acknowledgeResults | .reset => none

/-- The ids that a run has updated, in order. -/
def updates (base64 : Bytes → Option Bytes) (ops : List Op) : List Bytes := ops.filterMap (updated base64)

/-- Bounded, in the order of their last updates in `log`, and under proper ids. -/
structure Ordered (log : List Bytes) (r : Records) : Prop where
  order : (r.entries.map (·.id)).Sublist log.dedup
  length_le : r.entries.length ≤ maxRecords
  proper : ∀ entry ∈ r.entries, Proper entry.id

theorem Ordered.nodup {log : List Bytes} {r : Records} (h : Ordered log r) : (r.entries.map (·.id)).Nodup := h.order.nodup log.nodup_dedup

/-- A later update is the last of its id. -/
theorem dedup_concat (log : List Bytes) (id : Bytes) : (log ++ [id]).dedup = (log.dedup.filter fun x => x != id) ++ [id] := by
  induction log with
  | nil => simp
  | cons x log ih =>
    rw [cons_append]
    by_cases hx : x ∈ log ++ [id]
    · rw [dedup_cons_of_mem hx, ih]
      rcases mem_append.mp hx with hl | hid
      · rw [dedup_cons_of_mem hl]
      rw [mem_singleton] at hid
      by_cases hl : x ∈ log
      · rw [dedup_cons_of_mem hl]
      · rw [dedup_cons_of_notMem hl, filter_cons_of_neg (by simp [hid])]
    · have hl : x ∉ log := fun h => hx (mem_append_left _ h)
      have hid : x ≠ id := fun h => hx (by simp [h])
      rw [dedup_cons_of_notMem hx, ih, dedup_cons_of_notMem hl, filter_cons_of_pos (by simp [hid]), cons_append]

/-- Fewer records in the same order. -/
theorem Ordered.of_sublist {log : List Bytes} {r r' : Records} (h : Ordered log r) (hs : r'.entries.Sublist r.entries) : Ordered log r' :=
  ⟨(hs.map _).trans h.order, hs.length_le.trans h.length_le, fun entry he => h.proper entry (hs.subset he)⟩

theorem Ordered.replace {log : List Bytes} {r : Records} (h : Ordered log r) {record : Record} (hp : Proper record.id) :
    Ordered (log ++ [record.id]) (r.apply (.replace record)).1 := by
  have hk : ∀ kept : List Record, kept.Sublist r.entries → (∀ entry ∈ kept, entry.id ≠ record.id) →
      kept.length < maxRecords → (r.apply (.replace record)).1.entries = kept ++ [record] →
      Ordered (log ++ [record.id]) (r.apply (.replace record)).1 := by
    intro kept hs hne hl heq
    refine ⟨?_, ?_, ?_⟩
    · rw [heq, dedup_concat, map_append]
      refine .append ?_ (.refl _)
      have hf : (kept.map (·.id)).filter (fun x => x != record.id) = kept.map (·.id) := by
        refine filter_eq_self.mpr fun x hx => ?_
        obtain ⟨entry, he, rfl⟩ := mem_map.mp hx
        exact bne_iff_ne.mpr (hne entry he)
      rw [← hf]
      exact ((hs.map _).trans h.order).filter _
    · rw [heq, length_append]
      exact hl
    · intro entry he
      rw [heq] at he
      rcases mem_append.mp he with he | he
      · exact h.proper entry (hs.subset he)
      · rw [mem_singleton.mp he]
        exact hp
  have hents := replace_entries h.nodup record
  have hle := h.length_le
  split_ifs at hents with hkeep
  · refine hk _ (filter_sublist) (fun entry he => by simpa using (mem_filter.mp he).2) ?_ hents
    rcases hkeep with hm | hfu
    · obtain ⟨entry, he, hid⟩ := mem_map.mp hm
      have : (r.entries.filter fun entry => entry.id != record.id).length < r.entries.length :=
        length_filter_lt_length_iff_exists.mpr ⟨entry, he, by simp [hid]⟩
      omega
    · have := length_filter_le (fun entry : Record => entry.id != record.id) r.entries
      omega
  · rw [not_or, not_not] at hkeep
    refine hk _ (tail_sublist _) (fun entry he hid => ?_) ?_ hents
    · rw [← hid] at hkeep
      exact hkeep.1 (mem_map_of_mem (mem_of_mem_tail he))
    · rw [length_tail, hkeep.2, maxRecords]
      omega

theorem run_ordered (base64 : Bytes → Option Bytes) (ops : List Op) : Ordered (updates base64 ops) (run base64 ops) := by
  induction ops using reverseRecOn with
  | nil => exact ⟨by simp [run, updates], by simp [run], by simp [run]⟩
  | append_singleton ops op ih =>
    have hr : run base64 (ops ++ [op]) = (run base64 ops).step base64 op := by simp [run]
    rw [hr, updates, filterMap_append, ← updates]
    cases op with
    | report body =>
      cases hps : parse base64 body with
      | none => simpa [step, hps, updated] using ih
      | some report =>
        cases report with
        | query => simpa [step, hps, apply, updated] using ih
        | clear id =>
          have hs : ((run base64 ops).apply (.clear id)).1.entries.Sublist (run base64 ops).entries := filter_sublist
          simpa [step, hps, updated] using ih.of_sublist hs
        | replace record => simpa [step, hps, updated] using ih.replace (parse_proper hps)
    | commandEnded =>
      have hs : (run base64 ops).commandEnded.1.entries.Sublist (run base64 ops).entries := filter_sublist
      simpa [step, filterMap_cons, updated] using ih.of_sublist hs
    | acknowledgeResults =>
      have hi : (run base64 ops).acknowledgeResults.1.entries.map (·.id) = (run base64 ops).entries.map (·.id) := by
        rw [acknowledgeResults, map_map]
        refine map_congr_left fun entry _ => ?_
        simp only [Function.comp]
        split <;> rfl
      have hl : (run base64 ops).acknowledgeResults.1.entries.length = (run base64 ops).entries.length := by
        simp [acknowledgeResults]
      refine ⟨by simpa [step, hi, filterMap_cons, updated] using ih.order, hl ▸ ih.length_le, fun entry he => ?_⟩
      have hid : entry.id ∈ (run base64 ops).entries.map (·.id) := hi ▸ mem_map_of_mem he
      obtain ⟨other, ho, hoid⟩ := mem_map.mp hid
      exact hoid ▸ ih.proper other ho
    | reset => exact ⟨by simp [step, reset], by simp [step, reset], by simp [step, reset]⟩

/-- **After any run the ids are unique, at most 256, and in the order of their last updates; a report evicts
only the least recently updated record of a full list, clearing an id takes exactly its subtree, and a record
has the app of the nearest record at or above it that has one.** -/
theorem records_are_a_bounded_tree (base64 : Bytes → Option Bytes) (ops : List Op) :
    ((run base64 ops).entries.map (·.id)).Nodup ∧ (run base64 ops).entries.length ≤ 256 ∧
      ((run base64 ops).entries.map (·.id)).Sublist (updates base64 ops).dedup ∧
      (∀ record, ((run base64 ops).apply (.replace record)).1.entries =
        (if record.id ∈ (run base64 ops).entries.map (·.id) ∨ (run base64 ops).entries.length ≠ 256
          then (run base64 ops).entries.filter fun entry => entry.id != record.id
          else (run base64 ops).entries.tail) ++ [record]) ∧
      (∀ id, ((run base64 ops).apply (.clear id)).1.entries
        = (run base64 ops).entries.filter fun entry => !decide (path id <+: path entry.id)) ∧
      ∀ record ∈ (run base64 ops).entries, ∀ app,
        (run base64 ops).appFor record = some app ↔ Inherits (run base64 ops).entries (path record.id) app := by
  have h := run_ordered base64 ops
  refine ⟨h.nodup, h.length_le, h.order, fun record => replace_entries h.nodup record, fun id => clear_entries _ id, ?_⟩
  intro record hm app
  exact appFor_spec h.nodup rfl hm (h.proper record hm)

end Records

end Pebrel.Terminal.ProgramStatus
