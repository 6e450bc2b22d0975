import Pebrel.Backup.Listing
import Pebrel.Library.Ranking
import Mathlib.Data.List.Destutter
import Mathlib.Data.Char

/-!
# Retention of remote archives

After an archive has been sent, the remote place is asked for its names, and all
but the newest ten archives are deleted (`prune`, `backup_remote.rs`). The other
readers of such a list (`snapshots`, `snapshot_details`) drop repeated entries;
`prune` counts the entries as they come.

## The model

A remote place is the list of names it answers with and, for every name after
every sequence of deletes, the error it answers a delete with, if any.
-/

namespace Pebrel.Backup

open Library List Option
open Decimal Ranking

def keepArchives : ℕ := 10

/-- The order of `sort_archives`: by the time stamp, texts without one first, and then by the name. -/
def archiveLe (left right : Text) : Bool :=
  match archiveTimestamp left, archiveTimestamp right with
  | some t, some u => t < u || t = u && left ≤ right
  | some _, none => false
  | none, some _ => true
  | none, none => left ≤ right

def sortArchives (names : List Text) : List Text := names.insertionSort fun left right => archiveLe left right

/-- The deletes of a list of names, up to the first that fails: the names deleted and the error. -/
def deleteAll (refuses : List Text → Text → Option Text) (done : List Text) : List Text → List Text × Option Text
  | [] => (done, none)
  | name :: names =>
    match refuses done name with
    | some err => (done, some err)
    | none => deleteAll refuses (done ++ [name]) names

/-- `prune`: the names deleted, and the number of archives that are kept. -/
def prune (refuses : List Text → Text → Option Text) (list : Except Text (List Text)) : List Text × Except Text ℕ :=
  match list with
  | .error err => ([], .error err)
  | .ok listing =>
    let names := sortArchives (listing.filter isArchiveName)
    let excess := names.length - keepArchives
    match deleteAll refuses [] (names.take excess) with
    | (done, some err) => (done, .error err)
    | (done, none) => (done, .ok (names.length - excess))

/-! ### The newest archives -/

/-- The archives that a listing has. -/
def archives (listing : List Text) : List Text := listing.filter isArchiveName

/-- The time stamp of an archive. -/
def stampOf (name : Text) : Text := (archiveTimestamp name).getD []

/-- The archives of a listing that are later than one. -/
def laterArchives (listing : List Text) (name : Text) : List Text :=
  (archives listing).dedup.filter fun other => stampOf name < stampOf other

/-- The newest archives of a listing: those with fewer than `keepArchives` later ones. -/
def newest (listing : List Text) : List Text :=
  (archives listing).dedup.filter fun name => (laterArchives listing name).length < keepArchives

/-- A listing is pruned as intended: only archives are deleted, none of the newest, and all others unless a delete
fails; and no archive that has the latest time stamp. -/
structure Retained (refuses : List Text → Text → Option Text) (listing : List Text) : Prop where
  archives_only : ∀ name ∈ (prune refuses (.ok listing)).1, isArchiveName name = true
  keeps : ∀ name ∈ newest listing, name ∉ (prune refuses (.ok listing)).1
  deletes : ∀ kept, (prune refuses (.ok listing)).2 = .ok kept →
    ∀ name ∈ archives listing, name ∉ newest listing → name ∈ (prune refuses (.ok listing)).1
  pushed : ∀ name ∈ archives listing, (∀ other ∈ archives listing, stampOf other ≤ stampOf name) →
    name ∉ (prune refuses (.ok listing)).1

variable {refuses : List Text → Text → Option Text} {listing names : List Text} {name other : Text}

/-! ### The order of the archives -/

theorem mem_archives : name ∈ archives listing ↔ name ∈ listing ∧ isArchiveName name = true := mem_filter

/-- An archive is its time stamp between the two parts of a name. -/
theorem eq_of_isArchiveName (h : isArchiveName name = true) :
    archiveTimestamp name = some (stampOf name) ∧ name = archiveStart ++ stampOf name ++ archiveSuffix ∧ (stampOf name).length = 15 := by
  obtain ⟨t, ht⟩ := isSome_iff_exists.1 h
  obtain ⟨hnm, hs⟩ := archiveTimestamp_eq_some.1 ht
  have hstam : stampOf name = t := by rw [stampOf, ht, getD_some]
  rw [hstam]
  exact ⟨ht, hnm, length_of_isStamp hs⟩

/-- Archives are ordered by their names as by their time stamps. -/
theorem stampOf_lt_iff (h : isArchiveName name = true) (h' : isArchiveName other = true) : stampOf name < stampOf other ↔ name < other := by
  obtain ⟨-, hnm, hl⟩ := eq_of_isArchiveName h
  obtain ⟨-, ho, hl'⟩ := eq_of_isArchiveName h'
  have hmono : ∀ {s t : Text}, s.length = 15 → t.length = 15 → s < t →
      archiveStart ++ s ++ archiveSuffix < archiveStart ++ t ++ archiveSuffix := by
    intro s t hs ht hlt
    rw [append_assoc, append_assoc]
    exact append_left_lt (append_lt_append (hs.trans ht.symm) hlt _ _)
  constructor
  · intro hlt
    rw [hnm, ho]
    exact hmono hl hl' hlt
  · intro hlt
    rcases lt_trichotomy (stampOf name) (stampOf other) with h | h | h
    · exact h
    · rw [hnm, ho, h] at hlt
      exact absurd hlt (lt_irrefl _)
    · have hgt := hmono hl' hl h
      rw [← hnm, ← ho] at hgt
      exact absurd hlt hgt.not_gt

theorem archiveLe_total (left right : Text) : archiveLe left right = true ∨ archiveLe right left = true := by
  cases hl : archiveTimestamp left with
  | none =>
    cases hr : archiveTimestamp right with
    | none => simpa [archiveLe, hl, hr] using le_total left right
    | some u => simp [archiveLe, hl, hr]
  | some t =>
    cases hr : archiveTimestamp right with
    | none => simp [archiveLe, hl, hr]
    | some u =>
      simp only [archiveLe, hl, hr, Bool.or_eq_true, Bool.and_eq_true, decide_eq_true_eq]
      rcases lt_trichotomy t u with h | rfl | h
      · exact .inl (.inl h)
      · exact (le_total left right).imp (fun hle => .inr ⟨rfl, hle⟩) fun hle => .inr ⟨rfl, hle⟩
      · exact .inr (.inl h)

theorem archiveLe_trans {a b c : Text} (hab : archiveLe a b = true) (hbc : archiveLe b c = true) : archiveLe a c = true := by
  cases ha : archiveTimestamp a <;> cases hb : archiveTimestamp b <;> cases hc : archiveTimestamp c <;>
    simp only [archiveLe, ha, hb, hc, Bool.or_eq_true, Bool.and_eq_true, decide_eq_true_eq, Bool.false_eq_true] at hab hbc ⊢
  · exact hab.trans hbc
  rcases hab with hab | ⟨rfl, hab⟩
  · rcases hbc with hbc | ⟨rfl, -⟩
    · exact .inl (hab.trans hbc)
    · exact .inl hab
  · rcases hbc with hbc | ⟨rfl, hbc⟩
    · exact .inl hbc
    · exact .inr ⟨rfl, hab.trans hbc⟩

theorem perm_sortArchives (names : List Text) : (sortArchives names).Perm names := perm_insertionSort _ _

/-- Sorted archives are in the order of their names. -/
theorem sorted_archives (listing : List Text) : (sortArchives (archives listing)).Pairwise (· ≤ ·) := by
  have ht : Std.Total fun left right => archiveLe left right = true := ⟨archiveLe_total⟩
  have htra : IsTrans Text fun left right => archiveLe left right = true := ⟨fun _ _ _ => archiveLe_trans⟩
  have hsort : (sortArchives (archives listing)).Pairwise fun left right => archiveLe left right = true := pairwise_insertionSort _ _
  refine hsort.imp_of_mem fun {a b} ha hb hle => ?_
  have ha := (mem_archives.1 ((perm_sortArchives _).mem_iff.1 ha)).2
  have hb := (mem_archives.1 ((perm_sortArchives _).mem_iff.1 hb)).2
  simp only [archiveLe, (eq_of_isArchiveName ha).1, (eq_of_isArchiveName hb).1, Bool.or_eq_true, Bool.and_eq_true, decide_eq_true_eq] at hle
  rcases hle with hlt | ⟨-, hle⟩
  · exact ((stampOf_lt_iff ha hb).1 hlt).le
  · exact hle

/-! ### What is deleted -/

/-- The deletes are done in order, up to the first that fails. -/
theorem deleteAll_spec (refuses : List Text → Text → Option Text) (done names : List Text) :
    (∃ n, (deleteAll refuses done names).1 = done ++ names.take n) ∧
      ((deleteAll refuses done names).2 = none → (deleteAll refuses done names).1 = done ++ names) := by
  induction names generalizing done with
  | nil => exact ⟨⟨0, by simp [deleteAll]⟩, fun _ => by simp [deleteAll]⟩
  | cons name names ih =>
    cases hr : refuses done name with
    | some err =>
      simp only [deleteAll, hr, reduceCtorEq, false_imp_iff, and_true]
      exact ⟨0, by simp⟩
    | none =>
      obtain ⟨⟨n, htk⟩, ha⟩ := ih (done ++ [name])
      simp only [deleteAll, hr]
      exact ⟨⟨n + 1, by rw [htk]; simp⟩, fun hok => by rw [ha hok]; simp⟩

/-- The entries that are too many. -/
def excess (listing : List Text) : List Text :=
  (sortArchives (archives listing)).take ((sortArchives (archives listing)).length - keepArchives)

/-- What `prune` deletes is too many, and all of that if no delete fails. -/
theorem prune_spec (refuses : List Text → Text → Option Text) (listing : List Text) :
    (∀ name ∈ (prune refuses (.ok listing)).1, name ∈ excess listing) ∧
      ∀ kept, (prune refuses (.ok listing)).2 = .ok kept → (prune refuses (.ok listing)).1 = excess listing := by
  obtain ⟨⟨n, htk⟩, ha⟩ := deleteAll_spec refuses [] (excess listing)
  have hp : prune refuses (.ok listing) =
      match deleteAll refuses [] (excess listing) with
      | (done, some err) => (done, .error err)
      | (done, none) => (done, .ok ((sortArchives (archives listing)).length -
          ((sortArchives (archives listing)).length - keepArchives))) := rfl
  obtain ⟨⟨done, failed⟩, hdel⟩ : ∃ e, e = deleteAll refuses [] (excess listing) := ⟨_, rfl⟩
  rw [← hdel, nil_append] at htk ha
  rw [hp, ← hdel]
  cases failed with
  | some err =>
    simp only [reduceCtorEq, false_imp_iff, implies_true, and_true] at htk ⊢
    intro name hnm
    rw [htk] at hnm
    exact mem_of_mem_take hnm
  | none =>
    have hd : done = excess listing := ha rfl
    exact ⟨fun name hnm => hd ▸ hnm, fun _ _ => hd⟩

/-- A place that refuses nothing deletes all of it. -/
theorem prune_of_accepting (listing : List Text) : (prune (fun _ _ => none) (.ok listing)).1 = excess listing := by
  have hd : ∀ done names, deleteAll (fun _ _ => none) done names = (done ++ names, none) := by
    intro done names
    induction names generalizing done with
    | nil => simp [deleteAll]
    | cons name names ih => simp [deleteAll, ih]
  have hok := (prune_spec (fun _ _ => none) listing).2
  simp only [prune, hd] at hok ⊢
  exact hok _ rfl

/-- An archive is too many if more entries than are kept are not before it. -/
theorem mem_excess_iff (h : name ∈ archives listing) : name ∈ excess listing ↔ keepArchives < atLeast (archives listing) name :=
  mem_take_length_sub_iff (sorted_archives listing) (perm_sortArchives _) h keepArchives

theorem mem_archives_of_excess (h : name ∈ excess listing) : name ∈ archives listing := (perm_sortArchives _).mem_iff.1 (mem_of_mem_take h)

/-- The archives above one in the order of the names are the later ones. -/
theorem above_archives (h : name ∈ archives listing) : above (archives listing) name = laterArchives listing name := by
  rw [above, laterArchives]
  refine filter_congr fun other ho => ?_
  rw [mem_dedup] at ho
  rw [decide_eq_decide, stampOf_lt_iff (mem_archives.1 h).2 (mem_archives.1 ho).2]

theorem mem_newest_iff : name ∈ newest listing ↔ name ∈ archives listing ∧ (above (archives listing) name).length < keepArchives := by
  rw [newest, mem_filter, mem_dedup, decide_eq_true_eq]
  refine and_congr_right fun h => ?_
  rw [above_archives h]

/-- An archive with the latest time stamp is among the newest. -/
theorem mem_newest_of_latest (h : name ∈ archives listing) (hl : ∀ other ∈ archives listing, stampOf other ≤ stampOf name) :
    name ∈ newest listing := by
  have hn : laterArchives listing name = [] := by
    rw [laterArchives, filter_eq_nil_iff]
    intro other ho
    rw [mem_dedup] at ho
    simpa using hl other ho
  rw [mem_newest_iff, above_archives h, hn]
  exact ⟨h, by decide⟩

/-- No archive is counted twice among those that decide what is too many: at most ten entries are archives, or none of
the ten newest is repeated. -/
def CountedOnce (listing : List Text) : Prop :=
  (archives listing).length ≤ keepArchives ∨ ∀ name ∈ newest listing, (archives listing).count name = 1

/-- The newest are the `min n 10` newest of `n` archives. -/
theorem length_newest (listing : List Text) : (newest listing).length = min (archives listing).dedup.length keepArchives := by
  rw [← length_greatest]
  refine congrArg length (filter_congr fun name hnm => ?_)
  rw [above_archives (mem_dedup.1 hnm)]

/-- **Retention**: whatever a remote place refuses to delete, a listing is pruned to the `min n 10` newest archives just
if it has at most ten archives, repetitions counted, or repeats none of the ten newest. -/
theorem retained_iff (listing : List Text) :
    (newest listing).length = min (archives listing).dedup.length keepArchives ∧
      ((∀ refuses, Retained refuses listing) ↔ CountedOnce listing) := by
  refine ⟨length_newest listing, ?_⟩
  have hran := atLeast_le_iff (archives listing) keepArchives
  have hcou : CountedOnce listing ↔ ∀ name ∈ archives listing, (above (archives listing) name).length < keepArchives →
        atLeast (archives listing) name ≤ keepArchives := by
    rw [hran, CountedOnce]
    simp only [mem_newest_iff, and_imp]
    congr!
  rw [hcou]
  constructor
  · intro h name hnm hrank
    have hkp := (h fun _ _ => none).keeps name (mem_newest_iff.2 ⟨hnm, hrank⟩)
    rw [prune_of_accepting, mem_excess_iff hnm] at hkp
    exact not_lt.1 hkp
  · intro h refuses
    obtain ⟨honly, hall⟩ := prune_spec refuses listing
    have hkp : ∀ name ∈ newest listing, name ∉ (prune refuses (.ok listing)).1 := by
      intro name hnm hdel
      obtain ⟨hnm, hrank⟩ := mem_newest_iff.1 hnm
      exact absurd ((mem_excess_iff hnm).1 (honly name hdel)) (not_lt.2 (h name hnm hrank))
    refine ⟨fun name hnm => (mem_archives.1 (mem_archives_of_excess (honly name hnm))).2, hkp, ?_, ?_⟩
    · intro kept hok name hnm hold
      rw [hall kept hok, mem_excess_iff hnm]
      by_contra hfew
      refine hold (mem_newest_iff.2 ⟨hnm, ?_⟩)
      exact (above_lt_atLeast hnm).trans_le (not_lt.1 hfew)
    · exact fun name hnm hlst => hkp name (mem_newest_of_latest hnm hlst)

/-- Six archives, each of which a server lists twice. -/
def listedTwice : List Text :=
  (["20260801", "20260802", "20260803", "20260804", "20260805", "20260806"].map fun day =>
    "pebrel-backup-".toList ++ day.toList ++ "-000000.nbk".toList).flatMap fun name => [name, name]

/-- The oldest of them is deleted, although there are fewer than ten. -/
theorem listedTwice_not_retained :
    ¬Retained (fun _ _ => none) ((webdav (webdavAnswer listedTwice)).map (·.name)) := by
  have hlis : (webdav (webdavAnswer listedTwice)).map (·.name) = listedTwice := by decide +kernel
  rw [hlis]
  intro h
  refine h.keeps "pebrel-backup-20260801-000000.nbk".toList (by decide) ?_
  rw [prune_of_accepting]
  decide

end Pebrel.Backup
