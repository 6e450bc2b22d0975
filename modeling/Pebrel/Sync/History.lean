import Pebrel.Sync.Merge

/-!
# The history files

The files of the local command history, as the sync reads and rewrites them
(`sync.rs`, `nebula_history.rs`). There is one file for each category of
records; the sync reads the newest valid records of all of them, and writes back
what comes out of the merge, each record to the file of its category.

What is written back is what was merged, and that is cut to the newest lines:
`writeHistory` replaces the files by it, so a record that was not among them is
gone, and so are those of a file that could not be read. `keeps_writeHistory_iff` says
when a merge keeps all records of the files.
-/

namespace Pebrel.Sync

open Library List Option Text

/-- The history files, in the order of `history_file_names`. -/
inductive HistoryFile where
  | local
  | wsl
  | ssh
  deriving DecidableEq

def historyFileNames : List HistoryFile := [.local, .wsl, .ssh]

/-- What a history file holds. -/
structure HistoryText where
  /-- The lines that are text. -/
  text : Text
  /-- All of it is text, and `read_to_string` reads it. -/
  readable : Bool

abbrev HistoryFiles := HistoryFile → HistoryText

variable [JsonText]

/-- `record_category_file`: the file a record belongs to, or nothing for a line that is not a
valid record. -/
def recordCategoryFile (line : Text) : Option HistoryFile := do
  let value ← fromStr line
  let cmd ← (← value.get? "cmd".toList).asStr
  if Text.trim cmd = [] then none
  else
    match value.get? "scope".toList with
    | none => some .local
    | some scope =>
      let target ← (← value.get? "target".toList).asStr
      if Text.trim target = [] then none
      else
        let scope ← scope.asStr
        if scope = "wsl".toList then some .wsl else if scope = "ssh".toList then some .ssh else none

/-- The valid records in some texts, one for each history file. -/
def validRecords (texts : HistoryFile → Text) : List Text :=
  historyFileNames.flatMap fun file => (Text.lines (texts file)).filter fun line => (recordCategoryFile line).isSome

/-- The valid records in the history files, file by file. -/
def records (files : HistoryFiles) : List Text := validRecords fun file => (files file).text

/-- `read_to_string(..).unwrap_or_default()`. -/
def readHistory (files : HistoryFiles) (file : HistoryFile) : Text := if (files file).readable then (files file).text else []

/-- `history_tail`: the newest records of the files that can be read. -/
def historyTail (files : HistoryFiles) : List Text := newestLines (sortByTs (validRecords (readHistory files)))

theorem validRecords_readHistory {files : HistoryFiles} (h : ∀ file, (files file).readable = true) :
    validRecords (readHistory files) = records files := by
  rw [records]
  exact congrArg validRecords (funext fun file => if_pos (h file))

/-- `write_history`: every record is written to the file of its category. -/
def writeHistory (lines : List Text) : HistoryFiles := fun file =>
  let text := ['\n'].intercalate (lines.filter fun line => recordCategoryFile line = some file)
  ⟨if text ≠ [] then text ++ ['\n'] else text, true⟩

/-- The part of `apply_local` for the history: the files are rewritten if the merged history is
not what they hold. -/
def applyHistory (merged : List Text) (files : HistoryFiles) : HistoryFiles :=
  if merged ≠ historyTail files then writeHistory merged else files

/-- All records of the files are in the files after. -/
def Keeps (files after : HistoryFiles) : Prop := ∀ record ∈ records files, record ∈ records after

/-! ### What is written is read back -/

theorem recordCategoryFile_nil : recordCategoryFile [] = none := by
  unfold recordCategoryFile
  rw [fromStr_nil]
  rfl

omit [JsonText] in
theorem intercalate_newline {lines : List Text} (h : lines ≠ []) : ['\n'].intercalate lines ++ ['\n'] = Text.unlines lines := by
  induction lines with
  | nil => exact absurd rfl h
  | cons line lines ih =>
    cases lines with
    | nil =>
      rw [intercalate_singleton]
      exact (append_nil _).symm
    | cons next lines =>
      rw [intercalate_cons_cons, append_assoc, append_assoc, ih (cons_ne_nil _ _)]
      simp only [unlines, flatMap_cons, append_assoc]

/-- The text of a history file: its records one a line. -/
theorem writeHistory_eq (lines : List Text) (file : HistoryFile) :
    (writeHistory lines file).text = Text.unlines (lines.filter fun line => recordCategoryFile line = some file) := by
  have hl : ∀ line ∈ lines.filter (fun line => recordCategoryFile line = some file), line ≠ [] := by
    rintro line hm rfl
    have hf := of_decide_eq_true (mem_filter.mp hm).2
    rw [recordCategoryFile_nil] at hf
    cases hf
  unfold writeHistory
  generalize lines.filter (fun line => recordCategoryFile line = some file) = written at hl
  cases written with
  | nil => rfl
  | cons line rest =>
    have hne : ['\n'].intercalate (line :: rest) ≠ [] := by
      cases rest with
      | nil =>
        rw [intercalate_singleton]
        exact hl line mem_cons_self
      | cons next rest =>
        rw [intercalate_cons_cons]
        exact append_ne_nil_of_left_ne_nil (append_ne_nil_of_left_ne_nil (hl line mem_cons_self) _) _
    simp only
    rw [if_pos hne, intercalate_newline (cons_ne_nil line rest)]

theorem mem_records {files : HistoryFiles} {record : Text} :
    record ∈ records files ↔ (∃ file, record ∈ Text.lines (files file).text) ∧ (recordCategoryFile record).isSome := by
  have hn : ∀ file, file ∈ historyFileNames := fun file => by cases file <;> decide
  rw [records, validRecords, mem_flatMap]
  constructor
  · rintro ⟨file, -, hm⟩
    obtain ⟨hl, hv⟩ := mem_filter.mp hm
    exact ⟨⟨file, hl⟩, hv⟩
  · rintro ⟨⟨file, hl⟩, hv⟩
    exact ⟨file, hn file, mem_filter.mpr ⟨hl, hv⟩⟩

/-- A record is in rewritten files just when a valid line that was written is read back as it. -/
theorem mem_records_writeHistory {lines : List Text} {record : Text} : record ∈ records (writeHistory lines) ↔
      (recordCategoryFile record).isSome ∧ ∃ line ∈ lines, (recordCategoryFile line).isSome ∧ record ∈ Text.readBack line := by
  rw [mem_records, and_comm]
  refine and_congr_right fun _ => ?_
  constructor
  · rintro ⟨file, hm⟩
    rw [writeHistory_eq, lines_unlines, mem_flatMap] at hm
    obtain ⟨line, hl, hbk⟩ := hm
    obtain ⟨hl, hf⟩ := mem_filter.mp hl
    exact ⟨line, hl, isSome_of_mem (of_decide_eq_true hf), hbk⟩
  · rintro ⟨line, hl, hv, hbk⟩
    obtain ⟨file, hf⟩ := isSome_iff_exists.mp hv
    refine ⟨file, ?_⟩
    rw [writeHistory_eq, lines_unlines, mem_flatMap]
    exact ⟨line, mem_filter.mpr ⟨hl, decide_eq_true hf⟩, hbk⟩

/-! ### What a merge keeps -/

/-- The lines that a merge unites, in the order in which it meets them. -/
def united (here remote : SyncPayload) : List Text :=
  distinct ((newerOlder here remote).2.history ++ (newerOlder here remote).1.history)

/-- A record is read back from a valid line that has fewer than the cap of later ones: lines with
a later time, or with the same time and met later. -/
def AmongNewest (union : List Text) (record : Text) : Prop :=
  ∃ line ∈ union, (recordCategoryFile line).isSome ∧ (StableSort.later recordTs union line).length < historySyncCap ∧
    record ∈ Text.readBack line

theorem mem_newestLines_iff {union : List Text} (hnd : union.Nodup) {line : Text} : line ∈ newestLines (sortByTs union) ↔
      line ∈ union ∧ (StableSort.later recordTs union line).length < historySyncCap := by
  constructor
  · intro h
    have hm : line ∈ union := (StableSort.perm_sortByKey _ _).mem_iff.mp (mem_of_mem_drop h)
    exact ⟨hm, (StableSort.mem_drop_sortByKey_iff recordTs hnd hm _).mp h⟩
  · rintro ⟨hm, hl⟩
    exact (StableSort.mem_drop_sortByKey_iff recordTs hnd hm _).mpr hl

/-- Rewritten files have all records of other ones just when each of them is among the newest
lines that were merged. -/
theorem keeps_writeHistory_iff (files : HistoryFiles) (here remote : SyncPayload) : Keeps files (writeHistory (merge here remote).history) ↔
      ∀ record ∈ records files, AmongNewest (united here remote) record := by
  have hhist : (merge here remote).history = newestLines (sortByTs (united here remote)) := by
    rw [merge, mergeOver, mergeHistory, united]
  have hm : ∀ line, line ∈ (merge here remote).history ↔
      line ∈ united here remote ∧ (StableSort.later recordTs (united here remote) line).length < historySyncCap := by
    intro line
    rw [hhist]
    exact mem_newestLines_iff (nodup_distinct _)
  refine forall₂_congr fun record hr => ?_
  rw [mem_records_writeHistory]
  constructor
  · rintro ⟨-, line, hl, hv, hbk⟩
    obtain ⟨hu, hlat⟩ := (hm line).mp hl
    exact ⟨line, hu, hv, hlat, hbk⟩
  · rintro ⟨line, hu, hv, hlat, hbk⟩
    exact ⟨(mem_records.mp hr).2, line, (hm line).mpr ⟨hu, hlat⟩, hv, hbk⟩

end Pebrel.Sync
