import Pebrel.Sync.History
import Pebrel.Sync.Settings

/-!
# Pulling and pushing

What a pull and a push do to the files of a device (`sync.rs`). Both take a
snapshot of the files and, if the remote file is there, merge it with the
snapshot and write the result back. A push then uploads the result under a new
stamp; if the remote file was changed in between, it merges once more and
uploads again.

The cap of the history limits what is uploaded, but what was merged is also
what the history files are rewritten with: `sync_keeps_records_iff` says for
which records that is no loss.
-/

namespace Pebrel.Sync

open Library List Option Text

section
variable [ToLowercase] [JsonText]

/-- The files of a device that the sync reads and writes. -/
structure Device where
  settings : Text
  history : HistoryFiles

/-- `local_payload`: a snapshot of the files, stamped with the current time. -/
def localPayload (now : ℕ) (name : Text) (d : Device) : SyncPayload :=
  payloadFromSettingsText now name d.settings (historyTail d.history)

/-- `apply_local`: write a merged payload to the files. -/
def applyLocal (merged : SyncPayload) (current : Text) (d : Device) : Device where
  settings := if applyToSettingsText merged current ≠ current then applyToSettingsText merged current else d.settings
  history := applyHistory merged.history d.history

/-- Merge what was fetched, if anything was, into a payload and the files. -/
def mergeInto (here : SyncPayload) (remote : Option SyncPayload) (d : Device) : SyncPayload × Device :=
  match remote with
  | none => (here, d)
  | some remote => (merge here remote, applyLocal (merge here remote) d.settings d)

def pull (now : ℕ) (name : Text) (remote : Option SyncPayload) (d : Device) : Device :=
  (mergeInto (localPayload now name d) remote d).2

/-- `push` up to the upload: the payload to upload and the files. -/
def pushStart (now stamp : ℕ) (name : Text) (remote : Option SyncPayload) (d : Device) : SyncPayload × Device :=
  ({ (mergeInto (localPayload now name d) remote d).1 with modified := stamp, device := name },
    (mergeInto (localPayload now name d) remote d).2)

/-- The files after a push; `retry` is what was fetched again, if the remote file was changed in
between. -/
def push (now stamp : ℕ) (name : Text) (remote : Option SyncPayload) (retry : Option (Option SyncPayload)) (d : Device) :
    Device :=
  match retry with
  | none => (pushStart now stamp name remote d).2
  | some fresh => (mergeInto (pushStart now stamp name remote d).1 fresh (pushStart now stamp name remote d).2).2

/-! ### Records that are kept -/

/-- The lines united by a merge that rewrites the history files. -/
def rewriteUnion (here : SyncPayload) (remote : Option SyncPayload) (files : HistoryFiles) : Option (List Text) :=
  remote.bind fun remote => if (merge here remote).history ≠ historyTail files then some (united here remote) else none

/-- The lines united by the last merge of a push that rewrites the history files. -/
def pushUnion (now stamp : ℕ) (name : Text) (remote : Option SyncPayload) (retry : Option (Option SyncPayload))
    (d : Device) : Option (List Text) :=
  (retry.bind fun fresh =>
    rewriteUnion (pushStart now stamp name remote d).1 fresh (pushStart now stamp name remote d).2.history).or
    (rewriteUnion (localPayload now name d) remote d.history)

omit [ToLowercase] in
/-- What one merge keeps of the records of some files: what is among the newest lines, if it
rewrites the files, and all that was kept before, if it does not. -/
theorem keeps_mergeInto_iff (files : HistoryFiles) (here : SyncPayload) (remote : Option SyncPayload) (d : Device) :
    Keeps files (mergeInto here remote d).2.history ↔
      match rewriteUnion here remote d.history with
      | some union => ∀ record ∈ records files, AmongNewest union record
      | none => Keeps files d.history := by
  cases remote with
  | none => exact .rfl
  | some remote =>
    unfold rewriteUnion
    rw [bind_some]
    have hhist : (mergeInto here (some remote) d).2.history = applyHistory (merge here remote).history d.history := rfl
    rw [hhist, applyHistory]
    by_cases hrw : (merge here remote).history ≠ historyTail d.history
    · rw [if_pos hrw, if_pos hrw]
      exact keeps_writeHistory_iff files here remote
    · rw [if_neg hrw, if_neg hrw]

omit [ToLowercase] in
theorem keeps_refl (files : HistoryFiles) : Keeps files files := fun _ h => h

/-- **Records are kept** by a pull or a push just when each of them is among the newest lines
of the last merge that rewrote the history files. -/
theorem sync_keeps_records_iff (now stamp : ℕ) (name : Text) (remote : Option SyncPayload)
    (retry : Option (Option SyncPayload)) (d : Device) :
    (Keeps d.history (pull now name remote d).history ↔
      ∀ union ∈ rewriteUnion (localPayload now name d) remote d.history, ∀ record ∈ records d.history,
        AmongNewest union record) ∧
    (Keeps d.history (push now stamp name remote retry d).history ↔
      ∀ union ∈ pushUnion now stamp name remote retry d, ∀ record ∈ records d.history, AmongNewest union record) := by
  have hfst : Keeps d.history (mergeInto (localPayload now name d) remote d).2.history ↔
      ∀ union ∈ rewriteUnion (localPayload now name d) remote d.history, ∀ record ∈ records d.history, AmongNewest union record := by
    rw [keeps_mergeInto_iff]
    cases rewriteUnion (localPayload now name d) remote d.history with
    | none => exact iff_of_true (keeps_refl d.history) fun union hmem => by cases hmem
    | some union => simp only [mem_some_iff, forall_eq']
  refine ⟨hfst, ?_⟩
  unfold push pushUnion
  cases retry with
  | none =>
    rw [bind_none, none_or]
    exact hfst
  | some fresh =>
    rw [bind_some]
    simp only
    rw [keeps_mergeInto_iff]
    cases rewriteUnion (pushStart now stamp name remote d).1 fresh (pushStart now stamp name remote d).2.history with
    | none =>
      rw [none_or]
      exact hfst
    | some union => simp only [some_or, mem_some_iff, forall_eq']

end

/-! ### A full history -/

section

local instance commandCase : ToLowercase := .ascii

def commandOpen : Text := "\x7b\"cmd\":\"".toList

def commandClose : Text := "\"\x7d".toList

/-- A record with a command of letters only and no time. -/
def commandLine (cmd : Text) : Text := commandOpen ++ cmd ++ commandClose

/-- A record that is newer than those. -/
def timedLine : Text := "\x7b\"ts\":5,\"cmd\":\"b\"\x7d".toList

/-- The JSON of these two kinds of records. -/
def commandJson (line : Text) : Option Json :=
  let cmd := (line.drop 8).take (line.length - 10)
  if line = timedLine then some (.object [("ts".toList, .int 5), ("cmd".toList, .string "b".toList)])
  else if line = commandLine cmd ∧ cmd.all Char.isAlpha = true then some (.object [("cmd".toList, .string cmd)])
  else none

local instance commandJsonText : JsonText := ⟨commandJson, by decide⟩

/-- The record with a command of so many letters. -/
def longCommand (n : ℕ) : Text := commandLine (.replicate (n + 1) 'a')

/-- A device with one record more than the cap. -/
def fullDevice : Device where
  settings := []
  history
    | .local => ⟨Text.unlines ((List.range (historySyncCap + 1)).map longCommand), true⟩
    | _ => ⟨[], true⟩

/-- A remote payload with one new record. -/
def oneRecord : SyncPayload := ⟨9, [], [], [], [timedLine]⟩

theorem mem_longCommand {c : Char} {n : ℕ} (h : c ∈ longCommand n) : c ∈ commandLine ['a'] := by
  rcases mem_append.mp h with h | h
  · rcases mem_append.mp h with h | h
    · exact mem_append_left _ (mem_append_left _ h)
    · rw [(mem_replicate.mp h).2]
      exact mem_append_left _ (mem_append_right _ mem_cons_self)
  · exact mem_append_right _ h

theorem longCommand_ne_timedLine (n : ℕ) : longCommand n ≠ timedLine := fun h =>
  absurd (mem_longCommand (show 't' ∈ longCommand n from h ▸ by decide)) (by decide)

theorem length_longCommand (n : ℕ) : (longCommand n).length = 8 + (n + 1) + 2 := by
  have ho : commandOpen.length = 8 := by decide
  have hcl : commandClose.length = 2 := by decide
  rw [longCommand, commandLine, length_append, length_append, length_replicate, ho, hcl]

theorem commandJson_longCommand (n : ℕ) :
    commandJson (longCommand n) = some (.object [("cmd".toList, .string (List.replicate (n + 1) 'a'))]) := by
  have ho : commandOpen.length = 8 := by decide
  have hdr : (longCommand n).drop 8 = replicate (n + 1) 'a' ++ commandClose := by
    rw [longCommand, commandLine, append_assoc]
    exact drop_left' ho
  have hc : ((longCommand n).drop 8).take ((longCommand n).length - 10) = replicate (n + 1) 'a' := by
    rw [hdr, length_longCommand]
    exact take_left' (by rw [length_replicate]; omega)
  unfold commandJson
  simp only
  rw [hc, if_neg (longCommand_ne_timedLine n), if_pos]
  exact ⟨rfl, by simp⟩

theorem readBack_longCommand (n : ℕ) : Text.readBack (longCommand n) = [longCommand n] := by
  have hnl : '\n' ∉ longCommand n := fun h => absurd (mem_longCommand h) (by decide)
  have hcr : (longCommand n).getLast? ≠ some '\r' := fun h =>
    absurd (mem_longCommand (mem_of_getLast? h)) (by decide)
  rw [readBack_of_not_mem hnl, stripCr_of_ne hcr]

theorem recordCategoryFile_longCommand (n : ℕ) : recordCategoryFile (longCommand n) = some .local := by
  have hps : fromStr (longCommand n) = some (.object [("cmd".toList, .string (replicate (n + 1) 'a'))]) := commandJson_longCommand n
  have htrim : trim (replicate (n + 1) 'a') ≠ [] :=
    ne_nil_of_mem (mem_trim_of_mem (mem_replicate.mpr ⟨Nat.succ_ne_zero n, rfl⟩) (by decide))
  have hc : Json.get? (.object [("cmd".toList, .string (replicate (n + 1) 'a'))]) "cmd".toList =
      some (.string (replicate (n + 1) 'a')) := rfl
  have hs : Json.get? (.object [("cmd".toList, .string (replicate (n + 1) 'a'))]) "scope".toList = none := rfl
  unfold recordCategoryFile
  rw [hps]
  simp only [bind_eq_bind, bind_some, hc, hs, Json.asStr]
  rw [if_neg htrim]

theorem recordTs_longCommand (n : ℕ) : recordTs (longCommand n) = 0 := by
  have hps : fromStr (longCommand n) = some (.object [("cmd".toList, .string (replicate (n + 1) 'a'))]) := commandJson_longCommand n
  unfold recordTs
  rw [hps]
  rfl

theorem longCommand_injective : Function.Injective longCommand := by
  intro m n h
  have hl := congrArg length h
  rw [length_longCommand, length_longCommand] at hl
  omega

/-- The records of a full history, oldest first. -/
def fullRecords : List Text := (List.range (historySyncCap + 1)).map longCommand

theorem length_fullRecords : fullRecords.length = historySyncCap + 1 := by
  rw [fullRecords, length_map, length_range]

theorem nodup_fullRecords : fullRecords.Nodup := nodup_range.map longCommand_injective

theorem records_fullDevice : records fullDevice.history = fullRecords := by
  have hls : Text.lines (fullDevice.history .local).text = fullRecords := by
    show Text.lines (unlines _) = _
    rw [lines_unlines, flatMap_map, fullRecords, map_eq_flatMap]
    exact flatMap_congr fun n _ => readBack_longCommand n
  have hv : fullRecords.filter (fun line => (recordCategoryFile line).isSome) = fullRecords := by
    rw [filter_eq_self]
    intro line hl
    obtain ⟨n, -, rfl⟩ := List.mem_map.mp hl
    rw [recordCategoryFile_longCommand]
    rfl
  have hr : records fullDevice.history =
      (Text.lines (fullDevice.history .local).text).filter (fun line => (recordCategoryFile line).isSome) ++ ([] ++ []) := rfl
  rw [hr, hls, hv, append_nil, append_nil]

/-- The records have no times, so they are sorted as they stand, and the tail lacks the oldest. -/
theorem historyTail_fullDevice : historyTail fullDevice.history = fullRecords.drop 1 := by
  have hts : ∀ line ∈ fullRecords, recordTs line = 0 := by
    intro line hl
    obtain ⟨n, -, rfl⟩ := List.mem_map.mp hl
    exact recordTs_longCommand n
  have hsort : fullRecords.Pairwise fun a b => recordTs a ≤ recordTs b :=
    pairwise_of_forall_mem_list fun a ha b hb => by rw [hts a ha, hts b hb]
  have hr : ∀ file, (fullDevice.history file).readable = true := fun file => by cases file <;> rfl
  rw [historyTail, validRecords_readHistory hr, records_fullDevice, sortByTs, StableSort.sortByKey_eq_self recordTs hsort, newestLines,
    length_fullRecords, Nat.add_sub_cancel_left]

theorem longCommand_zero_not_mem_tail : longCommand 0 ∉ fullRecords.drop 1 := by
  have hcons : fullRecords = longCommand 0 :: fullRecords.drop 1 := by
    rw [fullRecords, range_succ_eq_map, map_cons, drop_succ_cons, drop_zero]
  have hnd := nodup_fullRecords
  rw [hcons, nodup_cons] at hnd
  exact hnd.1

/-- The oldest record of a full history is lost by pulling a newer one. -/
theorem pull_loses_record : ¬ Keeps fullDevice.history (pull 10 [] (some oneRecord) fullDevice).history := by
  have huni : united (localPayload 10 [] fullDevice) oneRecord = distinct (timedLine :: fullRecords.drop 1) := by
    rw [← historyTail_fullDevice]
    rfl
  have hlat : StableSort.later recordTs (distinct (timedLine :: fullRecords.drop 1)) timedLine = [] := by
    unfold StableSort.later
    rw [filter_eq_nil_iff]
    intro line hl hlat
    rw [mem_distinct] at hl
    rcases mem_cons.mp hl with rfl | htl
    · simp at hlat
    obtain ⟨n, -, rfl⟩ := List.mem_map.mp (mem_of_mem_drop htl)
    have hts : recordTs timedLine = 5 := by decide
    rw [recordTs_longCommand, hts] at hlat
    simp at hlat
  have hmer : timedLine ∈ (merge (localPayload 10 [] fullDevice) oneRecord).history := by
    have hhist : (merge (localPayload 10 [] fullDevice) oneRecord).history =
        newestLines (sortByTs (united (localPayload 10 [] fullDevice) oneRecord)) := by
      rw [merge, mergeOver, mergeHistory, united]
    rw [hhist, huni, mem_newestLines_iff (nodup_distinct _), hlat]
    exact ⟨mem_distinct.mpr mem_cons_self, by rw [historySyncCap]; decide⟩
  have hnot : timedLine ∉ historyTail fullDevice.history := by
    rw [historyTail_fullDevice]
    intro h
    obtain ⟨n, -, hn⟩ := List.mem_map.mp (mem_of_mem_drop h)
    exact longCommand_ne_timedLine n hn
  have hrw : rewriteUnion (localPayload 10 [] fullDevice) (some oneRecord) fullDevice.history =
      some (united (localPayload 10 [] fullDevice) oneRecord) := by
    rw [rewriteUnion, bind_some, if_pos]
    intro heq
    exact hnot (heq ▸ hmer)
  intro hkp
  have hrec : longCommand 0 ∈ records fullDevice.history := by
    rw [records_fullDevice]
    exact List.mem_map_of_mem (mem_range.mpr (Nat.succ_pos _))
  obtain ⟨line, hl, -, -, hbk⟩ := (sync_keeps_records_iff 10 10 [] (some oneRecord) none fullDevice).1.mp hkp _ hrw _ hrec
  rw [huni, mem_distinct] at hl
  rcases mem_cons.mp hl with rfl | htl
  · exact absurd hbk (by decide)
  · obtain ⟨n, -, rfl⟩ := List.mem_map.mp (mem_of_mem_drop htl)
    rw [readBack_longCommand, mem_singleton] at hbk
    exact longCommand_zero_not_mem_tail (hbk ▸ htl)

end

end Pebrel.Sync
