import Pebrel.Library.FlatJson
import Pebrel.Suggestions.HistoryHints
import Pebrel.Suggestions.HistoryReload

/-!
# What holds of the history

A pool that commands were inserted into has the last of them, each once, with its
position and its uses since it came into the pool. It suggests by uses, and then by
position, and the files give it back (`nebula_history`). Only a start that is empty
has no hint, whatever there is (`hint_empty`).
-/

namespace Pebrel.Suggestions.History

open Library Sync List Option

/-- The commands that are in a pool after insertions. -/
def entriesAfter (cmds : List Text) : List Text := ((insertAll cmds).map HistoryIndex.entries).getD []

theorem entriesAfter_eq (cmds : List Text) : entriesAfter cmds = Recency.keys (Recency.run historyMax cmds) := by
  obtain ⟨h, ha, hr⟩ := insertAll_refines cmds
  rw [entriesAfter, ha, map_some, getD_some, hr.entries]

/-- A command came into the pool, stayed in it, and was used a number of times since. -/
def UsedSince (cmds : List Text) (cmd : Text) (uses : ℕ) : Prop :=
  ∃ before after, cmds = before ++ cmd :: after ∧ cmd ∉ entriesAfter before ∧
    (∀ mid, mid <+: after → cmd ∈ entriesAfter (before ++ cmd :: mid)) ∧ uses = after.countP (· = cmd) + 1

/-- What a pool is after insertions. -/
structure Mirrors (h : HistoryIndex) (cmds : List Text) : Prop where
  distinct : h.entries.Nodup
  few : h.entries.length ≤ historyMax
  recent : h.entries = Recency.lastN historyMax cmds.dedup
  indexed : ∀ cmd, cmd ∈ h.entries ↔ ∃ rank, h.index.get? cmd = some rank
  position : ∀ cmd rank, h.index.get? cmd = some rank → h.entries[rank.position]? = some cmd
  uses : ∀ cmd rank, h.index.get? cmd = some rank → ∃ uses, UsedSince cmds cmd uses ∧ rank.uses = min uses usesMax

theorem insertAll_mirrors {cmds : List Text} {h : HistoryIndex} (hr : Refines h (Recency.run historyMax cmds)) : Mirrors h cmds where
  distinct := hr.entries ▸ hr.nodup
  few := by
    have hf := hr.few
    rw [hr.entries, Recency.keys, length_map]
    exact hf
  recent := hr.entries.trans (Recency.keys_run historyMax cmds)
  indexed _ := hr.mem_entries
  position cmd rank hrank := by
    obtain ⟨uses, hl, -⟩ := (hr.ranks cmd rank).mp hrank
    rw [hr.entries, Recency.keys, getElem?_map, hl, map_some]
  uses cmd rank hrank := by
    obtain ⟨uses, hl, huses⟩ := (hr.ranks cmd rank).mp hrank
    obtain ⟨before, after, hsp, ho, hin, hc⟩ := Recency.uses_run (mem_of_getElem? hl)
    refine ⟨uses, ⟨before, after, hsp, ?_, fun mid hm => ?_, hc⟩, huses⟩
    · rw [entriesAfter_eq]
      exact ho
    · rw [entriesAfter_eq]
      exact hin mid hm

/-- A search in the history is one in the pool of the scope. -/
theorem search_of_pool {pools : Pools} {scope : HistoryScope} {h : HistoryIndex} {l : List (Text × ℕ)}
    (hpool : pools.get? scope.normalized = some h)
    (hr : Refines h l) (score : Text → Text → Option ℕ) (text : Text) (limit : ℕ) :
    ∃ out, Ranked h (fun cmd => Text.trim text ≠ [] ∧ cmd ≠ text ∧ (score text cmd).isSome = true) limit out ∧
      search score pools scope text limit = some out := by
  by_cases hbl : Text.trim text = []
  · refine ⟨[], ⟨[], fun cmd => ?_, .nil, take_nil.symm⟩, if_pos (.inl hbl)⟩
    simp [hbl]
  obtain ⟨out, ⟨all, hm, hsort, ho⟩, hs⟩ := search_ranked hr score text limit
  refine ⟨out, ⟨all, fun cmd => (hm cmd).trans (and_congr_right fun _ => (and_iff_right hbl).symm), hsort, ho⟩, ?_⟩
  rw [search, searchWithCancel]
  by_cases hl : limit = 0
  · rw [if_pos (.inr hl), ho, hl, take_zero]
  · rw [if_neg (not_or.mpr ⟨hbl, hl⟩)]
    simp only [hpool]
    exact hs

/-- **The history.** -/
theorem nebula_history [RecordJson] :
    (∀ cmds, ∃ h, insertAll cmds = some h ∧ Mirrors h cmds ∧
      ∀ pools scope, HistoryScope.normalized scope = scope → Assoc.Map.get? pools scope = some h →
        (∀ start, start ≠ [] → ∃ w, hint pools scope start = w.map Prod.snd ∧
          Wins (fun c => c.2 ≠ [] ∧ h.index.get? (start ++ c.2) = some c.1) w) ∧
        (∀ start limit, start ≠ [] → ∃ out, Ranked h (fun cmd => ∃ s, s ≠ [] ∧ cmd = start ++ s) limit out ∧
          hints pools scope start limit = out.map fun cmd => (cmd, cmd.drop start.length)) ∧
        ∀ score text limit, ∃ out, Ranked h (fun cmd => Text.trim text ≠ [] ∧ cmd ≠ text ∧ (score text cmd).isSome = true) limit out ∧
          search score pools scope text limit = some out) ∧
    ∀ submissions : List Submission, ∃ s pools, submissions.foldlM State.record .empty = some s ∧ load s.files = some pools ∧
      ∀ scope, scope.identity ≠ some [] → pools.get? scope = s.pools.get? scope := by
  refine ⟨fun cmds => ?_, reload⟩
  obtain ⟨h, hall, href⟩ := insertAll_refines cmds
  refine ⟨h, hall, insertAll_mirrors href, fun pools scope hnorm hpool => ⟨fun start hst => ?_, fun start limit hst => ?_, ?_⟩⟩
  · rw [hint, hnorm, hpool]
    exact hint_best hst
  · rw [hints, hnorm, hpool]
    exact hints_ranked href hst limit
  · exact search_of_pool (hnorm.symm ▸ hpool) href

/-- JSON with strings and numbers. -/
@[reducible] def RecordJson.flat : RecordJson where
  write record := FlatJson.writeObject (record.map fun m => (m.1, match m.2 with
    | .number n => .number n
    | .string t => .string t))
  fromStr line := (FlatJson.readObject line).map fun members => .object (members.map fun m => (m.1, match m.2 with
    | .bool b => .bool b
    | .number n => .int n.toNat
    | .string t => .string t))
  fromStr_write := by
    intro record _
    rw [FlatJson.readObject_write, Option.map_some, List.map_map]
    refine congrArg (fun members => some (Json.object members)) (List.map_congr_left fun m _ => ?_)
    obtain ⟨key, value⟩ := m
    cases value <;> rfl
  ge_of_mem_write h := FlatJson.ge_of_mem_writeObject h

/-- Two uses of one command and one of another. -/
def threeCommands : List Text := ["git status", "git pull", "git status"].map String.toList

/-- A command on a remote machine. -/
def remoteCommand : Submission := ⟨.ssh "Ana@Host".toList, "uptime".toList, "/".toList, 0⟩

/-- The history of a machine with the three commands, and one of a remote machine that is read again. -/
theorem nebula_history_three :
    (∃ h, insertAll threeCommands = some h ∧ ∃ w, hint (Assoc.Map.empty.insert .Local h) .Local "git ".toList = w.map Prod.snd ∧
      Wins (fun c => c.2 ≠ [] ∧ h.index.get? ("git ".toList ++ c.2) = some c.1) w) ∧
    ∃ s pools, [remoteCommand].foldlM (@State.record .flat) .empty = some s ∧ @load .flat s.files = some pools ∧
      pools.get? (.ssh "Ana@host".toList) = s.pools.get? (.ssh "Ana@host".toList) := by
  obtain ⟨hins, hrel⟩ := @nebula_history RecordJson.flat
  constructor
  · obtain ⟨h, hall, -, hpo⟩ := hins threeCommands
    have hpool : (Assoc.Map.empty.insert HistoryScope.Local h).get? .Local = some h := by rw [Assoc.Map.get?_insert, if_pos rfl]
    exact ⟨h, hall, (hpo _ _ rfl hpool).1 "git ".toList (by decide)⟩
  · obtain ⟨s, pools, hrun, hload, hsm⟩ := hrel [remoteCommand]
    exact ⟨s, pools, hrun, hload, hsm _ (by decide)⟩

/-- **What strictly extends an empty start is no hint.** -/
theorem hint_empty : ∃ h, insertAll ["ls".toList] = some h ∧ h.index.get? ([] ++ "ls".toList) = some ⟨1, 0⟩ ∧
    hint (Assoc.Map.empty.insert .Local h) .Local [] = none := by
  refine ⟨⟨["ls".toList], ⟨[("ls".toList, ⟨1, 0⟩)], pairwise_singleton _ _⟩⟩, ?_, ?_, rfl⟩
  · rfl
  · rfl

end Pebrel.Suggestions.History
