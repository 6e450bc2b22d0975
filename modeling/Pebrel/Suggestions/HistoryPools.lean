import Pebrel.Library.Recency
import Pebrel.Suggestions.HistoryIndex

/-!
# Pools of commands

A pool is a list of what was used last, with the number of uses, in another form
(`Refines`, `insert_refines`): the map has the commands of the list, each with its uses and
its position. So no insertion panics, and what is known of such lists holds of pools
(`insertAll_refines`).
-/

namespace Pebrel.Suggestions.History

open Library List Option HistoryIndex
open Recency (keys lastN lastN_of_le run touch)

/-- The bound of the counters of uses. -/
def usesMax : ℕ := 2 ^ 64 - 1

theorem saturatingSucc_min (n : ℕ) : saturatingSucc (min n usesMax) = min (n + 1) usesMax := by
  rw [saturatingSucc, usesMax]
  omega

/-- What a pool has of a list of what was used last. -/
structure Refines (h : HistoryIndex) (l : List (Text × ℕ)) : Prop where
  entries : h.entries = keys l
  nodup : (keys l).Nodup
  few : l.length ≤ historyMax
  ranks : ∀ cmd rank, h.index.get? cmd = some rank ↔ ∃ uses, l[rank.position]? = some (cmd, uses) ∧ rank.uses = min uses usesMax

theorem empty_refines : Refines .empty [] where
  entries := rfl
  nodup := nodup_nil
  few := Nat.zero_le _
  ranks cmd rank := by simp [empty, SortedMap.get?_empty]

variable {h : HistoryIndex} {l : List (Text × ℕ)} {cmd : Text} {index : SortedMap Text HistoryRank}

theorem Refines.get?_of_getElem? (hr : Refines h l) {position uses : ℕ} (hl : l[position]? = some (cmd, uses)) :
    h.index.get? cmd = some ⟨min uses usesMax, position⟩ := (hr.ranks cmd ⟨min uses usesMax, position⟩).mpr ⟨uses, hl, rfl⟩

theorem Refines.get?_eq_none (hr : Refines h l) : h.index.get? cmd = none ↔ cmd ∉ keys l := by
  constructor
  · intro hn hm
    obtain ⟨⟨c, uses⟩, he, rfl⟩ := List.mem_map.mp hm
    obtain ⟨position, hp⟩ := mem_iff_getElem?.mp he
    rw [hr.get?_of_getElem? hp] at hn
    cases hn
  · intro ho
    cases hg : h.index.get? cmd with
    | none => rfl
    | some rank =>
      obtain ⟨uses, hl, -⟩ := (hr.ranks cmd rank).mp hg
      exact absurd (List.mem_map.mpr ⟨_, mem_of_getElem? hl, rfl⟩) ho

/-- A map that has the commands with their uses and positions, and no others. -/
theorem refines_of_get? (hnd : (keys l).Nodup) (hf : l.length ≤ historyMax)
    (hg : ∀ i c uses, l[i]? = some (c, uses) → index.get? c = some ⟨min uses usesMax, i⟩)
    (ho : ∀ c, c ∉ keys l → index.get? c = none) : Refines ⟨keys l, index⟩ l := by
  refine ⟨rfl, hnd, hf, fun c rank => ⟨fun hrank => ?_, ?_⟩⟩
  · by_cases hm : c ∈ keys l
    · obtain ⟨⟨c, uses⟩, he, rfl⟩ := List.mem_map.mp hm
      obtain ⟨i, hi⟩ := mem_iff_getElem?.mp he
      obtain rfl := some.inj ((hg i c uses hi).symm.trans hrank)
      exact ⟨uses, hi, rfl⟩
    · have hn : index.get? c = none := ho c hm
      rw [show index.get? c = some rank from hrank] at hn
      cases hn
  · rintro ⟨uses, hl, huses⟩
    have hrank := hg rank.position c uses hl
    rw [← huses] at hrank
    exact hrank

/-! ### Positions -/

/-- The loop gives each command its position. -/
theorem reindexFrom_spec {commands : List Text} (hnd : commands.Nodup) (start : ℕ)
    (hin : ∀ c ∈ commands, ∃ rank, index.get? c = some rank) : ∃ index', reindexFrom start commands index = some index' ∧
      (∀ i c, commands[i]? = some c → index'.get? c = (index.get? c).map fun rank => { rank with position := start + i }) ∧
      ∀ c, c ∉ commands → index'.get? c = index.get? c := by
  induction commands generalizing start index with
  | nil => exact ⟨index, rfl, nofun, fun _ _ => rfl⟩
  | cons command commands ih =>
    obtain ⟨hout, hnd⟩ := nodup_cons.mp hnd
    obtain ⟨rank, hrank⟩ := hin command mem_cons_self
    have ho : ∀ c, c ≠ command → (index.insert command { rank with position := start }).get? c = index.get? c := fun c hc => by
      rw [SortedMap.get?_insert, if_neg hc]
    have hne : ∀ c ∈ commands, c ≠ command := fun c hc heq => hout (heq ▸ hc)
    obtain ⟨index', hloop, hposs, hr⟩ := @ih (index.insert command { rank with position := start }) hnd (start + 1) fun c hc => by
      rw [ho c (hne c hc)]
      exact hin c (mem_cons_of_mem _ hc)
    refine ⟨index', ?_, fun i c hc => ?_, fun c hc => ?_⟩
    · rw [reindexFrom, hrank]
      exact hloop
    · cases i with
      | zero =>
        obtain rfl := some.inj hc
        rw [hr command hout, SortedMap.get?_insert, if_pos rfl, hrank]
        rfl
      | succ i =>
        have hm := mem_of_getElem? (l := commands) hc
        rw [hposs i c hc, ho c (hne c hm), Nat.add_right_comm]
        rfl
    · rw [hr c fun hm => hc (mem_cons_of_mem _ hm), ho c fun heq => hc (heq ▸ mem_cons_self)]

/-- A map that has the commands with their uses gets their positions. -/
theorem reindex_refines (hnd : (keys l).Nodup) (hf : l.length ≤ historyMax)
    (huses : ∀ c uses, (c, uses) ∈ l → ∃ position, index.get? c = some ⟨min uses usesMax, position⟩)
    (ho : ∀ c, c ∉ keys l → index.get? c = none) :
    ∃ h', reindex ⟨keys l, index⟩ = some h' ∧ Refines h' l := by
  obtain ⟨index', hloop, hposs, hr⟩ := reindexFrom_spec hnd 0 fun c hc => by
    obtain ⟨⟨c, uses⟩, he, rfl⟩ := List.mem_map.mp hc
    obtain ⟨position, hp⟩ := huses c uses he
    exact ⟨_, hp⟩
  have hg : ∀ i c uses, l[i]? = some (c, uses) → index'.get? c = some ⟨min uses usesMax, i⟩ := by
    intro i c uses hl
    have hk : (keys l)[i]? = some c := by rw [Recency.keys, getElem?_map, hl, map_some]
    obtain ⟨position, hp⟩ := huses c uses (mem_of_getElem? hl)
    rw [hposs i c hk, hp, map_some, Nat.zero_add]
  exact ⟨⟨keys l, index'⟩, by rw [reindex, hloop, map_some],
    refines_of_get? hnd hf hg fun c hc => (hr c hc).trans (ho c hc)⟩

/-! ### Insertions -/

theorem get?_foldl_erase (removed : List Text) (index : SortedMap Text HistoryRank) (c : Text) :
    (removed.foldl (fun index removed => index.erase removed) index).get? c = if c ∈ removed then none else index.get? c := by
  induction removed generalizing index with
  | nil => rw [foldl_nil, if_neg (not_mem_nil)]
  | cons command removed ih =>
    rw [foldl_cons, ih, SortedMap.get?_erase]
    by_cases hm : c ∈ removed
    · rw [if_pos hm, if_pos (mem_cons_of_mem _ hm)]
    rw [if_neg hm]
    by_cases hc : c = command
    · rw [if_pos hc, if_pos (hc ▸ mem_cons_self)]
    · rw [if_neg hc, if_neg (by simp [hc, hm])]

theorem eraseIdx_eq_filter {commands : List Text} (hnd : commands.Nodup) {position : ℕ} (h : commands[position]? = some cmd) :
    commands.eraseIdx position = commands.filter (· ≠ cmd) := by
  obtain ⟨hlt, rfl⟩ := List.getElem?_eq_some_iff.mp h
  rw [← hnd.erase_getElem position hlt, hnd.erase_eq_filter]
  exact filter_congr fun c _ => by by_cases hc : c = commands[position] <;> simp [hc]

/-- A command that is there goes to the end, and has one more use. -/
theorem insert_present (hr : Refines h l) {position uses : ℕ} (hl : l[position]? = some (cmd, uses)) :
    ∃ h', h.insert cmd = some h' ∧ Refines h' (touch historyMax l cmd) := by
  have hrank := hr.get?_of_getElem? hl
  have hm : (cmd, uses) ∈ l := mem_of_getElem? hl
  have hk : (keys l)[position]? = some cmd := by rw [Recency.keys, getElem?_map, hl, map_some]
  have hlt : position < h.entries.length := hr.entries ▸ (List.getElem?_eq_some_iff.mp hk).1
  have hera : h.entries.eraseIdx position = (keys l).filter (· ≠ cmd) := by rw [hr.entries, eraseIdx_eq_filter hr.nodup hk]
  have hfewe : ((keys l).filter (· ≠ cmd) ++ [cmd]).length ≤ historyMax := by
    have hlen := length_eraseIdx_of_lt hlt
    have hf := hr.few
    have hsm : h.entries.length = l.length := by rw [hr.entries, Recency.keys, length_map]
    rw [length_append, length_singleton, ← hera]
    omega
  have hkeys : keys (touch historyMax l cmd) = h.entries.eraseIdx position ++ [cmd] := by
    rw [Recency.keys_touch, lastN_of_le hfewe, hera]
  have hnd : (keys (touch historyMax l cmd)).Nodup := by
    rw [hkeys, hera]
    exact nodup_append.mpr ⟨hr.nodup.filter _, nodup_singleton _, fun c hc d hd => by
      rw [mem_singleton.mp hd]
      simpa using of_mem_filter hc⟩
  have huses : ∀ c u, (c, u) ∈ touch historyMax l cmd →
      ∃ p, (h.index.insert cmd ⟨saturatingSucc (min uses usesMax), position⟩).get? c = some ⟨min u usesMax, p⟩ := by
    intro c u hu
    rcases Recency.mem_touch hu with he | ⟨hu, hne⟩
    · obtain ⟨rfl, rfl⟩ := Prod.mk.inj he
      rw [SortedMap.get?_insert, if_pos rfl, Recency.usesOf_of_mem hr.nodup hm, saturatingSucc_min]
      exact ⟨position, rfl⟩
    · obtain ⟨i, hi⟩ := mem_iff_getElem?.mp hu
      rw [SortedMap.get?_insert, if_neg hne]
      exact ⟨i, hr.get?_of_getElem? hi⟩
  have hoths : ∀ c, c ∉ keys (touch historyMax l cmd) →
      (h.index.insert cmd ⟨saturatingSucc (min uses usesMax), position⟩).get? c = none := by
    intro c hc
    rw [hkeys, hera] at hc
    have hne : c ≠ cmd := fun heq => hc (mem_append_right _ (mem_singleton.mpr heq))
    rw [SortedMap.get?_insert, if_neg hne]
    exact hr.get?_eq_none.mpr fun hin => hc (mem_append_left _ (mem_filter.mpr ⟨hin, by simpa using hne⟩))
  obtain ⟨h', hrei, hr'⟩ := reindex_refines hnd (Recency.length_touch_le historyMax l cmd) huses hoths
  refine ⟨h', ?_, hr'⟩
  rw [HistoryIndex.insert, hrank]
  simp only [if_pos hlt]
  rw [← hkeys]
  exact hrei

/-- A command that is not there comes to the end, and what is over the bound is dropped. -/
theorem insert_absent (hr : Refines h l) (ho : cmd ∉ keys l) :
    ∃ h', h.insert cmd = some h' ∧ Refines h' (touch historyMax l cmd) := by
  have hrank := hr.get?_eq_none.mpr ho
  have hfil : l.filter (fun e => e.1 ≠ cmd) = l := filter_eq_self.mpr fun e he => by
    simpa using fun heq => ho (List.mem_map.mpr ⟨e, he, heq⟩)
  have ht : touch historyMax l cmd = lastN historyMax (l ++ [(cmd, 1)]) := by
    rw [touch, hfil, Recency.usesOf_of_not_mem ho]
  have hkeys : Recency.keys (l ++ [(cmd, 1)]) = h.entries ++ [cmd] := by rw [Recency.keys, map_append, hr.entries]; rfl
  have hnd : (Recency.keys (l ++ [(cmd, 1)])).Nodup := by
    rw [hkeys, hr.entries]
    exact nodup_append.mpr ⟨hr.nodup, nodup_singleton _, fun c hc d hd heq => ho (mem_singleton.mp hd ▸ heq ▸ hc)⟩
  have hl : h.entries.length = l.length := by rw [hr.entries, Recency.keys, length_map]
  have hg : ∀ i c uses, (l ++ [(cmd, 1)])[i]? = some (c, uses) →
      (h.index.insert cmd ⟨1, l.length⟩).get? c = some ⟨min uses usesMax, i⟩ := by
    intro i c uses hi
    rw [SortedMap.get?_insert]
    by_cases hlt : i < l.length
    · rw [getElem?_append_left hlt] at hi
      have hne : c ≠ cmd := fun heq => ho (heq ▸ List.mem_map.mpr ⟨_, mem_of_getElem? hi, rfl⟩)
      rw [if_neg hne, hr.get?_of_getElem? hi]
    obtain ⟨hlt', -⟩ := List.getElem?_eq_some_iff.mp hi
    rw [length_append, length_singleton] at hlt'
    obtain rfl : i = l.length := by omega
    rw [getElem?_concat_length] at hi
    obtain ⟨rfl, rfl⟩ := Prod.mk.inj (some.inj hi)
    rw [if_pos rfl]
    rfl
  have hoths : ∀ c, c ∉ Recency.keys (l ++ [(cmd, 1)]) → (h.index.insert cmd ⟨1, l.length⟩).get? c = none := by
    intro c hc
    rw [hkeys, hr.entries] at hc
    have hne : c ≠ cmd := fun heq => hc (mem_append_right _ (mem_singleton.mpr heq))
    rw [SortedMap.get?_insert, if_neg hne]
    exact hr.get?_eq_none.mpr fun hin => hc (mem_append_left _ hin)
  have hend : (h.entries ++ [cmd]).length - 1 = l.length := by
    rw [length_append, length_singleton, hl]
    rfl
  have hgro : (h.entries ++ [cmd]).length = (l ++ [(cmd, 1)]).length := by simp [hl]
  rw [HistoryIndex.insert, hrank]
  simp only [hend]
  by_cases hover : historyMax < (h.entries ++ [cmd]).length
  · have hdr : (h.entries ++ [cmd]).drop ((h.entries ++ [cmd]).length - historyMax) = keys (touch historyMax l cmd) := by
      rw [ht, Recency.keys, Recency.map_lastN, ← hkeys]
      rfl
    have hsp : touch historyMax l cmd = (l ++ [(cmd, 1)]).drop ((h.entries ++ [cmd]).length - historyMax) := by
      rw [ht, lastN, hgro]
    rw [if_pos hover, hdr]
    refine reindex_refines ?_ (Recency.length_touch_le historyMax l cmd) (fun c uses hc => ?_) fun c hc => ?_
    · rw [← hdr, ← hkeys]
      exact hnd.sublist (drop_sublist _ _)
    · have hin : (c, uses) ∈ l ++ [(cmd, 1)] := by
        rw [hsp] at hc
        exact mem_of_mem_drop hc
      have hk : c ∉ (h.entries ++ [cmd]).take ((h.entries ++ [cmd]).length - historyMax) := by
        intro htk
        have hs : c ∈ (h.entries ++ [cmd]).drop ((h.entries ++ [cmd]).length - historyMax) := by
          rw [hdr]
          exact List.mem_map.mpr ⟨_, hc, rfl⟩
        rw [hkeys] at hnd
        exact disjoint_take_drop hnd (Nat.le_refl _) htk hs
      obtain ⟨i, hi⟩ := mem_iff_getElem?.mp hin
      rw [get?_foldl_erase, if_neg hk]
      exact ⟨i, hg i c uses hi⟩
    · rw [get?_foldl_erase]
      by_cases htk : c ∈ (h.entries ++ [cmd]).take ((h.entries ++ [cmd]).length - historyMax)
      · rw [if_pos htk]
      rw [if_neg htk]
      refine hoths c fun hin => ?_
      rw [hkeys, ← take_append_drop ((h.entries ++ [cmd]).length - historyMax) (h.entries ++ [cmd])] at hin
      rcases mem_append.mp hin with hin | hin
      · exact htk hin
      · exact hc (hdr ▸ hin)
  · have hf : (l ++ [(cmd, 1)]).length ≤ historyMax := hgro ▸ Nat.le_of_not_lt hover
    rw [if_neg hover]
    refine ⟨_, rfl, ?_⟩
    rw [ht, lastN_of_le hf, ← hkeys]
    exact refines_of_get? hnd hf hg hoths

/-- **An insertion.** -/
theorem insert_refines (hr : Refines h l) (cmd : Text) : ∃ h', h.insert cmd = some h' ∧ Refines h' (touch historyMax l cmd) := by
  by_cases hm : cmd ∈ keys l
  · obtain ⟨⟨c, uses⟩, he, rfl⟩ := List.mem_map.mp hm
    obtain ⟨position, hl⟩ := mem_iff_getElem?.mp he
    exact insert_present hr hl
  · exact insert_absent hr hm

/-- The insertions of commands. -/
def insertAll (cmds : List Text) : Option HistoryIndex := cmds.foldlM HistoryIndex.insert .empty

/-- **The insertions of commands.** -/
theorem insertAll_refines (cmds : List Text) : ∃ h, insertAll cmds = some h ∧ Refines h (run historyMax cmds) := by
  induction cmds using reverseRecOn with
  | nil => exact ⟨.empty, rfl, empty_refines⟩
  | append_singleton cmds cmd ih =>
    obtain ⟨h, ha, hr⟩ := ih
    obtain ⟨h', hi, hr'⟩ := insert_refines hr cmd
    refine ⟨h', ?_, Recency.run_concat historyMax cmds cmd ▸ hr'⟩
    rw [insertAll, foldlM_append]
    show (insertAll cmds).bind _ = _
    rw [ha]
    simp [hi]

end Pebrel.Suggestions.History
