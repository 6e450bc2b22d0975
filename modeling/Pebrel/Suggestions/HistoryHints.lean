import Pebrel.Suggestions.HistoryPools

/-!
# Hints from the history

The commands that start in the same way follow each other in the map, so a walk that
ends at the first other one has seen all of them (`prefix_of_lt`). What is suggested is ranked:
a command is before another one if it has more uses, or as many and a later last use
(`hint_best`, `hints_ranked`, `search_ranked`).
-/

namespace Pebrel.Suggestions.History

open Library List Option Prod HistoryIndex

variable {h : HistoryIndex} {l : List (Text × ℕ)} {start x y : Text}

/-! ### Texts that start in the same way -/

/-- What is between a text and one that starts with it starts with it. -/
theorem prefix_of_lt (hle : start ≤ x) (hlt : x < y) (hy : start <+: y) : start <+: x := by
  induction start generalizing x y with
  | nil => exact nil_prefix
  | cons c start ih =>
    obtain ⟨t, rfl⟩ := hy
    cases x with
    | nil => exact absurd hle (not_le.mpr (nil_lt_cons c start))
    | cons d x =>
      rw [cons_append, cons_lt_cons_iff] at hlt
      rw [← not_lt, cons_lt_cons_iff, not_or, not_and] at hle
      rcases hlt with hlt | ⟨rfl, hlt⟩
      · exact absurd hlt hle.1
      · exact cons_prefix_cons.mpr ⟨rfl, ih (not_lt.mp (hle.2 rfl)) hlt (prefix_append _ _)⟩

theorem le_append (s t : Text) : s ≤ s ++ t := not_lt.mp (show ¬ s ++ t < s from le_append_left)

/-- In the map, from a text on, what starts with it comes before what does not. -/
theorem range_walk (index : SortedMap Text HistoryRank) (start : Text) :
    (index.range start).Pairwise fun e f => start <+: f.1 → start <+: e.1 := by
  refine (index.range_sorted start).imp_of_mem fun he _ hlt hf => ?_
  exact prefix_of_lt (SortedMap.mem_range.mp he).2 hlt hf

/-! ### One hint -/

/-- A candidate of the highest rank, or nothing if there is none. -/
def Wins (candidates : HistoryRank × Text → Prop) : Option (HistoryRank × Text) → Prop
  | none => ∀ c, ¬ candidates c
  | some w => candidates w ∧ ∀ c, candidates c → c.1 ≤ w.1

/-- Candidates that do not rank higher than others do not matter. -/
theorem Wins.cover {p q : HistoryRank × Text → Prop} {w : Option (HistoryRank × Text)} (hp : Wins p w) (hpq : ∀ c, p c → q c)
    (hqp : ∀ c, q c → ∃ d, p d ∧ c.1 ≤ d.1) : Wins q w := by
  cases w with
  | none =>
    intro c hc
    obtain ⟨d, hd, -⟩ := hqp c hc
    exact hp d hd
  | some w =>
    refine ⟨hpq w hp.1, fun c hc => ?_⟩
    obtain ⟨d, hd, hle⟩ := hqp c hc
    exact hle.trans (hp.2 d hd)

/-- The loop finds the best of the candidates that it has and those that it comes to. -/
theorem hintLoop_spec {entries : List (Text × HistoryRank)} (hwalk : entries.Pairwise fun e f => start <+: f.1 → start <+: e.1) (call : ℕ)
    (best : Option (HistoryRank × Text)) : ∃ w, hintLoop (fun _ => false) start call best entries = w.map Prod.snd ∧
      Wins (fun c => best = some c ∨ c.2 ≠ [] ∧ (start ++ c.2, c.1) ∈ entries) w := by
  induction entries generalizing call best with
  | nil =>
    refine ⟨best, rfl, ?_⟩
    cases best with
    | none => simp [Wins]
    | some b => simp [Wins]
  | cons e entries ih =>
    obtain ⟨cmd, rank⟩ := e
    obtain ⟨hf, hr⟩ := pairwise_cons.mp hwalk
    rw [hintLoop, if_neg Bool.false_ne_true]
    by_cases hst : start <+: cmd
    · obtain ⟨t, rfl⟩ := hst
      have hm : ∀ c : HistoryRank × Text, (start ++ c.2, c.1) ∈ (start ++ t, rank) :: entries ↔
          c = (rank, t) ∨ (start ++ c.2, c.1) ∈ entries := by
        intro c
        rw [mem_cons, Prod.mk.injEq, append_cancel_left_eq, Prod.ext_iff, and_comm]
      rw [if_neg (by simp)]
      by_cases hl : (start ++ t).length = start.length
      · obtain rfl : t = [] := by simpa using hl
        rw [if_pos hl]
        obtain ⟨w, hw, hwins⟩ := ih hr (call + 1) best
        refine ⟨w, hw, hwins.cover (fun c hc => ?_) fun c hc => ⟨c, ?_, le_rfl⟩⟩
        · exact hc.imp_right fun hc => ⟨hc.1, (hm c).mpr (.inr hc.2)⟩
        · refine hc.imp_right fun hc => ⟨hc.1, ((hm c).mp hc.2).resolve_left fun heq => hc.1 ?_⟩
          rw [heq]
      · have hne : t ≠ [] := fun hnil => hl (by rw [hnil, append_nil])
        rw [if_neg hl, drop_left]
        obtain ⟨w, hw, hwins⟩ := ih hr (call + 1) (if best.all fun b => b.1 < rank then some (rank, t) else best)
        refine ⟨w, hw, hwins.cover (fun c hc => ?_) fun c hc => ?_⟩
        · rcases hc with hc | hc
          · split at hc
            · obtain rfl := some.inj hc
              exact .inr ⟨hne, (hm _).mpr (.inl rfl)⟩
            · exact .inl hc
          · exact .inr ⟨hc.1, (hm c).mpr (.inr hc.2)⟩
        · by_cases ha : (best.all fun b => b.1 < rank) = true
          · rw [if_pos ha]
            rcases hc with rfl | ⟨hnil, hc⟩
            · exact ⟨(rank, t), .inl rfl, le_of_lt (by simpa using ha)⟩
            · rcases (hm c).mp hc with rfl | hc
              · exact ⟨(rank, t), .inl rfl, le_rfl⟩
              · exact ⟨c, .inr ⟨hnil, hc⟩, le_rfl⟩
          · rw [if_neg ha]
            rcases hc with hbest | ⟨hnil, hc⟩
            · exact ⟨c, .inl hbest, le_rfl⟩
            rcases (hm c).mp hc with rfl | hc
            · cases best with
              | none => exact absurd rfl ha
              | some b => exact ⟨b, .inl rfl, by simpa using ha⟩
            · exact ⟨c, .inr ⟨hnil, hc⟩, le_rfl⟩
    · have ho : (!start.isPrefixOf cmd) = true := by rwa [Bool.not_eq_true', ← Bool.not_eq_true, isPrefixOf_iff_prefix]
      rw [if_pos ho]
      refine ⟨best, rfl, ?_⟩
      have hn : ∀ c : HistoryRank × Text, ¬ (start ++ c.2, c.1) ∈ (cmd, rank) :: entries := by
        intro c hc
        rcases mem_cons.mp hc with heq | hc
        · exact hst ((Prod.mk.inj heq).1 ▸ prefix_append start c.2)
        · exact hst (hf _ hc (prefix_append start c.2))
      cases best with
      | none => exact fun c hc => hc.elim nofun fun hc => hn c hc.2
      | some b => exact ⟨.inl rfl, fun c hc => hc.elim (fun hbest => by rw [some.inj hbest]) fun hc => absurd hc.2 (hn c)⟩

/-- A hint is what the best command has after a start that is not empty. -/
theorem hint_best (hst : start ≠ []) : ∃ w, h.hint start = w.map Prod.snd ∧
    Wins (fun c => c.2 ≠ [] ∧ h.index.get? (start ++ c.2) = some c.1) w := by
  obtain ⟨w, hw, hwins⟩ := hintLoop_spec (range_walk h.index start) 0 none
  refine ⟨w, by rw [HistoryIndex.hint, hintWithCancel, if_neg hst, hw], hwins.cover (fun c hc => ?_) fun c hc => ⟨c, ?_, le_rfl⟩⟩
  · obtain ⟨hne, hm⟩ := hc.resolve_left nofun
    exact ⟨hne, SortedMap.get?_eq_some_iff.mpr (SortedMap.mem_range.mp hm).1⟩
  · exact .inr ⟨hc.1, SortedMap.mem_range.mpr ⟨SortedMap.get?_eq_some_iff.mp hc.2, le_append start c.2⟩⟩

/-! ### Lists of commands -/

/-- The commands of a pool that meet a condition, the highest rank first, up to a limit. -/
def Ranked (h : HistoryIndex) (p : Text → Prop) (limit : ℕ) (out : List Text) : Prop :=
  ∃ all : List Text, (∀ cmd, cmd ∈ all ↔ cmd ∈ h.entries ∧ p cmd) ∧
    all.Pairwise (fun a b => ∀ r s, h.index.get? a = some r → h.index.get? b = some s → s < r) ∧ out = all.take limit

theorem sortRanked_perm (m : List (HistoryRank × Text)) : (sortRanked m).Perm m := mergeSort_perm _ _

theorem sortRanked_pairwise (m : List (HistoryRank × Text)) : (sortRanked m).Pairwise fun a b => b.1 ≤ a.1 := by
  refine (pairwise_mergeSort (fun a b c hab hbc => ?_) (fun a b => ?_) m).imp fun hle => by simpa using hle
  · simp only [decide_eq_true_eq] at hab hbc ⊢
    exact hbc.trans hab
  · simpa using le_total b.1 a.1

/-- In a pool the ranks of different commands differ. -/
theorem Refines.rank_inj (hr : Refines h l) {a b : Text} {r : HistoryRank} (ha : h.index.get? a = some r)
    (hb : h.index.get? b = some r) : a = b := by
  obtain ⟨_, hla, -⟩ := (hr.ranks a r).mp ha
  obtain ⟨_, hlb, -⟩ := (hr.ranks b r).mp hb
  exact (Prod.mk.inj (some.inj (hla.symm.trans hlb))).1

theorem Refines.mem_entries (hr : Refines h l) {cmd : Text} : cmd ∈ h.entries ↔ ∃ r, h.index.get? cmd = some r := by
  rw [hr.entries, ← isSome_iff_exists, ← ne_none_iff_isSome, ne_eq, hr.get?_eq_none, not_not]

/-- What is sorted by rank is ranked. -/
theorem ranked_sortRanked (href : Refines h l) {m : List (HistoryRank × Text)} {p : Text → Prop}
    (hg : ∀ e ∈ m, h.index.get? e.2 = some e.1) (hnd : (m.map Prod.snd).Nodup)
    (hm : ∀ cmd, cmd ∈ m.map Prod.snd ↔ cmd ∈ h.entries ∧ p cmd) (limit : ℕ) :
    Ranked h p limit (((sortRanked m).take limit).map Prod.snd) := by
  have hperm := (sortRanked_perm m).map snd
  refine ⟨(sortRanked m).map snd, fun cmd => hperm.mem_iff.trans (hm cmd), ?_, map_take⟩
  rw [pairwise_map]
  have hd : (sortRanked m).Pairwise fun a b => a.2 ≠ b.2 := pairwise_map.mp (hperm.nodup_iff.mpr hnd)
  refine ((sortRanked_pairwise m).and hd).imp_of_mem fun ha hb hab r s hr hs => ?_
  rw [hg _ ((sortRanked_perm m).mem_iff.mp ha)] at hr
  rw [hg _ ((sortRanked_perm m).mem_iff.mp hb)] at hs
  obtain rfl := some.inj hr
  obtain rfl := some.inj hs
  refine lt_of_le_of_ne hab.1 fun heq => hab.2 (href.rank_inj (hg _ ((sortRanked_perm m).mem_iff.mp ha)) ?_)
  rw [← heq]
  exact hg _ ((sortRanked_perm m).mem_iff.mp hb)

theorem takeWhile_eq_filter {α : Type} {p : α → Bool} {entries : List α} (h : entries.Pairwise fun e f => p f = true → p e = true) :
    entries.takeWhile p = entries.filter p := by
  induction entries with
  | nil => rfl
  | cons e entries ih =>
    obtain ⟨hfst, hr⟩ := pairwise_cons.mp h
    by_cases he : p e = true
    · rw [takeWhile_cons_of_pos he, filter_cons_of_pos he, ih hr]
    · rw [takeWhile_cons_of_neg he, filter_cons_of_neg he]
      exact (filter_eq_nil_iff.mpr fun f hf hpf => he (hfst f hf hpf)).symm

/-- The commands that a list of hints is made from. -/
def extending (h : HistoryIndex) (start : Text) : List (Text × HistoryRank) :=
  ((h.index.range start).takeWhile fun e => start.isPrefixOf e.1).filter fun e => e.1.length ≠ start.length

theorem mem_extending {e : Text × HistoryRank} : e ∈ extending h start ↔ h.index.get? e.1 = some e.2 ∧ ∃ s, s ≠ [] ∧ e.1 = start ++ s := by
  have hwalk : (h.index.range start).Pairwise fun e f => start.isPrefixOf f.1 = true → start.isPrefixOf e.1 = true := by
    simp only [List.isPrefixOf_iff_prefix]
    exact range_walk h.index start
  rw [extending, takeWhile_eq_filter hwalk, mem_filter, mem_filter, SortedMap.mem_range, isPrefixOf_iff_prefix,
    SortedMap.get?_eq_some_iff, decide_eq_true_eq]
  constructor
  · rintro ⟨⟨⟨hm, -⟩, s, hs⟩, hl⟩
    refine ⟨hm, s, fun hn => hl ?_, hs.symm⟩
    rw [← hs, hn, append_nil]
  · rintro ⟨hm, s, hne, hs⟩
    refine ⟨⟨⟨hm, hs ▸ le_append start s⟩, s, hs.symm⟩, fun hl => hne ?_⟩
    rw [hs, length_append, Nat.add_eq_left] at hl
    exact length_eq_zero_iff.mp hl

/-- **The list of hints.** -/
theorem hints_ranked (hr : Refines h l) (hst : start ≠ []) (limit : ℕ) :
    ∃ out, Ranked h (fun cmd => ∃ s, s ≠ [] ∧ cmd = start ++ s) limit out ∧ h.hints start limit = out.map fun cmd =>
      (cmd, cmd.drop start.length) := by
  have hg : ∀ e ∈ (extending h start).map fun e => (e.2, e.1), h.index.get? e.2 = some e.1 := by
    intro e he
    obtain ⟨e', he', rfl⟩ := mem_map.mp he
    exact (mem_extending.mp he').1
  have hkeys : ((extending h start).map fun e => (e.2, e.1)).map snd = (extending h start).map fst := by
    rw [List.map_map]
    rfl
  have hnd : (((extending h start).map fun e => (e.2, e.1)).map snd).Nodup := by
    rw [hkeys, List.Nodup, pairwise_map]
    exact ((h.index.range_sorted start).sublist ((filter_sublist).trans (takeWhile_sublist _))).imp ne_of_lt
  have hm : ∀ cmd, cmd ∈ ((extending h start).map fun e => (e.2, e.1)).map snd ↔ cmd ∈ h.entries ∧ ∃ s, s ≠ [] ∧ cmd = start ++ s := by
    intro cmd
    rw [hkeys, hr.mem_entries, List.mem_map]
    constructor
    · rintro ⟨⟨cmd, rank⟩, he, rfl⟩
      exact ⟨⟨rank, (mem_extending.mp he).1⟩, (mem_extending.mp he).2⟩
    · rintro ⟨⟨rank, hrank⟩, hs⟩
      exact ⟨(cmd, rank), mem_extending.mpr ⟨hrank, hs⟩, rfl⟩
  refine ⟨_, ranked_sortRanked hr hg hnd hm limit, ?_⟩
  rw [HistoryIndex.hints, List.map_map]
  by_cases hl : limit = 0
  · rw [if_pos (.inr hl), hl, take_zero, map_nil]
  · rw [if_neg (not_or.mpr ⟨hst, hl⟩)]
    rfl

theorem takeUncancelled_never (call : ℕ) (commands : List Text) :
    takeUncancelled (fun _ => false) call commands = (commands, call + commands.length) := by
  induction commands generalizing call with
  | nil => rfl
  | cons command commands ih =>
    rw [takeUncancelled, if_neg Bool.false_ne_true, ih, length_cons]
    simp only [Nat.add_comm, Nat.add_left_comm]

/-- Commands that are in the map are found with their ranks. -/
theorem mapM_rank {commands : List Text} (hin : ∀ c ∈ commands, ∃ r, h.index.get? c = some r) :
    ∃ m, commands.mapM (fun command => (h.index.get? command).map fun rank => (rank, command)) = some m ∧ m.map Prod.snd = commands ∧
      ∀ e ∈ m, h.index.get? e.2 = some e.1 := by
  induction commands with
  | nil => exact ⟨[], rfl, rfl, nofun⟩
  | cons command commands ih =>
    obtain ⟨⟨r, hr⟩, hrest⟩ := forall_mem_cons.mp hin
    obtain ⟨m, hm, hs, hg⟩ := ih hrest
    refine ⟨(r, command) :: m, ?_, by rw [map_cons, hs], forall_mem_cons.mpr ⟨hr, hg⟩⟩
    rw [mapM_cons, hr, hm]
    rfl

/-- **A search.** -/
theorem search_ranked (hr : Refines h l) (score : Text → Text → Option ℕ) (text : Text) (limit : ℕ) :
    ∃ out, Ranked h (fun cmd => cmd ≠ text ∧ (score text cmd).isSome = true) limit out ∧
      h.searchWithCancel score text limit (fun _ => false) = some out := by
  have hs : ∀ cmd, cmd ∈ h.entries.filter (fun command => command ≠ text && (score text command).isSome) ↔
      cmd ∈ h.entries ∧ cmd ≠ text ∧ (score text cmd).isSome = true := by simp
  have hin : ∀ c ∈ h.entries.filter fun command => command ≠ text && (score text command).isSome, ∃ r, h.index.get? c = some r :=
    fun c hc => hr.mem_entries.mp ((hs c).mp hc).1
  obtain ⟨m, hm, hsnd, hg⟩ := mapM_rank hin
  have hnd : (m.map snd).Nodup := by
    rw [hsnd, hr.entries]
    exact hr.nodup.filter _
  refine ⟨_, ranked_sortRanked hr hg hnd (fun cmd => hsnd ▸ hs cmd) limit, ?_⟩
  simp only [HistoryIndex.searchWithCancel, takeUncancelled_never, hm, Bool.false_eq_true, ↓reduceIte, map_take]

end Pebrel.Suggestions.History
