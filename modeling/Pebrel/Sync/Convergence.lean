import Pebrel.Library.MergeTree
import Pebrel.Sync.Settings

/-!
# Convergence of merges

Payloads of several devices, with different stamps, merged in any order and
grouping. What is in the result depends on the payloads only, with two
exceptions that come from the design of the merge: it keeps one stamp for the
whole payload, so a setting or a key binding that the newer payload lacks and
the older one fills in counts as new from then on; and it sorts histories by
time only. `merge_converges` says exactly which settings and key bindings
converge.
-/

namespace Pebrel.Sync

open Library List Text
open MergeTree (agree_of_node eval eval_iff_exists eval_newest leaves newer newer_or_older newest_again node older
  register_again register_agree_iff)
open SyncPayload (modified)

/-! ### The values of a setting -/

namespace SyncPayload

/-- The first value of a key, which is what an older payload fills in. -/
def first (p : SyncPayload) (key : Text) : Option Text := (Assoc.values key p.settings).head?

/-- The values of a key after the first. -/
def others (p : SyncPayload) (key : Text) : List Text := (Assoc.values key p.settings).tail

/-- An item of some value of a comma list. -/
def HasItem (p : SyncPayload) (key item : Text) : Prop := ∃ v ∈ Assoc.values key p.settings, item ∈ listItems v

/-- The items of the value of a comma list. -/
def items (p : SyncPayload) (key : Text) : Set Text := {item | ∃ v ∈ p.value key, item ∈ listItems v}

theorem value_eq (p : SyncPayload) (key : Text) : p.value key = (p.others key).getLast?.or (p.first key) := by
  unfold value others first
  cases Assoc.values key p.settings with
  | nil => rfl
  | cons v vs =>
    rw [head?_cons, tail_cons, getLast?_cons]
    cases vs.getLast? <;> rfl

theorem first_eq_none_iff {p : SyncPayload} {key : Text} : p.first key = none ↔ Assoc.values key p.settings = [] := head?_eq_none_iff

/-- The value of a key is the last of the other ones, or the only one with all its items. -/
theorem mem_items (p : SyncPayload) (key item : Text) :
    item ∈ p.items key ↔ if p.others key = [] then p.HasItem key item else ∃ v ∈ (p.others key).getLast?, item ∈ listItems v := by
  unfold items HasItem
  rw [Set.mem_ofPred_eq, value_eq]
  unfold others first
  cases Assoc.values key p.settings with
  | nil => simp
  | cons v vs =>
    rw [tail_cons, head?_cons]
    cases vs with
    | nil => simp
    | cons w vs =>
      rw [if_neg (cons_ne_nil w vs), getLast?_cons, Option.some_or]

end SyncPayload

theorem tail_keptValues (key : Text) (newer older : List Text) : (keptValues key newer older).tail = newer.tail := by
  unfold keptValues
  induction older generalizing newer with
  | nil => rfl
  | cons w older ih =>
    rw [foldl_cons, ih]
    cases newer <;> rfl

/-- A scalar of the newer payload is kept, and filled in from the older one. -/
theorem head?_keptValues {key : Text} (hk : key ∉ listKeys) (newer older : List Text) :
    (keptValues key newer older).head? = newer.head?.or older.head? := by
  have hcons : ∀ (ws : List Text) (v : Text) (vs : List Text), (keptValues key (v :: vs) ws).head? = some v := by
    intro ws v vs
    unfold keptValues
    induction ws with
    | nil => rfl
    | cons w ws ih =>
      rw [foldl_cons, absorbValue, mergeValue, if_neg hk]
      exact ih
  cases newer with
  | cons v vs => exact hcons older v vs
  | nil =>
    cases older with
    | nil => rfl
    | cons w older => exact hcons older w []

/-! ### The items of a comma list -/

theorem not_mem_listItems {list item : Text} (h : item ∈ listItems list) : ',' ∉ item ∧ .trim item = item ∧ item ≠ [] := by
  obtain ⟨hm, hne⟩ := mem_filter.mp h
  obtain ⟨piece, hp, rfl⟩ := mem_map.mp hm
  exact ⟨fun hc => not_mem_of_mem_splitOn hp (mem_of_mem_trim hc), trim_trim piece, of_decide_eq_true hne⟩

/-- The items of a union are the items of both lists. -/
theorem listItems_mergeList (newer older : Text) : listItems (mergeList newer older) = distinct (listItems newer ++ listItems older) := by
  have hi : ∀ item ∈ distinct (listItems newer ++ listItems older), ',' ∉ item ∧ trim item = item ∧ item ≠ [] := by
    intro item hm
    rcases mem_append.mp (mem_distinct.mp hm) with h | h
    · exact not_mem_listItems h
    · exact not_mem_listItems h
  unfold mergeList
  generalize distinct (listItems newer ++ listItems older) = ds at hi
  cases ds with
  | nil => rfl
  | cons d ds =>
    unfold listItems
    rw [splitOn_intercalate ',' (fun l hl => (hi l hl).1) (cons_ne_nil d ds)]
    have hmap : (d :: ds).map trim = d :: ds := by
      conv_rhs => rw [← map_id (d :: ds)]
      exact map_congr_left fun item hm => (hi item hm).2.1
    rw [hmap, filter_eq_self]
    exact fun item hm => decide_eq_true (hi item hm).2.2

theorem keptValues_item {key : Text} (hk : key ∈ listKeys) (newer older : List Text) (item : Text) :
    (∃ v ∈ keptValues key newer older, item ∈ listItems v) ↔ (∃ v ∈ newer, item ∈ listItems v) ∨ ∃ v ∈ older, item ∈ listItems v := by
  unfold keptValues
  induction older generalizing newer with
  | nil => simp
  | cons w older ih =>
    rw [foldl_cons, ih]
    cases newer with
    | nil => simp [absorbValue]
    | cons v vs =>
      have hmg : item ∈ listItems (mergeValue key v w) ↔ item ∈ listItems v ∨ item ∈ listItems w := by
        rw [mergeValue, if_pos hk, listItems_mergeList, mem_distinct, mem_append]
      simp only [absorbValue, mem_cons, exists_eq_or_imp, hmg]
      rw [or_assoc, or_or_or_comm]

/-! ### The parts of a merge -/

theorem newerOlder_eq (a b : SyncPayload) :
    newerOlder a b = (newer modified a b, older modified a b) := by
  unfold newerOlder newer older
  split <;> rfl

section
variable [JsonText] {key line : Text} {all : List Text} {t : MergeTree SyncPayload} {p : SyncPayload}

theorem merge_eq (a b : SyncPayload) :
    merge a b = mergeOver (newer modified a b) (older modified a b) := by
  rw [merge, newerOlder_eq]

theorem keepsStamp_merge : MergeTree.KeepsStamp modified merge := by
  intro a b
  rw [merge_eq]
  rcases newer_or_older modified a b with ⟨hn, ho⟩ | ⟨hn, ho⟩
  · rw [hn, ho]
    rfl
  · rw [hn, ho]
    exact max_comm _ _

theorem device_merge (a b : SyncPayload) : (merge a b).device = (newer modified a b).device := by
  rw [merge_eq]
  rfl

theorem others_merge (key : Text) (a b : SyncPayload) : (merge a b).others key = (newer modified a b).others key := by
  rw [merge_eq, SyncPayload.others, mergeOver, values_mergeSettings, tail_keptValues]
  rfl

theorem isRegister_first (hk : key ∉ listKeys) : MergeTree.IsRegister modified merge fun p => p.first key := by
  intro a b
  change (merge a b).first key = _
  rw [merge_eq, SyncPayload.first, mergeOver, values_mergeSettings, head?_keptValues hk]
  rfl

theorem isRegister_action (combo : Text) : MergeTree.IsRegister modified merge fun p => action combo p.keybinds := by
  intro a b
  change action combo (merge a b).keybinds = _
  rw [merge_eq, action, mergeOver, values_mergeKeybinds]
  have hl : ∀ o : Option Text, o.toList.getLast? = o := by
    intro o
    cases o <;> rfl
  exact hl _

theorem hasItem_merge (hk : key ∈ listKeys) (item : Text) (a b : SyncPayload) :
    (merge a b).HasItem key item ↔ a.HasItem key item ∨ b.HasItem key item := by
  rw [merge_eq, SyncPayload.HasItem, mergeOver, values_mergeSettings, keptValues_item hk]
  rcases newer_or_older modified a b with ⟨hn, ho⟩ | ⟨hn, ho⟩
  · rw [hn, ho]
    rfl
  · rw [hn, ho]
    exact or_comm

/-! ### Histories -/

/-- The lines of all histories together stay within the cap. -/
def WithinCap (ps : List SyncPayload) : Prop :=
  (distinct (ps.flatMap SyncPayload.history)).length ≤ historySyncCap

theorem mem_sortByTs {lines : List Text} : line ∈ sortByTs lines ↔ line ∈ lines := (StableSort.perm_sortByKey _ _).mem_iff

/-- Histories that stay within the cap are united as they are. -/
theorem mergeHistory_eq {a b : List Text} (ha : a ⊆ all) (hb : b ⊆ all) (hc : (distinct all).length ≤ historySyncCap) :
    mergeHistory a b = sortByTs (distinct (a ++ b)) := by
  have hs : distinct (a ++ b) ⊆ distinct all := by
    intro line hl
    rcases mem_append.mp (mem_distinct.mp hl) with h | h
    · exact mem_distinct.mpr (ha h)
    · exact mem_distinct.mpr (hb h)
  have hlen := ((nodup_distinct (a ++ b)).subperm hs).length_le
  unfold mergeHistory newestLines
  have hsort : (sortByTs (distinct (a ++ b))).length = (distinct (a ++ b)).length := (StableSort.perm_sortByKey _ _).length_eq
  rw [hsort, Nat.sub_eq_zero_of_le (hlen.trans hc), drop_zero]

theorem mem_mergeHistory {a b : List Text} (ha : a ⊆ all) (hb : b ⊆ all) (hc : (distinct all).length ≤ historySyncCap)
    : line ∈ mergeHistory a b ↔ line ∈ a ∨ line ∈ b := by
  rw [mergeHistory_eq ha hb hc, mem_sortByTs, mem_distinct, mem_append]

theorem history_merge (a b : SyncPayload) : (merge a b).history = mergeHistory (older modified a b).history
      (newer modified a b).history := by
  rw [merge_eq, mergeOver]

/-- Of payloads whose histories stay within the cap, a merge has the lines of both. -/
theorem mem_history_merge (hc : (distinct all).length ≤ historySyncCap) {a b : SyncPayload}
    (ha : a.history ⊆ all) (hb : b.history ⊆ all) (line : Text) :
    line ∈ (merge a b).history ↔ line ∈ a.history ∨ line ∈ b.history := by
  rw [history_merge]
  rcases newer_or_older modified a b with ⟨hn, ho⟩ | ⟨hn, ho⟩
  · rw [hn, ho, mem_mergeHistory hb ha hc, or_comm]
  · rw [hn, ho, mem_mergeHistory ha hb hc]

theorem mem_history_eval {ps : List SyncPayload} (hc : WithinCap ps) (ht : t.leaves ⊆ ps)
    (line : Text) : line ∈ (t.eval merge).history ↔ ∃ p ∈ t.leaves, line ∈ p.history := by
  have ha : ∀ u : MergeTree SyncPayload, u.leaves ⊆ ps → (∀ l, l ∈ (u.eval merge).history ↔ ∃ p ∈ u.leaves, l ∈ p.history) →
      (u.eval merge).history ⊆ ps.flatMap SyncPayload.history := by
    intro u hu hm l hl
    obtain ⟨p, hp, hlp⟩ := (hm l).mp hl
    exact mem_flatMap.mpr ⟨p, hu hp, hlp⟩
  revert line
  induction t with
  | leaf p =>
    intro line
    simp only [eval, leaves, mem_singleton, exists_eq_left]
  | node l r hl hr =>
    have hlsub : l.leaves ⊆ ps := fun p hp => ht (mem_append_left _ hp)
    have hrsub : r.leaves ⊆ ps := fun p hp => ht (mem_append_right _ hp)
    intro line
    have hm := mem_history_merge hc (ha l hlsub (hl hlsub)) (ha r hrsub (hr hrsub)) line
    refine hm.trans ((or_congr (hl hlsub line) (hr hrsub line)).trans ?_)
    simp only [leaves, mem_append, or_and_right, exists_or]

theorem nodup_history_merge (a b : SyncPayload) : (merge a b).history.Nodup := by
  rw [history_merge]
  refine .sublist (drop_sublist _ _) ?_
  exact (StableSort.perm_sortByKey _ _).nodup_iff.mpr (nodup_distinct _)

theorem sorted_history_merge (a b : SyncPayload) : (merge a b).history.Pairwise fun x y => recordTs x ≤ recordTs y := by
  rw [history_merge]
  exact (StableSort.pairwise_sortByKey _ _).sublist (drop_sublist _ _)

/-! ### The results of merges -/

variable {ps : List SyncPayload} {n : SyncPayload}

/-- A setting converges: the newest payload has it, or all that have it fill in the same value. -/
def SettingSettled (ps : List SyncPayload) (n : SyncPayload) (key : Text) : Prop :=
  n.first key ≠ none ∨ ∀ p ∈ ps, ∀ q ∈ ps, ∀ v ∈ p.first key, ∀ w ∈ q.first key, v = w

/-- A key binding converges: the newest payload has it, or all that have it have the same action. -/
def ActionSettled (ps : List SyncPayload) (n : SyncPayload) (combo : Text) : Prop :=
  action combo n.keybinds ≠ none ∨
    ∀ p ∈ ps, ∀ q ∈ ps, ∀ v ∈ action combo p.keybinds, ∀ w ∈ action combo q.keybinds, v = w

theorem others_eval (hn : MergeTree.IsNewest modified ps n) (ht : t.leaves.Perm ps) : (t.eval merge).others key = n.others key :=
  eval_newest (f := fun p => p.others key) keepsStamp_merge (others_merge key) (hn.perm ht)

theorem agree_value_iff (hs : (ps.map modified).Nodup) (hn : MergeTree.IsNewest modified ps n)
    (hk : key ∉ listKeys) :
    MergeTree.Agree merge ps (fun p => p.value key) ↔ SettingSettled ps n key := by
  have hv : ∀ {t : MergeTree SyncPayload}, t.leaves.Perm ps →
      (t.eval merge).value key = (n.others key).getLast?.or ((t.eval merge).first key) := fun ht => by
    rw [SyncPayload.value_eq, others_eval hn ht]
  unfold SettingSettled
  rw [← register_agree_iff keepsStamp_merge (isRegister_first hk) hn (List.Nodup.of_map _ hs)]
  constructor
  · intro ha t u ht hu
    have heq := ha t u ht hu
    simp only [hv ht, hv hu] at heq
    cases hl : (n.others key).getLast? with
    | none => rwa [hl, Option.none_or, Option.none_or] at heq
    | some v =>
      have hne : n.first key ≠ none := by
        intro hnone
        rw [SyncPayload.first_eq_none_iff] at hnone
        rw [SyncPayload.others, hnone] at hl
        cases hl
      obtain ⟨w, hw⟩ := Option.ne_none_iff_exists'.mp hne
      have hf : ∀ {t : MergeTree SyncPayload}, t.leaves.Perm ps → (t.eval merge).first key = some w := fun ht =>
        MergeTree.register_newest keepsStamp_merge (isRegister_first hk) (hn.perm ht) hw
      exact (hf ht).trans (hf hu).symm
  · intro ha t u ht hu
    have heq : (t.eval merge).first key = (u.eval merge).first key := ha t u ht hu
    show (t.eval merge).value key = (u.eval merge).value key
    rw [hv ht, hv hu, heq]

theorem agree_items (hn : MergeTree.IsNewest modified ps n) (hk : key ∈ listKeys) :
    MergeTree.Agree merge ps (fun p => p.items key) := by
  intro t u ht hu
  have hh : ∀ {t : MergeTree SyncPayload} (item : Text), t.leaves.Perm ps →
      ((t.eval merge).HasItem key item ↔ ∃ p ∈ ps, p.HasItem key item) := fun item ht => by
    refine (eval_iff_exists (Q := fun p : SyncPayload => p.HasItem key item) (hasItem_merge hk item)).trans ?_
    simp only [ht.mem_iff]
  ext item
  rw [SyncPayload.mem_items, SyncPayload.mem_items, others_eval hn ht, others_eval hn hu, hh item ht, hh item hu]

theorem agree_history (hc : WithinCap ps) : MergeTree.Agree merge ps (fun p => (p.history : Multiset Text)) := by
  refine agree_of_node fun l r l' r' ht hu => ?_
  have hm : ∀ line, line ∈ ((node l r).eval merge).history ↔ line ∈ ((node l' r').eval merge).history := fun line => by
    rw [mem_history_eval hc ht.subset, mem_history_eval hc hu.subset]
    simp only [ht.mem_iff, hu.mem_iff]
  exact Multiset.coe_eq_coe.mpr ((perm_ext_iff_of_nodup (nodup_history_merge _ _) (nodup_history_merge _ _)).mpr hm)

/-- No two lines have the same time. -/
def DistinctTimes (ps : List SyncPayload) : Prop :=
  ∀ x ∈ ps.flatMap SyncPayload.history, ∀ y ∈ ps.flatMap SyncPayload.history, recordTs x = recordTs y → x = y

theorem history_eval_subset (hc : WithinCap ps) (ht : t.leaves.Perm ps) : (t.eval merge).history ⊆ ps.flatMap SyncPayload.history := by
  intro line hl
  obtain ⟨p, hp, hl⟩ := (mem_history_eval hc ht.subset line).mp hl
  exact mem_flatMap.mpr ⟨p, ht.mem_iff.mp hp, hl⟩

/-- Merges with the same lines have them in the same order, where no two have the same time. -/
theorem history_eq (hts : DistinctTimes ps) {a b c d : SyncPayload} (hall : (merge a b).history ⊆ ps.flatMap SyncPayload.history)
    (hm : ∀ line, line ∈ (merge a b).history ↔ line ∈ (merge c d).history) : (merge a b).history = (merge c d).history := by
  have hperm := (perm_ext_iff_of_nodup (nodup_history_merge a b) (nodup_history_merge c d)).mpr hm
  refine hperm.eq_of_pairwise ?_ (sorted_history_merge _ _) (sorted_history_merge _ _)
  intro x y hx hy hxy hyx
  exact hts x (hall hx) y (hall ((hm y).mpr hy)) (Nat.le_antisymm hxy hyx)

theorem agree_history_of_distinct_ts (hc : WithinCap ps) (hts : DistinctTimes ps) : MergeTree.Agree merge ps SyncPayload.history :=
  agree_of_node fun _ _ _ _ ht hu => history_eq hts (history_eval_subset hc ht) fun _ =>
    (Multiset.coe_eq_coe.mp (agree_history hc _ _ ht hu)).mem_iff

/-! ### Merging a payload again -/

/-- What a merge decides about the settings and the key bindings. -/
structure SameSettings (a b : SyncPayload) : Prop where
  modified : a.modified = b.modified
  device : a.device = b.device
  value : ∀ key ∉ listKeys, a.value key = b.value key
  items : ∀ key ∈ listKeys, a.items key = b.items key
  action : ∀ combo, action combo a.keybinds = action combo b.keybinds

theorem sameSettings_again (hn : MergeTree.IsNewest modified t.leaves n) (hp : p ∈ t.leaves) :
    SameSettings (merge (t.eval merge) p) (t.eval merge) ∧ SameSettings (merge p (t.eval merge)) (t.eval merge) := by
  have hle : p.modified ≤ (t.eval merge).modified := MergeTree.le_stamp_eval keepsStamp_merge hp
  have hd := newest_again (f := fun p => p.device) keepsStamp_merge device_merge hn hp
  have hoths := fun key => newest_again (f := fun p => p.others key) keepsStamp_merge (others_merge key) hn hp
  have ha := fun combo => register_again keepsStamp_merge (isRegister_action combo) hn hp
  have hf := fun key (hk : key ∉ listKeys) => register_again keepsStamp_merge (isRegister_first hk) hn hp
  have hh : ∀ key ∈ listKeys, ∀ item, p.HasItem key item → (t.eval merge).HasItem key item := fun key hk item h =>
    (eval_iff_exists (Q := fun p : SyncPayload => p.HasItem key item) (hasItem_merge hk item)).mpr ⟨p, hp, h⟩
  constructor
  · refine ⟨?_, hd.1, fun key hk => ?_, fun key hk => ?_, fun combo => (ha combo).1⟩
    · rw [keepsStamp_merge, max_eq_left hle]
    · rw [SyncPayload.value_eq, SyncPayload.value_eq, (hoths key).1, (hf key hk).1]
    · ext item
      rw [SyncPayload.mem_items, SyncPayload.mem_items, (hoths key).1, hasItem_merge hk, or_iff_left_of_imp (hh key hk item)]
  · refine ⟨?_, hd.2, fun key hk => ?_, fun key hk => ?_, fun combo => (ha combo).2⟩
    · rw [keepsStamp_merge, max_eq_right hle]
    · rw [SyncPayload.value_eq, SyncPayload.value_eq, (hoths key).2, (hf key hk).2]
    · ext item
      rw [SyncPayload.mem_items, SyncPayload.mem_items, (hoths key).2, hasItem_merge hk, or_iff_right_of_imp (hh key hk item)]

theorem history_again (hc : WithinCap ps) (ht : t.leaves.Perm ps) (hp : p ∈ ps) (line : Text) :
    (line ∈ (merge (t.eval merge) p).history ↔ line ∈ (t.eval merge).history) ∧
      (line ∈ (merge p (t.eval merge)).history ↔ line ∈ (t.eval merge).history) := by
  have hm := mem_history_eval hc ht.subset
  have hpall : p.history ⊆ ps.flatMap SyncPayload.history := fun l hl => mem_flatMap.mpr ⟨p, hp, hl⟩
  have htall := history_eval_subset hc ht
  have hin : line ∈ p.history → line ∈ (t.eval merge).history := fun h => (hm line).mpr ⟨p, ht.mem_iff.mpr hp, h⟩
  rw [mem_history_merge hc htall hpall, mem_history_merge hc hpall htall]
  exact ⟨or_iff_left_of_imp hin, or_iff_right_of_imp hin⟩

theorem history_order_again (hc : WithinCap ps) (hts : DistinctTimes ps) {l r : MergeTree SyncPayload}
    (ht : (node l r).leaves.Perm ps) (hp : p ∈ ps) :
    (merge ((node l r).eval merge) p).history = ((node l r).eval merge).history ∧
      (merge p ((node l r).eval merge)).history = ((node l r).eval merge).history := by
  have hall := history_eval_subset hc ht
  have hm := history_again hc ht hp
  exact ⟨history_eq hts (fun line hl => hall ((hm line).1.mp hl)) fun line => (hm line).1,
    history_eq hts (fun line hl => hall ((hm line).2.mp hl)) fun line => (hm line).2⟩

/-- What merges of payloads with different stamps agree on, in any order and grouping. -/
structure Converges (ps : List SyncPayload) (n : SyncPayload) : Prop where
  modified : MergeTree.Agree merge ps modified
  device : MergeTree.Agree merge ps SyncPayload.device
  /-- A scalar converges just when it is settled. -/
  value : ∀ key ∉ listKeys, (MergeTree.Agree merge ps fun p => p.value key) ↔ SettingSettled ps n key
  /-- A key binding converges just when it is settled. -/
  action : ∀ combo, (MergeTree.Agree merge ps fun p => action combo p.keybinds) ↔ ActionSettled ps n combo
  /-- The items of a comma list converge. -/
  items : ∀ key ∈ listKeys, MergeTree.Agree merge ps fun p => p.items key
  /-- Within the cap the lines of the history converge. -/
  history : WithinCap ps → MergeTree.Agree merge ps fun p => (p.history : Multiset Text)
  /-- Their order converges if it is given by their times. -/
  order : WithinCap ps → DistinctTimes ps → MergeTree.Agree merge ps SyncPayload.history
  /-- Merging a payload again changes nothing. -/
  again : ∀ t : MergeTree SyncPayload, t.leaves.Perm ps → ∀ p ∈ ps,
    SameSettings (merge (t.eval merge) p) (t.eval merge) ∧ SameSettings (merge p (t.eval merge)) (t.eval merge)
  historyAgain : WithinCap ps → ∀ t : MergeTree SyncPayload, t.leaves.Perm ps → ∀ p ∈ ps, ∀ line,
    (line ∈ (merge (t.eval merge) p).history ↔ line ∈ (t.eval merge).history) ∧
      (line ∈ (merge p (t.eval merge)).history ↔ line ∈ (t.eval merge).history)
  /-- Nor does it change the order of a merge of two or more, where this is given by the times. -/
  orderAgain : WithinCap ps → DistinctTimes ps → ∀ l r : MergeTree SyncPayload, (node l r).leaves.Perm ps → ∀ p ∈ ps,
    (merge ((node l r).eval merge) p).history = ((node l r).eval merge).history ∧
      (merge p ((node l r).eval merge)).history = ((node l r).eval merge).history

/-- **Convergence**: payloads with different stamps, merged in any order and grouping. -/
theorem merge_converges (hne : ps ≠ []) (hstamps : (ps.map modified).Nodup) :
    ∃ n, MergeTree.IsNewest modified ps n ∧ Converges ps n := by
  obtain ⟨n, hn⟩ := MergeTree.exists_isNewest hne hstamps
  have hnd : ps.Nodup := .of_map _ hstamps
  refine ⟨n, hn, ?_⟩
  constructor
  case modified =>
    intro t u ht hu
    show (t.eval merge).modified = (u.eval merge).modified
    rw [(hn.perm ht).stamp_eval keepsStamp_merge, (hn.perm hu).stamp_eval keepsStamp_merge]
  case device => exact MergeTree.agree_newest keepsStamp_merge device_merge hn
  case value => exact fun key hkey => agree_value_iff hstamps hn hkey
  case action => exact fun combo => register_agree_iff keepsStamp_merge (isRegister_action combo) hn hnd
  case items => exact fun key hkey => agree_items hn hkey
  case history => exact agree_history
  case order => exact agree_history_of_distinct_ts
  case again => exact fun t ht p hp => sameSettings_again (hn.perm ht) (ht.mem_iff.mpr hp)
  case historyAgain => exact fun hcap t ht p hp line => history_again hcap ht hp line
  case orderAgain => exact fun hcap hts l r ht p hp => history_order_again hcap hts ht hp

end

section

local instance untimedJson : JsonText := ⟨fun _ => none, plainJson.fromStr_nil⟩

/-- A payload with these settings and lines of the history. -/
def plainPayload (modified : ℕ) (settings : List (Text × Text)) (history : List Text) : SyncPayload :=
  ⟨modified, [], settings, [], history⟩

/-- Two payloads with different themes. -/
def themePayloads : List SyncPayload :=
  [plainPayload 1 [("theme".toList, "a".toList)] ["x".toList], plainPayload 2 [("theme".toList, "b".toList)] ["y".toList]]

/-- A newer payload that has no theme. -/
def bareNewest : SyncPayload := plainPayload 3 [] ["z".toList]

theorem merge_converges_two :
    ∃ n, MergeTree.IsNewest modified themePayloads n ∧ Converges themePayloads n :=
  merge_converges (by decide) (by decide)

/-- Three payloads of which the newest lacks a setting: the value depends on which of the
others it was merged with first, and so does the order of lines with equal times. -/
theorem merge_not_agree :
    ¬ MergeTree.Agree merge (bareNewest :: themePayloads) (fun p => p.value "theme".toList) ∧
      ¬ MergeTree.Agree merge (bareNewest :: themePayloads) SyncPayload.history := by
  let t : MergeTree SyncPayload := .node (.node (.leaf bareNewest) (.leaf themePayloads[0])) (.leaf themePayloads[1])
  let u : MergeTree SyncPayload := .node (.node (.leaf bareNewest) (.leaf themePayloads[1])) (.leaf themePayloads[0])
  have ht : t.leaves.Perm (bareNewest :: themePayloads) := by decide
  have hu : u.leaves.Perm (bareNewest :: themePayloads) := by decide
  constructor
  · intro h
    exact absurd (h t u ht hu) (by decide)
  · intro h
    exact absurd (h t u ht hu) (by decide +kernel)

end

end Pebrel.Sync
