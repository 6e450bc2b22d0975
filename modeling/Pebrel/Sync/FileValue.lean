import Pebrel.Sync.Convergence
import Pebrel.Sync.Device

/-!
# The value of a setting

What a settings file and a payload say about one scalar setting, and what the
operations of the sync make of it: a snapshot has the value of the file, a
merge the value of the newer payload if it has one, a packet the value of the
payload that was uploaded, and a file that a payload is written to the value of
the payload.

The last of these holds for clean payloads, whose texts have no newlines. The
devices themselves make no others: `Clean` is kept by all operations.
-/

namespace Pebrel.Sync

open Library List Option Text SyncPayload Json
open Assoc (collect mem_values values values_cons)

/-- The texts of a payload have no newlines, and its scalars are trimmed. -/
structure SyncPayload.Clean (p : SyncPayload) : Prop where
  allowed : p.Allowed
  settings : ∀ e ∈ p.settings, '\n' ∉ e.2
  trimmed : ∀ e ∈ p.settings, e.1 ∉ listKeys → .trim e.2 = e.2
  keybinds : ∀ e ∈ p.keybinds, '\n' ∉ e.1 ∧ '\n' ∉ e.2

/-- The value that a line of the settings file gives a key. -/
def lineValue (key line : Text) : Option Text := (settingOfLine line).bind fun e => if e.1 = key then some e.2 else none

/-- The values that a settings file gives a key, line by line. -/
def fileValues (text key : Text) : List Text := (Text.lines text).filterMap (lineValue key)

/-- The value of a key in a settings file: the last line counts. -/
def fileValue (text key : Text) : Option Text := (fileValues text key).getLast?

variable {key line : Text} {e : Text × Text} {p : SyncPayload}

theorem syncKeys_plain (h : key ∈ syncKeys) : '\n' ∉ key ∧ '=' ∉ key ∧ .trim key = key ∧ key ≠ keybindKey := by
  have ha : ∀ key ∈ syncKeys, '\n' ∉ key ∧ '=' ∉ key ∧ trim key = key ∧ key ≠ keybindKey := by decide
  exact ha key h

/-! ### Lines -/

/-- The carriage return at the end of a line is not part of its value. -/
theorem settingOfLine_stripCr (line : Text) : settingOfLine (.stripCr line) = settingOfLine line := by
  rw [settingOfLine, settingOfLine, splitOnce_stripCr (by decide)]
  cases splitOnce '=' line with
  | none => rfl
  | some e => simp only [map_some, trim_stripCr]

theorem lineValue_stripCr (key line : Text) : lineValue key (.stripCr line) = lineValue key line := by
  unfold lineValue
  rw [settingOfLine_stripCr]

/-- A line has a value for a key of the sync set just when that is its key. -/
theorem lineValue_isSome_iff (hk : key ∈ syncKeys) : (lineValue key line).isSome = true ↔ lineKey line = some key := by
  obtain ⟨-, -, -, hbind⟩ := syncKeys_plain hk
  unfold lineValue settingOfLine lineKey
  cases splitOnce '=' line with
  | none => simp
  | some e =>
    simp only [map_some, some.injEq]
    by_cases heq : trim e.1 = key
    · rw [heq, if_neg hbind, if_pos hk, bind_some, if_pos rfl]
      simp
    · split_ifs <;> simp [heq]

theorem lineValue_settingLine (hk : e.1 ∈ syncKeys) :
    lineValue key (settingLine e) = if e.1 = key then some (.trim e.2) else none := by
  obtain ⟨-, heq, htrim, hbind⟩ := syncKeys_plain hk
  unfold lineValue settingOfLine settingLine
  rw [splitOnce_append heq]
  simp only [htrim, if_neg hbind, if_pos hk, bind_some]

theorem lineValue_keybindLine (key : Text) (e : Text × Text) : lineValue key (keybindLine e) = none := by
  have hk : '=' ∉ keybindKey := by decide
  unfold lineValue settingOfLine keybindLine
  rw [splitOnce_append hk]
  simp only [trim_keybindKey, if_true, bind_none]

/-! ### Writing a payload to the file -/

namespace SyncPayload

variable {p : SyncPayload}

theorem mem_of_value {key v : Text} (h : p.value key = some v) : (key, v) ∈ p.settings := mem_values.mp (mem_of_getLast? h)

end SyncPayload

/-- A line of the file is rewritten to one with the value of the payload, if it has one. -/
theorem lineValue_rewriteLine (hp : p.Clean) (hk : key ∈ syncKeys) (hsc : key ∉ listKeys) (line : Text) :
    (rewriteLine p line).bind (lineValue key) =
      match p.value key with
      | some v => (lineValue key line).map fun _ => v
      | none => lineValue key line := by
  have ho : lineKey line ≠ some key → lineValue key line = none := fun hne =>
    not_isSome_iff_eq_none.mp fun hs => hne ((lineValue_isSome_iff hk).mp hs)
  have hn : lineKey line ≠ some key → (match p.value key with
      | some v => (lineValue key line).map fun _ => v
      | none => lineValue key line) = none := fun hne => by
    rw [ho hne]
    cases p.value key <;> rfl
  cases hsp : splitOnce '=' line with
  | none =>
    have hlk : lineKey line = none := by rw [lineKey, hsp, map_none]
    have hne : lineKey line ≠ some key := by rw [hlk]; exact some_ne_none key |>.symm
    rw [hn hne]
    unfold rewriteLine
    rw [hsp]
    simp only
    split
    · rfl
    · exact ho hne
  | some e =>
    have hlk : lineKey line = some (trim e.1) := by rw [lineKey, hsp, map_some]
    unfold rewriteLine
    rw [hsp]
    simp only
    by_cases hbind : e.1 = keybindKey
    · have hne : lineKey line ≠ some key := by
        rw [hlk, hbind, trim_keybindKey]
        exact fun h => (syncKeys_plain hk).2.2.2 (some.inj h).symm
      rw [if_pos hbind, hn hne, bind_none]
    · rw [if_neg hbind]
      cases hval : p.value (trim e.1) with
      | some w =>
        have hm := SyncPayload.mem_of_value hval
        simp only
        rw [bind_some, lineValue_settingLine (hp.allowed _ hm)]
        by_cases heq : trim e.1 = key
        · have hs := (lineValue_isSome_iff hk).mpr (hlk.trans (congrArg some heq))
          obtain ⟨v, hv⟩ := isSome_iff_exists.mp hs
          rw [if_pos heq, hv, ← heq, hval, hp.trimmed _ hm (by rw [heq]; exact hsc)]
          rfl
        · rw [if_neg heq, hn]
          rw [hlk]
          exact fun h => heq (some.inj h)
      | none =>
        simp only
        rw [if_neg (trim_ne_nil_of_splitOnce hsp), bind_some]
        by_cases heq : trim e.1 = key
        · rw [← heq, hval]
        have hne : lineKey line ≠ some key := by
          rw [hlk]
          exact fun h => heq (some.inj h)
        rw [hn hne, ho hne]

theorem newline_not_mem_settingLine (hp : p.Clean) (he : e ∈ p.settings) : '\n' ∉ settingLine e := by
  obtain ⟨hnl, -⟩ := syncKeys_plain (hp.allowed e he)
  intro hm
  rcases mem_append.mp hm with h | h
  · exact hnl h
  · rcases mem_cons.mp h with h | h
    · exact absurd h (by decide)
    · exact hp.settings e he h

theorem newline_not_mem_keybindLine (hp : p.Clean) (he : e ∈ p.keybinds) : '\n' ∉ keybindLine e := by
  obtain ⟨hc, ha⟩ := hp.keybinds e he
  intro hm
  rcases mem_append.mp hm with h | h
  · exact absurd h (by decide)
  rcases mem_cons.mp h with h | h
  · exact absurd h (by decide)
  · rcases mem_append.mp h with h | h
    · exact hc h
    · rcases mem_cons.mp h with h | h
      · exact absurd h (by decide)
      · exact ha h

theorem newline_not_mem_rewriteLine (hp : p.Clean) {piece : Text} (hl : '\n' ∉ line)
    (h : rewriteLine p line = some piece) : '\n' ∉ piece := by
  have hk : (if trim line = [] then none else some line) = some piece → '\n' ∉ piece := fun h => by
    obtain ⟨-, h⟩ := ite_none_left_eq_some.mp h
    rw [← some.inj h]
    exact hl
  unfold rewriteLine at h
  simp only at h
  generalize (if trim line = [] then none else some line) = kept at h hk
  cases hsp : splitOnce '=' line with
  | none =>
    rw [hsp] at h
    exact hk h
  | some e =>
    rw [hsp] at h
    obtain ⟨-, h⟩ := ite_none_left_eq_some.mp h
    cases hv : p.value (trim e.1) with
    | none =>
      rw [hv] at h
      exact hk h
    | some v =>
      rw [hv] at h
      rw [← some.inj h]
      exact newline_not_mem_settingLine hp (SyncPayload.mem_of_value hv)

/-- The values of a key in what is written line by line. -/
theorem fileValues_unlines {pieces : List Text} (h : ∀ piece ∈ pieces, '\n' ∉ piece) (key : Text) :
    fileValues (.unlines pieces) key = pieces.filterMap (lineValue key) := by
  unfold fileValues
  rw [lines_unlines]
  induction pieces with
  | nil => rfl
  | cons piece pieces ih =>
    rw [flatMap_cons, filterMap_append, ih fun q hq => h q (mem_cons_of_mem piece hq),
      readBack_of_not_mem (h piece mem_cons_self), filterMap_cons, filterMap_cons, filterMap_nil,
      lineValue_stripCr]
    cases lineValue key piece <;> rfl

/-- **The value of a setting** in a file that a clean payload is written to: that of the payload,
or that of the file where the payload has none. -/
theorem fileValue_apply (hp : p.Clean) (hk : key ∈ syncKeys) (hsc : key ∉ listKeys)
    (text : Text) : fileValue (applyToSettingsText p text) key = (p.value key).or (fileValue text key) := by
  have hpie : ∀ piece ∈ (Text.lines text).filterMap (rewriteLine p) ++
      ((p.settings.filter fun e => e.1 ∉ existingKeys text).map settingLine ++ p.keybinds.map keybindLine),
      '\n' ∉ piece := by
    intro piece hpiec
    rcases mem_append.mp hpiec with h | h
    · obtain ⟨line, hl, hrw⟩ := mem_filterMap.mp h
      exact newline_not_mem_rewriteLine hp (not_mem_of_mem_lines hl) hrw
    rcases mem_append.mp h with h | h
    · obtain ⟨e, he, rfl⟩ := List.mem_map.mp h
      exact newline_not_mem_settingLine hp (mem_of_mem_filter he)
    · obtain ⟨e, he, rfl⟩ := List.mem_map.mp h
      exact newline_not_mem_keybindLine hp he
  have ha : ((p.settings.filter fun e => e.1 ∉ existingKeys text).map settingLine).filterMap (lineValue key) =
      if key ∈ existingKeys text then [] else values key p.settings := by
    rw [filterMap_map]
    have hset : ∀ settings : List (Text × Text), (∀ e ∈ settings, e ∈ p.settings) →
        (settings.filter fun e => e.1 ∉ existingKeys text).filterMap (lineValue key ∘ settingLine) =
          if key ∈ existingKeys text then [] else values key settings := by
      intro settings hs
      induction settings with
      | nil => rw [Assoc.values_nil, ite_self]; rfl
      | cons e settings ih =>
        have ih := ih fun f hf => hs f (mem_cons_of_mem e hf)
        have hm := hs e mem_cons_self
        have hv : (lineValue key ∘ settingLine) e = if e.1 = key then some (trim e.2) else none := lineValue_settingLine (hp.allowed e hm)
        rw [filter_cons, values_cons]
        by_cases heq : e.1 = key
        · have htrim := hp.trimmed e hm (by rw [heq]; exact hsc)
          rw [if_pos heq, htrim] at hv
          rw [if_pos heq]
          by_cases hin : key ∈ existingKeys text
          · rw [if_pos hin] at ih ⊢
            rw [if_neg (by simp [heq, hin]), ih]
          · rw [if_neg hin] at ih ⊢
            rw [if_pos (by simp [heq, hin]), filterMap_cons_some hv, ih]
        · rw [if_neg heq] at hv
          rw [if_neg heq]
          split
          · rw [filterMap_cons_none hv, ih]
          · exact ih
    exact hset p.settings fun e he => he
  have hb : (p.keybinds.map keybindLine).filterMap (lineValue key) = [] := by
    rw [filterMap_map, filterMap_eq_nil_iff]
    exact fun e _ => lineValue_keybindLine key e
  have hexi : key ∈ existingKeys text ↔ fileValues text key ≠ [] := by
    rw [ne_eq, fileValues, filterMap_eq_nil_iff, existingKeys, mem_filterMap]
    push Not
    simp only [ne_eq, ← lineValue_isSome_iff hk, isSome_iff_ne_none]
  have hvs : fileValues (applyToSettingsText p text) key =
      (Text.lines text).filterMap (fun line => (rewriteLine p line).bind (lineValue key)) ++
        if key ∈ existingKeys text then [] else values key p.settings := by
    rw [applyToSettingsText, fileValues_unlines hpie, filterMap_append, filterMap_append, ha, hb, append_nil, filterMap_filterMap]
  unfold fileValue
  rw [hvs]
  simp only [lineValue_rewriteLine hp hk hsc]
  cases hv : p.value key with
  | none =>
    have hn : values key p.settings = [] := getLast?_eq_none_iff.mp hv
    rw [hn, ite_self, append_nil, none_or]
    rfl
  | some v =>
    rw [some_or]
    have hmap : (Text.lines text).filterMap (fun line => (lineValue key line).map fun _ => v) = (fileValues text key).map fun _ => v := by
      rw [fileValues, map_filterMap]
    simp only
    rw [hmap]
    by_cases hin : key ∈ existingKeys text
    · obtain ⟨init, last, hlast⟩ := eq_nil_or_concat _ |>.resolve_left (hexi.mp hin)
      rw [if_pos hin, append_nil, hlast, concat_eq_append, map_append, map_singleton, getLast?_concat]
    · have hn : fileValues text key = [] := not_not.mp fun hne => hin (hexi.mpr hne)
      rw [if_neg hin, hn, map_nil, nil_append]
      exact hv

/-! ### Snapshots -/

section
variable [ToLowercase]

theorem value_payloadFromSettingsText (now : ℕ) (device text : Text) (history : List Text) (key : Text) :
    (payloadFromSettingsText now device text history).value key = fileValue text key := by
  have hvs : ∀ lines : List Text, values key (lines.filterMap settingOfLine) = lines.filterMap (lineValue key) := by
    intro lines
    induction lines with
    | nil => rfl
    | cons line lines ih =>
      cases hl : settingOfLine line with
      | none =>
        have hn : lineValue key line = none := by rw [lineValue, hl, bind_none]
        rw [filterMap_cons_none hl, filterMap_cons_none hn, ih]
      | some e =>
        have hv : lineValue key line = if e.1 = key then some e.2 else none := by rw [lineValue, hl, bind_some]
        rw [filterMap_cons_some hl, values_cons, ih]
        split at hv
        · rw [filterMap_cons_some hv, if_pos ‹_›]
        · rw [filterMap_cons_none hv, if_neg ‹_›]
  unfold value payloadFromSettingsText fileValue fileValues
  rw [hvs]

theorem clean_payloadFromSettingsText (now : ℕ) (device text : Text) (history : List Text) :
    (payloadFromSettingsText now device text history).Clean := by
  have hsp : ∀ {c : Char} {line : Text} {e : Text × Text}, line ∈ Text.lines text → splitOnce c line = some e → '\n' ∉ e.2 := by
    intro c line e hl h hm
    obtain ⟨hl', -⟩ := splitOnce_eq_some.mp h
    refine not_mem_of_mem_lines hl ?_
    rw [hl']
    exact mem_append_right _ (mem_cons_of_mem c hm)
  have hsett : ∀ e ∈ (Text.lines text).filterMap settingOfLine, '\n' ∉ e.2 ∧ trim e.2 = e.2 := by
    intro e he
    obtain ⟨line, hl, hs⟩ := mem_filterMap.mp he
    unfold settingOfLine at hs
    cases hr : splitOnce '=' line with
    | none => rw [hr] at hs; cases hs
    | some raw =>
      rw [hr] at hs
      simp only at hs
      obtain ⟨-, hs⟩ := ite_none_left_eq_some.mp hs
      obtain ⟨-, hs⟩ := ite_none_right_eq_some.mp hs
      rw [← some.inj hs]
      exact ⟨fun hm => hsp hl hr (mem_of_mem_trim hm), trim_trim _⟩
  refine ⟨allowed_payloadFromSettingsText now device text history, fun e he => (hsett e he).1, fun e he _ => (hsett e he).2, fun e he => ?_⟩
  obtain ⟨line, hl, hbind⟩ := mem_filterMap.mp he
  unfold keybindOfLine at hbind
  cases hr : splitOnce '=' line with
  | none => rw [hr] at hbind; cases hbind
  | some raw =>
    rw [hr] at hbind
    obtain ⟨-, hbind⟩ := ite_none_right_eq_some.mp hbind
    obtain ⟨ca, hca, rfl⟩ := map_eq_some_iff.mp hbind
    have hv := hsp hl hr
    rw [(splitOnce_eq_some.mp hca).1, mem_append, mem_cons, not_or, not_or] at hv
    obtain ⟨hc, -, ha⟩ := hv
    exact ⟨fun hm => hc (mem_of_mem_trim (ToLowercase.newline_of_mem hm)), fun hm => ha (mem_of_mem_trim hm)⟩

end

/-! ### Merges -/

/-- What holds of all values of a key and is kept by uniting two holds of the values kept. -/
theorem forall_keptValues {P : Text → Prop} (hmg : ∀ v w, P v → P w → P (mergeValue key v w))
    {newer older : List Text} (hn : ∀ v ∈ newer, P v) (ho : ∀ w ∈ older, P w) :
    ∀ v ∈ keptValues key newer older, P v := by
  unfold keptValues
  induction older generalizing newer with
  | nil => exact hn
  | cons w older ih =>
    have hw := ho w mem_cons_self
    refine ih ?_ fun v hv => ho v (mem_cons_of_mem w hv)
    cases newer with
    | nil =>
      intro v hv
      rw [mem_singleton.mp hv]
      exact hw
    | cons v newer =>
      intro u hu
      rcases mem_cons.mp hu with rfl | hu
      · exact hmg v w (hn v mem_cons_self) hw
      · exact hn u (mem_cons_of_mem v hu)

theorem newline_not_mem_mergeList {v w : Text} (hv : '\n' ∉ v) (hw : '\n' ∉ w) : '\n' ∉ mergeList v w := by
  have hite : ∀ list : Text, '\n' ∉ list → ∀ item ∈ listItems list, '\n' ∉ item := by
    intro list hl item hi hm
    obtain ⟨piece, hp, rfl⟩ := List.mem_map.mp (mem_of_mem_filter hi)
    exact hl (mem_of_mem_splitOn hp (mem_of_mem_trim hm))
  intro hm
  rcases mem_intercalate hm with h | ⟨item, hi, h⟩
  · exact absurd h (by decide)
  · rcases mem_append.mp (mem_distinct.mp hi) with hi | hi
    · exact hite v hv item hi h
    · exact hite w hw item hi h

section
variable [JsonText]

theorem clean_mergeOver {newer older : SyncPayload} (hn : newer.Clean) (ho : older.Clean) : (mergeOver newer older).Clean := by
  have hvs : ∀ e ∈ (mergeOver newer older).settings,
      e.2 ∈ keptValues e.1 (values e.1 newer.settings) (values e.1 older.settings) := by
    intro e he
    rw [← values_mergeSettings]
    exact mem_values.mpr he
  refine ⟨allowed_mergeOver hn.allowed ho.allowed, fun e he => ?_, fun e he hsc => ?_, fun e he => ?_⟩
  · refine forall_keptValues (P := fun v => '\n' ∉ v) (fun v w hv hw => ?_) (fun v hv => hn.settings (e.1, v) (mem_values.mp hv))
      (fun v hv => ho.settings (e.1, v) (mem_values.mp hv)) e.2 (hvs e he)
    unfold mergeValue
    split
    · exact newline_not_mem_mergeList hv hw
    · exact hv
  · refine forall_keptValues (P := fun v => trim v = v) (fun v w hv _ => ?_) (fun v hv => hn.trimmed (e.1, v) (mem_values.mp hv) hsc)
      (fun v hv => ho.trimmed (e.1, v) (mem_values.mp hv) hsc) e.2 (hvs e he)
    rw [mergeValue, if_neg hsc]
    exact hv
  · have hm : e.2 ∈ values e.1 (mergeKeybinds newer.keybinds older.keybinds) := mem_values.mpr he
    rw [values_mergeKeybinds, mem_toList, or_eq_some_iff] at hm
    rcases hm with h | ⟨-, h⟩
    · exact hn.keybinds e (mem_values.mp (mem_of_getLast? h))
    · exact ho.keybinds e (mem_values.mp (mem_of_getLast? h))

theorem clean_merge {here remote : SyncPayload} (hh : here.Clean) (hr : remote.Clean) : (merge here remote).Clean := by
  rw [merge_eq]
  rcases MergeTree.newer_or_older modified here remote with ⟨hn, ho⟩ | ⟨hn, ho⟩
  · rw [hn, ho]
    exact clean_mergeOver hh hr
  · rw [hn, ho]
    exact clean_mergeOver hr hh

/-- The value of a scalar in a merge: that of the newer payload, or what the older one fills in. -/
theorem value_merge {key : Text} (hsc : key ∉ listKeys) (here remote : SyncPayload) : (merge here remote).value key =
      ((MergeTree.newer modified here remote).value key).or ((MergeTree.older modified here remote).first key) := by
  have hf : (merge here remote).first key = ((MergeTree.newer modified here remote).first key).or
        ((MergeTree.older modified here remote).first key) := isRegister_first hsc here remote
  rw [value_eq, others_merge, hf, value_eq, Option.or_assoc]

end

/-! ### Packets -/

/-- The stamps that a packet can carry. -/
def stampBound : ℕ := 2 ^ 64

theorem field_settings (p : SyncPayload) : (payloadToJson p).field "settings".toList =
    .object (collect (p.settings.map fun e => (e.1, string e.2))) := rfl

theorem field_keybinds (p : SyncPayload) : (payloadToJson p).field "keybinds".toList =
    .array (p.keybinds.map fun e => array [.string e.1, .string e.2]) := rfl

theorem field_modified (p : SyncPayload) : (payloadToJson p).field "modified".toList = .int p.modified := rfl

section
variable [ToLowercase] {key : Text} {p : SyncPayload}

theorem settings_payloadFromJson (p : SyncPayload) : (payloadFromJson (payloadToJson p)).settings =
      (collect (p.settings.map fun e => (e.1, string e.2))).filterMap settingOfMember := by
  show (((payloadToJson p).field "settings".toList).asObject.getD []).filterMap settingOfMember = _
  rw [field_settings]
  rfl

theorem keybinds_payloadFromJson (p : SyncPayload) :
    (payloadFromJson (payloadToJson p)).keybinds = p.keybinds.map fun e => (toLowercase e.1, e.2) := by
  have hents : (payloadFromJson (payloadToJson p)).keybinds =
      (p.keybinds.map fun e => array [.string e.1, .string e.2]).filterMap keybindOfEntry := by
    show (((payloadToJson p).field "keybinds".toList).asArray.getD []).filterMap keybindOfEntry = _
    rw [field_keybinds]
    rfl
  rw [hents, filterMap_map, ← filterMap_eq_map]
  rfl

/-- What a packet of a payload is read back as, for one key. -/
theorem values_payloadFromJson (p : SyncPayload) (hk : key ∈ syncKeys) :
    values key (payloadFromJson (payloadToJson p)).settings = (p.value key).toList := by
  have hm : ∀ members : List (Text × Json),
      values key (members.filterMap settingOfMember) = (values key members).filterMap asStr := by
    intro members
    induction members with
    | nil => rfl
    | cons m members ih =>
      rw [values_cons]
      by_cases heq : m.1 = key
      · rw [if_pos heq]
        have hs : settingOfMember m = m.2.asStr.map fun text => (m.1, text) := if_pos (by rw [heq]; exact hk)
        cases hstr : m.2.asStr with
        | none =>
          rw [hstr, map_none] at hs
          rw [filterMap_cons_none hs, filterMap_cons_none hstr, ih]
        | some text =>
          rw [hstr, map_some] at hs
          rw [filterMap_cons_some hs, filterMap_cons_some hstr, values_cons, if_pos heq, ih]
      · rw [if_neg heq, ← ih]
        cases hs : settingOfMember m with
        | none => rw [filterMap_cons_none hs]
        | some e =>
          have hkeys : e.1 = m.1 := by
            obtain ⟨-, hs⟩ := ite_none_right_eq_some.mp hs
            obtain ⟨text, -, rfl⟩ := map_eq_some_iff.mp hs
            rfl
          rw [filterMap_cons_some hs, values_cons, if_neg (by rw [hkeys]; exact heq)]
  have hstri : values key (p.settings.map fun e => (e.1, string e.2)) = (values key p.settings).map string := by
    induction p.settings with
    | nil => rfl
    | cons e settings ih =>
      rw [map_cons, values_cons, values_cons, ih]
      by_cases heq : e.1 = key
      · rw [if_pos heq, if_pos heq, map_cons]
      · rw [if_neg heq, if_neg heq]
  rw [settings_payloadFromJson, hm, Assoc.values_collect, hstri, getLast?_map, value]
  cases (values key p.settings).getLast? <;> rfl

theorem value_payloadFromJson (p : SyncPayload) (hk : key ∈ syncKeys) : (payloadFromJson (payloadToJson p)).value key = p.value key ∧
      (payloadFromJson (payloadToJson p)).first key = p.value key := by
  rw [value, first, values_payloadFromJson p hk]
  cases p.value key <;> exact ⟨rfl, rfl⟩

theorem modified_payloadFromJson (h : p.modified < stampBound) : (payloadFromJson (payloadToJson p)).modified = p.modified := by
  have hf : (payloadFromJson (payloadToJson p)).modified = (int p.modified).asU64.getD 0 := by
    simp only [payloadFromJson]
    rw [field_modified]
  have hb : (0 : ℤ) ≤ p.modified ∧ (p.modified : ℤ) < 2 ^ 64 := by
    unfold stampBound at h
    omega
  rw [hf, asU64, if_pos hb, getD_some, Int.toNat_natCast]

theorem clean_payloadFromJson (hp : p.Clean) : (payloadFromJson (payloadToJson p)).Clean := by
  have hald := allowed_payloadFromJson (payloadToJson p)
  have hs : ∀ e ∈ (payloadFromJson (payloadToJson p)).settings, e ∈ p.settings := by
    intro e he
    have hv := mem_values.mpr he
    rw [values_payloadFromJson p (hald e he), mem_toList] at hv
    exact SyncPayload.mem_of_value hv
  refine ⟨hald, fun e he => hp.settings e (hs e he), fun e he => hp.trimmed e (hs e he), fun e he => ?_⟩
  rw [keybinds_payloadFromJson] at he
  obtain ⟨e', he', rfl⟩ := List.mem_map.mp he
  obtain ⟨hc, ha⟩ := hp.keybinds e' he'
  exact ⟨fun hm => hc (ToLowercase.newline_of_mem hm), ha⟩

end

end Pebrel.Sync
