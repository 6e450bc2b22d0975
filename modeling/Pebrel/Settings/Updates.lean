import Pebrel.Sync.Settings

/-!
# Writing settings and reading them back

The settings file has lines `key=value` (`nebula_settings/lib.rs`).
`RawSettings::from_text` reads them into a map, so that the last line of a key
counts. `apply_updates` replaces the first line of a key that is updated and adds
a line where there is none. Key bindings are lines of one key, `keybind`, that
`apply_keybinds` replaces as a whole.

## What is proved

`updates_read_iff` says exactly when every update is read back, and every other
key keeps its value: each updated key is one that a line can carry, and the text
has no more lines for it than there are updates of it, or else the last of them
has the new value already. `keybinds_read_iff` says the same of the key bindings
and of the other lines.

A map is the list of its entries. Keys are compared up to ASCII case, as the
source does.
-/

namespace Pebrel.Settings

open Library StableSort List Prod Text
open Option (any_some bind_some map_eq_some_iff map_none map_some some)
open Text (lines splitOnce stripCr trim)
open Sync (lineKey settingLine keybindLine keybindKey)
open Library.Text (toAsciiLowercase eqIgnoreAsciiCase)

/-! ### Reading -/

/-- The entry that a line stands for. -/
def entryOfLine (line : Text) : Option (Text × Text) :=
  (splitOnce '=' line).map fun e => (toAsciiLowercase (trim e.1), trim e.2)

/-- The entries of a text, line by line. -/
def entries (text : Text) : List (Text × Text) := (lines text).filterMap entryOfLine

structure RawSettings where
  values : List (Text × Text)

namespace RawSettings

def fromText (text : Text) : RawSettings := ⟨Assoc.collect (entries text)⟩

/-- The value of a key; an empty one is no value. -/
def value (raw : RawSettings) (key : Text) : Option Text :=
  (Assoc.values (toAsciiLowercase key) raw.values).head?.filter fun value => value ≠ []

end RawSettings

open RawSettings (fromText)

/-- The pair that a line with a key binding stands for. -/
def keybindPairOfLine (line : Text) : Option (Text × Text) :=
  match splitOnce '=' line with
  | none => none
  | some (key, value) =>
    if !eqIgnoreAsciiCase (.trim key) keybindKey then none
    else
      match splitOnce ':' value with
      | none => none
      | some (combo, action) =>
        let combo := trim combo
        let action := trim action
        if combo = [] ∨ action = [] then none else some (combo, action)

def keybindPairsFromText (text : Text) : List (Text × Text) := (lines text).filterMap keybindPairOfLine

/-! ### Writing -/

/-- The updates that are still to be written, each with its place among all. -/
abbrev Pending := List ((Text × Text) × ℕ)

/-- Does an update have the key of a line? -/
def hits (key : Text) (u : (Text × Text) × ℕ) : Bool := eqIgnoreAsciiCase u.1.1 (toAsciiLowercase key)

/-- The first pending update of the key of a line. -/
def hit (line : Text) (pending : Pending) : Option (Text × (Text × Text) × ℕ) :=
  (lineKey line).bind fun key => (pending.find? (hits key)).map fun u => (key, u)

/-- The lines of the text, each replaced by the first pending update of its key, and what is
left pending. -/
def replaceLines : List Text → Pending → List Text × Pending
  | [], pending => ([], pending)
  | line :: rest, pending =>
    match hit line pending with
    | some (key, u) =>
      let (out, left) := replaceLines rest (pending.eraseP (hits key))
      (settingLine u.1 :: out, left)
    | none =>
      let (out, left) := replaceLines rest pending
      (line :: out, left)

def applyUpdates (text : Text) (updates : List (Text × Text)) : Text :=
  let (out, pending) := replaceLines (lines text) updates.zipIdx
  Text.unlines (out ++ (sortByKey Prod.snd pending).map fun u => settingLine u.1)

/-- Is the line one of a key binding? -/
def isKeybind (line : Text) : Bool :=
  (splitOnce '=' line).any fun e => eqIgnoreAsciiCase (trim e.1) keybindKey

/-- The lines that are none of a key binding. -/
def otherLines (text : Text) : List Text := (lines text).filter fun line => !isKeybind line

def applyKeybinds (text : Text) (pairs : List (Text × Text)) : Text :=
  .unlines (otherLines text ++ pairs.map keybindLine)

/-! ### What is to be read back -/

/-- A value that is trimmed, a single line, and not empty. -/
structure PlainText (value : Text) : Prop where
  trimmed : .trim value = value
  single : '\n' ∉ value
  nonempty : value ≠ []

/-- A key that a line can carry. -/
structure Carried (key : Text) : Prop where
  trimmed : .trim key = key
  single : '\n' ∉ key
  plain : '=' ∉ key

/-- Every update is read back, and every other key has its old value. -/
structure UpdatesRead (text : Text) (updates : List (Text × Text)) : Prop where
  updated : ∀ u ∈ updates, (fromText (applyUpdates text updates)).value u.1 = some u.2
  others : ∀ key, (∀ u ∈ updates, ¬ eqIgnoreAsciiCase u.1 key) →
    (fromText (applyUpdates text updates)).value key = (fromText text).value key

/-- How many lines of the text have the key. -/
def linesOf (key text : Text) : ℕ :=
  (lines text).countP fun line => (lineKey line).any fun lineKey => eqIgnoreAsciiCase key lineKey

/-- How many updates have the key. -/
def updatesOf (key : Text) (updates : List (Text × Text)) : ℕ := updates.countP fun u => eqIgnoreAsciiCase key u.1

/-- A line can carry every updated key, updates of one key agree, and no key has more lines
than updates, but where the last line has the new value already. -/
structure UpdatesFit (text : Text) (updates : List (Text × Text)) : Prop where
  carried : ∀ u ∈ updates, Carried u.1
  agree : ∀ u ∈ updates, ∀ u' ∈ updates, eqIgnoreAsciiCase u.1 u'.1 → u.2 = u'.2
  counted : ∀ u ∈ updates, linesOf u.1 text ≤ updatesOf u.1 updates ∨ (fromText text).value u.1 = some u.2

/-- The pairs are read back, and the other lines stay as they are, in order. -/
structure KeybindsRead (text : Text) (pairs : List (Text × Text)) : Prop where
  bindings : keybindPairsFromText (applyKeybinds text pairs) = pairs
  others : otherLines (applyKeybinds text pairs) = otherLines text

/-- Combos and actions are plain, combos have no colon, and no other line ends with a carriage
return of its own. -/
structure KeybindsFit (text : Text) (pairs : List (Text × Text)) : Prop where
  combo : ∀ e ∈ pairs, PlainText e.1 ∧ ':' ∉ e.1
  action : ∀ e ∈ pairs, PlainText e.2
  others : ∀ line ∈ otherLines text, line.getLast? ≠ some '\r'

/-! ### The entries of a text -/

section
variable {text line key value : Text} {u : Text × Text} {updates : List (Text × Text)} {pending : Pending}

theorem eqIgnoreAsciiCase_iff {s t : Text} : eqIgnoreAsciiCase s t = true ↔ toAsciiLowercase s = toAsciiLowercase t := by
  unfold eqIgnoreAsciiCase
  rw [decide_eq_true_eq]

theorem value_fromText (text key : Text) : (fromText text).value key =
      (Assoc.values (toAsciiLowercase key) (entries text)).getLast?.filter fun value => value ≠ [] := by
  unfold fromText RawSettings.value
  rw [Assoc.values_collect]
  cases (Assoc.values (toAsciiLowercase key) (entries text)).getLast? <;> rfl

theorem entryOfLine_stripCr (line : Text) : entryOfLine (.stripCr line) = entryOfLine line := by
  rw [entryOfLine, entryOfLine, splitOnce_stripCr (by decide), Option.map_map]
  exact congrArg (Option.map · _) (funext fun e => congrArg _ (trim_stripCr e.2))

/-- Lines without a newline are read back as they are, as far as their entries go. -/
theorem entries_unlines {ls : List Text} (h : ∀ line ∈ ls, '\n' ∉ line) : entries (.unlines ls) = ls.filterMap entryOfLine := by
  unfold entries
  rw [lines_unlines]
  induction ls with
  | nil => rfl
  | cons line ls ih =>
    rw [flatMap_cons, filterMap_append, ih fun l hl => h l (mem_cons_of_mem line hl),
      readBack_of_not_mem (h line mem_cons_self), filterMap_cons (l := ls), filterMap_cons,
      filterMap_nil, entryOfLine_stripCr]
    cases entryOfLine line <;> rfl

theorem not_mem_settingLine (hk : Carried u.1) (hv : PlainText u.2) : '\n' ∉ settingLine u := by
  unfold settingLine
  rw [mem_append, mem_cons, not_or, not_or]
  exact ⟨hk.single, by decide, hv.single⟩

theorem entryOfLine_settingLine (hk : Carried u.1) (hv : PlainText u.2) :
    entryOfLine (settingLine u) = some (toAsciiLowercase u.1, u.2) := by
  unfold entryOfLine settingLine
  rw [splitOnce_append hk.plain, map_some, hk.trimmed, hv.trimmed]

/-! ### What the updates become -/

/-- The entries that the pending updates stand for. -/
def pendingEntries (pending : Pending) : List (Text × Text) := pending.map fun u => (toAsciiLowercase u.1.1, u.1.2)

theorem hits_eq (key : Text) :
    hits key = (fun e : Text × Text => decide (e.1 = toAsciiLowercase key)) ∘ fun u => (toAsciiLowercase u.1.1, u.1.2) := by
  funext u
  unfold hits eqIgnoreAsciiCase
  rw [toAsciiLowercase_idem, Function.comp_apply]

theorem find?_hits (key : Text) (pending : Pending) : (pendingEntries pending).find? (fun e => e.1 = toAsciiLowercase key) =
      (pending.find? (hits key)).map fun u => (toAsciiLowercase u.1.1, u.1.2) := by
  unfold pendingEntries
  rw [find?_map, hits_eq]

theorem pendingEntries_eraseP (key : Text) (pending : Pending) :
    pendingEntries (pending.eraseP (hits key)) = (pendingEntries pending).eraseP fun e => e.1 = toAsciiLowercase key := by
  unfold pendingEntries
  rw [eraseP_map, hits_eq]

theorem entryOfLine_of_lineKey (h : lineKey line = some key) : ∃ w, entryOfLine line = some (toAsciiLowercase key, w) := by
  obtain ⟨e, he, rfl⟩ := map_eq_some_iff.mp h
  refine ⟨trim e.2, ?_⟩
  unfold entryOfLine
  rw [he, map_some]

theorem entryOfLine_of_lineKey_none (h : lineKey line = none) : entryOfLine line = none := by
  unfold entryOfLine
  rw [Option.map_eq_none_iff.mp h, map_none]

/-- Taken together, the lines that come out and the updates that are left have, for each key,
the values of its updates, and after them those of its lines that no update replaced. -/
theorem values_replaceLines (k : Text) (ls : List Text) {pending : Pending} (hp : ∀ u ∈ pending, Carried u.1.1 ∧ PlainText u.1.2) :
    Assoc.values k ((replaceLines ls pending).1.filterMap entryOfLine) ++ Assoc.values k (pendingEntries (replaceLines ls pending).2) =
      Assoc.values k (pendingEntries pending) ++
        (Assoc.values k (ls.filterMap entryOfLine)).drop (Assoc.values k (pendingEntries pending)).length := by
  induction ls generalizing pending with
  | nil => simp only [replaceLines, filterMap_nil, Assoc.values_nil, nil_append, drop_nil, append_nil]
  | cons line ls ih =>
    unfold replaceLines
    cases hkey : lineKey line with
    | none =>
      have hh : hit line pending = none := by rw [hit, hkey, Option.bind_none]
      simp only [hh, filterMap_cons, entryOfLine_of_lineKey_none hkey]
      exact ih hp
    | some key =>
      obtain ⟨w, he⟩ := entryOfLine_of_lineKey hkey
      cases hfd : pending.find? (hits key) with
      | none =>
        have hh : hit line pending = none := by rw [hit, hkey, bind_some, hfd, map_none]
        have hn : Assoc.values (toAsciiLowercase key) (pendingEntries pending) = [] := by
          refine Assoc.values_eq_nil_of_find? ?_
          rw [find?_hits, hfd, map_none]
        simp only [hh, filterMap_cons, he, Assoc.values_cons]
        by_cases hk : toAsciiLowercase key = k
        · have ih := ih hp
          rw [← hk, hn, nil_append, length_nil, drop_zero] at ih
          rw [if_pos hk, if_pos hk, ← hk, hn, cons_append, ih, nil_append, length_nil, drop_zero]
        · rw [if_neg hk, if_neg hk]
          exact ih hp
      | some u =>
        have hh : hit line pending = some (key, u) := by rw [hit, hkey, bind_some, hfd, map_some]
        have hu := hp u (mem_of_find?_eq_some hfd)
        have hr : ∀ v ∈ pending.eraseP (hits key), Carried v.1.1 ∧ PlainText v.1.2 := fun v hv =>
          hp v (mem_of_mem_eraseP hv)
        have hs : (pendingEntries pending).find? (fun e => e.1 = toAsciiLowercase key) = some (toAsciiLowercase u.1.1, u.1.2) := by
          rw [find?_hits, hfd, map_some]
        obtain ⟨hsm, hvs⟩ := Assoc.values_of_find? hs
        have ih := ih hr
        rw [pendingEntries_eraseP] at ih
        simp only [hh, filterMap_cons, he, entryOfLine_settingLine hu.1 hu.2, Assoc.values_cons]
        by_cases hk : toAsciiLowercase key = k
        · rw [← hk] at ih ⊢
          rw [if_pos hsm, if_pos rfl, hvs, cons_append, ih, length_cons, drop_succ_cons, cons_append]
        · have hne : toAsciiLowercase u.1.1 ≠ k := fun h => hk (hsm.symm.trans h)
          rw [if_neg hne, if_neg hk, ih, Assoc.values_eraseP_of_ne (Ne.symm hk)]

/-- What is left pending keeps its order. -/
theorem pending_sublist (ls : List Text) (pending : Pending) : (replaceLines ls pending).2.Sublist pending := by
  induction ls generalizing pending with
  | nil => exact .refl pending
  | cons line ls ih =>
    unfold replaceLines
    cases hit line pending with
    | none => exact ih pending
    | some hit => exact (ih _).trans eraseP_sublist

theorem mem_of_hit {v : (Text × Text) × ℕ} (h : hit line pending = some (key, v)) : v ∈ pending := by
  unfold hit at h
  obtain ⟨k, -, h⟩ := Option.bind_eq_some_iff.mp h
  obtain ⟨w, hw, heq⟩ := map_eq_some_iff.mp h
  cases heq
  exact mem_of_find?_eq_some hw

/-- A line that comes out is one of the text, or that of an update. -/
theorem mem_replaceLines {ls : List Text} {pending : Pending} (h : line ∈ (replaceLines ls pending).1) :
    line ∈ ls ∨ ∃ v ∈ pending, line = settingLine v.1 := by
  induction ls generalizing pending with
  | nil => cases h
  | cons first ls ih =>
    unfold replaceLines at h
    cases hh : hit first pending with
    | none =>
      simp only [hh] at h
      rcases mem_cons.mp h with rfl | h
      · exact .inl mem_cons_self
      · rcases ih h with h | h
        · exact .inl (mem_cons_of_mem first h)
        · exact .inr h
    | some hit =>
      simp only [hh] at h
      rcases mem_cons.mp h with rfl | h
      · exact .inr ⟨hit.2, mem_of_hit hh, rfl⟩
      · rcases ih h with h | ⟨v, hv, h⟩
        · exact .inl (mem_cons_of_mem first h)
        · exact .inr ⟨v, mem_of_mem_eraseP hv, h⟩

theorem pairwise_zipIdx {α : Type*} (l : List α) (n : ℕ) : (l.zipIdx n).Pairwise fun a b => a.2 ≤ b.2 := by
  induction l generalizing n with
  | nil => exact .nil
  | cons a l ih =>
    rw [zipIdx_cons, pairwise_cons]
    exact ⟨fun b hb => (Nat.le_succ n).trans (le_snd_of_mem_zipIdx hb), ih (n + 1)⟩

theorem pendingEntries_zipIdx (updates : List (Text × Text)) :
    pendingEntries updates.zipIdx = updates.map fun u => (toAsciiLowercase u.1, u.2) := by
  unfold pendingEntries
  calc updates.zipIdx.map (fun u => (toAsciiLowercase u.1.1, u.1.2))
      = (updates.zipIdx.map fst).map fun u => (toAsciiLowercase u.1, u.2) := by rw [List.map_map]; rfl
    _ = updates.map fun u => (toAsciiLowercase u.1, u.2) := by rw [zipIdx_map_fst]

/-- The values that the updates have for a key. -/
def updateValues (key : Text) (updates : List (Text × Text)) : List Text :=
  Assoc.values (toAsciiLowercase key) (updates.map fun u => (toAsciiLowercase u.1, u.2))

/-- The values that the lines of a text have for a key. -/
def lineValues (key text : Text) : List Text := Assoc.values (toAsciiLowercase key) (entries text)

/-- For each key, the updates come first and then what they leave of the lines. -/
theorem lineValues_applyUpdates (hu : ∀ u ∈ updates, Carried u.1 ∧ PlainText u.2) (text key : Text) :
    lineValues key (applyUpdates text updates) =
      updateValues key updates ++ (lineValues key text).drop (updateValues key updates).length := by
  have hpd : ∀ v ∈ updates.zipIdx, Carried v.1.1 ∧ PlainText v.1.2 := fun v hv =>
    hu v.1 (fst_mem_of_mem_zipIdx hv)
  have hs := pending_sublist (lines text) updates.zipIdx
  have hsort : sortByKey snd (replaceLines (lines text) updates.zipIdx).2 = (replaceLines (lines text) updates.zipIdx).2 :=
    sortByKey_eq_self snd ((pairwise_zipIdx updates 0).sublist hs)
  have hvs := values_replaceLines (toAsciiLowercase key) (lines text) hpd
  rw [pendingEntries_zipIdx] at hvs
  have hsing : ∀ line ∈ (replaceLines (lines text) updates.zipIdx).1 ++
      (replaceLines (lines text) updates.zipIdx).2.map (fun v => settingLine v.1), '\n' ∉ line := by
    intro line hl
    rcases mem_append.mp hl with hl | hl
    · rcases mem_replaceLines hl with hl | ⟨v, hv, rfl⟩
      · exact not_mem_of_mem_lines hl
      · exact not_mem_settingLine (hpd v hv).1 (hpd v hv).2
    · obtain ⟨v, hv, rfl⟩ := mem_map.mp hl
      have hv := hs.subset hv
      exact not_mem_settingLine (hpd v hv).1 (hpd v hv).2
  have hlf : ∀ left : Pending, left ⊆ updates.zipIdx → (left.map fun v => settingLine v.1).filterMap entryOfLine = pendingEntries left := by
    intro left hlf
    induction left with
    | nil => rfl
    | cons v left ih =>
      have hv := hpd v (hlf mem_cons_self)
      rw [map_cons, filterMap_cons, entryOfLine_settingLine hv.1 hv.2, ih fun w hw => hlf (mem_cons_of_mem v hw)]
      rfl
  unfold lineValues
  simp only [applyUpdates]
  rw [hsort, entries_unlines hsing, filterMap_append, Assoc.values_append, hlf _ hs.subset]
  exact hvs

/-! ### When they are read back -/

theorem length_lineValues (key text : Text) : (lineValues key text).length = linesOf key text := by
  unfold lineValues linesOf entries
  induction lines text with
  | nil => rfl
  | cons line ls ih =>
    rw [filterMap_cons, countP_cons, ← ih]
    cases hkey : lineKey line with
    | none => 
      rw [entryOfLine_of_lineKey_none hkey]
      rfl
    | some k =>
      obtain ⟨w, he⟩ := entryOfLine_of_lineKey hkey
      simp only [he, Assoc.values_cons, any_some, eqIgnoreAsciiCase_iff]
      by_cases hk : toAsciiLowercase k = toAsciiLowercase key
      · rw [if_pos hk, if_pos hk.symm, length_cons]
      · rw [if_neg hk, if_neg (Ne.symm hk), Nat.add_zero]

theorem length_updateValues (key : Text) (updates : List (Text × Text)) : (updateValues key updates).length = updatesOf key updates := by
  unfold updateValues updatesOf
  induction updates with
  | nil => rfl
  | cons u updates ih =>
    simp only [map_cons, Assoc.values_cons, countP_cons, ← ih, eqIgnoreAsciiCase_iff]
    by_cases hk : toAsciiLowercase u.1 = toAsciiLowercase key
    · rw [if_pos hk, if_pos hk.symm, length_cons]
    · rw [if_neg hk, if_neg (Ne.symm hk), Nat.add_zero]

theorem mem_updateValues : value ∈ updateValues key updates ↔ ∃ u ∈ updates, eqIgnoreAsciiCase u.1 key ∧ u.2 = value := by
  unfold updateValues
  rw [Assoc.mem_values, mem_map]
  simp only [Prod.mk.injEq, eqIgnoreAsciiCase_iff]

/-- A key that is read is one that a line can carry. -/
theorem carried_of_value (h : (fromText text).value key = some value) : Carried key := by
  rw [value_fromText, Option.filter_eq_some_iff] at h
  have hm := Assoc.mem_values.mp (mem_of_getLast? h.1)
  obtain ⟨line, hl, he⟩ := mem_filterMap.mp hm
  obtain ⟨e, hsp, heq⟩ := map_eq_some_iff.mp he
  obtain ⟨hps, hpl⟩ := splitOnce_eq_some.mp hsp
  have hk : toAsciiLowercase (trim e.1) = toAsciiLowercase key := congrArg fst heq
  have hsing : '\n' ∉ e.1 := fun hm => not_mem_of_mem_lines hl (hps ▸ mem_append_left _ hm)
  refine ⟨trim_eq_self_of_toAsciiLowercase ?_, fun hm => ?_, fun hm => ?_⟩
  · rw [← hk, trim_toAsciiLowercase, trim_trim]
  · rw [← mem_toAsciiLowercase (by decide), ← hk, mem_toAsciiLowercase (by decide)] at hm
    exact hsing (mem_of_mem_trim hm)
  · rw [← mem_toAsciiLowercase (by decide), ← hk, mem_toAsciiLowercase (by decide)] at hm
    exact hpl (mem_of_mem_trim hm)

theorem value_eqIgnoreAsciiCase {key' : Text} (h : eqIgnoreAsciiCase key key') (text : Text) :
    (fromText text).value key = (fromText text).value key' := by
  rw [value_fromText, value_fromText, eqIgnoreAsciiCase_iff.mp h]

/-- The value of a key after the updates is the last one of its updates, but where lines are
left over, and then it is the old one. -/
theorem value_applyUpdates (hu : ∀ u ∈ updates, Carried u.1 ∧ PlainText u.2) (text key : Text) :
    (fromText (applyUpdates text updates)).value key =
      if linesOf key text ≤ updatesOf key updates then (updateValues key updates).getLast?
      else (fromText text).value key := by
  have hvs := lineValues_applyUpdates hu text key
  unfold lineValues at hvs
  rw [value_fromText, value_fromText, hvs, ← length_lineValues, ← length_updateValues]
  unfold lineValues
  split
  · rename_i hle
    rw [drop_eq_nil_of_le hle, append_nil]
    cases hl : (updateValues key updates).getLast? with
    | none => rfl
    | some value =>
      obtain ⟨u, hm, -, rfl⟩ := mem_updateValues.mp (mem_of_getLast? hl)
      exact Option.filter_eq_some_iff.mpr ⟨rfl, decide_eq_true (hu u hm).2.nonempty⟩
  · rename_i hlt
    have hne : (Assoc.values (toAsciiLowercase key) (entries text)).drop (updateValues key updates).length ≠ [] := by
      rw [ne_eq, drop_eq_nil_iff]
      exact hlt
    rw [getLast?_append_of_ne_nil _ hne, getLast?_drop, if_neg hlt]

/-- Every update is read back, and every other key keeps its value, exactly when the updates
fit the text. -/
theorem updates_read_iff (hv : ∀ u ∈ updates, PlainText u.2) (text : Text) : UpdatesRead text updates ↔ UpdatesFit text updates := by
  constructor
  · rintro ⟨hupd, hoths⟩
    have hc : ∀ u ∈ updates, Carried u.1 := fun u hu => carried_of_value (hupd u hu)
    have ha : ∀ u ∈ updates, Carried u.1 ∧ PlainText u.2 := fun u hu => ⟨hc u hu, hv u hu⟩
    refine ⟨hc, fun u hu u' hu' hk => ?_, fun u hu => ?_⟩
    · have hsm := value_eqIgnoreAsciiCase hk (applyUpdates text updates)
      rw [hupd u hu, hupd u' hu'] at hsm
      exact some.inj hsm
    · by_cases hle : linesOf u.1 text ≤ updatesOf u.1 updates
      · exact Or.inl hle
      · have hval := hupd u hu
        rw [value_applyUpdates ha, if_neg hle] at hval
        exact Or.inr hval
  · rintro ⟨hc, hagr, hcou⟩
    have ha : ∀ u ∈ updates, Carried u.1 ∧ PlainText u.2 := fun u hu => ⟨hc u hu, hv u hu⟩
    refine ⟨fun u hu => ?_, fun key ho => ?_⟩
    · rw [value_applyUpdates ha]
      split
      · have hm : u.2 ∈ updateValues u.1 updates := mem_updateValues.mpr ⟨u, hu, eqIgnoreAsciiCase_iff.mpr rfl, rfl⟩
        obtain ⟨value, hl⟩ : ∃ value, (updateValues u.1 updates).getLast? = some value := ⟨_, getLast?_eq_some_getLast (ne_nil_of_mem hm)⟩
        obtain ⟨u', hu', hk, rfl⟩ := mem_updateValues.mp (mem_of_getLast? hl)
        rw [hl, hagr u' hu' u hu hk]
      · rename_i hle
        exact (hcou u hu).resolve_left hle
    · rw [value_applyUpdates ha]
      split
      · rename_i hle
        have hn : updateValues key updates = [] := by
          rw [eq_nil_iff_forall_not_mem]
          intro value hm
          obtain ⟨u, hu, hk, -⟩ := mem_updateValues.mp hm
          exact ho u hu hk
        have hls : lineValues key text = [] := by
          refine eq_nil_of_length_eq_zero ?_
          rw [length_lineValues]
          rw [← length_updateValues, hn] at hle
          exact Nat.le_zero.mp hle
        unfold lineValues at hls
        rw [hn, value_fromText, hls]
        rfl
      · rfl

/-! ### Key bindings -/

variable {pair : Text × Text} {pairs : List (Text × Text)}

theorem isKeybind_stripCr (line : Text) : isKeybind (.stripCr line) = isKeybind line := by
  have hk : ∀ l, isKeybind l = (lineKey l).any fun key => eqIgnoreAsciiCase key keybindKey := by
    intro l
    unfold isKeybind lineKey
    cases splitOnce '=' l <;> rfl
  rw [hk, hk, Pebrel.Sync.lineKey_stripCr]

/-- What a line with a key binding is read as is plain. -/
theorem plain_of_keybindPairOfLine (hl : '\n' ∉ line) (h : keybindPairOfLine line = some pair) :
    (PlainText pair.1 ∧ ':' ∉ pair.1) ∧ PlainText pair.2 := by
  unfold keybindPairOfLine at h
  split at h
  · cases h
  rename_i key value hsp
  split at h
  · cases h
  split at h
  · cases h
  · rename_i combo action hc
    simp only at h
    split at h
    · cases h
    rename_i hne
    cases h
    obtain ⟨hps, -⟩ := splitOnce_eq_some.mp hsp
    obtain ⟨hv, hcol⟩ := splitOnce_eq_some.mp hc
    have hsing : '\n' ∉ value := fun hm => hl (hps ▸ mem_append_right _ (mem_cons_of_mem _ hm))
    rw [hv, mem_append, mem_cons, not_or, not_or] at hsing
    rw [not_or] at hne
    exact ⟨⟨⟨trim_trim combo, fun hm => hsing.1 (mem_of_mem_trim hm), hne.1⟩, fun hm => hcol (mem_of_mem_trim hm)⟩,
      ⟨trim_trim action, fun hm => hsing.2.2 (mem_of_mem_trim hm), hne.2⟩⟩

theorem keybindPairOfLine_keybindLine (hc : PlainText pair.1) (hcol : ':' ∉ pair.1) (ha : PlainText pair.2) :
    keybindPairOfLine (keybindLine pair) = some pair := by
  have hsp : splitOnce '=' (keybindLine pair) = some (keybindKey, pair.1 ++ ':' :: pair.2) := splitOnce_append (by decide)
  have hk : eqIgnoreAsciiCase (trim keybindKey) keybindKey = true := by decide
  unfold keybindPairOfLine
  simp only [hsp, hk, splitOnce_append hcol, hc.trimmed, ha.trimmed, hc.nonempty, ha.nonempty,
    or_self, if_false, Bool.not_true, Bool.false_eq_true]

theorem not_mem_keybindLine (hc : PlainText pair.1) (ha : PlainText pair.2) : '\n' ∉ keybindLine pair := by
  unfold keybindLine
  rw [mem_append, mem_cons, mem_append, mem_cons]
  rintro (h | h | h | h | h)
  · exact absurd h (by decide)
  · exact absurd h (by decide)
  · exact hc.single h
  · exact absurd h (by decide)
  · exact ha.single h

/-- The line of a plain action does not end with a carriage return. -/
theorem stripCr_keybindLine (ha : PlainText pair.2) : .stripCr (keybindLine pair) = keybindLine pair := by
  refine stripCr_of_ne fun hl => ?_
  have hsp : keybindLine pair = (keybindKey ++ '=' :: (pair.1 ++ [':'])) ++ pair.2 := by
    unfold keybindLine
    simp only [append_assoc, cons_append, nil_append]
  rw [hsp, getLast?_append_of_ne_nil _ ha.nonempty] at hl
  exact absurd (isWhitespace_of_getLast? ha.trimmed hl) (by decide)

/-- Plain pairs are written one a line, after the other lines. -/
theorem lines_applyKeybinds (text : Text) (hps : ∀ e ∈ pairs, (PlainText e.1 ∧ ':' ∉ e.1) ∧ PlainText e.2) :
    lines (applyKeybinds text pairs) = (otherLines text).map stripCr ++ pairs.map keybindLine := by
  have hrd : ∀ ls : List Text, (∀ line ∈ ls, '\n' ∉ line) → ls.flatMap Text.readBack = ls.map stripCr := by
    intro ls hls
    rw [map_eq_flatMap]
    exact flatMap_congr fun line hl => readBack_of_not_mem (hls line hl)
  have hoths : ∀ line ∈ otherLines text, '\n' ∉ line := fun line hl =>
    not_mem_of_mem_lines (mem_filter.mp hl).1
  have hb : ∀ line ∈ pairs.map keybindLine, '\n' ∉ line := by
    intro line hl
    obtain ⟨e, he, rfl⟩ := mem_map.mp hl
    exact not_mem_keybindLine (hps e he).1.1 (hps e he).2
  have hs : (pairs.map keybindLine).map stripCr = pairs.map keybindLine := by
    rw [List.map_map]
    exact map_congr_left fun e he => stripCr_keybindLine (hps e he).2
  unfold applyKeybinds
  rw [lines_unlines, flatMap_append, hrd _ hoths, hrd _ hb, hs]

theorem isKeybind_keybindLine (pair : Text × Text) : isKeybind (keybindLine pair) = true := by
  have hsp : splitOnce '=' (keybindLine pair) = some (keybindKey, pair.1 ++ ':' :: pair.2) := splitOnce_append (by decide)
  have hk : eqIgnoreAsciiCase (trim keybindKey) keybindKey = true := by decide
  unfold isKeybind
  rw [hsp, any_some, hk]

theorem keybindPairOfLine_of_other (h : isKeybind line = false) : keybindPairOfLine line = none := by
  unfold isKeybind at h
  unfold keybindPairOfLine
  cases hsp : splitOnce '=' line with
  | none => rfl
  | some e =>
    rw [hsp, any_some] at h
    simp only [h, Bool.not_false, if_true]

theorem otherLines_applyKeybinds (text : Text) (hps : ∀ e ∈ pairs, (PlainText e.1 ∧ ':' ∉ e.1) ∧ PlainText e.2) :
    otherLines (applyKeybinds text pairs) = (otherLines text).map stripCr := by
  have hoths : ∀ line ∈ (otherLines text).map stripCr, (!isKeybind line) = true := by
    intro line hline
    obtain ⟨l, hl, rfl⟩ := mem_map.mp hline
    rw [isKeybind_stripCr]
    exact (mem_filter.mp hl).2
  have hb : ∀ line ∈ pairs.map keybindLine, ¬ (!isKeybind line) = true := by
    intro line hline
    obtain ⟨e, -, rfl⟩ := mem_map.mp hline
    rw [isKeybind_keybindLine]
    decide
  calc otherLines (applyKeybinds text pairs)
      = ((otherLines text).map stripCr ++ pairs.map keybindLine).filter fun line => !isKeybind line := by
        rw [← lines_applyKeybinds text hps]
        rfl
    _ = (otherLines text).map stripCr := by
        rw [filter_append, filter_eq_self.mpr hoths, filter_eq_nil_iff.mpr hb, append_nil]

theorem keybindPairs_applyKeybinds (text : Text) (hps : ∀ e ∈ pairs, (PlainText e.1 ∧ ':' ∉ e.1) ∧ PlainText e.2) :
    keybindPairsFromText (applyKeybinds text pairs) = pairs := by
  have hoths : ((otherLines text).map stripCr).filterMap keybindPairOfLine = [] := by
    rw [filterMap_eq_nil_iff]
    intro line hline
    obtain ⟨l, hl, rfl⟩ := mem_map.mp hline
    have hl := (mem_filter.mp hl).2
    rw [Bool.not_eq_true'] at hl
    exact keybindPairOfLine_of_other ((isKeybind_stripCr l).trans hl)
  have hb : (pairs.map keybindLine).filterMap keybindPairOfLine = pairs.filterMap some := by
    rw [filterMap_map]
    exact filterMap_congr fun e he => keybindPairOfLine_keybindLine (hps e he).1.1 (hps e he).1.2 (hps e he).2
  unfold keybindPairsFromText
  rw [lines_applyKeybinds text hps, filterMap_append, hoths, hb, filterMap_some, nil_append]

/-- The pairs are read back, and the other lines stay as they are, exactly when the pairs are
plain and no other line ends with a carriage return of its own. -/
theorem keybinds_read_iff (text : Text) (pairs : List (Text × Text)) : KeybindsRead text pairs ↔ KeybindsFit text pairs := by
  constructor
  · rintro ⟨hb, hoths⟩
    have hps : ∀ e ∈ pairs, (PlainText e.1 ∧ ':' ∉ e.1) ∧ PlainText e.2 := by
      intro e he
      rw [← hb] at he
      obtain ⟨line, hl, hp⟩ := mem_filterMap.mp he
      exact plain_of_keybindPairOfLine (not_mem_of_mem_lines hl) hp
    refine ⟨fun e he => (hps e he).1, fun e he => (hps e he).2, fun line hl => ?_⟩
    rw [otherLines_applyKeybinds text hps] at hoths
    have hsm := map_inj_left.mp (hoths.trans (map_id _).symm) line hl
    exact stripCr_eq_self_iff.mp hsm
  · rintro ⟨hc, ha, hcr⟩
    have hps : ∀ e ∈ pairs, (PlainText e.1 ∧ ':' ∉ e.1) ∧ PlainText e.2 := fun e he => ⟨hc e he, ha e he⟩
    refine ⟨keybindPairs_applyKeybinds text hps, ?_⟩
    calc otherLines (applyKeybinds text pairs) = (otherLines text).map stripCr := otherLines_applyKeybinds text hps
      _ = (otherLines text).map id := map_congr_left fun line hl => stripCr_of_ne (hcr line hl)
      _ = otherLines text := map_id _

/-! ### Settings -/

/-- **Settings**: updates and key bindings are read back as they were written, and the rest
stays, exactly when they fit the text. -/
theorem settings_read_iff (text : Text) (updates pairs : List (Text × Text)) (hv : ∀ u ∈ updates, PlainText u.2) :
    (UpdatesRead text updates ↔ UpdatesFit text updates) ∧ (KeybindsRead text pairs ↔ KeybindsFit text pairs) :=
  ⟨updates_read_iff hv text, keybinds_read_iff text pairs⟩

end

/-- A text with two lines of one key, in different case. -/
def twiceText : Text := "theme=Nord\nTHEME=Paper\n".toList

def themeUpdate : List (Text × Text) := [("theme".toList, "Nebula".toList)]

theorem settings_read_iff_twice :
    (UpdatesRead twiceText themeUpdate ↔ UpdatesFit twiceText themeUpdate) ∧
      (KeybindsRead twiceText [] ↔ KeybindsFit twiceText []) := by
  refine settings_read_iff twiceText themeUpdate [] fun u hu => ?_
  rw [mem_singleton.mp hu]
  exact ⟨by decide, by decide, by decide⟩

/-- The second line is not replaced, and it is the one that counts. -/
theorem update_not_read :
    ¬ ∀ (text : Text) (updates : List (Text × Text)), (updates.map fun u => toAsciiLowercase u.1).Nodup →
      (∀ u ∈ updates, PlainText u.2) → UpdatesRead text updates := by
  intro h
  have hrd := h twiceText themeUpdate (by decide) fun u hu => by
    rw [mem_singleton.mp hu]
    exact ⟨by decide, by decide, by decide⟩
  exact absurd (hrd.updated _ mem_cons_self) (by decide)

end Pebrel.Settings
