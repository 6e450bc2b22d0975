import Pebrel.Sync.Merge

/-!
# The settings file

Writing a merged payload back to the text of the settings file (`sync.rs`), and
what becomes of the lines that are none of the sync's business: those whose key
is neither in the sync set nor `keybind`, here called foreign.

The allow list is checked on keys, but what is written is text. A value, a combo
or an action with a newline inside becomes more than one line of the file, and
the lines after the first may have any key. `foreignLines_merge_iff` says that
the file keeps its foreign lines, and gets no others, exactly when no text that
the merge writes has such a line, and none of the file's own foreign lines ends
with a carriage return of its own.
-/

namespace Pebrel.Sync

open Library List Option Text
open Assoc (mem_values values)

/-! ### Writing the settings file -/

/-- The key of a line of the settings file. -/
def lineKey (line : Text) : Option Text := (Text.splitOnce '=' line).map fun e => Text.trim e.1

def settingLine (e : Text × Text) : Text := e.1 ++ '=' :: e.2

def keybindLine (e : Text × Text) : Text := keybindKey ++ '=' :: (e.1 ++ ':' :: e.2)

/-- The value that a payload writes for a key: the last entry counts. -/
def SyncPayload.value (p : SyncPayload) (key : Text) : Option Text := (values key p.settings).getLast?

/-- What becomes of one line: key bindings and blank lines go, the value of a key of the
payload is replaced, everything else is kept as it is. -/
def rewriteLine (p : SyncPayload) (line : Text) : Option Text :=
  let kept := if Text.trim line = [] then none else some line
  match Text.splitOnce '=' line with
  | none => kept
  | some (key, _) =>
    if key = keybindKey then none
    else
      match p.value (.trim key) with
      | some value => some (settingLine (.trim key, value))
      | none => kept

/-- The keys that the file has lines for. -/
def existingKeys (current : Text) : List Text := (Text.lines current).filterMap lineKey

/-- `apply_to_settings_text`: the lines of the file rewritten, then the settings that the file
has no line for, then the key bindings. -/
def applyToSettingsText (p : SyncPayload) (current : Text) : Text :=
  Text.unlines ((Text.lines current).filterMap (rewriteLine p) ++
    ((p.settings.filter fun e => e.1 ∉ existingKeys current).map settingLine ++ p.keybinds.map keybindLine))

/-! ### Foreign lines -/

/-- A line with a key that is neither in the sync set nor `keybind`. -/
def isForeign (line : Text) : Bool :=
  match lineKey line with
  | none => false
  | some key => key ∉ syncKeys && key ≠ keybindKey

/-- The foreign lines of a text, in order. -/
def foreignLines (t : Text) : List Text := (Text.lines t).filter isForeign

/-- The foreign lines that a text written with a newline after it is read back as. -/
def smuggled (piece : Text) : List Text := (Text.readBack piece).filter isForeign

variable {line key : Text} {p : SyncPayload}

theorem keybindKey_not_mem_syncKeys : keybindKey ∉ syncKeys := by decide

theorem trim_keybindKey : .trim keybindKey = keybindKey := by decide

/-- The carriage return at the end of a line is not part of its key. -/
theorem lineKey_stripCr (line : Text) : lineKey (.stripCr line) = lineKey line := by
  rw [lineKey, lineKey, splitOnce_stripCr (by decide), Option.map_map]
  rfl

theorem isForeign_stripCr (line : Text) : isForeign (.stripCr line) = isForeign line := by
  unfold isForeign
  rw [lineKey_stripCr]

/-- A line without a newline is read back as itself, less a carriage return at its end. -/
theorem smuggled_line (h : '\n' ∉ line) : smuggled line = if isForeign line then [.stripCr line] else [] := by
  unfold smuggled
  rw [readBack_of_not_mem h, filter_singleton, isForeign_stripCr, Bool.cond_eq_ite]

theorem foreignLines_unlines (pieces : List Text) : foreignLines (.unlines pieces) = pieces.flatMap smuggled := by
  unfold foreignLines
  rw [lines_unlines, filter_flatMap]
  rfl

/-! ### What the rewriting keeps -/

theorem trim_ne_nil_of_splitOnce {e : Text × Text} (h : Text.splitOnce '=' line = some e) : Text.trim line ≠ [] := by
  obtain ⟨hl, -⟩ := splitOnce_eq_some.mp h
  have hm : '=' ∈ line := by
    rw [hl]
    exact mem_append_right _ mem_cons_self
  exact ne_nil_of_mem (mem_trim_of_mem hm (by decide))

theorem isForeign_of_key (h : lineKey line = some key) : isForeign line = true ↔ key ∉ syncKeys ∧ key ≠ keybindKey := by
  unfold isForeign
  rw [h]
  simp only [Bool.and_eq_true, decide_eq_true_eq]

/-- A payload has values for keys of the sync set only. -/
theorem SyncPayload.Allowed.value_eq_none (hp : p.Allowed) (h : key ∉ syncKeys) : p.value key = none := by
  have hn : values key p.settings = [] := Assoc.values_eq_nil_iff.mpr fun e he heq => h (heq ▸ hp e he)
  unfold SyncPayload.value
  rw [hn]
  rfl

/-- A foreign line is kept as it is. -/
theorem rewriteLine_foreign (hp : p.Allowed) (h : isForeign line = true) : rewriteLine p line = some line := by
  unfold rewriteLine
  cases hsp : splitOnce '=' line with
  | none =>
    have hk : lineKey line = none := by rw [lineKey, hsp, map_none]
    rw [isForeign, hk] at h
    cases h
  | some e =>
    have hk : lineKey line = some (trim e.1) := by rw [lineKey, hsp, map_some]
    obtain ⟨hsync, hbind⟩ := (isForeign_of_key hk).mp h
    have hne : e.1 ≠ keybindKey := by
      intro heq
      rw [heq] at hbind
      exact hbind trim_keybindKey
    simp only
    rw [if_neg hne, hp.value_eq_none hsync]
    exact if_neg (trim_ne_nil_of_splitOnce hsp)

/-- What a line that is not foreign becomes brings no foreign line, unless the value that it
gets does. -/
theorem smuggled_rewriteLine (hp : p.Allowed) (hl : '\n' ∉ line) (h : isForeign line = false) :
    (rewriteLine p line).toList.flatMap smuggled = [] ↔
      ∀ key ∈ lineKey line, ∀ value ∈ p.value key, smuggled (settingLine (key, value)) = [] := by
  have hk : (if trim line = [] then none else some line).toList.flatMap smuggled = [] := by
    split
    · rfl
    · rw [toList_some, flatMap_singleton, smuggled_line hl, if_neg (by rw [h]; decide)]
  unfold rewriteLine
  cases hsp : splitOnce '=' line with
  | none =>
    have hkey : lineKey line = none := by rw [lineKey, hsp, map_none]
    rw [hkey]
    exact iff_of_true hk fun key hm => by cases hm
  | some e =>
    have hkey : lineKey line = some (trim e.1) := by rw [lineKey, hsp, map_some]
    rw [hkey]
    simp only
    split
    · rename_i hbind
      refine iff_of_true rfl fun key hm value hval => ?_
      cases hm
      rw [hbind, trim_keybindKey, hp.value_eq_none keybindKey_not_mem_syncKeys] at hval
      cases hval
    · cases hval : p.value (trim e.1) with
      | some value =>
        simp only [toList_some, flatMap_singleton]
        constructor
        · intro hn key hm v hv
          cases hm
          rw [hval] at hv
          cases hv
          exact hn
        · intro ha
          exact ha _ rfl value hval
      | none =>
        refine iff_of_true hk fun key hm value hv => ?_
        cases hm
        rw [hval] at hv
        cases hv

/-- A list of which one part is mapped one to one and the rest to anything: what comes out is
that part itself just when each of its elements is mapped to itself and the rest to nothing. -/
theorem flatMap_append_eq_filter_iff {α : Type*} {P : α → Bool} {f : α → List α} {g : α → α} {l rest : List α}
    (hf : ∀ a ∈ l, P a = true → f a = [g a]) :
    l.flatMap f ++ rest = l.filter P ↔ (∀ a ∈ l, P a = true → g a = a) ∧ (∀ a ∈ l, P a = false → f a = []) ∧ rest = [] := by
  have hlen : ∀ m : List α, (∀ a ∈ m, P a = true → f a = [g a]) → (m.filter P).length ≤ (m.flatMap f).length := by
    intro m hm
    induction m with
    | nil => exact le_rfl
    | cons a m ih =>
      have ih := ih fun b hb => hm b (mem_cons_of_mem a hb)
      rw [filter_cons, flatMap_cons, length_append]
      split
      · rename_i ha
        rw [hm a mem_cons_self ha, length_cons, length_singleton]
        omega
      · omega
  induction l with
  | nil => simp
  | cons a l ih =>
    have hl : ∀ b ∈ l, P b = true → f b = [g b] := fun b hb => hf b (mem_cons_of_mem a hb)
    have hlen := hlen l hl
    rw [flatMap_cons, append_assoc, filter_cons]
    simp only [forall_mem_cons]
    cases ha : P a with
    | true =>
      rw [hf a mem_cons_self ha]
      simp only [if_true, cons_append, nil_append, List.cons.injEq, ih hl]
      simp only [forall_const, Bool.true_eq_false, false_implies, true_and, and_assoc]
    | false =>
      simp only [Bool.false_eq_true, if_false, false_implies, true_and, forall_const]
      constructor
      · intro h
        have hs := congrArg length h
        rw [length_append, length_append] at hs
        have hfa : f a = [] := eq_nil_of_length_eq_zero (by omega)
        rw [hfa, nil_append] at h
        obtain ⟨h1, h2, h3⟩ := (ih hl).mp h
        exact ⟨h1, ⟨hfa, h2⟩, h3⟩
      · rintro ⟨h1, ⟨hfa, h2⟩, h3⟩
        rw [hfa, nil_append]
        exact (ih hl).mpr ⟨h1, h2, h3⟩

/-- Where the file keeps its foreign lines: none of them ends with a carriage return of its
own, and nothing that the payload writes brings a foreign line. -/
theorem foreignLines_apply_iff (hp : p.Allowed) (current : Text) : foreignLines (applyToSettingsText p current) = foreignLines current ↔
      (∀ line ∈ foreignLines current, line.getLast? ≠ some '\r') ∧
      (∀ key ∈ existingKeys current, ∀ value ∈ p.value key, smuggled (settingLine (key, value)) = []) ∧
      (∀ e ∈ p.settings, e.1 ∉ existingKeys current → smuggled (settingLine e) = []) ∧
      ∀ e ∈ p.keybinds, smuggled (keybindLine e) = [] := by
  have hrw : ∀ line ∈ Text.lines current, isForeign line = true → (rewriteLine p line).toList.flatMap smuggled = [stripCr line] := by
    intro line hl hf
    rw [rewriteLine_foreign hp hf, toList_some, flatMap_singleton, smuggled_line (not_mem_of_mem_lines hl), if_pos hf]
  unfold applyToSettingsText
  rw [foreignLines_unlines, flatMap_append, flatMap_append, filterMap_eq_flatMap_toList, flatMap_assoc]
  refine (flatMap_append_eq_filter_iff hrw).trans (and_congr ?_ ?_)
  · simp only [foreignLines, mem_filter, and_imp, stripCr_eq_self_iff]
  rw [append_eq_nil_iff]
  refine and_congr ?_ (and_congr ?_ ?_)
  · constructor
    · intro h key hk value hv
      obtain ⟨line, hl, hlk⟩ := mem_filterMap.mp hk
      cases hf : isForeign line with
      | false =>
        exact (smuggled_rewriteLine hp (not_mem_of_mem_lines hl) hf).mp (h line hl hf) key hlk value hv
      | true =>
        rw [hp.value_eq_none ((isForeign_of_key hlk).mp hf).1] at hv
        cases hv
    · intro h line hl hf
      exact (smuggled_rewriteLine hp (not_mem_of_mem_lines hl) hf).mpr fun key hk =>
        h key (mem_filterMap.mpr ⟨line, hl, hk⟩)
  · simp only [flatMap_map, flatMap_eq_nil_iff, mem_filter, decide_eq_true_eq, and_imp]
  · simp only [flatMap_map, flatMap_eq_nil_iff]

/-! ### What a merge writes -/

section
variable [ToLowercase] [JsonText]

/-- The values that the merge of two payloads writes for a key: all that it keeps, or the last
of them where the file has a line for the key. -/
def writtenValues (here remote : SyncPayload) (current key : Text) : List Text :=
  let kept := keptValues key (values key (newerOlder here remote).1.settings)
    (values key (newerOlder here remote).2.settings)
  if key ∈ existingKeys current then kept.getLast?.toList else kept

/-- The action that the merge of two payloads writes for a combo. -/
def writtenAction (here remote : SyncPayload) (combo : Text) : Option Text :=
  (action combo (newerOlder here remote).1.keybinds).or (action combo (newerOlder here remote).2.keybinds)

/-- The file's foreign lines do not end with a carriage return of their own, and no value,
combo or action that the merge writes has a foreign line in it. -/
structure BringsNoForeign (here remote : SyncPayload) (current : Text) : Prop where
  lines : ∀ line ∈ foreignLines current, line.getLast? ≠ some '\r'
  settings : ∀ key, ∀ value ∈ writtenValues here remote current key, smuggled (settingLine (key, value)) = []
  keybinds : ∀ combo, ∀ a ∈ writtenAction here remote combo, smuggled (keybindLine (combo, a)) = []

omit [ToLowercase] in
theorem values_merge (here remote : SyncPayload) (key : Text) : values key (merge here remote).settings =
      keptValues key (values key (newerOlder here remote).1.settings) (values key (newerOlder here remote).2.settings) :=
  values_mergeSettings key _ _

omit [ToLowercase] in
theorem mem_keybinds_merge {here remote : SyncPayload} {e : Text × Text} :
    e ∈ (merge here remote).keybinds ↔ e.2 ∈ writtenAction here remote e.1 := by
  have hvs : values e.1 (merge here remote).keybinds = (writtenAction here remote e.1).toList := values_mergeKeybinds e.1 _ _
  refine mem_values.symm.trans ?_
  rw [hvs]
  exact mem_toList

/-- **Foreign lines**: the settings file keeps its foreign lines, and gets no others, exactly
when no text that the merge writes brings one. -/
theorem foreignLines_merge_iff {here : SyncPayload} (hh : here.Allowed) (packet : Json) (current : Text) :
    foreignLines (applyToSettingsText (merge here (payloadFromJson packet)) current) = foreignLines current ↔
      BringsNoForeign here (payloadFromJson packet) current := by
  have hald := allowed_merge hh (allowed_payloadFromJson packet)
  rw [foreignLines_apply_iff hald]
  generalize payloadFromJson packet = remote
  constructor
  · rintro ⟨hcr, hexi, hadd, hbin⟩
    refine ⟨hcr, fun key value hv => ?_, fun combo a ha => hbin (combo, a) (mem_keybinds_merge.mpr ha)⟩
    unfold writtenValues at hv
    rw [← values_merge] at hv
    split at hv
    · rename_i hkey
      exact hexi key hkey value (mem_toList.mp hv)
    · rename_i hkey
      exact hadd (key, value) (mem_values.mp hv) hkey
  · rintro ⟨hcr, hset, hbin⟩
    refine ⟨hcr, fun key hkey value hv => hset key value ?_, fun e he hkey => hset e.1 e.2 ?_,
      fun e he => hbin e.1 e.2 (mem_keybinds_merge.mp he)⟩
    · unfold writtenValues
      rw [← values_merge, if_pos hkey]
      exact mem_toList.mpr hv
    · unfold writtenValues
      rw [← values_merge, if_neg hkey]
      exact mem_values.mpr he

end

section

local instance plainCase : ToLowercase := .ascii

/-- No history is parsed here. -/
local instance plainJson : JsonText := ⟨fun _ => none, rfl⟩

/-- A settings file with one foreign line. -/
def shellText : Text := "shell=pwsh\n".toList

/-- A packet with a setting that has a newline in its value. -/
def smugglingPacket : Json :=
  .object [("modified".toList, .int 9),
    ("settings".toList, .object [("theme".toList, .string "x\nshell=evil.exe".toList)])]

theorem foreignLines_merge_iff_shell :
    foreignLines (applyToSettingsText (merge (payloadFromSettingsText 10 [] shellText []) (payloadFromJson smugglingPacket))
        shellText) = foreignLines shellText ↔
      BringsNoForeign (payloadFromSettingsText 10 [] shellText []) (payloadFromJson smugglingPacket) shellText :=
  foreignLines_merge_iff (allowed_payloadFromSettingsText 10 [] shellText []) smugglingPacket shellText

/-- A line for the shell comes with the value of the theme. -/
theorem foreignLines_smuggled :
    ¬ ∀ line ∈ foreignLines (applyToSettingsText
        (merge (payloadFromSettingsText 10 [] shellText []) (payloadFromJson smugglingPacket)) shellText),
      line ∈ Text.lines shellText := by decide

end

end Pebrel.Sync
