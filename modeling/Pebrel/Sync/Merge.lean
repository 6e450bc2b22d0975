import Pebrel.Library.StableSort
import Pebrel.Sync.Payload

/-!
# Merging payloads

The type-aware merge of two payloads (`sync.rs`): a setting of the newer payload
wins as a whole, except that comma lists are united; a key that only the older
payload has is taken from it; key bindings are united by combo and the lines of
the history by equality, cut to the newest.

## The model

JSON texts of history records are parsed by a parameter, `JsonText`. What the
merge does to the settings is a fold over the older entries; `values_mergeSettings`
says what it comes to for one key, and `values_mergeKeybinds` for one combo.
-/

namespace Pebrel.Sync

open Library List
open Assoc (collect values)

/-- `serde_json::from_str`, of which one thing is used: an empty text is not JSON. -/
class JsonText where
  fromStr : Text → Option Json
  fromStr_nil : fromStr [] = none

export JsonText (fromStr fromStr_nil)

/-! ### Histories -/

@[irreducible] def historySyncCap : ℕ := 2000

/-- The time of a history record, or 0 for a line that has none. -/
def recordTs [JsonText] (line : Text) : ℕ := ((fromStr line).bind fun v => (v.field "ts".toList).asU64).getD 0

/-- Push an element that was not seen before. -/
def pushNew {α : Type*} [DecidableEq α] (seen : List α) (x : α) : List α := if x ∈ seen then seen else seen ++ [x]

/-- The elements without the later ones of equal elements. -/
def distinct {α : Type*} [DecidableEq α] (l : List α) : List α := l.foldl pushNew []

/-- `sort_by_key` by the time of the record, which keeps the order of equal times. -/
def sortByTs [JsonText] (lines : List Text) : List Text := StableSort.sortByKey recordTs lines

/-- The newest lines, up to the cap. -/
def newestLines (lines : List Text) : List Text := lines.drop (lines.length - historySyncCap)

def mergeHistory [JsonText] (a b : List Text) : List Text := newestLines (sortByTs (distinct (a ++ b)))

/-! ### Settings -/

/-- The items of a comma list: trimmed, and without empty ones. -/
def listItems (list : Text) : List Text := ((list.splitOn ',').map .trim).filter fun item => item ≠ []

/-- `merge_list`: the union of comma lists, first the newer one in its order. -/
def mergeList (newer older : Text) : Text := [','].intercalate (distinct (listItems newer ++ listItems older))

/-- The value that an entry of the newer payload keeps when the older one has one too. -/
def mergeValue (key : Text) (newer older : Text) : Text := if key ∈ listKeys then mergeList newer older else newer

/-- An entry of the older payload merged into the settings. -/
def absorb (settings : List (Text × Text)) (e : Text × Text) : List (Text × Text) :=
  if settings.any fun s => s.1 = e.1 then
    Assoc.modifyFirst e.1 (fun v => mergeValue e.1 v e.2) settings
  else settings ++ [e]

def mergeSettings (newer older : List (Text × Text)) : List (Text × Text) := older.foldl absorb newer

/-! ### Key bindings -/

/-- The order of texts. -/
def textLe : Text → Text → Bool
  | [], _ => true
  | _ :: _, [] => false
  | c :: s, d :: t => c < d || (c == d && textLe s t)

/-- The order of key bindings: by combo, then by action. -/
def keybindLe (a b : Text × Text) : Bool := if a.1 = b.1 then textLe a.2 b.2 else textLe a.1 b.1

def mergeKeybinds (newer older : List (Text × Text)) : List (Text × Text) :=
  (collect (older ++ newer)).insertionSort fun a b => keybindLe a b

/-! ### Payloads -/

/-- The newer and the older one of two payloads. -/
def newerOlder (here remote : SyncPayload) : SyncPayload × SyncPayload :=
  if remote.modified ≥ here.modified then (remote, here) else (here, remote)

/-- The merge of two payloads of which the first is newer. -/
def mergeOver [JsonText] (newer older : SyncPayload) : SyncPayload where
  modified := max newer.modified older.modified
  device := newer.device
  settings := mergeSettings newer.settings older.settings
  keybinds := mergeKeybinds newer.keybinds older.keybinds
  history := mergeHistory older.history newer.history

def merge [JsonText] (here remote : SyncPayload) : SyncPayload := mergeOver (newerOlder here remote).1 (newerOlder here remote).2

/-! ### Elements seen before -/

section
variable {α : Type*} [DecidableEq α]

theorem pushNew_mem {seen : List α} {x y : α} : y ∈ pushNew seen x ↔ y ∈ seen ∨ y = x := by
  unfold pushNew
  split
  · rename_i h
    exact ⟨.inl, fun hy => hy.elim id fun heq => heq ▸ h⟩
  · rw [mem_append, mem_singleton]

theorem mem_distinct {l : List α} {x : α} : x ∈ distinct l ↔ x ∈ l := by
  unfold distinct
  induction l using reverseRecOn with
  | nil => exact .rfl
  | append_singleton l a ih =>
    rw [foldl_append, foldl_cons, foldl_nil, pushNew_mem, ih, mem_append, mem_singleton]

theorem nodup_distinct (l : List α) : (distinct l).Nodup := by
  unfold distinct
  induction l using reverseRecOn with
  | nil => exact nodup_nil
  | append_singleton l a ih =>
    rw [foldl_append, foldl_cons, foldl_nil, pushNew]
    split
    · exact ih
    rename_i h
    exact nodup_append.mpr ⟨ih, nodup_singleton a, fun x hx y hy heq => by
      rw [mem_singleton.mp hy] at heq
      exact h (heq ▸ hx)⟩

end

/-! ### What a merge does to one key -/

/-- The values of a key after one more value of the older payload. -/
def absorbValue (key : Text) (values : List Text) (older : Text) : List Text :=
  match values with
  | [] => [older]
  | newer :: rest => mergeValue key newer older :: rest

/-- The values of a key in a merge: those of the newer payload, the first of them merged with
those of the older one; or that of the older one, where the newer one has none. -/
def keptValues (key : Text) (newer older : List Text) : List Text := older.foldl (absorbValue key) newer

theorem values_absorb (key : Text) (settings : List (Text × Text)) (e : Text × Text) : values key (absorb settings e) =
      if e.1 = key then absorbValue key (values key settings) e.2 else values key settings := by
  unfold absorb
  by_cases ha : (settings.any fun s => s.1 = e.1) = true
  · rw [if_pos ha, Assoc.values_modifyFirst]
    by_cases hk : e.1 = key
    · obtain ⟨v, vs, hvs⟩ := exists_cons_of_ne_nil (Assoc.any_key_iff.mp ha)
      rw [hk] at hvs ⊢
      rw [if_pos rfl, if_pos rfl, hvs]
      rfl
    · rw [if_neg (Ne.symm hk), if_neg hk]
  · rw [if_neg ha, Assoc.values_append, Assoc.values_cons, Assoc.values_nil]
    by_cases hk : e.1 = key
    · have hn : values e.1 settings = [] := not_not.mp fun hne => ha (Assoc.any_key_iff.mpr hne)
      rw [if_pos hk, if_pos hk, ← hk, hn]
      rfl
    · rw [if_neg hk, if_neg hk, append_nil]

/-- The values of a key after a merge depend on the values of that key alone. -/
theorem values_mergeSettings (key : Text) (newer older : List (Text × Text)) :
    values key (mergeSettings newer older) = keptValues key (values key newer) (values key older) := by
  unfold mergeSettings keptValues
  induction older generalizing newer with
  | nil => rfl
  | cons e older ih =>
    rw [foldl_cons, ih, values_absorb, Assoc.values_cons]
    by_cases hk : e.1 = key
    · rw [if_pos hk, if_pos hk, foldl_cons]
    · rw [if_neg hk, if_neg hk]

/-- A merge of settings has no keys of its own. -/
theorem mem_keys_mergeSettings {newer older : List (Text × Text)} {e : Text × Text}
    (h : e ∈ mergeSettings newer older) : (∃ e' ∈ newer, e'.1 = e.1) ∨ ∃ e' ∈ older, e'.1 = e.1 := by
  have hne : values e.1 (mergeSettings newer older) ≠ [] := fun hnil =>
    (Assoc.values_eq_nil_iff.mp hnil) e h rfl
  rw [values_mergeSettings] at hne
  by_contra hn
  push Not at hn
  rw [Assoc.values_eq_nil_iff.mpr hn.1, Assoc.values_eq_nil_iff.mpr hn.2] at hne
  exact hne rfl

/-! ### What a merge does to one combo -/

/-- The action that a list of key bindings has for a combo: the last entry counts. -/
def action (combo : Text) (keybinds : List (Text × Text)) : Option Text := (values combo keybinds).getLast?

/-- A merge has one entry for a combo, with the action of the newer payload if it has one. -/
theorem values_mergeKeybinds (combo : Text) (newer older : List (Text × Text)) :
    values combo (mergeKeybinds newer older) = ((action combo newer).or (action combo older)).toList := by
  have hperm : (values combo (mergeKeybinds newer older)).Perm (values combo (collect (older ++ newer))) :=
    Assoc.values_perm (perm_insertionSort _ _)
  rw [Assoc.values_collect, Assoc.values_append, getLast?_append] at hperm
  unfold action
  generalize (values combo newer).getLast?.or (values combo older).getLast? = kept at hperm ⊢
  cases kept with
  | none => exact List.Perm.eq_nil hperm
  | some a => exact perm_singleton.mp hperm

/-! ### The sync set -/

theorem allowed_mergeOver [JsonText] {newer older : SyncPayload} (hn : newer.Allowed) (ho : older.Allowed) :
    (mergeOver newer older).Allowed := by
  intro e he
  rcases mem_keys_mergeSettings he with ⟨e', he', heq⟩ | ⟨e', he', heq⟩
  · rw [← heq]
    exact hn e' he'
  · rw [← heq]
    exact ho e' he'

theorem allowed_merge [JsonText] {here remote : SyncPayload} (hh : here.Allowed) (hr : remote.Allowed) : (merge here remote).Allowed := by
  unfold merge newerOlder
  split
  · exact allowed_mergeOver hr hh
  · exact allowed_mergeOver hh hr

end Pebrel.Sync
