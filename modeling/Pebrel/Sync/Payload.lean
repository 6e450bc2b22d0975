import Pebrel.Library.Assoc
import Pebrel.Library.Text

/-!
# Sync payloads

What one device contributes to the settings sync (`sync.rs`): the payload, how
it is read from the text of the settings file, and how it is written to and
read from JSON.

## The model

A packet is taken as the JSON value that it decrypts and parses to. The clock
(`now_unix`) and the name of the device are arguments. Lowercasing of Unicode
text is a parameter, `ToLowercase`, of which only one thing is used: it makes no
newlines.
-/

namespace Pebrel.Sync

open Library Option

/-! ### JSON -/

/-- `serde_json::Value`. -/
inductive Json where
  | null
  | bool (b : Bool)
  | int (n : ℤ)
  /-- A number that is not an integer. -/
  | float (digits : Text)
  | string (s : Text)
  | array (items : List Json)
  | object (members : List (Text × Json))

namespace Json

/-- `value[key]`. -/
def field (value : Json) (key : Text) : Json :=
  match value with
  | object members => ((members.find? fun m => m.1 = key).map Prod.snd).getD null
  | _ => null

/-- `value.get(key)`. -/
def get? (value : Json) (key : Text) : Option Json :=
  match value with
  | object members => (members.find? fun m => m.1 = key).map Prod.snd
  | _ => none

/-- `value[index]`. -/
def item (value : Json) (index : ℕ) : Json :=
  match value with
  | array items => items[index]?.getD null
  | _ => null

def asStr : Json → Option Text
  | string s => some s
  | _ => none

def asU64 : Json → Option ℕ
  | int n => if 0 ≤ n ∧ n < 2 ^ 64 then some n.toNat else none
  | _ => none

def asArray : Json → Option (List Json)
  | array items => some items
  | _ => none

def asObject : Json → Option (List (Text × Json))
  | object members => some members
  | _ => none

end Json

/-! ### Payloads -/

class ToLowercase where
  toLowercase : Text → Text
  newline_of_mem : ∀ {t : Text}, '\n' ∈ toLowercase t → '\n' ∈ t

export ToLowercase (toLowercase)

/-- Lowercasing of ASCII letters. -/
@[reducible] def ToLowercase.ascii : ToLowercase where
  toLowercase t := t.map .toLower
  newline_of_mem := by
    intro t h
    obtain ⟨c, hc, hlower⟩ := List.mem_map.mp h
    unfold Char.toLower at hlower
    split at hlower
    · rename_i hupper
      have hval := congrArg Char.toNat hlower
      have hlo : 65 ≤ c.toNat := hupper.1
      change (c.val + 32).toNat = 10 at hval
      rw [UInt32.toNat_add] at hval
      have hhi : c.toNat ≤ 90 := hupper.2
      change (c.toNat + 32) % 2 ^ 32 = 10 at hval
      omega
    · rw [← hlower]
      exact hc

/-- `SYNC_KEYS`: the keys of the settings file that are in the sync set. -/
def syncKeys : List Text :=
  ["language", "theme", "app_icon", "follow_system_theme", "ghost", "accept", "font_size", "cursor_shape",
    "cursor_blink", "copy_on_select", "cjk_bold_regular", "fetch", "powerline", "keep_session", "restore_session",
    "resume_ai", "tray", "panel_resize", "sidebar_w", "drawer_w", "hosts_band", "opacity", "background",
    "background_image_opacity", "background_image_fit", "background_image_alignment", "background_image_cover_chrome",
    "pinned_hosts", "saved_hosts", "hidden_hosts"].map String.toList

/-- `LIST_KEYS`: the keys whose values are comma lists, merged by union. -/
def listKeys : List Text := ["pinned_hosts", "saved_hosts", "hidden_hosts"].map String.toList

/-- The key of the lines with key bindings. -/
def keybindKey : Text := "keybind".toList

/-- `SyncPayload`: what one device contributes. -/
structure SyncPayload where
  modified : ℕ
  device : Text
  settings : List (Text × Text)
  keybinds : List (Text × Text)
  history : List Text
  deriving DecidableEq

/-- The setting that a line of the settings file contributes. -/
def settingOfLine (line : Text) : Option (Text × Text) :=
  match Text.splitOnce '=' line with
  | none => none
  | some (key, value) =>
    let key := Text.trim key
    if key = keybindKey then none else if key ∈ syncKeys then some (key, .trim value) else none

/-- The key binding that a line of the settings file contributes. -/
def keybindOfLine [ToLowercase] (line : Text) : Option (Text × Text) :=
  match Text.splitOnce '=' line with
  | none => none
  | some (key, value) =>
    if Text.trim key = keybindKey then
      (Text.splitOnce ':' value).map fun (combo, action) => (toLowercase (Text.trim combo), Text.trim action)
    else none

/-- `payload_from_settings_text`: the sync set in the text of the settings file. -/
def payloadFromSettingsText [ToLowercase] (now : ℕ) (device : Text) (text : Text) (history : List Text) : SyncPayload where
  settings := (Text.lines text).filterMap settingOfLine
  keybinds := (Text.lines text).filterMap keybindOfLine
  modified := now
  device
  history

def payloadToJson (payload : SyncPayload) : Json :=
  .object
    [("version".toList, .int 1),
      ("modified".toList, .int payload.modified),
      ("device".toList, .string payload.device),
      ("settings".toList, .object (Assoc.collect (payload.settings.map fun e => (e.1, .string e.2)))),
      ("keybinds".toList, .array (payload.keybinds.map fun e => .array [.string e.1, .string e.2])),
      ("history".toList, .array (payload.history.map .string))]

/-- A setting is read from a packet if its key is in the sync set. -/
def settingOfMember (m : Text × Json) : Option (Text × Text) :=
  if m.1 ∈ syncKeys then m.2.asStr.map fun text => (m.1, text) else none

def keybindOfEntry [ToLowercase] (entry : Json) : Option (Text × Text) :=
  match (entry.item 0).asStr, (entry.item 1).asStr with
  | some combo, some action => some (toLowercase combo, action)
  | _, _ => none

def payloadFromJson [ToLowercase] (value : Json) : SyncPayload where
  modified := (value.field "modified".toList).asU64.getD 0
  device := (value.field "device".toList).asStr.getD "unknown".toList
  settings := ((value.field "settings".toList).asObject.getD []).filterMap settingOfMember
  keybinds := ((value.field "keybinds".toList).asArray.getD []).filterMap keybindOfEntry
  history := ((value.field "history".toList).asArray.getD []).filterMap Json.asStr

namespace SyncPayload

/-- Every setting has a key of the sync set. -/
def Allowed (p : SyncPayload) : Prop := ∀ e ∈ p.settings, e.1 ∈ syncKeys

end SyncPayload

theorem allowed_payloadFromSettingsText [ToLowercase] (now : ℕ) (device text : Text) (history : List Text) :
    (payloadFromSettingsText now device text history).Allowed := by
  intro e he
  obtain ⟨line, -, hl⟩ := List.mem_filterMap.mp he
  unfold settingOfLine at hl
  split at hl
  · cases hl
  simp only at hl
  split at hl
  · cases hl
  · obtain ⟨hk, heq⟩ := ite_none_right_eq_some.mp hl
    cases heq
    exact hk

/-- Whatever a packet holds, only keys of the sync set are read from it. -/
theorem allowed_payloadFromJson [ToLowercase] (value : Json) : (payloadFromJson value).Allowed := by
  intro e he
  obtain ⟨m, -, hm⟩ := List.mem_filterMap.mp he
  obtain ⟨hk, hm⟩ := ite_none_right_eq_some.mp hm
  obtain ⟨text, -, rfl⟩ := map_eq_some_iff.mp hm
  exact hk

end Pebrel.Sync
