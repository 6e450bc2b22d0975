import Mathlib.Data.Rat.Defs
import Mathlib.Data.List.Nodup
import Pebrel.Library.Fallible
import Pebrel.Sync.Payload

/-!
# Theme documents

A theme of the user is a JSON object (`theme_library/document.rs`). A document is made of a value by
checking it and writing its colours in one form (`validateAndNormalize`); members that are not known
stay.

## The model

The members of an object are a list of keys and values, in order. Comparing floating-point numbers,
what `ThemeDefinition` makes of the sections, and how `serde_json` writes and compares values, are
parameters (`ThemeValues`). An error names the member that is wrong, without the rest of its text.
-/

namespace Pebrel.Themes

open Library Sync List Option Except

abbrev Members := List (Text × Json)

inductive DocumentError where
  | json
  | tooLarge
  | invalid (path : Text)

/-- What is decided outside the document. -/
class ThemeValues where
  /-- A number is finite and lies in the bounds. -/
  inRange : Json → ℚ → ℚ → Bool
  /-- The appearance and the sections make a valid definition: terminal, ui, typography, layout and effects. -/
  resolves : Json → Json → Json → Json → Json → Json → Bool
  /-- How long a value is as `serde_json::to_vec` writes it. -/
  toVecLen : Json → ℕ
  /-- Two values are equal, whatever the order of their members. -/
  same : Json → Json → Bool

export ThemeValues (inRange resolves toVecLen)

def schemaVersion : ℕ := 1
def maxDocumentBytes : ℕ := 256 * 1024

/-! ### Members -/

def lookup (key : Text) (members : Members) : Option Json := (members.find? fun e => e.1 = key).map Prod.snd

def setMember (key : Text) (value : Json) (members : Members) : Members := Assoc.modifyFirst key (fun _ => value) members

def insertMember (key : Text) (value : Json) (members : Members) : Members := Assoc.insert key value members

variable {key k : Text} {v w : Json} {members members' : Members}

theorem lookup_eq : lookup key members = (Assoc.values key members).head? := by
  rw [lookup, Assoc.values, head?_map, head?_filter]

theorem lookup_setMember : lookup k (setMember key v members) = if k = key then (lookup k members).map (fun _ => v)
    else lookup k members := by
  rw [lookup_eq, lookup_eq, setMember, Assoc.values_modifyFirst]
  split
  · cases Assoc.values k members <;> rfl
  · rfl

theorem lookup_insertMember : lookup k (insertMember key v members) = if k = key then some v else lookup k members := by
  rw [lookup_eq, lookup_eq, insertMember, Assoc.values_insert]
  split
  · rfl
  · rfl

/-- A member that is set to its value. -/
theorem setMember_of_lookup (h : lookup key members = some v) : setMember key v members = members := by
  induction members with
  | nil => rfl
  | cons e members ih =>
    rw [setMember, Assoc.modifyFirst]
    rw [lookup, find?_cons] at h
    split
    · rename_i hk
      rw [hk, decide_eq_true rfl] at h
      rw [← some.inj h]
    · rename_i hk
      rw [decide_eq_false hk] at h
      rw [← setMember, ih h]

theorem keys_setMember : (setMember key v members).map Prod.fst = members.map Prod.fst := Assoc.keys_modifyFirst _ _

def reservedKeys : List Text := ["__proto__", "constructor", "prototype"].map String.toList

def hasReservedKey (members : Members) : Bool := members.any fun e => e.1 ∈ reservedKeys

theorem hasReservedKey_eq : hasReservedKey members = (members.map Prod.fst).any fun key => key ∈ reservedKeys := by
  rw [hasReservedKey, List.any_map]
  rfl

theorem hasReservedKey_setMember : hasReservedKey (setMember key v members) = hasReservedKey members := by
  rw [hasReservedKey_eq, hasReservedKey_eq, keys_setMember]

theorem hasReservedKey_insertMember (h : hasReservedKey members = false) (hk : key ∉ reservedKeys) :
    hasReservedKey (insertMember key v members) = false := by
  rw [insertMember, Assoc.insert]
  split
  · exact hasReservedKey_setMember.trans h
  · rw [hasReservedKey, any_append, ← hasReservedKey, h, any_cons, decide_eq_false hk]
    rfl

/-! ### Rules -/

/-- How a member is checked and written. -/
structure Rule where
  key : Text
  /-- What the member is called in an error. -/
  path : Text
  required : Bool
  rewrite : Json → Except DocumentError Json

variable {r : Rule} {rules : List Rule}

/-- Apply a rule to the member that it is about. -/
def Rule.apply (r : Rule) (members : Members) : Except DocumentError Members :=
  match lookup r.key members with
  | some value => do
    let value ← r.rewrite value
    pure (setMember r.key value members)
  | none => if r.required then .error (.invalid r.path) else pure members

def applyRules (rules : List Rule) (members : Members) :
    Except DocumentError Members := rules.foldlM (fun members r => r.apply members) members

/-- A rule leaves what it has written. -/
def Rule.Stable (r : Rule) : Prop := ∀ v w, r.rewrite v = .ok w → r.rewrite w = .ok w

/-- A member is as the rule writes it. -/
def Rule.Holds (r : Rule) (members : Members) : Prop :=
  match lookup r.key members with
  | some value => r.rewrite value = .ok value
  | none => r.required = false

theorem Rule.Holds.congr (h : r.Holds members) (hl : lookup r.key members' = lookup r.key members) : r.Holds members' := by
  rw [Rule.Holds, hl]
  exact h

theorem Rule.apply_of_holds (h : r.Holds members) : r.apply members = .ok members := by
  rw [Rule.apply]
  rw [Rule.Holds] at h
  split
  · rename_i value hv
    rw [hv] at h
    change r.rewrite value = .ok value at h
    rw [h]
    exact congrArg ok (setMember_of_lookup hv)
  · rename_i hn
    rw [hn] at h
    exact if_neg (Bool.eq_false_iff.mp h)

/-- After a rule its member is as it writes it, and the rest as before. -/
theorem Rule.apply_spec (hstab : r.Stable) (h : r.apply members = .ok members') :
    r.Holds members' ∧ (∀ key, key ≠ r.key → lookup key members' = lookup key members) ∧
      hasReservedKey members' = hasReservedKey members := by
  rw [Rule.apply] at h
  split at h
  · rename_i value hv
    obtain ⟨w, hw, h⟩ := bind_eq_ok h
    obtain rfl := ok.inj h
    refine ⟨?_, fun key hk => by rw [lookup_setMember, if_neg hk], hasReservedKey_setMember⟩
    rw [Rule.Holds, lookup_setMember, if_pos rfl, hv]
    exact hstab value w hw
  · rename_i hn
    split at h
    · exact nomatch h
    rename_i hr
    obtain rfl := ok.inj h
    refine ⟨?_, fun _ _ => rfl, rfl⟩
    rw [Rule.Holds, hn]
    exact Bool.eq_false_iff.mpr hr

theorem applyRules_of_holds (h : ∀ r ∈ rules, r.Holds members) : applyRules rules members = .ok members := by
  induction rules with
  | nil => rfl
  | cons r rules ih =>
    obtain ⟨hr, hrul⟩ := forall_mem_cons.mp h
    change (r.apply members >>= fun members => applyRules rules members) = .ok members
    rw [Rule.apply_of_holds hr]
    exact ih hrul

/-- After the rules all members are as they write them. -/
theorem applyRules_spec (hkeys : (rules.map Rule.key).Nodup) (hstab : ∀ r ∈ rules, r.Stable) (h : applyRules rules members = .ok members') :
    (∀ r ∈ rules, r.Holds members') ∧ (∀ key, key ∉ rules.map Rule.key → lookup key members' = lookup key members) ∧
      hasReservedKey members' = hasReservedKey members := by
  induction rules generalizing members with
  | nil =>
    obtain rfl := ok.inj h
    exact ⟨fun _ hr => (nomatch hr), fun _ _ => rfl, rfl⟩
  | cons r rules ih =>
    obtain ⟨hn, hkeys⟩ := nodup_cons.mp hkeys
    obtain ⟨hr, hrul⟩ := forall_mem_cons.mp hstab
    obtain ⟨u, hu, h⟩ := bind_eq_ok h
    obtain ⟨hh, hsm, hrsv⟩ := Rule.apply_spec hr hu
    obtain ⟨ha, hrest, hrsv'⟩ := ih hkeys hrul h
    refine ⟨forall_mem_cons.mpr ⟨hh.congr (hrest r.key hn), ha⟩, fun key hk => ?_, hrsv'.trans hrsv⟩
    rw [map_cons, mem_cons, not_or] at hk
    exact (hrest key hk.2).trans (hsm key hk.1)

/-- A member that is checked, and not written. -/
def checked (check : Json → Except DocumentError Unit) (value : Json) : Except DocumentError Json := do
  check value
  pure value

theorem checked_stable (key path : Text) (required : Bool) (check : Json → Except DocumentError Unit) :
    Rule.Stable ⟨key, path, required, checked check⟩ := by
  intro v w h
  obtain ⟨_, _, hw⟩ := bind_eq_ok h
  rwa [← ok.inj hw] at h ⊢

/-! ### Colours -/

variable {t : Text} {bytes color : List ℕ}

def hexValue (c : Char) : Option ℕ :=
  if c.isDigit then some (c.toNat - 48)
  else if 'a' ≤ c ∧ c ≤ 'f' then some (c.toNat - 87)
  else if 'A' ≤ c ∧ c ≤ 'F' then some (c.toNat - 55)
  else none

/-- Bytes of two digits each. -/
def hexBytes : Text → Option (List ℕ)
  | [] => some []
  | [_] => none
  | c :: d :: t => (hexValue c).bind fun x => (hexValue d).bind fun y => (hexBytes t).map fun bytes => (16 * x + y) :: bytes

/-- Each digit twice. -/
def doubled (t : Text) : Text := t.flatMap fun c => [c, c]

def parseHexRgb : Text → Option (List ℕ)
  | '#' :: t => if t.length = 3 then hexBytes (doubled t) else if t.length = 6 then hexBytes t else none
  | _ => none

def parseHexRgba : Text → Option (List ℕ)
  | '#' :: t =>
    if t.length = 4 then hexBytes (doubled t)
    else if t.length = 6 then hexBytes (t ++ ['f', 'f'])
    else if t.length = 8 then hexBytes t
    else none
  | _ => none

def formatHexByte (n : ℕ) : Text := [Nat.digitChar (n / 16), Nat.digitChar (n % 16)]

def formatHexRgb (color : List ℕ) : Text := '#' :: color.flatMap formatHexByte

def formatHexRgba (color : List ℕ) : Text := if color[3]? = some 255 then formatHexRgb (color.take 3) else formatHexRgb color

def normalizeColorValue (path : Text) (alpha : Bool) : Json → Except DocumentError Json
  | .string t =>
    match if alpha then (parseHexRgba t).map formatHexRgba else (parseHexRgb t).map formatHexRgb with
    | some t => .ok (.string t)
    | none => .error (.invalid path)
  | _ => .error (.invalid path)

theorem hexValue_lt {c : Char} {x : ℕ} (h : hexValue c = some x) : x < 16 := by
  rw [hexValue] at h
  split at h
  · rename_i hd
    have hle : c.toNat ≤ 57 := of_decide_eq_true (Bool.and_eq_true_iff.mp hd).2
    have := some.inj h
    omega
  · split at h
    · rename_i hl
      have hle : c.toNat ≤ 102 := hl.2
      have := some.inj h
      omega
    · split at h
      · rename_i hl
        have hle : c.toNat ≤ 70 := hl.2
        have := some.inj h
        omega
      · exact nomatch h

theorem hexBytes_spec (h : hexBytes t = some bytes) : t.length = 2 * bytes.length ∧ ∀ b ∈ bytes, b < 256 := by
  induction t using hexBytes.induct generalizing bytes with
  | case1 =>
    obtain rfl := some.inj h
    exact ⟨rfl, fun _ hb => (nomatch hb)⟩
  | case2 c => exact nomatch h
  | case3 c d t ih =>
    obtain ⟨x, hx, h⟩ := bind_eq_some_iff.mp h
    obtain ⟨y, hy, h⟩ := bind_eq_some_iff.mp h
    obtain ⟨rest, hr, rfl⟩ := map_eq_some_iff.mp h
    obtain ⟨hl, hbs⟩ := ih hr
    have hxlt := hexValue_lt hx
    have hylt := hexValue_lt hy
    refine ⟨?_, forall_mem_cons.mpr ⟨by omega, hbs⟩⟩
    rw [length_cons, length_cons, length_cons, hl]
    omega

theorem hexBytes_formatHexByte : ∀ n < 256, hexBytes (formatHexByte n) = some [n] := by decide +kernel

theorem hexBytes_format (h : ∀ b ∈ bytes, b < 256) : hexBytes (bytes.flatMap formatHexByte) = some bytes := by
  induction bytes with
  | nil => rfl
  | cons b bytes ih =>
    obtain ⟨hb, hbs⟩ := forall_mem_cons.mp h
    obtain ⟨x, hx, h⟩ := bind_eq_some_iff.mp (hexBytes_formatHexByte b hb)
    obtain ⟨y, hy, h⟩ := bind_eq_some_iff.mp h
    obtain ⟨hv, -⟩ := cons_eq_cons.mp (some.inj h)
    change hexBytes (Nat.digitChar (b / 16) :: Nat.digitChar (b % 16) :: bytes.flatMap formatHexByte) = some (b :: bytes)
    rw [hexBytes, hx, hy, ih hbs, ← hv]
    rfl

theorem length_formatHex (bytes : List ℕ) : (bytes.flatMap formatHexByte).length = 2 * bytes.length := by
  induction bytes with
  | nil => rfl
  | cons b bytes ih =>
    rw [flatMap_cons, length_append, ih, length_cons]
    change 2 + _ = _
    omega

theorem length_doubled (t : Text) : (doubled t).length = 2 * t.length := by
  simp [doubled]
  omega

theorem parseHexRgb_spec (h : parseHexRgb t = some color) : color.length = 3 ∧ ∀ b ∈ color, b < 256 := by
  unfold parseHexRgb at h
  split at h
  · rename_i t
    split at h
    · rename_i hl
      obtain ⟨hc, hbs⟩ := hexBytes_spec h
      have hd := length_doubled t
      exact ⟨by omega, hbs⟩
    · split at h
      · obtain ⟨hc, hbs⟩ := hexBytes_spec h
        exact ⟨by omega, hbs⟩
      · exact nomatch h
  · exact nomatch h

theorem parseHexRgba_spec (h : parseHexRgba t = some color) : color.length = 4 ∧ ∀ b ∈ color, b < 256 := by
  unfold parseHexRgba at h
  split at h
  · rename_i t
    split at h
    · rename_i hl
      obtain ⟨hc, hbs⟩ := hexBytes_spec h
      have hd := length_doubled t
      exact ⟨by omega, hbs⟩
    · split at h
      · obtain ⟨hc, hbs⟩ := hexBytes_spec h
        rw [length_append] at hc
        change _ + 2 = _ at hc
        exact ⟨by omega, hbs⟩
      · split at h
        · obtain ⟨hc, hbs⟩ := hexBytes_spec h
          exact ⟨by omega, hbs⟩
        · exact nomatch h
  · exact nomatch h

theorem parseHexRgb_format (hl : color.length = 3) (h : ∀ b ∈ color, b < 256) : parseHexRgb (formatHexRgb color) = some color := by
  have ht := length_formatHex color
  rw [formatHexRgb, parseHexRgb, if_neg (by omega), if_pos (by omega), hexBytes_format h]

theorem parseHexRgba_format (hl : color.length = 4) (h : ∀ b ∈ color, b < 256) : parseHexRgba (formatHexRgba color) = some color := by
  match color, hl with
  | [r, g, b, a], _ =>
    rw [formatHexRgba]
    split
    · rename_i ha
      obtain rfl := some.inj ha
      have ho : ([r, g, b].flatMap formatHexByte) ++ ['f', 'f'] = [r, g, b, 255].flatMap formatHexByte := rfl
      change parseHexRgba (formatHexRgb [r, g, b]) = _
      have hs : ([r, g, b].flatMap formatHexByte).length = 6 := rfl
      rw [formatHexRgb, parseHexRgba, if_neg (by omega), if_pos hs, ho, hexBytes_format h]
    · have height : ([r, g, b, a].flatMap formatHexByte).length = 8 := rfl
      rw [formatHexRgb, parseHexRgba, if_neg (by omega), if_neg (by omega), if_pos height, hexBytes_format h]

/-- A colour that was written is written again as it is. -/
theorem normalizeColorValue_stable {path path' : Text} {alpha : Bool} (h : normalizeColorValue path alpha v = .ok w) :
    normalizeColorValue path' alpha w = .ok w := by
  unfold normalizeColorValue at h
  split at h
  · split at h
    · rename_i t t' ht
      obtain rfl := ok.inj h
      rw [normalizeColorValue]
      cases alpha with
      | false =>
        obtain ⟨color, hc, rfl⟩ := map_eq_some_iff.mp ht
        obtain ⟨hl, hbs⟩ := parseHexRgb_spec hc
        rw [if_neg Bool.false_ne_true, parseHexRgb_format hl hbs]
        rfl
      | true =>
        obtain ⟨color, hc, rfl⟩ := map_eq_some_iff.mp ht
        obtain ⟨hl, hbs⟩ := parseHexRgba_spec hc
        rw [if_pos rfl, parseHexRgba_format hl hbs]
        rfl
    · cases h
  · cases h

/-! ### Sections -/

def ensure (condition : Bool) (path : Text) : Except DocumentError Unit := if condition then .ok () else .error (.invalid path)

def isNull : Json → Bool
  | .null => true
  | _ => false

def isBool : Json → Bool
  | .bool _ => true
  | _ => false

/-- A colour that may be null. -/
def normalizeOptionalColor (path : Text) (alpha : Bool) (value : Json) : Except DocumentError Json :=
  if isNull value then .ok value else normalizeColorValue path alpha value

/-- A colour that is missing if it is null. -/
def normalizeRequiredColor (missing path : Text) (value : Json) : Except DocumentError Json :=
  if isNull value then .error (.invalid missing) else normalizeColorValue path false value

def normalizePalette : Json → Except DocumentError Json
  | .array items =>
    if items.length = 16 then do
      let items ← items.mapM (normalizeColorValue "terminal.palette".toList false)
      pure (.array items)
    else .error (.invalid "terminal.palette".toList)
  | _ => .error (.invalid "terminal.palette".toList)

/-- `str::parse::<u16>`. -/
def parseU16 (t : Text) : Option ℕ :=
  let digits := if t.head? = some '+' then t.tail else t
  if digits = [] ∨ digits.all Char.isDigit = false ∨ 65536 ≤ Nat.ofDigitChars 10 digits 0 then none else some (Nat.ofDigitChars 10 digits 0)

def normalizeIndexedEntry (e : Text × Json) : Except DocumentError (Text × Json) :=
  match parseU16 e.1 with
  | some n =>
    if 16 ≤ n ∧ n ≤ 255 then do
      let value ← normalizeColorValue ("terminal.indexed.".toList ++ e.1) false e.2
      pure (e.1, value)
    else .error (.invalid e.1)
  | none => .error (.invalid e.1)

def normalizeIndexed : Json → Except DocumentError Json
  | .object entries =>
    if hasReservedKey entries then .error (.invalid "terminal.indexed".toList)
    else do
      let entries ← entries.mapM normalizeIndexedEntry
      pure (.object entries)
  | _ => .error (.invalid "terminal.indexed".toList)

/-- An object with rules for its members, some of which must be there. -/
def normalizeObject (path : Text) (rules : List Rule) (required : List Text) : Json → Except DocumentError Json
  | .object members =>
    if hasReservedKey members then .error (.invalid path)
    else do
      let members ← applyRules rules members
      required.forM fun key => ensure (lookup key members).isSome (path ++ '.' :: key)
      pure (.object members)
  | _ => .error (.invalid path)

def terminalRules : List Rule :=
  (["background", "foreground"].map fun key =>
    ⟨key.toList, "terminal.".toList ++ key.toList, true, normalizeRequiredColor ("terminal.".toList ++ key.toList) key.toList⟩) ++
  (["cursor", "cursor_text", "selection_background", "selection_foreground"].map fun key =>
    ⟨key.toList, "terminal.".toList ++ key.toList, false, normalizeOptionalColor key.toList false⟩) ++
  [⟨"palette".toList, "terminal.palette".toList, true, normalizePalette⟩,
    ⟨"indexed".toList, "terminal.indexed".toList, false, normalizeIndexed⟩]

def validateTerminal : Json → Except DocumentError Json := normalizeObject "terminal".toList terminalRules []

def uiColors : List String :=
  ["background", "sidebar", "foreground", "muted", "accent", "border", "selected", "success", "warning", "danger", "frame", "info"]

def uiRules : List Rule :=
  ⟨"derive".toList, "ui.derive".toList, true, checked fun value => ensure (isBool value) "ui.derive".toList⟩ ::
    uiColors.map fun key => ⟨key.toList, "ui.".toList ++ key.toList, false,
      normalizeOptionalColor ("ui.".toList ++ key.toList) (key = "selected" ∨ key = "border")⟩

def uiRequired : List Text :=
  ["background", "sidebar", "foreground", "muted", "accent", "selected", "border", "success", "warning", "danger"].map String.toList

def validateUi : Json → Except DocumentError Json := normalizeObject "ui".toList uiRules uiRequired

section
variable [ThemeValues]

def requiredBool (key : String) (members : Members) : Except DocumentError Unit :=
  ensure ((lookup key.toList members).any isBool) key.toList

/-- A text of `1..max` bytes without control characters. -/
def isPlainText (limit : ℕ) (t : Text) : Bool := t ≠ [] && decide (Text.byteLen t ≤ limit) && !t.any Text.isControl

def requiredString (key : String) (limit : ℕ) (members : Members) : Except DocumentError Text :=
  match (lookup key.toList members).bind Json.asStr with
  | some t => if isPlainText limit t then .ok t else .error (.invalid key.toList)
  | none => .error (.invalid key.toList)

/-- The check of a member that may be missing, or null. -/
def optionalMember (check : Json → Bool) (key : String) (members : Members) : Except DocumentError Unit :=
  ensure (((lookup key.toList members).filter fun value => !isNull value).all check) key.toList

def optionalString (key : String) (limit : ℕ) : Members → Except DocumentError Unit :=
  optionalMember (fun value => value.asStr.any (isPlainText limit)) key

def boundedNumber (key : String) (least most : ℚ) (members : Members) : Except DocumentError Unit :=
  ensure ((lookup key.toList members).any fun value => inRange value least most) key.toList

def optionalBoundedNumber (key : String) (least most : ℚ) : Members → Except DocumentError Unit :=
  optionalMember (fun value => inRange value least most) key

def optionalBoundedInteger (key : String) (least most : ℕ) : Members → Except DocumentError Unit :=
  optionalMember (fun value => value.asU64.any fun n => least ≤ n && n ≤ most) key

/-- One of the names that a setting has. -/
def isSetting (names : List String) (value : Json) : Bool :=
  value.asStr.any fun t => (names.map String.toList).contains (Text.toAsciiLowercase (Text.trim t))

def validateTypography : Json → Except DocumentError Unit
  | .object members => do
    requiredBool "enabled" members
    requiredBool "ligatures" members
    optionalString "font_family" 256 members
    optionalString "ui_font_family" 256 members
    optionalBoundedNumber "font_size" 4 96 members
    optionalBoundedNumber "ui_font_size" 10 20 members
    optionalBoundedInteger "font_weight" 100 900 members
    optionalBoundedNumber "line_height" (1 / 2) 3 members
    optionalBoundedNumber "letter_spacing" 0 8 members
  | _ => .error (.invalid "typography".toList)

def validateLayout : Json → Except DocumentError Unit
  | .object members => do
    optionalBoundedNumber "padding_x" 0 48 members
    optionalBoundedNumber "padding_y" 0 40 members
    boundedNumber "radius" 0 28 members
    boundedNumber "gutter" 0 32 members
    boundedNumber "divider_width" 0 4 members
  | _ => .error (.invalid "layout".toList)

def validateEffects : Json → Except DocumentError Unit
  | .object members => do
    let material ← requiredString "material" 16 members
    ensure (material = "solid".toList ∨ material = "glass".toList) "effects.material".toList
    optionalBoundedNumber "opacity" 0 100 members
    optionalMember (isSetting ["none", "off", "0", "false", "no", "mica", "mica-alt", "aero", "blurbehind", "acrylic",
      "1", "true", "yes", "on"]) "blur" members
    optionalMember (fun value => value.asStr.any fun t => t = [] || isPlainText 4096 t) "background_image" members
    optionalMember (isSetting ["image", "video", "gif"]) "background_media_kind" members
    optionalString "background_image_fit" 64 members
    optionalString "background_image_alignment" 64 members
    optionalBoundedNumber "background_image_opacity" 0 100 members
    optionalMember isBool "background_image_cover_chrome" members
    optionalMember (isSetting ["block", "beam", "bar", "underline", "hollow"]) "cursor_shape" members
  | _ => .error (.invalid "effects".toList)

end

/-! ### Documents -/

def validateName (name : Text) : Bool := isPlainText 128 name

def isIdChar (c : Char) : Bool := c.isAlphanum || c == '_' || c == '-'

def validateId (id : Text) : Bool := id ≠ [] && decide (id.length ≤ 128) && id.all isIdChar

/-- What is checked of the root before its sections. -/
def validateEnvelope (root : Members) : Except DocumentError Unit := do
  ensure ((lookup "schema_version".toList root).bind Json.asU64 = some schemaVersion) "schema_version".toList
  ensure (((lookup "name".toList root).bind Json.asStr).any validateName) "name".toList
  ensure (((lookup "appearance".toList root).bind Json.asStr).any fun t => t = "light".toList ∨ t = "dark".toList) "appearance".toList
  ensure ((lookup "id".toList root).all fun value => value.asStr.any validateId) "id".toList
  ensure ((lookup "revision".toList root).all fun value => value.asU64.isSome) "revision".toList

def isObject (value : Json) : Bool := value.asObject.isSome

section
variable [ThemeValues]

def rootRules : List Rule :=
  [⟨"terminal".toList, "terminal".toList, true, validateTerminal⟩,
    ⟨"ui".toList, "ui".toList, true, validateUi⟩,
    ⟨"typography".toList, "typography".toList, true, checked validateTypography⟩,
    ⟨"layout".toList, "layout".toList, true, checked validateLayout⟩,
    ⟨"effects".toList, "effects".toList, true, checked validateEffects⟩,
    ⟨"metadata".toList, "metadata".toList, false, checked fun value => ensure (isObject value) "metadata".toList⟩,
    ⟨"extensions".toList, "extensions".toList, false, checked fun value => ensure (isObject value) "extensions".toList⟩]

def validateAndNormalize : Json → Except DocumentError Members
  | .object root =>
    if hasReservedKey root then .error (.invalid [])
    else do
      validateEnvelope root
      applyRules rootRules root
  | _ => .error (.invalid [])

end

structure ThemeDocument where
  value : Members

namespace ThemeDocument

def toValue (d : ThemeDocument) : Json := .object d.value

def name (d : ThemeDocument) : Text := ((lookup "name".toList d.value).bind Json.asStr).getD []

def id (d : ThemeDocument) : Option Text := (lookup "id".toList d.value).bind Json.asStr

def revision (d : ThemeDocument) : ℕ := ((lookup "revision".toList d.value).bind Json.asU64).getD 0

def isBuiltin (d : ThemeDocument) : Bool :=
  match lookup "builtin".toList d.value with
  | some (.bool b) => b
  | _ => false

def withIdAndRevision (d : ThemeDocument) (id : Text) (revision : ℕ) : ThemeDocument :=
  ⟨insertMember "builtin".toList (.bool false) (insertMember "revision".toList (.int revision)
    (insertMember "id".toList (.string id) d.value))⟩

section
variable [ThemeValues]

/-- `definition`, as far as it is refused. -/
def definition (d : ThemeDocument) : Except DocumentError Unit := do
  let section_ := fun key : String => (lookup key.toList d.value).getD .null
  ensure (resolves (section_ "appearance") (section_ "terminal") (section_ "ui") (section_ "typography")
    (section_ "layout") (section_ "effects")) []
  ensure (Text.trim d.name ≠ [] && decide (Text.byteLen (Text.trim d.name) ≤ 128) && !d.name.any Text.isControl) "name".toList

def fromValue (value : Json) : Except DocumentError ThemeDocument := do
  let value ← validateAndNormalize value
  if maxDocumentBytes < toVecLen (.object value) then .error .tooLarge
  else do
    definition ⟨value⟩
    pure ⟨value⟩

def withName (d : ThemeDocument) (name : Text) : Except DocumentError ThemeDocument :=
  fromValue (.object (insertMember "name".toList (.string name) d.value))

/-- `metadata.insert("based_on", name)`. -/
def basedOn (name : Text) : Json → Json
  | .object metadata => .object (insertMember "based_on".toList (.string name) metadata)
  | value => value

/-- The value of a fork. -/
def forkValue (d : ThemeDocument) (id name : Text) : Members :=
  let value := insertMember "name".toList (.string name) (d.withIdAndRevision id 0).value
  insertMember "metadata".toList (basedOn d.name ((lookup "metadata".toList value).getD (.object []))) value

def fork (d : ThemeDocument) (id name : Text) : Except DocumentError ThemeDocument := fromValue (.object (d.forkValue id name))

/-- What makes this document makes the same again. -/
def Valid (d : ThemeDocument) : Prop := fromValue d.toValue = .ok d

end

end ThemeDocument

end Pebrel.Themes
