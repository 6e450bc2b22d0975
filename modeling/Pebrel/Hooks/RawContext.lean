import Mathlib.Data.List.Forall2
import Pebrel.Sync.Payload

/-!
# The raw context of a hook

A hook hands over the payload of the agent as context, in a form that is bounded
and has no secrets (`payload.rs`): what is stored under a key that sounds like one is
replaced, strings, arrays and objects are cut, and nothing is kept below six levels.
The text of what is left is cut to a number of bytes.

Payloads that differ only below keys of that kind give the same context, and no
context is longer than the bound (`sanitizedRawContext_alike`).

## The model

The text of a value (`serde_json::to_string`) is a parameter. The depth is counted
down from six. A slice of a text that is not at the boundary of a character is a panic,
here `none`.
-/

namespace Pebrel.Hooks.RawContext

open Library Sync List Option
open Text (byteLen)

def contextStringMaxChars : ℕ := 1024

def rawContextMaxBytes : ℕ := 16 * 1024

/-! ### Redaction -/

def truncate (s : Text) (maxChars : ℕ) : Text := if s.length ≤ maxChars then s else s.take maxChars ++ ['…']

def contains (needle : Text) : Text → Bool
  | [] => needle.isEmpty
  | c :: t => needle.isPrefixOf (c :: t) || contains needle t

/-- What `sensitive_context_key` looks for. -/
def needles : List Text :=
  ["token", "secret", "password", "passwd", "authorization", "cookie", "credential", "apikey", "accesskey", "privatekey", "environment",
    "env"].map String.toList

def sensitiveContextKey (key : Text) : Bool :=
  let normalized := Text.toAsciiLowercase (key.filter Char.isAlphanum)
  needles.any fun needle => contains needle normalized

/-- `sanitize_json`, with the levels that are left. -/
def sanitizeLevels : ℕ → Json → Json
  | 0, _ => .string "[depth limited]".toList
  | _ + 1, .null => .null
  | _ + 1, .bool b => .bool b
  | _ + 1, .int n => .int n
  | _ + 1, .float digits => .float digits
  | _ + 1, .string s => .string (truncate s contextStringMaxChars)
  | levels + 1, .array items => .array ((items.take 24).map (sanitizeLevels levels))
  | levels + 1, .object members =>
    .object ((members.take 48).foldl (fun sanitized m =>
      Assoc.insert m.1 (if sensitiveContextKey m.1 then .string "[redacted]".toList else sanitizeLevels levels m.2) sanitized) [])

def sanitizeJson (value : Json) : Json := sanitizeLevels 6 value

/-! ### Cutting the text -/

/-- `value[..boundary]`. -/
def sliceTo : Text → ℕ → Option Text
  | _, 0 => some []
  | [], _ + 1 => none
  | c :: t, boundary => if c.utf8Size ≤ boundary then (sliceTo t (boundary - c.utf8Size)).map (c :: ·) else none

def isCharBoundary (value : Text) (boundary : ℕ) : Bool := (sliceTo value boundary).isSome

/-- The loop of `truncate_utf8_bytes`. -/
def floorBoundary (value : Text) : ℕ → ℕ
  | 0 => 0
  | boundary + 1 => if isCharBoundary value (boundary + 1) then boundary + 1 else floorBoundary value boundary

def truncateUtf8Bytes (value : Text) (maxBytes : ℕ) : Option Text :=
  if byteLen value ≤ maxBytes then some value else sliceTo value (floorBoundary value (min maxBytes (byteLen value)))

/-- `sanitized_raw_context`, or nothing if it panics. -/
def sanitizedRawContext (toString : Json → Option Text) (payload : Json) : Option (Option Text) :=
  match toString (sanitizeJson payload) with
  | none => some none
  | some raw =>
    if raw = "null".toList ∨ raw = ['\x7b', '\x7d'] then some none
    else if byteLen raw ≤ rawContextMaxBytes then some (some raw)
    else (truncateUtf8Bytes raw (rawContextMaxBytes - 14)).map fun limited => some (limited ++ "...[truncated]".toList)

/-! ### Payloads that differ in secrets -/

mutual

/-- The values differ only in what is stored under sensitive keys, at any depth. -/
inductive Alike : Json → Json → Prop where
  | same (v : Json) : Alike v v
  | array {vs ws : List Json} (h : List.Forall₂ Alike vs ws) : Alike (.array vs) (.array ws)
  | object {ms ns : List (Text × Json)} (h : List.Forall₂ AlikeMember ms ns) : Alike (.object ms) (.object ns)

inductive AlikeMember : Text × Json → Text × Json → Prop where
  | redacted {key : Text} (h : sensitiveContextKey key = true) (v w : Json) : AlikeMember (key, v) (key, w)
  | kept (key : Text) {v w : Json} (h : Alike v w) : AlikeMember (key, v) (key, w)

end

theorem map_alike {levels : ℕ} (ih : ∀ {v w : Json}, Alike v w → sanitizeLevels levels v = sanitizeLevels levels w) {vs ws : List Json}
    (h : List.Forall₂ Alike vs ws) : vs.map (sanitizeLevels levels) = ws.map (sanitizeLevels levels) := by
  induction h with
  | nil => rfl
  | cons hv _ ihs => rw [map_cons, map_cons, ih hv, ihs]

theorem foldl_alike {levels : ℕ} (ih : ∀ {v w : Json}, Alike v w → sanitizeLevels levels v = sanitizeLevels levels w)
    {ms ns : List (Text × Json)} (h : List.Forall₂ AlikeMember ms ns) (sanitized : List (Text × Json)) :
    ms.foldl (fun sanitized m => Assoc.insert m.1 (if sensitiveContextKey m.1 then .string "[redacted]".toList
      else sanitizeLevels levels m.2)
      sanitized) sanitized =
    ns.foldl (fun sanitized m => Assoc.insert m.1 (if sensitiveContextKey m.1 then .string "[redacted]".toList
      else sanitizeLevels levels m.2)
      sanitized) sanitized := by
  induction h generalizing sanitized with
  | nil => rfl
  | cons hm _ ihs =>
    rw [foldl_cons, foldl_cons, ihs]
    congr 1
    cases hm with
    | redacted hk v w => rw [if_pos hk, if_pos hk]
    | kept key hv => rw [ih hv]

/-- Secrets do not matter for what is kept. -/
theorem sanitizeLevels_alike {levels : ℕ} {v w : Json} (h : Alike v w) : sanitizeLevels levels v = sanitizeLevels levels w := by
  induction levels generalizing v w with
  | zero => rw [sanitizeLevels, sanitizeLevels]
  | succ levels ih =>
    cases h with
    | same => rfl
    | array h =>
      rw [sanitizeLevels, sanitizeLevels, map_alike ih (forall₂_take 24 h)]
    | object h =>
      rw [sanitizeLevels, sanitizeLevels, foldl_alike ih (forall₂_take 48 h)]

/-! ### The bound -/

theorem sliceTo_spec {value t : Text} {boundary : ℕ} (h : sliceTo value boundary = some t) : t <+: value ∧ byteLen t = boundary := by
  induction value generalizing boundary t with
  | nil =>
    cases boundary with
    | zero =>
      obtain rfl := some.inj h
      exact ⟨prefix_refl _, rfl⟩
    | succ boundary => cases h
  | cons c value ih =>
    cases boundary with
    | zero =>
      rw [sliceTo] at h
      obtain rfl := some.inj h
      exact ⟨List.nil_prefix, rfl⟩
    | succ boundary =>
      rw [sliceTo] at h
      split at h
      · rename_i hle
        obtain ⟨t', ht', rfl⟩ := map_eq_some_iff.mp h
        obtain ⟨hp, hl⟩ := ih ht'
        refine ⟨cons_prefix_cons.mpr ⟨rfl, hp⟩, ?_⟩
        rw [Text.byteLen_cons, hl]
        omega
      · cases h
      · exact Nat.succ_ne_zero _

/-- The boundary that is found is one. -/
theorem floorBoundary_spec (value : Text) (boundary : ℕ) :
    floorBoundary value boundary ≤ boundary ∧ isCharBoundary value (floorBoundary value boundary) = true := by
  induction boundary with
  | zero =>
    refine ⟨Nat.le_refl _, ?_⟩
    cases value <;> rfl
  | succ boundary ih =>
    rw [floorBoundary]
    split
    · rename_i h
      exact ⟨Nat.le_refl _, h⟩
    · exact ⟨ih.1.trans (Nat.le_succ _), ih.2⟩

theorem truncateUtf8Bytes_spec (value : Text) (maxBytes : ℕ) :
    ∃ t, truncateUtf8Bytes value maxBytes = some t ∧ t <+: value ∧ byteLen t ≤ maxBytes := by
  rw [truncateUtf8Bytes]
  split
  · rename_i h
    exact ⟨value, rfl, prefix_refl _, h⟩
  obtain ⟨hle, hb⟩ := floorBoundary_spec value (min maxBytes (byteLen value))
  obtain ⟨t, ht⟩ := isSome_iff_exists.mp hb
  obtain ⟨hp, hl⟩ := sliceTo_spec ht
  refine ⟨t, ht, hp, ?_⟩
  rw [hl]
  exact hle.trans (Nat.min_le_left _ _)

/-- A context is there, or nothing is, and it is not longer than the bound. -/
theorem sanitizedRawContext_le (toString : Json → Option Text) (payload : Json) :
    ∃ r, sanitizedRawContext toString payload = some r ∧ ∀ raw, r = some raw → byteLen raw ≤ rawContextMaxBytes := by
  rw [sanitizedRawContext]
  cases toString (sanitizeJson payload) with
  | none => exact ⟨none, rfl, nofun⟩
  | some raw =>
    by_cases he : raw = "null".toList ∨ raw = ['\x7b', '\x7d']
    · exact ⟨none, if_pos he, nofun⟩
    by_cases hle : byteLen raw ≤ rawContextMaxBytes
    · refine ⟨some raw, by simp only [if_neg he, if_pos hle], fun raw' h => ?_⟩
      obtain rfl := some.inj h
      exact hle
    · obtain ⟨t, ht, -, hl⟩ := truncateUtf8Bytes_spec raw (rawContextMaxBytes - 14)
      refine ⟨some (t ++ "...[truncated]".toList), by simp only [if_neg he, if_neg hle, ht, map_some], fun raw' h => ?_⟩
      obtain rfl := some.inj h
      have hmark : byteLen "...[truncated]".toList = 14 := by decide
      have hrm : 14 ≤ rawContextMaxBytes := by decide
      rw [Text.byteLen_append, hmark]
      omega

/-- **Payloads that differ only in secrets give the same context, and it is bounded.** -/
theorem sanitizedRawContext_alike (toString : Json → Option Text) :
    (∀ {v w : Json}, Alike v w → sanitizedRawContext toString v = sanitizedRawContext toString w) ∧
    ∀ payload, ∃ r, sanitizedRawContext toString payload = some r ∧ ∀ raw, r = some raw → byteLen raw ≤ rawContextMaxBytes := by
  refine ⟨fun h => ?_, sanitizedRawContext_le toString⟩
  rw [sanitizedRawContext, sanitizedRawContext, sanitizeJson, sanitizeJson, sanitizeLevels_alike h]

/-- A writer of objects with one string or one object. -/
def textOfOne : Json → Option Text
  | .object [(key, .string s)] => some (['\x7b', '\x22'] ++ key ++ ['\x22', ':', '\x22'] ++ s ++ ['\x22', '\x7d'])
  | .object [(key, .object [(key', .string s)])] =>
    some (['\x7b', '\x22'] ++ key ++ ['\x22', ':', '\x7b', '\x22'] ++ key' ++ ['\x22', ':', '\x22'] ++ s ++ ['\x22', '\x7d', '\x7d'])
  | _ => none

/-- The keys of two users. -/
theorem sanitizedRawContext_alike_keys :
    Alike (.object [("tool".toList, .object [("API-Key".toList, .string ['1'])])])
      (.object [("tool".toList, .object [("API-Key".toList, .array [.null])])]) ∧
    sanitizedRawContext textOfOne (.object [("tool".toList, .object [("API-Key".toList, .string ['1'])])]) =
      sanitizedRawContext textOfOne (.object [("tool".toList, .object [("API-Key".toList, .array [.null])])]) := by
  have hali : Alike (.object [("tool".toList, .object [("API-Key".toList, .string ['1'])])])
      (.object [("tool".toList, .object [("API-Key".toList, .array [.null])])]) := by
    refine .object (.cons (.kept _ (.object (.cons (.redacted ?_ _ _) .nil))) .nil)
    decide
  exact ⟨hali, (sanitizedRawContext_alike textOfOne).1 hali⟩

end Pebrel.Hooks.RawContext
