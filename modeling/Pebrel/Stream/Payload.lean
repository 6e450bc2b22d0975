import Pebrel.Library.Text

/-!
# What a terminal control says

The controls that the stream processor reads besides those of the VT parser, and
what their payloads say (`osc_cwd.rs`): working directories, shell markers,
variables, notifications, progress, status reports, hooks, images.

Bytes are read as text by `utf8`, which fails on bytes that are no UTF-8, and by
`utf8Lossy`, which puts a replacement character for each maximal part of a
sequence that cannot be completed.
-/

namespace Pebrel.Stream

open Library

abbrev Bytes := List UInt8

/-- The bytes of a text of ASCII characters. -/
def ascii (s : String) : Bytes := s.toList.map fun c => .ofNat c.toNat

def stripPrefix {α : Type} [BEq α] (start l : List α) : Option (List α) :=
  if start.isPrefixOf l then some (l.drop start.length) else none

theorem stripPrefix_eq_some_iff {α : Type} [BEq α] [LawfulBEq α] {start l rest : List α} :
    stripPrefix start l = some rest ↔ l = start ++ rest := by
  simp only [stripPrefix]
  constructor
  · intro h
    split at h
    · next hst =>
      cases h
      exact (List.prefix_iff_eq_append.1 (List.isPrefixOf_iff_prefix.1 hst)).symm
    · cases h
  · rintro rfl
    simp

theorem stripPrefix_eq_none_iff {α : Type} [BEq α] [LawfulBEq α] {start l : List α} : stripPrefix start l = none ↔ ¬start <+: l := by
  simp [stripPrefix]

def isAsciiDigit (b : UInt8) : Bool := 0x30 ≤ b && b ≤ 0x39

def isAsciiAlphabetic (b : UInt8) : Bool := (0x41 ≤ b && b ≤ 0x5a) || (0x61 ≤ b && b ≤ 0x7a)

def isAsciiAlphanumeric (b : UInt8) : Bool := isAsciiDigit b || isAsciiAlphabetic b

def isAsciiHexdigit (b : UInt8) : Bool := isAsciiDigit b || (0x41 ≤ b && b ≤ 0x46) || (0x61 ≤ b && b ≤ 0x66)

/-! ### Text -/

/-- The number of continuation bytes after a first byte, its payload, and the range of the
first continuation byte. -/
def utf8Lead (b : UInt8) : Option (ℕ × ℕ × UInt8 × UInt8) :=
  if b < 0x80 then some (0, b.toNat, 0x80, 0xbf)
  else if b < 0xc2 then none
  else if b < 0xe0 then some (1, b.toNat % 0x20, 0x80, 0xbf)
  else if b < 0xf0 then
    some (2, b.toNat % 0x10, if b = 0xe0 then 0xa0 else 0x80, if b = 0xed then 0x9f else 0xbf)
  else if b < 0xf5 then
    some (3, b.toNat % 0x08, if b = 0xf0 then 0x90 else 0x80, if b = 0xf4 then 0x8f else 0xbf)
  else none

/-- Continuation bytes, and what is left after them or after the last one that fits. -/
def utf8Continue : ℕ → ℕ → UInt8 → UInt8 → Bytes → Option ℕ × Bytes
  | 0, value, _, _, rest => (some value, rest)
  | _ + 1, _, _, _, [] => (none, [])
  | n + 1, value, low, high, b :: rest =>
    if low ≤ b && b ≤ high then utf8Continue n (value * 0x40 + b.toNat % 0x40) 0x80 0xbf rest else (none, b :: rest)

/-- The characters of some bytes, with nothing for each part that is no UTF-8. -/
def utf8Chars : ℕ → Bytes → List (Option Char)
  | 0, _ => []
  | _ + 1, [] => []
  | fuel + 1, b :: rest =>
    match utf8Lead b with
    | none => none :: utf8Chars fuel rest
    | some (n, value, low, high) =>
      let (value, rest) := utf8Continue n value low high rest
      value.map .ofNat :: utf8Chars fuel rest

/-- `std::str::from_utf8`. -/
def utf8 (bytes : Bytes) : Option Text := (utf8Chars bytes.length bytes).mapM id

/-- `String::from_utf8_lossy`. -/
def utf8Lossy (bytes : Bytes) : Text := (utf8Chars bytes.length bytes).map fun c => c.getD (.ofNat 0xfffd)

def utf8Encode (text : Text) : Bytes := text.flatMap String.utf8EncodeChar

def parseDigits (text : Text) : Option ℕ :=
  if text ≠ [] ∧ text.all Char.isDigit = true then some (text.foldl (fun n c => n * 10 + (c.toNat - 0x30)) 0) else none

/-- `str::parse::<i32>`. -/
def parseI32 : Text → Option ℤ
  | '-' :: text => (parseDigits text).bind fun n => if n ≤ 2 ^ 31 then some (-n) else none
  | '+' :: text => (parseDigits text).bind fun n => if n < 2 ^ 31 then some n else none
  | text => (parseDigits text).bind fun n => if n < 2 ^ 31 then some n else none

/-- `str::parse::<u8>`. -/
def parseU8 : Text → Option ℕ
  | '+' :: text => (parseDigits text).bind fun n => if n < 2 ^ 8 then some n else none
  | text => (parseDigits text).bind fun n => if n < 2 ^ 8 then some n else none

/-! ### Events -/

inductive Packet where
  | begin (wireId rows : ℕ) (mime title : Text)
  | place (wireId row : ℕ)
  | append (wireId : ℕ) (text : Text)
  | appendStderr (wireId : ℕ) (text : Text)
  | end (wireId : ℕ) (code : ℤ)

/-- The payloads that are read elsewhere: base64, frames of inline content, status reports and
encoded images with their options. -/
class Decode where
  Report : Type
  ImageOptions : Type
  base64 : Bytes → Option Bytes
  inlineContent : Bytes → Option Packet
  programStatus : Bytes → Option Report
  osc1337Image : Bytes → Option (Bytes × ℕ × ℕ × ImageOptions)

inductive OscEvent [Decode] where
  | inlineContent (packet : Packet)
  | cwd (path : Text)
  | promptMark
  | promptInput
  | commandStart
  | commandDone (exitCode : Option ℤ)
  | userVar (name value : Text)
  | notify (text : Text)
  | progress (state : ℕ) (value : Option ℕ)
  | programStatus (report : Decode.Report)
  | programStatusReset
  | remoteHook (token : Text) (envelope : Bytes)
  | inlineImage (data : Bytes) (width height : ℕ) (options : Decode.ImageOptions)
  | kittyGraphic (control payload : Bytes)
  | cellSizeQuery

/-! ### Working directories -/

def hexVal (c : UInt8) : Option UInt8 :=
  if isAsciiDigit c then some (c - 0x30)
  else if 0x61 ≤ c && c ≤ 0x66 then some (c - 0x61 + 10)
  else if 0x41 ≤ c && c ≤ 0x46 then some (c - 0x41 + 10)
  else none

/-- The bytes of `percent_decode`. -/
def percentDecodeBytes : Bytes → Bytes
  | [] => []
  | [a] => [a]
  | [a, b] => [a, b]
  | a :: b :: c :: rest =>
    match hexVal b, hexVal c with
    | some h, some l =>
      if a = 0x25 then (h * 16 + l) :: percentDecodeBytes rest else a :: percentDecodeBytes (b :: c :: rest)
    | _, _ => a :: percentDecodeBytes (b :: c :: rest)

def percentDecode (s : Text) : Text := utf8Lossy (percentDecodeBytes (utf8Encode s))

def isWindowsDrivePath (p : Text) : Bool :=
  match utf8Encode p with
  | a :: b :: c :: _ => a == 0x2f && isAsciiAlphabetic b && c == 0x3a
  | _ => false

def parseOsc7Uri (rest : Bytes) : Option Text := do
  let s := Text.trim (← utf8 rest)
  let after := (stripPrefix "file://".toList s).getD s
  let slash ← after.findIdx? (· == '/')
  let decoded := percentDecode (after.drop slash)
  let cleaned := if isWindowsDrivePath decoded then decoded.drop 1 else decoded
  if cleaned ≠ [] then some cleaned else none

/-! ### Other payloads -/

section
variable [Decode]

def parseUserVar (rest : Bytes) : Option OscEvent := do
  let eq ← rest.findIdx? (· == 0x3d)
  let name ← utf8 (rest.take eq)
  if name = [] ∨ (rest.take eq).all (fun b => isAsciiAlphanumeric b || b == 0x5f) = false then none
  else
    let decoded ← Decode.base64 (rest.drop (eq + 1))
    if decoded.length > 8 * 1024 then none
    else
      let value ← utf8 decoded
      some (.userVar name value)

def parseRemoteHook (rest : Bytes) : Option OscEvent := do
  let separator ← rest.findIdx? (· == 0x3b)
  let token := .trim (← utf8 (rest.take separator))
  if (utf8Encode token).length ≠ 32 ∨ (utf8Encode token).all isAsciiHexdigit = false then none
  else
    let envelope ← Decode.base64 (rest.drop (separator + 1))
    if envelope = [] ∨ envelope.length > 64 * 1024 then none else some (.remoteHook token envelope)

/-- The semantic prompt zones of OSC 133. -/
def parseOsc133 (rest : Bytes) : Option OscEvent :=
  let phased (ch : UInt8) := rest.head? == some ch && (rest.length == 1 || rest[1]? == some 0x3b)
  if phased 0x41 then some .promptMark
  else if phased 0x42 then some .promptInput
  else if phased 0x43 then some .commandStart
  else if phased 0x44 then
    let first := if 2 ≤ rest.length then some ((rest.drop 2).takeWhile (· != 0x3b)) else none
    some (.commandDone ((first.bind utf8).bind fun text => parseI32 (.trim text)))
  else none

/-- The progress reports and notifications of OSC 9. -/
def parseOsc9 (rest : Bytes) : Option OscEvent :=
  match stripPrefix (ascii "4;") rest with
  | some progress => do
    let fields := progress.splitOn 0x3b
    let state ← (fields[0]?.bind utf8).bind fun field => parseU8 (.trim field)
    let value := ((fields[1]?.bind utf8).bind fun field => parseU8 (.trim field)).map fun percent => min percent 100
    some (.progress state value)
  | none =>
    let text := Text.trim (utf8Lossy rest)
    if text ≠ [] then some (.notify text) else none

/-- The working directory of OSC 9;9. -/
def parseOsc99 (rest : Bytes) : Option OscEvent :=
  let s := (Text.trim (utf8Lossy rest)).rdropWhile fun c => c == '/' || c == '\\'
  if s ≠ [] then some (.cwd s) else none

def parseOsc1337 (rest : Bytes) : Option OscEvent :=
  match stripPrefix (ascii "SetUserVar=") rest with
  | some var => parseUserVar var
  | none => (Decode.osc1337Image rest).map fun (data, width, height, options) => .inlineImage data width height options

end

end Pebrel.Stream
