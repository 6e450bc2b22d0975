import Pebrel.Library.LineEndings
import Pebrel.Stream.Utf8

/-!
# Text documents

A text document is read from bytes and written back to them (`text_document.rs`): what is
edited is a text with plain line feeds, and whether the bytes began with a byte order
mark, and whether their lines ended with carriage returns, is kept beside it. There is one
flag for all line endings. So what was read is written back unchanged, and the lines that
are not edited keep their bytes, exactly if the endings are all alike (`roundTrip_iff`).
-/

namespace Pebrel.Documents

open Pebrel.Library Pebrel.Library.LineEndings Option String
open Pebrel.Stream (Bytes utf8 utf8Lossy utf8Encode utf8Encode_of_utf8 utf8Lossy_of_utf8 utf8Encode_inj length_utf8Encode)

def maxBytes : ℕ := 8 * 1024 * 1024

def byteOrderMark : Bytes := [0xef, 0xbb, 0xbf]

structure TextSnapshot where
  text : Text
  bytes : Bytes
  bom : Bool
  crlf : Bool
  truncated : Bool
  invalidEncoding : Bool
  readOnly : Bool

inductive SaveError where
  | changed
  | busy
  | readOnly
  | io (message : Text)
  deriving DecidableEq

/-- The text of a file, cut to 8 MiB; what is cut off or no text is read only. -/
def TextSnapshot.decode (bytes : Bytes) (readOnly : Bool) : TextSnapshot :=
  let truncated := decide (maxBytes < bytes.length)
  let bytes := bytes.take maxBytes
  let bom := byteOrderMark.isPrefixOf bytes
  let body := if bom then bytes.drop 3 else bytes
  let invalidEncoding := (utf8 body).isNone || decide (0 ∈ body)
  let text := utf8Lossy body
  let crlf := decide (['\r', '\n'] <:+: text) && decide ('\n' ∉ replaceCrlf '\r' '\n' [] text)
  { text := replaceCrlf '\r' '\n' ['\n'] text, bytes, bom, crlf, truncated, invalidEncoding,
    readOnly := readOnly || truncated || invalidEncoding }

def TextSnapshot.encode (snapshot : TextSnapshot) (text : Text) : Except SaveError Bytes :=
  if snapshot.readOnly then .error .readOnly
  else
    let bytes := if snapshot.bom then byteOrderMark else []
    let encoded := if snapshot.crlf then widen '\r' '\n' text else text
    let bytes := bytes ++ utf8Encode encoded
    if maxBytes < bytes.length then .error (.io "Editable text is limited to 8 MiB".toList) else .ok bytes

/-- The lines of a file that is written for a snapshot, with their ends. -/
def TextSnapshot.fileLines (snapshot : TextSnapshot) (bytes : Bytes) : List Bytes :=
  splitInclusive 10 (bytes.drop (if snapshot.bom then 3 else 0))

open TextSnapshot (decode encode fileLines)

/-- The endings of the lines of a file, for each whether a carriage return is before the line feed. -/
def lineEndings (bytes : Bytes) : List Bool := endings 13 10 false bytes

/-- The endings are not all alike. -/
def Mixed (bytes : Bytes) : Prop := true ∈ lineEndings bytes ∧ false ∈ lineEndings bytes

/-- What was read is written back. -/
def TextSnapshot.WritesBack (snapshot : TextSnapshot) : Prop := snapshot.encode snapshot.text = .ok snapshot.bytes

/-- A line that an edit leaves as it is keeps its bytes, wherever it comes to stand. -/
def TextSnapshot.KeepsLines (snapshot : TextSnapshot) : Prop :=
  ∀ text result, snapshot.encode text = .ok result → ∀ (i j : ℕ) (line : Text), (splitInclusive '\n' snapshot.text)[i]? = some line →
    (splitInclusive '\n' text)[j]? = some line → (snapshot.fileLines result)[j]? = (snapshot.fileLines snapshot.bytes)[i]?

/-! ### Encoding -/

/-- The bytes of a character beyond ASCII are not those of ASCII characters. -/
theorem mem_utf8EncodeChar {c : Char} {b : UInt8} (hb : b ∈ utf8EncodeChar c) (hlt : b.toNat < 0x80) : c.val.toNat = b.toNat := by
  rw [utf8EncodeChar] at hb
  split at hb
  · rw [List.mem_singleton.mp hb, UInt8.toNat_ofNat']
    omega
  split at hb
  · simp only [List.mem_cons, List.not_mem_nil, or_false] at hb
    rcases hb with rfl | rfl <;> rw [UInt8.toNat_ofNat'] at hlt <;> omega
  · split at hb
    · simp only [List.mem_cons, List.not_mem_nil, or_false] at hb
      rcases hb with rfl | rfl | rfl <;> rw [UInt8.toNat_ofNat'] at hlt <;> omega
    · simp only [List.mem_cons, List.not_mem_nil, or_false] at hb
      rcases hb with rfl | rfl | rfl | rfl <;> rw [UInt8.toNat_ofNat'] at hlt <;> omega

theorem utf8EncodeChar_other {c : Char} {b : UInt8} (d : Char) (hd : d.val.toNat = b.toNat) (hlt : b.toNat < 0x80) (hc : c ≠ d) :
    b ∉ utf8EncodeChar c := fun hb => hc (Char.ext (UInt32.toNat_inj.mp ((mem_utf8EncodeChar hb hlt).trans hd.symm)))

/-- The endings of a text are those of its bytes. -/
theorem lineEndings_utf8Encode (b : Bool) (t : Text) : endings 13 10 b (utf8Encode t) = endings '\r' '\n' b t :=
  endings_flatMap (by decide) (by decide) (by decide)
    (fun c hcr hlf => ⟨utf8EncodeChar_ne_nil, utf8EncodeChar_other '\r' rfl (by decide) hcr,
    utf8EncodeChar_other '\n' rfl (by decide) hlf⟩) t

theorem splitInclusive_utf8Encode (t : Text) : splitInclusive 10 (utf8Encode t) = (splitInclusive '\n' t).map utf8Encode :=
  @splitInclusive_flatMap Char UInt8 _ _ '\n' 10 [] utf8EncodeChar rfl nofun
    (fun c hc => ⟨utf8EncodeChar_ne_nil, utf8EncodeChar_other '\n' rfl (by decide) hc⟩) t

theorem splitInclusive_widen (t : Text) : splitInclusive '\n' (widen '\r' '\n' t) = (splitInclusive '\n' t).map (widen '\r' '\n') :=
  @splitInclusive_flatMap Char Char _ _ '\n' '\n' ['\r'] _ rfl (by decide) (fun c hc => by simp [hc, Ne.symm hc]) t

/-! ### Snapshots that may be written -/

theorem lineEndings_byteOrderMark (bytes : Bytes) : lineEndings (byteOrderMark ++ bytes) = lineEndings bytes :=
  endings_append (by decide) (by decide) (by decide) false bytes

/-- What is kept of bytes that may be written back. -/
structure Decoded (snapshot : TextSnapshot) (bytes : Bytes) (t : Text) : Prop where
  writable : snapshot.readOnly = false
  bytes_eq : snapshot.bytes = bytes
  body_eq : bytes = (if snapshot.bom then byteOrderMark else []) ++ utf8Encode t
  text_eq : snapshot.text = replaceCrlf '\r' '\n' ['\n'] t
  crlf_iff : snapshot.crlf = true ↔ true ∈ lineEndings bytes ∧ false ∉ lineEndings bytes
  length_le : bytes.length ≤ maxBytes
  lineEndings_eq : lineEndings bytes = endings '\r' '\n' false t

theorem decode_spec {bytes : Bytes} {readOnly : Bool} (h : (decode bytes readOnly).readOnly = false) :
    ∃ t, Decoded (decode bytes readOnly) bytes t := by
  have hf : (decide (maxBytes < bytes.length) = false) ∧
      (utf8 (if byteOrderMark.isPrefixOf (bytes.take maxBytes) then (bytes.take maxBytes).drop 3 else bytes.take
      maxBytes)).isNone = false := by
    simp only [decode, Bool.or_eq_false_iff] at h
    exact ⟨h.1.2, h.2.1⟩
  have hl : bytes.length ≤ maxBytes := not_lt.mp (of_decide_eq_false hf.1)
  have htk : bytes.take maxBytes = bytes := List.take_of_length_le hl
  rw [htk] at hf
  obtain ⟨t, ht⟩ := isSome_iff_exists.mp (isNone_eq_false_iff.mp hf.2)
  have hbody : bytes = (if byteOrderMark.isPrefixOf bytes then byteOrderMark else []) ++ utf8Encode t := by
    rw [utf8Encode_of_utf8 ht]
    split
    · rename_i hb
      obtain ⟨rest, rfl⟩ := List.isPrefixOf_iff_prefix.mp hb
      rfl
    · rfl
  have hb : (decode bytes readOnly).bom = byteOrderMark.isPrefixOf bytes := by
    simp only [decode, htk]
  have hlos : utf8Lossy (if byteOrderMark.isPrefixOf bytes then bytes.drop 3 else bytes) = t := utf8Lossy_of_utf8 ht
  have he : lineEndings bytes = endings '\r' '\n' false t := by
    rw [hbody]
    split
    · rw [lineEndings_byteOrderMark, lineEndings, lineEndings_utf8Encode]
    · rw [List.nil_append, lineEndings, lineEndings_utf8Encode]
  refine ⟨t, h, ?_, ?_, ?_, ?_, hl, he⟩
  · simp only [decode, htk]
  · rw [hb]
    exact hbody
  · simp only [decode, htk, hlos]
  · have hne : '\r' ≠ '\n' := by decide
    simp only [decode, htk, hlos, Bool.and_eq_true, decide_eq_true_eq]
    rw [he, mem_replaceCrlf_nil hne, true_mem_endings hne]
    simp

section
variable {snapshot : TextSnapshot} {bytes : Bytes} {t text : Text} {result : Bytes}

/-- The text as it is written. -/
def TextSnapshot.written (snapshot : TextSnapshot) (text : Text) : Text := if snapshot.crlf then widen '\r' '\n' text else text

theorem encode_eq_ok (hw : snapshot.readOnly = false) : snapshot.encode text = .ok result ↔
    result = (if snapshot.bom then byteOrderMark else []) ++ utf8Encode (snapshot.written text) ∧ result.length ≤ maxBytes := by
  rw [encode, hw, if_neg Bool.false_ne_true]
  generalize hbs : (if snapshot.bom then byteOrderMark else []) ++ utf8Encode (snapshot.written text) = written
  show (if maxBytes < ((if snapshot.bom then byteOrderMark else []) ++ utf8Encode (snapshot.written text)).length then _
    else Except.ok ((if snapshot.bom then byteOrderMark else []) ++ utf8Encode (snapshot.written text))) = _ ↔ _
  rw [hbs]
  by_cases hlg : maxBytes < written.length
  · rw [if_pos hlg]
    refine iff_of_false nofun ?_
    rintro ⟨rfl, hle⟩
    exact absurd hlg (not_lt.mpr hle)
  · rw [if_neg hlg, Except.ok.injEq]
    constructor
    · rintro rfl
      exact ⟨rfl, not_lt.mp hlg⟩
    · exact fun h => h.1.symm

theorem drop_byteOrderMark (bom : Bool) (bytes : Bytes) : ((if bom then byteOrderMark else []) ++ bytes).drop
    (if bom then 3 else 0) = bytes := by
  cases bom <;> rfl

/-- The lines of what is written are those of the text. -/
theorem fileLines_encode (hw : snapshot.readOnly = false) (h : snapshot.encode text = .ok result) :
    snapshot.fileLines result = (splitInclusive '\n' text).map fun line => utf8Encode (snapshot.written line) := by
  obtain ⟨rfl, -⟩ := (encode_eq_ok hw).mp h
  rw [fileLines, drop_byteOrderMark, splitInclusive_utf8Encode]
  by_cases hcrlf : snapshot.crlf = true
  · simp only [TextSnapshot.written, if_pos hcrlf]
    rw [splitInclusive_widen, List.map_map]
    rfl
  · simp only [TextSnapshot.written, if_neg hcrlf]

theorem fileLines_bytes (h : Decoded snapshot bytes t) : snapshot.fileLines snapshot.bytes = (splitInclusive '\n' t).map utf8Encode := by
  rw [fileLines, h.bytes_eq, h.body_eq, drop_byteOrderMark, splitInclusive_utf8Encode]

theorem cr_ne_lf : '\r' ≠ '\n' := by decide

section
variable (h : Decoded snapshot bytes t)
include h

/-- Endings that are all alike are written as they were. -/
theorem written_text (hm : ¬ Mixed bytes) : snapshot.written snapshot.text = t := by
  rw [TextSnapshot.written, h.text_eq]
  by_cases hcrlf : snapshot.crlf = true
  · rw [if_pos hcrlf]
    exact widen_replaceCrlf cr_ne_lf (h.lineEndings_eq ▸ (h.crlf_iff.mp hcrlf).2)
  rw [if_neg hcrlf]
  refine replaceCrlf_of_not_mem cr_ne_lf fun htrue => ?_
  rw [← h.lineEndings_eq] at htrue
  exact hcrlf (h.crlf_iff.mpr ⟨htrue, fun hf => hm ⟨htrue, hf⟩⟩)

/-- Otherwise they are all written as line feeds. -/
theorem written_text_of_mixed (hm : Mixed bytes) :
    snapshot.written snapshot.text = snapshot.text ∧ snapshot.text.Sublist t ∧ snapshot.text ≠ t := by
  have hcrlf : ¬ snapshot.crlf = true := fun hcrlf => (h.crlf_iff.mp hcrlf).2 hm.2
  rw [TextSnapshot.written, if_neg hcrlf, h.text_eq]
  refine ⟨rfl, replaceCrlf_sublist t, fun heq => ?_⟩
  have hlt := @length_replaceCrlf_lt Char _ '\r' '\n' t (h.lineEndings_eq ▸ hm.1)
  rw [heq] at hlt
  exact Nat.lt_irrefl _ hlt

/-- Endings that are all alike are written back. -/
theorem encode_text (hm : ¬ Mixed bytes) : snapshot.encode snapshot.text = .ok bytes := by
  rw [encode_eq_ok h.writable, written_text h hm]
  exact ⟨h.body_eq, h.length_le⟩

theorem writesBack_iff : snapshot.WritesBack ↔ ¬ Mixed bytes := by
  rw [TextSnapshot.WritesBack, h.bytes_eq]
  constructor
  · intro hbk hm
    obtain ⟨hwr, -, hne⟩ := written_text_of_mixed h hm
    have hsm := ((encode_eq_ok h.writable).mp hbk).1
    rw [hwr] at hsm
    exact hne (utf8Encode_inj (List.append_cancel_left (hsm.symm.trans h.body_eq)))
  · exact encode_text h

theorem keepsLines_iff : snapshot.KeepsLines ↔ ¬ Mixed bytes := by
  constructor
  · intro hkp hm
    obtain ⟨hwr, hs, hne⟩ := written_text_of_mixed h hm
    -- the edit that changes nothing
    have he : snapshot.encode snapshot.text = .ok ((if snapshot.bom then byteOrderMark else []) ++ utf8Encode snapshot.text) := by
      refine (encode_eq_ok h.writable).mpr ⟨by rw [hwr], le_trans ?_ h.length_le⟩
      rw [h.body_eq, List.length_append, List.length_append, length_utf8Encode, length_utf8Encode]
      exact Nat.add_le_add_left (Text.byteLen_le_of_sublist hs) _
    have hls := fileLines_encode h.writable he
    have hbs := fileLines_bytes h
    have hlen : (splitInclusive '\n' snapshot.text).length = (splitInclusive '\n' t).length := by
      rw [h.text_eq]
      exact length_splitInclusive_replaceCrlf cr_ne_lf t
    have heq : snapshot.fileLines ((if snapshot.bom then byteOrderMark else []) ++ utf8Encode snapshot.text) =
      snapshot.fileLines snapshot.bytes := by
      refine List.ext_getElem? fun i => ?_
      cases hl : (splitInclusive '\n' snapshot.text)[i]? with
      | some line => exact hkp _ _ he i i line hl hl
      | none =>
        rw [hls, hbs, List.getElem?_map, hl, List.getElem?_map, List.getElem?_eq_none (hlen ▸ List.getElem?_eq_none_iff.mp hl)]
        rfl
    have hflat := congrArg List.flatten heq
    rw [fileLines, fileLines, flatten_splitInclusive, flatten_splitInclusive, drop_byteOrderMark, h.bytes_eq, h.body_eq,
      drop_byteOrderMark] at hflat
    exact hne (utf8Encode_inj hflat)
  · intro hm text result he i j line hi hj
    have hbk := fileLines_encode h.writable (encode_text h hm)
    rw [fileLines_encode h.writable he, h.bytes_eq, hbk, List.getElem?_map, List.getElem?_map, hi, hj]

end

end

/-- **What is read from a file that may be written is written back unchanged, and lines that are not edited keep their bytes, exactly if the
line endings of the file are all alike.** -/
theorem roundTrip_iff (bytes : Bytes) (readOnly : Bool) (h : (decode bytes readOnly).readOnly = false) :
    (decode bytes readOnly).bytes = bytes ∧
      ((decode bytes readOnly).WritesBack ∧ (decode bytes readOnly).KeepsLines ↔ ¬ Mixed bytes) := by
  obtain ⟨t, ht⟩ := decode_spec h
  refine ⟨ht.bytes_eq, ?_⟩
  rw [writesBack_iff ht, keepsLines_iff ht, and_self]

/-- A file with carriage returns. -/
theorem roundTrip_crlf : (decode [97, 13, 10, 98] false).WritesBack ∧ (decode [97, 13, 10, 98] false).KeepsLines := by
  refine (roundTrip_iff [97, 13, 10, 98] false (by decide)).2.mpr ?_
  rintro ⟨-, hf⟩
  exact absurd hf (by decide)

/-- **A file with a line that ends with a carriage return and one that does not.** -/
theorem roundTrip_mixed : (decode [97, 13, 10, 98, 10] false).readOnly = false ∧
    (decode [97, 13, 10, 98, 10] false).encode (decode [97, 13, 10, 98, 10] false).text = .ok [97, 10, 98, 10] ∧
    ¬ (decode [97, 13, 10, 98, 10] false).WritesBack := by
  have henc : (decode [97, 13, 10, 98, 10] false).encode (decode [97, 13, 10, 98, 10] false).text =
      .ok [97, 10, 98, 10] := by decide
  refine ⟨by decide, henc, fun hbk => ?_⟩
  have hsm := henc.symm.trans hbk
  exact absurd (Except.ok.inj hsm) (by decide)

end Pebrel.Documents
