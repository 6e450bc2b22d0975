import Pebrel.Library.Text

/-!
# Fingerprints of managed files

What the program installs for an agent is recognised by its fingerprint, the digest of the
content in hexadecimal digits. A marker beside the file holds the fingerprint in a line of its
own. The digest function is a parameter.
-/

namespace Pebrel.Hooks

open Library List Nat Option String

abbrev Bytes := List UInt8

/-- `read_to_string`: nothing where the bytes are not UTF-8. -/
def readToString (content : Bytes) : Option Text := (String.fromUTF8? ⟨content.toArray⟩).map String.toList

def asBytes (text : Text) : Bytes := (String.ofList text).toByteArray.data.toList

@[simp] theorem readToString_asBytes (text : Text) : readToString (asBytes text) = some text := by
  have hbs : (⟨(asBytes text).toArray⟩ : ByteArray) = (ofList text).toByteArray := rfl
  rw [readToString, hbs, fromUTF8?, dif_pos (ofList text).isValidUTF8]
  exact congrArg some toList_ofList

/-- Two hexadecimal digits. -/
def hexByte (byte : UInt8) : Text := [Nat.digitChar (byte.toNat / 16), Nat.digitChar (byte.toNat % 16)]

theorem hexByte_inj {a b : UInt8} (h : hexByte a = hexByte b) : a = b := by
  have hd : ∀ m < 16, ∀ n < 16, digitChar m = digitChar n → m = n := by decide
  obtain ⟨hhigh, hl⟩ := cons_eq_cons.mp h
  have ha := a.toNat_lt
  have hb := b.toNat_lt
  have hhigh := hd _ (by omega) _ (by omega) hhigh
  have hl := hd _ (by omega) _ (by omega) (cons_eq_cons.mp hl).1
  exact UInt8.toNat_inj.mp (by omega)

theorem isWhitespace_hexByte {byte : UInt8} {c : Char} (h : c ∈ hexByte byte) : Text.isWhitespace c = false := by
  have hd : ∀ m < 16, Text.isWhitespace (digitChar m) = false := by decide
  have hb := byte.toNat_lt
  simp only [hexByte, mem_cons, not_mem_nil, or_false] at h
  rcases h with rfl | rfl
  · exact hd _ (by omega)
  · exact hd _ (by omega)

theorem flatMap_hexByte_inj {a b : Bytes} (h : a.flatMap hexByte = b.flatMap hexByte) : a = b := by
  induction a generalizing b with
  | nil =>
    cases b with
    | nil => rfl
    | cons y b => exact nomatch h
  | cons x a ih =>
    cases b with
    | nil => exact nomatch h
    | cons y b =>
      rw [flatMap_cons, flatMap_cons] at h
      obtain ⟨hhd, htl⟩ := append_inj h rfl
      rw [hexByte_inj hhd, ih htl]

section
variable (digest : Bytes → Bytes)

def fingerprint (content : Bytes) : Text := (digest content).flatMap hexByte

variable {digest}

theorem fingerprint_inj {a b : Bytes} (h : fingerprint digest a = fingerprint digest b) : digest a = digest b := flatMap_hexByte_inj h

theorem trim_fingerprint (content : Bytes) : .trim (fingerprint digest content) = fingerprint digest content :=
  Text.trim_eq_self fun c hc => by
    obtain ⟨byte, -, hb⟩ := mem_flatMap.mp hc
    exact isWhitespace_hexByte hb

end

/-- The content of a marker. -/
def markerLine (fingerprint : Text) : Bytes := asBytes (fingerprint ++ ['\n'])

/-- What a marker holds, if it is there. -/
def markerValue (marker : Option Bytes) : Option Text := (marker.bind readToString).map .trim

theorem markerValue_markerLine {digest : Bytes → Bytes} (content : Bytes) :
    markerValue (some (markerLine (fingerprint digest content))) = some (fingerprint digest content) := by
  rw [markerValue, markerLine, bind_some, readToString_asBytes, map_some, Text.trim_concat rfl, trim_fingerprint]

/-- No other content has the digest of one of these. -/
def Distinguishes (digest : Bytes → Bytes) (ours : Set Bytes) : Prop := ∀ a, ∀ b ∈ ours, digest a = digest b → a = b

theorem Distinguishes.eq {digest : Bytes → Bytes} {ours : Set Bytes} (h : Distinguishes digest ours) {a b : Bytes} (hb : b ∈ ours)
    (heq : fingerprint digest a = fingerprint digest b) : a = b :=
  h a b hb (fingerprint_inj heq)

end Pebrel.Hooks
