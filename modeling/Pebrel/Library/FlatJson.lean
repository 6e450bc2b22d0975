import Mathlib.Tactic.Ring
import Pebrel.Library.Text

/-!
# Flat JSON

Objects whose members are strings, numbers and truth values, and lists of such
objects, in the compact form of JSON: no white space, and in a string an escape
for each quote, backslash and control character.

`readObject_write` and `readObjects_write` are the round trips. A text that is
written has no control characters (`ge_of_mem_writeObjects`), and in a string that
has none, escapes at most double what is written (`byteLen_escape_le`).
-/

namespace Pebrel.Library.FlatJson

open List Option Nat Char

open Text (byteLen)

inductive Scalar where
  | bool (b : Bool)
  | number (n : UInt64)
  | string (t : Text)

/-- The members of an object, in the order in which they stand. -/
abbrev Members := List (Text × Scalar)

/-! ### Writing -/

/-- A character of a string. -/
def escapeChar (c : Char) : Text :=
  if c = '\x22' then ['\x5c', '\x22']
  else if c = '\x5c' then ['\x5c', '\x5c']
  else if c = '\x08' then ['\x5c', 'b']
  else if c = '\x0c' then ['\x5c', 'f']
  else if c = '\n' then ['\x5c', 'n']
  else if c = '\r' then ['\x5c', 'r']
  else if c = '\t' then ['\x5c', 't']
  else if c.toNat < 32 then ['\x5c', 'u', '0', '0', (c.toNat / 16).digitChar, (c.toNat % 16).digitChar]
  else [c]

def escape (t : Text) : Text := t.flatMap escapeChar

def writeString (t : Text) : Text := '\x22' :: escape t ++ ['\x22']

def writeScalar : Scalar → Text
  | .bool true => ['t', 'r', 'u', 'e']
  | .bool false => ['f', 'a', 'l', 's', 'e']
  | .number n => Nat.toDigits 10 n.toNat
  | .string t => writeString t

def writeMember (m : Text × Scalar) : Text := writeString m.1 ++ ':' :: writeScalar m.2

/-- Pieces with commas between them. -/
def separated (pieces : List Text) : Text := pieces.intersperse [','] |>.flatten

def writeObject (members : Members) : Text := '\x7b' :: separated (members.map writeMember) ++ ['\x7d']

def writeObjects (objects : List Members) : Text := '[' :: separated (objects.map writeObject) ++ [']']

/-! ### What is written -/

variable {c : Char} {t rest : Text} {pieces : List Text}

theorem escapeChar_of_plain (h1 : c ≠ '\x22') (h2 : c ≠ '\x5c') (h3 : 32 ≤ c.toNat) : escapeChar c = [c] := by
  have hne : ∀ d : Char, d.toNat < 32 → c ≠ d := by
    rintro d hd rfl
    omega
  rw [escapeChar, if_neg h1, if_neg h2, if_neg (hne _ (by decide)), if_neg (hne _ (by decide)), if_neg (hne _ (by decide)),
    if_neg (hne _ (by decide)), if_neg (hne _ (by decide)), if_neg (by omega)]

/-- A text without quotes, backslashes and control characters is written as it is. -/
theorem escape_of_plain (h : ∀ c ∈ t, c ≠ '\x22' ∧ c ≠ '\x5c' ∧ 32 ≤ c.toNat) : escape t = t := by
  induction t with
  | nil => rfl
  | cons c t ih =>
    obtain ⟨h1, h2, h3⟩ := h c (by simp)
    rw [escape, flatMap_cons, ← escape, ih fun d hd => h d (by simp [hd]), escapeChar_of_plain h1 h2 h3]
    rfl

theorem byteLen_escapeChar_le (h : 32 ≤ c.toNat) : byteLen (escapeChar c) ≤ 2 * c.utf8Size := by
  by_cases h1 : c = '\x22'
  · subst h1
    decide
  by_cases h2 : c = '\x5c'
  · subst h2
    decide
  rw [escapeChar_of_plain h1 h2 h]
  simp only [byteLen, map_cons, map_nil, sum_cons, sum_nil]
  omega

/-- **Escapes at most double** a text without control characters. -/
theorem byteLen_escape_le (h : ∀ c ∈ t, 32 ≤ c.toNat) : byteLen (escape t) ≤ 2 * byteLen t := by
  induction t with
  | nil => simp [escape, byteLen]
  | cons c t ih =>
    have hc := byteLen_escapeChar_le (h c (by simp))
    have ht := ih fun d hd => h d (by simp [hd])
    rw [escape, flatMap_cons, ← escape, Text.byteLen_append, Text.byteLen_cons]
    omega

/-- The character that a letter after a backslash stands for. -/
def unescape (e : Char) : Option Char :=
  if e = '\x22' then some '\x22'
  else if e = '\x5c' then some '\x5c'
  else if e = 'b' then some '\x08'
  else if e = 'f' then some '\x0c'
  else if e = 'n' then some '\n'
  else if e = 'r' then some '\r'
  else if e = 't' then some '\t'
  else none

/-- A character stands as it is, or as a letter after a backslash, or as its number. -/
theorem escapeChar_cases (c : Char) : (escapeChar c = [c] ∧ c ≠ '\x22' ∧ c ≠ '\x5c' ∧ 32 ≤ c.toNat) ∨
    (∃ e, escapeChar c = ['\x5c', e] ∧ unescape e = some c ∧ e ≠ 'u' ∧ 32 ≤ e.toNat) ∨
    (escapeChar c = ['\x5c', 'u', '0', '0', (c.toNat / 16).digitChar, (c.toNat % 16).digitChar] ∧ c.toNat < 32) := by
  simp only [escapeChar]
  split
  next h => exact .inr (.inl ⟨_, rfl, by rw [h]; decide, by decide, by decide⟩)
  next h1 =>
  split
  next h => exact .inr (.inl ⟨_, rfl, by rw [h]; decide, by decide, by decide⟩)
  next h2 =>
  split
  next h => exact .inr (.inl ⟨_, rfl, by rw [h]; decide, by decide, by decide⟩)
  split
  next h => exact .inr (.inl ⟨_, rfl, by rw [h]; decide, by decide, by decide⟩)
  split
  next h => exact .inr (.inl ⟨_, rfl, by rw [h]; decide, by decide, by decide⟩)
  split
  next h => exact .inr (.inl ⟨_, rfl, by rw [h]; decide, by decide, by decide⟩)
  split
  next h => exact .inr (.inl ⟨_, rfl, by rw [h]; decide, by decide, by decide⟩)
  split
  next h => exact .inr (.inr ⟨rfl, h⟩)
  next h => exact .inl ⟨rfl, h1, h2, by omega⟩

theorem ge_of_mem_escapeChar {d : Char} (h : d ∈ escapeChar c) : 32 ≤ d.toNat := by
  have hd : ∀ n < 16, 32 ≤ n.digitChar.toNat := by decide
  rcases escapeChar_cases c with ⟨heq, -, -, hc⟩ | ⟨e, heq, -, -, he⟩ | ⟨heq, hc⟩ <;> rw [heq] at h <;>
    simp only [mem_cons, not_mem_nil, or_false] at h
  · rw [h]
    exact hc
  · rcases h with h | h <;> rw [h]
    · decide
    · exact he
  · rcases h with h | h | h | h | h | h <;> rw [h]
    · decide
    · decide
    · decide
    · decide
    · exact hd _ (by omega)
    · exact hd _ (by omega)

theorem ge_of_mem_writeString (h : c ∈ writeString t) : 32 ≤ c.toNat := by
  simp only [writeString, escape, cons_append, mem_cons, mem_append, mem_flatMap, not_mem_nil, or_false] at h
  rcases h with rfl | ⟨d, -, h⟩ | rfl
  · decide
  · exact ge_of_mem_escapeChar h
  · decide

theorem ge_of_mem_separated (hp : ∀ p ∈ pieces, ∀ d ∈ p, 32 ≤ d.toNat) (h : c ∈ separated pieces) : 32 ≤ c.toNat := by
  rw [separated, mem_flatten] at h
  obtain ⟨p, hm, hc⟩ := h
  induction pieces with
  | nil => cases hm
  | cons q pieces ih =>
    cases pieces with
    | nil => exact hp p (by simpa using hm) c hc
    | cons q' pieces =>
      simp only [intersperse_cons_cons, mem_cons] at hm
      rcases hm with rfl | rfl | hm
      · exact hp p (by simp) c hc
      · rw [mem_singleton] at hc
        rw [hc]
        decide
      · exact ih (fun x hx => hp x (by simp [hx])) hm

theorem ge_of_mem_writeScalar {s : Scalar} (h : c ∈ writeScalar s) : 32 ≤ c.toNat := by
  cases s with
  | bool b =>
    cases b <;> simp only [writeScalar, mem_cons, not_mem_nil, or_false] at h
    · rcases h with rfl | rfl | rfl | rfl | rfl <;> decide
    · rcases h with rfl | rfl | rfl | rfl <;> decide
  | number n =>
    have hd := isDigit_of_mem_toDigits (by decide) (by decide) h
    rw [isDigit_iff_toNat] at hd
    have h0 : '0'.toNat = 48 := rfl
    omega
  | string t => exact ge_of_mem_writeString h

theorem ge_of_mem_writeObject {m : Members} (h : c ∈ writeObject m) : 32 ≤ c.toNat := by
  simp only [writeObject, cons_append, mem_cons, mem_append, not_mem_nil, or_false] at h
  rcases h with rfl | h | rfl
  · decide
  · refine ge_of_mem_separated (fun p hp d hd => ?_) h
    obtain ⟨member, -, rfl⟩ := List.mem_map.mp hp
    simp only [writeMember, mem_append, mem_cons] at hd
    rcases hd with hd | rfl | hd
    · exact ge_of_mem_writeString hd
    · decide
    · exact ge_of_mem_writeScalar hd
  · decide

/-- What is written has no control characters. -/
theorem ge_of_mem_writeObjects {objects : List Members} (h : c ∈ writeObjects objects) : 32 ≤ c.toNat := by
  simp only [writeObjects, cons_append, mem_cons, mem_append, not_mem_nil, or_false] at h
  rcases h with rfl | h | rfl
  · decide
  · refine ge_of_mem_separated (fun p hp d hd => ?_) h
    obtain ⟨m, -, rfl⟩ := List.mem_map.mp hp
    exact ge_of_mem_writeObject hd
  · decide

/-! ### Lengths -/

/-- Pieces take their own bytes and a comma for each but the first. -/
theorem byteLen_separated_le {n : ℕ} (h : ∀ p ∈ pieces, byteLen p ≤ n) : byteLen (separated pieces) ≤ pieces.length * (n + 1) := by
  induction pieces with
  | nil => simp [separated, byteLen]
  | cons p pieces ih =>
    have hp := h p (by simp)
    have hr := ih fun q hq => h q (by simp [hq])
    cases pieces with
    | nil =>
      simp only [separated, intersperse_singleton, flatten_cons, flatten_nil, append_nil, length_singleton]
      omega
    | cons q pieces =>
      rw [separated, intersperse_cons_cons, flatten_cons, flatten_cons, ← separated, Text.byteLen_append,
        Text.byteLen_append, length_cons, succ_mul, show byteLen [','] = 1 by decide]
      omega

theorem byteLen_writeString (t : Text) : byteLen (writeString t) = byteLen (escape t) + 2 := by
  rw [writeString, cons_append, Text.byteLen_cons, Text.byteLen_append]
  have h : byteLen ['\x22'] = 1 := by decide
  have h' : '\x22'.utf8Size = 1 := by decide
  omega

/-! ### Reading -/

/-- The value of a hexadecimal digit. -/
def hexValue (c : Char) : Option ℕ := (List.range 16).find? fun n => n.digitChar == c.toLower

/-- Four hexadecimal digits, as the number they write. -/
def readHex (t : Text) : Option (Char × Text) :=
  match t with
  | a :: b :: c :: d :: rest =>
    match hexValue a, hexValue b, hexValue c, hexValue d with
    | some a, some b, some c, some d => some (.ofNat (((a * 16 + b) * 16 + c) * 16 + d), rest)
    | _, _, _, _ => none
  | _ => none

/-- One character of a string; a pair of surrogates is not read. -/
def readChar : Text → Option (Char × Text)
  | [] => none
  | c :: t =>
    if c = '\x5c' then
      match t with
      | [] => none
      | e :: rest => if e = 'u' then readHex rest else (unescape e).map fun c => (c, rest)
    else if c = '\x22' ∨ c.toNat < 32 then none
    else some (c, t)

/-- The rest of a string, after its first quote. -/
def readBody : ℕ → Text → Option (Text × Text)
  | 0, _ => none
  | n + 1, t =>
    if t.head? = some '\x22' then some ([], t.tail)
    else (readChar t).bind fun (c, rest) => (readBody n rest).map fun (s, rest) => (c :: s, rest)

/-- What comes after a given text. -/
def strip : Text → Text → Option Text
  | [], t => some t
  | _ :: _, [] => none
  | c :: p, d :: t => if c = d then strip p t else none

def readString (t : Text) : Option (Text × Text) := (strip ['\x22'] t).bind fun rest => readBody (rest.length + 1) rest

def readNumber (t : Text) : Option (Scalar × Text) :=
  let n := Nat.ofDigitChars 10 (t.takeWhile Char.isDigit) 0
  if t.takeWhile Char.isDigit = [] ∨ 2 ^ 64 ≤ n then none else some (.number (UInt64.ofNat n), t.dropWhile Char.isDigit)

def readScalar (t : Text) : Option (Scalar × Text) :=
  match readString t with
  | some (s, rest) => some (.string s, rest)
  | none =>
    match strip ['t', 'r', 'u', 'e'] t with
    | some rest => some (.bool true, rest)
    | none =>
      match strip ['f', 'a', 'l', 's', 'e'] t with
      | some rest => some (.bool false, rest)
      | none => readNumber t

/-- Items with commas between them, up to a closing character. -/
def readItems {α : Type} (item : Text → Option (α × Text)) (close : Char) : ℕ → Text → Option (List α × Text)
  | 0, _ => none
  | n + 1, t =>
    match item t with
    | none => none
    | some (x, rest) =>
      match rest with
      | [] => none
      | c :: rest =>
        if c = close then some ([x], rest)
        else if c = ',' then (readItems item close n rest).map fun (xs, rest) => (x :: xs, rest)
        else none

/-- A list of items between two characters. -/
def readList {α : Type} (item : Text → Option (α × Text)) (first close : Char) (t : Text) : Option (List α × Text) :=
  match strip [first] t with
  | none => none
  | some rest => if rest.head? = some close then some ([], rest.tail) else readItems item close (rest.length + 1) rest

def readMember (t : Text) : Option ((Text × Scalar) × Text) :=
  match readString t with
  | none => none
  | some (key, rest) =>
    match strip [':'] rest with
    | none => none
    | some rest => (readScalar rest).map fun (s, rest) => ((key, s), rest)

def readMembers (t : Text) : Option (Members × Text) := readList readMember '\x7b' '\x7d' t

/-- A text that is one thing and nothing more. -/
def whole {α : Type} : Option (α × Text) → Option α
  | some (x, []) => some x
  | _ => none

def readObject (t : Text) : Option Members := whole (readMembers t)

def readObjects (t : Text) : Option (List Members) := whole (readList readMembers '[' ']' t)

/-! ### Round trips -/

theorem strip_append (p t : Text) : strip p (p ++ t) = some t := by
  induction p with
  | nil => rfl
  | cons c p ih => rw [cons_append, strip, if_pos rfl, ih]

theorem readChar_escapeChar (c : Char) (rest : Text) : readChar (escapeChar c ++ rest) = some (c, rest) := by
  have hh : ∀ n < 16, hexValue n.digitChar = some n := by decide
  rcases escapeChar_cases c with ⟨heq, h1, h2, hc⟩ | ⟨e, heq, hu, he, -⟩ | ⟨heq, hc⟩ <;> rw [heq]
  · have hpl : ¬ (c = '\x22' ∨ c.toNat < 32) := not_or.mpr ⟨h1, by omega⟩
    simp only [singleton_append, readChar, if_neg h2, if_neg hpl]
  · simp only [cons_append, nil_append, readChar, if_true, if_neg he, hu, map_some]
  · have hv : ((0 * 16 + 0) * 16 + c.toNat / 16) * 16 + c.toNat % 16 = c.toNat := by omega
    have h0 : hexValue '0' = some 0 := hh 0 (by decide)
    simp only [cons_append, nil_append, readChar, if_true, readHex, h0, hh (c.toNat / 16) (by omega),
      hh (c.toNat % 16) (by omega), hv, ofNat_toNat]

theorem head_escapeChar (c : Char) (rest : Text) : (escapeChar c ++ rest).head? ≠ some '\x22' := by
  rcases escapeChar_cases c with ⟨heq, h1, -, -⟩ | ⟨e, heq, -, -, -⟩ | ⟨heq, -⟩ <;> rw [heq]
  · simpa using h1
  · simp
  · simp

theorem readBody_escape {n : ℕ} (h : t.length < n) (rest : Text) : readBody n (escape t ++ '\x22' :: rest) = some (t, rest) := by
  induction t generalizing n with
  | nil =>
    obtain ⟨n, rfl⟩ := Nat.exists_eq_add_of_lt h
    simp [escape, readBody]
  | cons c t ih =>
    cases n with
    | zero => cases h
    | succ n =>
      rw [escape, flatMap_cons, ← escape, append_assoc, readBody, if_neg (head_escapeChar c _), readChar_escapeChar, bind_some]
      simp only [ih (lt_of_succ_lt_succ h), map_some]

theorem length_le_escape (t : Text) : t.length ≤ (escape t).length := by
  induction t with
  | nil => exact le_rfl
  | cons c t ih =>
    have hp : 0 < (escapeChar c).length := by
      rcases escapeChar_cases c with ⟨heq, -⟩ | ⟨e, heq, -⟩ | ⟨heq, -⟩ <;> rw [heq] <;> simp
    rw [escape, flatMap_cons, ← escape, length_append, length_cons]
    omega

theorem readString_write (t rest : Text) : readString (writeString t ++ rest) = some (t, rest) := by
  have hs : strip ['\x22'] (writeString t ++ rest) = some (escape t ++ '\x22' :: rest) := by
    simp [writeString, strip]
  rw [readString, hs, bind_some]
  refine readBody_escape ?_ rest
  have := length_le_escape t
  simp only [length_append, length_cons]
  omega

/-- What comes after a scalar is no digit. -/
def NoDigit (rest : Text) : Prop := ∀ c ∈ rest.head?, c.isDigit = false

theorem readNumber_write (n : UInt64) (hr : NoDigit rest) : readNumber (Nat.toDigits 10 n.toNat ++ rest) = some (.number n, rest) := by
  have hds : ∀ c ∈ toDigits 10 n.toNat, c.isDigit = true := fun c hc =>
    isDigit_of_mem_toDigits (by decide) (by decide) hc
  have htk : rest.takeWhile isDigit = [] ∧ rest.dropWhile isDigit = rest := by
    cases rest with
    | nil => exact ⟨rfl, rfl⟩
    | cons c rest =>
      have hc := hr c rfl
      simp [hc]
  have hv : ofDigitChars 10 (toDigits 10 n.toNat) 0 = n.toNat := ofDigitChars_ten_toDigits
  have hlt := n.toNat_lt
  rw [readNumber, takeWhile_append_of_pos hds, dropWhile_append_of_pos hds, htk.1, htk.2, append_nil, hv]
  have hne : ¬ (toDigits 10 n.toNat = [] ∨ 2 ^ 64 ≤ n.toNat) := not_or.mpr ⟨toDigits_ne_nil, by omega⟩
  simp only [if_neg hne, UInt64.ofNat_toNat]

theorem readScalar_write (s : Scalar) (hr : NoDigit rest) : readScalar (writeScalar s ++ rest) = some (s, rest) := by
  cases s with
  | bool b => cases b <;> simp [readScalar, writeScalar, readString, strip]
  | string t => rw [readScalar, writeScalar, readString_write]
  | number n =>
    obtain ⟨c, ds, hds⟩ : ∃ c ds, toDigits 10 n.toNat = c :: ds := exists_cons_of_ne_nil toDigits_ne_nil
    have hm : c ∈ toDigits 10 n.toNat := by simp [hds]
    have hc : c.isDigit = true := isDigit_of_mem_toDigits (by decide) (by decide) hm
    have hne : ∀ d : Char, d.isDigit = false → d ≠ c := by
      rintro d hd rfl
      rw [hc] at hd
      cases hd
    have hs : readString (writeScalar (.number n) ++ rest) = none := by
      simp [writeScalar, hds, readString, strip, hne '\x22' (by decide)]
    have htrue : strip ['t', 'r', 'u', 'e'] (writeScalar (.number n) ++ rest) = none := by
      simp [writeScalar, hds, strip, hne 't' (by decide)]
    have hf : strip ['f', 'a', 'l', 's', 'e'] (writeScalar (.number n) ++ rest) = none := by
      simp [writeScalar, hds, strip, hne 'f' (by decide)]
    rw [readScalar, hs, htrue, hf]
    exact readNumber_write n hr

section
variable {α : Type} (item : Text → Option (α × Text)) (write : α → Text) {close : Char}

/-- Items that are each read back where a comma or the closing character comes after them. -/
theorem readItems_write (hc : ',' ≠ close) (hi : ∀ x rest, rest.head? = some ',' ∨ rest.head? = some close →
    item (write x ++ rest) = some (x, rest)) {xs : List α} (hne : xs ≠ []) {n : ℕ} (hn : xs.length ≤ n) (rest : Text) :
    readItems item close n (separated (xs.map write) ++ close :: rest) = some (xs, rest) := by
  induction xs generalizing n with
  | nil => exact absurd rfl hne
  | cons x xs ih =>
    cases n with
    | zero => simp at hn
    | succ n =>
      cases xs with
      | nil =>
        have ho : separated ([x].map write) ++ close :: rest = write x ++ close :: rest := by simp [separated]
        rw [ho, readItems, hi x _ (.inr rfl)]
        simp
      | cons y ys =>
        have ht : separated ((x :: y :: ys).map write) ++ close :: rest =
            write x ++ ',' :: (separated ((y :: ys).map write) ++ close :: rest) := by simp [separated]
        rw [ht, readItems, hi x _ (.inl rfl)]
        simp only [if_neg hc, if_true]
        rw [ih (by simp) (by simpa using hn)]
        rfl

theorem length_separated_ge (hwr : ∀ x, write x ≠ []) (xs : List α) : xs.length ≤ (separated (xs.map write)).length := by
  induction xs with
  | nil => exact Nat.zero_le _
  | cons x xs ih =>
    have hx := length_pos_of_ne_nil (hwr x)
    cases xs with
    | nil =>
      simp only [separated, map_cons, map_nil, intersperse_singleton, flatten_cons, flatten_nil, append_nil, length_singleton]
      omega
    | cons y ys =>
      simp only [separated, map_cons, intersperse_cons_cons, flatten_cons, length_append, length_cons, length_nil] at ih ⊢
      omega

theorem readList_write (first : Char) (hcom : ',' ≠ close) (hi : ∀ x rest, rest.head? = some ',' ∨ rest.head? = some close →
    item (write x ++ rest) = some (x, rest)) (hwr : ∀ x, ∃ c t, write x = c :: t ∧ c ≠ close) (xs : List α) (rest : Text) :
    readList item first close (first :: separated (xs.map write) ++ close :: rest) = some (xs, rest) := by
  have hne : ∀ x, write x ≠ [] := by
    intro x h
    obtain ⟨c, t, hx, -⟩ := hwr x
    rw [h] at hx
    cases hx
  have hl := length_separated_ge write hne xs
  have hs : strip [first] (first :: (separated (xs.map write) ++ close :: rest)) = some (separated (xs.map write) ++ close :: rest) :=
    strip_append [first] _
  rw [readList, cons_append, hs]
  cases xs with
  | nil => simp [separated]
  | cons x xs =>
    have hhd : (separated ((x :: xs).map write) ++ close :: rest).head? ≠ some close := by
      obtain ⟨c, t, hx, hc⟩ := hwr x
      cases xs <;> simp [separated, hx, hc]
    simp only [if_neg hhd]
    refine readItems_write item write hcom hi (by simp) ?_ rest
    rw [length_append]
    omega

end

theorem readMember_write (m : Text × Scalar) (hr : NoDigit rest) : readMember (writeMember m ++ rest) = some (m, rest) := by
  have hs : strip [':'] (':' :: (writeScalar m.2 ++ rest)) = some (writeScalar m.2 ++ rest) := strip_append [':'] _
  rw [readMember, writeMember, append_assoc, readString_write, cons_append]
  simp only [hs, readScalar_write m.2 hr, map_some]

theorem writeString_head (t : Text) : ∃ u, writeString t = '\x22' :: u := ⟨_, rfl⟩

theorem readMembers_write (m : Members) (rest : Text) : readMembers (writeObject m ++ rest) = some (m, rest) := by
  have h := readList_write readMember writeMember '\x7b' (show ',' ≠ '\x7d' by decide) ?_ ?_ m rest
  · rw [readMembers, writeObject, append_assoc, singleton_append]
    exact h
  · intro x rest hr
    refine readMember_write x fun c hc => ?_
    rcases hr with hr | hr <;> rw [hr, mem_some_iff] at hc <;> rw [← hc] <;> decide
  · intro x
    obtain ⟨u, hu⟩ := writeString_head x.1
    exact ⟨'\x22', u ++ ':' :: writeScalar x.2, by rw [writeMember, hu, cons_append], by decide⟩

/-- **The round trip** of an object. -/
theorem readObject_write (m : Members) : readObject (writeObject m) = some m := by
  have h := readMembers_write m []
  rw [append_nil] at h
  rw [readObject, h, whole]

/-- **The round trip** of a list of objects. -/
theorem readObjects_write (objects : List Members) : readObjects (writeObjects objects) = some objects := by
  have h := readList_write readMembers writeObject '[' (show ',' ≠ ']' by decide) (fun x rest _ => readMembers_write x rest) ?_ objects []
  · rw [readObjects, writeObjects, h, whole]
  · exact fun x => ⟨'\x7b', separated (x.map writeMember) ++ ['\x7d'], rfl, by decide⟩

end Pebrel.Library.FlatJson
