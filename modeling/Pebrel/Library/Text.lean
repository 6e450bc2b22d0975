import Mathlib.Algebra.Order.Ring.Nat
import Mathlib.Data.List.DropRight

/-!
# Text

Texts as lists of characters, with the operations that line-oriented files are
read by: splitting at the first separator, trimming white space, and cutting a
text into its lines. A line ends with a newline or with a carriage return and a
newline; the last one may end with neither.

`lines_unlines` says what becomes of texts that are written one after another,
each with a newline after it: each of them is read back as the lines it has
itself, so one that has a newline inside is read back as more than one line.
-/

namespace Pebrel.Library

open List Option

abbrev Text := List Char

/-- What decides whether a text is in a list. -/
instance Text.lawfulBEq : LawfulBEq Text := List.instLawfulBEq

namespace Text

/-- A test of each character of a text. -/
theorem forall_mem_of_all {p : Char → Prop} [DecidablePred p] {t : Text} (h : (t.all fun c => decide (p c)) = true) : ∀ c ∈ t, p c :=
  fun c hc => of_decide_eq_true (List.all_eq_true.mp h c hc)

/-! ### Splitting -/

section
variable {c x : Char} {s t key value : Text}

/-- Split at the first `c`. -/
def splitOnce (c : Char) : Text → Option (Text × Text)
  | [] => none
  | x :: t => if x = c then some ([], t) else (splitOnce c t).map fun (a, b) => (x :: a, b)

theorem splitOnce_eq_some : splitOnce c t = some (key, value) ↔ t = key ++ c :: value ∧ c ∉ key := by
  induction t generalizing key with
  | nil => simp [splitOnce]
  | cons x t ih =>
    unfold splitOnce
    split
    · rename_i hx
      subst hx
      constructor
      · intro h
        cases h
        exact ⟨rfl, not_mem_nil⟩
      · rintro ⟨ht, hk⟩
        cases key with
        | nil =>
          rw [nil_append] at ht
          rw [(List.cons.inj ht).2]
        | cons y key =>
          rw [cons_append] at ht
          exact absurd (mem_cons.mpr (Or.inl (List.cons.inj ht).1)) hk
    · rename_i hx
      constructor
      · intro h
        obtain ⟨⟨a, b⟩, hab, heq⟩ := map_eq_some_iff.mp h
        cases heq
        obtain ⟨ht, hk⟩ := ih.mp hab
        refine ⟨by rw [ht, cons_append], fun hm => ?_⟩
        rcases mem_cons.mp hm with hc | hm
        · exact hx hc.symm
        · exact hk hm
      · rintro ⟨ht, hk⟩
        cases key with
        | nil =>
          rw [nil_append] at ht
          exact absurd (List.cons.inj ht).1 hx
        | cons y key =>
          rw [cons_append] at ht
          obtain ⟨hxy, ht⟩ := List.cons.inj ht
          rw [ih.mpr ⟨ht, fun h => hk (mem_cons_of_mem y h)⟩, hxy]
          rfl

theorem splitOnce_eq_none : splitOnce c t = none ↔ c ∉ t := by
  induction t with
  | nil => simp [splitOnce]
  | cons x t ih =>
    unfold splitOnce
    rw [mem_cons, not_or]
    split
    · rename_i hx
      exact ⟨fun h => (by cases h), fun h => absurd hx.symm h.1⟩
    · rename_i hx
      rw [map_eq_none_iff, ih]
      exact ⟨fun h => ⟨Ne.symm hx, h⟩, fun h => h.2⟩

theorem splitOnce_append (h : c ∉ key) : splitOnce c (key ++ c :: value) = some (key, value) := splitOnce_eq_some.mpr ⟨rfl, h⟩

/-- Split at the last `c`. -/
def rsplitOnce (c : Char) (t : Text) : Option (Text × Text) := (splitOnce c t.reverse).map fun e => (e.2.reverse, e.1.reverse)

theorem rsplitOnce_eq_some : rsplitOnce c t = some (key, value) ↔ t = key ++ c :: value ∧ c ∉ value := by
  rw [rsplitOnce, map_eq_some_iff]
  constructor
  · rintro ⟨⟨a, b⟩, hsp, heq⟩
    obtain ⟨rfl, rfl⟩ := Prod.mk.inj heq
    obtain ⟨ht, hm⟩ := splitOnce_eq_some.mp hsp
    refine ⟨?_, fun h => hm (mem_reverse.mp h)⟩
    rw [← reverse_reverse t, ht, reverse_append, reverse_cons, append_assoc, singleton_append]
  · rintro ⟨rfl, hm⟩
    refine ⟨(value.reverse, key.reverse), splitOnce_eq_some.mpr ⟨?_, fun h => hm (mem_reverse.mp h)⟩, ?_⟩
    · rw [reverse_append, reverse_cons, append_assoc, singleton_append]
    · rw [reverse_reverse, reverse_reverse]

theorem rsplitOnce_eq_none : rsplitOnce c t = none ↔ c ∉ t := by
  rw [rsplitOnce, map_eq_none_iff, splitOnce_eq_none, mem_reverse]

/-- A text is split at the last `c` in one way. -/
theorem append_cons_inj {key' value' : Text} (h : key ++ c :: value = key' ++ c :: value') (hv : c ∉ value) (hv' : c ∉ value') :
    key = key' ∧ value = value' := by
  have hsp : rsplitOnce c (key ++ c :: value) = some (key, value) := rsplitOnce_eq_some.mpr ⟨rfl, hv⟩
  rw [h, rsplitOnce_eq_some.mpr ⟨rfl, hv'⟩, some.injEq, Prod.mk.injEq] at hsp
  exact ⟨hsp.1.symm, hsp.2.symm⟩

/-- Split at the first place where `sep` stands. -/
def splitOnceText (sep : Text) : Text → Option (Text × Text)
  | [] => if sep = [] then some ([], []) else none
  | x :: t => if sep.isPrefixOf (x :: t) then some ([], (x :: t).drop sep.length) else (splitOnceText sep t).map fun (a, b) => (x :: a, b)

theorem splitOnceText_eq {sep : Text} (h : splitOnceText sep t = some (key, value)) : t = key ++ sep ++ value := by
  induction t generalizing key value with
  | nil =>
    simp only [splitOnceText] at h
    split at h
    · next hs => simp_all
    · cases h
  | cons x t ih =>
    simp only [splitOnceText] at h
    split at h
    · next hs =>
      obtain ⟨u, hu⟩ := isPrefixOf_iff_prefix.1 hs
      simp only [some.injEq, Prod.mk.injEq] at h
      obtain ⟨rfl, rfl⟩ := h
      rw [← hu, nil_append, drop_left]
    · rw [map_eq_some_iff] at h
      obtain ⟨⟨a, b⟩, hab, heq⟩ := h
      simp only [Prod.mk.injEq] at heq
      obtain ⟨rfl, rfl⟩ := heq
      rw [ih hab, cons_append, cons_append]

theorem mem_intercalate {ts : List Text} (h : c ∈ [x].intercalate ts) : c = x ∨ ∃ t ∈ ts, c ∈ t := by
  induction ts with
  | nil => cases h
  | cons t ts ih =>
    cases ts with
    | nil =>
      rw [intercalate_singleton] at h
      exact .inr ⟨t, mem_cons_self, h⟩
    | cons u ts =>
      rw [intercalate_cons_cons] at h
      rcases mem_append.mp h with h | h
      · rcases mem_append.mp h with h | h
        · exact .inr ⟨t, mem_cons_self, h⟩
        · exact .inl (mem_singleton.mp h)
      · rcases ih h with h | ⟨v, hv, h⟩
        · exact .inl h
        · exact .inr ⟨v, mem_cons_of_mem t hv, h⟩

theorem mem_intercalate_of_mem {ts : List Text} {s : Text} (hs : s ∈ ts) (hc : c ∈ s) : c ∈ [x].intercalate ts := by
  induction ts with
  | nil => cases hs
  | cons t ts ih =>
    cases ts with
    | nil =>
      rw [intercalate_singleton, ← mem_singleton.mp hs]
      exact hc
    | cons u ts =>
      rw [intercalate_cons_cons]
      rcases mem_cons.mp hs with rfl | hs
      · exact mem_append_left _ (mem_append_left _ hc)
      · exact mem_append_right _ (ih hs)

/-- The pieces of a split have characters of the text only. -/
theorem mem_of_mem_splitOn {s t : Text} (hs : s ∈ t.splitOn x) (hc : c ∈ s) : c ∈ t := by
  have h := mem_intercalate_of_mem (x := x) hs hc
  rwa [intercalate_splitOn] at h

end

/-- `char::is_ascii_hexdigit`. -/
def isHexDigit (c : Char) : Bool := c.isDigit || ('a' ≤ c && c ≤ 'f') || ('A' ≤ c && c ≤ 'F')

/-! ### Length -/

/-- `str::len`. -/
def byteLen (t : Text) : ℕ := (t.map Char.utf8Size).sum

theorem byteLen_cons (c : Char) (t : Text) : byteLen (c :: t) = c.utf8Size + byteLen t := by
  rw [byteLen, map_cons, sum_cons, ← byteLen]

theorem byteLen_append (s t : Text) : byteLen (s ++ t) = byteLen s + byteLen t := by
  rw [byteLen, map_append, sum_append, ← byteLen, ← byteLen]

theorem length_le_byteLen (t : Text) : t.length ≤ byteLen t := by
  induction t with
  | nil => exact Nat.le_refl 0
  | cons c t ih =>
    rw [byteLen_cons, length_cons]
    have hp := c.utf8Size_pos
    omega

theorem byteLen_le_of_sublist {s t : Text} (h : s.Sublist t) : byteLen s ≤ byteLen t := by
  induction h with
  | slnil => exact Nat.le_refl 0
  | cons c _ ih =>
    rw [byteLen_cons]
    omega
  | cons_cons c _ ih =>
    rw [byteLen_cons, byteLen_cons]
    omega

/-! ### Decimal digits -/

theorem toDigits_inj {n m : ℕ} (h : Nat.toDigits 10 n = Nat.toDigits 10 m) : n = m := by
  rw [← Nat.ofDigitChars_ten_toDigits (n := n), h, Nat.ofDigitChars_ten_toDigits]

theorem not_mem_toDigits {c : Char} (hc : c.isDigit = false) (n : ℕ) : c ∉ Nat.toDigits 10 n :=
  fun h => Bool.eq_false_iff.mp hc (Nat.isDigit_of_mem_toDigits (by decide) (by decide) h)

/-! ### White space -/

/-- The characters with the property `White_Space`. -/
def isWhitespace (c : Char) : Bool :=
  let n := c.toNat
  (9 ≤ n && n ≤ 13) || n == 32 || n == 0x85 || n == 0xA0 || n == 0x1680 || (0x2000 ≤ n && n ≤ 0x200A) || n == 0x2028 ||
    n == 0x2029 || n == 0x202F || n == 0x205F || n == 0x3000

def isControl (c : Char) : Bool := c.toNat < 32 || (127 ≤ c.toNat && c.toNat < 160)

/-- The text without the white space before and after it. -/
def trim (t : Text) : Text := (t.dropWhile isWhitespace).rdropWhile isWhitespace

theorem trim_sublist (t : Text) : (trim t).Sublist t := (List.rdropWhile_prefix _ _).sublist.trans (dropWhile_sublist _)

theorem mem_of_mem_trim {c : Char} {t : Text} (h : c ∈ trim t) : c ∈ t := (trim_sublist t).subset h

/-- What is not white space stays. -/
theorem mem_trim_of_mem {c : Char} {t : Text} (h : c ∈ t) (hc : isWhitespace c = false) : c ∈ trim t := by
  have hdr : c ∈ t.dropWhile isWhitespace := by
    rw [← takeWhile_append_dropWhile (p := isWhitespace) (l := t)] at h
    rcases mem_append.mp h with htk | hdr
    · rw [mem_takeWhile_imp htk] at hc
      cases hc
    · exact hdr
  unfold trim
  rw [← rdropWhile_append_rtakeWhile (p := isWhitespace) (l := t.dropWhile isWhitespace)] at hdr
  rcases mem_append.mp hdr with hm | htk
  · exact hm
  · rw [mem_rtakeWhile_imp htk] at hc
    cases hc

theorem trim_trim (t : Text) : trim (trim t) = trim t := by
  have hdr : (trim t).dropWhile isWhitespace = trim t := by
    rw [dropWhile_eq_self_iff]
    intro hl hhd
    have hst : trim t <+: t.dropWhile isWhitespace := rdropWhile_prefix _ _
    have hne : t.dropWhile isWhitespace ≠ [] := fun h => by
      rw [h, prefix_nil] at hst
      rw [hst] at hl
      exact absurd hl (lt_irrefl 0)
    have hsm := hst.getElem hl
    have hn := dropWhile_get_zero_not isWhitespace t (length_pos_iff.mpr hne)
    rw [get_eq_getElem] at hn
    exact hn (hsm ▸ hhd)
  unfold trim at hdr ⊢
  rw [hdr]
  exact rdropWhile_idempotent _ _

theorem trim_eq_self {t : Text} (h : ∀ c ∈ t, isWhitespace c = false) : trim t = t := by
  have hdr : t.dropWhile isWhitespace = t := dropWhile_eq_self_iff.mpr fun hl => Bool.eq_false_iff.mp (h _ (getElem_mem hl))
  rw [trim, hdr]
  exact rdropWhile_eq_self_iff.mpr fun hne => Bool.eq_false_iff.mp (h _ (getLast_mem hne))

/-- White space at the end makes no difference. -/
theorem trim_concat {t : Text} {c : Char} (hc : isWhitespace c = true) : trim (t ++ [c]) = trim t := by
  unfold trim
  rw [dropWhile_append]
  split
  · rename_i he
    rw [List.isEmpty_iff.mp he, dropWhile_cons_of_pos hc, dropWhile_nil]
  · exact rdropWhile_concat_pos _ _ _ hc

/-- A trimmed text does not end with white space. -/
theorem isWhitespace_of_getLast? {t : Text} {c : Char} (ht : trim t = t) (hc : t.getLast? = some c) : isWhitespace c = false := by
  cases hs : isWhitespace c with
  | false => rfl
  | true =>
    obtain ⟨start, rfl⟩ := getLast?_eq_some_iff.mp hc
    rw [trim_concat hs] at ht
    have hl := (trim_sublist start).length_le
    rw [ht, length_append, length_singleton] at hl
    omega

/-! ### ASCII case -/

def toAsciiLowercase (t : Text) : Text := t.map .toLower

def eqIgnoreAsciiCase (s t : Text) : Bool := toAsciiLowercase s = toAsciiLowercase t

/-- A character that is in lower case after all is one that no letter becomes, or was itself. -/
theorem toLower_eq_or (c : Char) : c.toLower = c ∨ 65 ≤ c.toNat ∧ c.toNat ≤ 90 ∧ c.toLower.toNat = c.toNat + 32 := by
  unfold Char.toLower
  split
  · rename_i hu
    have hlo : 65 ≤ c.toNat := hu.1
    have hhi : c.toNat ≤ 90 := hu.2
    refine .inr ⟨hlo, hhi, ?_⟩
    change (c.val + 32).toNat = c.toNat + 32
    rw [UInt32.toNat_add]
    change (c.toNat + 32) % 2 ^ 32 = c.toNat + 32
    omega
  · exact .inl rfl

theorem isWhitespace_toLower (c : Char) : isWhitespace c.toLower = isWhitespace c := by
  rcases toLower_eq_or c with h | ⟨hlo, hhi, h⟩
  · rw [h]
  have hl : isWhitespace c.toLower = false := by
    unfold isWhitespace
    rw [h]
    simp only [Bool.or_eq_false_iff, Bool.and_eq_false_iff, decide_eq_false_iff_not, beq_eq_false_iff_ne]
    omega
  have hu : isWhitespace c = false := by
    unfold isWhitespace
    simp only [Bool.or_eq_false_iff, Bool.and_eq_false_iff, decide_eq_false_iff_not, beq_eq_false_iff_ne]
    omega
  rw [hl, hu]

theorem toLower_toLower (c : Char) : c.toLower.toLower = c.toLower := by
  rcases toLower_eq_or c with h | ⟨hlo, hhi, h⟩
  · rw [h, h]
  · rcases toLower_eq_or c.toLower with h' | ⟨hlo', hhi', -⟩
    · exact h'
    · omega

theorem toAsciiLowercase_idem (t : Text) : toAsciiLowercase (toAsciiLowercase t) = toAsciiLowercase t := by
  unfold toAsciiLowercase
  rw [List.map_map]
  exact map_congr_left fun c _ => toLower_toLower c

/-- A character that is no letter is in a text just when it is there in lower case. -/
theorem mem_toAsciiLowercase {c : Char} {t : Text} (hc : c.toNat < 65) : c ∈ toAsciiLowercase t ↔ c ∈ t := by
  unfold toAsciiLowercase
  rw [List.mem_map]
  constructor
  · rintro ⟨x, hx, rfl⟩
    rcases toLower_eq_or x with h | ⟨hlo, -, h⟩
    · rwa [h]
    · omega
  · intro h
    refine ⟨c, h, ?_⟩
    rcases toLower_eq_or c with h' | ⟨hlo, -, -⟩
    · exact h'
    · omega

theorem trim_toAsciiLowercase (t : Text) : trim (toAsciiLowercase t) = toAsciiLowercase (trim t) := by
  have hs : isWhitespace ∘ .toLower = isWhitespace := funext isWhitespace_toLower
  unfold trim toAsciiLowercase
  rw [dropWhile_map, hs]
  unfold rdropWhile
  rw [← map_reverse, dropWhile_map, hs, map_reverse]

/-- A text is trimmed just when it is so in lower case. -/
theorem trim_eq_self_of_toAsciiLowercase {t : Text} (h : trim (toAsciiLowercase t) = toAsciiLowercase t) : trim t = t := by
  rw [trim_toAsciiLowercase] at h
  have hl := congrArg length h
  unfold toAsciiLowercase at hl
  rw [length_map, length_map] at hl
  exact (trim_sublist t).eq_of_length hl

/-! ### Lines -/

/-- A line without the carriage return that is part of its end. -/
def stripCr (line : Text) : Text := if line.getLast? = some '\r' then line.dropLast else line

/-- The lines of a text. -/
def lines (t : Text) : List Text :=
  (t.splitOn '\n').dropLast.map stripCr ++ ((t.splitOn '\n').getLast?.filter fun rest => rest ≠ []).toList

/-- The texts one after another, each with a newline after it. -/
def unlines (ts : List Text) : Text := ts.flatMap (· ++ ['\n'])

/-- The lines that a text written with a newline after it is read back as. -/
def readBack (t : Text) : List Text := (t.splitOn '\n').map stripCr

theorem stripCr_of_ne {line : Text} (h : line.getLast? ≠ some '\r') : stripCr line = line := if_neg h

theorem stripCr_eq_self_iff {line : Text} : stripCr line = line ↔ line.getLast? ≠ some '\r' := by
  refine ⟨fun h hcr => ?_, stripCr_of_ne⟩
  have hne : line ≠ [] := by rintro rfl; cases hcr
  have hl := congrArg length h
  rw [stripCr, if_pos hcr, length_dropLast] at hl
  have := length_pos_iff.mpr hne
  omega

theorem trim_stripCr (t : Text) : trim (stripCr t) = trim t := by
  unfold stripCr
  split
  · rename_i hcr
    obtain ⟨start, rfl⟩ := getLast?_eq_some_iff.mp hcr
    rw [dropLast_concat, trim_concat (by decide)]
  · rfl

/-- The carriage return at the end of a line goes with the value. -/
theorem splitOnce_stripCr (hc : c ≠ '\r') (line : Text) :
    splitOnce c (stripCr line) = (splitOnce c line).map fun e => (e.1, stripCr e.2) := by
  by_cases hcr : line.getLast? = some '\r'
  · obtain ⟨start, rfl⟩ := getLast?_eq_some_iff.mp hcr
    rw [stripCr, if_pos hcr, dropLast_concat]
    cases hsp : splitOnce c start with
    | none =>
      have hn : splitOnce c (start ++ ['\r']) = none := splitOnce_eq_none.mpr (by simp [splitOnce_eq_none.mp hsp, hc])
      rw [hn, map_none]
    | some e =>
      obtain ⟨rfl, hk⟩ := splitOnce_eq_some.mp hsp
      rw [append_assoc, cons_append, splitOnce_append hk, map_some]
      simp [stripCr]
  · rw [stripCr_of_ne hcr]
    cases hsp : splitOnce c line with
    | none => rfl
    | some e =>
      obtain ⟨rfl, -⟩ := splitOnce_eq_some.mp hsp
      have hv : e.2.getLast? ≠ some '\r' := fun h => hcr (by simp [getLast?_cons, h])
      rw [map_some, stripCr_of_ne hv]
theorem stripCr_sublist (line : Text) : (stripCr line).Sublist line := by
  unfold stripCr
  split
  · exact dropLast_sublist _
  · exact .refl _

theorem lines_append_newline (s t : Text) : lines (s ++ '\n' :: t) = readBack s ++ lines t := by
  unfold lines readBack
  rw [splitOn_append_cons_self, dropLast_append_of_ne_nil (splitOn_ne_nil _ _), map_append,
    getLast?_append_of_ne_nil _ (splitOn_ne_nil _ _), append_assoc]

/-- What is written line by line is read back as the lines that each text has itself. -/
theorem lines_unlines (ts : List Text) : lines (unlines ts) = ts.flatMap readBack := by
  induction ts with
  | nil => rfl
  | cons t ts ih =>
    have hcons : unlines (t :: ts) = t ++ '\n' :: unlines ts := by
      simp only [unlines, flatMap_cons, append_assoc, cons_append, nil_append]
    rw [hcons, lines_append_newline, ih, flatMap_cons]

theorem splitOn_of_not_mem {c : Char} {t : Text} (h : c ∉ t) : t.splitOn c = [t] := splitOn_eq_singleton h

theorem readBack_of_not_mem {t : Text} (h : '\n' ∉ t) : readBack t = [stripCr t] := by
  rw [readBack, splitOn_of_not_mem h, map_singleton]

/-- The pieces of a split do not have the separator. -/
theorem not_mem_of_mem_splitOn {α : Type} [DecidableEq α] {c : α} {s t : List α} (h : s ∈ t.splitOn c) : c ∉ s := by
  induction t generalizing s with
  | nil =>
    rw [splitOn_nil, mem_singleton] at h
    rw [h]
    exact not_mem_nil
  | cons x t ih =>
    rw [splitOn_cons_eq_if_modifyHead] at h
    split at h
    · rcases mem_cons.mp h with rfl | h
      · exact not_mem_nil
      · exact ih h
    rename_i hx
    obtain ⟨y, ys, hys⟩ := exists_cons_of_ne_nil (splitOn_ne_nil c t)
    rw [hys, modifyHead_cons] at h
    rcases mem_cons.mp h with rfl | h
    · rw [mem_cons, not_or]
      refine ⟨fun hc => hx (by rw [hc, beq_self_eq_true]), ih ?_⟩
      rw [hys]
      exact mem_cons_self
    · refine ih ?_
      rw [hys]
      exact mem_cons_of_mem y h

theorem not_mem_of_mem_lines {line t : Text} (h : line ∈ lines t) : '\n' ∉ line := by
  rcases mem_append.mp h with h | h
  · obtain ⟨s, hs, rfl⟩ := List.mem_map.mp h
    exact fun hm => not_mem_of_mem_splitOn ((dropLast_sublist _).subset hs) ((stripCr_sublist s).subset hm)
  · obtain ⟨hl, -⟩ := filter_eq_some_iff.mp (mem_toList.mp h)
    exact not_mem_of_mem_splitOn (mem_of_getLast? hl)

end Text

end Pebrel.Library
