import Mathlib
import Pebrel.Completions.CommandContext
import Pebrel.Library.Delimited

/-!
# Candidates for PowerShell

PowerShell takes any of five characters for a single quote and any of four for a double
quote, and what one of them begins another ends. The quotes of `candidate` are those of
ASCII, and so are those that it doubles or escapes. The text that it inserts is one
literal with the value of the candidate exactly if the value has none of the other quotes
of the kind that is used (`candidate_literal_iff`).
-/

namespace Pebrel.Completions

open Library List Char CommandContext

/-! ### What PowerShell reads -/

namespace PowerShell

def isSingleQuote (c : Char) : Bool := c.toNat ∈ [0x27, 0x2018, 0x2019, 0x201A, 0x201B]

def isDoubleQuote (c : Char) : Bool := c.toNat ∈ [0x22, 0x201C, 0x201D, 0x201E]

def isDash (c : Char) : Bool := c.toNat ∈ [0x2D, 0x2013, 0x2014, 0x2015]

/-- What a backtick makes of the character after it. -/
def backtick (c : Char) : Char :=
  if c = '0' then '\x00'
  else if c = 'a' then '\x07'
  else if c = 'b' then '\x08'
  else if c = 'e' then '\x1b'
  else if c = 'f' then '\x0c'
  else if c = 'n' then '\n'
  else if c = 'r' then '\r'
  else if c = 't' then '\t'
  else if c = 'v' then '\x0b'
  else c

/-- A character that stands for itself outside quotations. -/
def isOrdinary (c : Char) : Bool :=
  !(Text.isWhitespace c || Text.isControl c || isSingleQuote c || isDoubleQuote c) &&
    c ∉ ['\x60', '$', '(', ')', '\x7b', '\x7d', ';', ',', '|', '&', '<', '>', '#']

/-- A word without quotes that is one argument. One that begins with a dash is a parameter, which ends at a dot or a colon. -/
def isBareword (text : Text) : Bool :=
  text.all isOrdinary && text.head? ≠ some '@' && !(text.head?.any isDash && text.any fun c => c = '.' || c = ':')

/-- What is read, if that is all. -/
def whole : Option (Text × Text) → Option Text
  | some (value, []) => some value
  | _ => none

/-- The value of a text that is exactly one literal. -/
def literal : Text → Option Text
  | [] => none
  | first :: rest =>
    if isSingleQuote first then whole (readDoubled isSingleQuote rest)
    else if isDoubleQuote first then whole (readEscaped isDoubleQuote '\x60' backtick (fun c => c = '$') rest)
    else if isBareword (first :: rest) then some (first :: rest)
    else none

theorem whole_eq_some {read : Option (Text × Text)} {value : Text} : whole read = some value ↔ read = some (value, []) := by
  match read with
  | none => exact ⟨nofun, nofun⟩
  | some (value', []) => simp [whole]
  | some (value', c :: rest) => simp [whole]

end PowerShell

open PowerShell

/-! ### What is inserted -/

theorem replaceChar_apostrophe (value : Text) : replaceChar '\x27' "''".toList value = double '\x27' value := by
  rw [replaceChar, double]
  congr 1
  funext d
  by_cases hd : d = '\x27'
  · rw [if_pos hd, if_pos hd, hd]
    rfl
  · rw [if_neg hd, if_neg hd]

theorem replaceChar_cons (c d : Char) (by_ value : Text) : replaceChar c by_ (d :: value) =
    (if d = c then by_ else [d]) ++ replaceChar c by_ value :=
  flatMap_cons

/-- A character that is escaped between double quotes. -/
def isEscaped (c : Char) : Bool := c = '\x60' || c = '$' || c = '\x22'

theorem replaceChar_special (value : Text) :
    replaceChar '\x22' "`\"".toList (replaceChar '$' "`$".toList (replaceChar '\x60' "``".toList value)) = escaped '\x60' isEscaped value := by
  induction value with
  | nil => rfl
  | cons c value ih =>
    by_cases hc : isEscaped c = true
    · rw [escaped_cons_of_pos hc, ← ih, replaceChar_cons]
      simp only [isEscaped, Bool.or_eq_true, decide_eq_true_eq, or_assoc] at hc
      rcases hc with rfl | rfl | rfl <;> simp [replaceChar_cons]
    rw [escaped_cons_of_neg hc, ← ih, replaceChar_cons]
    simp only [isEscaped, Bool.or_eq_true, decide_eq_true_eq, not_or] at hc
    obtain ⟨⟨hbk, hd⟩, hq⟩ := hc
    simp [replaceChar_cons, hbk, hd, hq]

theorem escapes_doubleQuote : Escapes isDoubleQuote '\x60' backtick (fun c => c = '$') isEscaped '\x22' where
  escape_special := rfl
  expands_special := fun c hc => by rw [of_decide_eq_true hc]; rfl
  meaning_special := fun c hc => by
    simp only [isEscaped, Bool.or_eq_true, decide_eq_true_eq, or_assoc] at hc
    rcases hc with rfl | rfl | rfl <;> rfl
  escape_delim := rfl
  close_delim := rfl

/-- The value has no quote of the kind that it is written between, other than that of ASCII. -/
def Plain (quote : Option Char) (value : Text) : Prop :=
  if quote = some '\x22' then ∀ c ∈ value, isDoubleQuote c = true → c = '\x22' else ∀ c ∈ value, isSingleQuote c = true → c = '\x27'

theorem literal_singleQuoted (value : Text) :
    literal (between '\x27' (double '\x27' value)) = some value ↔ ∀ c ∈ value, isSingleQuote c = true → c = '\x27' := by
  rw [between, literal, if_pos (show isSingleQuote '\x27' = true from rfl), whole_eq_some]
  exact readDoubled_double_iff rfl

theorem literal_doubleQuoted (value : Text) :
    literal (between '\x22' (escaped '\x60' isEscaped value)) = some value ↔ ∀ c ∈ value, isDoubleQuote c = true → c = '\x22' := by
  have hn : ¬ isSingleQuote '\x22' = true := by decide
  rw [between, literal, if_neg hn, if_pos (show isDoubleQuote '\x22' = true from rfl), whole_eq_some,
    readEscaped_escaped_iff escapes_doubleQuote]
  refine forall₂_congr fun c _ => imp_congr_right fun hc => ?_
  simp only [isEscaped, Bool.or_eq_true, decide_eq_true_eq]
  constructor
  · rintro ((rfl | rfl) | rfl)
    · cases hc
    · cases hc
    · rfl
  · exact fun heq => .inr heq

/-! ### Values that are not quoted -/

section
variable {u : Unicode} {value : Text}

theorem isOrdinary_of_safe {c : Char} (hctl : Text.isControl c = false)
    (h : u.isAlphanumeric c = true ∨ c ∈ ['/', '.', '_', '-', ':', '=', '@', '\x5c']) : isOrdinary c = true := by
  rcases h with ha | hm
  · have hs : Text.isWhitespace c = false := by
      by_contra hc
      rw [u.whitespace c (eq_true_of_ne_false hc)] at ha
      cases ha
    have hp : ¬ (0x2010 ≤ c.toNat ∧ c.toNat ≤ 0x2027) := fun hc => by
      rw [u.punctuation c hc.1 hc.2] at ha
      cases ha
    have hasc : ∀ d : Char, d.toNat < 128 → d.isAlphanum = false → c ≠ d := by
      rintro d hd hn rfl
      rw [u.ascii c hd, hn] at ha
      cases ha
    have hsing : isSingleQuote c = false := by
      simp only [isSingleQuote, mem_cons, not_mem_nil, or_false, decide_eq_false_iff_not]
      rintro (h | h)
      · exact hasc '\x27' (by decide) (by decide) (toNat_inj.mp h)
      · omega
    have hdou : isDoubleQuote c = false := by
      simp only [isDoubleQuote, mem_cons, not_mem_nil, or_false, decide_eq_false_iff_not]
      rintro (h | h)
      · exact hasc '\x22' (by decide) (by decide) (toNat_inj.mp h)
      · omega
    rw [isOrdinary, hs, hctl, hsing, hdou, Bool.or_self, Bool.or_self, Bool.or_self, Bool.not_false, Bool.true_and, decide_eq_true_eq]
    simp only [mem_cons, not_mem_nil, or_false, not_or]
    refine ⟨?_, ?_, ?_, ?_, ?_, ?_, ?_, ?_, ?_, ?_, ?_, ?_, ?_⟩ <;> exact hasc _ (by decide) (by decide)
  · simp only [mem_cons, not_mem_nil, or_false] at hm
    rcases hm with rfl | rfl | rfl | rfl | rfl | rfl | rfl | rfl <;> rfl

/-- A value that is safe is a word of its own. -/
theorem isBareword_of_isSafe (hcon : value.any Text.isControl = false) (h : isSafe u .powerShell value = true) :
    isBareword value = true := by
  rw [isSafe, Bool.and_eq_true, all_eq_true] at h
  obtain ⟨hsp, hall⟩ := h
  have hsf : ∀ c ∈ value, (u.isAlphanumeric c = true ∨ c ∈ ['/', '.', '_', '-', ':', '=', '@', '\x5c']) ∧
      (value.head? = some '@' → c ≠ '@') := by
    intro c hc
    have ho := hall c hc
    simp only [Bool.or_eq_true, Bool.and_eq_true, decide_eq_true_eq] at ho
    rcases ho with ((((ha | hm) | ⟨⟨rfl, -⟩, hn⟩) | ⟨-, hno⟩) | ⟨rfl, -⟩)
    · refine ⟨.inl ha, ?_⟩
      rintro - rfl
      rw [u.ascii '@' (by decide)] at ha
      cases ha
    · refine ⟨.inr ?_, ?_⟩
      · simp only [mem_cons, not_mem_nil, or_false] at hm ⊢
        rcases hm with h | h | h | h | h | h <;> simp [h]
      · rintro - rfl
        exact absurd hm (by decide)
    · refine ⟨.inr (by decide), fun hat => ?_⟩
      rcases hn with hn | hn
      · exact absurd rfl hn
      · exact absurd hat hn
    · rcases hno with h | h <;> cases h
    · exact ⟨.inr (by decide), fun _ => by decide⟩
  have hord : ∀ c ∈ value, isOrdinary c = true := fun c hc =>
    isOrdinary_of_safe (eq_false_of_ne_true fun hctl => by
      rw [any_eq_false] at hcon
      exact hcon c hc hctl) (hsf c hc).1
  rw [isBareword, Bool.and_eq_true, Bool.and_eq_true, all_eq_true]
  refine ⟨⟨hord, ?_⟩, ?_⟩
  · rw [decide_eq_true_eq]
    intro hat
    exact (hsf '@' (mem_of_head? hat)).2 hat rfl
  · cases hhd : value.head? with
    | none => rfl
    | some c =>
      by_cases hdash : isDash c = true
      · have hc : c = '-' := by
          simp only [isDash, mem_cons, not_mem_nil, or_false, decide_eq_true_eq] at hdash
          rcases hdash with h | hdash
          · exact toNat_inj.mp h
          have hrg : 0x2010 ≤ c.toNat ∧ c.toNat ≤ 0x2027 := by omega
          rcases (hsf c (mem_of_head? hhd)).1 with ha | hm
          · rw [u.punctuation c hrg.1 hrg.2] at ha
            cases ha
          · simp only [mem_cons, not_mem_nil, or_false] at hm
            rcases hm with rfl | rfl | rfl | rfl | rfl | rfl | rfl | rfl <;> exact absurd hrg.1 (by decide)
        rw [hc] at hhd
        rw [hhd, decide_eq_true rfl, decide_eq_true rfl, Bool.true_and, Bool.true_and, Bool.not_eq_true'] at hsp
        rw [hsp, Bool.and_false, Bool.not_false]
      · rw [Option.any_some, eq_false_of_ne_true hdash, Bool.false_and, Bool.not_false]

theorem literal_of_isBareword (hne : value ≠ []) (h : isBareword value = true) : literal value = some value := by
  cases value with
  | nil => exact absurd rfl hne
  | cons first rest =>
    have hf : isOrdinary first = true := by
      rw [isBareword, Bool.and_eq_true, Bool.and_eq_true] at h
      exact all_eq_true.mp h.1.1 first mem_cons_self
    simp only [isOrdinary, Bool.and_eq_true, Bool.not_eq_true', Bool.or_eq_false_iff] at hf
    obtain ⟨⟨⟨-, hsing⟩, hd⟩, -⟩ := hf
    rw [literal, hsing, hd, if_neg Bool.false_ne_true, if_neg Bool.false_ne_true, if_pos h]

theorem not_quote_of_isBareword (h : isBareword value = true) {c : Char} (hc : c ∈ value) :
    isSingleQuote c = false ∧ isDoubleQuote c = false := by
  rw [isBareword, Bool.and_eq_true, Bool.and_eq_true] at h
  have ho := all_eq_true.mp h.1.1 c hc
  simp only [isOrdinary, Bool.and_eq_true, Bool.not_eq_true', Bool.or_eq_false_iff] at ho
  exact ⟨ho.1.1.2, ho.1.2⟩

end

/-- **What is inserted for PowerShell is one literal with the value exactly if the value has no other quote of the kind that it is written
between.** -/
theorem candidate_literal_iff (u : Unicode) {context : CommandContext} {value : Text} {suggestion : Suggestion}
    (hshell : context.shell = .powerShell)
    (h : context.candidate u value = some suggestion) : literal suggestion.value = some value ↔ Plain context.target.quote value := by
  rw [candidate] at h
  obtain ⟨hacc, h⟩ := Option.ite_none_left_eq_some.mp h
  obtain ⟨quoted, hq, rfl⟩ := Option.map_eq_some_iff.mp h
  show literal quoted = some value ↔ _
  rw [not_or, not_or] at hacc
  obtain ⟨hne, -, hctl⟩ := hacc
  rw [quotedValue, hshell] at hq
  simp only [reduceCtorEq, and_false, if_false, and_true, false_and] at hq
  rw [Plain]
  split at hq
  · rename_i hquo
    obtain rfl := Option.some.inj hq
    rw [if_neg (by rw [hquo]; decide), replaceChar_apostrophe]
    exact literal_singleQuoted value
  · split at hq
    · rename_i hquo
      rw [if_pos hquo]
      obtain rfl := Option.some.inj hq
      rw [replaceChar_special]
      exact literal_doubleQuoted value
    · rename_i hsing hdou
      rw [if_neg hdou]
      split at hq
      · rename_i hsf
        obtain rfl := Option.some.inj hq
        have hbare := isBareword_of_isSafe (eq_false_of_ne_true hctl) hsf.2
        refine iff_of_true (literal_of_isBareword hne hbare) fun c hc hsing => ?_
        rw [(not_quote_of_isBareword hbare hc).1] at hsing
        cases hsing
      · split at hq
        · obtain rfl := Option.some.inj hq
          rw [replaceChar_apostrophe]
          exact literal_singleQuoted value
        · cases hq

theorem toNat_of_isAlphanum {c : Char} (h : c.isAlphanum = true) : 48 ≤ c.toNat ∧ c.toNat ≤ 122 := by
  simp only [isAlphanum, isAlpha, isUpper, isLower, isDigit, Bool.or_eq_true, Bool.and_eq_true, decide_eq_true_eq,
    ge_iff_le, UInt32.le_iff_toNat_le] at h
  have hv : c.val.toNat = c.toNat := rfl
  have hu : 'A'.val.toNat = 65 ∧ 'Z'.val.toNat = 90 := ⟨rfl, rfl⟩
  have hl : 'a'.val.toNat = 97 ∧ 'z'.val.toNat = 122 := ⟨rfl, rfl⟩
  have hd : '0'.val.toNat = 48 ∧ '9'.val.toNat = 57 := ⟨rfl, rfl⟩
  omega

/-- A table of the letters and digits of ASCII. -/
def asciiTable : Unicode where
  isAlphanumeric := Char.isAlphanum
  ascii := fun _ _ => rfl
  punctuation := fun c hlow _ => eq_false_of_ne_true fun hc => by
    have hrange := toNat_of_isAlphanum hc
    omega
  whitespace := fun c hspace => eq_false_of_ne_true fun hc => by
    have hrange := toNat_of_isAlphanum hc
    simp only [Text.isWhitespace, Bool.or_eq_true, Bool.and_eq_true, decide_eq_true_eq, beq_iff_eq] at hspace
    omega

/-- A second word that is typed. -/
def typed (value : Text) (stop : ℕ) (quote : Option Char) : CommandContext :=
  { arguments := ["cat".toList], homeArguments := [], following := [], fullWord := none,
    target := ⟨value, ⟨4, stop⟩, quote, quote.isNone, false⟩, shell := .powerShell }

/-- A name with quotes of ASCII. -/
theorem candidate_literal_name : parse asciiTable "cat 'my".toList 7 .powerShell = some (typed "my".toList 7 (some '\x27')) ∧
    ∃ suggestion, (typed "my".toList 7 (some '\x27')).candidate asciiTable "my 'file'".toList = some suggestion ∧
      literal suggestion.value = some "my 'file'".toList := by
  refine ⟨by decide +kernel, ⟨"'my ''file'''".toList, some "my 'file'".toList, ⟨4, 7⟩, false⟩, by decide +kernel, ?_⟩
  have hcand : (typed "my".toList 7 (some '\x27')).candidate asciiTable "my 'file'".toList =
      some ⟨"'my ''file'''".toList, some "my 'file'".toList, ⟨4, 7⟩, false⟩ := by decide +kernel
  have hpl : Plain (some '\x27') "my 'file'".toList := by
    rw [Plain, if_neg (by decide)]
    exact Text.forall_mem_of_all (by decide)
  exact (candidate_literal_iff asciiTable rfl hcand).mpr hpl

/-- **A name with a typographic apostrophe.** -/
theorem candidate_typographic : parse asciiTable "cat it".toList 6 .powerShell = some (typed "it".toList 6 none) ∧
    ∃ suggestion, (typed "it".toList 6 none).candidate asciiTable "it’s".toList = some suggestion ∧
      literal suggestion.value ≠ some "it’s".toList := by
  refine ⟨by decide +kernel, ⟨"'it’s'".toList, some "it’s".toList, ⟨4, 6⟩, false⟩, by decide +kernel, ?_⟩
  decide +kernel

end Pebrel.Completions
