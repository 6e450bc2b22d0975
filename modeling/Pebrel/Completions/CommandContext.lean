import Pebrel.Library.Text

/-!
# The words of a command line

What is completed on a command line is its last word before the cursor
(`command_context.rs`). The words are those that the shell would make of the line, where
that can be told without running it: `words` gives up on expansions, on operators and on
control characters. What replaces the word is written with the quotes that it began with
(`candidate`), so that the shell reads the value of the candidate.

## The model

Positions are byte offsets. The table of alphanumeric characters is an argument; what is
assumed of it is that of the ASCII characters the letters and the digits are alphanumeric,
and that neither white space is nor general punctuation.
-/

namespace Pebrel.Completions

open Library List

/-- `char::is_alphanumeric`. -/
structure Unicode where
  isAlphanumeric : Char → Bool
  ascii : ∀ c : Char, c.toNat < 128 → isAlphanumeric c = c.isAlphanum
  punctuation : ∀ c : Char, 0x2010 ≤ c.toNat → c.toNat ≤ 0x2027 → isAlphanumeric c = false
  whitespace : ∀ c, Text.isWhitespace c = true → isAlphanumeric c = false

inductive ShellSyntax where
  | posix
  | powerShell
  | cmd
  | literal
  deriving DecidableEq

structure Span where
  start : ℕ
  stop : ℕ
  deriving DecidableEq

structure Word where
  value : Text
  span : Span
  quote : Option Char
  closed : Bool
  home : Bool
  deriving DecidableEq

/-! ### Words -/

def isBlank (c : Char) : Bool := c = ' ' || c = '\t'

/-- A character that begins a quotation. -/
def opensQuote (shell : ShellSyntax) (c : Char) : Bool :=
  c = '\x22' && shell ≠ .literal || c = '\x27' && (shell = .posix || shell = .powerShell)

/-- A character that takes away the meaning of the next one. -/
def escapes (shell : ShellSyntax) (quote : Option Char) (c : Char) : Bool :=
  match shell with
  | .posix => c = '\x5c' && quote ≠ some '\x27'
  | .powerShell => c = '\x60' && quote ≠ some '\x27'
  | _ => false

/-- A character that stands for something that only the shell knows. -/
def expands (u : Unicode) (shell : ShellSyntax) (quote : Option Char) (c : Char) : Bool :=
  match shell with
  | .cmd => c = '%' || c = '!' || c = '^'
  | .literal => !u.isAlphanumeric c && c ∉ ['/', '.', '_', '-', ':', '=']
  | _ => quote ≠ some '\x27' && (c = '$' || c = '\x60')

/-- A character that has a meaning outside quotations. -/
def isOperator (c : Char) : Bool :=
  c ∈ [';', '|', '&', '<', '>', '(', ')', '\x7b', '\x7d', '[', ']', '*', '?', '#', '\x27', '\x22']

/-- The rest of a word, with the offset behind it and what is left of the line. -/
def readWord (u : Unicode) (shell : ShellSyntax) : Option Char → Word → ℕ → Text → Option (Word × ℕ × Text)
  | _, word, offset, [] => some (word, offset, [])
  | quote, word, offset, c :: chars =>
    let next := offset + c.utf8Size
    if quote = some c then
      match chars with
      | [] => some ({ word with closed := true }, next, [])
      | d :: chars =>
        if shell = .powerShell ∧ d = c then
          readWord u shell quote { word with value := word.value ++ [c] } (next + d.utf8Size) chars
        else readWord u shell none { word with closed := true } next (d :: chars)
    else if quote = none ∧ isBlank c then some ({ word with span := ⟨word.span.start, offset⟩ }, next, chars)
    else if quote = none ∧ opensQuote shell c then readWord u shell (some c) { word with closed := false } next chars
    else if escapes shell quote c then
      match chars with
      | [] => none
      | d :: chars =>
        if Text.isControl d ∨ shell = .powerShell ∧ d.isAlphanum then none
        else if shell = .posix ∧ quote = some '\x22' ∧ d ∉ ['$', '\x60', '\x22', '\x5c'] then
          readWord u shell quote { word with value := word.value ++ [c, d] } (next + d.utf8Size) chars
        else readWord u shell quote { word with value := word.value ++ [d] } (next + d.utf8Size) chars
    else if Text.isControl c ∨ expands u shell quote c ∨ quote = none ∧ isOperator c then none
    else readWord u shell quote { word with value := word.value ++ [c] } next chars

/-- A word takes at least one character. -/
theorem length_of_readWord {u : Unicode} {shell : ShellSyntax} {quote : Option Char} {word word' : Word} {offset offset' : ℕ}
    {chars rest : Text} (h : readWord u shell quote word offset chars = some (word', offset', rest)) : rest.length ≤ chars.length - 1 := by
  fun_induction readWord u shell quote word offset chars generalizing word' offset' rest <;> grind

/-- The words from an offset on. Each takes at least one character, so there are at most as many as there are characters. -/
def wordsFrom (u : Unicode) (shell : ShellSyntax) (lineLen : ℕ) : ℕ → ℕ → List Word → Text → Option (List Word)
  | _, _, result, [] => some result
  | 0, _, _, _ :: _ => none
  | fuel + 1, offset, result, first :: chars =>
    if isBlank first then wordsFrom u shell lineLen fuel (offset + first.utf8Size) result chars
    else
      let quoted := opensQuote shell first
      let word : Word :=
        { value := [], span := ⟨offset, lineLen⟩, quote := if quoted then some first else none, closed := !quoted,
          home := first = '~' && (shell = .posix || shell = .powerShell) }
      match if quoted then readWord u shell (some first) word (offset + first.utf8Size) chars
          else readWord u shell none word offset (first :: chars) with
      | none => none
      | some (word, offset, rest) =>
        if !word.closed && rest ≠ [] then none
        else if 64 < (result ++ [word]).length then none
        else wordsFrom u shell lineLen fuel offset (result ++ [word]) rest

/-- There are as many steps as are needed. -/
theorem wordsFrom_succ {u : Unicode} {shell : ShellSyntax} {lineLen fuel offset : ℕ} {result : List Word} {chars : Text}
    (hfuel : chars.length ≤ fuel) :
    wordsFrom u shell lineLen (fuel + 1) offset result chars = wordsFrom u shell lineLen fuel offset result chars := by
  induction fuel generalizing offset result chars with
  | zero =>
    rw [length_eq_zero_iff.mp (Nat.le_zero.mp hfuel), wordsFrom, wordsFrom]
  | succ fuel ih =>
    cases chars with
    | nil => rw [wordsFrom, wordsFrom]
    | cons first chars =>
      rw [length_cons, Nat.add_le_add_iff_right] at hfuel
      rw [wordsFrom, wordsFrom]
      by_cases hbl : isBlank first = true
      · rw [if_pos hbl, if_pos hbl, ih hfuel]
      rw [if_neg hbl, if_neg hbl]
      dsimp only
      split
      · rfl
      rename_i word offset' rest hw
      have hl : rest.length ≤ fuel := by
        split at hw
        · have hr := length_of_readWord hw
          omega
        · have hr := length_of_readWord hw
          rw [length_cons] at hr
          omega
      rw [ih hl]

def words (u : Unicode) (shell : ShellSyntax) (line : Text) : Option (List Word) :=
  (wordsFrom u shell (Text.byteLen line) line.length 0 [] line).map fun result =>
    if line.getLast?.any isBlank && result.getLast?.all Word.closed then
      result ++ [⟨[], ⟨Text.byteLen line, Text.byteLen line⟩, none, true, false⟩]
    else result

/-! ### Contexts -/

/-- The first `n` bytes, if a character ends there. -/
def takeBytes : ℕ → Text → Option Text
  | 0, _ => some []
  | _ + 1, [] => none
  | n + 1, c :: t => if c.utf8Size ≤ n + 1 then (takeBytes (n + 1 - c.utf8Size) t).map (c :: ·) else none

structure CommandContext where
  arguments : List Text
  homeArguments : List ℕ
  following : List Text
  fullWord : Option Text
  target : Word
  shell : ShellSyntax
  deriving DecidableEq

def CommandContext.parseWords (u : Unicode) (line : Text) (cursor : ℕ) (shell : ShellSyntax) (allowHome : Bool) : Option CommandContext :=
  match takeBytes cursor line with
  | none => none
  | some typed =>
    if 4096 < Text.byteLen line then none
    else do
      let all ← words u shell line
      let before ← words u shell typed
      let target ← before.getLast?
      let arguments := before.dropLast
      let full : Option Word := all.find? fun word => word.span.start = target.span.start
      let target : Word := match full with
        | some full => { target with span := ⟨target.span.start, full.span.stop⟩ }
        | none => target
      let fullWord := full.bind fun full => if Word.value full = target.value then none else some full.value
      let following := (all.filter fun word => decide (word.span.start < word.span.stop) && match full with
        | some full => decide (full.span.start < word.span.start)
        | none => decide (cursor ≤ word.span.start)).map Word.value
      if arguments.any (fun word => !word.closed || word.home && !allowHome) ||
          all.any (fun word => decide (target.span.start < word.span.start) && (!word.closed || word.home)) then none
      else
        let homeArguments := (arguments.zipIdx.filter fun word => word.1.home).map Prod.snd
        some { arguments := arguments.map Word.value, homeArguments, following, fullWord, target, shell }

def CommandContext.parse (u : Unicode) (line : Text) (cursor : ℕ) (shell : ShellSyntax) : Option CommandContext :=
  CommandContext.parseWords u line cursor shell false

/-! ### Candidates -/

structure Suggestion where
  value : Text
  displayOverride : Option Text
  span : Span
  appendWhitespace : Bool
  deriving DecidableEq

/-- `str::replace` of a character. -/
def replaceChar (c : Char) (by_ : Text) (t : Text) : Text := t.flatMap fun d => if d = c then by_ else [d]

/-- A value that the shell reads as it is. -/
def isSafe (u : Unicode) (shell : ShellSyntax) (value : Text) : Bool :=
  !(shell = .powerShell && value.head? = some '-' && value.any (fun c => c = '.' || c = ':')) &&
    value.all fun c =>
      u.isAlphanumeric c || c ∈ ['/', '.', '_', '-', ':', '='] ||
        (c = '@' && shell ≠ .literal && (shell ≠ .powerShell || value.head? ≠ some '@')) ||
        (c = ',' && (shell = .posix || shell = .cmd)) ||
        (c = '\x5c' && (shell = .powerShell || shell = .cmd))

/-- A value that the command prompt reads as it is between quotes. -/
def isCmdQuotedSafe (u : Unicode) (value : Text) : Bool :=
  value.all fun c => u.isAlphanumeric c || c ∈ ['/', '\x5c', '.', '_', '-', ':', '=', ' ', '@', ',']

/-- The value between two quotes. -/
def between (quote : Char) (value : Text) : Text := quote :: (value ++ [quote])

/-- A value as it is written for a word that began with `quote`. -/
def quotedValue (u : Unicode) (quote : Option Char) (shell : ShellSyntax) (value : Text) : Option Text :=
  let safe := isSafe u shell value
  if quote = some '\x27' ∧ shell = .posix then some (between '\x27' (replaceChar '\x27' "'\\''".toList value))
  else if quote = some '\x27' ∧ shell = .powerShell then some (between '\x27' (replaceChar '\x27' "''".toList value))
  else if quote = some '\x22' ∧ shell = .posix then
    some (between '\x22' (replaceChar '\x22' "\\\"".toList (replaceChar '\x60' "\\`".toList (replaceChar '$' "\\$".toList
      (replaceChar '\x5c' "\\\\".toList value)))))
  else if quote = some '\x22' ∧ shell = .powerShell then
    some (between '\x22' (replaceChar '\x22' "`\"".toList (replaceChar '$' "`$".toList (replaceChar '\x60' "``".toList value))))
  else if shell = .cmd ∧ isCmdQuotedSafe u value ∧ (quote.isSome ∨ safe = false) then
    if value.getLast? = some '\x5c' then none else some (between '\x22' value)
  else if quote = none ∧ safe then some value
  else if quote = none ∧ shell = .posix then some (between '\x27' (replaceChar '\x27' "'\\''".toList value))
  else if quote = none ∧ shell = .powerShell then some (between '\x27' (replaceChar '\x27' "''".toList value))
  else none

def CommandContext.candidate (u : Unicode) (context : CommandContext) (value : Text) : Option Suggestion :=
  if value = [] ∨ 4096 < Text.byteLen value ∨ value.any Text.isControl then none
  else
    (quotedValue u context.target.quote context.shell value).map fun quoted =>
      { value := quoted, displayOverride := some value, span := context.target.span, appendWhitespace := false }

end Pebrel.Completions
