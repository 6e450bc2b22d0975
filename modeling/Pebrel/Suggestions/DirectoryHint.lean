import Mathlib.Algebra.Order.Field.Rat
import Mathlib.Data.Char
import Mathlib.Data.List.Lex
import Mathlib.Data.List.Sort
import Pebrel.Library.Text

/-!
# Hints of directories

The directories that a local terminal was in are kept with a rank
(`directory_history.rs`). On a line that changes the directory, the rest of one of them is
suggested (`hint_with_cancel`): the target is made absolute, the recorded paths that
start with it are taken in the order of their scores, and what the first of them that is
a directory has after it is the hint, with the separator that the target has.

## The model

The program is that of Unix. The home directory, the clock, and what is a directory
are arguments, and so is what tells whether the hint was cancelled, with a number for each
time it is asked. A rank is a rational number.
-/

namespace Pebrel.Suggestions.Directories

open Library

/-! ### The database -/

/-- A directory that was visited, with its rank and its last visit. -/
structure DirectoryEntry where
  path : Text
  rank : ℚ
  lastAccessed : ℕ

def hour : ℕ := 60 * 60
def day : ℕ := 24 * hour
def week : ℕ := 7 * day

def DirectoryEntry.score (entry : DirectoryEntry) (now : ℕ) : ℚ :=
  let age := now - entry.lastAccessed
  entry.rank * if age < hour then 4 else if age < day then 2 else if age < week then 1 / 2 else 1 / 4

/-! ### Paths -/

def isSeparator (c : Char) : Bool := c = '/' || c = '\x5c'

/-- Whether the second byte is a colon. -/
def isDriveForm : Text → Bool
  | c :: d :: _ => c.utf8Size = 1 && d = ':'
  | _ => false

def rootLen (path : Text) : ℕ :=
  if isDriveForm path then min 3 (Text.byteLen path) else if path.head?.any isSeparator then 1 else 0

/-- The loop of `trim_trailing_separators`, from the last character on. -/
def trimReversed : Text → Text
  | [] => []
  | c :: path =>
    if rootLen (c :: path).reverse < Text.byteLen (c :: path).reverse && isSeparator c then trimReversed path else c :: path

def trimTrailingSeparators (path : Text) : Text := (trimReversed path.reverse).reverse

def normalize (value : Text) : Option Text :=
  if value = [] ∨ value.any Text.isControl = true then none else some (trimTrailingSeparators value)

def isAbsolute (path : Text) : Bool := path.head? = some '/'

def join (base path : Text) : Text :=
  if isAbsolute path then path else if base = [] ∨ base.getLast? = some '/' then base ++ path else base ++ '/' :: path

/-! ### Requests -/

/-- `split_first_token` after the white space. -/
def splitFirstToken (input : Text) : Option (Text × Text) :=
  match input.dropWhile Text.isWhitespace with
  | [] => none
  | first :: rest =>
    if first = '\x22' ∨ first = '\x27' ∨ first = '\x60' then
      match Text.splitOnce first rest with
      | some (token, after) => some (token, after)
      | none => some (rest, [])
    else some ((first :: rest).takeWhile (!Text.isWhitespace ·), (first :: rest).dropWhile (!Text.isWhitespace ·))

/-- A command that changes the directory. -/
def isDirectoryCommand (command : Text) : Bool :=
  ["cd", "chdir", "pushd", "sl", "set-location"].any fun name => name.toList = Text.toAsciiLowercase command

structure DirectoryRequest where
  absolute : Text
  separator : Option Char

/-- `strip_prefix('~')`. -/
def stripTilde : Text → Option Text
  | [] => none
  | c :: rest => if c = '~' then some rest else none

def resolveRequestPath (home : Option Text) (target cwd : Text) : Option Text :=
  if target = [] ∨ target = ['-'] ∨ target.head?.any (fun c => c = '$' || c = '%') = true ∨
    target.any (fun c => c = '*' || c = '?') = true then none
  else
    match stripTilde target with
    | some rest =>
      if rest ≠ [] ∧ rest.head?.any isSeparator = false then none
      else home.map fun home => trimTrailingSeparators (join home (rest.dropWhile isSeparator))
    | none =>
      if isAbsolute target || isDriveForm target then some (trimTrailingSeparators target)
      else if cwd = [] then none
      else some (trimTrailingSeparators (join cwd target))

def parseDirectoryRequest (home : Option Text) (line cwd : Text) : Option DirectoryRequest :=
  match splitFirstToken (line.dropWhile Text.isWhitespace) with
  | none => none
  | some (command, rest) =>
    if !isDirectoryCommand command then none
    else
      let rest := rest.dropWhile Text.isWhitespace
      if rest = [] ∨ rest.head? = some '-' then none
      else
        match splitFirstToken rest with
        | none => none
        | some (target, _) =>
          (resolveRequestPath home target cwd).map fun absolute => ⟨absolute, target.reverse.find? isSeparator⟩

/-! ### Hints -/

def suffixAfterPrefix (path start : Text) : Option Text :=
  let suffix := path.drop start.length
  if suffix = [] then none else some suffix

def applySeparatorStyle (value : Text) (separator : Option Char) : Text :=
  match separator with
  | none => value
  | some separator => value.map fun c => if isSeparator c then separator else c

/-- The order of candidates. -/
def before (now : ℕ) (left right : DirectoryEntry) : Bool :=
  if left.score now = right.score now then decide (left.path ≤ right.path) else decide (right.score now < left.score now)

/-- The paths of the first twelve candidates. -/
def candidates (entries : List DirectoryEntry) (now : ℕ) (requestKey : Text) : List Text :=
  let matching := entries.filter fun entry =>
    (normalize entry.path).any fun key => decide (Text.byteLen requestKey < Text.byteLen key) && requestKey.isPrefixOf key
  ((matching.insertionSort fun left right => before now left right = true).take 12).map DirectoryEntry.path

/-- The candidate that the hint is made from, and the hint. -/
def firstHint (cancelled : ℕ → Bool) (isDir : Text → Bool) (request : DirectoryRequest) : ℕ → List Text → Option (Text × Text)
  | _, [] => none
  | call, path :: paths =>
    if cancelled call then none
    else if !isDir path then firstHint cancelled isDir request (call + 1) paths
    else
      match suffixAfterPrefix path request.absolute with
      | none => firstHint cancelled isDir request (call + 1) paths
      | some suffix => some (path, applySeparatorStyle suffix request.separator)

/-- The recorded directory that a hint is made from, and the hint. -/
def hintFrom (entries : List DirectoryEntry) (home : Option Text) (isDir : Text → Bool) (now : ℕ) (cancelled : ℕ → Bool) (line cwd : Text) :
    Option (Text × Text) :=
  if cancelled 0 then none
  else
    match parseDirectoryRequest home line cwd with
    | none => none
    | some request =>
      match normalize request.absolute with
      | none => none
      | some requestKey => firstHint cancelled isDir request 1 (candidates entries now requestKey)

def hintWithCancel (entries : List DirectoryEntry) (home : Option Text) (isDir : Text → Bool) (now : ℕ)
    (cancelled : ℕ → Bool) (line cwd : Text) :
    Option Text := (hintFrom entries home isDir now cancelled line cwd).map Prod.snd

end Pebrel.Suggestions.Directories
