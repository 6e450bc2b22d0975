import Pebrel.Backup.ArchiveNames

/-!
# Listings of remote archives

What a server answers to a request for the names of a directory is searched for
elements of a fixed name, by text and not as a document (`listing.rs`). The names
are those that the last parts of the addresses are, as far as they are names of
archives: in the order of the answer, and as often as the answer has them.
-/

namespace Pebrel.Backup

open Library List

/-- The first word of a text, or none of it. -/
def firstWord (t : Text) : Text := (t.dropWhile Text.isWhitespace).takeWhile fun c => !Text.isWhitespace c

/-- The part of a text after the last `c`, the whole text if it has none. -/
def afterLast (c : Char) (t : Text) : Text := ((Text.rsplitOnce c t).map (·.2)).getD t

variable {c : Char} {t key value sep : Text}

/-- The text between the first of two parts is shorter. -/
theorem splitOnce_length (h : Text.splitOnce c t = some (key, value)) : value.length < t.length := by
  rw [(Text.splitOnce_eq_some.1 h).1, length_append, length_cons]
  omega

/-- `elements`: the trimmed texts of the elements of a name. -/
def elements (wanted : Text) (rest : Text) : List Text :=
  match _hopen : Text.splitOnce '<' rest with
  | none => []
  | some (_, rest) =>
    match _hclose : Text.splitOnce '>' rest with
    | none => []
    | some (head, body) =>
      let tag := firstWord head
      if tag.head? ≠ some '/' ∧ afterLast ':' tag = wanted then
        match _hend : Text.splitOnceText ("</".toList ++ tag ++ [('>' : Char)]) body with
        | some (value, after) => .trim value :: elements wanted after
        | none => elements wanted body
      else elements wanted body
  termination_by rest.length
  decreasing_by
    all_goals
      have hopen := splitOnce_length _hopen
      have hclose := splitOnce_length _hclose
      try
        have hend := congrArg List.length (Text.splitOnceText_eq _hend)
        rw [List.length_append, List.length_append] at hend
      omega

/-- A `Snapshot`: a name and, if the server says it, the size. -/
structure Snapshot where
  name : Text
  bytes : Option ℕ

/-- The number that a text is, as `parse` of an unsigned number of 64 bits reads it. -/
def parseSize (t : Text) : Option ℕ :=
  let digits := (t.dropPrefix? ['+']).getD t
  if digits ≠ [] ∧ digits.all Char.isDigit ∧ Nat.ofDigitChars 10 digits 0 < 2 ^ 64 then some (Nat.ofDigitChars 10 digits 0) else none

def webdav (xml : Text) : List Snapshot :=
  (elements "response".toList xml).filterMap fun record =>
    (elements "href".toList record).head?.bind fun href =>
      let name := afterLast '/' (href.rdropWhile (· = '/'))
      if isArchiveName name then some ⟨name, (elements "getcontentlength".toList record).head?.bind parseSize⟩ else none

/-- The answer of a server that has, for each of the names in turn, a record with its address. -/
def webdavAnswer (names : List Text) : Text :=
  names.flatMap fun name => "<response><href>/".toList ++ name ++ "</href></response>".toList

end Pebrel.Backup
