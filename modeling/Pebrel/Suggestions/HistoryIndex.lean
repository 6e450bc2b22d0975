import Mathlib.Data.List.Lex
import Mathlib.Data.Char
import Mathlib.Data.Prod.Lex
import Pebrel.Library.SortedMap
import Pebrel.Sync.Payload

/-!
# The history of commands

The commands that were submitted are kept for suggestions (`nebula_history.rs`), those of each
machine in a pool of their own. A pool has its commands twice, in the order of their
last use, and in a sorted map with the number of uses and the position of each.
Each command is also appended to a file, as a line of JSON, and the files are read
when the program starts.

## The model

An access out of the bounds of a list, or to a key that is not in the map, is a
panic, here `none`. The order of texts is that of their characters, which is that of
their bytes in UTF-8. What tells whether a search was cancelled answers each time it is
asked, so it has a number of the call. The score of a search is a parameter, of which
it only matters whether there is one. JSON is a parameter too, `RecordJson`: a line
of the file has no control characters, and gives back what was written.
-/

namespace Pebrel.Suggestions.History

open Library Sync

def historyMax : ℕ := 5000

/-! ### Pools -/

structure HistoryRank where
  uses : ℕ
  position : ℕ

/-- The order of ranks: first the uses, then the position. -/
instance : LinearOrder HistoryRank :=
  .lift' (fun r => toLex (r.uses, r.position)) fun r s h => by
    obtain ⟨huses, hposition⟩ := Prod.mk.inj (toLex_inj.mp h)
    cases r
    cases s
    simp_all

structure HistoryIndex where
  entries : List Text
  index : SortedMap Text HistoryRank

/-- `u64::saturating_add(1)`. -/
def saturatingSucc (n : ℕ) : ℕ := min (n + 1) (2 ^ 64 - 1)

namespace HistoryIndex

def empty : HistoryIndex := ⟨[], .empty⟩

/-- The loop of `reindex`. -/
def reindexFrom : ℕ → List Text → SortedMap Text HistoryRank → Option (SortedMap Text HistoryRank)
  | _, [], index => some index
  | position, command :: commands, index =>
    match index.get? command with
    | none => none
    | some rank => reindexFrom (position + 1) commands (index.insert command { rank with position := position })

def reindex (h : HistoryIndex) : Option HistoryIndex := (reindexFrom 0 h.entries h.index).map fun index => ⟨h.entries, index⟩

def insert (h : HistoryIndex) (cmd : Text) : Option HistoryIndex :=
  match h.index.get? cmd with
  | some rank =>
    if rank.position < h.entries.length then
      reindex ⟨h.entries.eraseIdx rank.position ++ [cmd], h.index.insert cmd { rank with uses := saturatingSucc rank.uses }⟩
    else none
  | none =>
    let entries := h.entries ++ [cmd]
    let index := h.index.insert cmd ⟨1, entries.length - 1⟩
    if historyMax < entries.length then
      let drop := entries.length - historyMax
      reindex ⟨entries.drop drop, (entries.take drop).foldl (fun index removed => index.erase removed) index⟩
    else some ⟨entries, index⟩

/-! ### Hints -/

/-- The loop of `hint_with_cancel`. -/
def hintLoop (cancelled : ℕ → Bool) (start : Text) : ℕ → Option (HistoryRank × Text) → List (Text × HistoryRank) → Option Text
  | _, best, [] => best.map Prod.snd
  | call, best, (cmd, rank) :: rest =>
    if cancelled call then none
    else if !start.isPrefixOf cmd then best.map Prod.snd
    else if cmd.length = start.length then hintLoop cancelled start (call + 1) best rest
    else
      hintLoop cancelled start (call + 1)
        (if best.all fun b => b.1 < rank then some (rank, cmd.drop start.length) else best) rest

def hintWithCancel (h : HistoryIndex) (start : Text) (cancelled : ℕ → Bool) : Option Text :=
  if start = [] then none else hintLoop cancelled start 0 none (h.index.range start)

def hint (h : HistoryIndex) (start : Text) : Option Text := h.hintWithCancel start fun _ => false

/-- The highest rank first. -/
def sortRanked (matches_ : List (HistoryRank × Text)) : List (HistoryRank × Text) := matches_.mergeSort fun a b => b.1 ≤ a.1

/-- A command, and what it has after the start. -/
def hints (h : HistoryIndex) (start : Text) (limit : ℕ) : List (Text × Text) :=
  if start = [] ∨ limit = 0 then []
  else
    let extending := ((h.index.range start).takeWhile fun e => start.isPrefixOf e.1).filter fun e => e.1.length ≠ start.length
    ((sortRanked (extending.map fun e => (e.2, e.1))).take limit).map fun e => (e.2, e.2.drop start.length)

/-- The entries that are looked at, and the number of calls. -/
def takeUncancelled (cancelled : ℕ → Bool) : ℕ → List Text → List Text × ℕ
  | call, [] => ([], call)
  | call, command :: commands =>
    if cancelled call then ([], call + 1)
    else
      let rest := takeUncancelled cancelled (call + 1) commands
      (command :: rest.1, rest.2)

/-- A search in a pool. -/
def searchWithCancel (score : Text → Text → Option ℕ) (h : HistoryIndex) (text : Text) (limit : ℕ) (cancelled : ℕ → Bool) :
    Option (List Text) :=
  let taken := takeUncancelled cancelled 0 h.entries
  let scored := taken.1.filter fun command => command ≠ text && (score text command).isSome
  match scored.mapM fun command => (h.index.get? command).map fun rank => (rank, command) with
  | none => none
  | some matches_ => if cancelled taken.2 then some [] else some (((sortRanked matches_).take limit).map Prod.snd)

end HistoryIndex

/-! ### Scopes -/

inductive HistoryScope where
  | Local
  | wsl (distro : Text)
  | ssh (destination : Text)
  deriving DecidableEq

def normalizeIdentity (identity : Text) : Text := .toAsciiLowercase (.trim identity)

def normalizeSshIdentity (destination : Text) : Text :=
  let destination := Text.trim destination
  match Text.rsplitOnce '@' destination with
  | some (user, host) => user ++ '@' :: Text.toAsciiLowercase host
  | none => .toAsciiLowercase destination

namespace HistoryScope

def normalized : HistoryScope → HistoryScope
  | Local => Local
  | wsl distro => wsl (normalizeIdentity distro)
  | ssh destination => ssh (normalizeSshIdentity destination)

def identity : HistoryScope → Option Text
  | Local => none
  | wsl identity | ssh identity => some identity

end HistoryScope

/-- The files, one for each kind of scope. -/
inductive HistoryFile where
  | Local
  | wsl
  | ssh
  deriving DecidableEq

def HistoryScope.fileName : HistoryScope → HistoryFile
  | Local => .Local
  | wsl _ => .wsl
  | ssh _ => .ssh

/-! ### Records -/

/-- A member of a record. -/
inductive Scalar where
  | number (n : UInt64)
  | string (t : Text)

def Scalar.json : Scalar → Json
  | number n => .int n.toNat
  | string t => .string t

/-- How records are written, and lines are read. -/
class RecordJson where
  write : List (Text × Scalar) → Text
  fromStr : Text → Option Json
  fromStr_write : ∀ {record : List (Text × Scalar)}, (record.map Prod.fst).Nodup →
    fromStr (write record) = some (.object (record.map fun m => (m.1, m.2.json)))
  ge_of_mem_write : ∀ {record : List (Text × Scalar)} {c : Char}, c ∈ write record → 32 ≤ c.toNat

/-- What `append` writes. -/
def recordOf (scope : HistoryScope) (cmd cwd : Text) (ts : UInt64) : List (Text × Scalar) :=
  [("ts".toList, .number ts), ("cwd".toList, .string cwd), ("cmd".toList, .string cmd)] ++
    match scope with
    | .Local => []
    | .wsl identity => [("scope".toList, .string "wsl".toList), ("target".toList, .string identity)]
    | .ssh identity => [("scope".toList, .string "ssh".toList), ("target".toList, .string identity)]

variable [RecordJson]

/-- The scope that a record gives in a file. -/
def recordScope (category : HistoryFile) (scope : Option Text) (target : Text) : Option HistoryScope :=
  match category with
  | .Local => if scope = none then some .Local else none
  | .wsl => if scope = some "wsl".toList ∧ Text.trim target ≠ [] then some (.wsl target) else none
  | .ssh => if scope = some "ssh".toList ∧ Text.trim target ≠ [] then some (.ssh target) else none

def parseRecord (category : HistoryFile) (line : Text) : Option (HistoryScope × Text) :=
  match RecordJson.fromStr line with
  | none => none
  | some value =>
    match (value.get? "cmd".toList).bind Json.asStr with
    | none => none
    | some raw =>
      let cmd := Text.trim raw
      if cmd = [] then none
      else
        let scope := (value.get? "scope".toList).bind Json.asStr
        let target := ((value.get? "target".toList).bind Json.asStr).getD []
        (recordScope category scope target).map fun scope => (scope.normalized, cmd)

/-! ### The history and its files -/

abbrev Pools := Assoc.Map HistoryScope HistoryIndex

/-- `entry(scope).or_default()`, and an insertion. -/
def insertIn (pools : Pools) (scope : HistoryScope) (cmd : Text) : Option Pools :=
  (((pools.get? scope).getD .empty).insert cmd).map fun pool => pools.insert scope pool

/-- The pools and the files. -/
structure State where
  pools : Pools
  files : HistoryFile → Text

def State.empty : State := ⟨.empty, fun _ => []⟩

/-- A submission of a command. -/
structure Submission where
  scope : HistoryScope
  cmd : Text
  cwd : Text
  /-- The time. -/
  ts : UInt64

/-- `append`. -/
def appendRecord (files : HistoryFile → Text) (scope : HistoryScope) (cmd cwd : Text) (ts : UInt64) : HistoryFile → Text :=
  fun file => if file = scope.fileName then files file ++ RecordJson.write (recordOf scope cmd cwd ts) ++ ['\n'] else files file

def State.record (s : State) (submission : Submission) : Option State :=
  let scope := submission.scope.normalized
  let cmd := Text.trim submission.cmd
  if cmd = [] then some s
  else (insertIn s.pools scope cmd).map fun pools => ⟨pools, appendRecord s.files scope cmd submission.cwd submission.ts⟩

/-- The loop of `load_file`. -/
def loadLines (category : HistoryFile) : Pools → List Text → Option Pools
  | pools, [] => some pools
  | pools, line :: lines =>
    match parseRecord category line with
    | none => loadLines category pools lines
    | some (scope, cmd) => (insertIn pools scope cmd).bind fun pools => loadLines category pools lines

def load (files : HistoryFile → Text) : Option Pools :=
  [HistoryFile.Local, .wsl, .ssh].foldlM (fun pools file => loadLines file pools (Text.lines (files file))) Assoc.Map.empty

/-! ### Suggestions from the history -/

def hint (pools : Pools) (scope : HistoryScope) (start : Text) :
    Option Text := (pools.get? scope.normalized).bind fun pool => pool.hint start

def hints (pools : Pools) (scope : HistoryScope) (start : Text) (limit : ℕ) : List (Text × Text) :=
  match pools.get? scope.normalized with
  | none => []
  | some pool => pool.hints start limit

def searchWithCancel (score : Text → Text → Option ℕ) (pools : Pools) (scope : HistoryScope) (text : Text) (limit : ℕ)
    (cancelled : ℕ → Bool) : Option (List Text) :=
  if Text.trim text = [] ∨ limit = 0 then some []
  else
    match pools.get? scope.normalized with
    | none => some []
    | some pool => pool.searchWithCancel score text limit cancelled

def search (score : Text → Text → Option ℕ) (pools : Pools) (scope : HistoryScope) (text : Text) (limit : ℕ) : Option (List Text) :=
  searchWithCancel score pools scope text limit fun _ => false

end Pebrel.Suggestions.History
