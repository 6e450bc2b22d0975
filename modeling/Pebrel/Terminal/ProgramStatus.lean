import Mathlib.Data.List.DropRight

/-!
# Program status

The status reports that programs send to a terminal with OSC 7501
(`program_status.rs`): how the body of a report is read, and the records the
terminal keeps of them, under hierarchical ids and the least recently updated
first.

## The model

A text is its UTF-8 bytes. Base64 is a parameter: `base64` is the decoder of the
standard alphabet that takes padded and unpadded input.
-/

namespace Pebrel.Terminal.ProgramStatus

open List

abbrev Bytes := List UInt8

/-- The bytes of an ASCII text. -/
def ascii (s : String) : Bytes := s.toList.map fun c => c.toNat.toUInt8

/-- The characters of a text, when the bytes are one. -/
def chars (b : Bytes) : Option (List Char) := (String.fromUTF8? ⟨b.toArray⟩).map String.toList

inductive Status where
  | idle
  | working
  | done
  | blocked
  | error
  deriving DecidableEq

inductive BlockedKind where
  | permission
  | question
  | auth
  deriving DecidableEq

structure Record where
  /-- Empty is the root; all other ids are validated hierarchical paths. -/
  id : Bytes
  state : Status
  app : Option Bytes
  kind : Option BlockedKind
  progress : Option ℕ
  title : Option Bytes
  message : Option Bytes
  resultAcknowledged : Bool
  deriving DecidableEq

inductive Report where
  | query
  | clear (id : Bytes)
  | replace (record : Record)

/-! ### Reading a report -/

def slash : UInt8 := 0x2f

def isAsciiWhitespace (b : UInt8) : Bool := b == 0x20 || b == 0x09 || b == 0x0a || b == 0x0c || b == 0x0d

def trimAscii (b : Bytes) : Bytes := (b.dropWhile isAsciiWhitespace).rdropWhile isAsciiWhitespace

def isAsciiDigit (b : UInt8) : Bool := 0x30 ≤ b && b ≤ 0x39

def isAsciiLowercase (b : UInt8) : Bool := 0x61 ≤ b && b ≤ 0x7a

def isAsciiAlphanumeric (b : UInt8) : Bool := isAsciiDigit b || isAsciiLowercase b || 0x41 ≤ b && b ≤ 0x5a

def isControl (c : Char) : Bool := c.toNat < 0x20 || 0x7f ≤ c.toNat && c.toNat ≤ 0x9f

def identifier (value : Bytes) : Bool :=
  !value.isEmpty && value.all fun b => isAsciiAlphanumeric b || (ascii "_.+-").contains b

def text (base64 : Bytes → Option Bytes) (value : Bytes) (encodedLimit decodedLimit : ℕ) : Option Bytes := do
  if encodedLimit < value.length then none
  let bytes ← base64 value
  if decodedLimit < bytes.length then none
  let decoded ← chars bytes
  if decoded.any isControl then none else some bytes

/-- What `parse` requires of the value of `id`. -/
def validId (id : Bytes) : Bool :=
  id.length ≤ 128 && (id.splitOn slash).length ≤ 8 &&
    (id.splitOn slash).all fun part => part.length ≤ 32 && identifier part

/-- `parse::<u8>` of a text of digits. -/
def parseU8 (value : Bytes) : Option ℕ :=
  if value.isEmpty then none
  else
    let n := value.foldl (fun n b => 10 * n + (b.toNat - 0x30)) 0
    if n ≤ 255 then some n else none

/-- What the pairs read so far have set. -/
structure Draft where
  state : Option Bytes := none
  id : Bytes := []
  app : Option Bytes := none
  kind : Option BlockedKind := none
  progress : Option ℕ := none
  message : Option Bytes := none
  title : Option Bytes := none

def kindOf (value : Bytes) : Option BlockedKind :=
  if value = ascii "permission" then some .permission
  else if value = ascii "question" then some .question
  else if value = ascii "auth" then some .auth
  else none

/-- The longest value of a key, `None` where only the address space bounds it. -/
def limit (key : Bytes) : Option ℕ :=
  if key = ascii "app" then some 32
  else if key = ascii "msg" then some 2732
  else if key = ascii "title" then some 256
  else none

/-- The `match` on the key of a pair whose value is plain. -/
def assign (base64 : Bytes → Option Bytes) (d : Draft) (key value : Bytes) : Option Draft :=
  if key = ascii "state" then some { d with state := some value }
  else if key = ascii "id" then some { d with id := value }
  else if key = ascii "app" then some { d with app := if identifier value then some value else none }
  else if key = ascii "kind" then some { d with kind := kindOf value }
  else if key = ascii "progress" then
    some { d with
      progress := if value.all isAsciiDigit then (parseU8 value).filter fun v => decide (v ≤ 100) else none }
  else if key = ascii "msg" then (text base64 value 2732 2048).map fun t => { d with message := some t }
  else if key = ascii "title" then (text base64 value 256 192).map fun t => { d with title := some t }
  else some d

/-- One turn of the loop over the pairs of `parse`; `none` discards the report. -/
def readPair (base64 : Bytes → Option Bytes) (d : Draft) (pair : Bytes) : Option Draft :=
  match pair.span (· ≠ 0x3d) with
  | (_, []) => some d
  | (before, _ :: after) =>
    let key := trimAscii before
    let raw := trimAscii after
    if 16 < key.length then none
    else if key.isEmpty || !key.all isAsciiLowercase then some d
    -- Never let a malformed id address the root record.
    else if key = ascii "id" && !((chars raw).isSome && validId raw) then none
    else if (limit key).any (· < raw.length) then none
    else if !raw.all (fun b => isAsciiAlphanumeric b || (ascii "_.,+/=-").contains b) then some d
    else if (chars raw).isNone then none
    else assign base64 d key raw

/-- What becomes of the pairs when all are read. -/
def finish (d : Draft) : Option Report :=
  match d.state with
  | none => none
  | some value =>
    let record (state : Status) : Report := .replace
      { id := d.id, state, app := d.app, title := d.title, message := d.message, resultAcknowledged := false
        kind := if state = .blocked then d.kind else none
        progress := if state = .working ∨ state = .blocked then d.progress else none }
    if value = ascii "idle" then some (record .idle)
    else if value = ascii "working" then some (record .working)
    else if value = ascii "done" then some (record .done)
    else if value = ascii "blocked" then some (record .blocked)
    else if value = ascii "error" then some (record .error)
    else if value = ascii "clear" then some (.clear d.id)
    else none

def parse (base64 : Bytes → Option Bytes) (body : Bytes) : Option Report :=
  if trimAscii body = ascii "?" then some .query
  -- A reflected detection reply must never create a record or another reply.
  else if (ascii "?").isPrefixOf (body.dropWhile isAsciiWhitespace) then none
  else ((body.splitOn 0x3a).foldlM (readPair base64) {}).bind finish

/-! ### The records -/

def maxRecords : ℕ := 256

/-- `Records`: oldest update first. -/
structure Records where
  entries : List Record := []
  seen : Bool := false

/-- `id.rsplit_once('/').map_or("", |(parent, _)| parent)`. -/
def parent (id : Bytes) : Bytes := ((id.reverse.dropWhile (· ≠ slash)).drop 1).reverse

theorem length_parent_lt {id : Bytes} (h : id ≠ []) : (parent id).length < id.length := by
  have hle := (dropWhile_sublist (l := id.reverse) (· ≠ slash)).length_le
  have hp := length_pos_iff.mpr h
  rw [parent, length_reverse, length_drop]
  rw [length_reverse] at hle
  omega

/-- The loop of `app_for` over the ids above `id`. -/
def appAbove (entries : List Record) (id : Bytes) : Option Bytes :=
  if _h : id = [] then none
  else
    match (entries.find? fun entry => entry.id == parent id).bind (·.app) with
    | some app => some app
    | none => appAbove entries (parent id)
termination_by id.length
decreasing_by exact length_parent_lt _h

/-- `entry.id.strip_prefix(&id).is_some_and(|tail| tail.starts_with('/'))`. -/
def below (id entry : Bytes) : Bool := id.isPrefixOf entry && (entry.drop id.length).head? == some slash

/-- A result, which the user may acknowledge. -/
def Status.isResult (s : Status) : Bool := s = .done || s = .error

namespace Records

def appFor (r : Records) (record : Record) : Option Bytes :=
  match record.app with
  | some app => some app
  | none => appAbove r.entries record.id

/-- `apply`, with whether the records have changed. -/
def apply (r : Records) : Report → Records × Bool
  | .query => (r, false)
  | .clear id =>
    let first := !r.seen
    let entries := r.entries.filter fun entry => !(id.isEmpty || entry.id == id || below id entry.id)
    ({ entries, seen := true }, first || r.entries.length != entries.length)
  | .replace record =>
    let first := !r.seen
    if r.entries.getLast? = some record then ({ r with seen := true }, first)
    else
      let entries := match r.entries.findIdx? fun entry => entry.id == record.id with
        | some index => r.entries.eraseIdx index
        | none => if r.entries.length = maxRecords then r.entries.tail else r.entries
      ({ entries := entries ++ [record], seen := true }, true)

def commandEnded (r : Records) : Records × Bool :=
  let entries := r.entries.filter fun entry => entry.state.isResult
  ({ r with entries }, r.entries.length != entries.length)

def acknowledgeResults (r : Records) : Records × Bool :=
  let pending (entry : Record) : Bool := entry.state.isResult && !entry.resultAcknowledged
  ({ r with entries := r.entries.map fun entry => if pending entry then { entry with resultAcknowledged := true } else entry },
    r.entries.any pending)

def reset (r : Records) : Records × Bool := ({}, r.seen)

end Records

/-- What reaches the records of a terminal. -/
inductive Op where
  /-- The body of an OSC 7501. -/
  | report (body : Bytes)
  | commandEnded
  | acknowledgeResults
  | reset

namespace Records

/-- One operation. -/
def step (base64 : Bytes → Option Bytes) (r : Records) : Op → Records
  | .report body =>
    match parse base64 body with
    | some report => (r.apply report).1
    | none => r
  | .commandEnded => r.commandEnded.1
  | .acknowledgeResults => r.acknowledgeResults.1
  | .reset => r.reset.1

/-- A run of operations, from the records of a new terminal. -/
def run (base64 : Bytes → Option Bytes) (ops : List Op) : Records := ops.foldl (step base64) {}

end Records

end Pebrel.Terminal.ProgramStatus
