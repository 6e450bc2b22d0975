import Mathlib.Algebra.Order.Ring.Nat

/-!
# Graphics controls

A graphics command begins with its control, a list of keys with values
(`kitty_graphics/control.rs`).

## The model

Floating-point geometry is left out: whether a placement has a size on the screen is a
parameter where it is needed.
-/

namespace Pebrel.Terminal.Kitty

abbrev Bytes := List UInt8

/-- The errors of the protocol. -/
inductive KittyError where
  | einval
  | e2big
  | enotsup
  | enoent
  | enospc
  deriving DecidableEq

/-- The code of a character. -/
def code (c : Char) : UInt8 := c.toNat.toUInt8

/-- `value`: that of the first pair with the key. -/
def value (control : Bytes) (key : Char) : Option Bytes :=
  (control.splitOn (code ',')).findSome? fun pair =>
    match pair with
    | k :: e :: value => if k = code key ∧ e = code '=' then some value else none
    | _ => none

def singleQuery (bytes : Bytes) : Bool := decide (value bytes 'a' = some [code 'q'] ∧ value bytes 'm' ≠ some [code '1'])

def isDelete (bytes : Bytes) : Bool := decide (value bytes 'a' = some [code 'd'])

def digit (b : UInt8) : Option ℕ := if 48 ≤ b ∧ b ≤ 57 then some (b.toNat - 48) else none

def digits : ℕ → Bytes → Option ℕ
  | n, [] => some n
  | n, b :: bytes => (digit b).bind fun d => digits (10 * n + d) bytes

/-- `str::parse::<u32>`. -/
def parseU32 (bytes : Bytes) : Option ℕ :=
  let unsigned := match bytes with
    | 43 :: rest => rest
    | bytes => bytes
  if unsigned = [] then none else (digits 0 unsigned).filter fun n => decide (n < 2 ^ 32)

def number (control : Bytes) (key : Char) : Except KittyError (Option ℕ) :=
  match value control key with
  | none => .ok none
  | some bytes =>
    match parseU32 bytes with
    | some n => .ok (some n)
    | none => .error .einval

/-- The number, or nothing where there is none that is well formed. -/
def numberOk (control : Bytes) (key : Char) : Option ℕ := (number control key).toOption.join

def nonzero (n : Option ℕ) : Option ℕ := n.filter fun n => decide (n ≠ 0)

structure Reply where
  id : Option ℕ
  placement : Option ℕ
  quiet : ℕ
  deriving DecidableEq

namespace Reply

def read (control : Bytes) : Reply where
  id := nonzero (numberOk control 'i')
  placement := nonzero (numberOk control 'p')
  quiet := ((numberOk control 'q').filter fun q => decide (q ≤ 2)).getD 0

/-- `message`: the identifiers and the error that are told. -/
def message (reply : Reply) (result : Except KittyError Unit) : Option (ℕ × Option ℕ × Option KittyError) :=
  match reply.id with
  | none => none
  | some id =>
    match result with
    | .ok _ => if 1 ≤ reply.quiet then none else some (id, reply.placement, none)
    | .error e => if 2 ≤ reply.quiet then none else some (id, reply.placement, some e)

end Reply

structure Control where
  action : Option UInt8
  reply : Reply
  quiet : Option ℕ
  more : Bool
  width : Option ℕ
  height : Option ℕ
  channels : ℕ
  selector : UInt8
  columns : Option ℕ
  rows : Option ℕ
  x : ℕ
  y : ℕ
  cropWidth : Option ℕ
  cropHeight : Option ℕ
  offsetX : ℕ
  offsetY : ℕ
  keepCursor : Bool
  deriving DecidableEq

/-- Every pair has a known key, which no other one has. -/
def checkPairs : List Bytes → List UInt8 → Except KittyError Unit
  | [], _ => .ok ()
  | pair :: pairs, seen =>
    match pair with
    | [] => checkPairs pairs seen
    | key :: rest =>
      if 128 ≤ key ∨ rest.head? ≠ some (code '=') ∨ key ∈ seen then .error .einval
      else if key ∈ "aipqmsvfcdrxywhXYCtoUzI".toList.map code then checkPairs pairs (key :: seen)
      else .error .enotsup

/-- The action, if it is one that is known. -/
def parseAction (bytes : Bytes) : Except KittyError (Option UInt8) :=
  match value bytes 'a' with
  | none => .ok none
  | some [action] => if action ∈ "tTpqd".toList.map code then .ok (some action) else .error .enotsup
  | some _ => .error .einval

/-- The keys of features that are not there. -/
def checkSupported (bytes : Bytes) : Except KittyError Unit := do
  if value bytes 't' ≠ none ∧ value bytes 't' ≠ some [code 'd'] ∨ (value bytes 'o').isSome ∨ (value bytes 'I').isSome then .error .enotsup
  else do
    let unicode ← number bytes 'U'
    if unicode.getD 0 ≠ 0 ∨ (value bytes 'z' ≠ none ∧ value bytes 'z' ≠ some [code '0']) then .error .enotsup else pure ()

def parseChannels (bytes : Bytes) : Except KittyError ℕ := do
  let format ← number bytes 'f'
  if format.getD 32 = 24 then pure 3 else if format.getD 32 = 32 then pure 4 else .error .enotsup

def parseQuiet (bytes : Bytes) : Except KittyError (Option ℕ) := do
  let quiet ← number bytes 'q'
  if 2 < quiet.getD 0 then .error .einval else pure quiet

/-- A number that is 0 or 1. -/
def parseFlags (bytes : Bytes) : Except KittyError (Bool × Bool) := do
  let more ← number bytes 'm'
  let cursor ← number bytes 'C'
  if 1 < more.getD 0 ∨ 1 < cursor.getD 0 then .error .einval else pure (decide (more.getD 0 = 1), decide (cursor.getD 0 = 1))

def parseSelector (bytes : Bytes) : Except KittyError UInt8 :=
  match value bytes 'd' with
  | none => .ok (code 'a')
  | some [selector] => .ok selector
  | some _ => .error .einval

namespace Control

def parse (bytes : Bytes) : Except KittyError Control :=
  if 1024 < bytes.length then .error .e2big
  else do
    checkPairs (bytes.splitOn (code ',')) []
    let action ← parseAction bytes
    checkSupported bytes
    let channels ← parseChannels bytes
    let quiet ← parseQuiet bytes
    let (more, cursor) ← parseFlags bytes
    let id ← number bytes 'i'
    let placement ← number bytes 'p'
    let selector ← parseSelector bytes
    let width ← number bytes 's'
    let height ← number bytes 'v'
    let columns ← number bytes 'c'
    let rows ← number bytes 'r'
    let x ← number bytes 'x'
    let y ← number bytes 'y'
    let cropWidth ← number bytes 'w'
    let cropHeight ← number bytes 'h'
    let offsetX ← number bytes 'X'
    let offsetY ← number bytes 'Y'
    pure
      { action := action
        reply := ⟨nonzero id, nonzero placement, quiet.getD 0⟩
        quiet := quiet
        more := more
        width := width
        height := height
        channels := channels
        selector := selector
        columns := nonzero columns
        rows := nonzero rows
        x := x.getD 0
        y := y.getD 0
        cropWidth := nonzero cropWidth
        cropHeight := nonzero cropHeight
        offsetX := offsetX.getD 0
        offsetY := offsetY.getD 0
        keepCursor := cursor }

def maxPixels : ℕ := 16 * 1024 * 1024

/-- The width, the height, and the number of pixels. -/
def dimensions (control : Control) : Except KittyError (ℕ × ℕ × ℕ) :=
  match control.width, control.height with
  | some width, some height =>
    if width * height = 0 then .error .einval
    else if maxPixels < width * height then .error .e2big
    else .ok (width, height, width * height)
  | _, _ => .error .einval

theorem pixels_le {control : Control} {width height pixels : ℕ}
    (h : control.dimensions = .ok (width, height, pixels)) : pixels ≤ maxPixels := by
  unfold dimensions at h
  split at h
  · split at h
    · exact nomatch h
    · split at h
      · exact nomatch h
      · rename_i hle
        simp only [Except.ok.injEq, Prod.mk.injEq] at h
        obtain ⟨-, -, rfl⟩ := h
        exact Nat.not_lt.mp hle
  · exact nomatch h

end Control

end Pebrel.Terminal.Kitty
