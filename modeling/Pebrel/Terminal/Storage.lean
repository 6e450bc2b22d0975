import Pebrel.Terminal.Row
import Pebrel.Library.Ring

/-!
# Storage

The ring buffer that holds the rows of a grid (`grid/storage.rs`). `zero` is the
place of the bottommost row; the rows go up from there, around the end of
`inner` back to its start. The first `len` of them are the logical rows, the
rest is a cache of rows ready for use.

## The model

Where the source's indices panic, `get` has no value and writes do nothing.
Lines are integers; that their `i32` does not overflow is not part of the model.
-/

namespace Pebrel.Terminal

def minCacheSize : ℕ := 32

def maxCacheSize : ℕ := 128

structure Storage (T : Type) where
  inner : List (Row T)
  /-- The place of the bottommost row in `inner`. -/
  zero : ℕ
  /-- Number of visible lines. -/
  visibleLines : ℕ
  /-- Total number of lines, scrollback and visible. -/
  len : ℕ
  /-- Rows may hold content that must be released when they leave the logical range. -/
  mayHaveTransientContent : Bool

namespace Storage

section
variable {T : Type}

/-- `Storage::cache_size`: `visible_lines.clamp(MIN_CACHE_SIZE, MAX_CACHE_SIZE)`. -/
def cacheSize (s : Storage T) : ℕ := max minCacheSize (min s.visibleLines maxCacheSize)

def rezero (s : Storage T) : Storage T := { s with inner := s.inner.rotate s.zero, zero := 0 }

def truncate (s : Storage T) : Storage T :=
  let s := s.rezero
  { s with inner := s.inner.take s.len }

/-- How many rows above the bottommost one `requested` is. -/
def positive (s : Storage T) (requested : ℤ) : ℕ := ((s.visibleLines : ℤ) - requested - 1).toNat

def computeIndex (s : Storage T) (requested : ℤ) : ℕ :=
  let zeroed := s.zero + s.positive requested
  if zeroed ≥ s.inner.length then zeroed - s.inner.length else zeroed

/-- `storage[line]`. -/
def get (s : Storage T) (line : ℤ) : Option (Row T) := s.inner[s.computeIndex line]?

/-- A write through `storage[line]`. -/
def modify (s : Storage T) (line : ℤ) (f : Row T → Row T) : Storage T :=
  { s with inner := s.inner.modify (s.computeIndex line) f }

def swap (s : Storage T) (a b : ℤ) : Storage T :=
  match s.get a, s.get b with
  | some ra, some rb =>
    { s with inner := (s.inner.set (s.computeIndex a) rb).set (s.computeIndex b) ra }
  | _, _ => s

def replaceInner (s : Storage T) (vec : List (Row T)) : Storage T :=
  { s with len := vec.length, inner := vec, zero := 0 }

/-- `Storage::take_all`: the storage without rows, and its logical rows, bottommost first. -/
def takeAll (s : Storage T) : Storage T × List (Row T) :=
  let s := s.truncate
  ({ s with inner := [], len := 0 }, s.inner)

end

variable {T : Type} [GridCell T]

def withCapacity (visibleLines columns : ℕ) : Storage T where
  inner := .replicate visibleLines (.new columns)
  zero := 0
  visibleLines
  len := visibleLines
  mayHaveTransientContent := true

/-- `Storage::initialize`. -/
def initializeRows (s : Storage T) (additionalRows columns : ℕ) : Storage T :=
  let s :=
    if s.len + additionalRows > s.inner.length then
      let s := s.rezero
      { s with inner := s.inner ++ .replicate (max additionalRows s.cacheSize) (.new columns) }
    else s
  { s with len := s.len + additionalRows }

/-- Discard the rows of `inner` at the places that `p` picks. -/
def discardWhere (inner : List (Row T)) (p : ℕ → Bool) : List (Row T) :=
  inner.mapIdx fun i r => if p i then r.discard else r

/-- `Storage::shrink_lines`: the rows from `len - shrinkage` up leave the logical range. -/
def shrinkLines (s : Storage T) (shrinkage : ℕ) : Storage T :=
  let inner :=
    if s.mayHaveTransientContent then
      -- `index` runs over the places of the rows `len - shrinkage .. len`
      discardWhere s.inner fun index =>
        (List.range shrinkage).any fun k => (s.zero + (s.len - shrinkage + k)) % s.inner.length == index
    else s.inner
  let s := { s with inner, len := s.len - shrinkage }
  if s.inner.length > s.len + s.cacheSize then s.truncate else s

def growVisibleLines (s : Storage T) (next : ℕ) : Storage T :=
  let additionalLines := next - s.visibleLines
  let columns := ((s.get 0).map Row.len).getD 0
  { s.initializeRows additionalLines columns with visibleLines := next }

def shrinkVisibleLines (s : Storage T) (next : ℕ) : Storage T :=
  let shrinkage := s.visibleLines - next
  { s with visibleLines := next }.shrinkLines shrinkage

/-- `Storage::rotate`: `zero` moves by `count`; rows that leave the logical range by this
are discarded. -/
def rotate (s : Storage T) (count : ℤ) : Storage T :=
  let len := s.inner.length
  let newZero := (s.zero + count + len).toNat % len
  let inner :=
    if s.mayHaveTransientContent then
      let candidates := min count.natAbs s.len
      let start := if count < 0 then s.len - candidates else 0
      discardWhere s.inner fun index =>
        ((List.range candidates).any fun k => (s.zero + (start + k)) % len == index) &&
          decide ((index + len - newZero) % len ≥ s.len)
    else s.inner
  { s with inner, zero := newZero }

def rotateDown (s : Storage T) (count : ℕ) : Storage T := s.rotate count

end Storage

end Pebrel.Terminal
