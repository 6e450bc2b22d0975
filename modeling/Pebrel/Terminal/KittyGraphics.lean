import Pebrel.Library.Assoc
import Pebrel.Terminal.KittyControl

/-!
# The store of Kitty images

Programs send images to the terminal and place them on the grid (`kitty_graphics.rs`). The store
has the images with the bytes that they cost, and forgets old ones for new ones; it has the
placements of each image, and the transfer that is under way.

## The model

Cells of the grid hold the placements, and the store refers to them weakly. So a command comes
with what the grid holds at that time, whatever it is (`Screen`), and the store records which
identities it has invalidated. The decoding of base 64 and the geometry, which computes with
floating-point numbers, are parameters.
-/

namespace Pebrel.Terminal.Kitty

open Library

def maxEncodedBytes : ℕ := 24 * 1024 * 1024
def maxImages : ℕ := 16
def maxImageBytes : ℕ := 128 * 1024 * 1024
def maxImageCells : ℕ := 16 * 1024
def altKey : ℕ := 2 ^ 63
def anonymousKey : ℕ := 2 ^ 32

structure Bitmap where
  pixels : Bytes
  width : ℕ
  height : ℕ
  channels : ℕ
  cost : ℕ
  deleteWhenUnplaced : Bool
  deriving DecidableEq

structure Transfer where
  key : ℕ
  control : Control
  encoded : Bytes

structure WindowSize where
  numCols : ℕ
  numLines : ℕ
  cellWidth : ℕ
  cellHeight : ℕ

/-- A placement and the image that it shows, by their identities. -/
structure KittyPlacement where
  id : ℕ
  resource : ℕ

structure KittyGraphics where
  current : Option Transfer
  images : Assoc.Map ℕ Bitmap
  identities : Assoc.Map ℕ ℕ
  placements : Assoc.Map (ℕ × ℕ) KittyPlacement
  imageOrder : List ℕ
  imageBytes : ℕ
  published : List ℕ
  viewport : Option WindowSize
  anonymous : ℕ
  /-- The identities that were invalidated. -/
  invalid : List ℕ

/-- The terminal when a command comes: what cells hold, which placements are on the screen, and the
identities that are drawn next. -/
structure Screen where
  alt : Bool
  columns : ℕ
  lines : ℕ
  held : ℕ → Bool
  visible : List ℕ
  fresh : ℕ × ℕ

/-- What is sent to the program: the identifiers and the error. -/
abbrev Message := ℕ × Option ℕ × Option KittyError

namespace Screen

def key (screen : Screen) : ℕ := if screen.alt then altKey else 0

end Screen

def empty (viewport : Option WindowSize) (invalid : List ℕ) :
    KittyGraphics := ⟨none, .empty, .empty, .empty, [], 0, [], viewport, 0, invalid⟩

namespace KittyGraphics

variable (screen : Screen)

/-- Is the placement held by a cell, and valid? -/
def isAlive (g : KittyGraphics) (p : KittyPlacement) : Bool :=
  screen.held p.id && !g.invalid.contains p.id && !g.invalid.contains p.resource

/-- The identities of these that are held are invalidated. -/
def invalidate (g : KittyGraphics) (ids : List ℕ) : KittyGraphics := { g with invalid := ids.filter screen.held ++ g.invalid }

def hasPlacements (g : KittyGraphics) (key : ℕ) : Bool :=
  g.placements.entries.any fun e => decide (e.1.1 = key) && g.isAlive screen e.2

def forget (g : KittyGraphics) (key : ℕ) : KittyGraphics :=
  let removed := (g.identities.get? key).toList ++ (g.placements.entries.filter fun e => e.1.1 = key).map fun e => e.2.id
  { g.invalidate screen removed with
    identities := g.identities.filterKeys (· ≠ key)
    placements := g.placements.filterKeys (·.1 ≠ key)
    published := g.published.filter (· ≠ key)
    images := g.images.filterKeys (· ≠ key)
    imageBytes := g.imageBytes - ((g.images.get? key).map Bitmap.cost).getD 0
    imageOrder := g.imageOrder.filter (· ≠ key) }

/-- The resource of the identity is held, and valid. -/
def identityAlive (g : KittyGraphics) (id : ℕ) : Bool := screen.held id && !g.invalid.contains id

def pruneDead (g : KittyGraphics) : KittyGraphics :=
  let dead := (g.identities.entries.filter fun e => !g.identityAlive screen e.2).map Prod.fst
  let pruned := { g with identities := g.identities.filterKeys (!dead.contains ·), published := g.published.filter (!dead.contains ·) }
  let retired := (pruned.images.entries.filter fun e => e.2.deleteWhenUnplaced && !pruned.hasPlacements screen e.1).map Prod.fst
  retired.foldl (fun g key => g.forget screen key) pruned

def reset (g : KittyGraphics) : KittyGraphics := empty g.viewport (g.invalidate screen (g.identities.entries.map Prod.snd)).invalid

/-! ### Transfers -/

/-- The bytes that are accepted of an encoded image. -/
def maximum (control : Control) (pixels : ℕ) : ℕ := min ((pixels * control.channels + 2) / 3 * 4) maxEncodedBytes

def decode (base64 : Bytes → Option Bytes) (control : Control) (encoded : Bytes) : Except KittyError Bytes :=
  match control.dimensions with
  | .error e => .error e
  | .ok (_, _, pixels) =>
    if maximum control pixels < encoded.length then .error .e2big
    else
      match base64 encoded with
      | none => .error .einval
      | some decoded => if decoded.length = pixels * control.channels then .ok decoded else .error .einval

/-- The image that is forgotten next: the oldest one without placements, or the oldest one. -/
def candidate (g : KittyGraphics) : Option ℕ := (g.imageOrder.find? fun key => !g.hasPlacements screen key).or g.imageOrder.head?

/-- Images are forgotten until there is room; in each round one at least. -/
def makeRoom (cost : ℕ) : ℕ → KittyGraphics → KittyGraphics
  | 0, g => g
  | n + 1, g =>
    if maxImages ≤ g.images.entries.length ∨ maxImageBytes < g.imageBytes + cost then
      match g.candidate screen with
      | none => g
      | some oldest => makeRoom cost n (g.forget screen oldest)
    else g

/-- An image is stored under its key. -/
def store (g : KittyGraphics) (key : ℕ) (bitmap : Bitmap) : KittyGraphics :=
  { g with
    imageBytes := g.imageBytes + bitmap.cost
    imageOrder := g.imageOrder ++ [key]
    images := g.images.insert key bitmap }

/-! ### Placements -/

/-- What a placement is computed from; whether it has a size is the answer of the geometry. -/
def placement (geometry : Control → ℕ → ℕ → WindowSize → Bool) (control : Control) (bitmap : Bitmap)
    (viewport : WindowSize) : Except KittyError Unit :=
  if bitmap.width ≤ control.x ∨ bitmap.height ≤ control.y then .error .einval
  else if max viewport.cellWidth 1 ≤ control.offsetX ∨ max viewport.cellHeight 1 ≤ control.offsetY then .error .einval
  else if geometry control bitmap.width bitmap.height viewport then .ok ()
  else .error .enospc

def place (geometry : Control → ℕ → ℕ → WindowSize → Bool) (g : KittyGraphics) (key : ℕ) (control : Control) :
    KittyGraphics × Except KittyError Unit :=
  let g := if maxImageCells ≤ g.placements.entries.length then { g with placements := g.placements.retain (g.isAlive screen) } else g
  match g.images.get? key with
  | none => (g, .error .enoent)
  | some bitmap =>
    let viewport := g.viewport.getD ⟨screen.columns, screen.lines, 9, 20⟩
    let resource := ((g.identities.get? key).filter (g.identityAlive screen)).getD screen.fresh.1
    let identity := screen.fresh.2
    match placement geometry control bitmap viewport with
    | .error e => (g, .error e)
    | .ok _ =>
      let slot := control.reply.placement.getD (altKey ||| identity)
      if g.placements.containsKey (key, slot) = false ∧ maxImageCells ≤ g.placements.entries.length then (g, .error .enospc)
      else
        let g := g.invalidate screen ((g.placements.get? (key, slot)).map KittyPlacement.id).toList
        ({ g with
            placements := g.placements.insert (key, slot) ⟨identity, resource⟩
            identities := g.identities.insert key resource
            published := g.published.filter (· ≠ key) }, .ok ())

def receive (base64 : Bytes → Option Bytes) (geometry : Control → ℕ → ℕ → WindowSize → Bool) (g : KittyGraphics)
    (transfer : Transfer) (data : Bytes) :
    KittyGraphics × Option Message :=
  let control := transfer.control
  match control.dimensions with
  | .error e => (g, control.reply.message (.error e))
  | .ok (width, height, pixels) =>
    if maximum control pixels - transfer.encoded.length < data.length then (g, control.reply.message (.error .e2big))
    else
      let encoded := transfer.encoded ++ data
      if control.more then ({ g with current := some { transfer with encoded := encoded } }, none)
      else
        match decode base64 control encoded with
        | .error e => (g, control.reply.message (.error e))
        | .ok decoded =>
          if control.action = some (code 'q') then (g, control.reply.message (.ok ()))
          else
            let cost := pixels * 4
            let forgotten := g.forget screen transfer.key
            let g := forgotten.makeRoom screen cost forgotten.imageOrder.length
            let g := g.store transfer.key ⟨decoded, width, height, control.channels, cost, false⟩
            if control.action = some (code 'T') then
              let (g, result) := place screen geometry g transfer.key control
              (g, control.reply.message result)
            else (g, control.reply.message (.ok ()))

/-! ### Deletion -/

def toAsciiLowercase (b : UInt8) : UInt8 := if 65 ≤ b ∧ b ≤ 90 then b + 32 else b

/-- The placements that a deletion names. -/
def selects (control : Control) (selected : Option ℕ) (e : (ℕ × ℕ) × KittyPlacement) : Bool :=
  screen.held e.2.id && decide (e.1.1 &&& altKey = screen.key) && decide (selected = none ∨ selected = some e.1.1) &&
    decide (control.reply.placement = none ∨ control.reply.placement = some e.1.2) && (selected.isSome || screen.visible.contains e.2.id)

/-- The images of a deletion are freed, now or when they have no placement any more. -/
def free (g : KittyGraphics) (key : ℕ) : KittyGraphics :=
  if g.hasPlacements screen key then
    { g with images := (g.images.get? key).elim g.images fun bitmap => g.images.insert key { bitmap with deleteWhenUnplaced := true } }
  else g.forget screen key

/-- The placements that are named are removed, and dead ones; and the images of an upper-case selector are freed. -/
def removePlacements (g : KittyGraphics) (control : Control) (selected : Option ℕ) : KittyGraphics :=
  let matching := g.placements.entries.filter (selects screen control selected)
  let g := g.invalidate screen (matching.map fun e => e.2.id)
  let g := { g with placements := g.placements.retain (g.isAlive screen) }
  let affected := (matching.map fun e => e.1.1) ++ selected.toList
  if 65 ≤ control.selector ∧ control.selector ≤ 90 then affected.foldl (free screen) g else g

def delete (g : KittyGraphics) (control : Control) : KittyGraphics × Option Message :=
  if toAsciiLowercase control.selector = code 'a' then (removePlacements screen g control none, none)
  else if toAsciiLowercase control.selector = code 'i' then
    match control.reply.id with
    | some id => (removePlacements screen g control (some (screen.key ||| id)), none)
    | none => (g, none)
  else (g, control.reply.message (.error .enotsup))

/-! ### Commands -/

/-- Does the control continue the transfer? -/
def continues (control : Control) (transfer : Transfer) : Bool :=
  decide (control.action = none ∨ control.action = some (code 't') ∨ control.action = some (code 'T')) && control.width.isNone &&
    control.height.isNone && decide (control.reply.id = none ∨ control.reply.id = transfer.control.reply.id) &&
    decide (transfer.key &&& altKey = screen.key)

/-- A transfer begins; a half one before it ends. -/
def begin (base64 : Bytes → Option Bytes) (geometry : Control → ℕ → ℕ → WindowSize → Bool) (g : KittyGraphics)
    (control : Control) (data : Bytes) :
    KittyGraphics × Option Message :=
  let g := { g with current := none }
  match control.dimensions with
  | .error e => (g, control.reply.message (.error e))
  | .ok _ =>
    match control.reply.id with
    | some id => receive screen base64 geometry g ⟨screen.key ||| id, control, []⟩ data
    | none =>
      let anonymous := (g.anonymous + 1) % anonymousKey
      receive screen base64 geometry { g with anonymous := anonymous } ⟨screen.key ||| (anonymousKey ||| anonymous), control, []⟩ data

/-- What a well-formed command does after the dead are pruned. -/
def execute (base64 : Bytes → Option Bytes) (geometry : Control → ℕ → ℕ → WindowSize → Bool) (g : KittyGraphics)
    (control : Control) (data : Bytes) :
    KittyGraphics × Option Message :=
  match g.current.filter (continues screen control) with
  | some transfer =>
    let reply := { transfer.control.reply with quiet := control.quiet.getD transfer.control.reply.quiet }
    receive screen base64 geometry { g with current := none }
      { transfer with control := { transfer.control with reply := reply, more := control.more } } data
  | none =>
    let action := control.action.getD (code 't')
    if action = code 't' ∨ action = code 'T' ∨ action = code 'q' then begin screen base64 geometry g control data
    else if action = code 'p' then
      match control.reply.id with
      | none => (g, control.reply.message (.error .einval))
      | some id =>
        let (g, result) := place screen geometry g (screen.key ||| id) control
        (g, control.reply.message result)
    else if action = code 'd' then delete screen { g with current := none } control
    else (g, none)

def graphic (base64 : Bytes → Option Bytes) (geometry : Control → ℕ → ℕ → WindowSize → Bool) (g : KittyGraphics) (bytes data : Bytes) :
    KittyGraphics × Option Message :=
  if singleQuery bytes then
    (g, (Reply.read bytes).message ((Control.parse bytes).bind fun control => (decode base64 control data).map fun _ => ()))
  else
    match Control.parse bytes with
    | .error e => (if isDelete bytes then { g with current := none } else g, (Reply.read bytes).message (.error e))
    | .ok control => execute screen base64 geometry (g.pruneDead screen) control data

/-- `flush`: images that have come onto the screen are published. -/
def flush (g : KittyGraphics) : KittyGraphics :=
  let g := g.pruneDead screen
  let shown := (g.identities.entries.filter fun e => !g.published.contains e.1 && screen.held e.2 &&
    g.images.containsKey e.1 && g.hasPlacements screen e.1)
  { g with published := g.published ++ shown.map Prod.fst }

end KittyGraphics

/-! ### Runs -/

inductive Action where
  | graphic (screen : Screen) (bytes data : Bytes)
  | flush (screen : Screen)
  | resize (size : WindowSize)
  | reset (screen : Screen)

def step (base64 : Bytes → Option Bytes) (geometry : Control → ℕ → ℕ → WindowSize → Bool) (g : KittyGraphics) : Action → Option KittyGraphics
  | .graphic screen bytes data => some (g.graphic screen base64 geometry bytes data).1
  | .flush screen => some (g.flush screen)
  | .resize size => some { g with viewport := some size }
  | .reset screen => some (g.reset screen)

end Pebrel.Terminal.Kitty
