import Pebrel.Hooks.Fingerprint
import Pebrel.Library.Crash
import Pebrel.Library.Transition

/-!
# Managed files

Some agents are given a file of their own (`ai_hook/local/managed_files.rs`). An installed
file is replaced by a later version, and a file of the older name moves to the new one, if the
program wrote it: its content is the one to be installed, or one of the old releases, or the
marker beside it holds its fingerprint.

## The model

The four files are those at the two names and their markers. The program may be cut off before
each of its writes, and someone may edit the files between two calls. `begun` is a ghost: the
content that was written last, as long as nothing but an install of the same content
recognises it.
-/

namespace Pebrel.Hooks.Managed

open Library

structure Files where
  path : Option Bytes
  legacy : Option Bytes
  marker : Option Bytes
  legacyMarker : Option Bytes
  /-- What was written and is not recognised by its marker yet. -/
  begun : Option Bytes

inductive Install where
  | installed
  | current
  | conflict
  deriving DecidableEq

inductive Removal where
  /-- The error for files that are not its own. -/
  | preserved
  | done (removed : Bool)

section
variable (digest : Bytes → Bytes) (legacyHashes : List Text)

/-- `is_owned`, with the marker's content. -/
def isOwned (marker : Option Bytes) (expected content : Bytes) : Bool :=
  decide (content = expected) || decide (fingerprint digest content ∈ legacyHashes) ||
    decide (markerValue marker = some (fingerprint digest content))

def conflicts (expected : Bytes) (files : Files) : Bool :=
  files.path.any (fun content => !isOwned digest legacyHashes files.marker expected content) ||
    files.legacy.any (fun content => !isOwned digest legacyHashes files.legacyMarker expected content)

/-- The file of the older name is renamed, or removed where there is one of the new name. -/
def moveLegacy (files : Files) : Cut Files Unit :=
  if files.legacy.isSome then
    if files.path.isNone then .write fun f => { f with path := f.legacy, legacy := none, begun := none }
    else .write fun f => { f with legacy := none }
  else pure ()

/-- The content is written; nothing is begun by it if its marker has the fingerprint already. -/
def writeContent (content : Bytes) : Cut Files Unit :=
  .write fun f => { f with
    path := some content
    begun := if markerValue f.marker = some (fingerprint digest content) then none else some content }

def writeMarker (content : Bytes) : Cut Files Unit :=
  .write fun f => { f with marker := some (markerLine (fingerprint digest content)), begun := none }

def install (content : Bytes) : Cut Files Install :=
  .look >>= fun files =>
    if conflicts digest legacyHashes content files then pure .conflict
    else do
      moveLegacy files
      let now ← .look
      if files.legacy = none ∧ files.path = some content ∧ markerValue now.marker = some (fingerprint digest content) then pure .current
      else do
        writeContent digest content
        writeMarker digest content
        pure .installed

/-- Remove the file at the name, and its marker. -/
def removePath (files : Files) : Cut Files Unit :=
  if files.path.isSome then do
    .write fun f => { f with path := none, begun := none }
    let now ← .look
    if now.marker.isSome then .write fun f => { f with marker := none } else pure ()
  else pure ()

def removeLegacy (files : Files) : Cut Files Unit :=
  if files.legacy.isSome then do
    .write fun f => { f with legacy := none }
    let now ← .look
    if now.legacyMarker.isSome then .write fun f => { f with legacyMarker := none } else pure ()
  else pure ()

def remove (content : Bytes) : Cut Files Removal :=
  .look >>= fun files =>
    if conflicts digest legacyHashes content files then pure .preserved
    else do
      removePath files
      removeLegacy files
      pure (.done (files.path.isSome || files.legacy.isSome))

end

/-! ### Runs -/

inductive File where
  | path
  | legacy
  | marker
  | legacyMarker

def Files.get (files : Files) : File → Option Bytes
  | .path => files.path
  | .legacy => files.legacy
  | .marker => files.marker
  | .legacyMarker => files.legacyMarker

/-- Someone else writes or deletes a file. -/
def Files.edit (files : Files) (content : Option Bytes) : File → Files
  | .path => { files with path := content, begun := none }
  | .legacy => { files with legacy := content }
  | .marker => { files with marker := content }
  | .legacyMarker => { files with legacyMarker := content }

inductive Action where
  /-- A version, with its table of old releases, is installed; it is cut off before a write, or not. -/
  | install (legacyHashes : List Text) (content : Bytes) (cut : Option ℕ)
  | remove (legacyHashes : List Text) (content : Bytes) (cut : Option ℕ)
  | edit (file : File) (content : Option Bytes)

def step (digest : Bytes → Bytes) (files : Files) : Action → Option Files
  | .install legacyHashes content cut => some ((install digest legacyHashes content).run cut files).1
  | .remove legacyHashes content cut => some ((remove digest legacyHashes content).run cut files).1
  | .edit file content => some (files.edit content file)

/-- Nothing is installed, or a file of an old release is there, under one of the names. -/
structure Initial (digest : Bytes → Bytes) (released : List Text) (files : Files) : Prop where
  path : ∀ content, files.path = some content → fingerprint digest content ∈ released
  legacy : ∀ content, files.legacy = some content → fingerprint digest content ∈ released
  marker : files.marker = none
  legacyMarker : files.legacyMarker = none
  begun : files.begun = none

end Pebrel.Hooks.Managed
