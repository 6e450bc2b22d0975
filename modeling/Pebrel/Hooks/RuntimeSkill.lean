import Pebrel.Hooks.Fingerprint
import Pebrel.Library.Crash

/-!
# The runtime skill

Agents are told how to use the program by a skill, a directory with a text and metadata
(`ai_hook/local/runtime_skills.rs`). A marker in the directory holds the fingerprint of both; it
is written last. A directory of the older name moves to the new one. What is not recognised by
its marker stays as it is, unless it is what is to be installed anyway.

## The model

A directory has the four files that the program knows, and other files of which only the
content is kept. The program may be cut off before each of its writes. `begun` is a ghost: the
version of which a file was written last, as long as the directory is not recognised by its
marker. No text of a version has a zero byte, which stands between the two when they are
digested.
-/

namespace Pebrel.Hooks.Skill

open Library

/-- The two texts of a release. -/
structure Version where
  skill : Bytes
  metadata : Bytes
  skill_text : 0 ∉ skill
  metadata_text : 0 ∉ metadata

structure AgentsDir where
  metadata : Option Bytes
  others : List Bytes
  deriving DecidableEq

structure SkillDir where
  /-- `SKILL.md`. -/
  skill : Option Bytes
  /-- `.pebrel-managed`. -/
  marker : Option Bytes
  /-- `.nebula-managed`. -/
  oldMarker : Option Bytes
  agents : Option AgentsDir
  others : List Bytes
  deriving DecidableEq

inductive Place where
  /-- `pebrel-runtime`. -/
  | dir
  /-- `nebula-runtime`. -/
  | legacy
  deriving DecidableEq

inductive SkillFile where
  | skill
  /-- `agents/openai.yaml`. -/
  | metadata
  | marker
  | oldMarker
  deriving DecidableEq

namespace SkillDir

def new : SkillDir := ⟨none, none, none, none, []⟩

def file (d : SkillDir) : SkillFile → Option Bytes
  | .skill => d.skill
  | .metadata => d.agents.bind (·.metadata)
  | .marker => d.marker
  | .oldMarker => d.oldMarker

/-- The directory of the metadata is created where it is missing. -/
def write (d : SkillDir) (content : Bytes) : SkillFile → SkillDir
  | .skill => { d with skill := some content }
  | .metadata => { d with agents := some ⟨some content, (d.agents.map AgentsDir.others).getD []⟩ }
  | .marker => { d with marker := some content }
  | .oldMarker => { d with oldMarker := some content }

def delete (d : SkillDir) : SkillFile → SkillDir
  | .skill => { d with skill := none }
  | .metadata => { d with agents := d.agents.map fun a => { a with metadata := none } }
  | .marker => { d with marker := none }
  | .oldMarker => { d with oldMarker := none }

end SkillDir

structure Skills where
  dir : Option SkillDir
  legacy : Option SkillDir
  begun : Option Version

namespace Skills

def get (s : Skills) : Place → Option SkillDir
  | .dir => s.dir
  | .legacy => s.legacy

def set (s : Skills) (d : Option SkillDir) : Place → Skills
  | .dir => { s with dir := d }
  | .legacy => { s with legacy := d }

def file (s : Skills) (place : Place) (f : SkillFile) : Option Bytes := (s.get place).bind fun d => d.file f

/-- A file is written, in a directory that is created where it is missing. -/
def put (s : Skills) (place : Place) (f : SkillFile) (content : Bytes) : Skills :=
  s.set (some (((s.get place).getD .new).write content f)) place

def delete (s : Skills) (place : Place) (f : SkillFile) : Skills := s.set ((s.get place).map fun d => d.delete f) place

end Skills

inductive Install where
  | installed
  | current
  | conflict

inductive Removal where
  | removed
  | absent
  | conflict
  deriving DecidableEq

section
variable (digest : Bytes → Bytes)

def skillFingerprint (skill metadata : Bytes) : Text := fingerprint digest (skill ++ 0 :: metadata)

def Version.fingerprint (v : Version) : Text := skillFingerprint digest v.skill v.metadata

def readSkillFingerprint (s : Skills) (place : Place) : Option Text :=
  (s.file place .skill).bind fun skill => (s.file place .metadata).map fun metadata => skillFingerprint digest skill metadata

/-- `read_skill_marker`: the first one that can be read. -/
def readSkillMarker (s : Skills) (place : Place) : Option Text :=
  (((s.file place .marker).bind readToString).or ((s.file place .oldMarker).bind readToString)).map .trim

/-- The marker has the fingerprint of the files. -/
def owned (s : Skills) (place : Place) : Bool :=
  (readSkillFingerprint digest s place).isSome && decide (readSkillFingerprint digest s place = readSkillMarker s place)

/-! ### Removal -/

def removeFile (place : Place) (f : SkillFile) : Cut Skills Unit :=
  .look >>= fun s => if (s.file place f).isSome then .write fun s => s.delete place f else pure ()

def removeMarker (place : Place) (f : SkillFile) (marker : Text) (s : Skills) : Cut Skills Unit :=
  if markerValue (s.file place f) = some marker then removeFile place f else pure ()

/-- The directory of the metadata is removed, if nothing is left in it. -/
def removeAgentsDir (place : Place) : Cut Skills Unit :=
  .look >>= fun s =>
    if (s.get place).bind SkillDir.agents = some ⟨none, []⟩ then
      .write fun s => s.set ((s.get place).map fun d => { d with agents := none }) place
    else pure ()

def removeDir (place : Place) : Cut Skills Unit :=
  .look >>= fun s => if s.get place = some .new then .write fun s => s.set none place else pure ()

def removeSkillAt (place : Place) : Cut Skills Removal :=
  .look >>= fun s =>
    match readSkillMarker s place with
    | none => pure .absent
    | some marker =>
      if readSkillFingerprint digest s place ≠ some marker then pure .conflict
      else do
        removeFile place .skill
        removeFile place .metadata
        removeMarker place .marker marker s
        removeMarker place .oldMarker marker s
        removeAgentsDir place
        removeDir place
        pure .removed

def removeRuntimeSkill : Cut Skills Removal := do
  let current ← removeSkillAt digest .dir
  let legacy ← removeSkillAt digest .legacy
  if current = .conflict ∨ legacy = .conflict then pure .conflict
  else if current = .removed ∨ legacy = .removed then pure .removed
  else pure .absent

/-! ### Installation -/

/-- Neither text is there, or the marker recognises both, or they are those to be installed
as far as they are there. -/
def admits (v : Version) (s : Skills) : Bool :=
  ((s.file .dir .skill).isNone && (s.file .dir .metadata).isNone) || owned digest s .dir ||
    (decide (s.file .dir .skill = some v.skill) && ((s.file .dir .metadata).isNone || decide (s.file .dir .metadata = some v.metadata)))

/-- A file of the version is written. -/
def writeFile (v : Version) (f : SkillFile) (content : Bytes) : Cut Skills Unit :=
  .write fun s => { s.put .dir f content with begun := if owned digest (s.put .dir f content) .dir then none else some v }

/-- The directory of the older name is renamed, or removed where there is one of the new name. -/
def migrate (s : Skills) : Cut Skills Removal :=
  if s.legacy.isSome then
    if s.dir.isSome then removeSkillAt digest .legacy
    else .write (fun s => { dir := s.legacy, legacy := none, begun := none }) >>= fun _ => pure .removed
  else pure .absent

def removeOldMarker (removeOld : Bool) : Cut Skills Unit := if removeOld then removeFile .dir .oldMarker else pure ()

def writeVersion (v : Version) (removeOld : Bool) : Cut Skills Install := do
  writeFile digest v .skill v.skill
  writeFile digest v .metadata v.metadata
  writeFile digest v .marker (markerLine (v.fingerprint digest))
  removeOldMarker removeOld
  pure .installed

def ensureRuntimeSkill (v : Version) : Cut Skills Install :=
  .look >>= fun s =>
    if !admits digest v s || (s.legacy.isSome && !owned digest s .legacy) then pure .conflict
    else
      migrate digest s >>= fun moved =>
        if moved = .conflict then pure .conflict
        else
          .look >>= fun now =>
            if s.legacy.isNone ∧ readSkillFingerprint digest s .dir = some (v.fingerprint digest) ∧
                markerValue (now.file .dir .marker) = some (v.fingerprint digest) then pure .current
            else
              writeVersion digest v (decide (markerValue (now.file .dir .oldMarker) ≠ none ∧
                markerValue (now.file .dir .oldMarker) = readSkillFingerprint digest now .dir))

/-! ### Runs -/

inductive Action where
  /-- A version is installed; the program is cut off before a write, or not. -/
  | ensure (v : Version) (cut : Option ℕ)
  | remove (cut : Option ℕ)
  /-- Someone else changes a directory. -/
  | edit (place : Place) (d : Option SkillDir)

def step (s : Skills) : Action → Option Skills
  | .ensure v cut => some ((ensureRuntimeSkill digest v).run cut s).1
  | .remove cut => some ((removeRuntimeSkill digest).run cut s).1
  | .edit place d => some { s.set d place with begun := none }

end

/-- Nothing is installed, or an old release has left one of the two directories. -/
structure Initial (digest : Bytes → Bytes) (s : Skills) : Prop where
  dir : s.dir ≠ none → owned digest s .dir = true
  legacy : s.legacy ≠ none → s.dir = none ∧ owned digest s .legacy = true
  begun : s.begun = none

end Pebrel.Hooks.Skill
