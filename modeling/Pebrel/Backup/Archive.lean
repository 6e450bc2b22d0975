import Pebrel.Backup.Encryption
import Pebrel.Commands.SavedCommands
import Pebrel.Library.FileTree

/-!
# Restoring a backup

An archive has files of the data directory (`encrypted_backup.rs`). A restore
writes those of the selected categories, after it has saved what they replace,
encrypted, as a recovery point; if a write fails it writes back what it has read
(`recovery.rs`). The recovery point can be undone later.

## The model

The data directory is a tree of files, with names as on Unix; its symbolic links
lead to something. What the file system does in a restore is an argument: which
original cannot be read, and which call of which write fails. `serde_json` and the
cipher are parameters (`Backup.Encryption`).
-/

namespace Pebrel.Backup

open Library FileTree
open Sync (Json)
open Commands (JsonText SavedCommands)

/-- The data directory. -/
abbrev Files := Tree Text Bytes

/-! ### Archives -/

inductive BackupCategory where
  | appearance
  | config
  | ssh
  | sync
  | assistant
  | session
  | directoryHistory
  | commandHistory
  | fonts
  deriving DecidableEq

structure BackupSelection where
  appearance : Bool
  config : Bool
  ssh : Bool
  sync : Bool
  assistant : Bool
  session : Bool
  directoryHistory : Bool
  commandHistory : Bool
  fonts : Bool

def BackupSelection.categories (s : BackupSelection) : List BackupCategory :=
  ([(s.appearance, .appearance), (s.config, .config), (s.ssh, .ssh), (s.sync, .sync), (s.assistant, .assistant),
    (s.session, .session), (s.directoryHistory, .directoryHistory), (s.commandHistory, .commandHistory),
    (s.fonts, .fonts)] : List (Bool × BackupCategory)).filterMap fun c => if c.1 then some c.2 else none

structure BackupEntry where
  category : BackupCategory
  name : Text
  bytes : Bytes
  deriving DecidableEq

/-- The archive with its manifest, of which the device is not used. -/
structure BackupArchive where
  version : ℕ
  categories : List BackupCategory
  entries : List BackupEntry
  deriving DecidableEq

/-- The errors, with what their texts name. -/
inductive RestoreError where
  | unsupportedVersion
  | duplicateCategory
  | invalidEntry
  | unsafePath (name : Text)
  | notAllowed (category : BackupCategory) (name : Text)
  | nothingSelected
  | unsafeParent (path : List Text)
  | symbolicLink (name : Text)
  | readSource (name : Text)
  | encryption (error : EncryptionError)
  | recoveryDirectory
  | saveRecovery
  | restore (name : Text)
  | undo (name : Text)
  /-- The restore failed, and then the rollback did. -/
  | rollback (error undone : RestoreError) (recovery : List Text)
  | readRecovery
  | targetMismatch
  deriving DecidableEq

/-! ### Contents -/

/-- The ranges of the bytes that follow the first byte of a character in UTF-8. -/
def continuations (b : ℕ) : Option (List (ℕ × ℕ)) :=
  if b < 0x80 then some []
  else if b < 0xc2 then none
  else if b < 0xe0 then some [(0x80, 0xbf)]
  else if b = 0xe0 then some [(0xa0, 0xbf), (0x80, 0xbf)]
  else if b = 0xed then some [(0x80, 0x9f), (0x80, 0xbf)]
  else if b < 0xf0 then some [(0x80, 0xbf), (0x80, 0xbf)]
  else if b = 0xf0 then some [(0x90, 0xbf), (0x80, 0xbf), (0x80, 0xbf)]
  else if b < 0xf4 then some [(0x80, 0xbf), (0x80, 0xbf), (0x80, 0xbf)]
  else if b = 0xf4 then some [(0x80, 0x8f), (0x80, 0xbf), (0x80, 0xbf)]
  else none

/-- Take bytes as long as they are in the ranges: the bits so far, whether all are there, and the rest. -/
def takeContinuations (bits : ℕ) : List (ℕ × ℕ) → Bytes → ℕ × Bool × Bytes
  | [], bytes => (bits, true, bytes)
  | _ :: _, [] => (bits, false, [])
  | (low, high) :: ranges, b :: bytes =>
    if low ≤ b.toNat ∧ b.toNat ≤ high then takeContinuations (bits * 64 + b.toNat % 64) ranges bytes
    else (bits, false, b :: bytes)

/-- `String::from_utf8_lossy`, of so many bytes at most. -/
def fromUtf8Lossy : ℕ → Bytes → Text
  | 0, _ => []
  | _, [] => []
  | n + 1, b :: bytes =>
    match continuations b.toNat with
    | none => .ofNat 0xfffd :: fromUtf8Lossy n bytes
    | some ranges =>
      let first := if ranges = [] then b.toNat else b.toNat % 2 ^ (6 - ranges.length)
      match takeContinuations first ranges bytes with
      | (bits, true, rest) => .ofNat bits :: fromUtf8Lossy n rest
      | (_, false, rest) => .ofNat 0xfffd :: fromUtf8Lossy n rest

/-- Is the line of the settings one that a backup may have? -/
def settingsLineKept (line : Bytes) : Bool :=
  if line = [] then false
  else
    let key := line.takeWhile fun b => b ≠ 61
    let key := Text.toAsciiLowercase (Text.trim (fromUtf8Lossy key.length key))
    !"ssh_proxy_".toList.isPrefixOf key &&
      decide (key ∉ ["pinned_hosts".toList, "saved_hosts".toList, "hidden_hosts".toList])

def filterSettings (bytes : Bytes) : Bytes :=
  ((bytes.splitOn 10).filter settingsLineKept).foldl
    (fun output line => if output = [] then output ++ line else output ++ [10] ++ line) []

section
variable [JsonText Bytes]

def sshIsSanitized (bytes : Bytes) : Bool :=
  match JsonText.fromSlice bytes with
  | none => false
  | some value =>
    match (value.get? "profiles".toList).bind Json.asArray with
    | none => true
    | some profiles =>
      profiles.all fun profile =>
        profile.asObject.all fun object =>
          !object.any fun member => member.1 = "private_keys".toList ∨ member.1 = "proxy".toList

/-- Does `validate_archive` allow the entry in its category? -/
def BackupEntry.allowed (entry : BackupEntry) : Bool :=
  match entry.category with
  | .appearance => decide (entry.name = "pebrel_settings.txt".toList) && decide (filterSettings entry.bytes = entry.bytes)
  | .config =>
    decide (entry.name ∈ ["pebrel.lua", "pebrel.toml", "pebrel.yml", "pebrel.yaml", "terminal_profiles.json"].map
        String.toList) &&
      (decide (entry.name ≠ "terminal_profiles.json".toList) || (JsonText.fromSlice entry.bytes).isSome)
  | .ssh => decide (entry.name = "ssh_profiles.json".toList) && sshIsSanitized entry.bytes
  | .sync => decide (entry.name = "pebrel_sync.txt".toList)
  | .assistant => decide (entry.name = "pebrel_assistant.txt".toList)
  | .session => decide (entry.name = "session.json".toList)
  | .directoryHistory => decide (entry.name = "directory_history.json".toList)
  | .commandHistory =>
    decide (entry.name ∈ ["pebrel_history.jsonl", "pebrel_history_wsl.jsonl", "pebrel_history_ssh.jsonl"].map
        String.toList) ||
      (decide (entry.name = "saved_commands.json".toList) &&
        match SavedCommands.fromBytes entry.bytes with
        | .ok _ => true
        | .error _ => false)
  | .fonts => "fonts/".toList.isPrefixOf entry.name && decide ("fonts/".toList.length < entry.name.length)

end

/-! ### Paths -/

/-- The names in a relative path that are none of `.`. -/
def components (name : Text) : List Text := (name.splitOn '/').filter fun c => c ≠ [] ∧ c ≠ ['.']

def safePath (name : Text) : Except RestoreError (List Text) :=
  if name = [] ∨ name.head? = some '/' ∨ (name.splitOn '/').head? = some ['.'] ∨ ['.', '.'] ∈ components name then
    .error (.unsafePath name)
  else .ok (components name)

/-- The name ends like that of a directory, with a slash or a slash and a dot: no file can be read, replaced or
removed by it. -/
def namesDirectory (name : Text) : Bool := (name.splitOn '/').getLast? ∈ [some [], some ['.']]

/-- Is the node one that no path may go through? -/
def blocks : Option (Node Bytes) → Bool
  | none => false
  | some .dir => false
  | some _ => true

def restorePath (t : Files) (name : Text) : Except RestoreError (List Text) :=
  match safePath name with
  | .error e => .error e
  | .ok path =>
    match (parents path).find? fun q => blocks (t q) with
    | some q => .error (.unsafeParent q)
    | none => .ok path

/-- The paths of the names, if all of them are paths that may be written. -/
def restorePaths (t : Files) : List Text → Except RestoreError (List (List Text))
  | [] => .ok []
  | name :: names =>
    match restorePath t name with
    | .error e => .error e
    | .ok path =>
      match restorePaths t names with
      | .error e => .error e
      | .ok paths => .ok (path :: paths)

/-! ### Validation -/

section
variable [JsonText Bytes]

/-- The loop of `validate_archive`, with the names seen before. -/
def validateEntries (categories : List BackupCategory) : List Text → List BackupEntry → Except RestoreError Unit
  | _, [] => .ok ()
  | seen, entry :: rest =>
    if entry.category ∉ categories ∨ entry.name ∈ seen then .error .invalidEntry
    else
      match safePath entry.name with
      | .error e => .error e
      | .ok _ =>
        if entry.allowed then validateEntries categories (entry.name :: seen) rest
        else .error (.notAllowed entry.category entry.name)

def validateArchive (archive : BackupArchive) : Except RestoreError Unit :=
  if archive.version ≠ 1 then .error .unsupportedVersion
  else if ¬ archive.categories.Nodup then .error .duplicateCategory
  else validateEntries archive.categories [] archive.entries

end

/-! ### Writing -/

/-- Which write it is. -/
inductive Site where
  | recovery
  | entry (i : ℕ)
  | original (i : ℕ)
  deriving DecidableEq

/-- What the file system does in a restore: the originals that cannot be read, and the point at which a
write fails. -/
structure Environment where
  unreadable : ℕ → Bool
  fault : Option (Site × Fault)

/-- The call that fails at a write. -/
def Environment.faultAt (env : Environment) (site : Site) : Option Fault :=
  env.fault.bind fun f => if f.1 = site then some f.2 else none

/-- Nothing fails. -/
def Environment.sound : Environment := ⟨fun _ => false, none⟩

/-- `atomic_file::write`: a file is not renamed to the name of a directory. -/
def writeFile (fault : Option Fault) (t : Files) (name : Text) (path : List Text) (bytes : Bytes) : Files × Bool :=
  if namesDirectory name then ((createDirs (Fault.budget fault) t (parents path)).1, false) else atomicWrite fault t path bytes

/-- The loop of `restore_to`, from entry `i` on. -/
def writeEntries (env : Environment) : ℕ → Files → List (BackupEntry × List Text) → Files × Except RestoreError Unit
  | _, t, [] => (t, .ok ())
  | i, t, (entry, path) :: rest =>
    match writeFile (env.faultAt (.entry i)) t entry.name path entry.bytes with
    | (t, true) => writeEntries env (i + 1) t rest
    | (t, false) => (t, .error (.restore entry.name))

section
variable [JsonText Bytes]

def restoreTo (env : Environment) (t : Files) (archive : BackupArchive) : Files × Except RestoreError Unit :=
  match validateArchive archive with
  | .error e => (t, .error e)
  | .ok () =>
    match restorePaths t (archive.entries.map BackupEntry.name) with
    | .error e => (t, .error e)
    | .ok paths => writeEntries env 0 t (archive.entries.zip paths)

end

/-! ### Originals -/

structure OriginalFile where
  name : Text
  bytes : Option Bytes
  deriving DecidableEq

/-- The selected part of an archive. -/
def BackupArchive.select (archive : BackupArchive) (selection : BackupSelection) : BackupArchive :=
  { archive with
    categories := archive.categories.filter (· ∈ selection.categories)
    entries := archive.entries.filter fun entry => entry.category ∈ selection.categories }

section
variable [JsonText Bytes] [Cipher] [SerdeJson (List OriginalFile)]

/-- What a restore is asked for: the archive and the selection, the passphrase, and what is drawn: the time
in the name of the recovery point, and the salt and nonce of its encryption. -/
structure Request where
  archive : BackupArchive
  selection : BackupSelection
  passphrase : Text
  stamp : Text
  drawn : Option Drawn

/-- The archive that is restored. -/
def Request.selected (r : Request) : BackupArchive := r.archive.select r.selection

end

end Pebrel.Backup
