import Pebrel.Library.Fallible
import Pebrel.Library.Text

/-!
# Moving the data of an earlier version

The data directory of the earlier version is copied into the one of this version,
and then the files that have another name now are copied to it
(`nebula_settings/paths/migration.rs`). What is there already is kept. A file is
written beside its place under a temporary name and linked to its own, so that it is
never there in part.

## The model

A run makes calls of the file system one after another; each is carried out, fails, or
is not reached any more (`Verdict`). The legacy directory is a listing, in the order in
which it is read, and the destination gives every path below it what is there. What is
behind a link is a parameter.
-/

namespace Pebrel.Settings.Migration

open Library

/-! ### Names -/

/-- A file name, with those of its units that are not Unicode. -/
abbrev Name := List (Char ⊕ UInt16)

abbrev Path := List Name

def Name.ofText (t : Text) : Name := t.map .inl

def Name.toStr (name : Name) : Option Text := name.mapM Sum.getLeft?

def lockFile : Text := ".pebrel-migration.lock".toList

def completeFile : Text := ".pebrel-migration-v1".toList

def configFiles : List Text := ["pebrel.lua".toList, "pebrel.toml".toList, "pebrel.yml".toList, "pebrel.yaml".toList]

/-- `DATA_FILES`: names and what they are now. -/
def dataFiles : List (Text × Text) :=
  [("nebula_settings.txt".toList, "pebrel_settings.txt".toList), ("nebula_assistant.txt".toList, "pebrel_assistant.txt".toList),
    ("nebula_providers.json".toList, "pebrel_providers.json".toList), ("nebula_backup.txt".toList, "pebrel_backup.txt".toList),
    ("nebula_sync.txt".toList, "pebrel_sync.txt".toList), ("nebula_theme.txt".toList, "pebrel_theme.txt".toList),
    ("nebula_history.jsonl".toList, "pebrel_history.jsonl".toList), ("nebula_history_wsl.jsonl".toList, "pebrel_history_wsl.jsonl".toList),
    ("nebula_history_ssh.jsonl".toList, "pebrel_history_ssh.jsonl".toList), ("nebula_debug.log".toList, "pebrel_debug.log".toList),
    ("nebula-panic.log".toList, "pebrel-panic.log".toList), ("nebula.lua".toList, "pebrel.lua".toList),
    ("nebula.toml".toList, "pebrel.toml".toList), ("nebula.yml".toList, "pebrel.yml".toList), ("nebula.yaml".toList, "pebrel.yaml".toList)]

/-- Split at the last place where `sep` stands. -/
def rsplitOnceText (sep t : Text) : Option (Text × Text) :=
  (Text.splitOnceText sep.reverse t.reverse).map fun e => (e.2.reverse, e.1.reverse)

/-- What stands before an ending. -/
def stripEnding (ending t : Text) : Option Text := if ending.isSuffixOf t then some (t.take (t.length - ending.length)) else none

/-- The name is one that is given to a file while it is written. -/
def isTemporaryText (name : Text) : Bool :=
  ((rsplitOnceText ".pebrel-migrate-".toList name).bind fun e => stripEnding ".tmp".toList e.2).any fun stamp =>
    let parts := stamp.splitOn '-'
    decide (parts.length = 3) && parts.all fun part => !part.isEmpty && part.all Char.isDigit

def isMigrationArtifact (name : Text) : Bool := decide (name = lockFile) || decide (name = completeFile) || isTemporaryText name

/-- The name without its extension. -/
def fileStem (name : Name) : Name :=
  let before := (name.reverse.dropWhile fun c => decide (c ≠ .inl '.')).tail.reverse
  if before = [] then name else before

def withExtension (name : Name) (extension : Text) : Name := fileStem name ++ .ofText ('.' :: extension)

/-- The process, the time and the number of the copy. -/
abbrev Stamp := ℕ × ℕ × ℕ

/-- The extension of a temporary name. -/
def temporaryExtension (stamp : Stamp) : Text :=
  "pebrel-migrate-".toList ++ Nat.toDigits 10 stamp.1 ++ '-' :: Nat.toDigits 10 stamp.2.1 ++ '-' :: Nat.toDigits 10
    stamp.2.2 ++ ".tmp".toList

def temporaryPath (path : Path) (stamp : Stamp) : Path :=
  path.dropLast ++ [withExtension (path.getLastD []) (temporaryExtension stamp)]

/-! ### Directories -/

structure Contents where
  bytes : List UInt8
  permissions : ℕ
  deriving DecidableEq

inductive Node where
  | file (contents : Contents)
  | dir
  | symlink (target : Name)
  deriving DecidableEq

/-- The nodes of the destination, which is at the empty path. -/
abbrev Tree := Path → Option Node

/-- An entry that is no directory. -/
inductive Leaf where
  | file (contents : Contents)
  | symlink (target : Name)
  /-- A socket, a pipe or a device. -/
  | other

/-- The entries of a directory, as they are read. -/
inductive Listing where
  | nil
  | leaf (name : Name) (leaf : Leaf) (rest : Listing)
  | dir (name : Name) (entries rest : Listing)

inductive Legacy where
  | missing
  | noDirectory
  | directory (entries : Listing)

structure Disk where
  legacy : Legacy
  destination : Tree

/-! ### Runs -/

/-- What becomes of a call; a write that is cut off has written so many bytes. -/
inductive Verdict where
  | done
  | error (written : ℕ)
  | crash (written : ℕ)

structure Run where
  verdict : ℕ → Verdict
  /-- What the temporary name of each copy is made of. -/
  stamp : ℕ → Stamp

structure Environment where
  /-- Where the directories are, with all links followed. -/
  source : Path
  destination : Path
  /-- The permissions of a file that is made. -/
  permissions : ℕ
  /-- What a link of the destination leads to. -/
  behindLinks : Tree → Path → Option Node
  /-- What is left of the destination where a file is made behind a link. -/
  createBehind : Tree → Path → Tree

structure State where
  disk : Disk
  calls : ℕ
  copies : ℕ
  crashed : Bool

inductive Failure where
  | crash
  | io
  | nested
  | unsupported

abbrev Program := Fallible State Failure

section
variable (env : Environment) (run : Run)

/-- A call that changes nothing. -/
def call : Program Unit := fun s =>
  if s.crashed then (s, .error .crash)
  else
    match run.verdict s.calls with
    | .done => ({ s with calls := s.calls + 1 }, .ok ())
    | .error _ => ({ s with calls := s.calls + 1 }, .error .io)
    | .crash _ => ({ s with crashed := true }, .error .crash)

def tree : Program Tree := fun s => (s, .ok s.disk.destination)

def change (f : Tree → Tree) : Program Unit := .modify fun s => { s with disk := { s.disk with destination := f s.disk.destination } }

def put (path : Path) (node : Node) : Program Unit := change fun t => Function.update t path (some node)

/-- What is at a path, with links followed. -/
def followed (t : Tree) (path : Path) : Option Node :=
  match t path with
  | some (.symlink _) => env.behindLinks t path
  | n => n

/-! ### Files -/

def destinationExists (path : Path) : Program Bool := do
  call run
  let t ← tree
  pure (t path).isSome

def tryExists (path : Path) : Program Bool := do
  call run
  let t ← tree
  pure (followed env t path).isSome

/-- The file is made, if there is nothing of its name. -/
def createNew (path : Path) : Program Unit := do
  call run
  let t ← tree
  match t path with
  | some _ => .fail .io
  | none => put path (.file ⟨[], env.permissions⟩)

/-- Write to a new file. -/
def writeAll (path : Path) (bytes : List UInt8) : Program Unit := fun s =>
  if s.crashed then (s, .error .crash)
  else
    match run.verdict s.calls with
    | .done => put path (.file ⟨bytes, env.permissions⟩) { s with calls := s.calls + 1 }
    | .error n => ((put path (.file ⟨bytes.take n, env.permissions⟩) { s with calls := s.calls + 1 }).1, .error .io)
    | .crash n => ((put path (.file ⟨bytes.take n, env.permissions⟩) { s with crashed := true }).1, .error .crash)

/-- `hard_link`, where it is no error that there is something already. -/
def publishFile (temporary path : Path) : Program Unit := do
  call run
  let t ← tree
  match t path with
  | some _ => pure ()
  | none => change fun t => Function.update t path (t temporary)

def removeFile (path : Path) : Program Unit := do
  call run
  change fun t => Function.update t path none

/-- The number of a copy is drawn. -/
def drawTemporary (path : Path) : Program Path := fun s =>
  ({ s with copies := s.copies + 1 }, .ok (temporaryPath path (run.stamp s.copies)))

/-- The first of two errors. -/
def bothOf : Except Failure Unit → Except Failure Unit → Program Unit
  | .error e, _ => .fail e
  | .ok _, .error e => .fail e
  | .ok _, .ok _ => pure ()

def writeIfAbsent (path : Path) (write : Path → Program Unit) : Program Unit := do
  let found ← destinationExists run path
  if found then pure ()
  else do
    let temporary ← drawTemporary run path
    createNew env run temporary
    let result ← .attempt (do
      write temporary
      call run
      publishFile run temporary path)
    let cleanup ← .attempt (removeFile run temporary)
    bothOf result cleanup

/-- `copy_file`, of the file that is found. -/
def copyFile (source : Tree → Option Node) (path : Path) : Program Unit :=
  writeIfAbsent env run path fun temporary => do
    call run
    let t ← tree
    match source t with
    | some (.file contents) => do
      writeAll env run temporary contents.bytes
      call run
      put temporary (.file contents)
    | _ => .fail .io

def copySymlink (target : Name) (path : Path) : Program Unit := do
  let found ← destinationExists run path
  if found then pure ()
  else do
    call run
    call run
    put path (.symlink target)

/-! ### Copying -/

/-- The entry is not copied. -/
def skipped (keepConfig : Bool) (name : Name) : Bool :=
  name.toStr.any fun t => isMigrationArtifact t || keepConfig && configFiles.contains t

def copyLeaf (leaf : Leaf) (path : Path) : Program Unit :=
  match leaf with
  | .file contents => copyFile env run (fun _ => some (.file contents)) path
  | .symlink target => copySymlink run target path
  | .other => .fail .unsupported

/-- A directory is made, if there is nothing; whether there is one then. -/
def enterDirectory (path : Path) : Program Bool := do
  call run
  let t ← tree
  match t path with
  | some .dir => pure true
  | some _ => pure false
  | none => do
    call run
    put path .dir
    pure true

def copyTree : Listing → Path → Bool → Program Unit
  | .nil, _, _ => call run
  | .leaf name leaf rest, path, keepConfig =>
    call run >>= fun _ => (if skipped keepConfig name then pure () else copyLeaf env run leaf (path ++ [name])) >>= fun _ =>
      copyTree rest path keepConfig
  | .dir name entries rest, path, keepConfig =>
    call run >>= fun _ =>
      (if skipped keepConfig name then pure ()
        else enterDirectory run (path ++ [name]) >>= fun entered => if entered then copyTree entries (path ++ [name]) false else pure ()) >>=
      fun _ => copyTree rest path keepConfig

/-- The legacy directory is copied, if there is one that is another. -/
def copyLegacy (keepConfig : Bool) : Program Unit := do
  call run
  let s ← .get
  match s.disk.legacy with
  | .missing => pure ()
  | legacy => do
    call run
    if env.source = env.destination then pure ()
    else if env.source <+: env.destination ∨ env.destination <+: env.source then .fail .nested
    else
      match legacy with
      | .directory entries => copyTree env run entries [] keepConfig
      | _ => .fail .io

/-- One file that has another name now. -/
def renameFile (old new : Text) : Program Unit := do
  let found ← tryExists env run [.ofText old]
  if found then copyFile env run (fun t => followed env t [.ofText old]) [.ofText new] else pure ()

def renameFiles (keepConfig : Bool) : List (Text × Text) → Program Unit
  | [] => pure ()
  | (old, new) :: files =>
    (if keepConfig && configFiles.contains new then pure () else renameFile env run old new) >>= fun _ => renameFiles keepConfig files

/-! ### The migration -/

def createDestination : Program Unit := do
  call run
  let t ← tree
  match t [] with
  | some .dir => pure ()
  | some _ => .fail .io
  | none => put [] .dir

def openLock : Program Unit := do
  call run
  let t ← tree
  match t [.ofText lockFile] with
  | none => put [.ofText lockFile] (.file ⟨[], env.permissions⟩)
  | some (.file _) => pure ()
  | some .dir => .fail .io
  | some (.symlink _) =>
    match env.behindLinks t [.ofText lockFile] with
    | some (.file _) => pure ()
    | some _ => .fail .io
    | none => change fun t => env.createBehind t [.ofText lockFile]

/-- One of these files is there. -/
def anyExists : List Text → Program Bool
  | [] => pure false
  | name :: names => do
    let found ← destinationExists run [.ofText name]
    let others ← anyExists names
    pure (found || others)

def completeText : List UInt8 := "Legacy data copied; original paths retained.\n".toList.map fun c => .ofNat c.toNat

def writeComplete : Program Unit := writeIfAbsent env run [.ofText completeFile] fun temporary => writeAll env run temporary completeText

def migrateInto : Program Unit := do
  let keepConfig ← anyExists run configFiles
  copyLegacy env run keepConfig
  renameFiles env run keepConfig dataFiles
  writeComplete env run

def migrateDataAt : Program Unit := do
  createDestination run
  call run
  openLock env run
  call run
  let complete ← tryExists env run [.ofText completeFile]
  if complete then pure () else migrateInto env run

/-- A run, and what is left by it. -/
def migrate (disk : Disk) : Disk × Except Failure Unit :=
  let r := migrateDataAt env run ⟨disk, 0, 0, false⟩
  (r.1.disk, r.2)

/-- What is left by runs, one after another. -/
def migrateAll (runs : List Run) (disk : Disk) : Disk := runs.foldl (fun disk run => (migrate env run disk).1) disk

end

end Pebrel.Settings.Migration
