import Pebrel.Library.Fallible
import Pebrel.Library.Text

/-!
# Uploading a file over SFTP

An upload writes a staging file beside its destination, moves what is at the
destination aside to a backup, renames the staging file to the destination, and
removes the backup (`transaction.rs`). With a precondition it compares the
destination with what it is expected to be, before and after it is moved aside.

## The model

Each request to the server, each access to the local file and each look at the
cancellation is one turn. Before it, another client may put, replace or remove
files; then it either takes effect or fails. The server does not rename over a
file that is there. Paths are absolute and have no `.` or `..`; they are lists of
names. The bytes of the local file come in the chunks that it is read in.

The world also records what the upload did, which the program never looks at:
the file it moved aside, the file it put at the destination, whether another
client has changed the destination since, and the files it removed or cut.
-/

namespace Pebrel.Sftp

open Library
open Function (update)

abbrev Bytes := List UInt8

abbrev Path := List Text

/-! ### Files -/

inductive FileKind where
  | regular
  | directory
  /-- A link, with the path that the server opens for it. -/
  | symlink (target : Path)
  deriving DecidableEq

/-- What is at a path of the server. -/
structure Node where
  kind : FileKind
  bytes : Bytes
  mtime : Option ℕ
  permissions : Option ℕ
  uid : Option ℕ
  gid : Option ℕ
  deriving DecidableEq

/-- `FileAttributes`; the kind is part of the permissions there. -/
structure FileAttributes where
  kind : FileKind
  size : Option ℕ
  mtime : Option ℕ
  permissions : Option ℕ
  uid : Option ℕ
  gid : Option ℕ

def Node.attributes (n : Node) : FileAttributes := ⟨n.kind, some n.bytes.length, n.mtime, n.permissions, n.uid, n.gid⟩

/-- A new file. -/
def Node.empty : Node := ⟨.regular, [], none, none, none, none⟩

/-! ### The world -/

/-- What happens at a turn: what another client does before it, whether it fails, and what the server
answers, where it is asked for a path or for bytes. -/
structure Turn where
  edits : List (Path × Option Node)
  fails : Bool
  resolved : Path
  count : ℕ

structure World where
  files : Path → Option Node
  turns : ℕ → Turn
  now : ℕ
  /-- The destination of the upload. -/
  watched : Path
  /-- What the upload moved aside from the destination. -/
  aside : Option Node
  /-- What the upload put at the destination last. -/
  placed : Option Node
  /-- Another client has changed the destination since the upload did. -/
  touched : Bool
  /-- What the upload removed or cut. -/
  removed : List (Path × Node)
  /-- `preserve_staging`. -/
  preserveStaging : Bool

namespace World

def edit (w : World) (e : Path × Option Node) : World :=
  { w with files := update w.files e.1 e.2, touched := w.touched || decide (e.1 = w.watched) }

/-- A turn begins. -/
def elapse (w : World) : World := { (w.turns w.now).edits.foldl edit w with now := w.now + 1 }

/-- The path that is opened for a path. -/
def resolve (w : World) (path : Path) : Path :=
  match w.files path with
  | some ⟨.symlink target, _, _, _, _, _⟩ => target
  | _ => path

/-- The upload moves a file. -/
def move (w : World) (a b : Path) (node : Node) : World :=
  { w with
    files := update (update w.files a none) b (some node)
    aside := if a = w.watched then some node else w.aside
    placed := if b = w.watched then some node else w.placed
    touched := if a = w.watched ∨ b = w.watched then false else w.touched }

/-- The upload removes a file. -/
def remove (w : World) (path : Path) (node : Node) : World :=
  { w with files := update w.files path none, removed := (path, node) :: w.removed }

/-- The upload opens a file that it is going to write. -/
def truncate (w : World) (path : Path) : World :=
  match w.files path with
  | none => { w with files := update w.files path (some .empty) }
  | some node =>
    { w with
      files := update w.files path (some { node with bytes := [] })
      removed := (path, node) :: w.removed }

/-- The upload changes a file that it has written. -/
def change (w : World) (path : Path) (f : Node → Node) : World :=
  { w with files := update w.files path ((w.files path).map f) }

end World

/-! ### Errors and requests -/

inductive UploadError where
  /-- `SaveError::Changed`. -/
  | changed
  /-- An error of the server, or of the connection. -/
  | session
  /-- An error of the local file. -/
  | local
  | cancelled
  /-- The destination is a directory. -/
  | directory (destination : Path)
  /-- There is a new file at the destination; the previous one remains at the backup. -/
  | newFile (destination backup : Path)
  /-- The file that was moved aside is another one and could not be moved back; the draft remains. -/
  | draftRemains (error restoreError : UploadError) (staging : Path)
  /-- The staging file could not be renamed, and the backup could not be moved back. -/
  | notReplaced (publishError restoreError : UploadError) (backup staging : Path)
  deriving DecidableEq

abbrev Sftp (α : Type) := Fallible World UploadError α

open Fallible (fail attempt get modify)

/-- A turn that takes no effect by itself. -/
def turn (error : UploadError) : Sftp Unit := fun w =>
  (w.elapse, if (w.turns w.now).fails then .error error else .ok ())

def remoteMetadataOptional (path : Path) : Sftp (Option FileAttributes) := do
  turn .session
  let w ← get
  pure ((w.files path).map Node.attributes)

def symlinkMetadata (path : Path) : Sftp FileAttributes := do
  turn .session
  let w ← get
  match w.files path with
  | some node => pure node.attributes
  | none => fail .session

/-- `SftpSession::metadata`, which follows a link. -/
def metadata (path : Path) : Sftp FileAttributes := do
  turn .session
  let w ← get
  match w.files (w.resolve path) with
  | some node => pure node.attributes
  | none => fail .session

def canonicalize (_requested : Path) : Sftp Path := fun w =>
  (w.elapse, if (w.turns w.now).fails then .error .session else .ok (w.turns w.now).resolved)

/-- `SftpSession::open`. -/
def openFile (path : Path) : Sftp Unit := do
  turn .session
  let w ← get
  match w.files (w.resolve path) with
  | some _ => pure ()
  | none => fail .session

/-- `File::read` at an offset: the server gives at least one byte, where there is one. -/
def readChunk (path : Path) (offset limit : ℕ) : Sftp Bytes := fun w =>
  let bytes := ((w.elapse.files (w.elapse.resolve path)).map Node.bytes).getD []
  (w.elapse,
    if (w.turns w.now).fails then .error .session
    else .ok ((bytes.drop offset).take (min limit ((w.turns w.now).count + 1))))

def rename (a b : Path) : Sftp Unit := do
  turn .session
  let w ← get
  match w.files a, w.files b with
  | some node, none => modify fun w => w.move a b node
  | _, _ => fail .session

def removeFile (path : Path) : Sftp Unit := do
  turn .session
  let w ← get
  match w.files path with
  | some node => if node.kind = .directory then fail .session else modify fun w => w.remove path node
  | none => fail .session

def setMetadata (path : Path) (f : Node → Node) : Sftp Unit := do
  turn .session
  let w ← get
  match w.files path with
  | some _ => modify fun w => w.change path f
  | none => fail .session

/-! ### Reading and writing files -/

def maxBytes : ℕ := 8 * 1024 * 1024

/-- The loop of `read_bounded`, which reads a byte at least in every round but the last. -/
def readLoop (path : Path) (cancellable : Bool) : ℕ → Bytes → Sftp Bytes
  | 0, bytes => pure bytes
  | n + 1, bytes =>
    if maxBytes < bytes.length then pure bytes
    else do
      if cancellable then turn .cancelled else pure ()
      let chunk ← readChunk path bytes.length (min 65536 (maxBytes + 1 - bytes.length))
      if chunk = [] then pure bytes else readLoop path cancellable n (bytes ++ chunk)

def readBounded (path : Path) (cancellable : Bool) : Sftp Bytes := do
  openFile path
  readLoop path cancellable (maxBytes + 2) []

/-- `open_with_flags`, with create, truncate and write: the path that is written. -/
def openTruncated (path : Path) : Sftp Path := do
  turn .session
  let w ← get
  match w.files (w.resolve path) with
  | some ⟨.directory, _, _, _, _, _⟩ => fail .session
  | _ => do
    modify fun w => w.truncate (w.resolve path)
    pure (w.resolve path)

/-- The loop of `upload_stream`. -/
def writeLoop (target : Path) : List Bytes → Sftp Unit
  | [] => do
    turn .cancelled
    turn .local
  | chunk :: chunks => do
    turn .cancelled
    turn .local
    turn .session
    modify fun w => w.change target fun node => { node with bytes := node.bytes ++ chunk }
    writeLoop target chunks

/-- `transfer::upload_stream` of a local file that is read in these chunks. -/
def uploadStream (chunks : List Bytes) (remote : Path) : Sftp Unit := do
  turn .local
  let target ← openTruncated remote
  writeLoop target chunks
  turn .session

/-! ### The transaction -/

structure RemotePrecondition where
  requested : Path
  canonical : Path
  bytes : Bytes
  metadata : FileAttributes
  /-- A document has no more bytes. -/
  short : bytes.length ≤ maxBytes

structure FileStamp where
  len : ℕ
  modified : Option ℕ
  permissions : Option ℕ

def metadataMatches (expected current : FileAttributes) : Bool :=
  decide (current.kind = .regular) && decide (expected.size = current.size) &&
    (decide (expected.mtime = none) || decide (expected.mtime = current.mtime)) &&
    decide (expected.permissions = current.permissions) && decide (expected.uid = current.uid) &&
    decide (expected.gid = current.gid)

def remoteSiblingPath (destination : Path) (marker : Text) (nonce : ℕ) : Path :=
  destination.dropLast ++ [".".toList ++ destination.getLast?.getD [] ++ ".".toList ++ marker ++ "-".toList ++
    (Nat.toDigits 16 nonce).leftpad 16 '0']

def verifyRemotePrecondition (expected : RemotePrecondition) : Sftp Unit := do
  let metadata ← remoteMetadataOptional expected.canonical
  if metadata.any (metadataMatches expected.metadata) then do
    let canonical ← canonicalize expected.requested
    if canonical ≠ expected.canonical then fail .changed
    else do
      let current ← readBounded expected.canonical true
      if current ≠ expected.bytes then fail .changed else pure ()
  else fail .changed

def restoreRemoteBackup (backup destination : Path) : Sftp Unit := do
  let metadata ← remoteMetadataOptional destination
  if metadata.isSome then fail (.newFile destination backup) else rename backup destination

def setRemoteStagingMetadata (staging : Path) (source : FileStamp) (existing : Option FileAttributes) (preserveOwner : Bool) :
    Sftp Unit := do
  match (existing.bind FileAttributes.permissions).or source.permissions with
  | some permissions =>
    setMetadata staging fun node =>
      { node with
        permissions := some permissions
        uid := if preserveOwner then (existing.bind FileAttributes.uid).or node.uid else node.uid
        gid := if preserveOwner then (existing.bind FileAttributes.gid).or node.gid else node.gid }
  | none => pure ()
  match source.modified with
  | some modified => do
    let _ ← attempt (setMetadata staging fun node => { node with mtime := some modified })
    pure ()
  | none => pure ()

/-- The arguments of `upload_file_checked`, with the chunks that the local file is read in and the nonce
that is drawn. -/
structure Upload where
  chunks : List Bytes
  destination : Path
  source : FileStamp
  skipUnchanged : Bool
  expected : Option RemotePrecondition
  nonce : ℕ

namespace Upload

variable (u : Upload)

def staging : Path := remoteSiblingPath u.destination "nebula-upload".toList u.nonce

def backup : Path := remoteSiblingPath u.destination "nebula-backup".toList u.nonce

def verifyBackup (expected : RemotePrecondition) : Sftp Unit := do
  let metadata ← symlinkMetadata u.backup
  let bytes ← readBounded u.backup false
  if !metadataMatches expected.metadata metadata || decide (bytes ≠ expected.bytes) then fail .changed else pure ()

/-- The backup is verified; if it is another file, it is moved back. -/
def checkBackup : Sftp Unit :=
  match u.expected with
  | none => pure ()
  | some expected => do
    match ← attempt (u.verifyBackup expected) with
    | .ok () => pure ()
    | .error error =>
      match ← attempt (restoreRemoteBackup u.backup u.destination) with
      | .ok () => fail error
      | .error restoreError => do
        modify fun w => { w with preserveStaging := true }
        fail (.draftRemains error restoreError u.staging)

/-- The staging file becomes the destination, or the backup is moved back. -/
def replace : Sftp Unit := do
  match ← attempt (rename u.staging u.destination) with
  | .ok () => do
    let _ ← attempt (removeFile u.backup)
    pure ()
  | .error publishError =>
    match ← attempt (restoreRemoteBackup u.backup u.destination) with
    | .ok () => fail publishError
    | .error restoreError => do
      modify fun w => { w with preserveStaging := true }
      fail (.notReplaced publishError restoreError u.backup u.staging)

/-- The staging file is written, and the precondition is checked again. -/
def stage (existing : Option FileAttributes) : Sftp Unit := do
  uploadStream u.chunks u.staging
  setRemoteStagingMetadata u.staging u.source existing u.expected.isSome
  match u.expected with
  | some expected => verifyRemotePrecondition expected
  | none => pure ()
  turn .cancelled

/-- Staging and publication. -/
def publish (existing : Option FileAttributes) : Sftp Unit := do
  u.stage existing
  match existing with
  | none => rename u.staging u.destination
  | some _ => do
    rename u.destination u.backup
    u.checkBackup
    u.replace

end Upload

end Pebrel.Sftp
