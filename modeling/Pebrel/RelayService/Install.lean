import Pebrel.Library.Assoc
import Pebrel.Library.Fallible
import Pebrel.Library.FileSystem
import Pebrel.Library.Text

/-!
# Installing the relay

The relay is installed as a service of the system: a directory of credentials, the
executable and the definition of the service are written, and then a record of all
of them, by which a later call knows its files (`relay/service.rs`, `relay/setup.rs`).
Files that exist are never written over.

## The model

Each call of the file system or of the service manager is named (`Call`), and one of
them may fail: nothing has happened then, but that a file that was being written holds
the first bytes of its contents, and that of several directories the first ones were
made. What is drawn at random, the formats of the files, and what is found behind
links are parameters. The modes of files are left out.
-/

namespace Pebrel.RelayService

open Library FileTree

abbrev Bytes := List UInt8

abbrev Path := List String

abbrev Files := FileSystem String Bytes

/-! ### The files of an installation -/

inductive ServiceManager where
  | systemd
  | openRc
  deriving DecidableEq

/-- What an installation consists of. -/
inductive Item where
  | executable
  | service
  | config
  | access
  | certificate
  | privateKey
  /-- The record of the others (`MANIFEST`). -/
  | record
  deriving DecidableEq

namespace Item

def path (m : ServiceManager) : Item → Path
  | executable => ["opt", "pebrel-relay", "pebrel-relay"]
  | service =>
    match m with
    | .systemd => ["etc", "systemd", "system", "pebrel-relay.service"]
    | .openRc => ["etc", "init.d", "pebrel-relay"]
  | config => ["etc", "pebrel-relay", "relay.json"]
  | access => ["etc", "pebrel-relay", "access.json"]
  | certificate => ["etc", "pebrel-relay", "certificate.pem"]
  | privateKey => ["etc", "pebrel-relay", "private-key.pem"]
  | record => ["opt", "pebrel-relay", "installation.json"]

/-- `OWNED`, with the service of the manager. -/
def owned : List Item := [executable, service, config, access, certificate, privateKey]

def all : List Item := [executable, service, config, access, certificate, privateKey, record]

end Item

open Item (path)

def configDir : Path := ["etc", "pebrel-relay"]

/-- Where the service of the other manager is. -/
def alternate : ServiceManager → Path
  | .systemd => path .openRc .service
  | .openRc => path .systemd .service

structure Manifest where
  product : Text
  version : ℕ
  manager : ServiceManager
  files : Assoc.Map Path Text

/-- The formats: the digest of a file, and how a record is written and read. -/
structure Codec where
  digest : Bytes → Text
  encode : Manifest → Bytes
  parse : Bytes → Option Manifest

def product : Text := "pebrel-relay".toList

/-- What is found and drawn in a run. -/
structure Environment where
  manager : ServiceManager
  /-- What is read of the executable that is to be installed. -/
  source : Bytes
  expectedSha256 : Text
  /-- The address is one that a certificate may be made for. -/
  address : Text
  credentials : Item → Bytes
  definition : Bytes
  /-- Every definition that was ever written for this manager. -/
  definitions : List Bytes
  /-- What is at a path, where links above it are followed. -/
  behindLinks : Files → Path → Option (Node Bytes)

/-- What is written to each file but the record. -/
def Environment.contents (env : Environment) : Item → Bytes
  | .executable => env.source
  | .service => env.definition
  | item => env.credentials item

/-! ### Calls -/

/-- The directories that are made, each with those above it. -/
inductive Directory where
  | executable
  | service
  | config
  deriving DecidableEq

inductive Call where
  | readSource
  | alternateMetadata
  | version
  | definition
  | readConfigDir
  | createDir (directory : Directory)
  | directoryPermissions
  | readDirectory
  | configPermissions
  /-- The certificate and the secrets are made. -/
  | generate
  | create (item : Item)
  | write (item : Item)
  | sync (item : Item)
  | permissions (item : Item)
  | readBack (item : Item)
  | daemonReload
  | enable
  | ready
  | disable
  | remove (item : Item)
  deriving DecidableEq

inductive InstallError where
  /-- The call has failed. -/
  | call (call : Call)
  | refused (reason : Text)
  deriving DecidableEq

/-- The call that fails, and how many bytes it has written or directories it has made. -/
abbrev Fault := Option (Call × ℕ)

/-- The call fails. -/
def Fault.hits (fault : Fault) (c : Call) : Bool := fault.any fun f => f.1 = c

abbrev Setup := Fallible Files InstallError

/-- `SetupError`: the run is refused, unless. -/
def ensure (b : Bool) (reason : String) : Setup Unit := if b then pure () else .fail (.refused reason.toList)

section
variable (fault : Fault)

/-- A call that changes no file. -/
def call (c : Call) : Setup Unit := if fault.hits c then .fail (.call c) else pure ()

/-! ### Files -/

def limit : ℕ := 64 * 1024 * 1024

def readBounded (path : Path) (limit : ℕ) (fs : Files) : Option Bytes :=
  match fs.tree path with
  | some (.file bytes) => if bytes.length ≤ limit then some bytes else none
  | _ => none

/-- `safe`: no path above is a link. -/
def safe (path : Path) (fs : Files) : Bool := !(path :: parents path).any fun q => fs.tree q = some .symlink

def ensureSafe (path : Path) : Setup Unit := .get >>= fun fs => ensure (safe path fs) "symlink_installation_path"

/-- The directory that a file is in is there. -/
def hasParent (path : Path) (fs : Files) : Bool := decide (path.dropLast = []) || decide (fs.tree path.dropLast = some .dir)

/-- `write_new_private`: a file that exists is not written over. -/
def writeNewPrivate (item : Item) (path : Path) (bytes : Bytes) : Setup Unit := do
  let fs ← .get
  ensure (decide (fs.tree path = none) && hasParent path fs) "io"
  call fault (.create item)
  if fault.hits (.write item) then do
    Fallible.modify (.set path (.file (bytes.take (min (fault.elim 0 Prod.snd) (bytes.length - 1)))))
    .fail (.call (.write item))
  else do
    .modify (.set path (.file bytes))
    call fault (.sync item)

def createDirAll (directory : Directory) (path : Path) : Setup Unit := fun fs =>
  let budget := if fault.hits (.createDir directory) then fault.map Prod.snd else none
  match fs.createDirAll budget path with
  | (fs, true) => call fault (.createDir directory) fs
  | (fs, false) => (fs, .error (if fault.hits (.createDir directory) then .call (.createDir directory) else .refused "io".toList))

end

/-! ### Records -/

section
variable (codec : Codec)

/-- A record that was read is one of this program, and names its files. -/
def checkRecord : Option Manifest → Setup Manifest
  | none => .fail (.refused "invalid_ownership_manifest".toList)
  | some value =>
    if value.product = product ∧ value.version = 1 ∧ value.files.entries.length = Item.owned.length ∧
        ∀ e ∈ value.files.entries, e.1 ∈ Item.owned.map (path value.manager) then
      pure value
    else .fail (.refused "invalid_ownership_manifest".toList)

def manifest : Setup Manifest := do
  ensureSafe (path .systemd .record)
  let fs ← .get
  match readBounded (path .systemd .record) 8192 fs with
  | none => .fail (.refused "io".toList)
  | some bytes => checkRecord (codec.parse bytes)

/-- One file of `verify`: it is as it was recorded, or is missing where it may be. -/
def verifyItem (record : Manifest) (allowMissing : Bool) (item : Item) : Setup Unit := do
  ensureSafe (item.path record.manager)
  let fs ← .get
  match readBounded (item.path record.manager) limit fs with
  | some bytes => ensure (decide (record.files.get? (item.path record.manager) = some (codec.digest bytes))) "managed_file_changed"
  | none => ensure (allowMissing && decide (fs.tree (item.path record.manager) = none)) "managed_file_changed"

def verify (record : Manifest) (allowMissing : Bool) : List Item → Setup Unit
  | [] => pure ()
  | item :: items => verifyItem codec record allowMissing item >>= fun _ => verify record allowMissing items

/-- The record of files with these contents. -/
def recordOf (m : ServiceManager) (contents : Item → Bytes) : Manifest :=
  ⟨product, 1, m, .ofEntries (Item.owned.map fun item => (item.path m, codec.digest (contents item)))⟩

end

/-! ### Installing -/

/-- An address that `initialize` accepts. -/
def validAddress (address : Text) : Bool :=
  decide (address ≠ []) && decide ((address.flatMap fun c => (String.singleton c).toUTF8.toList).length ≤ 253) &&
    !address.any fun c => c.isWhitespace || ['/', '@', '#', '?', '\\'].contains c

section
variable (codec : Codec) (fault : Fault) (env : Environment)

/-- The service is started, and waited for. -/
def start : Setup Unit := do
  call fault .daemonReload
  call fault .enable
  call fault .ready

/-- The executable is written. -/
def writeExecutable : Setup Unit := do
  writeNewPrivate fault .executable (path env.manager .executable) env.source
  call fault (.permissions .executable)

def writeService (definition : Bytes) : Setup Unit := do
  writeNewPrivate fault .service (path env.manager .service) definition
  if env.manager = .openRc then call fault (.permissions .service) else pure ()

/-- The executable is written again, if it is missing. -/
def restoreExecutable : Setup Unit := do
  let fs ← .get
  if fs.tree (path env.manager .executable) = none then writeExecutable fault env else pure ()

/-- The service is written again as it was recorded, if it is missing. -/
def restoreService (previous : Manifest) : Setup Unit := do
  let fs ← .get
  if fs.tree (path env.manager .service) = none then
    match env.definitions.find? fun value => previous.files.get? (path env.manager .service) = some (codec.digest value) with
    | none => .fail (.refused "managed_file_changed".toList)
    | some definition => writeService fault env definition
  else pure ()

/-- `install_under`, where there is a record. -/
def reinstall : Setup Unit := do
  let previous ← manifest codec
  ensure (decide (previous.manager = env.manager)) "service_manager_changed"
  verify codec previous false [.config, .access, .certificate, .privateKey]
  verify codec previous true [.executable, .service]
  ensure (decide (previous.files.get? (path env.manager .executable) = some env.expectedSha256)) "explicit_update_required"
  restoreExecutable fault env
  restoreService codec fault env previous
  start fault

/-- None of the files is there. -/
def checkAbsent : List Item → Setup Unit
  | [] => pure ()
  | item :: items => do
    ensureSafe (item.path env.manager)
    let fs ← .get
    ensure (decide (fs.tree (item.path env.manager) = none)) "installation_conflict"
    checkAbsent items

/-- The directory of the configuration is empty, if it is there. -/
def checkConfigDir : Setup Unit := do
  let fs ← .get
  if fs.tree configDir = none then pure ()
  else do
    call fault .readConfigDir
    ensure (decide (fs.tree configDir = some .dir)) "io"
    ensure (!fs.hasEntries configDir) "configuration_directory_not_empty"

/-- What is looked at before anything is written. -/
def preflight : Setup Unit := do
  checkAbsent env Item.owned
  call fault .alternateMetadata
  let fs ← .get
  ensure (env.behindLinks fs (alternate env.manager)).isNone "installation_conflict"
  call fault .version
  call fault .definition
  checkConfigDir fault

def makeDirectories : Setup Unit := do
  createDirAll fault .executable (path env.manager .executable).dropLast
  call fault .directoryPermissions
  createDirAll fault .service (path env.manager .service).dropLast
  createDirAll fault .config configDir

/-- `setup::initialize`. -/
def initializeDirectory : Setup Unit := do
  let fs ← .get
  ensure (validAddress env.address) "invalid_initialization_input"
  ensure (safe configDir fs) "symlink_installation_path"
  call fault .readDirectory
  ensure (!fs.hasEntries configDir) "configuration_directory_not_empty"
  call fault .configPermissions
  call fault .generate
  writeNewPrivate fault .privateKey (path env.manager .privateKey) (env.credentials .privateKey)
  writeNewPrivate fault .certificate (path env.manager .certificate) (env.credentials .certificate)
  writeNewPrivate fault .access (path env.manager .access) (env.credentials .access)
  -- The configuration is written last, as it tells that the others are there.
  writeNewPrivate fault .config (path env.manager .config) (env.credentials .config)

/-- The digests of the files that were written. -/
def readBack : List Item → Setup (List (Path × Text))
  | [] => pure []
  | item :: items => do
    ensureSafe (item.path env.manager)
    call fault (.readBack item)
    let fs ← .get
    match fs.tree (item.path env.manager) with
    | some (.file bytes) => readBack items >>= fun rest => pure ((item.path env.manager, codec.digest bytes) :: rest)
    | _ => .fail (.refused "io".toList)

def writeRecord : Setup Unit := do
  let files ← readBack codec fault env Item.owned
  writeNewPrivate fault .record (path env.manager .record) (codec.encode ⟨product, 1, env.manager, .ofEntries files⟩)

/-- `install_under`. -/
def install : Setup Unit := do
  call fault .readSource
  ensure (decide (env.source ≠ []) && decide (env.source.length ≤ limit) && decide (codec.digest env.source = env.expectedSha256))
    "binary_integrity_failed"
  ensureSafe (path env.manager .executable)
  ensureSafe (path env.manager .service)
  ensureSafe (path env.manager .record)
  let fs ← .get
  if fs.tree (path env.manager .record) ≠ none then reinstall codec fault env
  else do
    preflight fault env
    makeDirectories fault env
    initializeDirectory fault env
    writeExecutable fault env
    writeService fault env env.definition
    writeRecord codec fault env
    start fault

/-! ### Uninstalling -/

/-- Remove files, where it is no error that one is missing. -/
def removeItems : List Item → Setup Unit
  | [] => pure ()
  | item :: items => do
    ensureSafe (item.path env.manager)
    call fault (.remove item)
    let fs ← .get
    ensure (decide (fs.tree (item.path env.manager) ≠ some .dir)) "io"
    .modify (.remove (item.path env.manager))
    removeItems items

/-- `remove_dir`, where it does not matter whether it is done. -/
def removeDir (path : Path) : Setup Unit :=
  .modify fun fs => if fs.tree path = some .dir ∧ fs.hasEntries path = false then fs.remove path else fs

/-- The service is stopped, if it is there. -/
def stopService : Setup Unit := do
  ensureSafe (path env.manager .service)
  let fs ← .get
  if fs.tree (path env.manager .service) = none then pure () else call fault .disable

/-- `uninstall_under`. -/
def uninstall (purge : Bool) : Setup Unit := do
  let record ← manifest codec
  ensure (decide (record.manager = env.manager)) "service_manager_changed"
  let targets := if purge then Item.owned else [.executable, .service]
  verify codec record true targets
  stopService fault env
  removeItems fault env targets
  call fault .daemonReload
  if purge then do
    removeItems fault env [.record]
    removeDir configDir
    removeDir ["opt", "pebrel-relay"]
  else pure ()

end

end Pebrel.RelayService
