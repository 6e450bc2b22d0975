import Pebrel.Backup.Archive
import Pebrel.Settings.Migration

/-!
# Collecting a backup

Which files of the data directory go into an archive, and what is taken out of
them (`collect_from` of `encrypted_backup.rs`), with the sealing and opening of an
archive.

## The model

A read of a file gives its bytes, or that there is none, or an error; it goes
through links. The fonts are a listing, in the order in which directories are read,
with the names that the system gives. `serde_json` and the cipher are parameters.
The loop over the directories of fonts has fuel for all of them.
-/

namespace Pebrel.Backup

open Library Prod
open Settings.Migration (Name Path Listing Leaf dataFiles isMigrationArtifact)
open Sync (Json)
open Commands (JsonText)

/-! ### The data directory -/

/-- What a read of a file gives. -/
inductive Read where
  | bytes (b : Bytes)
  | notFound
  | failed

/-- A name that a file can have. -/
def LegalName (name : Name) : Prop :=
  name ≠ [] ∧ .inl '/' ∉ name ∧ name ≠ .ofText ['.'] ∧ name ≠ .ofText ['.', '.']

/-- The name is that of an entry. -/
def Named (name : Name) : Listing → Prop
  | .nil => False
  | .leaf name' _ rest => name = name' ∨ Named name rest
  | .dir name' _ rest => name = name' ∨ Named name rest

/-- The entries of each directory have different names, that files can have. -/
def WellNamed : Listing → Prop
  | .nil => True
  | .leaf name _ rest => LegalName name ∧ ¬ Named name rest ∧ WellNamed rest
  | .dir name entries rest => LegalName name ∧ ¬ Named name rest ∧ WellNamed entries ∧ WellNamed rest

/-- What is at the path of the fonts. -/
inductive Fonts where
  | missing
  | noDirectory
  | directory (entries : Listing)

structure DataDirectory where
  read : Text → Read
  fonts : Fonts
  wellNamed : ∀ entries, fonts = .directory entries → WellNamed entries

/-- The errors, with the file that an error names. -/
inductive CollectError where
  | readFile (candidate : Text)
  | invalidSsh
  | readFonts
  deriving DecidableEq

/-! ### Files -/

def canonicalDataFileName (name : Text) : Text := ((dataFiles.find? fun e => e.1 = name).map snd).getD name

def legacyDataFileName (name : Text) : Option Text := (dataFiles.find? fun e => e.2 = name).map fst

/-- The loop of `add_file` over its candidates. -/
def readCandidates (dir : DataDirectory) : List Text → Except CollectError (Option Bytes)
  | [] => .ok none
  | candidate :: rest =>
    match dir.read candidate with
    | .bytes b => .ok (some b)
    | .notFound => readCandidates dir rest
    | .failed => .error (.readFile candidate)

/-- What `add_file` reads: the file under its name of now, or else under its name of before. -/
def storedFile (dir : DataDirectory) (name : Text) : Except CollectError (Option Bytes) :=
  let canonical := canonicalDataFileName name
  let legacy := (legacyDataFileName canonical).getD name
  readCandidates dir (if canonical = legacy then [canonical] else [canonical, legacy])

/-- `add_file`: the entries it adds. -/
def addFile (dir : DataDirectory) (category : BackupCategory) (name : Text) (transform : Bytes → Bytes) :
    Except CollectError (List BackupEntry) :=
  match storedFile dir name with
  | .error e => .error e
  | .ok none => .ok []
  | .ok (some bytes) => .ok [⟨category, canonicalDataFileName name, transform bytes⟩]

/-- The files of a category, one after another, as they are. -/
def addFiles (dir : DataDirectory) (category : BackupCategory) : List Text → Except CollectError (List BackupEntry)
  | [] => .ok []
  | name :: names =>
    match addFile dir category name id with
    | .error e => .error e
    | .ok entries =>
      match addFiles dir category names with
      | .error e => .error e
      | .ok more => .ok (entries ++ more)

/-! ### SSH profiles -/

/-- `remove`, which puts the last member in the place of the removed one. -/
def removeMember (key : Text) : List (Text × Json) → List (Text × Json)
  | [] => []
  | m :: ms => if m.1 = key then ms.getLast?.toList ++ ms.dropLast else m :: removeMember key ms

/-- A profile without its keys and its proxy. -/
def sanitizeProfile : Json → Json
  | .object members => .object (removeMember "proxy".toList (removeMember "private_keys".toList members))
  | profile => profile

/-- The member, with its profiles sanitized. -/
def sanitizeMember (m : Text × Json) : Text × Json :=
  if m.1 = "profiles".toList then
    match m.2 with
    | .array profiles => (m.1, .array (profiles.map sanitizeProfile))
    | _ => m
  else m

def sanitize : Json → Json
  | .object members => .object (members.map sanitizeMember)
  | value => value

/-- A value inside another one. -/
inductive Part : Json → Json → Prop where
  | self (v : Json) : Part v v
  | item {w v : Json} {items : List Json} : v ∈ items → Part w v → Part w (.array items)
  | member {w : Json} {m : Text × Json} {members : List (Text × Json)} : m ∈ members → Part w m.2 → Part w (.object members)

/-- A value of which members are taken out. -/
inductive Less : Json → Json → Prop where
  | refl (v : Json) : Less v v
  | array {a b : List Json} : List.Forall₂ Less a b → Less (.array a) (.array b)
  /-- The members `kept` of an object, each with a value of which members are taken out. -/
  | object {a b kept : List (Text × Json)} : kept.Subperm b → a.map fst = kept.map fst →
      List.Forall₂ Less (a.map snd) (kept.map snd) → Less (.object a) (.object b)

/-- Values that are the same but for the digits of their floats. -/
inductive Alike : Json → Json → Prop where
  | refl (v : Json) : Alike v v
  | float (a b : Text) : Alike (.float a) (.float b)
  | array {a b : List Json} : List.Forall₂ Alike a b → Alike (.array a) (.array b)
  | object {a b : List (Text × Json)} : a.map fst = b.map fst →
      List.Forall₂ Alike (a.map snd) (b.map snd) → Alike (.object a) (.object b)

/-- `serde_json::to_vec`, of values that were read. -/
class JsonWriter [JsonText Bytes] where
  toVec : Json → Bytes
  /-- An object has no key twice. -/
  distinct {bytes : Bytes} {value : Json} {members : List (Text × Json)} : JsonText.fromSlice bytes = some value →
    Part (.object members) value → (members.map fst).Nodup
  /-- What was read is read again, with members taken out too; floats may lose their last digit. -/
  read_written {bytes : Bytes} {value w : Json} : JsonText.fromSlice bytes = some value → Less w value →
    ∃ w', JsonText.fromSlice (toVec w) = some w' ∧ Alike w w'

def addSanitizedSsh [JsonText Bytes] [JsonWriter] (dir : DataDirectory) : Except CollectError (List BackupEntry) :=
  match dir.read "ssh_profiles.json".toList with
  | .bytes bytes =>
    match JsonText.fromSlice bytes with
    | none => .error .invalidSsh
    | some value => .ok [⟨.ssh, "ssh_profiles.json".toList, JsonWriter.toVec (sanitize value)⟩]
  | _ => .ok []

/-! ### Fonts -/

/-- `to_string_lossy` of a name. -/
def lossy (name : Name) : Text := name.map fun u =>
  match u with
  | .inl c => c
  | .inr _ => .ofNat 0xfffd

/-- The name of the entry of a font: its path in the data directory, with slashes. -/
def fontName (path : Path) : Text :=
  (['/'].intercalate (("fonts".toList : Text) :: path.map lossy)).map fun c => if c = '\x5c' then '/' else c

/-- The name is one that a migration left behind. -/
def isArtifact (name : Name) : Bool := name.toStr.any isMigrationArtifact

/-- The loop over one directory: the directories that are found are put on the stack, and the files are added. -/
def scan (path : Path) : Listing → List (Path × Listing) → List BackupEntry → List (Path × Listing) × List BackupEntry
  | .nil, stack, entries => (stack, entries)
  | .leaf name leaf rest, stack, entries =>
    if isArtifact name then scan path rest stack entries
    else
      match leaf with
      | .file contents => scan path rest stack (entries ++ [⟨.fonts, fontName (path ++ [name]), contents.bytes⟩])
      | _ => scan path rest stack entries
  | .dir name listing rest, stack, entries =>
    if isArtifact name then scan path rest stack entries
    else scan path rest ((path ++ [name], listing) :: stack) entries

/-- The loop over the stack. -/
def walk : ℕ → List (Path × Listing) → List BackupEntry → List BackupEntry
  | 0, _, entries => entries
  | _, [], entries => entries
  | n + 1, (path, listing) :: stack, entries =>
    let (stack, entries) := scan path listing stack entries
    walk n stack entries

/-- The number of directories of a listing, itself among them. -/
def directories : Listing → ℕ
  | .nil => 1
  | .leaf _ _ rest => directories rest
  | .dir _ entries rest => directories entries + directories rest

def addFonts (dir : DataDirectory) : Except CollectError (List BackupEntry) :=
  match dir.fonts with
  | .missing => .ok []
  | .noDirectory => .error .readFonts
  | .directory entries => .ok (walk (directories entries) [([], entries)] [])

/-! ### Archives -/

section
variable [JsonText Bytes] [JsonWriter]

/-- What a category adds. -/
def addCategory (dir : DataDirectory) : BackupCategory → Except CollectError (List BackupEntry)
  | .appearance => addFile dir .appearance "nebula_settings.txt".toList filterSettings
  | .config =>
    addFiles dir .config (["nebula.lua", "nebula.toml", "nebula.yml", "nebula.yaml", "terminal_profiles.json"].map String.toList)
  | .ssh => addSanitizedSsh dir
  | .sync => addFiles dir .sync ["nebula_sync.txt".toList]
  | .assistant => addFiles dir .assistant ["nebula_assistant.txt".toList]
  | .session => addFiles dir .session ["session.json".toList]
  | .directoryHistory => addFiles dir .directoryHistory ["directory_history.json".toList]
  | .commandHistory =>
    addFiles dir .commandHistory (["pebrel_history.jsonl", "pebrel_history_wsl.jsonl", "pebrel_history_ssh.jsonl",
      "saved_commands.json"].map String.toList)
  | .fonts => addFonts dir

def addCategories (dir : DataDirectory) : List BackupCategory → Except CollectError (List BackupEntry)
  | [] => .ok []
  | category :: categories =>
    match addCategory dir category with
    | .error e => .error e
    | .ok entries =>
      match addCategories dir categories with
      | .error e => .error e
      | .ok more => .ok (entries ++ more)

def collectFrom (dir : DataDirectory) (selection : BackupSelection) : Except CollectError BackupArchive :=
  match addCategories dir selection.categories with
  | .error e => .error e
  | .ok entries => .ok ⟨1, selection.categories, entries⟩

end

section
variable [JsonText Bytes] [Cipher] [SerdeJson BackupArchive]

/-- `seal`. -/
def sealArchive (drawn : Option Drawn) (archive : BackupArchive) (passphrase : Text) : Except RestoreError Bytes :=
  if passphrase.length < 8 then .error (.encryption .shortPassphrase)
  else
    match validateArchive archive with
    | .error e => .error e
    | .ok () => (encryptJson drawn archive passphrase).mapError .encryption

/-- `open`. -/
def openArchive (packet : Bytes) (passphrase : Text) : Except RestoreError BackupArchive :=
  match (decryptJson packet passphrase : Except EncryptionError BackupArchive) with
  | .error e => .error (.encryption e)
  | .ok archive =>
    match validateArchive archive with
    | .error e => .error e
    | .ok () => .ok archive

end

end Pebrel.Backup
