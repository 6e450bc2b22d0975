import Pebrel.Sync.Payload

/-!
# Saved commands

The commands that a user saves, the groups they are in, and the built-in
recipes that were deleted (`saved_commands.rs`, `groups.rs`, `bulk.rs`). All
windows keep them in one file. An operation takes the lock of the file, reads
the file, changes what it read, checks it, writes it, and only then replaces
what the window has in memory (`mutate_store`).

## The model

A window has the path of the file fixed, so it is left out. The text of a file
is written and read by `serde_json`, which is a parameter, `JsonText`; what the
derived `Serialize` and `Deserialize` make of a JSON value is part of the model.
A digest of SHA-256 is an argument, and so is what the file system does.
-/

namespace Pebrel.Commands

open Library
open Library.Text (byteLen)
open Sync (Json)

/-! ### Errors -/

/-- `io::ErrorKind`, as far as it is set here. -/
inductive ErrorKind where
  | notFound
  | wouldBlock
  | invalidInput
  | invalidData
  | other

/-- `io::Error`; the text of an error that comes from elsewhere is left out. -/
structure Error where
  kind : ErrorKind
  text : Option String

/-! ### Commands, groups and limits -/

structure SavedCommand where
  id : Text
  name : Text
  command : Text
  /-- Otherwise the command is only put into the terminal, to be completed by the user. -/
  appendEnter : Bool

structure CommandGroup where
  id : Text
  name : Text

structure Organization where
  groups : List CommandGroup
  /-- No entry is the default; an entry without a group keeps a builtin out of its default group. -/
  membership : Assoc.Map Text (Option Text)

structure SavedCommands where
  commands : List SavedCommand
  organization : Organization
  deletedBuiltins : Assoc.Map Text Unit

def SavedCommands.default : SavedCommands := ⟨[], ⟨[], .empty⟩, .empty⟩

def storeVersion : ℕ := 1
def maxCommands : ℕ := 40
def maxIdChars : ℕ := 80
def maxNameChars : ℕ := 80
def maxCommandChars : ℕ := 4000
def maxGroups : ℕ := 40
def builtinGroupId : Text := "builtin".toList

def isBuiltinId (id : Text) : Bool :=
  "builtin:".toList.isPrefixOf id && decide (8 < byteLen id) && decide (byteLen id ≤ maxIdChars)

/-- The ids of `builtins::commands`, on all platforms. -/
def builtinIds : List Text :=
  ["builtin:docker_install_windows", "builtin:docker_install_mac", "builtin:docker_install_ubuntu",
    "builtin:docker_install_fedora", "builtin:docker_logs", "builtin:docker_exec", "builtin:compose_up",
    "builtin:conda_install_windows", "builtin:conda_install_mac", "builtin:conda_install_linux", "builtin:conda_create",
    "builtin:conda_export", "builtin:conda_restore", "builtin:python_install_windows", "builtin:python_install_mac",
    "builtin:python_install_ubuntu", "builtin:python_install_fedora", "builtin:git_install_windows",
    "builtin:git_install_mac", "builtin:git_install_ubuntu", "builtin:git_install_fedora"].map String.toList

/-- A digest of SHA-256. -/
abbrev Digest := Vector UInt8 32

/-- `{byte:02x}`. -/
def hexByte (byte : UInt8) : Text := [Nat.digitChar (byte.toNat / 16), Nat.digitChar (byte.toNat % 16)]

def newId (digest : Digest) : Text := "cmd-".toList ++ (digest.toList.take 10).flatMap hexByte

/-! ### Checks -/

def normalizeFields (name command : Text) : Except Error (Text × Text) :=
  let name := Text.trim name
  let command := Text.trim command
  if name = [] then .error ⟨.invalidInput, "command name is required"⟩
  else if name.any fun c => c = '\r' ∨ c = '\n' ∨ c = '\x00' then
    .error ⟨.invalidInput, "command name must be a single line"⟩
  else if maxNameChars < name.length then .error ⟨.invalidInput, "command name exceeds 80 characters"⟩
  else if command = [] then .error ⟨.invalidInput, "command text is required"⟩
  else if '\x00' ∈ command then .error ⟨.invalidInput, "command contains NUL"⟩
  else if maxCommandChars < command.length then .error ⟨.invalidInput, "command text exceeds 4000 characters"⟩
  else .ok (name, command)

/-- The loop of `validate_store`, with the ids seen before. -/
def validateIds : List Text → List SavedCommand → Except Error Unit
  | _, [] => .ok ()
  | seen, saved :: rest =>
    if Text.trim saved.id = [] ∨ maxIdChars < saved.id.length ∨ saved.id ∈ seen then
      .error ⟨.invalidData, "saved command ids must be non-empty, unique, and at most 80 characters"⟩
    else
      match normalizeFields saved.name saved.command with
      | .error e => .error ⟨.invalidData, e.text⟩
      | .ok _ => validateIds (saved.id :: seen) rest

def validateStore (commands : List SavedCommand) : Except Error Unit :=
  if maxCommands < commands.length then .error ⟨.invalidData, "saved command store exceeds 40 entries"⟩
  else validateIds [] commands

namespace SavedCommands

variable (store : SavedCommands)

def hasCommand (id : Text) : Bool :=
  (isBuiltinId id && !store.deletedBuiltins.containsKey id) || store.commands.any fun command => command.id = id

def hasGroup (id : Option Text) : Bool :=
  id.all fun id => decide (id = builtinGroupId) || store.organization.groups.any fun group => group.id = id

end SavedCommands

/-- The loop of `validate_groups` over the groups, with the ids seen before. -/
def groupsValid : List Text → List CommandGroup → Bool
  | _, [] => true
  | seen, group :: rest =>
    if group.id = [] ∨ maxIdChars < byteLen group.id ∨ group.id = builtinGroupId ∨ group.id ∈ seen then false
    else
      match normalizeFields group.name "group".toList with
      | .error _ => false
      | .ok _ => groupsValid (group.id :: seen) rest

def SavedCommands.validateGroups (store : SavedCommands) : Except Error Unit :=
  if maxGroups < store.organization.groups.length then .error ⟨.invalidData, "invalid command group metadata"⟩
  else if !groupsValid [] store.organization.groups then .error ⟨.invalidData, "invalid command group metadata"⟩
  else if store.organization.membership.entries.any fun e => !store.hasCommand e.1 || !store.hasGroup e.2 then
    .error ⟨.invalidData, "invalid command group metadata"⟩
  else .ok ()

/-! ### The file -/

structure CommandStore where
  version : ℕ
  commands : List SavedCommand
  organization : Organization
  deletedBuiltins : Assoc.Map Text Unit

/-- The fields that the derived `Deserialize` of a struct finds: by name in an object, where none may
come twice, or by place in an array. -/
def structFields (names : List Text) : Json → Option (List (Option Json))
  | .object members =>
    names.mapM fun name =>
      match Assoc.values name members with
      | [] => some none
      | [value] => some (some value)
      | _ => none
  | .array items => if items.length ≤ names.length then some ((List.range names.length).map fun i => items[i]?) else none
  | _ => none

namespace SavedCommand

def fieldNames : List Text := ["id", "name", "command", "append_enter"].map String.toList

def toJson (saved : SavedCommand) : Json :=
  .object (fieldNames.zip [.string saved.id, .string saved.name, .string saved.command, .bool saved.appendEnter])

def fromJson (value : Json) : Option SavedCommand :=
  match structFields fieldNames value with
  | some [some (.string id), some (.string name), some (.string command), none] => some ⟨id, name, command, true⟩
  | some [some (.string id), some (.string name), some (.string command), some (.bool appendEnter)] =>
    some ⟨id, name, command, appendEnter⟩
  | _ => none

end SavedCommand

namespace CommandGroup

def fieldNames : List Text := ["id", "name"].map String.toList

def toJson (group : CommandGroup) : Json := .object (fieldNames.zip [.string group.id, .string group.name])

def fromJson (value : Json) : Option CommandGroup :=
  match structFields fieldNames value with
  | some [some (.string id), some (.string name)] => some ⟨id, name⟩
  | _ => none

end CommandGroup

/-- `Vec<T>`, which is empty by default. -/
def listFromJson {α : Type} (item : Json → Option α) : Option Json → Option (List α)
  | none => some []
  | some (.array items) => items.mapM item
  | some _ => none

def textToJson : Option Text → Json
  | none => .null
  | some t => .string t

/-- `Option<String>`. -/
def textFromJson : Json → Option (Option Text)
  | .null => some none
  | .string t => some (some t)
  | _ => none

/-- `BTreeMap<String, Option<String>>`, which is empty by default. -/
def membershipFromJson : Option Json → Option (Assoc.Map Text (Option Text))
  | none => some .empty
  | some (.object members) => (members.mapM fun e => (textFromJson e.2).map fun group => (e.1, group)).map .ofEntries
  | some _ => none

namespace Organization

def fieldNames : List Text := ["groups", "membership"].map String.toList

def toJson (organization : Organization) : Json :=
  .object (fieldNames.zip [.array (organization.groups.map CommandGroup.toJson),
    .object (organization.membership.entries.map fun e => (e.1, textToJson e.2))])

def fromJson : Option Json → Option Organization
  | none => some ⟨[], .empty⟩
  | some value =>
    match structFields fieldNames value with
    | some [groups, membership] => do
      let groups ← listFromJson CommandGroup.fromJson groups
      let membership ← membershipFromJson membership
      some ⟨groups, membership⟩
    | _ => none

end Organization

namespace CommandStore

def fieldNames : List Text := ["version", "commands", "organization", "deleted_builtins"].map String.toList

def toJson (store : CommandStore) : Json :=
  let fields := [.int store.version, .array (store.commands.map SavedCommand.toJson), store.organization.toJson]
  let deleted := if store.deletedBuiltins.entries = [] then []
    else [.array (store.deletedBuiltins.entries.map fun e => .string e.1)]
  .object (fieldNames.zip (fields ++ deleted))

def fromJson (value : Json) : Option CommandStore :=
  match structFields fieldNames value with
  | some [some (.int version), commands, organization, deleted] =>
    if 0 ≤ version ∧ version < 2 ^ 32 then do
      let commands ← listFromJson SavedCommand.fromJson commands
      let organization ← Organization.fromJson organization
      let deleted ← listFromJson Json.asStr deleted
      some ⟨version.toNat, commands, organization, .ofEntries (deleted.map fun id => (id, ()))⟩
    else none
  | _ => none

end CommandStore

/-- `serde_json` on the texts of files. -/
class JsonText (Bytes : Type) where
  toVecPretty : Json → Bytes
  fromSlice : Bytes → Option Json

/-- What `serde_json` writes of a store it reads. -/
class LawfulJsonText (Bytes : Type) [JsonText Bytes] : Prop where
  fromSlice_toVecPretty (store : CommandStore) :
    JsonText.fromSlice (JsonText.toVecPretty store.toJson : Bytes) = some store.toJson

/-! ### The file system -/

inductive LockOutcome where
  | acquired
  /-- Another process has the lock. -/
  | held
  | failed

/-- Where `atomic_file::write` fails. -/
inductive WriteFault where
  | createDirectory
  | openTemporary
  | writeAll
  | syncFile
  | rename
  /-- `replace` has renamed the file, and cannot sync the parent directory. -/
  | syncDirectory

/-- What the file system does in a transaction. -/
structure Storage where
  lock : LockOutcome
  readFails : Bool
  write : Option WriteFault

section
variable {Bytes : Type}

/-- `atomic_file::write`: the file afterwards, and the result. -/
def atomicWrite (fault : Option WriteFault) (file : Option Bytes) (contents : Bytes) : Option Bytes × Except Error Unit :=
  match fault with
  | none => (some contents, .ok ())
  | some .syncDirectory => (some contents, .error ⟨.other, none⟩)
  | some _ => (file, .error ⟨.other, none⟩)

variable [JsonText Bytes]

def SavedCommands.fromBytes (bytes : Bytes) : Except Error SavedCommands :=
  match (JsonText.fromSlice bytes).bind CommandStore.fromJson with
  | none => .error ⟨.invalidData, none⟩
  | some store =>
    if store.version ≠ storeVersion then
      .error ⟨.invalidData, "unsupported saved command version " ++ toString store.version⟩
    else
      match validateStore store.commands with
      | .error e => .error e
      | .ok () =>
        let saved : SavedCommands := ⟨store.commands, store.organization, store.deletedBuiltins⟩
        if saved.deletedBuiltins.entries.any fun e => !isBuiltinId e.1 then
          .error ⟨.invalidData, "invalid builtin command id"⟩
        else
          match saved.validateGroups with
          | .error e => .error e
          | .ok () => .ok saved

def SavedCommands.loadFrom (readFails : Bool) (file : Option Bytes) : Except Error SavedCommands :=
  if readFails then .error ⟨.other, none⟩
  else
    match file with
    | none => .ok .default
    | some bytes => SavedCommands.fromBytes bytes

/-- The file and the result of a transaction; nothing where `mutate` does not come to an end. -/
def mutateStore {T : Type} (storage : Storage) (file : Option Bytes)
    (mutate : SavedCommands → Option (Except Error (SavedCommands × T))) :
    Option (Option Bytes × Except Error (SavedCommands × T)) :=
  match storage.lock with
  | .failed => some (file, .error ⟨.other, none⟩)
  | .held => some (file, .error ⟨.wouldBlock, "saved command store is locked by another process"⟩)
  | .acquired =>
    match SavedCommands.loadFrom storage.readFails file with
    | .error e => some (file, .error e)
    | .ok saved =>
      match mutate saved with
      | none => none
      | some (.error e) => some (file, .error e)
      | some (.ok (saved, result)) =>
        match validateStore saved.commands, saved.validateGroups with
        | .error e, _ => some (file, .error e)
        | .ok (), .error e => some (file, .error e)
        | .ok (), .ok () =>
          let store : CommandStore := ⟨storeVersion, saved.commands, saved.organization, saved.deletedBuiltins⟩
          match atomicWrite storage.write file (JsonText.toVecPretty store.toJson) with
          | (file, .error e) => some (file, .error e)
          | (file, .ok ()) => some (file, .ok (saved, result))

end

/-! ### What the operations do to a store -/

namespace SavedCommands

variable (store : SavedCommands)

def addGroup (name : Text) (digest : Digest) : Except Error SavedCommands :=
  match normalizeFields name "group".toList with
  | .error e => .error e
  | .ok (name, _) =>
    if maxGroups ≤ store.organization.groups.length ∨ store.organization.groups.any fun group => group.name = name then
      .error ⟨.invalidInput, "duplicate name or group limit reached"⟩
    else
      .ok { store with organization.groups := store.organization.groups ++ [⟨newId digest, name⟩] }

def assignGroup (commandId : Text) (group : Option Text) : Except Error SavedCommands :=
  if !store.hasCommand commandId || !store.hasGroup group then .error ⟨.notFound, "command or group no longer exists"⟩
  else .ok { store with organization.membership := store.organization.membership.insert commandId group }

def deleteGroup (groupId : Text) : Except Error SavedCommands :=
  match store.organization.groups.findIdx? fun group => group.id = groupId with
  | none => .error ⟨.notFound, "group no longer exists"⟩
  | some index =>
    .ok { store with
      organization.groups := store.organization.groups.eraseIdx index
      organization.membership := store.organization.membership.mapValues fun group =>
        if group = some groupId then none else group }

def removeIds (ids : List Text) : SavedCommands × ℕ :=
  let new := ids.dedup.filter fun id => isBuiltinId id && !store.deletedBuiltins.containsKey id
  ({ commands := store.commands.filter fun command => command.id ∉ ids
     organization := { store.organization with membership := store.organization.membership.filterKeys (· ∉ ids) }
     deletedBuiltins := new.foldl (fun deleted id => deleted.insert id ()) store.deletedBuiltins },
    (store.commands.filter fun command => command.id ∈ ids).length + new.length)

/-- The id of the first digest that gives no id of a command; nothing where there is none among them. -/
def freshId (commands : List SavedCommand) : List Digest → Option Text
  | [] => none
  | digest :: digests =>
    if commands.any fun existing => existing.id = newId digest then freshId commands digests else some (newId digest)

def insertInGroup (name command : Text) (appendEnter : Bool) (group : Option Text) (digests : List Digest) :
    Option (Except Error (SavedCommands × SavedCommand)) :=
  if maxCommands ≤ store.commands.length then some (.error ⟨.invalidInput, "saved command limit is 40"⟩)
  else
    match normalizeFields name command with
    | .error e => some (.error e)
    | .ok (name, command) =>
      match freshId store.commands digests with
      | none => none
      | some id =>
        let saved : SavedCommand := ⟨id, name, command, appendEnter⟩
        let store := { store with commands := store.commands ++ [saved] }
        if group.isSome then
          match store.assignGroup id group with
          | .error e => some (.error e)
          | .ok store => some (.ok (store, saved))
        else some (.ok (store, saved))

def update (id name command : Text) (appendEnter : Bool) : Except Error SavedCommands :=
  match normalizeFields name command with
  | .error e => .error e
  | .ok (name, command) =>
    match store.commands.findIdx? fun saved => saved.id = id with
    | none => .error ⟨.notFound, "saved command not found"⟩
    | some index =>
      .ok { store with commands := store.commands.modify index fun saved => { saved with name, command, appendEnter } }

def remove (id : Text) : Except Error SavedCommands :=
  if !isBuiltinId id && !store.commands.any fun saved => saved.id = id then .error ⟨.notFound, "saved command not found"⟩
  else .ok (store.removeIds [id]).1

def clearCommands : SavedCommands × ℕ := store.removeIds (builtinIds ++ store.commands.map SavedCommand.id)

def clearBuiltinCommands : SavedCommands × ℕ := store.removeIds builtinIds

def restoreBuiltinCommands : SavedCommands × ℕ := ({ store with deletedBuiltins := .empty }, store.deletedBuiltins.entries.length)

end SavedCommands

/-! ### Operations of the windows -/

/-- An operation, with the digests that it draws. -/
inductive Operation where
  | insertInGroup (name command : Text) (appendEnter : Bool) (group : Option Text) (digests : List Digest)
  | update (id name command : Text) (appendEnter : Bool)
  | remove (id : Text)
  | removeMany (ids : List Text)
  | clearCommands
  | clearBuiltinCommands
  | restoreBuiltinCommands
  | createGroup (name : Text) (digest : Digest)
  | moveToGroup (commandId : Text) (group : Option Text)
  | removeGroup (groupId : Text)

/-- What an operation returns. -/
inductive Reply where
  | command (saved : SavedCommand)
  | count (n : ℕ)
  | done

/-- What the operation does inside the transaction. -/
def Operation.mutate (store : SavedCommands) : Operation → Option (Except Error (SavedCommands × Reply))
  | insertInGroup name command appendEnter group digests =>
    (store.insertInGroup name command appendEnter group digests).map fun r => r.map fun p => (p.1, .command p.2)
  | update id name command appendEnter => some ((store.update id name command appendEnter).map (·, .done))
  | remove id => some ((store.remove id).map (·, .done))
  | removeMany ids => some (.ok ((store.removeIds ids).1, .count (store.removeIds ids).2))
  | clearCommands => some (.ok (store.clearCommands.1, .count store.clearCommands.2))
  | clearBuiltinCommands => some (.ok (store.clearBuiltinCommands.1, .count store.clearBuiltinCommands.2))
  | restoreBuiltinCommands => some (.ok (store.restoreBuiltinCommands.1, .count store.restoreBuiltinCommands.2))
  | createGroup name digest => some ((store.addGroup name digest).map (·, .done))
  | moveToGroup commandId group => some ((store.assignGroup commandId group).map (·, .done))
  | removeGroup groupId => some ((store.deleteGroup groupId).map (·, .done))

/-- The file and what each window has in memory. -/
structure Windows (Bytes : Type) where
  file : Option Bytes
  memory : ℕ → SavedCommands
  /-- What the last operation that succeeded made of the store. -/
  produced : Option SavedCommands

/-- A window carries out an operation. -/
structure Call where
  window : ℕ
  storage : Storage
  operation : Operation

/-- What the call leads to, and what it returns. -/
def Call.perform {Bytes : Type} [JsonText Bytes] (s : Windows Bytes) (call : Call) :
    Option (Windows Bytes × Except Error Reply) :=
  match mutateStore call.storage s.file fun store => call.operation.mutate store with
  | none => none
  | some (file, .error e) => some ({ s with file }, .error e)
  | some (file, .ok (next, reply)) => some (⟨file, Function.update s.memory call.window next, some next⟩, .ok reply)

def Call.step {Bytes : Type} [JsonText Bytes] (s : Windows Bytes) (call : Call) : Option (Windows Bytes) :=
  (call.perform s).map Prod.fst

end Pebrel.Commands
