import Pebrel.Library.Transition
import Pebrel.Themes.Names

/-!
# The theme library

The themes of the user are files of one directory, one document each
(`theme_library/store.rs`). A write reads the stored document and checks it, then writes, under a
lock that all clients share; who finds the lock taken gives up. A client that adds a theme first
looks, without the lock, which names and identifiers there are.

## The model

Clients are numbers, and each step of one is a step of the library: what it reads may be old when
it uses it. The directory holds regular files; `serde_json` is a parameter (`ThemeText`). A write
may fail before the file is replaced, or after that.
-/

namespace Pebrel.Themes

open Library Sync

/-- `serde_json` on the bytes of files. -/
class ThemeText (Bytes : Type) where
  toVecPretty : Json → Bytes
  fromSlice : Bytes → Option Json
  len : Bytes → ℕ

inductive StoreError where
  | io
  | document (error : DocumentError)
  | invalidId (id : Text)
  | invalidDocument (id : Option Text)
  | notFound (id : Text)
  | builtinReadOnly (id : Text)
  | busy
  | conflict (expected actual : Option ℕ)
  | limit (limit : ℕ)

inductive RevisionPrecondition where
  | absent
  | exact (revision : ℕ)
  | any
  | unchanged (expected : ThemeDocument)

/-- The documents of the directory, by identifier. -/
abbrev Files (Bytes : Type) := Assoc.Map Text Bytes

/-- `?` on the error of a document. -/
def liftDocument {α : Type} : Except DocumentError α → Except StoreError α
  | .ok value => .ok value
  | .error error => .error (.document error)

section
variable {Bytes : Type} [ThemeValues] [ThemeText Bytes]

/-! ### Files -/

def fromJsonBytes (bytes : Bytes) : Except DocumentError ThemeDocument :=
  if maxDocumentBytes < ThemeText.len bytes then .error .tooLarge
  else
    match ThemeText.fromSlice bytes with
    | none => .error .json
    | some value => ThemeDocument.fromValue value

def toJsonBytes (Bytes : Type) [ThemeText Bytes] (d : ThemeDocument) : Except DocumentError Bytes :=
  if maxDocumentBytes < ThemeText.len (ThemeText.toVecPretty d.toValue : Bytes) then .error .tooLarge else .ok
    (ThemeText.toVecPretty d.toValue)

def readDocument (files : Files Bytes) (id : Text) : Except StoreError (Option ThemeDocument) :=
  match files.get? id with
  | none => .ok none
  | some bytes =>
    match fromJsonBytes bytes with
    | .error error => .error (.document error)
    | .ok d => if d.isBuiltin then .error (.invalidDocument d.id) else if d.id ≠ some id then .error
        (.invalidDocument d.id) else .ok (some d)

def customFileCount (files : Files Bytes) : ℕ := (files.entries.filter fun e => validateId e.1).length

/-! ### Writing -/

/-- What a save checks before it takes the lock. -/
def checkDocument (d : ThemeDocument) : Except StoreError Text :=
  if d.isBuiltin then .error (.builtinReadOnly d.name)
  else
    match d.id with
    | none => .error (.invalidDocument none)
    | some id =>
      if validateId id = false then .error (.invalidId id)
      else do
        liftDocument d.definition
        pure id

/-- The revision that a precondition expects of the stored document. -/
def RevisionPrecondition.expected (precondition : RevisionPrecondition) (id : Text) (current : Option ThemeDocument) :
    Except StoreError (Option ℕ) :=
  let actual := current.map ThemeDocument.revision
  match precondition with
  | .absent => if current.isSome then .error (.conflict none actual) else .ok none
  | .exact revision => if actual ≠ some revision then .error (.conflict (some revision) actual) else .ok (some revision)
  | .any => .ok actual
  | .unchanged expected =>
    if expected.id ≠ some id then .error (.invalidDocument expected.id)
    else if current.any (fun d => ThemeValues.same d.toValue expected.toValue) = false then .error
      (.conflict (some expected.revision) actual)
    else .ok (some expected.revision)

/-- `revision.saturating_add(1)`. -/
def nextRevision (expected : Option ℕ) : ℕ := (expected.map fun revision => min (revision + 1) (2 ^ 64 - 1)).getD 1

/-- What a save does under the lock before it writes: the document that it will write. -/
def prepare (files : Files Bytes) (id : Text) (d : ThemeDocument) (precondition : RevisionPrecondition) :
    Except StoreError ThemeDocument := do
  let current ← readDocument files id
  let expected ← precondition.expected id current
  if current.isNone ∧ maxCustomThemes ≤ customFileCount files then .error (.limit maxCustomThemes)
  else do
    let stored := d.withIdAndRevision id (nextRevision expected)
    let _ ← liftDocument (toJsonBytes Bytes stored)
    pure stored

/-- What a deletion checks under the lock. -/
def checkDelete (files : Files Bytes) (id : Text) (revision : ℕ) : Except StoreError Unit := do
  match ← readDocument files id with
  | none => .error (.conflict (some revision) none)
  | some d => if d.revision ≠ revision then .error (.conflict (some revision) (some d.revision)) else .ok ()

/-! ### Clients -/

inductive Write where
  | save (id : Text) (document : ThemeDocument) (precondition : RevisionPrecondition)
  | delete (id : Text) (revision : ℕ)

/-- A theme that is added. -/
inductive Request where
  | import (document : ThemeDocument) (name : Option Text)
  | fork (builtin : ThemeDocument) (name : Option Text)

def Request.name : Request → Text
  | .import document name => name.getD document.name
  | .fork builtin name => name.getD builtin.name

/-- The document that a request saves. -/
def Request.candidate (id name : Text) : Request → Except DocumentError ThemeDocument
  | .import document _ => (document.withName name).map fun d => d.withIdAndRevision id 0
  | .fork builtin _ => builtin.fork id name

def Request.document : Request → ThemeDocument
  | .import document _ => document
  | .fork builtin _ => builtin

/-- Where a client is. -/
inductive Phase where
  /-- The result of the last operation: the document that was saved, or none for a deletion. -/
  | idle (result : Option (Except StoreError (Option ThemeDocument)))
  /-- It reads the themes there are, and has read some. -/
  | listing (request : Request) (unread : List Text) (custom : List ThemeDocument)
  /-- It looks for an identifier. -/
  | probing (request : Request) (name : Text) (custom : List ThemeDocument) (suffix : ℕ)
  | waiting (write : Write)
  /-- It has the lock. -/
  | locked (write : Write)
  /-- It has the lock, and has checked the stored document. -/
  | writing (id : Text) (stored : ThemeDocument) (precondition : RevisionPrecondition)
  | removing (id : Text) (revision : ℕ)

structure ThemeLibrary (Bytes : Type) where
  files : Files Bytes
  lock : Option ℕ
  clients : ℕ → Phase

/-- Where a write fails. -/
inductive Fault where
  | before
  | after

/-- What clients do, with documents that were checked when they were made. -/
inductive Action where
  | save (client : ℕ) (document : { d : ThemeDocument // d.Shaped }) (precondition : RevisionPrecondition)
  | delete (client : ℕ) (id : Text) (revision : ℕ)
  | import (client : ℕ) (document : { d : ThemeDocument // d.Shaped }) (name : Option Text)
  | fork (client : ℕ) (builtin : Text) (name : Option Text)
  /-- The next step of a client. -/
  | advance (client : ℕ) (fault : Option Fault)

variable (builtins : List ThemeDocument)

namespace ThemeLibrary

def setPhase (library : ThemeLibrary Bytes) (client : ℕ) (phase : Phase) : ThemeLibrary Bytes :=
  { library with clients := Function.update library.clients client phase }

/-- An operation ends. -/
def finish (library : ThemeLibrary Bytes) (client : ℕ) (result : Except StoreError (Option ThemeDocument)) : ThemeLibrary Bytes :=
  library.setPhase client (.idle (some result))

/-- An operation ends, and gives the lock back. -/
def release (library : ThemeLibrary Bytes) (client : ℕ) (result : Except StoreError (Option ThemeDocument)) : ThemeLibrary Bytes :=
  { library.finish client result with lock := none }

/-- `save`, up to the lock. -/
def beginSave (library : ThemeLibrary Bytes) (client : ℕ) (d : ThemeDocument) (precondition : RevisionPrecondition) : ThemeLibrary Bytes :=
  match checkDocument d with
  | .error error => library.finish client (.error error)
  | .ok id => library.setPhase client (.waiting (.save id d precondition))

/-- `delete`, up to the lock. -/
def beginDelete (library : ThemeLibrary Bytes) (client : ℕ) (id : Text) (revision : ℕ) : ThemeLibrary Bytes :=
  if builtins.any (fun d => d.id = some id ∨ d.name = id) then library.finish client (.error (.builtinReadOnly id))
  else if validateId id = false then library.finish client (.error (.invalidId id))
  else library.setPhase client (.waiting (.delete id revision))

/-- The directory is read. -/
def beginRequest (library : ThemeLibrary Bytes) (client : ℕ) (request : Request) : ThemeLibrary Bytes :=
  library.setPhase client (.listing request ((library.files.entries.map Prod.fst).filter fun id => validateId id) [])

/-- `fork_builtin`, up to reading the directory. -/
def beginFork (library : ThemeLibrary Bytes) (client : ℕ) (builtin : Text) (name : Option Text) : ThemeLibrary Bytes :=
  match builtins.find? fun d => d.name = builtin ∨ d.id = some builtin with
  | none => library.finish client (.error (.notFound builtin))
  | some d => library.beginRequest client (.fork d name)

/-- A file is read that was in the directory. -/
def listNext (library : ThemeLibrary Bytes) (client : ℕ) (request : Request) (custom : List ThemeDocument) : List Text → ThemeLibrary Bytes
  | id :: unread =>
    match readDocument library.files id with
    | .ok (some d) => library.setPhase client (.listing request unread (custom ++ [d]))
    | _ => library.setPhase client (.listing request unread custom)
  | [] =>
    match uniqueName request.name ((builtins ++ custom).map ThemeDocument.name) with
    | none => library.finish client (.error (.limit maxCustomThemes))
    | some name => library.setPhase client (.probing request name custom 1)

/-- An identifier is tried. -/
def probe (library : ThemeLibrary Bytes) (client : ℕ) (request : Request) (name : Text) (custom : List ThemeDocument) (suffix : ℕ) :
    ThemeLibrary Bytes :=
  let id := idCandidate (slug name) suffix
  if maxCustomThemes + 1 < suffix then library.finish client (.error (.limit maxCustomThemes))
  else if validateId id = false ∨ custom.any (fun d => d.id = some id) = true ∨ library.files.containsKey id = true then
    library.setPhase client (.probing request name custom (suffix + 1))
  else
    match request.candidate id name with
    | .error error => library.finish client (.error (.document error))
    | .ok d => library.beginSave client d .absent

/-- Under the lock the stored document is read and checked. -/
def judge (library : ThemeLibrary Bytes) (client : ℕ) : Write → ThemeLibrary Bytes
  | .save id d precondition =>
    match prepare library.files id d precondition with
    | .error error => library.release client (.error error)
    | .ok stored => library.setPhase client (.writing id stored precondition)
  | .delete id revision =>
    match checkDelete library.files id revision with
    | .error error => library.release client (.error error)
    | .ok _ => library.setPhase client (.removing id revision)

/-- The file is replaced. -/
def commit (library : ThemeLibrary Bytes) (client : ℕ) (id : Text) (stored : ThemeDocument) : Option Fault → ThemeLibrary Bytes
  | none => { library.release client (.ok (some stored)) with files := library.files.insert id (ThemeText.toVecPretty stored.toValue) }
  | some .before => library.release client (.error .io)
  | some .after => { library.release client (.error .io) with files := library.files.insert id (ThemeText.toVecPretty stored.toValue) }

/-- The file is removed. -/
def remove (library : ThemeLibrary Bytes) (client : ℕ) (id : Text) : Option Fault → ThemeLibrary Bytes
  | none => { library.release client (.ok none) with files := library.files.filterKeys (· ≠ id) }
  | some _ => library.release client (.error .io)

def advance (library : ThemeLibrary Bytes) (client : ℕ) (fault : Option Fault) : Option (ThemeLibrary Bytes) :=
  match library.clients client with
  | .idle _ => none
  | .listing request unread custom => some (library.listNext builtins client request custom unread)
  | .probing request name custom suffix => some (library.probe client request name custom suffix)
  | .waiting write =>
    some (if library.lock.isSome then library.finish client (.error .busy)
      else { library.setPhase client (.locked write) with lock := some client })
  | .locked write => some (library.judge client write)
  | .writing id stored _ => some (library.commit client id stored fault)
  | .removing id _ => some (library.remove client id fault)

/-- A client that does nothing starts an operation. -/
def begin (library : ThemeLibrary Bytes) (client : ℕ) (next : ThemeLibrary Bytes) : Option (ThemeLibrary Bytes) :=
  match library.clients client with
  | .idle _ => some next
  | _ => none

def step (library : ThemeLibrary Bytes) : Action → Option (ThemeLibrary Bytes)
  | .save client d precondition => library.begin client (library.beginSave client d.1 precondition)
  | .delete client id revision => library.begin client (library.beginDelete builtins client id revision)
  | .import client d name => library.begin client (library.beginRequest client (.import d.1 name))
  | .fork client builtin name => library.begin client (library.beginFork builtins client builtin name)
  | .advance client fault => library.advance builtins client fault

end ThemeLibrary

end

end Pebrel.Themes
