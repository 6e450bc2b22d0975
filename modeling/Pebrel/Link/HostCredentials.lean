import Pebrel.Library.Base64
import Pebrel.Library.FlatJson
import Pebrel.Link.Host

/-!
# The credentials that a desktop stores

How the desktop end writes its key and its devices into one entry of the
credential store and reads them back (`encode` and `restore` of
`endpoint/host.rs`, `export_devices` and `restore_devices` of `pairing.rs`,
`identity.rs`), with the calls that change them.

## The model

Here identifiers and secrets are what is written: a secret is 32 bytes, and an
identifier the text of the hash of one. What base64, the hash and the JSON reader
do is a `Crates`; the devices are a map, whose values come in any order, an `Order`,
when they are written. What the approvals say to an enrollment is any answer.
-/

namespace Pebrel.Link.Credentials

open Library Library.FlatJson
open Library.Text (byteLen)

abbrev Bytes32 := { b : List UInt8 // b.length = 32 }

/-- What the packages for base64, SHA-256 and JSON do. -/
structure Crates where
  /-- `URL_SAFE_NO_PAD.encode`. -/
  encode : List UInt8 → Text
  /-- `URL_SAFE_NO_PAD.decode`. -/
  decode : Text → Option (List UInt8)
  decode_encode : ∀ b, decode (encode b) = some b
  length_encode : ∀ b : Bytes32, (encode b).length = 43
  safe : ∀ b, ∀ c ∈ encode b, Base64.isSafe c = true
  /-- `Sha256::digest`. -/
  digest : Bytes32 → Bytes32
  /-- `serde_json::from_slice` of an object, whose members are then those of a struct. -/
  readObject : Text → Option Members
  readObject_write : ∀ m, readObject (writeObject m) = some m
  /-- `serde_json::from_slice` of a list of such objects. -/
  readObjects : Text → Option (List Members)
  readObjects_write : ∀ l, readObjects (writeObjects l) = some l

/-- A `Pending` invitation, with its id. -/
structure Pending where
  id : Text
  issuedAt : ℕ
  expiresAt : ℕ
  secret : Bytes32
  allowInput : Bool
  deriving DecidableEq

structure DeviceGrant where
  id : Text
  name : Text
  allowInput : Bool
  secret : Bytes32
  deriving DecidableEq

structure PairingBook where
  pending : List Pending := []
  devices : List DeviceGrant := []
  deriving DecidableEq

structure HostState where
  privateKey : Bytes32
  publicKey : Bytes32
  book : PairingBook
  deriving DecidableEq

/-- An order in which the values of a map of devices come. -/
structure Order where
  values : List DeviceGrant → List DeviceGrant
  perm : ∀ devices, (values devices).Perm devices

def validId (value : Text) : Bool := value ≠ [] && byteLen value ≤ 64 && value.all Base64.isSafe

variable (x : Crates)

/-- `Secret::decode`. -/
def decodeSecret (value : Text) : Option Bytes32 :=
  if byteLen value ≠ 43 then none
  else
    match x.decode value with
    | none => none
    | some b => if h : b.length = 32 then if x.encode b = value then some ⟨b, h⟩ else none else none

def hash (secret : Bytes32) : Text := x.encode (x.digest secret)

/-! ### Structs in JSON -/

/-- A field of a struct. -/
def field (members : Members) (key : String) : Option Scalar := (members.find? fun m => m.1 = key.toList).map Prod.snd

/-- No unknown field, and none twice. -/
def strict (names : List String) (members : Members) : Bool :=
  members.all (fun m => names.any fun name => name.toList = m.1) && decide (members.map Prod.fst).Nodup

/-! ### Devices -/

/-- A device as it is written. -/
def entry (grant : DeviceGrant) : Members :=
  [("id".toList, .string grant.id), ("name".toList, .string grant.name), ("allowInput".toList, .bool grant.allowInput),
    ("secret".toList, .string (x.encode grant.secret))]

/-- An `Entry`: a device as it is read. -/
structure Entry where
  id : Text
  name : Text
  allowInput : Bool
  secret : Text

def entryOf (m : Members) : Option Entry :=
  if !strict ["id", "name", "allowInput", "secret"] m then none
  else
    match field m "id", field m "name", field m "allowInput", field m "secret" with
    | some (.string id), some (.string name), some (.bool allowInput), some (.string secret) =>
      some ⟨id, name, allowInput, secret⟩
    | _, _, _, _ => none

/-- `export_devices`, of the values of the map. -/
def exportDevices (values : List DeviceGrant) : Text := writeObjects (values.map (entry x))

/-- The loop of `restore_devices`. -/
def insertEntries : List Entry → List DeviceGrant → Option (List DeviceGrant)
  | [], devices => some devices
  | value :: values, devices =>
    if !validId value.id || !validName value.name || devices.any (fun d => d.id = value.id) then none
    else
      match decodeSecret x value.secret with
      | none => none
      | some secret => insertEntries values (devices ++ [⟨value.id, value.name, value.allowInput, secret⟩])

def restoreDevices (bytes : Text) : Option PairingBook :=
  if 32 * 1024 < byteLen bytes then none
  else
    match (x.readObjects bytes).bind (·.mapM entryOf) with
    | none => none
    | some values =>
      if maxDevices < values.length then none else (insertEntries x values []).map fun devices => ⟨[], devices⟩

namespace PairingBook

variable (book : PairingBook)

def device (id : Text) : Option DeviceGrant := book.devices.find? fun d => d.id = id

/-- `issue`, for secrets that may not be drawn. -/
def issue (now : ℕ) (allowInput : Bool) (secret idSecret : Option Bytes32) : PairingBook :=
  let book := { book with pending := book.pending.filter fun p => decide (p.issuedAt ≤ now) && decide (now < p.expiresAt) }
  if maxDevices ≤ book.devices.length + book.pending.length then book
  else if 2 ^ 64 ≤ now + invitationTtl then book
  else
    match secret, idSecret with
    | some secret, some idSecret =>
      let id := hash x idSecret
      { book with
        pending := book.pending.filter (fun p => p.id ≠ id) ++ [⟨id, now, now + invitationTtl, secret, allowInput⟩] }
    | _, _ => book

def invitationSecret (id : Text) (now : ℕ) : Option Bytes32 :=
  match book.pending.find? fun p => p.id = id with
  | none => none
  | some p => if now < p.issuedAt ∨ p.expiresAt ≤ now then none else some p.secret

/-- `approve_authenticated`, with the id of the device. -/
def approveAuthenticated (invite name : Text) (now : ℕ) (secret idSecret : Option Bytes32) : Option (PairingBook × Text) :=
  if book.invitationSecret invite now = none then none
  else if !validName name then none
  else
    match secret, idSecret, book.pending.find? fun p => p.id = invite with
    | some secret, some idSecret, some pending =>
      let id := hash x idSecret
      some (⟨book.pending.filter fun p => p.id ≠ invite,
        book.devices.filter (fun d => d.id ≠ id) ++ [⟨id, name, pending.allowInput, secret⟩]⟩, id)
    | _, _, _ => none

def setInputPermission (id : Text) (allowInput : Bool) : PairingBook × Bool :=
  match book.device id with
  | none => (book, false)
  | some _ =>
    ({ book with devices := book.devices.map fun d => if d.id = id then { d with allowInput } else d }, true)

def revoke (id : Text) : PairingBook × Bool :=
  ({ book with devices := book.devices.filter fun d => d.id ≠ id }, (book.device id).isSome)

def cancelInvitation (id : Text) : PairingBook := { book with pending := book.pending.filter fun p => p.id ≠ id }

end PairingBook

namespace HostState

variable (h : HostState)

/-- `encode`, with the devices in this order. -/
def encode (order : Order) : Text :=
  writeObject [("version".toList, .number 2), ("privateKey".toList, .string (x.encode h.privateKey)),
    ("publicKey".toList, .string (x.encode h.publicKey)),
    ("devices".toList, .string (exportDevices x (order.values h.book.devices)))]

def restore (bytes : Text) : Option HostState :=
  if 48 * 1024 < byteLen bytes then none
  else
    match x.readObject bytes with
    | none => none
    | some m =>
      if !strict ["version", "privateKey", "publicKey", "devices"] m then none
      else
        match field m "version", field m "privateKey", field m "publicKey", field m "devices" with
        | some (.number version), some (.string privateKey), some (.string publicKey), some (.string devices) =>
          if version ≠ 2 then none
          else
            match x.decode publicKey, decodeSecret x privateKey, restoreDevices x devices with
            | some b, some privateKey, some book => if hb : b.length = 32 then some ⟨privateKey, ⟨b, hb⟩, book⟩ else none
            | _, _, _ => none
        | _, _, _, _ => none

def issue (accessOk : Bool) (name : Text) (allowInput : Bool) (now : ℕ) (secret idSecret : Option Bytes32) : HostState :=
  if !accessOk || !validName name then h else { h with book := h.book.issue x now allowInput secret idSecret }

/-- `enroll` with an invitation, for the answer of the approvals. -/
def enroll (approved : Option Bool) (grant name : Text) (now : ℕ) (secret idSecret : Option Bytes32) (persisted : Bool) : HostState :=
  match approved with
  | none => h
  | some allowInput =>
    match h.book.approveAuthenticated x grant name now secret idSecret with
    | none => h
    | some (book, id) =>
      let book := (book.setInputPermission id allowInput).1
      if !persisted then { h with book := (book.revoke id).1 } else { h with book }

/-- `set_input_permission`; no result stands for an error. -/
def setInputPermission (order : Order) (id : Text) (allowInput persisted : Bool) : HostState × Option Bool :=
  match restore x (h.encode x order) with
  | none => (h, none)
  | some replacement =>
    if !(replacement.book.setInputPermission id allowInput).2 then (h, some false)
    else if !persisted then (h, none)
    else ({ h with book := (h.book.setInputPermission id allowInput).1 }, some true)

/-- `revoke`; no result stands for an error. -/
def revoke (order : Order) (id : Text) (persisted : Bool) : HostState × Option Bool :=
  match restore x (h.encode x order) with
  | none => (h, none)
  | some replacement =>
    if !(replacement.book.revoke id).2 then (h, some false)
    else if !persisted then (h, none)
    else ({ h with book := (h.book.revoke id).1 }, some true)

end HostState

/-- What changes the key and the devices. -/
inductive Op where
  | issue (accessOk : Bool) (name : Text) (allowInput : Bool) (now : ℕ) (secret idSecret : Option Bytes32)
  | cancelInvitation (id : Text)
  | enroll (approved : Option Bool) (grant name : Text) (now : ℕ) (secret idSecret : Option Bytes32) (persisted : Bool)
  | setInputPermission (order : Order) (id : Text) (allowInput persisted : Bool)
  | revoke (order : Order) (id : Text) (persisted : Bool)
  /-- The host is written and read again. -/
  | restart (order : Order)

def Op.step (h : HostState) : Op → Option HostState
  | .issue accessOk name allowInput now secret idSecret => some (h.issue x accessOk name allowInput now secret idSecret)
  | .cancelInvitation id => some { h with book := h.book.cancelInvitation id }
  | .enroll approved grant name now secret idSecret persisted =>
    some (h.enroll x approved grant name now secret idSecret persisted)
  | .setInputPermission order id allowInput persisted => some (h.setInputPermission x order id allowInput persisted).1
  | .revoke order id persisted => some (h.revoke x order id persisted).1
  | .restart order => HostState.restore x (h.encode x order)

end Pebrel.Link.Credentials
