import Pebrel.Library.Text
import Pebrel.Library.Transition

/-!
# Devices that a desktop admits

The desktop end keeps a book of invitations and devices (`pairing.rs`), the
requests that wait for the user's approval (`endpoint/approval.rs`), and the
session of each device (`HostState` of `endpoint/host.rs`). A device is created by
an invitation, through a request that the user approves; it then has sessions, one
at a time, that carry its permission to send input.

## The model

One step is one call under the lock of the `HostState`, at any time of a clock that
may go back, with any outcome of drawing secrets and of writing credentials. Random
secrets and identifiers are numbers that have not been used before. A call of
`enroll` may come whenever, whether or not its handshake is still good.

A map is the list of its values. `sessions` are all authorizations that were ever
given out, and `history` has what happened to invitations and requests, the latest
first; both are for the statements, as is the device of an authorization. Whether
the encoded credentials are short enough to be read again is a parameter.
-/

namespace Pebrel.Link

open Library Transition

/-! ### The pairing book -/

def maxDevices : ℕ := 32

def invitationTtl : ℕ := 600

/-- An invitation that was not used yet. -/
structure Invitation where
  id : ℕ
  issuedAt : ℕ
  expiresAt : ℕ
  secret : ℕ
  allowInput : Bool

structure DeviceGrant where
  id : ℕ
  name : Text
  allowInput : Bool
  secret : ℕ

structure PairingBook where
  pending : List Invitation
  devices : List DeviceGrant

/-- A name is not empty, of at most 160 bytes, and without control characters. -/
def validName (name : Text) : Bool :=
  name ≠ [] && decide (Text.byteLen name ≤ 160) && !name.any Text.isControl

namespace PairingBook

variable (book : PairingBook)

def issue (now : ℕ) (allowInput drawn : Bool) (id secret : ℕ) : PairingBook × Option Invitation :=
  let book := { book with pending := book.pending.filter fun p => decide (p.issuedAt ≤ now) && decide (now < p.expiresAt) }
  if maxDevices ≤ book.devices.length + book.pending.length then (book, none)
  else if 2 ^ 64 ≤ now + invitationTtl then (book, none)
  else if !drawn then (book, none)
  else
    let invitation : Invitation := ⟨id, now, now + invitationTtl, secret, allowInput⟩
    ({ book with pending := book.pending ++ [invitation] }, some invitation)

def invitationSecret (id now : ℕ) : Option ℕ :=
  match book.pending.find? fun p => p.id = id with
  | none => none
  | some p => if now < p.issuedAt ∨ p.expiresAt ≤ now then none else some p.secret

def approveAuthenticated (invite : ℕ) (name : Text) (now : ℕ) (drawn : Bool) (id secret : ℕ) :
    PairingBook × Option DeviceGrant :=
  if book.invitationSecret invite now = none then (book, none)
  else if !validName name then (book, none)
  else if !drawn then (book, none)
  else
    match book.pending.find? fun p => p.id = invite with
    | none => (book, none)
    | some p =>
      let grant : DeviceGrant := ⟨id, name, p.allowInput, secret⟩
      (⟨book.pending.filter fun p => p.id ≠ invite, book.devices ++ [grant]⟩, some grant)

def device (id : ℕ) : Option DeviceGrant := book.devices.find? fun d => d.id = id

def setInputPermission (id : ℕ) (allowInput : Bool) : PairingBook × Bool :=
  match book.device id with
  | none => (book, false)
  | some _ =>
    ({ book with devices := book.devices.map fun d => if d.id = id then { d with allowInput } else d }, true)

def revoke (id : ℕ) : PairingBook × Bool :=
  ({ book with devices := book.devices.filter fun d => d.id ≠ id }, (book.device id).isSome)

def cancelInvitation (id : ℕ) : PairingBook := { book with pending := book.pending.filter fun p => p.id ≠ id }

/-- `restore_devices` of what `export_devices` has written. -/
def reread (fits : List DeviceGrant → Bool) : Option PairingBook :=
  if !fits book.devices then none
  else if maxDevices < book.devices.length then none
  else if book.devices.all (fun d => validName d.name) && decide (book.devices.map DeviceGrant.id).Nodup then
    some ⟨[], book.devices⟩
  else none

end PairingBook

/-! ### Requests for approval -/

/-- A request that waits for the user, or that the user has decided on. -/
structure Approval where
  id : ℕ
  invitation : ℕ
  name : Text
  expiresAt : ℕ
  undecided : Bool
  allowedInput : Option Bool

namespace Approvals

def request (approvals : List Approval) (invitation : ℕ) (name : Text) (expiresAt : ℕ) (drawn : Bool) (id : ℕ) :
    List Approval × Option ℕ :=
  if 8 ≤ approvals.length ∨ approvals.any (fun a => a.invitation = invitation) then (approvals, none)
  else if !drawn then (approvals, none)
  else (approvals ++ [⟨id, invitation, name, expiresAt, true, none⟩], some id)

/-- `Approvals::decide`, and whether it went well; `listening` says whether the connection
still waits. -/
def decide (approvals : List Approval) (id : ℕ) (allowInput : Option Bool) (now : ℕ) (listening : Bool) :
    List Approval × Bool :=
  match approvals.find? fun a => a.id = id with
  | none => (approvals, false)
  | some pending =>
    if pending.expiresAt ≤ now then (approvals.filter fun a => a.id ≠ id, false)
    else if !pending.undecided then (approvals, false)
    else
      (approvals.map fun a => if a.id = id then { a with undecided := false, allowedInput := allowInput } else a, listening)

def takeApproved (approvals : List Approval) (id invitation : ℕ) (name : Text) (now : ℕ) : Option (Bool × List Approval) :=
  match approvals.find? fun a => a.id = id with
  | none => none
  | some pending =>
    if pending.invitation ≠ invitation ∨ pending.name ≠ name ∨ pending.expiresAt ≤ now then none
    else pending.allowedInput.map fun allowInput => (allowInput, approvals.filter fun a => a.id ≠ id)

end Approvals

/-! ### The host -/

inductive Route where
  | lan
  | relay
  deriving DecidableEq

/-- An authorization, of the session of a device. -/
structure Authorization where
  device : ℕ
  input : Bool
  cancelled : Bool
  connected : Bool

structure Active where
  session : ℕ
  route : Route

/-- What happened to an invitation or a request. -/
inductive HostNote where
  | requested (ticket invitation : ℕ) (name : Text) (expiresAt : ℕ)
  | approved (ticket now : ℕ) (allowInput : Bool)
  | created (device invitation ticket : ℕ) (name : Text)

structure HostState where
  book : PairingBook
  active : ℕ → Option Active
  approvals : List Approval
  sessions : List Authorization
  /-- The first number that is no secret and no identifier yet. -/
  names : ℕ
  history : List HostNote

namespace HostState

def generate : HostState := ⟨⟨[], []⟩, fun _ => none, [], [], 0, []⟩

variable (h : HostState)

def modifySession (k : ℕ) (f : Authorization → Authorization) : HostState := { h with sessions := h.sessions.modify k f }

/-- `Authorization::cancel`. -/
def cancelSession (k : ℕ) : HostState := h.modifySession k fun s => { s with cancelled := true }

def issue (accessOk : Bool) (name : Text) (allowInput : Bool) (now : ℕ) (drawn : Bool) : HostState × Option Invitation :=
  if !accessOk then (h, none)
  else if !validName name then (h, none)
  else
    let (book, invitation) := h.book.issue now allowInput drawn h.names (h.names + 1)
    ({ h with book, names := h.names + 2 }, invitation)

def cancelInvitation (id : ℕ) : HostState :=
  { h with book := h.book.cancelInvitation id, approvals := h.approvals.filter fun a => a.invitation ≠ id }

def requestPairing (grant : ℕ) (name : Text) (now : ℕ) (drawn : Bool) : HostState × Option ℕ :=
  if h.book.invitationSecret grant now = none then (h, none)
  else
    let expiresAt := min (now + 120) (2 ^ 64 - 1)
    match Approvals.request h.approvals grant name expiresAt drawn h.names with
    | (_, none) => (h, none)
    | (approvals, some id) =>
      ({ h with approvals, names := h.names + 1, history := .requested id grant name expiresAt :: h.history }, some id)

def cancelPairing (id : ℕ) : HostState := { h with approvals := h.approvals.filter fun a => a.id ≠ id }

/-- An approval is noted where it is recorded. -/
def decidePairing (id : ℕ) (allowInput : Option Bool) (now : ℕ) (listening : Bool) : HostState × Bool :=
  let invitation := (h.approvals.find? fun a => a.id = id).map Approval.invitation
  let recorded := (h.approvals.find? fun a => a.id = id).any fun a => decide (now < a.expiresAt) && a.undecided
  let (approvals, ok) := Approvals.decide h.approvals id allowInput now listening
  let history := if recorded then (allowInput.map (HostNote.approved id now)).toList ++ h.history else h.history
  let h := { h with approvals, history }
  if !ok then (h, false)
  else
    match allowInput, invitation with
    | none, some invitation => (h.cancelInvitation invitation, true)
    | _, _ => (h, true)

/-- A session of a device is opened, instead of the one there is; a relay does not take the
place of a local connection. -/
def openSession (id : ℕ) (allowInput : Bool) (route : Route) : HostState × Bool :=
  let previous := h.active id
  let local_ := previous.any fun a => decide (route = .relay) && decide (a.route = .lan) &&
    h.sessions[a.session]?.any fun s => !s.cancelled && s.connected
  if local_ then (h, false)
  else
    let cancelled := match previous with
      | some a => h.cancelSession a.session
      | none => h
    ({ cancelled with
        sessions := cancelled.sessions ++ [⟨id, allowInput, false, false⟩]
        active := Function.update h.active id (some ⟨h.sessions.length, route⟩) }, true)

/-- `enroll` with an invitation. -/
def enrollInvited (grant : ℕ) (name : Text) (now : ℕ) (drawn persisted : Bool) (ticket : ℕ) (route : Route) :
    HostState × Bool :=
  match Approvals.takeApproved h.approvals ticket grant name now with
  | none => (h, false)
  | some (allowInput, approvals) =>
    let h := { h with approvals }
    match h.book.approveAuthenticated grant name now drawn h.names (h.names + 1) with
    | (_, none) => (h, false)
    | (book, some device) =>
      let h := { h with book := (book.setInputPermission device.id allowInput).1, names := h.names + 2 }
      if !persisted then ({ h with book := (h.book.revoke device.id).1 }, false)
      else
        { h with history := .created device.id grant ticket name :: h.history }.openSession device.id allowInput route

def enroll (grant : ℕ) (invitation : Bool) (name : Text) (now : ℕ) (drawn persisted : Bool) (approval : Option ℕ)
    (route : Route) : HostState × Bool :=
  if invitation then
    match approval with
    | none => (h, false)
    | some ticket => h.enrollInvited grant name now drawn persisted ticket route
  else
    match h.book.device grant with
    | none => (h, false)
    | some device => h.openSession device.id device.allowInput route

/-- `revoke`; no result stands for an error. -/
def revoke (fits : List DeviceGrant → Bool) (id : ℕ) (persisted : Bool) : HostState × Option Bool :=
  match h.book.reread fits with
  | none => (h, none)
  | some replacement =>
    if !(replacement.revoke id).2 then (h, some false)
    else if !persisted then (h, none)
    else
      let revoked := { h with book := (h.book.revoke id).1, active := Function.update h.active id none }
      match h.active id with
      | some a => (revoked.cancelSession a.session, some true)
      | none => (revoked, some true)

/-- `set_input_permission`; no result stands for an error. -/
def setInputPermission (fits : List DeviceGrant → Bool) (id : ℕ) (allowInput persisted : Bool) : HostState × Option Bool :=
  match h.book.reread fits with
  | none => (h, none)
  | some replacement =>
    if !(replacement.setInputPermission id allowInput).2 then (h, some false)
    else if !persisted then (h, none)
    else
      let changed := { h with book := (h.book.setInputPermission id allowInput).1 }
      match h.active id with
      | some a => (changed.modifySession a.session fun s => { s with input := allowInput }, some true)
      | none => (changed, some true)

end HostState

inductive HostEvent where
  | issue (accessOk : Bool) (name : Text) (allowInput : Bool) (now : ℕ) (drawn : Bool)
  | cancelInvitation (id : ℕ)
  | requestPairing (grant : ℕ) (name : Text) (now : ℕ) (drawn : Bool)
  | cancelPairing (id : ℕ)
  | decidePairing (id : ℕ) (allowInput : Option Bool) (now : ℕ) (listening : Bool)
  | enroll (grant : ℕ) (invitation : Bool) (name : Text) (now : ℕ) (drawn persisted : Bool) (approval : Option ℕ)
      (route : Route)
  | markConnected (k : ℕ)
  | setInputPermission (id : ℕ) (allowInput persisted : Bool)
  | revoke (id : ℕ) (persisted : Bool)
  | dropSession (k : ℕ)

/-- One step of the host. -/
def HostEvent.step (fits : List DeviceGrant → Bool) (h : HostState) : HostEvent → Option HostState
  | issue accessOk name allowInput now drawn => some (h.issue accessOk name allowInput now drawn).1
  | cancelInvitation id => some (h.cancelInvitation id)
  | requestPairing grant name now drawn => some (h.requestPairing grant name now drawn).1
  | cancelPairing id => some (h.cancelPairing id)
  | decidePairing id allowInput now listening => some (h.decidePairing id allowInput now listening).1
  | enroll grant invitation name now drawn persisted approval route =>
    some (h.enroll grant invitation name now drawn persisted approval route).1
  | markConnected k => some (h.modifySession k fun s => { s with connected := true })
  | setInputPermission id allowInput persisted => some (h.setInputPermission fits id allowInput persisted).1
  | revoke id persisted => some (h.revoke fits id persisted).1
  | dropSession k => some (h.cancelSession k)

/-! ### Authorization of devices -/

/-- What the host is for. -/
structure Authorized (fits : List DeviceGrant → Bool) (h : HostState) : Prop where
  /-- Each device was created by one invitation, through one request, under its name. -/
  origin : ∀ d ∈ h.book.devices, ∃ invitation ticket, .created d.id invitation ticket d.name ∈ h.history ∧
    ∀ i t n, .created d.id i t n ∈ h.history → i = invitation ∧ t = ticket ∧ n = d.name
  /-- An invitation creates one device. -/
  once : ∀ d d' invitation t t' n n', .created d invitation t n ∈ h.history → .created d' invitation t' n' ∈ h.history → d = d'
  /-- Before a device was created, the request was approved, and that before it expired. -/
  approved : ∀ d invitation ticket name before, (.created d invitation ticket name :: before) <:+ h.history →
    ∃ expiresAt now allowInput, .requested ticket invitation name expiresAt ∈ before ∧
      .approved ticket now allowInput ∈ before ∧ now < expiresAt
  devices : h.book.devices.length ≤ maxDevices
  /-- A session that was not cancelled has the permission of its device. -/
  session : ∀ (k : ℕ) (s : Authorization), h.sessions[k]? = some s → s.cancelled = false →
    ∃ d ∈ h.book.devices, d.id = s.device ∧ d.allowInput = s.input
  /-- It is the only one of its device. -/
  only : ∀ (k l : ℕ) (s t : Authorization), h.sessions[k]? = some s → h.sessions[l]? = some t → s.cancelled = false →
    t.cancelled = false → s.device = t.device → k = l
  /-- A change that cannot be written changes nothing. -/
  failed : ∀ id allowInput, (h.revoke fits id false).1 = h ∧ (h.setInputPermission fits id allowInput false).1 = h

end Pebrel.Link
