import Pebrel.Library.Text

/-!
# The relay

A relay server passes packets between a desktop and a mobile that meet in a room
(`relay/registry.rs`, and `run_socket` of `relay/server.rs`). A connection
reserves the slot of its role in a room and gets a lease; when its upgrade is done
it announces itself; when both ends of a room have done so, both are told the
epoch of their link, and from then on each forwards its packets into the queue of
the other. When a lease is dropped, the other end is cancelled.

## The model

One step is one critical section of the registry, or what a connection does by
itself: it receives from its queue, or its receiver is closed. A connection is its
lease together with the queue and the cancellation token that it shares with the
registry. Epochs are drawn at random in the source; here they are numbered, so
that no epoch is drawn twice, and drawing one may fail. Tokens are compared with
hashes by a parameter.

`history` has what happened to the queues and tokens, the latest first, and
binary messages carry the connection that sent them. Both are for the statements
only.

`Isolated` says what the relay is for: packets go between the two ends of one link
only, in order, while neither is cancelled, and never to or from an end whose
other end is gone.
-/

namespace Pebrel.Link

open Library

/-! ### The registry -/

inductive Role where
  | desktop
  | mobile
  deriving DecidableEq

def Role.peer : Role → Role
  | desktop => mobile
  | mobile => desktop

theorem Role.peer_peer (role : Role) : role.peer.peer = role := by cases role <;> rfl

def queuePackets : ℕ := 8

abbrev Packet := List UInt8

inductive Message where
  /-- `relay.waiting`. -/
  | waiting
  /-- `relay.paired`. -/
  | paired (epoch : ℕ)
  | binary (sender : ℕ) (packet : Packet)

/-- What a room has of a connection; its channel and its token are those of `conn`. -/
structure Peer where
  generation : ℕ
  conn : ℕ
  active : Bool

structure Room where
  hashes : Role → Text
  peers : Role → Option Peer

/-- Where a connection is in `upgrade` and `run_socket`. -/
inductive Phase where
  /-- The slot is reserved, the upgrade not yet done. -/
  | upgrading
  | running
  /-- The lease is about to be dropped. -/
  | ending
  | dropped
  deriving DecidableEq

/-- A lease, and the queue and the token of its connection. -/
structure Conn where
  room : Text
  role : Role
  generation : ℕ
  phase : Phase
  cancelled : Bool
  /-- The receiver is gone. -/
  closed : Bool
  queue : List Message
  received : List Message
  /-- The packets that were forwarded, and to which connection. -/
  accepted : List (ℕ × Packet)

/-- What happened to a queue, a token or a lease. -/
inductive Note where
  | put (conn : ℕ) (message : Message)
  | cancel (conn : ℕ)
  | drop (conn : ℕ)

structure Relay where
  rooms : Text → Option Room
  generation : ℕ
  conns : List Conn
  epochs : ℕ
  history : List Note

structure RoomConfig where
  id : Text
  desktopTokenHash : Text
  mobileTokenHash : Text

def RoomConfig.room (config : RoomConfig) : Room where
  hashes
    | .desktop => config.desktopTokenHash
    | .mobile => config.mobileTokenHash
  peers _ := none

namespace Relay

/-- `Registry::new`; the last room of an id counts. -/
def new (configs : List RoomConfig) : Relay where
  rooms id := (configs.reverse.find? fun config => config.id = id).map RoomConfig.room
  generation := 0
  conns := []
  epochs := 0
  history := []

variable (w : Relay) (room : Text) (role : Role) (i : ℕ)

/-- The slot of a role in a room. -/
def peer : Option Peer := (w.rooms room).bind fun r => r.peers role

def setPeer (p : Option Peer) : Relay :=
  { w with
    rooms := Function.update w.rooms room ((w.rooms room).map fun r => { r with peers := Function.update r.peers role p }) }

def modifyConn (f : Conn → Conn) : Relay := { w with conns := w.conns.modify i f }

def note (n : Note) : Relay := { w with history := n :: w.history }

def setPhase (phase : Phase) : Relay := w.modifyConn i fun c => { c with phase }

def isCancelled : Bool := w.conns[i]?.any Conn.cancelled

def cancel : Relay := (w.modifyConn i fun c => { c with cancelled := true }).note (.cancel i)

def put (m : Message) : Relay := (w.modifyConn i fun c => { c with queue := c.queue ++ [m] }).note (.put i m)

/-- Is there room in the queue, and a receiver? -/
def canSend : Bool := w.conns[i]?.any fun c => !c.closed && decide (c.queue.length < queuePackets)

def trySend (m : Message) : Option Relay := if w.canSend i then some (w.put i m) else none

/-- Has the end announced itself, and is it not cancelled? -/
def ready : Bool := (w.peer room role).any fun p => p.active && !w.isCancelled p.conn

/-- `try_send` to the end that is in the slot, if there is one. -/
def sendTo (m : Message) : Option Relay :=
  match w.peer room role with
  | some p => w.trySend p.conn m
  | none => some w

/-! ### The critical sections -/

/-- A new connection gets the slot; its index is the number of connections before it. -/
def grant : Relay :=
  let conn : Conn := ⟨room, role, w.generation + 1, .upgrading, false, false, [], [], []⟩
  { w with generation := w.generation + 1, conns := w.conns ++ [conn] }.setPeer room role
    (some ⟨w.generation + 1, w.conns.length, false⟩)

def reserve (authorized : Text → Text → Bool) (token : Text) : Relay :=
  match w.rooms room with
  | none => w
  | some r =>
    if !authorized token (r.hashes role) then w
    else if (r.peers role).isSome then w
    else if w.generation + 1 = 2 ^ 64 then w
    else w.grant room role

/-- `Secret::generate`: a new epoch is drawn. -/
def draw : Relay := { w with epochs := w.epochs + 1 }

/-- `Lease::announce`, and whether it went well; `drawn` says whether an epoch can be drawn. -/
def announce (c : Conn) (drawn : Bool) : Relay × Bool :=
  match w.peer c.room c.role with
  | none => (w, false)
  | some own =>
    if own.generation ≠ c.generation ∨ own.active ∨ c.cancelled then (w, false)
    else
      let w := w.setPeer c.room c.role (some { own with active := true })
      if w.ready c.room .desktop && w.ready c.room .mobile then
        if !drawn then (w, false)
        else
          let message := Message.paired w.epochs
          let w := w.draw
          match w.sendTo c.room .desktop message with
          | none => (w, false)
          | some w =>
            match w.sendTo c.room .mobile message with
            | none => (w, false)
            | some w => (w, true)
      else
        match w.sendTo c.room c.role .waiting with
        | none => (w, false)
        | some w => (w, true)

/-- `Lease::forward` of connection `i`, and whether it went well. -/
def forward (c : Conn) (packet : Packet) : Relay × Bool :=
  if c.cancelled then (w, false)
  else
    match w.peer c.room c.role.peer with
    | none => (w, false)
    | some target =>
      if !target.active || w.isCancelled target.conn then (w, false)
      else
        match w.trySend target.conn (.binary i packet) with
        | some w => (w.modifyConn i fun c => { c with accepted := c.accepted ++ [(target.conn, packet)] }, true)
        | none => (w.cancel target.conn, false)

/-- `Drop for Lease`. -/
def dropLease (c : Conn) : Relay :=
  match w.peer c.room c.role with
  | none => w
  | some own =>
    if own.generation = c.generation then
      let w := w.setPeer c.room c.role none
      match w.peer c.room c.role.peer with
      | some p => w.cancel p.conn
      | none => w
    else w

end Relay

/-! ### The connections -/

inductive RelayEvent where
  | reserve (room : Text) (role : Role) (token : Text)
  /-- The upgrade of a connection is done, and it announces itself. -/
  | announce (i : ℕ) (drawn : Bool)
  | forward (i : ℕ) (packet : Packet)
  | recv (i : ℕ)
  /-- The receiver is dropped before the lease. -/
  | close (i : ℕ)
  | drop (i : ℕ)

namespace RelayEvent

/-- One step; nothing where a connection is not at it. -/
def step (authorized : Text → Text → Bool) (w : Relay) : RelayEvent → Option Relay
  | reserve room role token => some (w.reserve room role authorized token)
  | announce i drawn =>
    match w.conns[i]? with
    | some c =>
      if c.phase = .upgrading then
        let (w, ok) := w.announce c drawn
        some (w.setPhase i (if ok then .running else .ending))
      else none
    | none => none
  | forward i packet =>
    match w.conns[i]? with
    | some c =>
      if c.phase = .running then
        let (w, ok) := w.forward i c packet
        some (if ok then w else w.setPhase i .ending)
      else none
    | none => none
  | recv i =>
    match w.conns[i]? with
    | some c =>
      match c.phase, c.queue with
      | .running, m :: rest => some (w.modifyConn i fun c => { c with queue := rest, received := c.received ++ [m] })
      | _, _ => none
    | none => none
  | close i =>
    match w.conns[i]? with
    | some c =>
      if c.phase = .dropped then none else some (w.modifyConn i fun c => { c with phase := .ending, closed := true })
    | none => none
  | drop i =>
    match w.conns[i]? with
    | some c =>
      if c.phase = .dropped then none else some (((w.dropLease c).setPhase i .dropped).note (.drop i))
    | none => none

end RelayEvent

/-! ### Isolation -/

/-- Both connections were put the same epoch. -/
def Linked (history : List Note) (a b : ℕ) : Prop :=
  ∃ epoch, .put a (.paired epoch) ∈ history ∧ .put b (.paired epoch) ∈ history

/-- What is to hold before a packet of `s` enters the queue of `t`. -/
structure Allowed (before : List Note) (s t : ℕ) : Prop where
  linked : Linked before s t
  sender : .cancel s ∉ before
  receiver : .cancel t ∉ before
  /-- Neither of them is the surviving end of a pair of which the other end was dropped. -/
  survivor : ∀ a b earlier, (.drop a :: earlier) <:+ before → Linked earlier a b → s ≠ b ∧ t ≠ b

/-- The packet of a message that `s` sent. -/
def Message.packetFrom (s : ℕ) : Message → Option Packet
  | binary sender packet => if sender = s then some packet else none
  | _ => none

namespace Relay

/-- The packets of `s` that were put in the queue of `r`, received by now or not. -/
def queued (w : Relay) (s r : ℕ) : List Packet :=
  match w.conns[r]? with
  | some c => (c.received ++ c.queue).filterMap (Message.packetFrom s)
  | none => []

/-- The packets that `s` has forwarded to `r`, in the order in which it did. -/
def forwarded (w : Relay) (s r : ℕ) : List Packet :=
  match w.conns[s]? with
  | some c => c.accepted.filterMap fun e => if e.1 = r then some e.2 else none
  | none => []

structure Isolated (w : Relay) : Prop where
  /-- A packet enters a queue only where it is allowed to. -/
  packets : ∀ s t packet before, (.put t (.binary s packet) :: before) <:+ w.history → Allowed before s t
  /-- There is at most one live lease for each role of a room. -/
  lease : ∀ (i j : ℕ) (c d : Conn), w.conns[i]? = some c → w.conns[j]? = some d → c.phase ≠ .dropped →
    d.phase ≠ .dropped → c.room = d.room → c.role = d.role → i = j
  /-- The packets of a sender are queued as they were forwarded. -/
  ordered : ∀ s r, w.queued s r = w.forwarded s r

/-- An epoch is drawn where both ends are ready. -/
def EpochDrawn (w : Relay) : RelayEvent → Prop
  | .announce i false => ∀ c ∈ w.conns[i]?, w.ready c.room c.role.peer = false
  | _ => True

end Relay

end Pebrel.Link
