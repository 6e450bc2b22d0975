import Pebrel.Link.RuntimeRequest

/-!
# The link to the local runtime

Each request of a paired phone goes to the runtime over a socket of its own
(`relay/runtime-link.mjs`). The first frame that comes back is the response; a subscription gets
events after it. When a socket is lost, nobody knows whether the request was carried out: the
phone is told so, and the whole link is closed.

## The model

A socket is its place in the list of all that were opened. Until it is destroyed it may connect,
receive bytes, time out and fail; and it closes once. What is emitted is recorded, with the socket
that it answers. `JSON.parse` is a parameter.
-/

namespace Pebrel.Link

open Library Sync

inductive SocketState where
  | opened
  | destroyed
  /-- It has emitted `close`. -/
  | closed
  deriving DecidableEq

structure RuntimeSocket where
  request : RuntimeRequest
  state : SocketState
  /-- The request has been sent. -/
  connected : Bool
  /-- The bytes of a frame that is not whole. -/
  fragments : List UInt8
  responded : Bool
  ended : Bool

/-- What the link emits. -/
inductive Emission where
  /-- A request is not accepted. -/
  | refusal (id : Text) (code : FailureCode)
  | response (socket : ℕ) (frame : Json)
  | event (socket : ℕ) (frame : Json)
  | deliveryUnknown (socket : ℕ)

structure RuntimeLink where
  active : Assoc.Map Text ℕ
  seen : List Text
  inputIds : List Text
  subscribed : Bool
  closed : Bool
  sockets : List RuntimeSocket
  emitted : List Emission

namespace RuntimeSocket

def isSubscription (s : RuntimeSocket) : Bool := decide (s.request.method = "events.subscribe".toList)

def isInput (s : RuntimeSocket) : Bool := decide (s.request.method ∈ Policy.input)

def destroy (s : RuntimeSocket) : RuntimeSocket := { s with state := if s.state = .opened then .destroyed else s.state }

end RuntimeSocket

namespace RuntimeLink

def new : RuntimeLink := ⟨.empty, [], [], false, false, [], []⟩

def emit (link : RuntimeLink) (e : Emission) : RuntimeLink := { link with emitted := link.emitted ++ [e] }

def update (link : RuntimeLink) (i : ℕ) (f : RuntimeSocket → RuntimeSocket) : RuntimeLink :=
  { link with sockets := link.sockets.modify i f }

def close (link : RuntimeLink) : RuntimeLink :=
  if link.closed then link
  else
    { link with
      closed := true
      sockets := link.sockets.mapIdx fun i s => if link.active.entries.any (fun e => e.2 = i) then s.destroy else s
      active := .empty
      seen := []
      inputIds := [] }

/-! ### Requests -/

/-- The first 80 units of UTF-16. -/
def slice : ℕ → Text → Text
  | _, [] => []
  | n, c :: t => if (if c.toNat < 65536 then 1 else 2) ≤ n then c :: slice (n - if c.toNat < 65536 then 1 else 2) t else []

/-- The identifier that a failure of the check is told under. -/
def failureId (raw : Json) : Text :=
  match raw.get? "id".toList with
  | some (.string id) => slice 80 id
  | _ => "invalid".toList

/-- The identifiers that are remembered with a further one. -/
def remember (seen : List Text) (id : Text) : List Text := if 256 < (seen ++ [id]).length then (seen ++ [id]).tail else seen ++ [id]

/-- A socket is opened for a request. -/
def accept (link : RuntimeLink) (request : RuntimeRequest) : RuntimeLink :=
  { link with
    active := link.active.insert request.id link.sockets.length
    seen := remember link.seen request.id
    inputIds := if request.method ∈ Policy.input then link.inputIds ++ [request.id] else link.inputIds
    subscribed := link.subscribed || decide (request.method = "events.subscribe".toList)
    sockets := link.sockets ++ [⟨request, .opened, false, [], false, false⟩] }

def request (size : Json → ℕ) (allowInput : Bool) (link : RuntimeLink) (raw : Json) : RuntimeLink :=
  if link.closed then link
  else
    match validateRequest size allowInput raw with
    | .error code => link.emit (.refusal (failureId raw) code)
    | .ok request =>
      if request.id ∈ link.seen ∨ request.id ∈ link.inputIds then link.emit (.refusal request.id .duplicateRequest)
      else if Policy.maxPending ≤ link.active.entries.length then link.emit (.refusal request.id .tooManyRequests)
      else if request.method = "events.subscribe".toList ∧ link.subscribed = true then link.emit (.refusal request.id .alreadySubscribed)
      else if request.method ∈ Policy.input ∧ 4096 ≤ link.inputIds.length then link.emit (.refusal request.id .inputLimitReconnect)
      else link.accept request

/-! ### Sockets -/

/-- A socket is lost, and with it the link. -/
def lost (link : RuntimeLink) (i : ℕ) (s : RuntimeSocket) : RuntimeLink :=
  if s.ended || link.closed then link
  else
    let link := link.update i fun s => { s with ended := true }
    (if s.responded then link else link.emit (.deliveryUnknown i)).close

/-- What a frame is to a socket. -/
def frameOf (parse : List UInt8 → Option Json) (i : ℕ) (s : RuntimeSocket) (text : List UInt8) : Option Emission :=
  match parse text with
  | none => none
  | some frame =>
    if s.responded then
      match frame.get? "event".toList with
      | some (.string event) => if s.isSubscription = true ∧ event = "runtime.snapshot".toList then some (.event i frame) else none
      | _ => none
    else
      match frame.get? "id".toList, frame.get? "ok".toList with
      | some (.string id), some (.bool _) => if id = s.request.id then some (.response i frame) else none
      | _, _ => none

/-- A part of the bytes that are received, with the newline that ends it if there is one. -/
def feedPiece (parse : List UInt8 → Option Json) (i : ℕ) (link : RuntimeLink) (piece : List UInt8 × Bool) : RuntimeLink :=
  if link.closed then link
  else
    match link.sockets[i]? with
    | none => link
    | some s =>
      let text := s.fragments ++ piece.1
      if Policy.maxFrameBytes < text.length then (link.lost i s).update i RuntimeSocket.destroy
      else if piece.2 = false then link.update i fun s => { s with fragments := text }
      else
        match frameOf parse i s text with
        | some e => (link.update i fun s => { s with fragments := [], responded := true }).emit e
        | none => (link.lost i s).update i .destroy

/-- The parts of the bytes that are received. -/
def pieces : List UInt8 → List UInt8 → List (List UInt8 × Bool)
  | [], [] => []
  | piece, [] => [(piece, false)]
  | piece, b :: bytes => if b = 10 then (piece ++ [b], true) :: pieces [] bytes else pieces (piece ++ [b]) bytes

inductive Action where
  | request (raw : Json)
  | connect (i : ℕ)
  | data (i : ℕ) (bytes : List UInt8)
  | timeout (i : ℕ)
  | error (i : ℕ)
  | socketClose (i : ℕ)
  | close

/-- The event `close` of a socket. -/
def socketClosed (link : RuntimeLink) (i : ℕ) (s : RuntimeSocket) : RuntimeLink :=
  let link := { link.update i fun s => { s with state := .closed } with active := link.active.filterKeys (· ≠ s.request.id) }
  if s.fragments.length ≠ 0 ∨ s.responded = false ∨ s.isSubscription = true then link.lost i s else link

/-- The step of a socket that is open. -/
def whenOpened (link : RuntimeLink) (i : ℕ) (f : RuntimeSocket → RuntimeLink) : Option RuntimeLink :=
  match link.sockets[i]? with
  | some s => if s.state = .opened then some (f s) else none
  | none => none

def step (size : Json → ℕ) (allowInput : Bool) (parse : List UInt8 → Option Json) (link : RuntimeLink) : Action → Option RuntimeLink
  | .request raw => some (link.request size allowInput raw)
  | .connect i =>
    if link.sockets[i]?.any RuntimeSocket.connected then none
    else link.whenOpened i fun _ => link.update i fun s => { s with connected := true }
  | .data i bytes => link.whenOpened i fun _ => (pieces [] bytes).foldl (feedPiece parse i) link
  | .timeout i => link.whenOpened i fun s => (link.lost i s).update i .destroy
  | .error i => link.whenOpened i fun s => (link.update i .destroy).lost i s
  | .socketClose i =>
    match link.sockets[i]? with
    | some s => if s.state = .closed then none else some (link.socketClosed i s)
    | none => none
  | .close => some link.close

end RuntimeLink

end Pebrel.Link
