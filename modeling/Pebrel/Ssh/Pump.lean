import Pebrel.Ssh.Address

/-!
# The pump of an SSH channel

What a shell on another machine writes is fed to the terminal, and what the user
types is written to the channel (`ssh_session/lifecycle.rs`). Messages that come
before the shell is confirmed are kept until it is. A marker that the shell writes
at its start is taken out of its output (`resume/identity.rs`).

## The model

The server sends the messages of a script, which ends where the connection does.
They arrive one by one, and each wait of the pump is one step. What it takes in one
go, as it is there already, is taken in one step. A step that writes to the channel
and the end of the writing are two steps, as the pump does not wait for it.
-/

namespace Pebrel.Ssh

open Library
open Pebrel.Stream (Bytes utf8)

/-! ### Messages -/

inductive ChannelMsg where
  | data (bytes : Bytes)
  | extendedData (bytes : Bytes)
  | success
  | failure
  | windowAdjusted
  | exitStatus (status : ℕ)
  | exitSignal
  | eof
  | close
  /-- Any other message. -/
  | other
  deriving DecidableEq

namespace ChannelMsg

def bytes : ChannelMsg → Bytes
  | data bytes => bytes
  | extendedData bytes => bytes
  | _ => []

def isData : ChannelMsg → Bool
  | data _ => true
  | extendedData _ => true
  | _ => false

end ChannelMsg

structure WindowSize where
  numLines : ℕ
  numCols : ℕ
  cellWidth : ℕ
  cellHeight : ℕ
  deriving DecidableEq

/-- What the pane sends to the pump. -/
inductive Msg where
  | input (bytes : Bytes)
  | resize (size : WindowSize)
  | resizeGrid (size : WindowSize)
  | cellMetrics (size : WindowSize)
  | shutdown
  deriving DecidableEq

/-- What is written to the channel. -/
inductive ChannelWrite where
  | dataBytes (bytes : Bytes)
  | windowChange (cols lines width height : ℕ)
  deriving DecidableEq

def Msg.write : Msg → Option ChannelWrite
  | input bytes => some (.dataBytes bytes)
  | resize size => some (.windowChange size.numCols size.numLines (size.cellWidth * size.numCols) (size.cellHeight * size.numLines))
  | _ => none

/-! ### The marker of the shell -/

structure PtyIdentity where
  tty : Text
  pid : ℕ
  deriving DecidableEq

def PtyIdentity.parse (value : Bytes) : Option PtyIdentity := do
  let (tty, pid) ← (utf8 value).bind (Text.splitOnce ':')
  if !"/dev/".toList.isPrefixOf tty || 128 < tty.length || !tty.all fun c => c.isAlphanum || ['/', '_', '-'].contains c then none
  else (parseU32 pid).bind fun pid => if pid ≠ 0 then some ⟨tty, pid⟩ else none

/-- Looks for the marker in the output, and holds back what may be a part of it. -/
structure IdentityInput where
  /-- What the marker starts with. -/
  start : Bytes
  candidate : Bytes
  scanned : ℕ
  done : Bool
  identity : Option PtyIdentity
  deriving DecidableEq

namespace IdentityInput

def new (token : Bytes) : IdentityInput := ⟨0x1e :: Stream.ascii "PEBREL_PTY_" ++ token ++ Stream.ascii "=", [], 0, false, none⟩

/-- One byte, before it is seen whether too much is held back. -/
def scan (f : IdentityInput) (byte : UInt8) : IdentityInput × Bytes :=
  if f.candidate.length < f.start.length then
    if f.start[f.candidate.length]? = some byte then ({ f with candidate := f.candidate ++ [byte] }, [])
    else if f.start.head? = some byte then ({ f with candidate := [byte] }, f.candidate)
    else ({ f with candidate := [] }, f.candidate ++ [byte])
  else if byte = 0x1f then
    match PtyIdentity.parse (f.candidate.drop f.start.length) with
    | some identity => ({ f with identity := some identity, candidate := [], done := true }, [])
    | none => ({ f with candidate := [], done := true }, f.candidate ++ [byte])
  else ({ f with candidate := f.candidate ++ [byte] }, [])

/-- The body of the loop of `feed`. -/
def feedByte (f : IdentityInput) (byte : UInt8) : IdentityInput × Bytes :=
  if f.done then (f, [byte])
  else
    let (f, output) := { f with scanned := f.scanned + 1 }.scan byte
    if 8192 ≤ f.scanned ∨ f.start.length + 160 < f.candidate.length then ({ f with candidate := [], done := true }, output ++ f.candidate)
    else (f, output)

def feed (f : IdentityInput) : Bytes → IdentityInput × Bytes
  | [] => (f, [])
  | byte :: bytes =>
    let (f, output) := f.feedByte byte
    let (f, rest) := f.feed bytes
    (f, output ++ rest)

end IdentityInput

/-! ### The pump -/

inductive Phase where
  /-- So many requests are to be confirmed. -/
  | requesting (left : ℕ)
  | rejected
  /-- What came before the confirmation is fed. -/
  | draining
  | pumping
  | ended (ok : Bool)
  deriving DecidableEq

structure Pump where
  /-- What the server sends still. -/
  script : List ChannelMsg
  /-- What has arrived. -/
  incoming : List ChannelMsg
  pending : List ChannelMsg
  pendingBytes : ℕ
  identityInput : Option IdentityInput
  /-- What was fed to the terminal. -/
  fed : Bytes
  /-- What the pane has sent, and what is left of it. -/
  sent : List Msg
  inputs : List Msg
  writing : Option ChannelWrite
  written : List ChannelWrite
  /-- The end of the output was seen. -/
  eof : Bool
  phase : Phase
  deriving DecidableEq

/-- A channel that is opened: two requests are to be confirmed, for a terminal and for a shell. -/
def Pump.opened (script : List ChannelMsg) (identityInput : Option IdentityInput) : Pump :=
  ⟨script, [], [], 0, identityInput, [], [], [], none, [], false, .requesting 2⟩

def maxPending : ℕ := 1024 * 1024

def maxBytes : ℕ := 64 * 1024

def maxMessages : ℕ := 128

/-- A message is fed: the marker is looked for in the output, but not in what the shell writes on the side. -/
def feedMessage (f : Option IdentityInput) : ChannelMsg → Option IdentityInput × Bytes
  | .data bytes =>
    match f with
    | some f => (some (f.feed bytes).1, (f.feed bytes).2)
    | none => (none, bytes)
  | .extendedData bytes => (f, bytes)
  | _ => (f, [])

namespace Pump

def feed (p : Pump) (message : ChannelMsg) : Pump :=
  { p with identityInput := (feedMessage p.identityInput message).1, fed := p.fed ++ (feedMessage p.identityInput message).2 }

/-- `ready_message`, and `next_message` where there is one. -/
def readyMessage (p : Pump) : Option (ChannelMsg × Pump) :=
  match p.pending with
  | message :: pending => some (message, { p with pending := pending })
  | [] =>
    match p.incoming with
    | message :: incoming => some (message, { p with incoming := incoming })
    | [] => none

/-- The messages that are there. -/
def ready (p : Pump) : List ChannelMsg := p.pending ++ p.incoming

theorem readyMessage_ready {p p' : Pump} {message : ChannelMsg} (h : p.readyMessage = some (message, p')) :
    p.ready = message :: p'.ready ∧ p'.script = p.script ∧ p' = { p with pending := p'.pending, incoming := p'.incoming } := by
  rw [readyMessage] at h
  split at h
  · rename_i hpd
    obtain ⟨rfl, rfl⟩ := Prod.mk.inj (Option.some.inj h)
    exact ⟨by rw [ready, hpd]; rfl, rfl, rfl⟩
  rename_i hpd
  split at h
  · rename_i hi
    obtain ⟨rfl, rfl⟩ := Prod.mk.inj (Option.some.inj h)
    exact ⟨by rw [ready, ready, hpd, hi]; rfl, rfl, rfl⟩
  · exact nomatch h

/-- The loop of `feed_ready_output`. -/
def feedLoop (bytes messages : ℕ) (p : Pump) (message : ChannelMsg) : Pump :=
  if message.isData then
    let p := p.feed message
    if maxBytes ≤ bytes + message.bytes.length ∨ maxMessages ≤ messages + 1 then p
    else
      match h : p.readyMessage with
      | some (next, p') => feedLoop (bytes + message.bytes.length) (messages + 1) p' next
      | none => p
  else { p with pending := message :: p.pending }
termination_by p.ready.length
decreasing_by
  have hready := congrArg List.length (readyMessage_ready h).1
  rw [List.length_cons] at hready
  change p'.ready.length < p.ready.length
  change p.ready.length = p'.ready.length + 1 at hready
  omega

def feedReadyOutput (p : Pump) (message : ChannelMsg) : Pump := feedLoop 0 0 p message

/-- The end of `pump`: what was held back is fed. -/
def finish (ok : Bool) (p : Pump) : Pump :=
  match p.identityInput with
  | some f => { p with fed := p.fed ++ f.candidate, identityInput := some { f with candidate := [], done := true }, phase := .ended ok }
  | none => { p with phase := .ended ok }

/-- The loop of `wait_request_success`, for one message. -/
def request (p : Pump) (left : ℕ) (message : ChannelMsg) : Pump :=
  match message with
  | .success => { p with phase := if left = 0 then .draining else .requesting left }
  | .windowAdjusted => p
  | .data bytes | .extendedData bytes =>
    let p := { p with pendingBytes := p.pendingBytes + bytes.length }
    if maxPending < p.pendingBytes then { p with phase := .rejected } else { p with pending := p.pending ++ [message] }
  | _ => { p with phase := .rejected }

/-- The loop of `pump_stream`, for a message of the server. -/
def receive (p : Pump) (message : ChannelMsg) : Pump :=
  match message with
  | .data _ | .extendedData _ => p.feedReadyOutput message
  | .exitStatus _ => p.finish true
  | .eof => { p with eof := true }
  | .close | .exitSignal => p.finish false
  | _ => p

/-- The loop of `pump_stream`, for a message of the pane. -/
def take (p : Pump) (message : Msg) : Pump :=
  match message with
  | .shutdown => p.finish true
  | _ => { p with writing := message.write }

end Pump

inductive PumpStep where
  /-- A message of the server arrives. -/
  | arrive
  /-- The connection is closed, and all that was sent has been taken. -/
  | hangUp
  /-- A message is waited for before the shell is confirmed. -/
  | request
  /-- The time that is given to the requests is over. -/
  | abandon
  | drain
  /-- A message is waited for. -/
  | message
  /-- The pane sends a message. -/
  | send (message : Msg)
  /-- A message of the pane is taken. -/
  | input
  /-- The writing ends, or fails. -/
  | complete (ok : Bool)
  /-- The time after the end of the output is over. -/
  | eofDeadline
  /-- The time of a synchronized update is over. -/
  | syncDeadline

/-- What happens, where it can. -/
def Pump.step (p : Pump) : PumpStep → Option Pump
  | .arrive =>
    match p.script with
    | message :: script => some { p with script := script, incoming := p.incoming ++ [message] }
    | [] => none
  | .hangUp =>
    if p.script = [] ∧ p.ready = [] then
      match p.phase with
      | .requesting _ => some { p with phase := .rejected }
      | .pumping => some (p.finish false)
      | _ => none
    else none
  | .request =>
    match p.phase, p.incoming with
    | .requesting (left + 1), message :: incoming => some ({ p with incoming := incoming }.request left message)
    | _, _ => none
  | .abandon =>
    match p.phase with
    | .requesting _ => some { p with phase := .rejected }
    | _ => none
  | .drain =>
    match p.phase, p.pending with
    | .draining, message :: pending =>
      if message.isData then some ({ p with pending := pending }.feedReadyOutput message) else some { p with phase := .pumping }
    | .draining, [] => some { p with phase := .pumping }
    | _, _ => none
  | .message =>
    match p.phase, p.readyMessage with
    | .pumping, some (message, p) => some (p.receive message)
    | _, _ => none
  | .send message => some { p with sent := p.sent ++ [message], inputs := p.inputs ++ [message] }
  | .input =>
    match p.phase, p.writing, p.inputs with
    | .pumping, none, message :: inputs => some ({ p with inputs := inputs }.take message)
    | _, _, _ => none
  | .complete ok =>
    match p.phase, p.writing with
    | .pumping, some write => some (if ok then { p with writing := none, written := p.written ++ [write] } else p.finish false)
    | _, _ => none
  | .eofDeadline =>
    match p.phase, p.eof with
    | .pumping, true => some (p.finish false)
    | _, _ => none
  | .syncDeadline => if p.phase = .pumping then some p else none

end Pebrel.Ssh
