import Pebrel.Library.Assoc
import Pebrel.Library.StableSort
import Pebrel.Library.Text
import Mathlib.Data.List.MinMax

/-!
# The gate of hook events

The hooks of an agent report over several ways, so that events come twice, late and out of order
(`ai_hook/ordering.rs`). The gate has a state for each stream of events, and takes an event
unless something says that it is an old one. The events of one batch are put in the order of
their numbers before.

## The model

The answer of an agent is of a type `α`, and the hash of the fingerprints is a parameter. Two
streams never have the same `last_received_sequence`, for each event has its own.
-/

namespace Pebrel.Hooks

open Library

inductive AiHookKind where
  | sessionStart
  | promptSubmit
  | toolComplete
  | turnDone
  | needsAttention
  | sessionEnd
  deriving DecidableEq

structure AiBackgroundTasks where
  active : ℕ
  total : ℕ

structure AttentionContext where
  cwd : Option Text
  project : Option Text
  permissionOrTool : Option Text
  rawContext : Option Text

structure AiHookEvent (α : Type) where
  source : Text
  kind : AiHookKind
  sessionId : Option Text
  bridgeInstance : Option Text
  pane : Option ℕ
  agentPid : Option ℕ
  remoteProcess : Option Text
  eventId : Option Text
  bridgeSequence : Option ℕ
  occurredAtMs : Option ℕ
  receivedAtMs : ℕ
  receivedSequence : ℕ
  message : Option Text
  answer : Option α
  backgroundTasks : Option AiBackgroundTasks
  attention : Option AttentionContext

structure AiHookStreamKey where
  source : Text
  sessionId : Option Text
  pane : Option ℕ
  agentPid : Option ℕ
  remoteProcess : Option Text
  deriving DecidableEq

inductive StreamLifecycle where
  | active
  | blocked
  | done
  | ended

structure AiHookStreamState where
  lastBridgeSequence : Option ℕ
  lastOccurredAtMs : Option ℕ
  lastReceivedSequence : ℕ
  lifecycle : StreamLifecycle
  seenEventIds : List Text
  /-- A hash, and when it was received. -/
  lastFingerprint : Option (ℕ × ℕ)

inductive GateVerdict where
  | accepted
  | duplicateEventId
  | staleSequence
  | staleTime
  | duplicateFingerprint
  | afterSessionEnd
  | unorderedAfterDone
  deriving DecidableEq

def maxTrackedStreams : ℕ := 512
def maxEventIdsPerStream : ℕ := 64
def duplicateWindowMs : ℕ := 1500

/-- What is hashed of an event. -/
structure Fingerprint (α : Type) where
  kind : AiHookKind
  message : Option Text
  answer : Option α
  backgroundTasks : Option AiBackgroundTasks
  attention : Option AttentionContext

variable {α : Type}

namespace AiHookEvent

def streamKey (event : AiHookEvent α) (pane : Option ℕ) : AiHookStreamKey where
  source := event.source
  sessionId := if event.source = "pi".toList ∧ event.bridgeInstance.isSome then event.bridgeInstance else event.sessionId
  pane := pane
  agentPid := event.agentPid
  remoteProcess := event.remoteProcess

def serializedDelivery (event : AiHookEvent α) : Bool := decide (event.source = "opencode".toList)

def activeBackgroundTasks (event : AiHookEvent α) : ℕ := (event.backgroundTasks.map AiBackgroundTasks.active).getD 0

def fingerprint (event : AiHookEvent α) : Fingerprint α :=
  ⟨event.kind, event.message, event.answer, event.backgroundTasks, event.attention⟩

/-- Nothing but its contents tells a final event from an earlier one. -/
def useFingerprint (event : AiHookEvent α) : Bool :=
  event.eventId.isNone && event.bridgeSequence.isNone && event.occurredAtMs.isNone &&
    decide (event.kind = .turnDone ∨ event.kind = .needsAttention ∨ event.kind = .sessionEnd)

def lifecycleAfter (event : AiHookEvent α) : StreamLifecycle :=
  match event.kind with
  | .sessionStart | .promptSubmit | .toolComplete => .active
  | .turnDone => if 0 < event.activeBackgroundTasks then .active else .done
  | .needsAttention => .blocked
  | .sessionEnd => .ended

end AiHookEvent

def AiHookStreamState.new (event : AiHookEvent α) : AiHookStreamState := ⟨none, none, event.receivedSequence, .active, [], none⟩

/-- How a number compares with an earlier one, where both are there. -/
def order (current previous : Option ℕ) : Option Ordering :=
  match current, previous with
  | some current, some previous => some (compare current previous)
  | _, _ => none

variable (hash : Fingerprint α → ℕ)

namespace AiHookStreamState

/-- What the state of a stream says of an event. -/
def judge (state : AiHookStreamState) (event : AiHookEvent α) : GateVerdict :=
  let providerOrder := order event.bridgeSequence state.lastBridgeSequence
  let timeOrder := order event.occurredAtMs state.lastOccurredAtMs
  let strictlyNewer := decide (providerOrder = some .gt) || (providerOrder.isNone && decide (timeOrder = some .gt))
  if event.eventId.any fun id => state.seenEventIds.contains id then .duplicateEventId
  else if providerOrder.any fun o => o ≠ .gt then .staleSequence
  else if providerOrder = none ∧ timeOrder = some .lt then .staleTime
  else if event.useFingerprint && state.lastFingerprint.any fun previous =>
      previous.1 = hash event.fingerprint && event.receivedAtMs - previous.2 ≤ duplicateWindowMs then .duplicateFingerprint
  else
    match state.lifecycle with
    | .ended => if event.kind = .sessionStart then .accepted else .afterSessionEnd
    | .done =>
      if event.kind = .toolComplete ∧ strictlyNewer = false ∧ (event.serializedDelivery && event.bridgeSequence.isSome) = false then
        .unorderedAfterDone
      else .accepted
    | _ => .accepted

/-- The identities that are remembered with a further one. -/
def remember (ids : List Text) : Option Text → List Text
  | some id => (if ids.length = maxEventIdsPerStream then ids.tail else ids) ++ [id]
  | none => ids

/-- The state after an event that is taken. -/
def absorb (state : AiHookStreamState) (event : AiHookEvent α) : AiHookStreamState where
  lastBridgeSequence := event.bridgeSequence.or state.lastBridgeSequence
  lastOccurredAtMs := event.occurredAtMs.or state.lastOccurredAtMs
  lastReceivedSequence := max state.lastReceivedSequence event.receivedSequence
  lifecycle := event.lifecycleAfter
  seenEventIds := remember (if event.kind = .sessionStart then [] else state.seenEventIds) event.eventId
  lastFingerprint := if event.useFingerprint then some (hash event.fingerprint, event.receivedAtMs) else none

end AiHookStreamState

abbrev AiHookEventGate := Assoc.Map AiHookStreamKey AiHookStreamState

namespace AiHookEventGate

/-- The stream that has received nothing for the longest time. -/
def oldest (gate : AiHookEventGate) : Option AiHookStreamKey :=
  (gate.entries.argmin fun e => e.2.lastReceivedSequence).map Prod.fst

/-- There is room for a stream. -/
def makeRoom (gate : AiHookEventGate) (key : AiHookStreamKey) : AiHookEventGate :=
  if gate.containsKey key = false ∧ maxTrackedStreams ≤ gate.entries.length then
    match gate.oldest with
    | some oldest => gate.filterKeys (· ≠ oldest)
    | none => gate
  else gate

def verdict (gate : AiHookEventGate) (event : AiHookEvent α) (paneId : ℕ) : AiHookEventGate × GateVerdict :=
  let key := event.streamKey (some paneId)
  let room := gate.makeRoom key
  let state := (room.get? key).getD (.new event)
  match state.judge hash event with
  | .accepted => (room.insert key (state.absorb hash event), .accepted)
  | verdict => (if room.containsKey key then room else room.insert key state, verdict)

end AiHookEventGate

/-! ### Batches -/

/-- The first event of a group goes to the place of each key. -/
def popAll : List AiHookStreamKey → Assoc.Map AiHookStreamKey (List (AiHookEvent α)) → List (AiHookEvent α)
  | [], _ => []
  | key :: keys, groups =>
    match groups.get? key with
    | some (event :: rest) => event :: popAll keys (groups.insert key rest)
    | _ => popAll keys groups

/-- The events of each stream, in the order in which they came. -/
def groupEvents (events : List (AiHookEvent α)) : Assoc.Map AiHookStreamKey (List (AiHookEvent α)) :=
  events.foldl (fun groups event =>
    groups.insert (event.streamKey event.pane) ((groups.get? (event.streamKey event.pane)).getD [] ++ [event])) .empty

/-- A group in the order of its numbers, if all events have one. -/
def orderGroup (group : List (AiHookEvent α)) : List (AiHookEvent α) :=
  if 1 < group.length ∧ (group.all fun event => event.bridgeSequence.isSome) = true then
    StableSort.sortByKey (fun event => event.bridgeSequence.getD 0) group
  else group

def reorderBatch (events : List (AiHookEvent α)) : List (AiHookEvent α) :=
  popAll (events.map fun event => event.streamKey event.pane) ((groupEvents events).mapValues orderGroup)

/-! ### Streams -/

/-- The events of a stream that the gate has taken since it keeps the stream. -/
inductive Taken : List (AiHookEvent α) → AiHookStreamState → Prop
  | first (event : AiHookEvent α) : Taken [event] ((AiHookStreamState.new event).absorb hash event)
  | next {events : List (AiHookEvent α)} {state : AiHookStreamState} {event : AiHookEvent α} (h : Taken events state)
    (haccepted : state.judge hash event = .accepted) : Taken (events ++ [event]) (state.absorb hash event)

end Pebrel.Hooks
