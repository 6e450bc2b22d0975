import Pebrel.Library.Transition
import Mathlib.Data.List.Count

/-!
# The event mailbox

The events of a terminal are queued for its view (`gpui_shell/terminal/event_mailbox.rs`).
Of the two that only say that something is to be shown again, no second one is queued while
one is under way: a flag is swapped before it is queued, and cleared once it is taken.

## The model

Senders and the receiver take one step after another, in any order: each access to a flag
and each operation of the queue is a step. A sender is a number; what is under way in it is
the call of `send` that it is in. What has been received is recorded, with its sender.
-/

namespace Pebrel.Terminal

open Library Function

/-- The events of which one is enough. -/
inductive Invalidation where
  | wakeup
  | programStatusChanged
  deriving DecidableEq

inductive MailboxEvent (α : Type) where
  | invalidation (k : Invalidation)
  | other (a : α)

/-- The flag of the event. -/
def MailboxEvent.pending {α : Type} : MailboxEvent α → Option Invalidation
  | .invalidation k => some k
  | .other _ => none

/-- Where a sender is in `send`. -/
inductive Sending where
  | idle
  /-- The flag is swapped, and the event is to be queued. -/
  | queueing (k : Invalidation)
  /-- The channel was closed, and the flag is to be cleared. -/
  | clearing (k : Invalidation)
  deriving DecidableEq

structure Mailbox (α : Type) where
  pending : Invalidation → Bool
  queue : List (ℕ × MailboxEvent α)
  senders : ℕ → Sending
  /-- The event that is to be acknowledged. -/
  acknowledging : Option Invalidation
  isOpen : Bool
  received : List (ℕ × MailboxEvent α)

inductive MailboxAction (α : Type) where
  /-- A sender sends an event that is queued in any case. -/
  | send (sender : ℕ) (a : α)
  /-- A sender sends the other kind of event, and swaps its flag. -/
  | swap (sender : ℕ) (k : Invalidation)
  /-- It queues the event. -/
  | queue (sender : ℕ)
  | clear (sender : ℕ)
  /-- The receiver takes the first event. -/
  | receive
  | acknowledge (k : Invalidation)
  /-- The receiver is dropped. -/
  | close
  deriving DecidableEq

namespace Mailbox

variable {α : Type}

def channel : Mailbox α := ⟨fun _ => false, [], fun _ => .idle, none, true, []⟩

def step (m : Mailbox α) : MailboxAction α → Option (Mailbox α)
  | .send i a =>
    if m.senders i = .idle then some (if m.isOpen then { m with queue := m.queue ++ [(i, .other a)] } else m) else none
  | .swap i k =>
    if m.senders i = .idle then
      some (if m.pending k then m
        else { m with pending := update m.pending k true, senders := update m.senders i (.queueing k) })
    else none
  | .queue i =>
    match m.senders i with
    | .queueing k =>
      some (if m.isOpen then { m with queue := m.queue ++ [(i, .invalidation k)], senders := update m.senders i .idle }
        else { m with senders := update m.senders i (.clearing k) })
    | _ => none
  | .clear i =>
    match m.senders i with
    | .clearing k => some { m with pending := update m.pending k false, senders := update m.senders i .idle }
    | _ => none
  | .receive =>
    if m.acknowledging = none then
      match m.queue with
      | [] => none
      | (i, e) :: queue => some { m with queue := queue, received := m.received ++ [(i, e)], acknowledging := e.pending }
    else none
  | .acknowledge k =>
    if m.acknowledging = some k then some { m with pending := update m.pending k false, acknowledging := none } else none
  | .close => if m.acknowledging = none ∧ m.isOpen = true then some { m with isOpen := false, queue := [] } else none

/-- Nothing is under way. -/
def Quiet (m : Mailbox α) : Prop := (∀ i, m.senders i = .idle) ∧ m.queue = [] ∧ m.acknowledging = none

end Mailbox

end Pebrel.Terminal
