import Mathlib.Data.List.Basic

/-!
# Keeping the session

The tabs of all windows are saved every second, when a window or its tabs are closed and
when the program quits (`gpui_shell/workspace/session_persistence.rs`). What is saved
depends on the reason: a checkpoint without tabs is no snapshot of anything, while tabs that
were closed are to stay closed; and once the program quits, or the system ends the session,
tabs vanish one after another and are to be kept.

## The model

A write of the shared storage succeeds or fails, and where it fails, the storage is as it
was, or replaced already. `save_with` returns what it has written and whether it has succeeded. The tabs are of any
type, and so is the rest of a session.
-/

namespace Pebrel.Workspace

inductive SaveReason where
  | checkpoint
  | windowClose
  | tabsClosed
  | quit
  deriving DecidableEq

structure Session (τ δ : Type) where
  tabs : List τ
  cleanExit : Bool
  rest : δ
  deriving DecidableEq

structure SessionPersistence (τ δ : Type) where
  latest : Option (Session τ δ)
  saved : Option (Session τ δ)
  quitting : Bool
  isolated : Bool

/-- What becomes of a write (`atomic_file::write`). -/
inductive FileWrite where
  | done
  | failed
  /-- The write fails when it has replaced the file. -/
  | failedLate
  deriving DecidableEq

/-- What becomes of a write: of the shared storage, and of the snapshot for an update (`checkpoint_scheduled`),
which may fail, not be asked for, or succeed. -/
structure Writes where
  storage : FileWrite
  scheduled : Option Bool

section
variable {τ δ : Type} [DecidableEq τ] [DecidableEq δ]

/-- The snapshot, if it has tabs. -/
def nonEmpty (current : Option (Session τ δ)) : Option (Session τ δ) := current.filter fun session => !session.tabs.isEmpty

/-- The session that a save is to write, if any. -/
def candidate (pending : Bool) (current : Option (Session τ δ)) (reason : SaveReason) (s : SessionPersistence τ δ) :
    Option (Session τ δ) :=
  if pending then s.latest.or (nonEmpty current)
  else if s.quitting then (if reason ≠ .quit then none else s.latest)
  else
    match reason with
    | .checkpoint => (nonEmpty current).or (s.latest.filter fun latest => decide (s.saved ≠ some latest))
    | .windowClose | .tabsClosed => current
    | .quit => (nonEmpty current).or s.latest

/-- The session as it is written. -/
def stamped (current : Option (Session τ δ)) (reason : SaveReason) (session : Session τ δ) : Session τ δ :=
  if reason = .checkpoint ∧ nonEmpty current = none then session
  else { session with cleanExit := decide (reason = .windowClose ∨ reason = .quit) }

/-- `save_with`, as far as there is a session to write: with it come what is in the storage then, where it is
replaced, and whether the save has succeeded. -/
def saveSession (pending : Bool) (writes : Writes) (reason : SaveReason) (session : Session τ δ) (s : SessionPersistence τ δ) :
    SessionPersistence τ δ × Option (Session τ δ) × Bool :=
  let quitting := s.quitting || decide (reason = .quit) && !pending
  if s.saved = some session then ({ s with latest := some session, quitting := quitting }, none, true)
  else if s.isolated then
    match writes.scheduled with
    | none => ({ s with latest := some session }, none, false)
    | some false => ({ s with latest := some session, quitting := quitting }, none, true)
    | some true => ({ s with latest := some session, saved := some session, quitting := quitting }, none, true)
  else
    match writes.storage with
    | .done => ({ s with latest := some session, saved := some session, quitting := quitting }, some session, true)
    | .failed => ({ s with latest := some session }, none, false)
    | .failedLate => ({ s with latest := some session }, some session, false)

def saveWith (pending : Bool) (writes : Writes) (current : Option (Session τ δ)) (reason : SaveReason) (s : SessionPersistence τ δ) :
    SessionPersistence τ δ × Option (Session τ δ) × Bool :=
  match candidate pending current reason s with
  | none => (s, none, true)
  | some session => saveSession pending writes reason (stamped current reason session) s

/-! ### Runs -/

structure State (τ δ : Type) where
  persistence : SessionPersistence τ δ
  /-- The system is ending the session. -/
  pending : Bool
  /-- What is in the shared storage. -/
  stored : Option (Session τ δ)

inductive Event (τ δ : Type) where
  | save (current : Option (Session τ δ)) (reason : SaveReason) (writes : Writes)
  | cancelQuit
  | ending (pending : Bool)

def step (s : State τ δ) : Event τ δ → State τ δ
  | .save current reason writes =>
    let (persistence, written, _) := saveWith s.pending writes current reason s.persistence
    { s with persistence := persistence, stored := written.or s.stored }
  | .cancelQuit => { s with persistence := { s.persistence with quitting := false } }
  | .ending pending => { s with pending := pending }

def run (s : State τ δ) (es : List (Event τ δ)) : State τ δ := es.foldl step s

/-- When the program has started. -/
def initial (isolated pending : Bool) (stored : Option (Session τ δ)) : State τ δ := ⟨⟨none, none, false, isolated⟩, pending, stored⟩

/-- The save has succeeded. -/
def Succeeds (s : State τ δ) (current : Option (Session τ δ)) (reason : SaveReason) (writes : Writes) : Prop :=
  (saveWith s.pending writes current reason s.persistence).2.2 = true

omit [DecidableEq τ] [DecidableEq δ] in
/-- The tabs of the newest snapshot: one with tabs, or of what was closed, and not while tabs vanish. -/
def newestAfter (s : State τ δ) (newest : Option (List τ)) : Event τ δ → Option (List τ)
  | .save current reason _ =>
    if s.pending then newest.or ((nonEmpty current).map Session.tabs)
    else if s.persistence.quitting then newest
    else if reason = .windowClose ∨ reason = .tabsClosed then (current.map Session.tabs).or newest
    else ((nonEmpty current).map Session.tabs).or newest
  | _ => newest

/-- The tabs of the newest snapshot of a run. -/
def newest (s : State τ δ) : Option (List τ) → List (Event τ δ) → Option (List τ)
  | n, [] => n
  | n, e :: es => newest (step s e) (newestAfter s n e) es

/-- The storage holds what a failed write has put there. -/
def strayAfter (s : State τ δ) (stray : Bool) : Event τ δ → Bool
  | .save current reason writes =>
    let (_, written, ok) := saveWith s.pending writes current reason s.persistence
    if written.isSome then !ok else stray
  | _ => stray

/-- After a run, the storage holds what a failed write has put there. -/
def stray (s : State τ δ) : Bool → List (Event τ δ) → Bool
  | b, [] => b
  | b, e :: es => stray (step s e) (strayAfter s b e) es

end

end Pebrel.Workspace
