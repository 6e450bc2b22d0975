import Pebrel.Stream.Payload
import Mathlib.Data.List.Flatten

/-!
# Writing to the PTY

The input of a pane waits in a list until the PTY takes it (`event_loop.rs`). The
event loop takes the first item out, writes it, keeps how much of it has been
taken, and puts it back when the PTY does not take more: `pty_write`.

## The model

A run is a sequence of inputs that arrive and of calls of `pty_write`. In each call
the PTY answers the writes in turn, whatever they are: it takes a number of the
bytes it is offered, at most all of them, or it fails.
-/

namespace Pebrel.Terminal.PtyWrites

open List

open Pebrel.Stream (Bytes)

/-- What a write is answered with: the number of bytes the PTY would take, or an error. -/
inductive Answer where
  | ok (n : ℕ)
  | interrupted
  | wouldBlock
  /-- Any other error. -/
  | failed

/-- `Writing`: an item, and how much of it has been written. -/
structure Writing where
  source : Bytes
  written : ℕ

namespace Writing

def new (source : Bytes) : Writing := ⟨source, 0⟩

def advance (w : Writing) (n : ℕ) : Writing := { w with written := w.written + n }

def remainingBytes (w : Writing) : Bytes := w.source.drop w.written

def finished (w : Writing) : Bool := w.source.length ≤ w.written

@[simp] theorem remainingBytes_new (source : Bytes) : (new source).remainingBytes = source := rfl

@[simp] theorem remainingBytes_advance (w : Writing) (n : ℕ) : (w.advance n).remainingBytes = w.remainingBytes.drop n := by
  simp [remainingBytes, advance]

@[simp] theorem finished_iff (w : Writing) : w.finished = true ↔ w.remainingBytes = [] := by
  simp [finished, remainingBytes]

end Writing

/-- The part of `State` that `pty_write` uses. -/
structure State where
  writeList : List Bytes
  writing : Option Writing

namespace State

/-- The default. -/
def default : State := ⟨[], none⟩

def gotoNext (s : State) : State :=
  match s.writeList with
  | [] => { s with writing := none }
  | source :: rest => ⟨rest, some (.new source)⟩

def ensureNext (s : State) : State := if s.writing.isNone then s.gotoNext else s

/-- `take_current`: what is left in the state. -/
def takeCurrent (s : State) : State := { s with writing := none }

def setCurrent (s : State) (current : Option Writing) : State := { s with writing := current }

/-- The bytes that have not been taken yet. -/
def pending (s : State) : Bytes := (s.writing.elim [] Writing.remainingBytes) ++ s.writeList.flatten

@[simp] theorem pending_gotoNext (s : State) : s.gotoNext.pending = s.writeList.flatten := by
  obtain ⟨writeList, writing⟩ := s
  cases writeList <;> simp [gotoNext, pending]

/-- The item taken out of the state and what is left in it. -/
theorem pending_of_writing {s : State} {current : Writing} (h : s.writing = some current) :
    s.pending = current.remainingBytes ++ s.takeCurrent.writeList.flatten := by
  simp [pending, takeCurrent, h]

@[simp] theorem pending_setCurrent (s : State) (current : Writing) :
    (s.setCurrent (some current)).pending = current.remainingBytes ++ s.writeList.flatten := rfl

@[simp] theorem pending_ensureNext (s : State) : s.ensureNext.pending = s.pending := by
  obtain ⟨writeList, writing⟩ := s
  cases writing with
  | some w => rfl
  | none => cases writeList <;> simp [ensureNext, gotoNext, pending]

end State

/-- What `pty_write` leaves: the state, the bytes that the PTY has taken, and whether it reports an error. -/
structure Written where
  state : State
  handed : Bytes
  failed : Bool

/-- The two loops of `pty_write`: `current` is the item being written, taken out of the state, and `i` the number of
writes before. -/
def writeMany (answers : ℕ → Answer) (i : ℕ) (s : State) (current : Writing) : Written :=
  match answers i with
  | .ok n =>
    if min n current.remainingBytes.length = 0 then ⟨s.setCurrent (some current), [], false⟩
    else if (current.advance (min n current.remainingBytes.length)).finished then
      match hnext : s.gotoNext.writing with
      | none => ⟨s.gotoNext, current.remainingBytes.take n, false⟩
      | some next =>
        let w := writeMany answers (i + 1) s.gotoNext.takeCurrent next
        { w with handed := current.remainingBytes.take n ++ w.handed }
    else
      let w := writeMany answers (i + 1) s (current.advance (min n current.remainingBytes.length))
      { w with handed := current.remainingBytes.take n ++ w.handed }
  | .interrupted => ⟨s.setCurrent (some current), [], false⟩
  | .wouldBlock => ⟨s.setCurrent (some current), [], false⟩
  | .failed => ⟨s.setCurrent (some current), [], true⟩
  termination_by current.remainingBytes.length + s.writeList.flatten.length
  decreasing_by
    · have hpending := congrArg List.length (State.pending_of_writing hnext)
      simp only [State.pending_gotoNext, List.length_append] at hpending
      omega
    · simp only [Writing.remainingBytes_advance, List.length_drop]
      omega

def ptyWrite (answers : ℕ → Answer) (s : State) : Written :=
  let s := s.ensureNext
  match s.writing with
  | none => ⟨s, [], false⟩
  | some current => writeMany answers 0 s.takeCurrent current

variable {answers : ℕ → Answer} {s : State}

/-! ### One call -/

/-- A finished item has been taken as a whole. -/
theorem take_of_finished {current : Writing} {n : ℕ} (h : (current.advance (min n current.remainingBytes.length)).finished = true) :
    current.remainingBytes.take n = current.remainingBytes := by
  rw [Writing.finished_iff, Writing.remainingBytes_advance, drop_eq_nil_iff] at h
  exact take_of_length_le (by omega)

theorem drop_min (l : Bytes) (n : ℕ) : l.drop (min n l.length) = l.drop n := by
  rcases Nat.le_total n l.length with h | h
  · rw [Nat.min_eq_left h]
  · rw [Nat.min_eq_right h, drop_length, drop_of_length_le h]

/-- The loops hand over the front of what is pending and keep the rest. -/
theorem writeMany_spec (answers : ℕ → Answer) (i : ℕ) (s : State) (current : Writing) :
    (writeMany answers i s current).handed ++ (writeMany answers i s current).state.pending =
      current.remainingBytes ++ s.writeList.flatten := by
  induction i, s, current using writeMany.induct answers with
  | case1 i s current n ha hz =>
    rw [writeMany, ha]
    simp [hz]
  | case2 i s current n ha hz hf hnx =>
    rw [writeMany, ha]
    simp only [if_neg hz, if_pos hf]
    split
    · rw [take_of_finished hf, State.pending_gotoNext]
    · next next hnx' => rw [hnx] at hnx'; cases hnx'
  | case3 i s current n ha hz hf next hnx ih =>
    rw [writeMany, ha]
    simp only [if_neg hz, if_pos hf]
    split
    · next hnx' => rw [hnx] at hnx'; cases hnx'
    next next' hnx' =>
    rw [hnx, Option.some.injEq] at hnx'
    subst hnx'
    rw [take_of_finished hf, append_assoc, ih, ← State.pending_of_writing hnx, State.pending_gotoNext]
  | case4 i s current n ha hz hf ih =>
    rw [writeMany, ha]
    simp only [if_neg hz, if_neg hf]
    rw [append_assoc, ih, Writing.remainingBytes_advance, drop_min, ← append_assoc, take_append_drop]
  | case5 i s current ha =>
    rw [writeMany, ha]
    simp
  | case6 i s current ha =>
    rw [writeMany, ha]
    simp
  | case7 i s current ha =>
    rw [writeMany, ha]
    simp

/-- **One call hands over the front of what is pending and keeps the rest**, whatever the PTY answers. -/
theorem ptyWrite_spec (answers : ℕ → Answer) (s : State) :
    (ptyWrite answers s).handed ++ (ptyWrite answers s).state.pending = s.pending := by
  rw [ptyWrite, ← State.pending_ensureNext s]
  split
  · simp
  · next current h => rw [writeMany_spec, State.pending_of_writing h]

/-! ### Runs -/

/-- What happens to the queue. -/
inductive Op where
  /-- `Msg::Input` arrives. -/
  | input (bytes : Bytes)
  /-- `pty_write`, with what the PTY answers. -/
  | write (answers : ℕ → Answer)

/-- The queue, and the bytes that the PTY has taken so far. -/
structure Pty where
  state : State
  handed : Bytes

/-- One event. -/
def Pty.step (p : Pty) : Op → Pty
  | .input bytes => { p with state := { p.state with writeList := p.state.writeList ++ [bytes] } }
  | .write answers => ⟨(ptyWrite answers p.state).state, p.handed ++ (ptyWrite answers p.state).handed⟩

/-- The events of a run. -/
def run (ops : List Op) : Pty := ops.foldl .step ⟨.default, []⟩

/-- The inputs of a run that have bytes. -/
def inputs (ops : List Op) : List Bytes :=
  (ops.filterMap fun op => match op with
    | .input bytes => some bytes
    | .write _ => none).filter (· ≠ [])

/-- One event keeps the bytes in order: an input comes behind them, and a write moves the front of them. -/
theorem Pty.step_spec (p : Pty) (op : Op) :
    (p.step op).handed ++ (p.step op).state.pending = p.handed ++ p.state.pending ++ (inputs [op]).flatten := by
  cases op with
  | input bytes =>
    by_cases h : bytes = [] <;> simp [Pty.step, State.pending, inputs, h]
  | write answers =>
    rw [Pty.step, append_assoc, ptyWrite_spec]
    simp [inputs]

/-- **The queue keeps every byte once and in order**: the bytes handed to the PTY and those kept are, one after the other,
the inputs that have bytes. -/
theorem run_spec (ops : List Op) :
    (run ops).handed ++ (run ops).state.pending = (inputs ops).flatten ∧ (run ops).handed <+: (inputs ops).flatten := by
  have hall : (run ops).handed ++ (run ops).state.pending = (inputs ops).flatten := by
    induction ops using reverseRecOn with
    | nil => rfl
    | append_singleton ops op ih =>
      have hrun : run (ops ++ [op]) = (run ops).step op := by simp [run]
      have hinp : inputs (ops ++ [op]) = inputs ops ++ inputs [op] := by simp [inputs]
      rw [hrun, Pty.step_spec, ih, hinp, flatten_append]
  exact ⟨hall, ⟨_, hall⟩⟩

end Pebrel.Terminal.PtyWrites
