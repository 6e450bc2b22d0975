import Pebrel.Library.Transition
import Mathlib.Tactic

/-!
# Command records

The records of completed commands that a terminal keeps from the shell's A, B, C
and D markers (`term/reading.rs`): the phases between the markers, what a record
costs, and the budget that the oldest records are given up for.

## The model

What a marker reads from the grid at the moment it arrives is a `Screen`: the
cursor, the retained lines, the label that the cells of a span make, and the
bytes that a guard over a span takes. A run may give each marker any screen, as
output between two markers may change all of it.
-/

namespace Pebrel.Terminal.Reading

open Library List Option
open Transition (run run_cons)

structure ReadingPoint where
  line : ℕ
  column : ℕ
  deriving DecidableEq

/-- The order of `ReadingPoint`: by line, then by column. -/
def ReadingPoint.le (a b : ReadingPoint) : Bool := a.line < b.line || a.line == b.line && a.column ≤ b.column

def ReadingPoint.max (a b : ReadingPoint) : ReadingPoint := if a.le b then b else a

def ReadingPoint.min (a b : ReadingPoint) : ReadingPoint := if a.le b then a else b

structure ReadingSpan where
  epoch : ℕ
  start : ReadingPoint
  stop : ReadingPoint
  deriving DecidableEq

structure CompletedCommand where
  id : ℕ
  /-- The text displayed between B and C. -/
  command : List Char
  exitCode : Option ℤ
  output : ReadingSpan

inductive Execution where
  | idle
  | prompt
  | input (point : ReadingPoint)
  | output (start : ReadingPoint) (command : List Char)

/-- What of a `TailGuard` the records need. -/
structure TailGuard where
  span : ReadingSpan
  heapBytes : ℕ

structure CommandRecord where
  command : CompletedCommand
  guard : TailGuard
  cost : ℕ

/-- `COMMANDS`. -/
def maxCommands : ℕ := 32

def metadataBytes : ℕ := 1024 * 1024

/-- The largest `u64`. -/
def u64Max : ℕ := 2 ^ 64 - 1

/-- The part of `ReadingState` that commands are recorded in. -/
structure ReadingState where
  epoch : ℕ := 0
  nextId : ℕ := 0
  execution : Execution := .idle
  commands : List CommandRecord := []
  metadata : ℕ := 0

/-- What a marker finds in the terminal. -/
structure Screen where
  altScreen : Bool
  /-- `reading_cursor`. -/
  cursor : ReadingPoint
  scrolledOut : ℕ
  historySize : ℕ
  totalLines : ℕ
  columns : ℕ
  /-- The `display_text` of the chunk that `reading_chunk_raw` reads of a span, when that is the whole span. -/
  label : ReadingSpan → Option (List Char)
  /-- The capacity of a label. -/
  capacity : List Char → ℕ
  /-- The `heap_bytes` of a guard over a span, when one can be captured. -/
  capture : ReadingSpan → Option ℕ

/-- `validate_reading_span`, of the current epoch. -/
def Screen.valid (t : Screen) (span : ReadingSpan) : Bool :=
  t.scrolledOut ≤ span.start.line && span.start.le span.stop &&
    span.stop.le ⟨t.scrolledOut + t.totalLines, 0⟩ && span.start.column ≤ t.columns && span.stop.column ≤ t.columns

/-- A marker of the shell. -/
inductive Marker where
  | a
  | b
  | c
  | d
  /-- Any other byte. -/
  | other

namespace ReadingState

/-- `invalidate`; there is no state after the last epoch. -/
def invalidate (r : ReadingState) : Option ReadingState :=
  if r.epoch + 1 ≤ u64Max then
    some { r with epoch := r.epoch + 1, execution := .idle, commands := [], metadata := 0 }
  else none

/-- The loop that gives up records for one of `cost`; there is no end to it once none is left, and a cost is
never taken off a smaller total. -/
def evict (need : ℕ) : List CommandRecord → ℕ → Option (List CommandRecord × ℕ)
  | commands, metadata =>
    if maxCommands ≤ commands.length || metadataBytes < metadata + need then
      match commands with
      | [] => none
      | old :: rest => if old.cost ≤ metadata then evict need rest (metadata - old.cost) else none
    else some (commands, metadata)
  termination_by structural commands => commands

variable (recordSize : ℕ)

/-- `finish_reading_command`, for `recordSize` the size of a `CommandRecord`. -/
def finishReadingCommand (r : ReadingState) (t : Screen) (start : ReadingPoint) (command : List Char)
    (exitCode : Option ℤ) : Option ReadingState :=
  let output : ReadingSpan := ⟨r.epoch, start, t.cursor⟩
  if !t.valid output then some r
  else
    let liveStart : ReadingPoint := ⟨t.scrolledOut + t.historySize, 0⟩
    let tail : ReadingSpan := { output with start := (output.start.max liveStart).min output.stop }
    match t.capture tail with
    | none => some r
    | some heapBytes =>
      let cost := heapBytes + t.capacity command + recordSize
      let reserve := maxCommands * recordSize
      if metadataBytes < cost + reserve then some r
      else
        match evict (cost + reserve) r.commands r.metadata with
        | none => none
        | some (commands, metadata) =>
          if r.nextId + 1 ≤ u64Max then
            let completed : CompletedCommand := ⟨r.nextId + 1, command, exitCode, output⟩
            some { r with
              nextId := r.nextId + 1
              commands := commands ++ [⟨completed, ⟨tail, heapBytes⟩, cost⟩]
              metadata := metadata + cost }
          else none

def readingShellMarker (r : ReadingState) (t : Screen) (marker : Marker) (exitCode : Option ℤ) (committed : Bool) :
    Option ReadingState :=
  if !committed || t.altScreen then some { r with execution := .idle }
  else
    match marker, r.execution with
    | .a, .idle => some { r with execution := .prompt }
    | .b, .prompt => some { r with execution := .input t.cursor }
    | .c, .input input =>
      let label : ReadingSpan := ⟨r.epoch, input, t.cursor⟩
      some { r with execution := .output t.cursor ((t.label label).getD []) }
    | .d, .output start command => { r with execution := .idle }.finishReadingCommand recordSize t start command exitCode
    | _, _ => some { r with execution := .idle }

end ReadingState

/-- What reaches the records. -/
inductive Op where
  | marker (marker : Marker) (exitCode : Option ℤ) (committed : Bool) (screen : Screen)
  /-- A screen switch, a resize, a clear or a reset. -/
  | invalidate
  /-- Any output between markers. -/
  | output

/-- One operation; there is no state after a counter has run out. -/
def ReadingState.step (recordSize : ℕ) (r : ReadingState) : Op → Option ReadingState
  | .marker marker exitCode committed screen => r.readingShellMarker recordSize screen marker exitCode committed
  | .invalidate => r.invalidate
  | .output => some r

open ReadingState (invalidate step)

/-! ### What records cost -/

/-- The costs of the records together. -/
def totalCost (commands : List CommandRecord) : ℕ := (commands.map (·.cost)).sum

variable {ops : List Op} {r : ReadingState}

@[simp] theorem totalCost_nil : totalCost [] = 0 := rfl

@[simp] theorem totalCost_cons (record : CommandRecord) (commands : List CommandRecord) :
    totalCost (record :: commands) = record.cost + totalCost commands := by simp [totalCost]

@[simp] theorem totalCost_append (front back : List CommandRecord) :
    totalCost (front ++ back) = totalCost front + totalCost back := by simp [totalCost]

/-- There is room for a record that needs `need` next to these. -/
def Fits (need : ℕ) (commands : List CommandRecord) : Prop :=
  commands.length < maxCommands ∧ totalCost commands + need ≤ metadataBytes

namespace ReadingState

variable {r : ReadingState}

/-- With the running total right and a need that fits an empty budget, the loop ends, and has given up the
oldest records, no more than it has to. -/
theorem evict_spec {need : ℕ} (hneed : need ≤ metadataBytes) (commands : List CommandRecord) :
    ∃ k, evict need commands (totalCost commands) = some (commands.drop k, totalCost (commands.drop k)) ∧
      Fits need (commands.drop k) ∧ ∀ j < k, ¬ Fits need (commands.drop j) := by
  induction commands with
  | nil =>
    refine ⟨0, ?_, ⟨by simp [maxCommands], by simpa using hneed⟩, by simp⟩
    rw [evict, if_neg (by simp [maxCommands, hneed])]
    rfl
  | cons old rest ih =>
    by_cases hf : Fits need (old :: rest)
    · refine ⟨0, ?_, hf, by simp⟩
      rw [evict, if_neg (by simpa [Fits, not_or] using hf)]
      rfl
    obtain ⟨k, hev, hk, hl⟩ := ih
    refine ⟨k + 1, ?_, hk, fun j hj => ?_⟩
    · have hfu : (decide (maxCommands ≤ (old :: rest).length) || decide (metadataBytes < totalCost (old :: rest) + need)) = true := by
        rw [Fits, not_and_or, not_lt, not_le] at hf
        simpa using hf
      rw [evict, if_pos hfu]
      simp only [totalCost_cons, Nat.le_add_right, if_true, Nat.add_sub_cancel_left]
      exact hev
    · cases j with
      | zero => exact hf
      | succ j => exact hl j (by omega)

/-- The total is the costs of the kept records, within the budget; they are few and their ids increase. -/
structure Bounded (r : ReadingState) : Prop where
  total : r.metadata = totalCost r.commands
  budget : r.metadata ≤ metadataBytes
  count : r.commands.length ≤ maxCommands
  increasing : r.commands.Pairwise fun a b => a.command.id < b.command.id
  issued : ∀ record ∈ r.commands, record.command.id ≤ r.nextId

variable {recordSize : ℕ} (recordSize) in
/-- What finishing a command does: nothing, or one more record for as few of the oldest as there must go. -/
theorem finish_cases (hr : r.Bounded) (t : Screen) (start : ReadingPoint) (command : List Char) (exitCode : Option ℤ) :
    r.finishReadingCommand recordSize t start command exitCode = some r ∨
    (u64Max ≤ r.nextId ∧ r.finishReadingCommand recordSize t start command exitCode = none) ∨
    ∃ k record, r.finishReadingCommand recordSize t start command exitCode = some { r with
          nextId := r.nextId + 1
          commands := r.commands.drop k ++ [record]
          metadata := totalCost (r.commands.drop k) + record.cost } ∧
        Fits (record.cost + maxCommands * recordSize) (r.commands.drop k) ∧
        (∀ j < k, ¬ Fits (record.cost + maxCommands * recordSize) (r.commands.drop j)) ∧
        record.command = ⟨r.nextId + 1, command, exitCode, ⟨r.epoch, start, t.cursor⟩⟩ := by
  simp only [finishReadingCommand]
  split
  · exact .inl rfl
  split
  · exact .inl rfl
  next heapBytes _ =>
    split
    · exact .inl rfl
    next hb =>
      obtain ⟨k, hev, hf, hl⟩ := evict_spec
        (show heapBytes + t.capacity command + recordSize + maxCommands * recordSize ≤ metadataBytes by omega) r.commands
      rw [← hr.total] at hev
      simp only [hev]
      by_cases hid : r.nextId + 1 ≤ u64Max
      · rw [if_pos hid]
        exact .inr (.inr ⟨k, _, rfl, hf, hl, rfl⟩)
      · rw [if_neg hid]
        exact .inr (.inl ⟨by omega, rfl⟩)

/-- Idle again, with nothing recorded. -/
theorem Bounded.of_execution (hr : r.Bounded) (e : Execution) : Bounded { r with execution := e } :=
  ⟨hr.total, hr.budget, hr.count, hr.increasing, hr.issued⟩

/-- One more record, under the next id. -/
theorem Bounded.push (hr : r.Bounded) {k : ℕ} {record : CommandRecord}
    (hf : Fits (record.cost + maxCommands * recordSize) (r.commands.drop k)) (hid : record.command.id = r.nextId + 1) :
    Bounded { r with
      nextId := r.nextId + 1
      commands := r.commands.drop k ++ [record]
      metadata := totalCost (r.commands.drop k) + record.cost } := by
  obtain ⟨hl, hcost⟩ := hf
  refine ⟨by simp, ?_, ?_, ?_, ?_⟩
  · show totalCost (r.commands.drop k) + record.cost ≤ metadataBytes
    omega
  · simp only [length_append, length_singleton]
    exact hl
  · rw [pairwise_append]
    refine ⟨hr.increasing.sublist (drop_sublist k _), by simp, fun a ha b hb => ?_⟩
    rw [mem_singleton.mp hb, hid]
    exact Nat.lt_succ_of_le (hr.issued a (mem_of_mem_drop ha))
  · intro c hc
    rcases mem_append.mp hc with hc | hc
    · exact (hr.issued c (mem_of_mem_drop hc)).trans (Nat.le_succ _)
    · rw [mem_singleton.mp hc, hid]

end ReadingState

/-! ### Which markers make a record -/

/-- Output is no part of the order of markers. -/
def Op.isOutput : Op → Bool
  | .output => true
  | _ => false

/-- The markers of a run, and what invalidates them. -/
def marks (ops : List Op) : List Op := ops.filter fun op => !op.isOutput

theorem marks_concat (ops : List Op) (op : Op) : marks (ops ++ [op]) = marks ops ++ marks [op] := filter_append ..

/-- A marker that counts: committed, and on the primary screen. -/
def Op.Marks (op : Op) (m : Marker) (screen : Screen) : Prop :=
  ∃ exitCode, op = .marker m exitCode true screen ∧ screen.altScreen = false

/-- The markers end with A, B and C of one command, with nothing else between them. -/
def Began (log : List Op) (epoch : ℕ) (start : ReadingPoint) (command : List Char) : Prop :=
  ∃ pre a b c sa sb sc, log = pre ++ [a, b, c] ∧ Op.Marks a .a sa ∧ Op.Marks b .b sb ∧ Op.Marks c .c sc ∧
    start = sc.cursor ∧ command = (sc.label ⟨epoch, sb.cursor, sc.cursor⟩).getD []

/-- What the phase says of the markers so far. -/
def Phase (log : List Op) (epoch : ℕ) : Execution → Prop
  | .idle => True
  | .prompt => ∃ pre a sa, log = pre ++ [a] ∧ Op.Marks a .a sa
  | .input point => ∃ pre a b sa sb, log = pre ++ [a, b] ∧ Op.Marks a .a sa ∧ Op.Marks b .b sb ∧ point = sb.cursor
  | .output start command => Began log epoch start command

/-- The markers end with A, B, C and D of one command, which is the one in the record. -/
def Completes (log : List Op) (record : CommandRecord) : Prop :=
  ∃ front screen, log = front ++ [.marker .d record.command.exitCode true screen] ∧ screen.altScreen = false ∧
    Began front record.command.output.epoch record.command.output.start record.command.command ∧
    record.command.output.stop = screen.cursor

/-! ### Runs -/

variable {recordSize : ℕ}

/-- What holds after the operations `ops`. -/
structure Follows (ops : List Op) (r : ReadingState) : Prop where
  bounded : r.Bounded
  phase : Phase (marks ops) r.epoch r.execution
  counted : r.epoch + r.nextId ≤ ops.length

/-- What an operation makes of the records: it leaves them, or throws all away, or adds the one that the markers
complete, for as few of the oldest as there must go. -/
def Records (recordSize : ℕ) (ops : List Op) (op : Op) (r r' : ReadingState) : Prop :=
  r'.commands = r.commands ∧ r'.nextId = r.nextId ∨ op = .invalidate ∧ r'.commands = [] ∧ r'.nextId = r.nextId ∨
    ∃ k record, r'.commands = r.commands.drop k ++ [record] ∧
      (∀ j < k, ¬ Fits (record.cost + maxCommands * recordSize) (r.commands.drop j)) ∧
      record.command.id = r.nextId + 1 ∧ r'.nextId = r.nextId + 1 ∧ Completes (marks (ops ++ [op])) record

theorem Follows.idle (h : Follows ops r) (op : Op) :
    Follows (ops ++ [op]) { r with execution := .idle } ∧ Records recordSize ops op r { r with execution := .idle } :=
  ⟨⟨h.bounded.of_execution _, trivial, by
    have := h.counted
    simp only [length_append, length_singleton]
    omega⟩, .inl ⟨rfl, rfl⟩⟩

/-- The phase after a marker that moves it on. -/
theorem Follows.phase_step (h : Follows ops r) {op : Op} {e : Execution} (hph : Phase (marks (ops ++ [op])) r.epoch e) :
    Follows (ops ++ [op]) { r with execution := e } ∧ Records recordSize ops op r { r with execution := e } :=
  ⟨⟨h.bounded.of_execution _, hph, by
    have := h.counted
    simp only [length_append, length_singleton]
    omega⟩, .inl ⟨rfl, rfl⟩⟩

theorem marker_step (h : Follows ops r) (t : Screen) (m : Marker) (exitCode : Option ℤ) (committed : Bool) :
    match r.readingShellMarker recordSize t m exitCode committed with
    | none => u64Max ≤ ops.length
    | some r' => Follows (ops ++ [.marker m exitCode committed t]) r' ∧ Records recordSize ops (.marker m exitCode committed t) r r' := by
  unfold ReadingState.readingShellMarker
  by_cases hc : (!committed || t.altScreen) = true
  · rw [if_pos hc]
    exact h.idle _
  rw [if_neg hc]
  simp only [Bool.or_eq_true, Bool.not_eq_true', not_or, Bool.not_eq_false, Bool.not_eq_true] at hc
  obtain ⟨rfl, halt⟩ := hc
  have hl : marks (ops ++ [.marker m exitCode true t]) = marks ops ++ [.marker m exitCode true t] := by
    rw [marks_concat]
    rfl
  have hph := h.phase
  have hself : Op.Marks (.marker m exitCode true t) m t := ⟨exitCode, rfl, halt⟩
  cases m <;> cases hexec : r.execution
  case a.idle =>
    have hnx : Phase (marks (ops ++ [.marker .a exitCode true t])) r.epoch .prompt := ⟨marks ops, _, t, hl, hself⟩
    exact h.phase_step hnx
  case b.prompt =>
    rw [hexec] at hph
    obtain ⟨pre, a, sa, hp, ha⟩ := hph
    have hnx : Phase (marks (ops ++ [.marker .b exitCode true t])) r.epoch (.input t.cursor) :=
      ⟨pre, a, _, sa, t, by rw [hl, hp, append_assoc]; rfl, ha, hself, rfl⟩
    exact h.phase_step hnx
  case c.input input =>
    rw [hexec] at hph
    obtain ⟨pre, a, b, sa, sb, hp, ha, hb, rfl⟩ := hph
    have hnx : Phase (marks (ops ++ [.marker .c exitCode true t])) r.epoch
        (.output t.cursor ((t.label ⟨r.epoch, sb.cursor, t.cursor⟩).getD [])) :=
      ⟨pre, a, b, _, sa, sb, t, by rw [hl, hp, append_assoc]; rfl, ha, hb, hself, rfl, rfl⟩
    exact h.phase_step hnx
  case d.output start command =>
    rw [hexec] at hph
    rcases ReadingState.finish_cases recordSize (h.bounded.of_execution .idle) t start command exitCode with
      heq | ⟨hm, heq⟩ | ⟨k, record, heq, hf, hlea, hr⟩
    · simp only [heq]
      exact h.idle _
    · simp only [heq]
      have := h.counted
      simp only at hm
      omega
    · simp only [heq]
      have hid : record.command.id = r.nextId + 1 := by rw [hr]
      refine ⟨⟨(h.bounded.of_execution .idle).push hf hid, trivial, ?_⟩, .inr (.inr ⟨k, record, rfl, hlea, hid, rfl, ?_⟩)⟩
      · have := h.counted
        simp only [length_append, length_singleton]
        omega
      · refine ⟨marks ops, t, ?_, halt, ?_, by rw [hr]⟩
        · rw [hl, hr]
        · rw [hr]
          exact hph
  all_goals exact h.idle _

variable (recordSize) in
/-- One step keeps what holds, unless a counter has run out. -/
theorem follows_step (h : Follows ops r) (op : Op) :
    match r.step recordSize op with
    | none => u64Max ≤ ops.length
    | some r' => Follows (ops ++ [op]) r' ∧ Records recordSize ops op r r' := by
  have hc := h.counted
  cases op with
  | marker m exitCode committed t => exact marker_step h t m exitCode committed
  | invalidate =>
    rw [step, invalidate]
    split_ifs with he
    · refine ⟨⟨⟨rfl, Nat.zero_le _, Nat.zero_le _, List.Pairwise.nil, by simp⟩, trivial, ?_⟩, .inr (.inl ⟨rfl, rfl, rfl⟩)⟩
      simp only [length_append, length_singleton]
      omega
    · show u64Max ≤ ops.length
      omega
  | output =>
    rw [step]
    have hl : marks (ops ++ [.output]) = marks ops := by
      rw [marks_concat]
      exact append_nil _
    refine ⟨⟨h.bounded, by rw [hl]; exact h.phase, ?_⟩, .inl ⟨rfl, rfl⟩⟩
    simp only [length_append, length_singleton]
    omega

theorem run_concat (ops : List Op) (op : Op) (r : ReadingState) : run (step recordSize) r (ops ++ [op])
      = (run (step recordSize) r ops).bind (step recordSize · op) := by
  rw [Transition.run_append]
  congr 1
  funext u
  rw [run_cons]
  cases step recordSize u op <;> rfl

variable (recordSize) in
theorem run_follows (ops : List Op) :
    match run (step recordSize) {} ops with
    | none => u64Max ≤ ops.length
    | some r => Follows ops r := by
  induction ops using reverseRecOn with
  | nil => exact ⟨⟨rfl, Nat.zero_le _, Nat.zero_le _, List.Pairwise.nil, by simp⟩, trivial, Nat.zero_le _⟩
  | append_singleton ops op ih =>
    rw [run_concat]
    cases hr : run (step recordSize) {} ops with
    | none =>
      rw [hr] at ih
      simp only [bind_none, length_append] at ih ⊢
      omega
    | some r =>
      rw [hr] at ih
      have hst := follows_step recordSize ih op
      rw [bind_some]
      cases hs : r.step recordSize op with
      | none =>
        rw [hs] at hst
        simp only [length_append] at hst ⊢
        omega
      | some r' =>
        rw [hs] at hst
        exact hst.1

/-- Ids already given are never above the last one. -/
theorem issued_le {front back : List Op} {u : ReadingState} (hu : run (step recordSize) {} front = some u)
    (hr : run (step recordSize) {} (front ++ back) = some r) : u.nextId ≤ r.nextId := by
  induction back using reverseRecOn generalizing r with
  | nil =>
    rw [append_nil, hu] at hr
    cases hr
    exact le_rfl
  | append_singleton back op ih =>
    rw [← append_assoc, run_concat] at hr
    obtain ⟨v, hv, hop⟩ := bind_eq_some_iff.mp hr
    have hf := run_follows recordSize (front ++ back)
    rw [hv] at hf
    have hst := follows_step recordSize hf op
    rw [hop] at hst
    refine (ih hv).trans ?_
    rcases hst.2 with ⟨-, h⟩ | ⟨-, -, h⟩ | ⟨k, record, -, -, -, h, -⟩ <;> omega

/-- **In every run the total is the costs of the kept records and within the budget, the records are at most 32
with increasing ids, and a record is added only by the D that completes A, B, C and D of one command, under an id
above all before it and at the cost of the oldest records alone, none more than must go.** -/
theorem command_records (recordSize : ℕ) (ops : List Op) :
    match run (step recordSize) {} ops with
    | none => u64Max ≤ ops.length
    | some r =>
      r.metadata = totalCost r.commands ∧ r.metadata ≤ metadataBytes ∧ r.commands.length ≤ 32 ∧
      (r.commands.Pairwise fun a b => a.command.id < b.command.id) ∧
      ∀ op r', r.step recordSize op = some r' →
        r'.commands = r.commands ∨ op = .invalidate ∧ r'.commands = [] ∨
        ∃ k record, r'.commands = r.commands.drop k ++ [record] ∧
          (∀ j < k, ¬ Fits (record.cost + maxCommands * recordSize) (r.commands.drop j)) ∧
          Completes (marks (ops ++ [op])) record ∧
          ∀ front u, front <+: ops → run (step recordSize) {} front = some u →
            ∀ old ∈ u.commands, old.command.id < record.command.id := by
  have hfol := run_follows recordSize ops
  cases hrun : run (step recordSize) {} ops with
  | none =>
    rw [hrun] at hfol
    exact hfol
  | some r =>
    rw [hrun] at hfol
    refine ⟨hfol.bounded.total, hfol.bounded.budget, hfol.bounded.count, hfol.bounded.increasing, fun op r' hop => ?_⟩
    have hst := follows_step recordSize hfol op
    rw [hop] at hst
    rcases hst.2 with ⟨h, -⟩ | ⟨h, hnil, -⟩ | ⟨k, record, hcmds, hlea, hid, -, hcomp⟩
    · exact .inl h
    · exact .inr (.inl ⟨h, hnil⟩)
    · refine .inr (.inr ⟨k, record, hcmds, hlea, hcomp, ?_⟩)
      rintro front u ⟨back, rfl⟩ hu old ho
      have hfro := run_follows recordSize front
      rw [hu] at hfro
      have h1 := hfro.bounded.issued old ho
      have h2 := issued_le hu hrun
      omega

end Pebrel.Terminal.Reading
