import Mathlib.Data.List.Basic
import Pebrel.Library.Transition

/-!
# The lock of a state file

Processes that change a state file take its lock file first (`atomic_file.rs`):
`try_lock` creates the file or finds it there, a lock file that was left thirty
seconds ago is removed and created anew, and the end of the work removes it.

## The model

One step is one call to the file system, one look at the clock, or the crash of a
process, of any number of processes. A file has an identity, so that a file that
was removed and created again is another file; the source never looks at it.
The contents of the state file are the edits that made them. `edits` are all the
edits that were ever written, in order.

Time passes only while every process that has a lock file of its own is within
its thirty seconds.
-/

namespace Pebrel.Files

open Library.Transition List Nat Option

/-- The lock file. -/
structure LockFile where
  id : ℕ
  modified : ℕ

/-- Where a process is in `try_lock`, or in the work that it takes the lock for. -/
inductive Phase where
  | idle
  /-- `create_lock`, before the lock file is opened; the second time after a reclaim. -/
  | creating (again : Bool)
  /-- The lock file is created, the process id not yet written. -/
  | writingPid (id since : ℕ)
  /-- The process id could not be written; the lock file is to be removed. -/
  | undoing (id since : ℕ)
  /-- The lock file was there; its metadata is to be read. -/
  | inspecting
  | judging (id modified : ℕ)
  /-- The lock file was found stale; it is to be removed. -/
  | reclaiming (id : ℕ)
  /-- The lock is held, the state file perhaps loaded. -/
  | working (id since : ℕ) (loaded : Option (List ℕ))
  | crashed

/-- The lock file that a live process has created and not removed, and since when. -/
def Phase.owned : Phase → Option (ℕ × ℕ)
  | writingPid id since => some (id, since)
  | undoing id since => some (id, since)
  | working id since _ => some (id, since)
  | _ => none

/-- The lock file that a process has found stale and is about to remove. -/
def Phase.found : Phase → Option ℕ
  | reclaiming id => some id
  | _ => none

structure World where
  /-- Seconds. -/
  clock : ℕ
  file : Option LockFile
  nextId : ℕ
  procs : List Phase
  /-- The contents of the state file. -/
  store : List ℕ
  edits : List ℕ

/-- So many processes, without a lock file and with an empty state file. -/
def World.start (processes : ℕ) : World := ⟨0, none, 0, .replicate processes .idle, [], []⟩

/-- One call of process `i`; `ok` says whether the file system does what is asked of it. -/
inductive LockEvent where
  | call (i : ℕ)
  | create (i : ℕ) (ok : Bool)
  | writePid (i : ℕ) (ok : Bool)
  | undo (i : ℕ) (ok : Bool)
  | inspect (i : ℕ) (ok : Bool)
  | judge (i : ℕ)
  | reclaim (i : ℕ) (ok : Bool)
  | load (i : ℕ)
  | save (i : ℕ) (edit : ℕ)
  | release (i : ℕ) (ok : Bool)
  | crash (i : ℕ)
  | tick

/-- Seconds after which a lock file is stale. -/
def staleAfter : ℕ := 30

namespace World

/-- Process `i` goes on to `phase`. -/
def goto (w : World) (i : ℕ) (phase : Phase) : World := { w with procs := w.procs.set i phase }

/-- `remove_file` on the path of the lock. -/
def remove (w : World) (ok : Bool) : World := if ok then { w with file := none } else w

/-- A process may keep its lock file for another second. -/
def inTime (w : World) (phase : Phase) : Bool :=
  match phase.owned with
  | some (_, since) => decide (w.clock + 1 < since + staleAfter)
  | none => true

end World

namespace LockEvent

/-- One step; nothing where a process is not at the call. -/
def step (w : World) : LockEvent → Option World
  | call i =>
    match w.procs[i]? with
    | some .idle => some (w.goto i (.creating false))
    | _ => none
  | create i ok =>
    match w.procs[i]? with
    | some (.creating again) =>
      if !ok then some (w.goto i .idle)
      else
        match w.file with
        | none =>
          some ({ w with file := some ⟨w.nextId, w.clock⟩, nextId := w.nextId + 1 }.goto i (.writingPid w.nextId w.clock))
        | some _ => some (w.goto i (if again then .idle else .inspecting))
    | _ => none
  | writePid i ok =>
    match w.procs[i]? with
    | some (.writingPid id since) =>
      if ok then
        -- the open file is written to, whatever the path leads to by now
        let file := w.file.map fun f => if f.id = id then { f with modified := w.clock } else f
        some ({ w with file }.goto i (.working id since none))
      else some (w.goto i (.undoing id since))
    | _ => none
  | undo i ok =>
    match w.procs[i]? with
    | some (.undoing _ _) => some ((w.remove ok).goto i .idle)
    | _ => none
  | inspect i ok =>
    match w.procs[i]? with
    | some .inspecting =>
      match w.file with
      | some f => some (w.goto i (if ok then .judging f.id f.modified else .idle))
      | none => some (w.goto i .idle)
    | _ => none
  | judge i =>
    match w.procs[i]? with
    | some (.judging id modified) =>
      some (w.goto i (if modified + staleAfter ≤ w.clock then .reclaiming id else .idle))
    | _ => none
  | reclaim i ok =>
    match w.procs[i]? with
    | some (.reclaiming _) => some ((w.remove ok).goto i (.creating true))
    | _ => none
  | load i =>
    match w.procs[i]? with
    | some (.working id since _) => some (w.goto i (.working id since (some w.store)))
    | _ => none
  | save i edit =>
    match w.procs[i]? with
    | some (.working id since (some loaded)) =>
      some ({ w with store := loaded ++ [edit], edits := w.edits ++ [edit] }.goto i (.working id since none))
    | _ => none
  | release i ok =>
    match w.procs[i]? with
    | some (.working _ _ _) => some ((w.remove ok).goto i .idle)
    | _ => none
  | crash i =>
    match w.procs[i]? with
    | some .crashed => none
    | some _ => some (w.goto i .crashed)
    | none => none
  | tick => if w.procs.all w.inTime then some { w with clock := w.clock + 1 } else none

end LockEvent

/-! ### What the lock is for -/

namespace World

/-- Process `i` is alive and holds the lock. -/
def Holds (w : World) (i : ℕ) : Prop := ∃ id since loaded, w.procs[i]? = some (.working id since loaded)

/-- At most one live process holds the lock, and every edit that was written is in the state
file. -/
def Excludes (w : World) : Prop := (∀ i j, w.Holds i → w.Holds j → i = j) ∧ w.store = w.edits

/-- What a process reclaims is the lock file it found stale, or nothing. -/
def ReclaimsSeen (w : World) : LockEvent → Prop
  | .reclaim i true => ∀ id ∈ w.procs[i]?.bind Phase.found, ∀ f ∈ w.file, f.id = id
  | _ => True

end World

/-! ### The invariant -/

/-- A process of `w` is at `phase`. -/
def World.At (w : World) (i : ℕ) (phase : Phase) : Prop := w.procs[i]? = some phase

/-- Process `i` has created a lock file and not removed it. -/
def World.Owns (w : World) (i id since : ℕ) : Prop := ∃ phase, w.At i phase ∧ phase.owned = some (id, since)

/-- What holds in every state, as long as only stale lock files are reclaimed. -/
structure LockInv (w : World) : Prop where
  /-- A live owner's lock file is the one there is. -/
  owner_file : ∀ {i id since}, w.Owns i id since → ∃ m, w.file = some ⟨id, m⟩ ∧ since ≤ m
  owner_time : ∀ {i id since}, w.Owns i id since → since ≤ w.clock ∧ w.clock < since + staleAfter
  owner_unique : ∀ {i j id since id' since'}, w.Owns i id since → w.Owns j id' since' → i = j
  /-- Metadata that was read is no older than the acquisition of the file. -/
  judged : ∀ {i id m}, w.At i (.judging id m) → id < w.nextId ∧ ∀ {j since}, w.Owns j id since → since ≤ m
  /-- A file that was found stale has no live owner. -/
  seen : ∀ {i id}, w.At i (.reclaiming id) → id < w.nextId ∧ ∀ {j since}, ¬ w.Owns j id since
  file_lt : ∀ {f}, w.file = some f → f.id < w.nextId
  loaded : ∀ {i id since c}, w.At i (.working id since (some c)) → c = w.store
  store_eq : w.store = w.edits

namespace LockInv

variable {w : World} {i : ℕ} {phase phase' : Phase}

theorem excludes (h : LockInv w) : w.Excludes := by
  refine ⟨?_, h.store_eq⟩
  rintro i j ⟨id, since, loaded, hi⟩ ⟨id', since', loaded', hj⟩
  exact h.owner_unique ⟨_, hi, rfl⟩ ⟨_, hj, rfl⟩

theorem start (processes : ℕ) : LockInv (.start processes) := by
  have hidle : ∀ {i phase}, (World.start processes).At i phase → phase = .idle := fun h =>
    eq_of_mem_replicate (mem_of_getElem? h)
  have hn : ∀ {i id since}, ¬ (World.start processes).Owns i id since := by
    rintro i id since ⟨phase, hat, ho⟩
    rw [hidle hat] at ho
    cases ho
  exact
    { owner_file := fun h => absurd h hn
      owner_time := fun h => absurd h hn
      owner_unique := fun h => absurd h hn
      judged := fun h => nomatch hidle h
      seen := fun h => nomatch hidle h
      file_lt := fun h => nomatch h
      loaded := fun h => nomatch hidle h
      store_eq := rfl }

theorem at_goto {j : ℕ} {q : Phase} (h : (w.goto i phase).At j q) : j = i ∧ q = phase ∨ j ≠ i ∧ w.At j q := by
  by_cases hj : i = j
  · subst hj
    have hlt : i < w.procs.length := by
      have hl := (List.getElem?_eq_some_iff.mp h).1
      rwa [World.goto, length_set] at hl
    have hs : (w.procs.set i phase)[i]? = some phase := getElem?_set_self hlt
    exact .inl ⟨rfl, (some.inj (h.symm.trans hs))⟩
  · refine .inr ⟨.symm hj, ?_⟩
    have hs : (w.procs.set i phase)[j]? = w.procs[j]? := getElem?_set_ne hj
    exact hs.symm.trans h

/-- Who owns a file after process `i` went on: whoever owned it, where `i` owns nothing new. -/
theorem owns_of_goto {j id since : ℕ} (hi : w.At i phase) (ho : phase'.owned = none ∨ phase'.owned = phase.owned)
    (h : (w.goto i phase').Owns j id since) : w.Owns j id since := by
  obtain ⟨q, hat, hq⟩ := h
  rcases at_goto hat with ⟨rfl, rfl⟩ | ⟨-, hat⟩
  · rcases ho with hn | hsm
    · rw [hn] at hq
      cases hq
    · exact ⟨phase, hi, hsm.symm.trans hq⟩
  · exact ⟨q, hat, hq⟩

section
variable (h : LockInv w)
include h

/-- A step that changes nothing but where process `i` is, and takes no lock file. -/
theorem goto (hi : w.At i phase) (hown : phase'.owned = none ∨ phase'.owned = phase.owned)
    (hj : ∀ {id m}, phase' = .judging id m → id < w.nextId ∧ ∀ {j since}, w.Owns j id since → since ≤ m)
    (hseen : ∀ {id}, phase' = .reclaiming id → id < w.nextId ∧ ∀ {j since}, ¬ w.Owns j id since)
    (hl : ∀ {id since c}, phase' = .working id since (some c) → c = w.store) : LockInv (w.goto i phase') where
  owner_file ho := h.owner_file (owns_of_goto hi hown ho)
  owner_time ho := h.owner_time (owns_of_goto hi hown ho)
  owner_unique ho ho' := h.owner_unique (owns_of_goto hi hown ho) (owns_of_goto hi hown ho')
  judged hat := by
    rcases at_goto hat with ⟨-, hq⟩ | ⟨-, hat⟩
    · exact ⟨(hj hq.symm).1, fun ho => (hj hq.symm).2 (owns_of_goto hi hown ho)⟩
    · exact ⟨(h.judged hat).1, fun ho => (h.judged hat).2 (owns_of_goto hi hown ho)⟩
  seen hat := by
    rcases at_goto hat with ⟨-, hq⟩ | ⟨-, hat⟩
    · exact ⟨(hseen hq.symm).1, fun ho => (hseen hq.symm).2 (owns_of_goto hi hown ho)⟩
    · exact ⟨(h.seen hat).1, fun ho => (h.seen hat).2 (owns_of_goto hi hown ho)⟩
  file_lt hf := h.file_lt hf
  loaded hat := by
    rcases at_goto hat with ⟨-, hq⟩ | ⟨-, hat⟩
    · exact hl hq.symm
    · exact h.loaded hat
  store_eq := h.store_eq

/-- A step of process `i` to a phase of which nothing is to be known. -/
theorem goto_plain (hi : w.At i phase) (ho : phase'.owned = none ∨ phase'.owned = phase.owned)
    (hj : ∀ id m, phase' ≠ .judging id m) (hseen : ∀ id, phase' ≠ .reclaiming id)
    (hl : ∀ id since c, phase' ≠ .working id since (some c)) : LockInv (w.goto i phase') :=
  h.goto hi ho (fun hq => absurd hq (hj _ _)) (fun hq => absurd hq (hseen _)) fun hq => absurd hq (hl _ _ _)

theorem goto_idle (hi : w.At i phase) : LockInv (w.goto i .idle) :=
  h.goto_plain hi (.inl rfl) (fun _ _ hq => nomatch hq) (fun _ hq => nomatch hq) fun _ _ _ hq => nomatch hq

/-- The lock file is removed while no live process owns it. -/
theorem remove (hn : ∀ {j id since}, ¬ w.Owns j id since) (ok : Bool) : LockInv (w.remove ok) := by
  cases ok with
  | false => exact h
  | true =>
    exact
      { owner_file := fun ho => absurd ho hn
        owner_time := fun ho => absurd ho hn
        owner_unique := fun ho => absurd ho hn
        judged := fun hat => ⟨(h.judged hat).1, fun ho => absurd ho hn⟩
        seen := fun hat => ⟨(h.seen hat).1, fun ho => hn ho⟩
        file_lt := fun hf => nomatch hf
        loaded := h.loaded
        store_eq := h.store_eq }

/-- An owner removes its lock file, which is the one there is. -/
theorem remove_own {id since : ℕ} (hi : w.At i phase) (hown : phase.owned = some (id, since)) (ok : Bool) :
    LockInv ((w.remove ok).goto i .idle) := by
  have hswap : (w.remove ok).goto i .idle = (w.goto i .idle).remove ok := by cases ok <;> rfl
  rw [hswap]
  refine (h.goto_idle hi).remove (fun {j id' since'} ho => ?_) ok
  have hj : j = i := h.owner_unique (owns_of_goto hi (.inl rfl) ho) ⟨phase, hi, hown⟩
  obtain ⟨q, hat, hq⟩ := ho
  rcases at_goto hat with ⟨-, rfl⟩ | ⟨hne, -⟩
  · cases hq
  · exact hne hj

/-- A lock file is created where there is none. -/
theorem create (hfile : w.file = none) :
    LockInv ({ w with file := some ⟨w.nextId, w.clock⟩, nextId := w.nextId + 1 }.goto i (.writingPid w.nextId w.clock)) := by
  have hn : ∀ {j id since}, ¬ w.Owns j id since := by
    intro j id since ho
    obtain ⟨m, hm, -⟩ := h.owner_file ho
    rw [hfile] at hm
    cases hm
  let w' : World := { w with file := some ⟨w.nextId, w.clock⟩, nextId := w.nextId + 1 }
  have hnew : ∀ {j id since}, (w'.goto i (.writingPid w.nextId w.clock)).Owns j id since → j = i ∧ id = w.nextId ∧ since = w.clock := by
    rintro j id since ⟨q, hat, hq⟩
    rcases at_goto hat with ⟨hj, rfl⟩ | ⟨-, hat⟩
    · cases hq
      exact ⟨hj, rfl, rfl⟩
    · exact absurd ⟨q, hat, hq⟩ hn
  refine ⟨fun ho => ?_, fun ho => ?_, fun ho ho' => ?_, fun hat => ?_, fun hat => ?_, fun hf => ?_, fun hat => ?_, h.store_eq⟩
  · obtain ⟨-, rfl, rfl⟩ := hnew ho
    exact ⟨w.clock, rfl, Nat.le_refl _⟩
  · obtain ⟨-, -, rfl⟩ := hnew ho
    exact ⟨Nat.le_refl _, Nat.lt_add_of_pos_right (by decide)⟩
  · rw [(hnew ho).1, (hnew ho').1]
  · rcases at_goto hat with ⟨-, hq⟩ | ⟨-, hat⟩
    · cases hq
    · have hlt := (h.judged hat).1
      refine ⟨lt_succ_of_lt hlt, fun ho => ?_⟩
      obtain ⟨-, rfl, -⟩ := hnew ho
      exact absurd hlt (Nat.lt_irrefl _)
  · rcases at_goto hat with ⟨-, hq⟩ | ⟨-, hat⟩
    · cases hq
    · have hlt := (h.seen hat).1
      refine ⟨lt_succ_of_lt hlt, fun ho => ?_⟩
      obtain ⟨-, rfl, -⟩ := hnew ho
      exact absurd hlt (Nat.lt_irrefl _)
  · cases hf
    exact lt_succ_self _
  · rcases at_goto hat with ⟨-, hq⟩ | ⟨-, hat⟩
    · cases hq
    · exact h.loaded hat

/-- The process id is written to the lock file that was created. -/
theorem writePid {id since : ℕ} (hi : w.At i (.writingPid id since)) :
    LockInv ({ w with file := w.file.map fun (f : LockFile) => if f.id = id then { f with modified := w.clock } else f }.goto i
      (.working id since none)) := by
  have hwr : LockInv { w with file := w.file.map fun (f : LockFile) => if f.id = id then { f with modified := w.clock } else f } := by
    refine ⟨fun ho => ?_, h.owner_time, h.owner_unique, h.judged, h.seen, fun hf => ?_, h.loaded, h.store_eq⟩
    · obtain ⟨m, hm, hle⟩ := h.owner_file ho
      simp only [hm, map_some]
      split
      · exact ⟨w.clock, rfl, (h.owner_time ho).1⟩
      · exact ⟨m, rfl, hle⟩
    · obtain ⟨g, hg, rfl⟩ := map_eq_some_iff.mp hf
      have hlt := h.file_lt hg
      split
      · exact hlt
      · exact hlt
  exact hwr.goto_plain hi (.inr rfl) (fun _ _ hq => nomatch hq) (fun _ hq => nomatch hq) fun _ _ _ hq => nomatch hq

/-- The state file is written by the process that holds the lock. -/
theorem save {id since : ℕ} {c : List ℕ} (hi : w.At i (.working id since (some c))) (edit : ℕ) :
    LockInv ({ w with store := c ++ [edit], edits := w.edits ++ [edit] }.goto i (.working id since none)) := by
  have hgoto : LockInv (w.goto i (.working id since none)) :=
    h.goto_plain hi (.inr rfl) (fun _ _ hq => nomatch hq) (fun _ hq => nomatch hq) fun _ _ _ hq => nomatch hq
  have ho : ∀ {j id' since' c'}, ¬ (w.goto i (.working id since none)).At j (.working id' since' (some c')) := by
    intro j id' since' c' hat
    rcases at_goto hat with ⟨-, hq⟩ | ⟨hne, hat⟩
    · cases hq
    · exact hne (h.owner_unique ⟨_, hat, rfl⟩ ⟨_, hi, rfl⟩)
  refine ⟨hgoto.owner_file, hgoto.owner_time, hgoto.owner_unique, hgoto.judged, hgoto.seen, hgoto.file_lt, fun hat => absurd hat ho, ?_⟩
  show c ++ [edit] = w.edits ++ [edit]
  rw [h.loaded hi, h.store_eq]

/-- A second passes. -/
theorem tick (hin : w.procs.all w.inTime = true) : LockInv { w with clock := w.clock + 1 } := by
  refine ⟨h.owner_file, fun {j id since} ho => ?_, h.owner_unique, h.judged, h.seen, h.file_lt, h.loaded, h.store_eq⟩
  obtain ⟨q, hat, hq⟩ := ho
  have hlt := all_eq_true.mp hin q (mem_of_getElem? hat)
  rw [World.inTime, hq, decide_eq_true_eq] at hlt
  exact ⟨Nat.le_trans (h.owner_time ⟨q, hat, hq⟩).1 (le_succ _), hlt⟩

/-- The steps of the processes. -/
theorem step {e : LockEvent} {w' : World} (hseen : w.ReclaimsSeen e) (hst : LockEvent.step w e = some w') : LockInv w' := by
  cases e with
  | call i =>
    simp only [LockEvent.step] at hst
    split at hst
    · rename_i hi
      cases hst
      exact h.goto_plain hi (Or.inl rfl) (fun _ _ hq => nomatch hq) (fun _ hq => nomatch hq) fun _ _ _ hq => nomatch hq
    · cases hst
  | create i ok =>
    simp only [LockEvent.step] at hst
    split at hst
    · rename_i again hi
      split at hst
      · cases hst
        exact h.goto_idle hi
      split at hst
      · rename_i hfile
        cases hst
        exact h.create hfile
      · cases hst
        cases again with
        | false => exact h.goto_plain hi (Or.inl rfl) (fun _ _ hq => nomatch hq) (fun _ hq => nomatch hq) fun _ _ _ hq => nomatch hq
        | true => exact h.goto_idle hi
    · cases hst
  | writePid i ok =>
    simp only [LockEvent.step] at hst
    split at hst
    · rename_i id since hi
      split at hst
      · cases hst
        exact h.writePid hi
      · cases hst
        exact h.goto_plain hi (Or.inr rfl) (fun _ _ hq => nomatch hq) (fun _ hq => nomatch hq) fun _ _ _ hq => nomatch hq
    · cases hst
  | undo i ok =>
    simp only [LockEvent.step] at hst
    split at hst
    · rename_i id since hi
      cases hst
      exact h.remove_own hi rfl ok
    · cases hst
  | inspect i ok =>
    simp only [LockEvent.step] at hst
    split at hst
    · rename_i hi
      split at hst
      · rename_i f hf
        cases hst
        cases ok with
        | false => exact h.goto_idle hi
        | true =>
          refine h.goto hi (Or.inl rfl) (fun hq => ?_) (fun hq => nomatch hq) fun hq => nomatch hq
          cases hq
          refine ⟨h.file_lt hf, fun ho => ?_⟩
          obtain ⟨m, hm, hle⟩ := h.owner_file ho
          have hfm := some.inj (hf.symm.trans hm)
          rw [hfm]
          exact hle
      · cases hst
        exact h.goto_idle hi
    · cases hst
  | judge i =>
    simp only [LockEvent.step] at hst
    split at hst
    · rename_i id modified hi
      cases hst
      split
      · rename_i hs
        refine h.goto hi (Or.inl rfl) (fun hq => nomatch hq) (fun hq => ?_) fun hq => nomatch hq
        cases hq
        refine ⟨(h.judged hi).1, fun ho => ?_⟩
        have hle := (h.judged hi).2 ho
        have ht := h.owner_time ho
        omega
      · exact h.goto_idle hi
    · cases hst
  | reclaim i ok =>
    simp only [LockEvent.step] at hst
    split at hst
    · rename_i id hi
      cases hst
      have hgoto : LockInv (w.goto i (.creating true)) :=
        h.goto_plain hi (.inl rfl) (fun _ _ hq => nomatch hq) (fun _ hq => nomatch hq) fun _ _ _ hq => nomatch hq
      cases ok with
      | false => exact hgoto
      | true =>
        refine hgoto.remove (fun {j id' since'} ho => ?_) true
        have ho := owns_of_goto hi (Or.inl rfl) ho
        obtain ⟨m, hm, -⟩ := h.owner_file ho
        have hid : id' = id := by
          have hi : w.procs[i]? = some (.reclaiming id) := hi
          exact hseen id (by rw [hi]; rfl) _ hm
        exact (h.seen hi).2 (hid ▸ ho)
    · cases hst
  | load i =>
    simp only [LockEvent.step] at hst
    split at hst
    · rename_i id since loaded hi
      cases hst
      refine h.goto hi (Or.inr rfl) (fun hq => nomatch hq) (fun hq => nomatch hq) fun hq => ?_
      cases hq
      rfl
    · cases hst
  | save i edit =>
    simp only [LockEvent.step] at hst
    split at hst
    · rename_i id since loaded hi
      cases hst
      exact h.save hi edit
    · cases hst
  | release i ok =>
    simp only [LockEvent.step] at hst
    split at hst
    · rename_i id since loaded hi
      cases hst
      exact h.remove_own hi rfl ok
    · cases hst
  | crash i =>
    simp only [LockEvent.step] at hst
    split at hst
    · cases hst
    · rename_i phase _ hi
      cases hst
      exact h.goto_plain hi (Or.inl rfl) (fun _ _ hq => nomatch hq) (fun _ hq => nomatch hq) fun _ _ _ hq => nomatch hq
    · cases hst
  | tick =>
    simp only [LockEvent.step] at hst
    split at hst
    · rename_i hin
      cases hst
      exact h.tick hin
    · cases hst

end

end LockInv

/-! ### Exclusion -/

instance (w : World) : (e : LockEvent) → Decidable (w.ReclaimsSeen e)
  | .reclaim i true => inferInstanceAs (Decidable (∀ id ∈ w.procs[i]?.bind Phase.found, ∀ f ∈ w.file, f.id = id))
  | .reclaim _ false => isTrue trivial
  | .call _ | .create _ _ | .writePid _ _ | .undo _ _ | .inspect _ _ | .judge _ | .load _ | .save _ _ | .release _ _
  | .crash _ | .tick => isTrue trivial

/-- **Exclusion**: in a run in which a process that reclaims a stale lock removes the very file
that it found stale, or finds none to remove, at most one live process holds the lock in
any state, and no edit of the state file is lost. -/
theorem lock_excludes {processes : ℕ} {events : List LockEvent}
    (h : Meets LockEvent.step World.ReclaimsSeen (.start processes) events) :
    Along LockEvent.step World.Excludes (.start processes) events :=
  along_of_meets LockEvent.step (fun _ => LockInv.excludes) (fun _ _ _ hinv hc hst => hinv.step hc hst) (LockInv.start processes) h

/-- Process 0 crashes with the lock; half a minute later processes 1 and 2 both find its lock
file stale. -/
def staleRace : List LockEvent :=
  ([.call 0, .create 0 true, .crash 0] : List LockEvent) ++ .replicate 30 .tick ++
  ([.call 1, .create 1 true, .call 2, .create 2 true, .inspect 1 true, .inspect 2 true, .judge 1, .judge 2,
    .reclaim 1 true, .create 1 true, .writePid 1 true] : List LockEvent)

/-- Process 1 reclaims it and saves an edit; process 2 finds the new lock file. -/
theorem lock_excludes_reclaimed :
    Meets LockEvent.step World.ReclaimsSeen (.start 3) (staleRace ++ [LockEvent.load 1, LockEvent.save 1 7, LockEvent.release 1 true]) ∧
    Along LockEvent.step World.Excludes (.start 3) (staleRace ++ [LockEvent.load 1, LockEvent.save 1 7, LockEvent.release 1 true]) := by
  have hm : Meets LockEvent.step World.ReclaimsSeen (.start 3)
    (staleRace ++ [LockEvent.load 1, LockEvent.save 1 7, LockEvent.release 1 true]) := by
    decide
  exact ⟨hm, lock_excludes hm⟩

/-- Process 2 goes on to remove the lock file of process 1, and both hold the lock. -/
theorem stale_lock_held_twice :
    ¬ ∀ (processes : ℕ) (events : List LockEvent), Along LockEvent.step World.Excludes (.start processes) events := by
  intro h
  have hexcl : World.Excludes ⟨30, some ⟨2, 30⟩, 3, [.crashed, .working 1 30 none, .working 2 30 none], [], []⟩ :=
    (h 3 (staleRace ++ [.reclaim 2 true, .create 2 true, .writePid 2 true])).last rfl
  exact absurd (hexcl.1 1 2 ⟨1, 30, none, rfl⟩ ⟨2, 30, none, rfl⟩) (by decide)

end Pebrel.Files
