import Pebrel.Library.Assoc
import Pebrel.Library.Text

/-!
# The runtime hub

The hub holds what the windows of the terminal last showed of their panes, and
what follows from it: which panes ended, which agents run in them, how often the
state of a pane changed, and which command runs are completed (`runtime_api.rs`).
The user interface publishes snapshots, and tells the hub when it moves panes to
another window, so that the next snapshot does not seem to close them.

## The model

Each call of the hub is one step, as it holds the lock throughout; that the
record of an ended pane publishes the last snapshot again is a part of its step.
A pane is named by its window and its number there. An agent is named by the
number that is drawn for its id, and what a snapshot says that the hub does not
look at is of a type of its own. The maps of the hub may be gone through in any
order: `reorder` puts them into another one.
-/

namespace Pebrel.Runtime

open Library

abbrev U64 := Fin (2 ^ 64)

instance U64.neZero : NeZero (2 ^ 64) := inferInstance

/-- `saturating_add` of one. -/
def U64.saturatingSucc (n : U64) : U64 := if h : n.val + 1 < 2 ^ 64 then ⟨n.val + 1, h⟩ else n

theorem U64.le_saturatingSucc (n : U64) : n ≤ .saturatingSucc n := by
  rw [U64.saturatingSucc]
  split
  · exact Fin.mk_le_mk.mpr (Nat.le_succ _)
  · exact Fin.le_refl _

/-! ### Snapshots -/

inductive RuntimeTaskState where
  | idle
  | running
  | waitingInput
  | attention
  | finished
  | failed
  deriving DecidableEq

structure RuntimeAgent (δ : Type) where
  agentId : Option ℕ
  generation : Option U64
  name : Option Text
  worktree : Option δ
  kind : Text
  sessionId : Option Text
  details : δ
  deriving DecidableEq

inductive RuntimeRunPhase where
  | submitted
  | started
  deriving DecidableEq

structure RuntimePaneRun where
  runId : ℕ
  phase : RuntimeRunPhase
  deriving DecidableEq

inductive RuntimeRunState where
  | finished
  | failed
  | unavailable
  deriving DecidableEq

inductive ExitCodeCapability where
  | supported
  | unavailable
  deriving DecidableEq

structure RuntimeRunOutcome where
  runId : ℕ
  state : RuntimeRunState
  exitCode : Option ℤ
  exitCodeCapability : ExitCodeCapability
  unavailableReason : Option Text
  deriving DecidableEq

namespace RuntimeRunOutcome

def unavailable (runId : ℕ) (reason : Text) : RuntimeRunOutcome := ⟨runId, .unavailable, none, .unavailable, some reason⟩

def paneOrRunDisappeared : Text := "pane_or_run_disappeared".toList

end RuntimeRunOutcome

structure RuntimePane (δ : Type) where
  id : ℕ
  agent : Option (RuntimeAgent δ)
  taskState : RuntimeTaskState
  stateChangeSeq : U64
  activeRun : Option RuntimePaneRun
  lastRun : Option RuntimeRunOutcome
  details : δ
  deriving DecidableEq

structure RuntimeTab (δ : Type) where
  panes : List (RuntimePane δ)
  details : δ
  deriving DecidableEq

structure RuntimeWindow (δ : Type) where
  id : ℕ
  tabs : List (RuntimeTab δ)
  details : δ
  deriving DecidableEq

inductive RuntimePaneLifecycleKind where
  | closed
  | exited
  deriving DecidableEq

def RuntimePaneLifecycleKind.errorCode : RuntimePaneLifecycleKind → Text
  | .closed => "pane_closed".toList
  | .exited => "pane_exited".toList

/-- A window, and the number of a pane in it. -/
abbrev PaneIdentity := ℕ × ℕ

structure RuntimePaneLifecycle where
  sequence : U64
  windowId : ℕ
  paneId : ℕ
  event : RuntimePaneLifecycleKind
  deriving DecidableEq

def RuntimePaneLifecycle.identity (l : RuntimePaneLifecycle) : PaneIdentity := (l.windowId, l.paneId)

structure RuntimeSnapshot (δ : Type) where
  revision : U64
  windows : List (RuntimeWindow δ)
  paneLifecycles : List RuntimePaneLifecycle
  details : δ
  deriving DecidableEq

variable {δ : Type}

/-- Change the first element that satisfies `q`. -/
def modifyWhere {α : Type} (q : α → Bool) (f : α → α) : List α → List α
  | [] => []
  | a :: as => if q a then f a :: as else a :: modifyWhere q f as

namespace RuntimeWindow

def panes (w : RuntimeWindow δ) : List (RuntimePane δ) := w.tabs.flatMap RuntimeTab.panes

def modifyPane (p : ℕ) (f : RuntimePane δ → RuntimePane δ) (w : RuntimeWindow δ) : RuntimeWindow δ :=
  { w with
    tabs := modifyWhere (fun t => t.panes.any fun pane => pane.id = p)
      (fun t => { t with panes := modifyWhere (fun pane => pane.id = p) f t.panes }) w.tabs }

end RuntimeWindow

namespace RuntimeSnapshot

/-- The panes, each with the window that it is in. -/
def panes (s : RuntimeSnapshot δ) : List (ℕ × RuntimePane δ) := s.windows.flatMap fun w => w.panes.map fun pane => (w.id, pane)

/-- `snapshot_pane_identities`. -/
def paneIdentities (s : RuntimeSnapshot δ) : List PaneIdentity := s.panes.map fun e => (e.1, e.2.id)

/-- The first pane of this number in the first window of this number. -/
def findPane (w p : ℕ) (s : RuntimeSnapshot δ) : Option (RuntimePane δ) :=
  (s.windows.find? fun window => window.id = w).bind fun window => window.panes.find? fun pane => pane.id = p

def modifyPane (w p : ℕ) (f : RuntimePane δ → RuntimePane δ) (s : RuntimeSnapshot δ) : RuntimeSnapshot δ :=
  { s with windows := modifyWhere (fun window => window.id = w) (.modifyPane p f) s.windows }

def mapPanes (f : ℕ → RuntimePane δ → RuntimePane δ) (s : RuntimeSnapshot δ) : RuntimeSnapshot δ :=
  { s with
    windows := s.windows.map fun w => { w with tabs := w.tabs.map fun t => { t with panes := t.panes.map (f w.id) } } }

end RuntimeSnapshot

/-! ### The state of the hub -/

structure RuntimeManagedAgent (δ : Type) where
  agentId : ℕ
  generation : U64
  name : Text
  kind : Text
  windowId : ℕ
  paneId : ℕ
  sessionId : Option Text
  worktree : Option δ
  active : Bool
  observed : Bool
  closedReason : Option Text
  deriving DecidableEq

namespace RuntimeManagedAgent

def identity (a : RuntimeManagedAgent δ) : PaneIdentity := (a.windowId, a.paneId)

def close (reason : Text) (a : RuntimeManagedAgent δ) : RuntimeManagedAgent δ := { a with active := false, closedReason := some reason }

end RuntimeManagedAgent

structure RuntimeRunResult where
  windowId : ℕ
  paneId : ℕ
  outcome : RuntimeRunOutcome
  deriving DecidableEq

/-- A window, a pane and a run. -/
abbrev RunKey := ℕ × ℕ × ℕ

def RuntimeRunResult.key (r : RuntimeRunResult) : RunKey := (r.windowId, r.paneId, r.outcome.runId)

structure HubState (δ : Type) where
  current : Option (RuntimeSnapshot δ)
  nextPaneLifecycle : U64
  paneLifecycles : List RuntimePaneLifecycle
  pendingPaneRelocations : Assoc.Map PaneIdentity PaneIdentity
  nextRunWaiter : U64
  /-- The waiters of each run, in order. -/
  runWaiters : List (RunKey × U64)
  /-- What was sent to waiters. -/
  sent : List (U64 × RuntimeRunResult)
  completedRuns : List RuntimeRunResult
  /-- `NEXT_AGENT_ID`. -/
  nextAgentId : ℕ
  agentGenerations : Assoc.Map Text U64
  managedAgents : List (RuntimeManagedAgent δ)

def HubState.new : HubState δ := ⟨none, 0, [], .empty, 0, [], [], [], 1, .empty, []⟩

def paneLifecycleCache : ℕ := 256

def completedRunCache : ℕ := 256

/-- Push to the back of a queue, from which the oldest elements are taken where there are too many. -/
def pushBounded {α : Type} (limit : ℕ) (a : α) (queue : List α) : List α := (queue ++ [a]).drop (queue.length + 1 - limit)

/-! ### Publication -/

structure ResolvedPaneRelocations where
  bySource : Assoc.Map PaneIdentity PaneIdentity
  byTarget : Assoc.Map PaneIdentity PaneIdentity

/-- `resolve_pane_relocations`: the pending relocations count for the snapshot that follows, which ever it is. -/
def resolvePaneRelocations (state : HubState δ) (snapshot : RuntimeSnapshot δ) : HubState δ × ResolvedPaneRelocations :=
  let pending := state.pendingPaneRelocations.entries.filter fun e => e.2 ∈ snapshot.paneIdentities
  ({ state with pendingPaneRelocations := .empty }, ⟨.ofEntries pending, .ofEntries (pending.map .swap)⟩)

/-- `record_pane_lifecycle_locked`, with whether the lifecycle is new. -/
def recordPaneLifecycleLocked (windowId paneId : ℕ) (event : RuntimePaneLifecycleKind) (state : HubState δ) : HubState δ × Bool :=
  if state.paneLifecycles.any fun l => l.identity = (windowId, paneId) then (state, false)
  else
    let sequence := state.nextPaneLifecycle.saturatingSucc
    ({ state with
      nextPaneLifecycle := sequence
      paneLifecycles := pushBounded paneLifecycleCache ⟨sequence, windowId, paneId, event⟩ state.paneLifecycles
      managedAgents := state.managedAgents.map fun a =>
        if a.active && decide (a.identity = (windowId, paneId)) then a.close event.errorCode else a }, true)

def observeRemovedPanes (state : HubState δ) (snapshot : RuntimeSnapshot δ) (relocations : ResolvedPaneRelocations) : HubState δ :=
  match state.current with
  | none => state
  | some current =>
    let removed := current.paneIdentities.filter fun i => i ∉ snapshot.paneIdentities && !relocations.bySource.containsKey i
    removed.foldl (fun state i => (recordPaneLifecycleLocked i.1 i.2 .closed state).1) state

def agentReplaced : Text := "agent_replaced".toList

def agentExited : Text := "agent_exited".toList

/-- Another session, or another agent, is in the pane. -/
def RuntimeManagedAgent.mismatches (managed : RuntimeManagedAgent δ) (agent : RuntimeAgent δ) : Bool :=
  (match managed.sessionId, agent.sessionId with
  | some expected, some actual => decide (expected ≠ actual)
  | _, _ => false) || agent.agentId.any fun agentId => agentId ≠ managed.agentId

/-- What the snapshot says of an agent that it shows. -/
def RuntimeManagedAgent.stamp (managed : RuntimeManagedAgent δ) (agent : RuntimeAgent δ) : RuntimeAgent δ :=
  { agent with
    agentId := some managed.agentId
    generation := some managed.generation
    name := some managed.name
    worktree := managed.worktree }

def RuntimePane.showAgent (agent : RuntimeAgent δ) (pane : RuntimePane δ) : RuntimePane δ := { pane with agent := some agent }

/-- The loop of `project_managed_agents`, for one agent: the snapshot, the agent, and whether it changed. -/
def projectManagedAgent (snapshot : RuntimeSnapshot δ) (managed : RuntimeManagedAgent δ) :
    RuntimeSnapshot δ × RuntimeManagedAgent δ × Bool :=
  if !managed.active then (snapshot, managed, false)
  else
    match snapshot.findPane managed.windowId managed.paneId with
    | none => (snapshot, managed.close RuntimePaneLifecycleKind.closed.errorCode, true)
    | some pane =>
      match pane.agent with
      | some agent =>
        if agent.kind = managed.kind then
          if managed.mismatches agent then (snapshot, managed.close agentReplaced, true)
          else
            let sessionId := managed.sessionId.or agent.sessionId
            (snapshot.modifyPane managed.windowId managed.paneId
                (.showAgent ({ managed with sessionId := sessionId, observed := true }.stamp agent)),
              { managed with sessionId := sessionId, observed := true },
              decide (sessionId ≠ managed.sessionId) || !managed.observed)
        else if managed.observed then (snapshot, managed.close agentReplaced, true)
        else (snapshot, managed, false)
      | none =>
        if managed.observed then (snapshot, managed.close agentExited, true)
        else (snapshot, managed, false)

/-- The loop of `project_managed_agents`. -/
def projectAgents : RuntimeSnapshot δ → List (RuntimeManagedAgent δ) → RuntimeSnapshot δ × List (RuntimeManagedAgent δ) × Bool
  | snapshot, [] => (snapshot, [], false)
  | snapshot, managed :: rest =>
    let (snapshot, managed, changed) := projectManagedAgent snapshot managed
    let (snapshot, rest, restChanged) := projectAgents snapshot rest
    (snapshot, managed :: rest, changed || restChanged)

def projectManagedAgents (state : HubState δ) (snapshot : RuntimeSnapshot δ) : HubState δ × RuntimeSnapshot δ × Bool :=
  let (snapshot, agents, changed) := projectAgents snapshot state.managedAgents
  ({ state with managedAgents := agents }, snapshot, changed)

/-- The counter of a pane in this state, which was the one of the pane `before`. -/
def nextStateChangeSeq (before : Option (RuntimePane δ)) (taskState : RuntimeTaskState) : U64 :=
  match before with
  | some before => if before.taskState = taskState then before.stateChangeSeq else before.stateChangeSeq.saturatingSucc
  | none => 1

def stampStateChangeSeq (previous : Option (RuntimeSnapshot δ)) (next : RuntimeSnapshot δ) (relocations : ResolvedPaneRelocations) :
    RuntimeSnapshot δ :=
  next.mapPanes fun windowId pane =>
    let identity := (windowId, pane.id)
    let previousIdentity := (relocations.byTarget.get? identity).getD identity
    let before := (previous.map RuntimeSnapshot.panes).getD []
    { pane with
      stateChangeSeq := nextStateChangeSeq ((before.reverse.find? fun e => (e.1, e.2.id) = previousIdentity).map Prod.snd) pane.taskState }

def completeRun (result : RuntimeRunResult) (state : HubState δ) : HubState δ :=
  let waiters := state.runWaiters.filter fun e => e.1 = result.key
  { state with
    runWaiters := state.runWaiters.filter fun e => e.1 ≠ result.key
    sent := state.sent ++ waiters.map fun e => (e.2, result)
    completedRuns := pushBounded completedRunCache result state.completedRuns }

/-- The last run of a pane is completed, if it was not. -/
def completeLastRun (state : HubState δ) (e : ℕ × RuntimePane δ) : HubState δ :=
  match e.2.lastRun with
  | none => state
  | some outcome =>
    let result : RuntimeRunResult := ⟨e.1, e.2.id, outcome⟩
    if state.completedRuns.any fun r => r.key = result.key then state else completeRun result state

/-- A run that was active has disappeared, unless it is observed or was completed. -/
def completeDisappeared (observed : List RunKey) (state : HubState δ) (key : RunKey) : HubState δ :=
  if observed.contains key || state.completedRuns.any fun r => r.key = key then state
  else completeRun ⟨key.1, key.2.1, .unavailable key.2.2 RuntimeRunOutcome.paneOrRunDisappeared⟩ state

/-- The active runs. -/
def RuntimeSnapshot.activeRuns (s : RuntimeSnapshot δ) : List RunKey :=
  s.panes.filterMap fun e => e.2.activeRun.map fun run => (e.1, e.2.id, run.runId)

def observeRunLifecycle (state : HubState δ) (snapshot : RuntimeSnapshot δ) (relocations : ResolvedPaneRelocations) : HubState δ :=
  let state := snapshot.panes.foldl completeLastRun state
  let previousActive := ((state.current.map RuntimeSnapshot.activeRuns).getD []).map fun key =>
    let (windowId, paneId) := (relocations.bySource.get? (key.1, key.2.1)).getD (key.1, key.2.1)
    (windowId, paneId, key.2.2)
  previousActive.foldl (completeDisappeared snapshot.activeRuns) state

/-! ### Panes that move, agents, and waiters -/

def movePanesToWindow (source target : ℕ) (paneIds : List ℕ) (state : HubState δ) : HubState δ :=
  if source = target ∨ paneIds = [] then state
  else
    let moved (i : PaneIdentity) : Bool := decide (i.1 = source) && paneIds.contains i.2
    { state with
      pendingPaneRelocations :=
        paneIds.foldl (fun pending p => pending.insert (source, p) (target, p)) state.pendingPaneRelocations
      managedAgents := state.managedAgents.map fun a => if moved a.identity then { a with windowId := target } else a
      runWaiters := (state.runWaiters.filter fun e => !moved (e.1.1, e.1.2.1)) ++
        (state.runWaiters.filter fun e => moved (e.1.1, e.1.2.1)).map fun e => ((target, e.1.2), e.2)
      completedRuns :=
        state.completedRuns.map fun r => if moved (r.windowId, r.paneId) then { r with windowId := target } else r }

def registerAgent (name kind : Text) (windowId paneId : ℕ) (sessionId : Option Text) (worktree : Option δ) (state : HubState δ) :
    HubState δ :=
  if state.managedAgents.any fun a => a.active && decide (a.name = name) then state
  else
    let generation := ((state.agentGenerations.get? name).getD 0).saturatingSucc
    let agent := ⟨state.nextAgentId, generation, name, kind, windowId, paneId, sessionId, worktree, true, false, none⟩
    { state with
      agentGenerations := state.agentGenerations.insert name generation
      nextAgentId := (state.nextAgentId + 1) % 2 ^ 64
      managedAgents := (state.managedAgents.filter fun a => a.agentId ≠ state.nextAgentId) ++ [agent] }

/-- There are ids left for agents: the counter wraps around after the last one. -/
def HubState.IdLeft (state : HubState δ) : Prop := state.nextAgentId + 1 < 2 ^ 64
deriving Decidable

theorem HubState.IdLeft.lt_iff {state : HubState δ} (h : state.IdLeft) {id : ℕ} :
    id < (state.nextAgentId + 1) % 2 ^ 64 ↔ id ≤ state.nextAgentId := by
  rw [Nat.mod_eq_of_lt h, Nat.lt_succ_iff]

def closeAgent (agentId : ℕ) (reason : Text) (state : HubState δ) : HubState δ :=
  { state with
    managedAgents := state.managedAgents.map fun a => if decide (a.agentId = agentId) && a.active then a.close reason else a }

/-- `wait_run`, to where it waits. -/
def waitRun (windowId paneId runId : ℕ) (state : HubState δ) : HubState δ :=
  if state.completedRuns.any fun r => r.key = (windowId, paneId, runId) then state
  else
    { state with
      nextRunWaiter := state.nextRunWaiter.saturatingSucc
      runWaiters := state.runWaiters ++ [((windowId, paneId, runId), state.nextRunWaiter.saturatingSucc)] }

/-! ### Calls -/

/-- A call of the hub. -/
inductive Call (δ : Type) where
  | publish (snapshot : RuntimeSnapshot δ)
  | movePanesToWindow (source target : ℕ) (paneIds : List ℕ)
  | recordPaneLifecycle (windowId paneId : ℕ) (event : RuntimePaneLifecycleKind)
  | registerAgent (name kind : Text) (windowId paneId : ℕ) (sessionId : Option Text) (worktree : Option δ)
  | closeAgent (agentId : ℕ) (reason : Text)
  | waitRun (windowId paneId runId : ℕ)
  /-- The maps are gone through in another order. -/
  | reorder (agents : List (RuntimeManagedAgent δ)) (pending : Assoc.Map PaneIdentity PaneIdentity)

section
variable [DecidableEq δ]

def publish (snapshot : RuntimeSnapshot δ) (state : HubState δ) : HubState δ :=
  let (state, relocations) := resolvePaneRelocations state snapshot
  let state := observeRemovedPanes state snapshot relocations
  let snapshot := { snapshot with paneLifecycles := state.paneLifecycles }
  let (state, snapshot, _) := projectManagedAgents state snapshot
  let snapshot := stampStateChangeSeq state.current snapshot relocations
  let state := observeRunLifecycle state snapshot relocations
  match state.current with
  | some current =>
    let snapshot := { snapshot with revision := current.revision }
    if current = snapshot then state
    else { state with current := some { snapshot with revision := current.revision.saturatingSucc } }
  | none => { state with current := some { snapshot with revision := 1 } }

/-- `record_pane_lifecycle`: where the lifecycle is new, the last snapshot is published again. -/
def recordPaneLifecycle (windowId paneId : ℕ) (event : RuntimePaneLifecycleKind) (state : HubState δ) : HubState δ :=
  match recordPaneLifecycleLocked windowId paneId event state with
  | (state, false) => state
  | (state, true) =>
    match state.current with
    | some snapshot => publish snapshot state
    | none => state

/-- What a call does. -/
def HubState.step (state : HubState δ) : Call δ → HubState δ
  | .publish snapshot => Runtime.publish snapshot state
  | .movePanesToWindow source target paneIds => Runtime.movePanesToWindow source target paneIds state
  | .recordPaneLifecycle windowId paneId event => Runtime.recordPaneLifecycle windowId paneId event state
  | .registerAgent name kind windowId paneId sessionId worktree =>
    Runtime.registerAgent name kind windowId paneId sessionId worktree state
  | .closeAgent agentId reason => Runtime.closeAgent agentId reason state
  | .waitRun windowId paneId runId => Runtime.waitRun windowId paneId runId state
  | .reorder agents pending =>
    if agents.Perm state.managedAgents ∧ pending.entries.Perm state.pendingPaneRelocations.entries then
      { state with managedAgents := agents, pendingPaneRelocations := pending }
    else state

end

end Pebrel.Runtime
