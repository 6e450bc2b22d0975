import Pebrel.Hooks.EventGate
import Pebrel.Library.History

/-!
# The activity of an agent in a pane

What a pane shows of its agent (`AgentActivity` of `lifecycle.rs`) comes from hooks, from
submissions, and from what the screen looks like. Hooks are facts; a screen is
evidence, and has to look the same twice before an agent is said to be idle or done. Under
hooks that report everything the screen is only looked at to find turns that
are stalled because a hook was lost.

## The model

Actions are the calls of the methods. Times are numbers, given with the actions
that look at the clock. A counter of samples goes no further than 255. Of an event there is
what the activity reads, over what the gate reads.
-/

namespace Pebrel.Hooks.Activity

open Library

/-! ### Events -/

inductive CodexHookMode where
  | turns
  | full
  deriving DecidableEq

inductive AiTurnOutcome where
  | unspecified
  | succeeded
  | failed
  | cancelled
  | incomplete
  | unknown
  deriving DecidableEq

/-- What an event has for the activity, over what it has for the gate. -/
structure Event (α : Type) extends AiHookEvent α where
  legacyAttention : Bool
  codexHooks : Option CodexHookMode
  turnId : Option Text
  sessionCompacted : Bool
  turnOutcome : AiTurnOutcome

/-- `AiHookCapabilities`, as far as coverage depends on them. -/
structure Capabilities where
  lifecycle : Bool
  attentionEvents : Bool

def claudeStyle (source : Text) : Bool := ["claude", "qoder", "codebuddy", "qwen", "droid"].any fun s => s.toList = source

def capabilitiesFor (source : Text) : Capabilities :=
  if ["claude", "opencode"].any fun s => s.toList = source then ⟨true, true⟩
  else if ["pi", "omp"].any fun s => s.toList = source then ⟨true, false⟩
  else if source = "codex".toList then ⟨false, false⟩
  else if ["kimi", "copilot", "grok"].any fun s => s.toList = source then ⟨true, true⟩
  else if claudeStyle source then ⟨true, true⟩
  else if ["cursor", "antigravity"].any fun s => s.toList = source then ⟨true, false⟩
  else ⟨false, false⟩

def unprovenStop : List Text := ["pi", "omp", "cursor", "copilot", "antigravity"].map String.toList

variable {α : Type}

def Event.capabilities (event : Event α) : Capabilities :=
  match event.codexHooks with
  | some mode => ⟨true, decide (mode = .full)⟩
  | none => capabilitiesFor event.source

/-! ### The state -/

inductive AgentStatus where
  | idle
  | working
  | blocked
  | done
  | unknown
  deriving DecidableEq

inductive AgentStatusSource where
  | hook
  | screen
  | process
  | unknown
  deriving DecidableEq

inductive HookCoverage where
  | none
  | completion
  | turns
  | lifecycle
  deriving DecidableEq

/-- What the rules say of a screen, and by which rule. -/
structure Detection where
  status : AgentStatus
  ruleId : Text

structure Owner where
  source : Text
  session : Option Text
  pid : Option ℕ
  remoteProcess : Option Text
  bridgeInstance : Option Text

structure AgentActivity where
  status : AgentStatus := .unknown
  source : AgentStatusSource := .unknown
  rule : Option Text := none
  coverage : HookCoverage := .none
  owner : Option Owner := none
  idleSamples : ℕ := 0
  workingSamples : ℕ := 0
  unmatchedSamples : ℕ := 0
  screenBlockedFallback : Option (AgentStatusSource × Option Text) := none
  turnObserved : Bool := false
  pendingSubmit : Bool := false
  inferredDone : Bool := false
  screenArmed : Bool := true
  commandEnded : Bool := false
  nativeCodex : Bool := false
  turnId : Option Text := none
  lastRemoteSequence : Option ℕ := none
  lastActivityAt : Option ℕ := none

/-- `saturating_add(1)` of a `u8`. -/
def saturatingSucc (n : ℕ) : ℕ := min (n + 1) 255

namespace AgentActivity

def hookSeen (s : AgentActivity) : Bool := s.coverage ≠ .none

def allowsScreen (s : AgentActivity) : Bool := !s.commandEnded && s.coverage ≠ .lifecycle

/-! ### Commands, submissions and input -/

def reset (_ : AgentActivity) : AgentActivity := {}

def commandFinished (s : AgentActivity) : AgentActivity := { s.reset with commandEnded := true }

def beginCommand (s : AgentActivity) (agent : Bool) : AgentActivity :=
  if agent then { s.reset with status := .working, source := .process } else s.reset

def identify (s : AgentActivity) (source : AgentStatusSource) : AgentActivity :=
  if !s.hookSeen && s.status = .unknown then { s with source := source } else s

def resetScreenSamples (s : AgentActivity) : AgentActivity :=
  { s with idleSamples := 0, unmatchedSamples := 0, workingSamples := 0 }

def inputSent (s : AgentActivity) : AgentActivity := { s with screenArmed := true }.resetScreenSamples

def submitted (s : AgentActivity) (now : ℕ) : AgentActivity :=
  inputSent { s with
    status := .working
    source := .process
    rule := none
    screenBlockedFallback := none
    turnObserved := true
    pendingSubmit := true
    lastActivityAt := some now }

/-- A submission that starts no turn. -/
def isPlan (program text : Text) : Bool := program = "codex".toList && Text.trim text = "/plan".toList

def submittedText (s : AgentActivity) (program text : Text) (now : ℕ) : AgentActivity :=
  if isPlan program text then s.inputSent else s.submitted now

/-! ### Hooks -/

/-- Whether the owner of the pane lets an event in. -/
def ownerAccepts (s : AgentActivity) (event : Event α) (owner : Owner) : Bool :=
  let sameProcess := (owner.pid.isSome && owner.pid = event.agentPid) ||
    (owner.remoteProcess.isSome && owner.remoteProcess = event.remoteProcess) ||
    ((event.source = "pi".toList || event.source = "omp".toList) && owner.bridgeInstance.isSome &&
      owner.bridgeInstance = event.bridgeInstance)
  if owner.source ≠ event.source then false
  else if owner.remoteProcess.isSome && event.remoteProcess.isSome && owner.remoteProcess ≠ event.remoteProcess then false
  else if owner.remoteProcess.isSome && owner.remoteProcess = event.remoteProcess &&
      (match event.bridgeSequence, s.lastRemoteSequence with
        | some next, some previous => decide (next ≤ previous)
        | _, _ => false) then false
  else if (match owner.pid, event.agentPid with
      | some primary, some incoming => decide (primary ≠ incoming)
      | _, _ => false) then false
  else if owner.session.isSome && event.sessionId.isSome && owner.session ≠ event.sessionId &&
      !(sameProcess && event.kind = .sessionStart) then false
  else true

def acceptsHook (s : AgentActivity) (event : Event α) : Bool :=
  if s.commandEnded && event.kind ≠ .sessionStart then false
  else if event.legacyAttention && !(s.status = .working || s.status = .blocked) then false
  else if s.nativeCodex && event.source = "codex".toList && event.codexHooks.isNone then false
  else if event.codexHooks.isSome && s.turnId.isSome && event.turnId.isSome && s.turnId ≠ event.turnId &&
      !(event.kind = .sessionStart || event.kind = .promptSubmit) then false
  else if event.kind = .turnDone && s.status = .done && event.turnId.isSome && event.turnId = s.turnId && !s.inferredDone then false
  else
    match s.owner with
    | some owner => s.ownerAccepts event owner
    | none => true

def recordOwner (s : AgentActivity) (event : Event α) : AgentActivity :=
  match s.owner with
  | some owner =>
    { s with owner := some { owner with
        pid := owner.pid.or event.agentPid
        remoteProcess := owner.remoteProcess.or event.remoteProcess
        bridgeInstance := owner.bridgeInstance.or event.bridgeInstance
        session := event.sessionId.or owner.session } }
  | none =>
    { s with owner := some ⟨event.source, event.sessionId, event.agentPid, event.remoteProcess, event.bridgeInstance⟩ }

/-- What an event that is let in does before the status is looked at. -/
def letIn (s : AgentActivity) (event : Event α) : AgentActivity :=
  let recorded := s.recordOwner event
  { recorded with
    nativeCodex := s.nativeCodex || event.codexHooks.isSome
    lastRemoteSequence :=
      if event.remoteProcess.isSome && event.bridgeSequence.isSome then event.bridgeSequence else s.lastRemoteSequence
    turnId := if event.turnId.isSome || (event.kind = .sessionStart && !event.sessionCompacted) then event.turnId else s.turnId
    commandEnded := false
    inferredDone := false }

def coverageOf (event : Event α) : HookCoverage :=
  if event.capabilities.lifecycle then
    if event.capabilities.attentionEvents then .lifecycle else .turns
  else .completion

/-- A stop that does not show that there is an answer. -/
def unproven (event : Event α) : Bool :=
  event.turnOutcome = .failed || event.turnOutcome = .incomplete || event.turnOutcome = .cancelled ||
    (unprovenStop.contains event.source && event.turnOutcome = .unknown)

/-- What an event says of the status. -/
def settle (s : AgentActivity) (event : Event α) : AgentActivity :=
  match event.kind with
  | .sessionStart => if event.sessionCompacted then s else { s with turnObserved := false, status := .idle }
  | .promptSubmit | .toolComplete => { s with turnObserved := true, status := .working }
  | .turnDone =>
    if 0 < event.activeBackgroundTasks then
      { s with
        turnObserved := true
        rule := some ("hook.background_tasks.active=".toList ++ Nat.toDigits 10 event.activeBackgroundTasks)
        status := .working }
    else { s with screenArmed := false, status := if unproven event then .idle else .done }
  | .needsAttention => { s with status := .blocked }
  | .sessionEnd => s

def applyHook (s : AgentActivity) (event : Event α) (now : ℕ) : Bool × AgentActivity :=
  if !s.acceptsHook event then (false, s)
  else
    let admitted := s.letIn event
    if event.kind = .sessionEnd then (true, admitted.commandFinished)
    else
      let covered := resetScreenSamples { admitted with
        coverage := coverageOf event
        source := .hook
        rule := none
        screenBlockedFallback := none }
      let started := if event.kind = .sessionStart then covered else { covered with pendingSubmit := false }
      (true, { started.settle event with lastActivityAt := some now })

/-! ### Screens -/

/-- What the screen shows becomes the status. -/
def adopt (s : AgentActivity) (next : AgentStatus) (rule : Text) : Bool × AgentActivity :=
  if next = s.status then (false, s)
  else
    (true, { s with
      screenBlockedFallback := if next = .blocked ∧ s.status = .working then some (s.source, s.rule) else none
      status := next
      source := .screen
      rule := some rule })

/-- A screen that no rule knows. -/
def observeUnmatched (s : AgentActivity) : Bool × AgentActivity :=
  let s := { s with idleSamples := 0 }
  if s.source ≠ .screen ∨ s.status ≠ .blocked then (false, s)
  else
    let s := { s with unmatchedSamples := saturatingSucc s.unmatchedSamples }
    if s.unmatchedSamples < 2 then (false, s)
    else
      match s.screenBlockedFallback with
      | some (source, rule) =>
        (true, { s with unmatchedSamples := 0, screenBlockedFallback := none, status := .working, source := source, rule := rule })
      | none => (true, { s with unmatchedSamples := 0, status := .unknown, source := .unknown, rule := none })

/-- A screen of an agent that waits for a prompt. -/
def observeIdle (s : AgentActivity) (rule : Text) : Bool × AgentActivity :=
  if s.pendingSubmit then (false, { s with idleSamples := 0 })
  else
    let s := { s with idleSamples := saturatingSucc s.idleSamples }
    if s.idleSamples < 2 then (false, s)
    else
      let s := { s with screenArmed := true }
      if s.coverage = .completion ∨ s.coverage = .turns then (false, s)
      else s.adopt (if s.turnObserved then .done else .idle) rule

/-- A screen of an agent that works or asks. -/
def observeActive (s : AgentActivity) (status : AgentStatus) (rule : Text) : Bool × AgentActivity :=
  let s := { s with idleSamples := 0 }
  if s.coverage = .turns ∧ (status ≠ .blocked ∨ ¬ (s.status = .working ∨ s.status = .blocked)) then (false, s)
  else if !s.screenArmed then (false, s)
  else adopt { s with pendingSubmit := false, turnObserved := s.turnObserved || status = .working } status rule

def observeScreen (s : AgentActivity) (detection : Option Detection) : Bool × AgentActivity :=
  if !s.allowsScreen then (false, s)
  else
    match detection with
    | none => s.observeUnmatched
    | some detection =>
      let s := { s with unmatchedSamples := 0 }
      match detection.status with
      | .idle => s.observeIdle detection.ruleId
      | .working => s.observeActive .working detection.ruleId
      | .blocked => s.observeActive .blocked detection.ruleId
      | .unknown | .done => (false, { s with idleSamples := 0 })

/-- The samples of both directions are dropped. -/
def dropSamples (s : AgentActivity) : AgentActivity := { s with idleSamples := 0, workingSamples := 0 }

/-- What a stalled turn becomes. -/
def converge (s : AgentActivity) (next : AgentStatus) (rule : Text) : Bool × AgentActivity :=
  if next = s.status then (false, s)
  else
    (true, dropSamples { s with
      status := next
      source := .screen
      rule := some rule
      inferredDone := decide (next = .done ∨ next = .idle) })

def reconcileStalledTurn (s : AgentActivity) (detection : Option Detection) (stalled : Bool) : Bool × AgentActivity :=
  if s.allowsScreen then (false, s)
  else if !stalled then (false, s.dropSamples)
  else if s.pendingSubmit then (false, dropSamples { s with pendingSubmit := false })
  else
    match detection with
    | none => (false, s.dropSamples)
    | some detection =>
      match detection.status with
      | .idle =>
        let s := { s with workingSamples := 0, idleSamples := saturatingSucc s.idleSamples }
        if s.idleSamples < 2 then (false, s)
        else s.converge (if s.turnObserved then .done else .idle) detection.ruleId
      | .working =>
        let s := { s with idleSamples := 0, workingSamples := saturatingSucc s.workingSamples }
        if s.workingSamples < 2 then (false, s)
        else converge { s with turnObserved := true } .working detection.ruleId
      | .blocked | .done | .unknown => (false, s.dropSamples)

end AgentActivity

/-! ### Runs -/

inductive Action (α : Type) where
  | reset
  | commandFinished
  | beginCommand (agent : Bool)
  | identify (source : AgentStatusSource)
  | submitted (now : ℕ)
  | submittedText (program text : Text) (now : ℕ)
  | inputSent
  | resetScreenSamples
  | hook (event : Event α) (now : ℕ)
  | observe (detection : Option Detection)
  | reconcile (detection : Option Detection) (stalled : Bool)

def AgentActivity.apply (s : AgentActivity) : Action α → AgentActivity
  | .reset => s.reset
  | .commandFinished => s.commandFinished
  | .beginCommand agent => s.beginCommand agent
  | .identify source => s.identify source
  | .submitted now => s.submitted now
  | .submittedText program text now => s.submittedText program text now
  | .inputSent => s.inputSent
  | .resetScreenSamples => s.resetScreenSamples
  | .hook event now => (s.applyHook event now).2
  | .observe detection => (s.observeScreen detection).2
  | .reconcile detection stalled => (s.reconcileStalledTurn detection stalled).2

/-- The state after the actions. -/
def after (actions : List (Action α)) : AgentActivity := History.run AgentActivity.apply {} actions

end Pebrel.Hooks.Activity
