import Pebrel.Runtime.Orchestrate

/-!
# Executing the steps

The loop of `execute` has a map from the ids of steps to what they returned, which
references are resolved with, the receipts so far, and the launches whose agents are
not ready yet. The receipt of such a launch is made when the agent is started, and
changed when it is known whether the agent had its prompt.
-/

namespace Pebrel.Runtime.Orchestrate

open Library Fallible Library.Assoc
open Sync (Json)
open Text (byteLen)

/-! ### What became of the steps -/

inductive Event where
  /-- The command of the step is made, or its wait begins. -/
  | started (step : Text)
  /-- The step has ended well; of a launch, the initial prompt was submitted. -/
  | completed (step : Text)
  | submitted (step : Text)
  /-- The failure is recorded in the receipt of the step. -/
  | failed (step : Text)
  deriving DecidableEq

structure World (σ : Type) where
  host : σ
  trace : List Event

variable {σ : Type} (host : Host σ)

def World.log (e : Event) (w : World σ) : World σ := { w with trace := w.trace ++ [e] }

/-- A call of the runtime. -/
def call (f : σ → σ × Except ApiError α) : Fallible (World σ) ApiError α := fun w =>
  ({ w with host := (f w.host).1 }, (f w.host).2)

/-! ### Texts of panes -/

/-- The lines above those that are wanted that are read too. -/
def tailScanExtraLines : ℕ := 200

def evidenceTailLines : ℕ := 40

def lastNonEmptyLines (text : Text) (lines : ℕ) : Text :=
  let all := (Text.lines text).rdropWhile fun line => Text.trim line = []
  ['\n'].intercalate (all.drop (all.length - lines))

def readPaneTailText (windowId : Option ℕ) (paneId lines : ℕ) : Fallible (World σ) ApiError (Option (Text × ℕ)) := do
  let requested := min (lines + tailScanExtraLines) maxReadLines
  match ← attempt (call (host.dispatch (.readPane windowId paneId requested))) with
  | .error _ => return none
  | .ok result =>
    let read := (get? result "action").getD result
    return ((get? read "text").bind Json.asStr).map fun text => (lastNonEmptyLines text lines, requested)

def readPaneTail (windowId : Option ℕ) (paneId lines : ℕ) : Fallible (World σ) ApiError (Option Json) := do
  let read ← readPaneTailText host windowId paneId lines
  return read.map fun (tail, scanned) =>
    object [("text", .string tail), ("returned_lines", number (Text.lines tail).length), ("requested_lines", number lines),
      ("scanned_lines", number scanned)]

def attachFailureEvidence (error : ApiError) (lines : ℕ) : Fallible (World σ) ApiError ApiError :=
  match error.details.bind Json.asObject with
  | none => return error
  | some details =>
    if (get? (.object details) "tail").isSome then return error
    else match (get? (.object details) "pane_id").bind Json.asU64 with
      | none => return error
      | some paneId => do
        let windowId := (get? (.object details) "window_id").bind Json.asU64
        match ← readPaneTail host windowId paneId lines with
        | none => return error
        | some tail => return { error with details := some (insertField "tail" tail (.object details)) }

/-! ### One step -/

/-- What the steps that succeeded returned. -/
abbrev Actions := Map Text Json

inductive StepOutcome where
  | complete (action : Json)
  | agentPending (pending : PendingAgentLaunch)

def resolveTarget (stepId : Text) (target : PaneTarget) (actions : Actions) : Except ApiError (Option ℕ × ℕ) :=
  match target with
  | .existing paneId windowId => .ok (windowId, paneId)
  | .reference step field =>
    match actions.get? step with
    | none => .error (invalidReference stepId step "the referenced step did not complete successfully".toList)
    | some action =>
      match (get? action field.asStr).bind Json.asU64 with
      | none => .error (invalidReference stepId step ("the referenced receipt has no integer " ++ field.asStr).toList)
      | some paneId => .ok ((get? action "window_id").bind Json.asU64, paneId)

def targetBaselineSeq (target : PaneTarget) (actions : Actions) : Option ℕ :=
  match target with
  | .existing .. => none
  | .reference step _ => ((actions.get? step).bind fun action => get? action "state_change_seq").bind Json.asU64

def essentialAction (result : Json) : Json :=
  let source := ((get? result "action").or (get? result "run")).getD result
  match get? source "agent" with
  | none => source
  | some agent =>
    object [("window_id", nullable id (get? source "window_id")), ("pane_id", nullable id (get? source "pane_id")),
      ("agent_id", nullable id (get? agent "agent_id")), ("generation", nullable id (get? agent "generation")),
      ("name", nullable id (get? agent "name")), ("kind", nullable id (get? agent "kind")),
      ("session_id", nullable id (get? agent "session_id"))]

def submittedStateSeq (result action : Json) : Option ℕ := do
  let paneId ← (get? action "pane_id").bind Json.asU64
  let windowId := (get? action "window_id").bind Json.asU64
  let snapshot ← get? result "snapshot"
  host.snapshotSeq snapshot windowId paneId

/-- Make the command of a step. -/
def start (step : Text) (command : RuntimeCommand) : Fallible (World σ) ApiError Json := do
  modify (.log (.started step))
  call (host.dispatch command)

/-- The end of `execute_step`, with the command and where a tail is read. -/
def runCommand (step : Text) (command : RuntimeCommand) (tailRequest : Option (Option ℕ × ℕ × ℕ)) :
    Fallible (World σ) ApiError StepOutcome := do
  match ← attempt (start host step command) with
  | .error error =>
    match tailRequest with
    | some (_, _, lines) => do
      let error ← attachFailureEvidence host error lines
      fail error
    | none => fail error
  | .ok result =>
    let action := essentialAction result
    let action := match submittedStateSeq host result action with
      | some seq => insertField "state_change_seq" (number seq) action
      | none => action
    match tailRequest with
    | some (windowId, paneId, lines) => do
      let tail ← readPaneTail host windowId paneId lines
      return .complete (match tail with
        | some tail => insertField "tail" tail action
        | none => action)
    | none => return .complete action

def executeStep (step : OrchestrateStep) (actions : Actions) : Fallible (World σ) ApiError StepOutcome :=
  match step with
  | .agentLaunch id target name kind resumeSessionId initialPrompt readyTimeoutMs => do
    let (windowId, paneId) ← ofExcept (resolveTarget id target actions)
    let command ← ofExcept (agentStartCommand host windowId paneId name kind resumeSessionId)
    let result ← start host id command
    let action := essentialAction result
    match (get? action "agent_id").bind Json.asStr, (get? action "generation").bind Json.asU64 with
    | none, _ => fail (invalidRuntimeResponse "agent.start did not return agent_id")
    | _, none => fail (invalidRuntimeResponse "agent.start did not return generation")
    | some agentId, some generation => return .agentPending ⟨0, id, readyTimeoutMs, agentId, generation, initialPrompt, action⟩
  | .wait id target state timeoutMs tailLines => do
    let (windowId, paneId) ← ofExcept (resolveTarget id target actions)
    let afterSeq := targetBaselineSeq target actions
    modify (.log (.started id))
    let outcome ← attempt (call (host.waitForPaneState windowId paneId state afterSeq timeoutMs))
    let lines := tailLines.getD 0
    match outcome with
    | .ok action =>
      if lines > 0 then do
        let tail ← readPaneTail host windowId paneId lines
        return .complete (match tail with
          | some tail => insertField "tail" tail action
          | none => action)
      else return .complete action
    | .error error => do
      let error ← attachFailureEvidence host error (max lines evidenceTailLines)
      fail error
  | .newTab id windowId cwd => runCommand host id (.newTab windowId cwd none) none
  | .focus id target => do
    let (windowId, paneId) ← ofExcept (resolveTarget id target actions)
    runCommand host id (.focus windowId (some paneId)) none
  | .split id windowId none direction => runCommand host id (.split windowId none direction) none
  | .split id _ (some target) direction => do
    let (windowId, paneId) ← ofExcept (resolveTarget id target actions)
    runCommand host id (.split windowId (some paneId) direction) none
  | .prompt id target text submit => do
    let (windowId, paneId) ← ofExcept (resolveTarget id target actions)
    runCommand host id (.prompt windowId paneId text submit) none
  | .run id target command wait timeoutMs tailLines => do
    let (windowId, paneId) ← ofExcept (resolveTarget id target actions)
    runCommand host id (.run windowId paneId command wait timeoutMs) (tailLines.map fun lines => (windowId, paneId, lines))

/-! ### Agents that become ready -/

structure AgentFinalization where
  receiptIndex : ℕ
  stepId : Text
  outcome : Except ApiError Json

/-- A thread of `finalize_agents`, between two of its actions. -/
inductive Worker where
  | waiting (pending : PendingAgentLaunch)
  /-- The agent is ready for its prompt. -/
  | ready (pending : PendingAgentLaunch) (agent : Text × ℕ) (state : RuntimeTaskState)
  | refused (pending : PendingAgentLaunch) (error : ApiError)
  | finished (finalization : AgentFinalization)
  | panicked (pending : PendingAgentLaunch)

def taskStateText : RuntimeTaskState → String
  | .idle => "idle"
  | .running => "running"
  | .waitingInput => "waiting_input"
  | .attention => "attention"
  | .finished => "finished"
  | .failed => "failed"

/-- What a launch returns when its agent has the prompt. -/
def launchedAction (pending : PendingAgentLaunch) (state : RuntimeTaskState) : Json :=
  insertField "submitted" (.bool true) (insertField "ready_state" (text (taskStateText state)) (.object (pending.action.asObject.getD [])))

/-- One action of `finalize_agent`. -/
def Worker.act (worker : Worker) (w : World σ) : World σ × Worker :=
  match worker with
  | .waiting pending =>
    match call (host.waitAgentReady pending.agentId pending.generation pending.readyTimeoutMs) w with
    | (w, .ok (agent, state)) => (w, .ready pending agent state)
    | (w, .error error) => (w, .refused pending error)
  | .ready pending agent state =>
    match call (host.dispatch (.agentPrompt agent.1 agent.2 pending.initialPrompt true)) w with
    | (w, .ok _) =>
      (w.log (.submitted pending.stepId), .finished ⟨pending.receiptIndex, pending.stepId, .ok (launchedAction pending state)⟩)
    | (w, .error error) => (w, .refused pending error)
  | .refused pending error =>
    match attachFailureEvidence host error evidenceTailLines w with
    | (w, .ok error) | (w, .error error) => (w, .finished ⟨pending.receiptIndex, pending.stepId, .error error⟩)
  | .finished finalization => (w, .finished finalization)
  | .panicked pending => (w, .panicked pending)

/-- `finalize_agent`: the actions one after another. -/
def finalizeAgent (pending : PendingAgentLaunch) (w : World σ) : World σ × AgentFinalization :=
  match call (host.waitAgentReady pending.agentId pending.generation pending.readyTimeoutMs) w with
  | (w, .error error) => refuse error w
  | (w, .ok (agent, state)) =>
    match call (host.dispatch (.agentPrompt agent.1 agent.2 pending.initialPrompt true)) w with
    | (w, .error error) => refuse error w
    | (w, .ok _) => (w.log (.submitted pending.stepId), ⟨pending.receiptIndex, pending.stepId, .ok (launchedAction pending state)⟩)
where
  refuse (error : ApiError) (w : World σ) : World σ × AgentFinalization :=
    match attachFailureEvidence host error evidenceTailLines w with
    | (w, .ok error) | (w, .error error) => (w, ⟨pending.receiptIndex, pending.stepId, .error error⟩)

/-- A thread takes its turn, in which it may panic. -/
def Worker.turn (worker : Worker) (w : World σ) : World σ × Worker :=
  match worker with
  | .waiting pending | .ready pending .. | .refused pending _ =>
    if host.panics pending w.host then (w, .panicked pending) else worker.act host w
  | .finished .. | .panicked _ => (w, worker)

/-- What `join` makes of the end of a thread. -/
def Worker.finalization : Worker → AgentFinalization
  | .finished finalization => finalization
  | .waiting pending | .ready pending .. | .refused pending _ | .panicked pending =>
    ⟨pending.receiptIndex, pending.stepId, .error (.new "orchestration_failed" "agent ready worker panicked")⟩

/-- Wait for the end of a thread: it has no more than three turns. -/
def Worker.join (worker : Worker) (w : World σ) : World σ × AgentFinalization :=
  let (w, worker) := worker.turn host w
  let (w, worker) := worker.turn host w
  let (w, worker) := worker.turn host w
  (w, worker.finalization)

/-- The threads take turns as scheduled. -/
def takeTurns : List ℕ → List Worker → World σ → World σ × List Worker
  | [], workers, w => (w, workers)
  | index :: schedule, workers, w =>
    match workers[index]? with
    | none => takeTurns schedule workers w
    | some worker =>
      let (w, worker) := worker.turn host w
      takeTurns schedule (workers.set index worker) w

def joinAll : List Worker → World σ → World σ × List AgentFinalization
  | [], w => (w, [])
  | worker :: workers, w =>
    let (w, finalization) := worker.join host w
    let (w, finalizations) := joinAll workers w
    (w, finalization :: finalizations)

def finalizeAgents (schedule : List ℕ) (pending : List PendingAgentLaunch) (w : World σ) : World σ × List AgentFinalization :=
  let (w, workers) := takeTurns host schedule (pending.map .waiting) w
  joinAll host workers w

/-! ### All steps -/

structure StepReceipt where
  id : Text
  op : String
  ok : Bool
  action : Option Json
  error : Option ApiError

structure WorkflowReceipt where
  workflowId : Text
  ok : Bool
  /-- The field `partial`. -/
  isPartial : Bool
  completed : ℕ
  failedStep : Option Text
  steps : List StepReceipt

/-- The variables of the loop. -/
structure Progress where
  actions : Actions
  receipts : List StepReceipt
  pendingAgents : List PendingAgentLaunch

def applyAgentFinalization (finalization : AgentFinalization) (receipts : List StepReceipt) (actions : Actions) :
    List StepReceipt × Actions :=
  match receipts[finalization.receiptIndex]? with
  | none => (receipts, actions)
  | some receipt =>
    match finalization.outcome with
    | .ok action =>
      (receipts.set finalization.receiptIndex { receipt with action := some action }, actions.insert finalization.stepId action)
    | .error error =>
      (receipts.set finalization.receiptIndex { receipt with ok := false, error := some error },
        actions.filterKeys (· ≠ finalization.stepId))

/-- `apply_agent_finalization` on the variables of the loop. -/
def Progress.finalize (finalization : AgentFinalization) (p : Progress) : Progress :=
  { p with
    receipts := (applyAgentFinalization finalization p.receipts p.actions).1
    actions := (applyAgentFinalization finalization p.receipts p.actions).2 }

/-- Note a failure that was recorded. -/
def World.logOutcome (finalization : AgentFinalization) (w : World σ) : World σ :=
  match finalization.outcome with
  | .ok _ => w
  | .error _ => w.log (.failed finalization.stepId)

/-- If the step refers to a launch that is pending, it is waited for; whether it failed. -/
def awaitReference (step : OrchestrateStep) (p : Progress) (w : World σ) : World σ × Progress × Bool :=
  match step.referencedStep.bind fun referenced => p.pendingAgents.findIdx? fun pending => decide (pending.stepId = referenced) with
  | none => (w, p, false)
  | some index =>
    match p.pendingAgents[index]? with
    | none => (w, p, false)
    | some pending =>
      let (w, finalization) := finalizeAgent host pending w
      (w.logOutcome finalization, { p.finalize finalization with pendingAgents := p.pendingAgents.eraseIdx index },
        match finalization.outcome with
        | .ok _ => false
        | .error _ => true)

/-- The loop of `execute`. -/
def runSteps (onError : OnError) : List OrchestrateStep → Progress → World σ → World σ × Progress
  | [], p, w => (w, p)
  | step :: rest, p, w =>
    let (w, p, dependencyFailed) := awaitReference host step p w
    if dependencyFailed = true ∧ onError = .stop then (w, p)
    else
      match executeStep host step p.actions w with
      | (w, .ok (.complete action)) =>
        runSteps onError rest
          { p with actions := p.actions.insert step.id action, receipts := p.receipts ++ [⟨step.id, step.op, true, some action, none⟩] }
          (w.log (.completed step.id))
      | (w, .ok (.agentPending pending)) =>
        runSteps onError rest
          { p with
            receipts := p.receipts ++ [⟨step.id, step.op, true, some pending.action, none⟩]
            pendingAgents := p.pendingAgents ++ [{ pending with receiptIndex := p.receipts.length }] } w
      | (w, .error error) =>
        let p := { p with receipts := p.receipts ++ [⟨step.id, step.op, false, none, some error⟩] }
        let w := w.log (.failed step.id)
        if onError = .stop then (w, p) else runSteps onError rest p w

/-- The loop over what came of the agents. -/
def applyFinalizations (finalizations : List AgentFinalization) (p : Progress) (w : World σ) : World σ × Progress :=
  finalizations.foldl (fun (w, p) finalization => (w.logOutcome finalization, p.finalize finalization)) (w, p)

/-! ### The budget of the tails -/

def maxReceiptTailBytes : ℕ := 4 * 1024

def StepReceipt.tailSlot (receipt : StepReceipt) : Option Json :=
  (receipt.action.bind fun action => get? action "tail").or
    ((receipt.error.bind ApiError.details).bind fun details => get? details "tail")

def tailTextLen : Json → Option ℕ
  | .string text => some (byteLen text)
  | .object members => ((get? (.object members) "text").bind Json.asStr).map byteLen
  | _ => none

/-- `keep_trailing_bytes`: no character is cut. -/
def keepTrailingBytes (budget : ℕ) : Text → Text
  | [] => []
  | c :: text => if byteLen (c :: text) ≤ budget then c :: text else keepTrailingBytes budget text

def truncateTail (budget : ℕ) : Json → Json
  | .string original =>
    let kept := keepTrailingBytes budget original
    if byteLen kept < byteLen original then
      .string ("[truncated to last ".toList ++ Nat.toDigits 10 (byteLen kept) ++ " of ".toList ++
        Nat.toDigits 10 (byteLen original) ++ " bytes]\n".toList ++ kept)
    else .string kept
  | .object members =>
    match get? (.object members) "text" with
    | some (.string original) =>
      let kept := keepTrailingBytes budget original
      let tail := insertField "text" (.string kept) (.object members)
      if byteLen kept < byteLen original then
        insertField "returned_bytes" (number (byteLen kept)) (insertField "original_bytes" (number (byteLen original))
          (insertField "truncated" (.bool true) tail))
      else tail
    | _ => .object members
  | value => value

/-- What `tail_slot_mut` gives is changed. -/
def StepReceipt.modifyTail (f : Json → Json) (receipt : StepReceipt) : StepReceipt :=
  match receipt.action.bind fun action => get? action "tail" with
  | some tail => { receipt with action := receipt.action.map (insertField "tail" (f tail)) }
  | none =>
    { receipt with error := receipt.error.map fun error =>
        { error with details := error.details.map fun details =>
            match get? details "tail" with
            | some tail => insertField "tail" (f tail) details
            | none => details } }

def enforceTailBudget (receipts : List StepReceipt) (budget : ℕ) : List StepReceipt :=
  let slots := receipts.filterMap fun receipt => receipt.tailSlot.bind tailTextLen
  if slots = [] ∨ slots.sum ≤ budget then receipts
  else
    receipts.map fun receipt =>
      if (receipt.tailSlot.bind tailTextLen).isSome then receipt.modifyTail (truncateTail (max (budget / slots.length) 1)) else receipt

/-- The end of `execute`. -/
def workflowReceipt (workflowId : Text) (receipts : List StepReceipt) : WorkflowReceipt :=
  let completed := (receipts.filter StepReceipt.ok).length
  let failedStep := (receipts.find? fun receipt => !receipt.ok).map StepReceipt.id
  let ok := failedStep.isNone
  { workflowId, ok, completed, failedStep, isPartial := !ok && decide (completed > 0),
    steps := enforceTailBudget receipts maxReceiptTailBytes }

def execute (params : OrchestrateParams) (workflowId : Text) (schedule : List ℕ) (w : World σ) : World σ × WorkflowReceipt :=
  let (w, p) := runSteps host params.onError params.steps ⟨.empty, [], []⟩ w
  let (w, finalized) := finalizeAgents host schedule p.pendingAgents w
  let (w, p) := applyFinalizations finalized p w
  (w, workflowReceipt workflowId p.receipts)

end Pebrel.Runtime.Orchestrate
