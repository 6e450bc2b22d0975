import Pebrel.Library.Fallible
import Pebrel.Runtime.Hub
import Pebrel.Sync.Payload

/-!
# Orchestration

One request gives a list of steps, which are executed in the order of the list
(`orchestrate.rs`). A step may take the pane of an earlier step as its target. The
launch of an agent is done only when the agent is ready and has its initial prompt:
this is waited for when a later step refers to the launch, or else at the end, for
all agents at once.

## The model

What the user interface answers is arbitrary: `Host` has it as functions of a state
of any type, with the parts of the runtime that are not about steps. The workers
that wait for the agents at the end take their turns as a schedule says, each turn
being one of their actions. The trace of a `World` has what became of the steps so
far. Durations are left out, and a deadline is the time that it leaves.
-/

namespace Pebrel.Runtime.Orchestrate

open Library Fallible List
open Sync (Json)

/-! ### Values and errors -/

/-- A text as a value. -/
def text (s : String) : Json := .string s.toList

def number (n : ℕ) : Json := .int n

/-- An `Option` as a value. -/
def nullable (f : α → Json) (o : Option α) : Json := (o.map f).getD .null

/-- `json!` of an object. -/
def object (members : List (String × Json)) : Json := .object (members.map fun m => (m.1.toList, m.2))

/-- `value.get(key)`. -/
def get? (value : Json) (key : String) : Option Json := value.get? key.toList

/-- `insert` into an object; other values stay as they are. -/
def insertField (key : String) (field : Json) : Json → Json
  | .object members => .object (Assoc.insert key.toList field members)
  | value => value

structure ApiError where
  code : Text
  message : Text
  details : Option Json

def ApiError.new (code message : String) : ApiError := ⟨code.toList, message.toList, none⟩

def ApiError.invalidParams (message : String) : ApiError := .new "invalid_params" message

def invalidReference (step referenced message : Text) : ApiError :=
  ⟨"invalid_reference".toList, message, some (object [("step", .string step), ("referenced_step", .string referenced)])⟩

def invalidRuntimeResponse (message : String) : ApiError := .new "invalid_runtime_response" message

/-! ### Steps -/

inductive OnError where
  | stop
  | continue
  deriving DecidableEq

inductive RuntimeSplitDirection where
  | leftRight
  | topBottom

inductive RuntimeWaitState where
  | idle
  | running
  | waitingInput
  | attention
  | finished
  | failed
  | settled

inductive ReferenceField where
  | paneId

def ReferenceField.asStr : ReferenceField → String
  | .paneId => "pane_id"

inductive PaneTarget where
  | reference (step : Text) (field : ReferenceField)
  | existing (paneId : ℕ) (windowId : Option ℕ)

inductive OrchestrateStep where
  | newTab (id : Text) (windowId : Option ℕ) (cwd : Option Text)
  | focus (id : Text) (target : PaneTarget)
  | split (id : Text) (windowId : Option ℕ) (target : Option PaneTarget) (direction : RuntimeSplitDirection)
  | prompt (id : Text) (target : PaneTarget) (text : Text) (submit : Bool)
  | run (id : Text) (target : PaneTarget) (command : Text) (wait : Bool) (timeoutMs : ℕ) (tailLines : Option ℕ)
  | agentLaunch (id : Text) (target : PaneTarget) (name kind : Text) (resumeSessionId : Option Text) (initialPrompt : Text)
      (readyTimeoutMs : ℕ)
  | wait (id : Text) (target : PaneTarget) (state : RuntimeWaitState) (timeoutMs : ℕ) (tailLines : Option ℕ)

namespace OrchestrateStep

def id : OrchestrateStep → Text
  | newTab id .. | focus id .. | split id .. | prompt id .. | run id .. | agentLaunch id .. | wait id .. => id

def op : OrchestrateStep → String
  | newTab .. => "new_tab"
  | focus .. => "focus"
  | split .. => "split"
  | prompt .. => "prompt"
  | run .. => "run"
  | agentLaunch .. => "agent_launch"
  | wait .. => "wait"

def target : OrchestrateStep → Option PaneTarget
  | focus _ target | prompt _ target .. | run _ target .. | agentLaunch _ target .. | wait _ target .. => some target
  | split _ _ target _ => target
  | newTab .. => none

def referencedStep (step : OrchestrateStep) : Option Text :=
  match step.target with
  | some (.reference step _) => some step
  | some (.existing ..) | none => none

end OrchestrateStep

structure OrchestrateParams where
  steps : List OrchestrateStep
  onError : OnError

/-! ### The runtime -/

/-- The commands that a step makes. -/
inductive RuntimeCommand where
  | newTab (windowId : Option ℕ) (cwd shellId : Option Text)
  | focus (windowId paneId : Option ℕ)
  | split (windowId paneId : Option ℕ) (direction : RuntimeSplitDirection)
  | prompt (windowId : Option ℕ) (paneId : ℕ) (text : Text) (submit : Bool)
  | run (windowId : Option ℕ) (paneId : ℕ) (command : Text) (wait : Bool) (timeoutMs : ℕ)
  | agentStart (windowId : Option ℕ) (paneId : ℕ) (name kind : Text) (sessionId : Option Text) (command : Text)
  | agentPrompt (agent : Text) (generation : ℕ) (text : Text) (submit : Bool)
  | readPane (windowId : Option ℕ) (paneId lines : ℕ)

/-- A launch that waits for its agent; the deadline is given by the time for it. -/
structure PendingAgentLaunch where
  receiptIndex : ℕ
  stepId : Text
  readyTimeoutMs : ℕ
  agentId : Text
  generation : ℕ
  initialPrompt : Text
  action : Json

/-- The runtime that steps are executed with. -/
structure Host (σ : Type) where
  /-- `dispatch_runtime_command`. -/
  dispatch : RuntimeCommand → σ → σ × Except ApiError Json
  /-- `wait_for_pane_state`. -/
  waitForPaneState : Option ℕ → ℕ → RuntimeWaitState → Option ℕ → ℕ → σ → σ × Except ApiError Json
  /-- `wait_agent_ready`, which gives the agent by its id and its generation. -/
  waitAgentReady : Text → ℕ → ℕ → σ → σ × Except ApiError ((Text × ℕ) × RuntimeTaskState)
  /-- Whether a worker that waits for an agent panics. -/
  panics : PendingAgentLaunch → σ → Bool
  /-- `state_change_seq` of a pane of an encoded snapshot. -/
  snapshotSeq : Json → Option ℕ → ℕ → Option ℕ
  /-- `verified_agent_launch`. -/
  verifiedAgentLaunch : Text → Option Text → Except ApiError (Text × Option Text × Text)
  /-- The length of the JSON text of a value. -/
  encodedLength : Json → Except ApiError ℕ
  /-- `parse_params`. -/
  parseParams : Json → Except ApiError OrchestrateParams

variable {σ : Type} (host : Host σ)

/-! ### What is accepted -/

def maxOrchestrateSteps : ℕ := 32

def maxOrchestrateBytes : ℕ := 64 * 1024

def maxPromptBytes : ℕ := 32 * 1024

def maxReadLines : ℕ := 2000

def maxWaitMs : ℕ := 24 * 60 * 60 * 1000

def validatePrompt (text : Text) : Except ApiError Unit :=
  if text = [] then .error (.invalidParams "prompt text must not be empty")
  else if Text.byteLen text > maxPromptBytes then .error (.invalidParams "prompt text exceeds the 32768-byte limit")
  else if text.any Text.isControl then
    .error (.invalidParams "prompt text contains control characters; pane.prompt accepts one plain-text line")
  else .ok ()

def validateCommandLine (command : Text) : Except ApiError Unit :=
  if Text.trim command = [] then .error (.invalidParams "command must not be empty")
  else if Text.byteLen command > maxPromptBytes then .error (.invalidParams "command exceeds the 32768-byte limit")
  else if command.any Text.isControl then
    .error (.invalidParams "command contains control characters; pane.run accepts one plain-text shell line")
  else .ok ()

def validateAgentName (name : Text) : Except ApiError Unit :=
  if Text.trim name = [] ∨ Text.byteLen (Text.trim name) > 64 then
    .error (.invalidParams "agent name must contain between 1 and 64 bytes")
  else if Text.trim name ≠ name ∨ name.any Text.isControl then
    .error (.invalidParams "agent name must not have surrounding whitespace or control characters")
  else .ok ()

def agentStartCommand (windowId : Option ℕ) (paneId : ℕ) (name kind : Text) (resumeSessionId : Option Text) :
    Except ApiError RuntimeCommand := do
  validateAgentName name
  let (kind, sessionId, command) ← host.verifiedAgentLaunch kind resumeSessionId
  return .agentStart windowId paneId name kind sessionId command

def validateStepId (id : Text) : Except ApiError Unit :=
  let valid := !id.isEmpty && decide (Text.byteLen id ≤ 64) && (id.head?.all fun c => decide (c = '_') || c.isAlpha) &&
    id.tail.all fun c => decide (c = '_') || decide (c = '-') || c.isAlphanum
  if valid then .ok ()
  else .error (.invalidParams "step id must be 1-64 ASCII letters, digits, '_' or '-', and start with a letter or '_'")

def validateTailLines (tailLines : Option ℕ) : Except ApiError Unit :=
  match tailLines with
  | some 0 => .error (.invalidParams "tail_lines must be at least 1")
  | some lines => if lines > maxReadLines then .error (.invalidParams "tail_lines must not exceed 2000") else .ok ()
  | none => .ok ()

def validateTimeout (timeoutMs : ℕ) (label : String) : Except ApiError Unit :=
  if timeoutMs = 0 ∨ timeoutMs > maxWaitMs then .error (.invalidParams (label ++ " must be between 1 and 86400000")) else .ok ()

def validateStepContract (step : OrchestrateStep) : Except ApiError Unit :=
  match step with
  | .split _ (some _) (some _) _ =>
    .error (.invalidParams "a split step cannot combine window_id with target; put window_id inside a direct target")
  | .prompt _ _ text _ => validatePrompt text
  | .run _ _ command wait timeoutMs tailLines => do
    validateCommandLine command
    validateTimeout timeoutMs "run timeout_ms"
    if tailLines.isSome ∧ wait = false then
      .error (.invalidParams "tail_lines requires wait: true, because there is no completion moment to read at")
    else validateTailLines tailLines
  | .agentLaunch _ _ name kind resumeSessionId initialPrompt readyTimeoutMs => do
    validatePrompt initialPrompt
    validateTimeout readyTimeoutMs "ready_timeout_ms"
    let _ ← agentStartCommand host none 1 name kind resumeSessionId
    return ()
  | .wait _ _ _ timeoutMs tailLines => do
    validateTimeout timeoutMs "wait timeout_ms"
    validateTailLines tailLines
  | .newTab .. | .focus .. | .split .. => .ok ()

/-- The loop over the steps, with the ids that were seen. -/
def validateSteps (seen : List Text) : List OrchestrateStep → Except ApiError Unit
  | [] => .ok ()
  | step :: rest => do
    validateStepId step.id
    if step.id ∈ seen then
      .error ⟨"invalid_params".toList, "duplicate orchestration step id \"".toList ++ step.id ++ ['\x22'], none⟩
    else match step.referencedStep with
      | some referenced =>
        if referenced ∉ seen then
          .error (invalidReference step.id referenced "references must point to an earlier successful step".toList)
        else do
          validateStepContract host step
          validateSteps (step.id :: seen) rest
      | none => do
        validateStepContract host step
        validateSteps (step.id :: seen) rest

def parseAndValidate (value : Json) : Except ApiError OrchestrateParams := do
  let encoded ← host.encodedLength value
  if encoded > maxOrchestrateBytes then
    .error (.invalidParams "runtime.orchestrate params exceed the 65536-byte limit")
  else
    let params ← host.parseParams value
    if params.steps = [] ∨ params.steps.length > maxOrchestrateSteps then
      .error (.invalidParams "steps must contain between 1 and 32 entries")
    else
      validateSteps host [] params.steps
      return params

/-! ### Accepted steps -/

/-- The ids are distinct, and a reference is to an earlier step. -/
structure WellReferenced (seen : List Text) (steps : List OrchestrateStep) : Prop where
  nodup : (steps.map OrchestrateStep.id).Nodup
  fresh : ∀ step ∈ steps, step.id ∉ seen
  earlier : ∀ done step rest, steps = done ++ step :: rest → ∀ r, step.referencedStep = some r →
    r ∈ seen ∨ r ∈ done.map OrchestrateStep.id

variable {host} {seen : List Text} {step : OrchestrateStep} {rest steps : List OrchestrateStep}

theorem validateSteps_cons (h : validateSteps host seen (step :: rest) = .ok ()) :
    step.id ∉ seen ∧ (∀ r, step.referencedStep = some r → r ∈ seen) ∧ validateSteps host (step.id :: seen) rest = .ok () := by
  rw [validateSteps] at h
  obtain ⟨-, -, h⟩ := bind_eq_ok h
  split at h
  · exact nomatch h
  rename_i hseen
  split at h
  · rename_i referenced heq
    split at h
    · exact nomatch h
    rename_i href
    obtain ⟨-, -, h⟩ := bind_eq_ok h
    refine ⟨hseen, fun r hr => ?_, h⟩
    cases heq.symm.trans hr
    exact not_not.mp href
  · rename_i heq
    obtain ⟨-, -, h⟩ := bind_eq_ok h
    refine ⟨hseen, fun r hr => ?_, h⟩
    rw [heq] at hr
    exact nomatch hr

theorem WellReferenced.of_validateSteps (h : validateSteps host seen steps = .ok ()) : WellReferenced seen steps := by
  induction steps generalizing seen with
  | nil => exact ⟨nodup_nil, by simp, by simp⟩
  | cons step rest ih =>
    obtain ⟨hseen, href, hrest⟩ := validateSteps_cons h
    have ih := ih hrest
    refine ⟨?_, ?_, ?_⟩
    · rw [map_cons, nodup_cons]
      refine ⟨fun hm => ?_, ih.nodup⟩
      obtain ⟨s, hs, hid⟩ := mem_map.mp hm
      exact ih.fresh s hs (by simp [hid])
    · intro s hs
      rcases mem_cons.mp hs with rfl | hs
      · exact hseen
      · exact fun hm => ih.fresh s hs (mem_cons_of_mem _ hm)
    · intro done s tail heq r hr
      cases done with
      | nil =>
        cases heq
        exact .inl (href r hr)
      | cons first done =>
        obtain ⟨rfl, htl⟩ := List.cons.inj heq
        rcases ih.earlier done s tail htl r hr with hm | hm
        · rcases mem_cons.mp hm with rfl | hm
          · exact .inr (by simp)
          · exact .inl hm
        · exact .inr (mem_cons_of_mem _ hm)

theorem WellReferenced.of_parseAndValidate {value : Json} {params : OrchestrateParams} (h : parseAndValidate host value = .ok params) :
    WellReferenced [] params.steps := by
  obtain ⟨encoded, -, h⟩ := bind_eq_ok h
  split at h
  · exact nomatch h
  obtain ⟨parsed, -, h⟩ := bind_eq_ok h
  split at h
  · exact nomatch h
  · obtain ⟨⟨⟩, hss, h⟩ := bind_eq_ok h
    cases h
    exact .of_validateSteps hss

end Pebrel.Runtime.Orchestrate
