import Pebrel.Runtime.Orchestration

/-!
# Steps and launches

What the parts of `execute` can do to the trace. A step is started, with the step
it refers to resolved, or it fails and is not started (`executes_executeStep`). A
launch that is waited for adds the submission of its prompt, and its outcome says
that the prompt was submitted only if it was (`finalizeAgent_acts`,
`finalizeAgents_follows`).
-/

namespace Pebrel.Runtime.Orchestrate

open Library Fallible Library.Assoc List Event Worker
open Sync (Json)

variable {σ α : Type} {host : Host σ}

/-! ### Calls that say nothing of the steps -/

/-- The program leaves the trace as it is. -/
def Quiet (x : Fallible (World σ) ApiError α) : Prop :=
  ∀ t : List Event, Triple (fun w => w.trace = t) x (fun _ w => w.trace = t) fun _ w => w.trace = t

theorem Quiet.pure (a : α) : Quiet (pure a : Fallible (World σ) ApiError α) := fun _ => .pure fun _ => id

theorem Quiet.bind {β : Type} {x : Fallible (World σ) ApiError α} {f : α → Fallible (World σ) ApiError β} (hx : Quiet x)
    (hf : ∀ a, Quiet (f a)) : Quiet (x >>= f) := fun t => (hx t).bind fun a => hf a t

theorem Quiet.attempt {x : Fallible (World σ) ApiError α} (hx : Quiet x) : Quiet (attempt x) := fun t => .attempt (hx t)

theorem quiet_call (f : σ → σ × Except ApiError α) : Quiet (call f) := by
  rintro t w rfl
  simp only [call]
  split
  · rename_i heq
    rw [Prod.mk.injEq] at heq
    rw [← heq.1]
  · rename_i heq
    rw [Prod.mk.injEq] at heq
    rw [← heq.1]

theorem quiet_readPaneTail (windowId : Option ℕ) (paneId lines : ℕ) : Quiet (readPaneTail host windowId paneId lines) := by
  refine .bind ?_ fun _ => .pure _
  refine (quiet_call _).attempt.bind fun result => ?_
  cases result with
  | error => exact .pure _
  | ok => exact .pure _

theorem quiet_attachFailureEvidence (error : ApiError) (lines : ℕ) : Quiet (attachFailureEvidence host error lines) := by
  rw [attachFailureEvidence]
  split
  · exact .pure _
  split
  · exact .pure _
  · split
    · exact .pure _
    · refine (quiet_readPaneTail _ _ _).bind fun tail => ?_
      cases tail with
      | none => exact .pure _
      | some => exact .pure _

/-- What a quiet program does to the trace of the world it is run in. -/
theorem Quiet.trace {x : Fallible (World σ) ApiError α} (hx : Quiet x) (w : World σ) : (x w).1.trace = w.trace := by
  have h := hx w.trace w rfl
  split at h
  · rename_i heq
    rw [heq]
    exact h
  · rename_i heq
    rw [heq]
    exact h

/-! ### One step -/

/-- The event that is the success of a step. -/
def OrchestrateStep.success : OrchestrateStep → Event
  | agentLaunch id .. => submitted id
  | step => completed step.id

/-- What the step refers to is there. -/
def Resolves (step : OrchestrateStep) (actions : Actions) : Prop := ∀ r, step.referencedStep = some r → (actions.get? r).isSome

theorem Resolves.of_resolveTarget {step : OrchestrateStep} {id : Text} {target : PaneTarget} {actions : Actions} {x : Option ℕ × ℕ}
    (h : resolveTarget id target actions = .ok x) (htg : step.target = some target) : Resolves step actions := by
  intro r hr
  simp only [OrchestrateStep.referencedStep, htg] at hr
  cases target with
  | existing => cases hr
  | reference step field =>
    cases hr
    rw [resolveTarget] at h
    split at h
    · cases h
    · rename_i heq
      rw [heq]
      rfl

theorem resolves_of_referencedStep {step : OrchestrateStep} (h : step.referencedStep = none) (actions : Actions) :
    Resolves step actions := by
  intro r hr
  rw [h] at hr
  exact nomatch hr

/-- The step was started, with its reference resolved. -/
def Started (step : OrchestrateStep) (actions : Actions) (t : List Event) (w : World σ) : Prop :=
  w.trace = t ++ [started step.id] ∧ Resolves step actions

/-- The outcome is one of such a step. -/
def Produces (step : OrchestrateStep) : StepOutcome → Prop
  | .complete _ => step.success = completed step.id
  | .agentPending pending => pending.stepId = step.id ∧ step.success = submitted step.id

/-- How a step ends: it is started, unless it fails. -/
def Executes (step : OrchestrateStep) (actions : Actions) (x : Fallible (World σ) ApiError StepOutcome) : Prop :=
  ∀ t : List Event, Triple (fun w => w.trace = t) x (fun outcome w => Produces step outcome ∧ Started step actions t w)
    fun _ w => w.trace = t ∨ Started step actions t w

section Steps

variable {step : OrchestrateStep} {actions : Actions}

/-- A step with a target begins with the resolution of it. -/
theorem Executes.resolve {id : Text} {target : PaneTarget} {f : Option ℕ × ℕ → Fallible (World σ) ApiError StepOutcome}
    (htg : step.target = some target) (hf : ∀ x, Resolves step actions → Executes step actions (f x)) :
    Executes step actions (ofExcept (resolveTarget id target actions) >>= f) := by
  intro t
  refine .bind_and (.ofExcept (fun x w hx hw => ?_) fun _ _ _ hw => .inl hw) fun x hr => hf x hr t
  exact ⟨.of_resolveTarget hx htg, hw⟩

theorem start_triple (command : RuntimeCommand) (hr : Resolves step actions) (t : List Event) :
    Triple (fun w => w.trace = t) (start host step.id command) (fun _ w => Started step actions t w)
      fun _ w => Started step actions t w := by
  refine .bind (Q := fun _ => Started step actions t) (.modify ?_) fun _ => ?_
  · rintro w rfl
    exact ⟨rfl, hr⟩
  · exact (quiet_call _ (t ++ [started step.id])).conseq (fun _ => And.left) (fun _ _ hw => ⟨hw, hr⟩) fun _ _ hw => ⟨hw, hr⟩

theorem Quiet.started {β : Type} {x : Fallible (World σ) ApiError β} (hx : Quiet x) (t : List Event) :
    Triple (Started step actions t) x (fun _ => Started step actions t) fun _ => Started step actions t := by
  intro w hw
  have h := hx w.trace w rfl
  split at h
  · exact ⟨h.trans hw.1, hw.2⟩
  · exact ⟨h.trans hw.1, hw.2⟩

theorem executes_runCommand (step : OrchestrateStep) (command : RuntimeCommand) (tailRequest : Option (Option ℕ × ℕ × ℕ))
    (hr : Resolves step actions) (hsucc : step.success = completed step.id) :
    Executes step actions (runCommand host step.id command tailRequest) := by
  intro t
  rw [runCommand]
  refine .bind (Q := fun _ => Started step actions t) (.attempt (start_triple command hr t)) fun result => ?_
  cases result with
  | error error =>
    cases tailRequest with
    | none => exact .fail fun _ => .inr
    | some request =>
      refine .bind (Q := fun _ => Started step actions t) ?_ fun _ => .fail fun _ => .inr
      exact ((quiet_attachFailureEvidence _ _).started t).error fun _ _ => .inr
  | ok result =>
    cases tailRequest with
    | none => exact .pure fun _ hw => ⟨hsucc, hw⟩
    | some request =>
      refine .bind (Q := fun _ => Started step actions t) ?_ fun tail => .pure fun _ hw => ⟨hsucc, hw⟩
      exact ((quiet_readPaneTail _ _ _).started t).error fun _ _ => .inr

theorem executes_executeStep (step : OrchestrateStep) (actions : Actions) : Executes step actions (executeStep host step actions) := by
  cases step with
  | newTab id windowId cwd =>
    rw [executeStep]
    exact executes_runCommand (.newTab id windowId cwd) _ _ (resolves_of_referencedStep rfl _) rfl
  | focus id target =>
    refine .resolve rfl fun _ hr => ?_
    exact executes_runCommand (.focus id target) _ _ hr rfl
  | split id windowId target direction =>
    cases target with
    | none =>
      rw [executeStep]
      exact executes_runCommand (.split id windowId none direction) _ _ (resolves_of_referencedStep rfl _) rfl
    | some target =>
      refine .resolve rfl fun _ hr => ?_
      exact executes_runCommand (.split id windowId (some target) direction) _ _ hr rfl
  | prompt id target text submit =>
    refine .resolve rfl fun _ hr => ?_
    exact executes_runCommand (.prompt id target text submit) _ _ hr rfl
  | run id target command wait timeoutMs tailLines =>
    refine .resolve rfl fun _ hr => ?_
    exact executes_runCommand (.run id target command wait timeoutMs tailLines) _ _ hr rfl
  | agentLaunch id target name kind resumeSessionId initialPrompt readyTimeoutMs =>
    refine .resolve rfl fun x hr t => ?_
    refine .bind (Q := fun _ w => w.trace = t) (.ofExcept (fun _ _ _ hw => hw) fun _ _ _ => .inl) fun command => ?_
    refine .bind ((start_triple command hr t).error fun _ _ => .inr) fun result => ?_
    dsimp only
    split
    · exact .fail fun _ => .inr
    · exact .fail fun _ => .inr
    · exact .pure fun _ hw => ⟨⟨rfl, rfl⟩, hw⟩
  | wait id target state timeoutMs tailLines =>
    refine .resolve rfl fun x hr t => ?_
    refine .bind (Q := fun _ => Started (.wait id target state timeoutMs tailLines) actions t) (.modify ?_) fun _ => ?_
    · rintro w rfl
      exact ⟨rfl, hr⟩
    refine .bind (Q := fun _ => Started (.wait id target state timeoutMs tailLines) actions t) ?_ fun outcome => ?_
    · exact ((quiet_call _).attempt.started t).error fun _ _ => .inr
    cases outcome with
    | ok action =>
      dsimp only
      split
      · refine .bind (Q := fun _ => Started (.wait id target state timeoutMs tailLines) actions t) ?_
          fun tail => .pure fun _ hw => ⟨rfl, hw⟩
        exact ((quiet_readPaneTail _ _ _).started t).error fun _ _ => .inr
      · exact .pure fun _ hw => ⟨rfl, hw⟩
    | error error =>
      refine .bind (Q := fun _ => Started (.wait id target state timeoutMs tailLines) actions t) ?_ fun _ => .fail fun _ => .inr
      exact ((quiet_attachFailureEvidence _ _).started t).error fun _ _ => .inr

end Steps

/-! ### What comes of a launch -/

/-- All that is added to the trace are prompts that were submitted. -/
def Submits (t t' : List Event) : Prop := ∃ es, t' = t ++ es ∧ ∀ e ∈ es, ∃ id, e = submitted id

theorem Submits.refl (t : List Event) : Submits t t := ⟨[], (append_nil t).symm, by simp⟩

theorem Submits.trans {t t' t'' : List Event} (h : Submits t t') (h' : Submits t' t'') : Submits t t'' := by
  obtain ⟨es, rfl, hes⟩ := h
  obtain ⟨es', rfl, hes'⟩ := h'
  refine ⟨es ++ es', append_assoc t es es', fun e he => ?_⟩
  rcases mem_append.mp he with he | he
  · exact hes e he
  · exact hes' e he

theorem Submits.mem {t t' : List Event} {e : Event} (h : Submits t t') (he : e ∈ t) : e ∈ t' := by
  obtain ⟨es, rfl, -⟩ := h
  exact mem_append_left es he

theorem Submits.of_failed {t t' : List Event} {x : Text} (h : Submits t t') (hx : failed x ∈ t') : failed x ∈ t := by
  obtain ⟨es, rfl, hes⟩ := h
  refine (mem_append.mp hx).resolve_right fun hx => ?_
  obtain ⟨y, hy⟩ := hes _ hx
  exact nomatch hy

/-- The receipt and the step of a launch. -/
def AgentFinalization.launch (f : AgentFinalization) : ℕ × Text := (f.receiptIndex, f.stepId)

/-- The prompt was submitted if this is said. -/
def AgentFinalization.Sound (f : AgentFinalization) (t : List Event) : Prop :=
  ∀ action, f.outcome = .ok action → submitted f.stepId ∈ t

theorem AgentFinalization.Sound.mono {f : AgentFinalization} {t t' : List Event} (h : f.Sound t) (ht : Submits t t') : f.Sound t' :=
  fun action ha => ht.mem (h action ha)

/-- What an action of a thread keeps. -/
structure Follows (x y : World σ × Worker) : Prop where
  submits : Submits x.1.trace y.1.trace
  launch : y.2.finalization.launch = x.2.finalization.launch
  sound : x.2.finalization.Sound x.1.trace → y.2.finalization.Sound y.1.trace

theorem Follows.refl (x : World σ × Worker) : Follows x x := ⟨.refl _, rfl, fun h => h⟩

theorem Follows.trans {x y z : World σ × Worker} (h : Follows x y) (h' : Follows y z) : Follows x z :=
  ⟨h.submits.trans h'.submits, h'.launch.trans h.launch, fun hx => h'.sound (h.sound hx)⟩

/-- An action that adds nothing to the trace, and after which the prompt is not said to be submitted. -/
theorem Follows.of_error {x y : World σ × Worker} (ht : y.1.trace = x.1.trace)
    (hl : y.2.finalization.launch = x.2.finalization.launch) (herr : ∃ e, y.2.finalization.outcome = .error e) : Follows x y := by
  obtain ⟨e, he⟩ := herr
  refine ⟨ht ▸ .refl _, hl, fun _ action ha => ?_⟩
  rw [he] at ha
  exact nomatch ha

theorem follows_act (worker : Worker) (w : World σ) : Follows (w, worker) (worker.act host w) := by
  cases worker with
  | waiting pending =>
    have hq := (quiet_call (host.waitAgentReady pending.agentId pending.generation pending.readyTimeoutMs)).trace w
    rw [act]
    split
    · rename_i heq
      rw [heq] at hq
      exact .of_error hq rfl ⟨_, rfl⟩
    · rename_i heq
      rw [heq] at hq
      exact .of_error hq rfl ⟨_, rfl⟩
  | ready pending agent state =>
    have hq := (quiet_call (host.dispatch (.agentPrompt agent.1 agent.2 pending.initialPrompt true))).trace w
    rw [act]
    split
    · rename_i heq
      rw [heq] at hq
      refine ⟨⟨[submitted pending.stepId], ?_, by simp⟩, rfl, fun _ _ _ => ?_⟩
      · exact congrArg (· ++ [submitted pending.stepId]) hq
      · exact mem_append_right _ (mem_singleton_self _)
    · rename_i heq
      rw [heq] at hq
      exact .of_error hq rfl ⟨_, rfl⟩
  | refused pending error =>
    have hq := (@quiet_attachFailureEvidence _ host error evidenceTailLines).trace w
    rw [act]
    split
    · rename_i heq
      rw [heq] at hq
      exact .of_error hq rfl ⟨_, rfl⟩
    · rename_i heq
      rw [heq] at hq
      exact .of_error hq rfl ⟨_, rfl⟩
  | finished => exact .refl _
  | panicked => exact .refl _

theorem follows_turn (worker : Worker) (w : World σ) : Follows (w, worker) (worker.turn host w) := by
  have hturn (pending : PendingAgentLaunch) (hl : worker.finalization.launch = (Worker.panicked pending).finalization.launch) :
      Follows (w, worker) (if host.panics pending w.host then (w, .panicked pending) else worker.act host w) := by
    split
    · exact .of_error rfl hl.symm ⟨_, rfl⟩
    · exact follows_act worker w
  cases worker with
  | waiting pending => exact hturn pending rfl
  | ready pending agent state => exact hturn pending rfl
  | refused pending error => exact hturn pending rfl
  | finished => exact .refl _
  | panicked => exact .refl _

/-- Actions of a thread one after another. -/
def Acts (host : Host σ) : World σ × Worker → World σ × Worker → Prop := Relation.ReflTransGen fun x y => y = x.2.act host x.1

theorem Acts.follows {x y : World σ × Worker} (h : Acts host x y) : Follows x y := by
  induction h with
  | refl => exact .refl _
  | tail _ ha ih =>
    subst ha
    exact ih.trans (follows_act _ _)

/-- The loop waits for an agent as a thread does. -/
theorem finalizeAgent_acts (pending : PendingAgentLaunch) (w : World σ) :
    Acts host (w, .waiting pending) ((finalizeAgent host pending w).1, .finished (finalizeAgent host pending w).2) := by
  have hr (error : ApiError) (w : World σ) : Acts host (w, .refused pending error)
      ((finalizeAgent.refuse host pending error w).1, .finished (finalizeAgent.refuse host pending error w).2) := by
    refine .single ?_
    simp only [act, finalizeAgent.refuse]
    split <;> rfl
  rw [finalizeAgent]
  split
  · rename_i w' error heq
    refine .head ?_ (hr error w')
    simp only [act, heq]
  rename_i w' agent state heq
  split
  · rename_i w'' error heq'
    refine @Relation.ReflTransGen.head _ _ _ (w', .ready pending agent state) _ ?_ (.head ?_ (hr error w''))
    · simp only [act, heq]
    · simp only [act, heq']
  · rename_i w'' result heq'
    refine @Relation.ReflTransGen.head _ _ _ (w', .ready pending agent state) _ ?_ (.single ?_)
    · simp only [act, heq]
    · simp only [act, heq']

theorem follows_join (worker : Worker) (w : World σ) : Follows (w, worker) ((worker.join host w).1, .finished (worker.join host w).2) := by
  have h1 := @follows_turn _ host worker w
  have h2 := @follows_turn _ host (worker.turn host w).2 (worker.turn host w).1
  have h3 := @follows_turn _ host ((worker.turn host w).2.turn host (worker.turn host w).1).2
    ((worker.turn host w).2.turn host (worker.turn host w).1).1
  have h := (h1.trans h2).trans h3
  exact ⟨h.submits, h.launch, h.sound⟩

theorem takeTurns_follows (schedule : List ℕ) {workers : List Worker} {w : World σ} (hs : ∀ x ∈ workers, x.finalization.Sound w.trace) :
    Submits w.trace (takeTurns host schedule workers w).1.trace ∧
      (takeTurns host schedule workers w).2.map (fun x => x.finalization.launch) = workers.map (fun x => x.finalization.launch) ∧
      ∀ x ∈ (takeTurns host schedule workers w).2, x.finalization.Sound (takeTurns host schedule workers w).1.trace := by
  induction schedule generalizing workers w with
  | nil => exact ⟨.refl _, rfl, hs⟩
  | cons index schedule ih =>
    rw [takeTurns]
    split
    · exact ih hs
    rename_i worker heq
    have hturn := @follows_turn _ host worker w
    have hs' : ∀ x ∈ workers.set index (worker.turn host w).2, x.finalization.Sound (worker.turn host w).1.trace := by
      intro x hx
      rcases mem_or_eq_of_mem_set hx with hx | rfl
      · exact (hs x hx).mono hturn.submits
      · exact hturn.sound (hs worker (mem_of_getElem? heq))
    obtain ⟨hsub, hl, hsou⟩ := ih hs'
    refine ⟨hturn.submits.trans hsub, hl.trans ?_, hsou⟩
    obtain ⟨hix, hw⟩ := List.getElem?_eq_some_iff.mp heq
    rw [map_set, hturn.launch, ← map_set, ← hw, set_getElem_self]

theorem joinAll_follows {workers : List Worker} {w : World σ} (hs : ∀ x ∈ workers, x.finalization.Sound w.trace) :
    Submits w.trace (joinAll host workers w).1.trace ∧
      (joinAll host workers w).2.map AgentFinalization.launch = workers.map (fun x => x.finalization.launch) ∧
      ∀ f ∈ (joinAll host workers w).2, f.Sound (joinAll host workers w).1.trace := by
  induction workers generalizing w with
  | nil => exact ⟨.refl _, rfl, by simp [joinAll]⟩
  | cons worker workers ih =>
    have hjoin := @follows_join _ host worker w
    obtain ⟨hsub, hl, hsou⟩ := ih fun x hx => (hs x (mem_cons_of_mem _ hx)).mono hjoin.submits
    simp only [joinAll]
    refine ⟨hjoin.submits.trans hsub, ?_, ?_⟩
    · rw [map_cons, map_cons, hl, ← hjoin.launch]
      rfl
    · intro f hf
      rcases mem_cons.mp hf with rfl | hf
      · exact (hjoin.sound (hs worker mem_cons_self)).mono hsub
      · exact hsou f hf

theorem finalizeAgents_follows (schedule : List ℕ) (pending : List PendingAgentLaunch) (w : World σ) :
    Submits w.trace (finalizeAgents host schedule pending w).1.trace ∧
      (finalizeAgents host schedule pending w).2.map AgentFinalization.launch = pending.map (fun p => (p.receiptIndex, p.stepId)) ∧
      ∀ f ∈ (finalizeAgents host schedule pending w).2, f.Sound (finalizeAgents host schedule pending w).1.trace := by
  have hw : ∀ x ∈ pending.map Worker.waiting, x.finalization.Sound w.trace := by
    intro x hx action ha
    obtain ⟨p, -, rfl⟩ := mem_map.mp hx
    exact nomatch ha
  obtain ⟨hs, hl, hsou⟩ := @takeTurns_follows _ host schedule _ _ hw
  obtain ⟨hs', hl', hsou'⟩ := @joinAll_follows _ host _ _ hsou
  refine ⟨hs.trans hs', hl'.trans (hl.trans ?_), hsou'⟩
  rw [map_map]
  rfl

end Pebrel.Runtime.Orchestrate
