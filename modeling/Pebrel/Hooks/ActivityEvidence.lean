import Pebrel.Hooks.Activity

/-!
# Completion that is inferred from the screen

A pane becomes idle or done by what its screen shows only at the second of two
observations of a waiting agent, between which nothing happened that bears on it
(`screen_completion`). Done is for a turn that was observed after the session started.

An observation bears on it if it is the one that is looked at: a screen where there are
no full hooks, and a stalled turn where there are. One that is not looked at
may come in between whatever it shows. And a session that is compacted reports a start,
which is no start of a session.
-/

namespace Pebrel.Hooks.Activity

open Library History Nat Bool AgentActivity

variable {α : Type}

/-! ### Evidence -/

/-- A waiting agent is observed, where it is looked at. -/
def IdleObservation (s : AgentActivity) : Action α → Prop
  | .observe (some detection) => detection.status = .idle ∧ s.allowsScreen = true ∧ s.pendingSubmit = false
  | .reconcile (some detection) true => detection.status = .idle ∧ s.allowsScreen = false ∧ s.pendingSubmit = false
  | _ => False

/-- Nothing bears on the evidence: the program gets a name, a hook is not accepted, an observation is not looked at. -/
def Undisturbed (s : AgentActivity) (a : Action α) : Prop :=
  s.pendingSubmit = false ∧
    match a with
    | .identify _ => True
    | .hook event _ => s.acceptsHook event = false
    | .observe _ => s.allowsScreen = false
    | .reconcile _ _ => s.allowsScreen = true
    | _ => False

/-- A turn is seen to run. -/
def ObservesTurn (s : AgentActivity) : Action α → Prop
  | .submitted _ => True
  | .submittedText program text _ => isPlan program text = false
  | .hook event _ => s.acceptsHook event = true ∧
      (event.kind = .promptSubmit ∨ event.kind = .toolComplete ∨ event.kind = .turnDone ∧ 0 < event.activeBackgroundTasks)
  | .observe (some detection) => detection.status = .working ∧ s.allowsScreen = true ∧ s.coverage ≠ .turns ∧ s.screenArmed = true
  | .reconcile (some detection) true =>
      detection.status = .working ∧ s.allowsScreen = false ∧ s.pendingSubmit = false ∧ 1 ≤ s.workingSamples
  | _ => False

/-- A session or a command starts or ends. -/
def StartsSession (s : AgentActivity) : Action α → Prop
  | .reset | .commandFinished | .beginCommand _ => True
  | .hook event _ => s.acceptsHook event = true ∧ (event.kind = .sessionStart ∧ event.sessionCompacted = false ∨ event.kind = .sessionEnd)
  | _ => False

/-- The screen makes the pane idle or done. -/
def ScreenCompletes (s : AgentActivity) (a : Action α) : Prop :=
  (∃ detection, a = .observe detection ∨ ∃ stalled, a = .reconcile detection stalled) ∧
    (s.apply a).status ≠ s.status ∧ ((s.apply a).status = .done ∨ (s.apply a).status = .idle)

/-! ### Hooks -/

namespace AgentActivity

variable {s : AgentActivity} {event : Event α} {now : ℕ}

theorem applyHook_rejected (h : s.acceptsHook event = false) : s.applyHook event now = (false, s) := by
  simp [applyHook, h]

theorem applyHook_sessionEnd (h : s.acceptsHook event = true) (hk : event.kind = .sessionEnd) :
    s.applyHook event now = (true, { ({} : AgentActivity) with commandEnded := true }) := by
  simp only [applyHook, h, Bool.not_true, false_eq_true, ↓reduceIte, hk, commandFinished, reset]

theorem recordOwner_turnObserved (s : AgentActivity) (event : Event α) : (s.recordOwner event).turnObserved = s.turnObserved := by
  rw [recordOwner]
  cases s.owner <;> rfl

theorem settle_idleSamples (s : AgentActivity) (event : Event α) : (s.settle event).idleSamples = s.idleSamples := by
  rw [settle]
  cases event.kind <;> simp only
  · split <;> rfl
  · split <;> rfl

/-- An accepted hook ends what the screen has shown so far. -/
theorem applyHook_idleSamples (h : s.acceptsHook event = true) : (s.applyHook event now).2.idleSamples = 0 := by
  by_cases hk : event.kind = .sessionEnd
  · rw [applyHook_sessionEnd h hk]
  · simp only [applyHook, h, Bool.not_true, false_eq_true, ↓reduceIte, hk, settle_idleSamples]
    split <;> rfl

theorem settle_turnObserved (h : (s.settle event).turnObserved = true) (he : event.kind ≠ .sessionEnd) :
    (event.kind = .promptSubmit ∨ event.kind = .toolComplete ∨ event.kind = .turnDone ∧ 0 < event.activeBackgroundTasks) ∨
      ¬ (event.kind = .sessionStart ∧ event.sessionCompacted = false) ∧ s.turnObserved = true := by
  rw [settle] at h
  cases hk : event.kind with
  | sessionStart =>
    simp only [hk] at h
    by_cases hc : event.sessionCompacted = true
    · rw [if_pos hc] at h
      exact .inr ⟨by simp [hc], h⟩
    · rw [if_neg hc] at h
      cases h
  | promptSubmit => exact .inl (.inl rfl)
  | toolComplete => exact .inl (.inr (.inl rfl))
  | turnDone =>
    simp only [hk] at h
    by_cases ht : 0 < event.activeBackgroundTasks
    · exact .inl (.inr (.inr ⟨rfl, ht⟩))
    · rw [if_neg ht] at h
      exact .inr ⟨by simp, h⟩
  | needsAttention =>
    simp only [hk] at h
    exact .inr ⟨by simp, h⟩
  | sessionEnd => exact absurd hk he

theorem applyHook_turnObserved (h : s.acceptsHook event = true) (hturn : (s.applyHook event now).2.turnObserved = true) :
    ObservesTurn s (.hook event now) ∨ ¬ StartsSession s (.hook event now) ∧ s.turnObserved = true := by
  by_cases hk : event.kind = .sessionEnd
  · rw [applyHook_sessionEnd h hk] at hturn
    cases hturn
  simp only [applyHook, h, Bool.not_true, false_eq_true, ↓reduceIte, hk] at hturn
  refine (settle_turnObserved hturn hk).imp (fun ho => ⟨h, ho⟩) fun hkept => ⟨?_, ?_⟩
  · rintro ⟨-, hst | he⟩
    · exact hkept.1 hst
    · exact hk he
  have hb := hkept.2
  split at hb
  · exact (recordOwner_turnObserved s event).symm.trans hb
  · exact (recordOwner_turnObserved s event).symm.trans hb

/-! ### Screens -/

variable {detection : Option Detection} {rule : Text} {next status : AgentStatus}

@[simp] theorem adopt_idleSamples (s : AgentActivity) (next : AgentStatus) (rule : Text) :
    (s.adopt next rule).2.idleSamples = s.idleSamples := by
  rw [adopt]
  split <;> rfl

@[simp] theorem adopt_turnObserved (s : AgentActivity) (next : AgentStatus) (rule : Text) :
    (s.adopt next rule).2.turnObserved = s.turnObserved := by
  rw [adopt]
  split <;> rfl

@[simp] theorem adopt_status (s : AgentActivity) (next : AgentStatus) (rule : Text) : (s.adopt next rule).2.status = next := by
  rw [adopt]
  split
  · rename_i h
    exact h.symm
  · rfl

@[simp] theorem converge_turnObserved (s : AgentActivity) (next : AgentStatus) (rule : Text) :
    (s.converge next rule).2.turnObserved = s.turnObserved := by
  rw [converge]
  split <;> rfl

@[simp] theorem converge_status (s : AgentActivity) (next : AgentStatus) (rule : Text) : (s.converge next rule).2.status = next := by
  rw [converge]
  split
  · rename_i h
    exact h.symm
  · rfl

/-- A second sample needs a first one. -/
theorem one_le_of_saturatingSucc {n : ℕ} (h : ¬ saturatingSucc n < 2) : 1 ≤ n := by
  rw [saturatingSucc] at h
  omega

/-- A screen that no rule knows. -/
theorem observeUnmatched_spec (s : AgentActivity) :
    s.observeUnmatched.2.idleSamples = 0 ∧ s.observeUnmatched.2.turnObserved = s.turnObserved ∧
    (s.observeUnmatched.2.status = s.status ∨ s.observeUnmatched.2.status = .working ∨ s.observeUnmatched.2.status = .unknown) := by
  simp only [observeUnmatched]
  split
  · exact ⟨rfl, rfl, .inl rfl⟩
  split
  · exact ⟨rfl, rfl, .inl rfl⟩
  · cases s.screenBlockedFallback with
    | none => exact ⟨rfl, rfl, .inr (.inr rfl)⟩
    | some fallback => exact ⟨rfl, rfl, .inr (.inl rfl)⟩

/-- A screen of a waiting agent. -/
theorem observeIdle_spec (s : AgentActivity) (rule : Text) : (s.pendingSubmit = true → (s.observeIdle rule).2.idleSamples = 0) ∧
    (s.observeIdle rule).2.turnObserved = s.turnObserved ∧
    ((s.observeIdle rule).2.status = s.status ∨
      s.pendingSubmit = false ∧ 1 ≤ s.idleSamples ∧ (s.observeIdle rule).2.status = if s.turnObserved then .done else .idle) := by
  simp only [observeIdle]
  by_cases hpd : s.pendingSubmit = true
  · simp [hpd]
  rw [if_neg hpd]
  refine ⟨fun h => absurd h hpd, ?_⟩
  by_cases hf : saturatingSucc s.idleSamples < 2
  · rw [if_pos hf]
    exact ⟨rfl, .inl rfl⟩
  rw [if_neg hf]
  split
  · exact ⟨rfl, .inl rfl⟩
  · exact ⟨adopt_turnObserved _ _ _, .inr ⟨eq_false_of_not_eq_true hpd, one_le_of_saturatingSucc hf, adopt_status _ _ _⟩⟩

/-- A screen of an agent that works or asks. -/
theorem observeActive_spec (s : AgentActivity) (status : AgentStatus) (rule : Text) : (s.observeActive status rule).2.idleSamples = 0 ∧
    ((s.observeActive status rule).2.turnObserved = true →
      s.turnObserved = true ∨ status = .working ∧ s.coverage ≠ .turns ∧ s.screenArmed = true) ∧
    ((s.observeActive status rule).2.status = s.status ∨ (s.observeActive status rule).2.status = status) := by
  simp only [observeActive]
  split
  · exact ⟨rfl, .inl, .inl rfl⟩
  rename_i ht
  by_cases ha : s.screenArmed = true
  · simp only [ha, Bool.not_true, false_eq_true, ↓reduceIte]
    refine ⟨adopt_idleSamples _ _ _, fun h => ?_, .inr (adopt_status _ _ _)⟩
    rw [adopt_turnObserved] at h
    simp only [or_eq_true, decide_eq_true_eq] at h
    refine h.imp_right fun hw => ⟨hw, fun hc => ht ⟨hc, .inl ?_⟩, trivial⟩
    simp [hw]
  · simp only [eq_false_of_not_eq_true ha, Bool.not_false, ↓reduceIte]
    exact ⟨trivial, .inl, .inl trivial⟩

/-- What an observation can do: samples are of a waiting agent, a turn was observed or is, and it completes only after a first sample. -/
structure Observed (s : AgentActivity) (a : Action α) (s' : AgentActivity) : Prop where
  samples : 1 ≤ s'.idleSamples → IdleObservation s a
  turn : s'.turnObserved = true → s.turnObserved = true ∨ ObservesTurn s a
  status : s'.status = s.status ∨ s'.status ≠ .done ∧ s'.status ≠ .idle ∨
    IdleObservation s a ∧ 1 ≤ s.idleSamples ∧ s'.status = if s.turnObserved then .done else .idle

/-- Samples may be dropped. -/
theorem Observed.dropped {s' : AgentActivity} {a : Action α} (hidle : s'.idleSamples = 0)
    (hturn : s'.turnObserved = true → s.turnObserved = true ∨ ObservesTurn s a)
    (hst : s'.status = s.status ∨ s'.status ≠ .done ∧ s'.status ≠ .idle) : Observed s a s' :=
  ⟨fun h => absurd h (hidle ▸ not_succ_le_zero 0), hturn, hst.imp_right .inl⟩

theorem observeScreen_spec (hal : s.allowsScreen = true) (detection : Option Detection) :
    Observed s (.observe detection : Action α) (s.observeScreen detection).2 := by
  simp only [observeScreen, hal, Bool.not_true, false_eq_true, ↓reduceIte]
  rcases detection with - | ⟨seen, rule⟩
  · obtain ⟨hidle, hturn, hst⟩ := observeUnmatched_spec s
    refine .dropped hidle (fun h => .inl (hturn ▸ h)) (hst.imp_right fun h => ?_)
    rcases h with h | h <;> simp [h]
  · cases seen with
    | idle =>
      obtain ⟨hidle, hturn, hst⟩ := observeIdle_spec { s with unmatchedSamples := 0 } rule
      refine ⟨fun h => ⟨rfl, hal, ?_⟩, fun h => .inl (hturn ▸ h), hst.imp_right fun h => .inr ⟨⟨rfl, hal, h.1⟩, h.2⟩⟩
      by_contra hpd
      rw [hidle (eq_true_of_not_eq_false hpd)] at h
      exact not_succ_le_zero 0 h
    | working =>
      obtain ⟨hidle, hturn, hst⟩ := observeActive_spec { s with unmatchedSamples := 0 } .working rule
      exact .dropped hidle (fun h => (hturn h).imp_right fun h => ⟨rfl, hal, h.2⟩) (hst.imp_right fun h => by simp [h])
    | blocked =>
      obtain ⟨hidle, hturn, hst⟩ := observeActive_spec { s with unmatchedSamples := 0 } .blocked rule
      exact .dropped hidle (fun h => (hturn h).imp_right fun h => absurd h.1 (by simp)) (hst.imp_right fun h => by simp [h])
    | done => exact .dropped rfl .inl (.inl rfl)
    | unknown => exact .dropped rfl .inl (.inl rfl)

theorem observeScreen_closed (hal : s.allowsScreen = false) (detection : Option Detection) : s.observeScreen detection = (false, s) := by
  simp [observeScreen, hal]

/-! ### Stalled turns -/

theorem reconcile_closed (hal : s.allowsScreen = true) (detection : Option Detection) (stalled : Bool) :
    s.reconcileStalledTurn detection stalled = (false, s) := by
  simp [reconcileStalledTurn, hal]

theorem reconcile_not_stalled (hal : s.allowsScreen = false) (detection : Option Detection) :
    s.reconcileStalledTurn detection false = (false, s.dropSamples) := by
  simp [reconcileStalledTurn, hal]

theorem reconcile_spec (hal : s.allowsScreen = false) (detection : Option Detection) (stalled : Bool) :
    Observed s (.reconcile detection stalled : Action α) (s.reconcileStalledTurn detection stalled).2 := by
  cases stalled with
  | false =>
    rw [reconcile_not_stalled hal]
    exact .dropped rfl .inl (.inl rfl)
  | true =>
    simp only [reconcileStalledTurn, hal, Bool.not_true, false_eq_true, ↓reduceIte]
    by_cases hpd : s.pendingSubmit = true
    · simp only [hpd, ↓reduceIte]
      exact .dropped rfl .inl (.inl rfl)
    have hf := eq_false_of_not_eq_true hpd
    simp only [hf, false_eq_true, ↓reduceIte]
    rcases detection with - | ⟨seen, rule⟩
    · exact .dropped rfl .inl (.inl rfl)
    cases seen with
    | idle =>
      by_cases hfst : saturatingSucc s.idleSamples < 2
      · simp only [hfst, ↓reduceIte]
        exact ⟨fun _ => ⟨rfl, hal, hf⟩, .inl, .inl rfl⟩
      simp only [hfst, ↓reduceIte]
      refine ⟨fun _ => ⟨rfl, hal, hf⟩, fun h => .inl ?_, .inr (.inr ⟨⟨rfl, hal, hf⟩, one_le_of_saturatingSucc hfst, ?_⟩)⟩
      · rw [converge_turnObserved] at h
        exact h
      · exact converge_status _ _ _
    | working =>
      by_cases hfst : saturatingSucc s.workingSamples < 2
      · simp only [hfst, ↓reduceIte]
        exact .dropped rfl .inl (.inl rfl)
      simp only [hfst, ↓reduceIte]
      refine .dropped ?_ (fun _ => .inr ⟨rfl, hal, hf, one_le_of_saturatingSucc hfst⟩) (.inr (by simp))
      rw [converge]
      split <;> rfl
    | _ => exact .dropped rfl .inl (.inl rfl)

end AgentActivity

/-! ### Steps -/

variable {s : AgentActivity} {a : Action α}

/-- Samples and no submission. -/
def Sampled (s : AgentActivity) : Prop := 1 ≤ s.idleSamples ∧ s.pendingSubmit = false

theorem not_sampled_of_zero {s : AgentActivity} (h : s.idleSamples = 0) : ¬ Sampled s := by
  rintro ⟨hs, -⟩
  omega

/-- **Samples come from an observation of a waiting agent, and are kept only where nothing bears on them.** -/
theorem sampled_step (s : AgentActivity) (a : Action α) (h : Sampled (s.apply a)) : IdleObservation s a ∨ Undisturbed s a ∧ Sampled s := by
  cases a with
  | reset => exact absurd h (not_sampled_of_zero rfl)
  | commandFinished => exact absurd h (not_sampled_of_zero rfl)
  | beginCommand agent => cases agent <;> exact absurd h (not_sampled_of_zero rfl)
  | identify source =>
    have hsm : Sampled s := by
      simp only [apply, AgentActivity.identify] at h
      split at h <;> exact h
    exact .inr ⟨⟨hsm.2, trivial⟩, hsm⟩
  | submitted now => exact absurd h (not_sampled_of_zero rfl)
  | submittedText program text now =>
    refine absurd h (not_sampled_of_zero ?_)
    simp only [apply, AgentActivity.submittedText]
    split <;> rfl
  | inputSent => exact absurd h (not_sampled_of_zero rfl)
  | resetScreenSamples => exact absurd h (not_sampled_of_zero rfl)
  | hook event now =>
    by_cases ha : s.acceptsHook event = true
    · exact absurd h (not_sampled_of_zero (AgentActivity.applyHook_idleSamples ha))
    · have hr := eq_false_of_not_eq_true ha
      rw [apply, AgentActivity.applyHook_rejected hr] at h
      exact .inr ⟨⟨h.2, hr⟩, h⟩
  | observe detection =>
    by_cases hal : s.allowsScreen = true
    · exact .inl ((AgentActivity.observeScreen_spec hal detection).samples h.1)
    · have hcl := eq_false_of_not_eq_true hal
      rw [apply, AgentActivity.observeScreen_closed hcl] at h
      exact .inr ⟨⟨h.2, hcl⟩, h⟩
  | reconcile detection stalled =>
    by_cases hal : s.allowsScreen = true
    · rw [apply, AgentActivity.reconcile_closed hal] at h
      exact .inr ⟨⟨h.2, hal⟩, h⟩
    · exact .inl ((AgentActivity.reconcile_spec (eq_false_of_not_eq_true hal) detection stalled).samples h.1)

/-- **A turn counts as observed only if it was, and no session has started since.** -/
theorem turnObserved_step (s : AgentActivity) (a : Action α) (h : (s.apply a).turnObserved = true) :
    ObservesTurn s a ∨ ¬ StartsSession s a ∧ s.turnObserved = true := by
  cases a with
  | reset => cases h
  | commandFinished => cases h
  | beginCommand agent => cases agent <;> cases h
  | identify source =>
    refine .inr ⟨id, ?_⟩
    simp only [apply, AgentActivity.identify] at h
    split at h <;> exact h
  | submitted now => exact .inl trivial
  | submittedText program text now =>
    simp only [apply, AgentActivity.submittedText] at h
    by_cases hp : isPlan program text = true
    · rw [if_pos hp] at h
      exact .inr ⟨id, h⟩
    · exact .inl (eq_false_of_not_eq_true hp)
  | inputSent => exact .inr ⟨id, h⟩
  | resetScreenSamples => exact .inr ⟨id, h⟩
  | hook event now =>
    by_cases ha : s.acceptsHook event = true
    · exact AgentActivity.applyHook_turnObserved ha h
    · have hr := eq_false_of_not_eq_true ha
      rw [apply, AgentActivity.applyHook_rejected hr] at h
      exact .inr ⟨fun hst => ha hst.1, h⟩
  | observe detection =>
    by_cases hal : s.allowsScreen = true
    · exact ((AgentActivity.observeScreen_spec hal detection).turn h).symm.imp_right fun hturn => ⟨id, hturn⟩
    · rw [apply, AgentActivity.observeScreen_closed (eq_false_of_not_eq_true hal)] at h
      exact .inr ⟨id, h⟩
  | reconcile detection stalled =>
    by_cases hal : s.allowsScreen = true
    · rw [apply, AgentActivity.reconcile_closed hal] at h
      exact .inr ⟨id, h⟩
    · have hspec := AgentActivity.reconcile_spec (α := α) (eq_false_of_not_eq_true hal) detection stalled
      exact (hspec.turn h).symm.imp_right fun hturn => ⟨id, hturn⟩

/-- **What the screen completes it has shown before.** -/
theorem completes_step (h : ScreenCompletes s a) : IdleObservation s a ∧ 1 ≤ s.idleSamples ∧
    (s.apply a).status = if s.turnObserved then .done else .idle := by
  obtain ⟨ho, hc, hcmp⟩ := h
  have hspec (hobse : AgentActivity.Observed s a (s.apply a)) : IdleObservation s a ∧ 1 ≤ s.idleSamples ∧
      (s.apply a).status = if s.turnObserved then .done else .idle := by
    rcases hobse.status with hsm | ⟨hd, hidle⟩ | hspec
    · exact absurd hsm hc
    · exact (hcmp.elim hd hidle).elim
    · exact hspec
  obtain ⟨detection, rfl | ⟨stalled, rfl⟩⟩ := ho
  · by_cases hal : s.allowsScreen = true
    · exact hspec (AgentActivity.observeScreen_spec hal detection)
    · refine absurd ?_ hc
      rw [apply, AgentActivity.observeScreen_closed (eq_false_of_not_eq_true hal)]
  · by_cases hal : s.allowsScreen = true
    · refine absurd ?_ hc
      rw [apply, AgentActivity.reconcile_closed hal]
    · exact hspec (AgentActivity.reconcile_spec (eq_false_of_not_eq_true hal) detection stalled)

/-- No submission is pending at an observation that counts. -/
theorem IdleObservation.pendingSubmit (h : IdleObservation s a) : s.pendingSubmit = false := by
  rcases a with _ | _ | _ | _ | _ | _ | _ | _ | _ | ⟨_ | detection⟩ | ⟨_ | detection, _ | _⟩
  all_goals first | exact h.2.2 | exact h.elim

/-! ### Runs -/

/-- **The screen makes a pane idle or done at the second of two observations, and done only for a turn that was
observed.** -/
theorem screen_completion (before : List (Action α)) (a : Action α) :
    (ScreenCompletes (after before) a →
      IdleObservation (after before) a ∧ Since apply IdleObservation Undisturbed {} before ∧
      ((after before).apply a).status = (if (after before).turnObserved then .done else .idle) ∧
      (((after before).apply a).status = .done →
        Since apply ObservesTurn (fun s b => ¬ StartsSession s b) {} before)) ∧
    ((after before).coverage = .lifecycle → ∀ detection,
      (after before).observeScreen detection = (false, after before) ∧
      (after before).reconcileStalledTurn detection false = (false, (after before).dropSamples)) := by
  refine ⟨fun h => ?_, fun hcov detection => ?_⟩
  · obtain ⟨hidle, hsam, hst⟩ := completes_step h
    refine ⟨hidle, ?_, hst, fun hd => ?_⟩
    · exact since_of_step (fun hsta => not_succ_le_zero 0 hsta.1) sampled_step ⟨hsam, hidle.pendingSubmit⟩
    · refine since_of_step (P := fun s => s.turnObserved = true) Bool.false_ne_true turnObserved_step ?_
      by_contra hturn
      rw [hst, if_neg (show ¬ (after before).turnObserved = true from hturn)] at hd
      cases hd
  · have hal : (after before).allowsScreen = false := by simp [allowsScreen, hcov]
    exact ⟨AgentActivity.observeScreen_closed hal detection, AgentActivity.reconcile_not_stalled hal detection⟩

/-- A screen that shows an agent that waits, and one that shows it at work. -/
def waiting : Detection := ⟨.idle, "prompt".toList⟩
def atWork : Detection := ⟨.working, "spinner".toList⟩

def observed (detection : Detection) : Action Unit := .observe (some detection)
def stalled (detection : Option Detection) : Action Unit := .reconcile detection true

/-- An agent is seen to work, and then to wait, twice. -/
theorem screen_completion_seen : ScreenCompletes (after [observed atWork, observed waiting]) (observed waiting) ∧
    Since apply ObservesTurn (fun s b => ¬ StartsSession s b) {} [observed atWork, observed waiting] := by
  have h : ScreenCompletes (after [observed atWork, observed waiting]) (observed waiting) :=
    ⟨⟨some waiting, .inl rfl⟩, by decide, .inl (by decide)⟩
  exact ⟨h, ((screen_completion [observed atWork, observed waiting] (observed waiting)).1 h).2.2.2 (by decide)⟩

/-! ### What does not count -/

/-- A screen shows an agent that waits. -/
def ShowsWaiting : Action α → Prop
  | .observe (some detection) | .reconcile (some detection) _ => detection.status = .idle
  | _ => False

/-- No submission, no input and no hook that is accepted, and no screen that shows something else. -/
def NothingElse (s : AgentActivity) : Action α → Prop
  | .submitted _ | .submittedText _ _ _ | .inputSent => False
  | .hook event _ => s.acceptsHook event = false
  | .observe detection | .reconcile detection _ => detection.any (fun d => d.status = .idle) = true
  | _ => True

/-- A start of a session that was compacted, by hooks that report everything. -/
def compactedStart : Event Unit where
  source := "claude".toList
  kind := .sessionStart
  sessionId := none
  bridgeInstance := none
  pane := none
  agentPid := none
  remoteProcess := none
  eventId := none
  bridgeSequence := none
  occurredAtMs := none
  receivedAtMs := 1
  receivedSequence := 1
  message := none
  answer := none
  backgroundTasks := none
  attention := none
  legacyAttention := false
  codexHooks := none
  turnId := none
  sessionCompacted := true
  turnOutcome := .unspecified

/-- A submission, a compaction, and a turn that is stalled. -/
def stalledAfterCompaction : List (Action Unit) := [.submitted 0, .hook compactedStart 1, stalled none, stalled (some waiting)]

/-- **A screen that shows an agent at work comes between the two observations where it is not looked at, and a turn is
done that was observed before a session was compacted.** -/
theorem completed_with_others_between :
    (ScreenCompletes (after [observed waiting, stalled (some atWork)]) (observed waiting) ∧
      ¬ Since apply (fun _ => ShowsWaiting) NothingElse {} [observed waiting, stalled (some atWork)]) ∧
    (ScreenCompletes (after stalledAfterCompaction) (stalled (some waiting)) ∧
      ((after stalledAfterCompaction).apply (stalled (some waiting))).status = .done ∧
      ¬ Since apply ObservesTurn (fun _ b => ¬ ∃ event now, b = .hook event now ∧ event.kind = .sessionStart) {}
        stalledAfterCompaction) := by
  refine ⟨⟨⟨⟨some waiting, .inl rfl⟩, by decide, .inr (by decide)⟩, fun h => ?_⟩,
    ⟨⟨some waiting, .inr ⟨true, rfl⟩⟩, by decide, .inl (by decide)⟩, by decide, fun h => ?_⟩
  · rcases (@since_concat_iff _ _ _ _ _ _ _ [observed waiting]).mp h with hwai | ⟨hoth, -⟩
    · simp [ShowsWaiting, stalled, atWork] at hwai
    · simp [NothingElse, stalled, atWork] at hoth
  · rcases (@since_concat_iff _ _ _ _ _ _ _ [.submitted 0, .hook compactedStart 1, stalled none]).mp h with hturn | ⟨-, h⟩
    · simp [ObservesTurn, stalled, waiting] at hturn
    · rcases (@since_concat_iff _ (Action Unit) _ _ _ _ _ [.submitted 0, .hook compactedStart 1]).mp h with hturn | ⟨-, h⟩
      · exact hturn
      · rcases (@since_concat_iff _ (Action Unit) _ _ _ _ _ [.submitted 0]).mp h with hturn | ⟨hst, -⟩
        · simp [ObservesTurn, compactedStart] at hturn
        · exact hst ⟨compactedStart, 1, rfl, rfl⟩

end Pebrel.Hooks.Activity
