import Pebrel.Runtime.Delegations

/-!
# What becomes of delegated tasks

In every run of calls, a task is pending once for each agent and generation, and each
task that was begun is pending, cancelled or completed and only one of them. When it
is completed or put back, one callback is made of it, which waits, is handed out, or
is dropped for a reason that the hub logs. The agent of each
pending task is active in the runs in which no agent ends while a task is pending for
it: the code has nothing that takes the task away.
-/

namespace Pebrel.Runtime

open Library Transition List Option Prod PendingDelegation HubState

variable {δ : Type}

/-! ### Agents that stay active -/

section
variable {state state' : HubState δ} {a a' : RuntimeManagedAgent δ} [DecidableEq δ]

/-- The call does not end the agent. -/
def Endures (state : HubState δ) (call : Call δ) (a : RuntimeManagedAgent δ) : Prop :=
  (match call with
    | .closeAgent agentId _ => a.agentId ≠ agentId
    | .recordPaneLifecycle windowId paneId _ =>
      a.identity = (windowId, paneId) → (state.paneLifecycles.any fun l => l.identity = (windowId, paneId)) = true
    | _ => True) ∧ ∀ p ∈ publication state call, a.remains p.1 p.2 = true

instance (state : HubState δ) (call : Call δ) (a : RuntimeManagedAgent δ) : Decidable (Endures state call a) := by
  unfold Endures
  cases call <;> infer_instance

/-- There is an id for an agent that is registered. -/
def IdLeftFor (state : HubState δ) : Call δ → Prop
  | .registerAgent .. => state.IdLeft
  | _ => True

omit [DecidableEq δ] in
instance (state : HubState δ) : (call : Call δ) → Decidable (IdLeftFor state call)
  | .registerAgent .. => inferInstanceAs (Decidable state.IdLeft)
  | .publish _ | .movePanesToWindow .. | .recordPaneLifecycle .. | .closeAgent .. | .waitRun .. | .reorder .. =>
    inferInstanceAs (Decidable True)

section
variable (h : DistinctIds state)
include h

omit [DecidableEq δ] in
theorem DistinctIds.keeps (hkp : KeepsAgents state state') : DistinctIds state' := by
  refine ⟨hkp.agents.ids.nodup_iff.mpr h.ids, fun a' ha' => ?_⟩
  obtain ⟨a, ha, hl⟩ := hkp.agents.later a' ha'
  rw [hl.agentId, hkp.nextAgentId]
  exact h.drawn a ha

theorem step_distinctIds {call : Call δ} (hleft : IdLeftFor state call) : DistinctIds (state.step call) := by
  rcases step_keepsAgents state call with hkp | ⟨name, kind, windowId, paneId, sessionId, worktree, rfl⟩
  · exact h.keeps hkp
  · exact h.registerAgent hleft name kind windowId paneId sessionId worktree

/-- An agent that is there is there later, and is the same one. -/
theorem step_later (call : Call δ) (ha : a ∈ state.managedAgents) : ∃ a' ∈ (state.step call).managedAgents, Later a a' := by
  rcases step_keepsAgents state call with hkp | ⟨name, kind, windowId, paneId, sessionId, worktree, rfl⟩
  · exact hkp.agents.exists_later h.ids ha
  · exact ⟨a, registerAgent_later h ha, .refl a⟩

omit [DecidableEq δ] in
theorem DistinctIds.eq {b : RuntimeManagedAgent δ} (ha : a ∈ state.managedAgents) (hb : b ∈ state.managedAgents)
    (hid : b.agentId = a.agentId) : b = a := inj_on_of_nodup_map h.ids hb ha hid

omit [DecidableEq δ] in
theorem DistinctIds.active_of_map {f : RuntimeManagedAgent δ → RuntimeManagedAgent δ}
    (hf : ∀ b, (f b).agentId = b.agentId) (ha : a ∈ state.managedAgents) (hact : (f a).active = true)
    (ha' : a' ∈ state.managedAgents.map f) (hid : a'.agentId = a.agentId) : a'.active = true := by
  obtain ⟨b, hb, rfl⟩ := List.mem_map.mp ha'
  rw [h.eq ha hb ((hf b).symm.trans hid)]
  exact hact

end

omit [DecidableEq δ] in
/-- An agent of another pane is not changed by the end of this one. -/
theorem recordPaneLifecycleLocked_mem {windowId paneId : ℕ} (event : RuntimePaneLifecycleKind) (ha : a ∈ state.managedAgents)
    (ho : a.identity = (windowId, paneId) → (state.paneLifecycles.any fun l => l.identity = (windowId, paneId)) = true) :
    a ∈ (recordPaneLifecycleLocked windowId paneId event state).1.managedAgents := by
  rw [recordPaneLifecycleLocked]
  split
  · exact ha
  · rename_i hn
    refine List.mem_map.mpr ⟨a, ha, if_neg fun h => hn ?_⟩
    exact ho (of_decide_eq_true (Bool.and_eq_true_iff.mp h).2)

/-- **An agent that the call does not end stays active.** -/
theorem step_active (h : DistinctIds state) {call : Call δ} (ha : a ∈ state.managedAgents)
    (hact : a.active = true) (he : Endures state call a) (ha' : a' ∈ (state.step call).managedAgents)
    (hid : a'.agentId = a.agentId) : a'.active = true := by
  have hsm (hm : a' ∈ state.managedAgents) : a'.active = true := h.eq ha hm hid ▸ hact
  cases call with
  | publish snapshot => exact publish_active h ha hact (he.2 _ rfl) ha' hid
  | movePanesToWindow source target paneIds =>
    rw [step, movePanesToWindow] at ha'
    split at ha'
    · exact hsm ha'
    refine h.active_of_map (fun b => ?_) ha ?_ ha' hid
    · dsimp only
      split <;> rfl
    · split
      · exact hact
      · exact hact
  | recordPaneLifecycle windowId paneId event =>
    have hlk := recordPaneLifecycleLocked_mem event ha he.1
    have hd := h.keeps (recordPaneLifecycleLocked_keepsAgents windowId paneId event state)
    rw [step, recordPaneLifecycle_eq] at ha'
    split at ha'
    · rename_i snapshot locked hp
      have hst : locked = (recordPaneLifecycleLocked windowId paneId event state).1 := by
        rw [publication] at hp
        split at hp
        · obtain ⟨_, -, heq⟩ := map_eq_some_iff.mp hp
          exact (Prod.mk.inj heq).2.symm
        · cases hp
      subst hst
      exact publish_active hd hlk hact (he.2 _ hp) ha' hid
    · exact hd.eq hlk ha' hid ▸ hact
  | registerAgent name kind windowId paneId sessionId worktree =>
    rw [step, registerAgent] at ha'
    split at ha'
    · exact hsm ha'
    rcases mem_append.mp ha' with ha' | ha'
    · exact hsm (mem_filter.mp ha').1
    · rw [mem_singleton.mp ha'] at hid
      exact absurd hid.symm (Nat.ne_of_lt (h.drawn a ha))
  | closeAgent agentId reason =>
    refine h.active_of_map (fun b => ?_) ha ?_ ha' hid
    · split <;> rfl
    · rw [if_neg fun hcl => he.1 (of_decide_eq_true (Bool.and_eq_true_iff.mp hcl).1)]
      exact hact
  | waitRun windowId paneId runId =>
    rw [step, waitRun] at ha'
    split at ha'
    · exact hsm ha'
    · exact hsm ha'
  | reorder agents pending =>
    rw [step] at ha'
    split at ha'
    · rename_i hperm
      exact hsm (hperm.1.mem_iff.mp ha')
    · exact hsm ha'

end

/-! ### What is to be so -/

namespace DelegationHub

/-- The ids of the pending tasks. -/
def pendingIds (s : DelegationHub δ) : List U64 := s.pendingDelegations.entries.map Prod.fst

/-- The ids of the tasks whose callbacks wait. -/
def callbackIds (s : DelegationHub δ) : List U64 := s.pendingDelegationCallbacks.map RuntimeDelegationCallback.taskId

/-- The agent of the task is active. -/
def TargetActive (s : DelegationHub δ) (pending : PendingDelegation) : Prop :=
  ∃ a ∈ s.hub.managedAgents, pending.isFor a = true ∧ a.active = true
deriving Decidable

end DelegationHub

/-- What is to be so of the tasks in a state. -/
structure DelegationsSafe (s : DelegationState δ) : Prop where
  /-- One task is pending at most for an agent and a generation. -/
  one : ∀ e ∈ s.delegations.pendingDelegations.entries, ∀ e' ∈ s.delegations.pendingDelegations.entries,
    e.2.receipt.target.agentId = e'.2.receipt.target.agentId → e.2.receipt.target.generation = e'.2.receipt.target.generation → e = e'
  /-- A task that was begun is pending, cancelled or completed, and this once. -/
  fate : ∀ t, s.log.begun.count t = s.delegations.pendingIds.count t + s.log.cancelled.count t + s.log.completed.count t
  once : s.log.begun.Nodup
  /-- Each completion and each requeue make one callback, which waits, was handed out, or was dropped. -/
  handed : ∀ t, s.log.completed.count t + s.log.requeued.count t =
    s.delegations.callbackIds.count t + s.log.handedOut.count t + s.log.dropped.count t
  /-- The agents of pending tasks are active. -/
  active : ∀ e ∈ s.delegations.pendingDelegations.entries, s.delegations.TargetActive e.2

/-- The agent of a task that begins is active, there are ids left, and no agent ends while a task is pending for it. -/
def DelegationState.Attends [DecidableEq δ] (s : DelegationState δ) : DelegationCall δ → Prop
  | .hub call => IdLeftFor s.delegations.hub call ∧ ∀ e ∈ s.delegations.pendingDelegations.entries,
      ∀ a ∈ s.delegations.hub.managedAgents, e.2.isFor a = true → Endures s.delegations.hub call a
  | .begin _ target =>
    (∃ a ∈ s.delegations.hub.managedAgents, a.agentId = target.agentId ∧ a.generation = target.generation ∧ a.active = true) ∧
      s.delegations.nextDelegation.val + 1 < 2 ^ 64
  | _ => True

instance [DecidableEq δ] (s : DelegationState δ) : (call : DelegationCall δ) → Decidable (s.Attends call)
  | .hub _ => inferInstanceAs (Decidable (_ ∧ ∀ e ∈ _, ∀ a ∈ _, _ → _))
  | .begin _ _ => inferInstanceAs (Decidable ((∃ a ∈ _, _) ∧ _))
  | .cancel _ | .completeForTurn _ | .takeReady | .requeue _ | .reorder _ => inferInstanceAs (Decidable True)

/-- What holds throughout. -/
structure DelegationInv (s : DelegationState δ) : Prop where
  safe : DelegationsSafe s
  ids : DistinctIds s.delegations.hub
  keyed : ∀ e ∈ s.delegations.pendingDelegations.entries, e.2.receipt.taskId = e.1
  drawn : ∀ t ∈ s.log.begun, t ≤ s.delegations.nextDelegation

/-! ### What the calls do -/

variable {s : DelegationHub δ} {taskId : U64}

theorem PendingDelegation.isFor_iff {pending : PendingDelegation} {a : RuntimeManagedAgent δ} :
    pending.isFor a = true ↔ pending.receipt.target.agentId = some a.agentId ∧ pending.receipt.target.generation = some a.generation := by
  rw [isFor, Bool.and_eq_true, decide_eq_true_eq, decide_eq_true_eq]

theorem beginDelegation_spec {originPaneId : ℕ} {target : RuntimeManagedAgent δ} {s' : DelegationHub δ} {receipt : RuntimeDelegationReceipt}
    (h : beginDelegation originPaneId target s = .ok (receipt, s')) :
    (∀ e ∈ s.pendingDelegations.entries, e.2.isFor target = false) ∧ receipt.taskId = s.nextDelegation.saturatingSucc ∧
      receipt.target.agentId = some target.agentId ∧ receipt.target.generation = some target.generation ∧
      s' = { s with nextDelegation := receipt.taskId, pendingDelegations :=
        s.pendingDelegations.insert receipt.taskId ⟨receipt, target.name⟩ } := by
  rw [beginDelegation] at h
  split at h
  · exact nomatch h
  split at h
  · exact nomatch h
  · split at h
    · exact nomatch h
    · split at h
      · exact nomatch h
      · split at h
        · exact nomatch h
        · rename_i hf
          split at h
          · exact nomatch h
          · dsimp only at h
            obtain ⟨rfl, rfl⟩ := Prod.mk.inj (Except.ok.inj h)
            exact ⟨fun e he => eq_false_of_ne_true fun heq => hf (List.any_eq_true.mpr ⟨e, he, heq⟩), rfl, rfl, rfl, rfl⟩

theorem completedDelegation_spec {event : AiHookEvent} {pending : PendingDelegation}
    {taskState : RuntimeTaskState} (h : completedDelegation event s = some (taskId, pending, taskState)) :
    (taskId, pending) ∈ s.pendingDelegations.entries := by
  rw [completedDelegation] at h
  split at h
  · exact nomatch h
  obtain ⟨paneId, -, h⟩ := bind_eq_some_iff.mp h
  obtain ⟨snapshot, -, h⟩ := bind_eq_some_iff.mp h
  obtain ⟨⟨w, pane⟩, -, h⟩ := bind_eq_some_iff.mp h
  obtain ⟨agent, -, h⟩ := bind_eq_some_iff.mp h
  obtain ⟨e, he, h⟩ := bind_eq_some_iff.mp h
  obtain ⟨rfl, rfl, -⟩ := some.inj h
  exact mem_of_find?_eq_some he

/-- The ids of a map, and of the map without one of its keys. -/
theorem count_remove {pending : Assoc.Map U64 PendingDelegation} (h : taskId ∈ pending.entries.map Prod.fst) (t : U64) :
    (pending.entries.map Prod.fst).count t =
      ((pending.filterKeys fun id => id ≠ taskId).entries.map Prod.fst).count t + [taskId].count t := by
  have hm : (pending.filterKeys fun id => id ≠ taskId).entries.map fst = (pending.entries.map fst).filter fun id => id ≠ taskId := by
    rw [List.filter_map]
    rfl
  rw [hm]
  by_cases ht : t = taskId
  · have hn : t ∉ (pending.entries.map fst).filter fun id => id ≠ taskId := fun hmem =>
      of_decide_eq_true (mem_filter.mp hmem).2 ht
    rw [count_eq_zero_of_not_mem hn, ht, count_eq_one_of_mem pending.nodup h, count_singleton_self]
  · rw [count_filter (p := fun id => decide (id ≠ taskId)) (a := t) (decide_eq_true ht), count_singleton, if_neg (by simpa using Ne.symm ht)]
    rfl

theorem filterKeys_of_not_containsKey {pending : Assoc.Map U64 PendingDelegation} (h : ¬pending.containsKey taskId = true) :
    pending.filterKeys (fun id => id ≠ taskId) = pending := by
  refine Assoc.Map.ext (filter_eq_self.mpr fun e he => decide_eq_true fun heq => h ?_)
  exact Assoc.Map.containsKey_iff.mpr ⟨e.2, heq ▸ he⟩

/-! ### What the calls keep -/

section
variable {s : DelegationState δ}

/-- A task is taken from those that are pending. -/
theorem DelegationsSafe.remaining {taskId : U64} (h : DelegationsSafe s) :
    (∀ e ∈ (s.delegations.pendingDelegations.filterKeys fun id => id ≠ taskId).entries,
      ∀ e' ∈ (s.delegations.pendingDelegations.filterKeys fun id => id ≠ taskId).entries,
      e.2.receipt.target.agentId = e'.2.receipt.target.agentId → e.2.receipt.target.generation = e'.2.receipt.target.generation → e = e') ∧
    ∀ e ∈ (s.delegations.pendingDelegations.filterKeys fun id => id ≠ taskId).entries, s.delegations.TargetActive e.2 :=
  ⟨fun e he e' he' => h.one e (mem_filter.mp he).1 e' (mem_filter.mp he').1, fun e he => h.active e (mem_filter.mp he).1⟩

theorem DelegationInv.cancel (h : DelegationInv s) (taskId : U64) : DelegationInv ⟨cancelDelegation taskId s.delegations,
      if s.delegations.pendingDelegations.containsKey taskId then { s.log with cancelled := s.log.cancelled ++ [taskId] } else s.log⟩ := by
  split
  · rename_i hk
    obtain ⟨pending, hm⟩ := Assoc.Map.containsKey_iff.mp hk
    refine ⟨⟨h.safe.remaining.1, fun t => ?_, h.safe.once, h.safe.handed, h.safe.remaining.2⟩, h.ids,
      fun e he => h.keyed e (mem_filter.mp he).1, h.drawn⟩
    have hfate := h.safe.fate t
    have hi : taskId ∈ s.delegations.pendingDelegations.entries.map fst := List.mem_map.mpr ⟨_, hm, rfl⟩
    have hc := count_remove hi t
    rw [count_append]
    simp only [DelegationHub.pendingIds, cancelDelegation] at hfate ⊢
    omega
  · rename_i hk
    rw [cancelDelegation, filterKeys_of_not_containsKey hk]
    exact h

/-- The callback that is pushed waits behind those that stay. -/
theorem count_callbacks (callbacks : List RuntimeDelegationCallback) (callback : RuntimeDelegationCallback) (t : U64) :
    (((if maxPendingDelegations ≤ callbacks.length then callbacks.tail else callbacks) ++ [callback]).map
      RuntimeDelegationCallback.taskId).count t + ((overflowing callbacks).map RuntimeDelegationCallback.taskId).count t =
      (callbacks.map RuntimeDelegationCallback.taskId).count t + [callback.taskId].count t := by
  rw [map_append, count_append, overflowing]
  split
  · cases callbacks with
    | nil => rfl
    | cons c callbacks =>
      simp only [tail_cons, take_succ_cons, take_zero, map_cons, map_nil, count_cons, count_nil]
      omega
  · simp only [map_nil, map_singleton, count_nil, Nat.add_zero]

theorem DelegationInv.completeForTurn (processId : ℕ) (jsonString : Text → Option Text) (h : DelegationInv s) (event : AiHookEvent) :
    DelegationInv ⟨completeDelegationsForTurn processId jsonString event s.delegations,
      match completedDelegation event s.delegations with
      | some (_, pending, _) =>
        { s.log with
          completed := s.log.completed ++ [pending.receipt.taskId]
          dropped := s.log.dropped ++ (overflowing s.delegations.pendingDelegationCallbacks).map RuntimeDelegationCallback.taskId }
      | none => s.log⟩ := by
  cases hc : completedDelegation event s.delegations with
  | none =>
    simp only [completeDelegationsForTurn, hc]
    exact h
  | some e =>
    obtain ⟨taskId, pending, taskState⟩ := e
    simp only [completeDelegationsForTurn, hc]
    have hm := completedDelegation_spec hc
    obtain rfl : pending.receipt.taskId = taskId := h.keyed _ hm
    refine ⟨⟨h.safe.remaining.1, fun t => ?_, h.safe.once, fun t => ?_, h.safe.remaining.2⟩, h.ids,
      fun e he => h.keyed e (mem_filter.mp he).1, h.drawn⟩
    · have hfate := h.safe.fate t
      have hcnt := count_remove (List.mem_map.mpr ⟨_, hm, rfl⟩) t
      dsimp only at hcnt ⊢
      rw [count_append]
      simp only [DelegationHub.pendingIds] at hfate ⊢
      omega
    · have hh := h.safe.handed t
      have hcnt := count_callbacks s.delegations.pendingDelegationCallbacks
        ⟨pending.receipt.taskId, pending.receipt.origin, delegationPrompt processId jsonString event pending taskState⟩ t
      dsimp only at hcnt ⊢
      rw [count_append, count_append]
      simp only [DelegationHub.callbackIds] at hh ⊢
      omega

/-- Each callback is ready, waits or is dropped. -/
theorem count_fates (snapshot : RuntimeSnapshot δ) (callbacks : List RuntimeDelegationCallback) (t : U64) :
    (callbacks.map RuntimeDelegationCallback.taskId).count t =
      ((callbacks.filter fun c => callbackFate snapshot c = .waiting).map RuntimeDelegationCallback.taskId).count t +
      ((callbacks.filter fun c => callbackFate snapshot c = .ready).map RuntimeDelegationCallback.taskId).count t +
      ((callbacks.filter fun c => callbackFate snapshot c = .dropped).map RuntimeDelegationCallback.taskId).count t := by
  induction callbacks with
  | nil => rfl
  | cons c callbacks ih =>
    rw [filter_cons, filter_cons, filter_cons, map_cons, count_cons]
    cases callbackFate snapshot c <;>
      simp only [decide_true, if_true, map_cons, count_cons, reduceCtorEq, decide_false, Bool.false_eq_true, if_false] <;> omega

section
variable (h : DelegationInv s)
include h

theorem DelegationInv.takeReady : DelegationInv ⟨(takeReadyDelegationCallbacks s.delegations).2,
      { s.log with
        handedOut := s.log.handedOut ++ (takeReadyDelegationCallbacks s.delegations).1.map RuntimeDelegationCallback.taskId
        dropped := s.log.dropped ++ (droppedCallbacks s.delegations).map RuntimeDelegationCallback.taskId }⟩ := by
  rw [takeReadyDelegationCallbacks, droppedCallbacks]
  split
  · rw [map_nil, append_nil, append_nil]
    exact h
  rename_i snapshot _
  refine ⟨⟨h.safe.one, h.safe.fate, h.safe.once, fun t => ?_, h.safe.active⟩, h.ids, h.keyed, h.drawn⟩
  have hh := h.safe.handed t
  have hc := count_fates snapshot s.delegations.pendingDelegationCallbacks t
  rw [count_append, count_append]
  simp only [DelegationHub.callbackIds] at hh ⊢
  omega

theorem DelegationInv.requeue (callback : RuntimeDelegationCallback) : DelegationInv ⟨requeueDelegationCallback callback s.delegations,
      if s.delegations.Waits callback.taskId then s.log else { s.log with requeued := s.log.requeued ++ [callback.taskId] }⟩ := by
  have hany : (s.delegations.pendingDelegationCallbacks.any fun pending => pending.taskId = callback.taskId) = true ↔
      s.delegations.Waits callback.taskId := by
    simp only [List.any_eq_true, decide_eq_true_eq, DelegationHub.Waits]
  by_cases hw : s.delegations.Waits callback.taskId
  · rw [requeueDelegationCallback, if_pos (hany.mpr hw), if_pos hw]
    exact h
  rw [requeueDelegationCallback, if_neg (hany.not.mpr hw), if_neg hw]
  refine ⟨⟨h.safe.one, h.safe.fate, h.safe.once, fun t => ?_, h.safe.active⟩, h.ids, h.keyed, h.drawn⟩
  have hh := h.safe.handed t
  rw [DelegationHub.callbackIds, map_append, map_singleton, count_append, count_append]
  simp only [DelegationHub.callbackIds] at hh ⊢
  omega

theorem DelegationInv.reorder {pending : Assoc.Map U64 PendingDelegation}
    (hperm : pending.entries.Perm s.delegations.pendingDelegations.entries) :
    DelegationInv { s with delegations := { s.delegations with pendingDelegations := pending } } := by
  refine ⟨⟨fun e he e' he' => h.safe.one e (hperm.mem_iff.mp he) e' (hperm.mem_iff.mp he'), fun t => ?_, h.safe.once, h.safe.handed,
    fun e he => h.safe.active e (hperm.mem_iff.mp he)⟩, h.ids, fun e he => h.keyed e (hperm.mem_iff.mp he), h.drawn⟩
  have hc : (pending.entries.map fst).count t = s.delegations.pendingIds.count t := (hperm.map fst).count_eq t
  have hfate := h.safe.fate t
  rw [← hc] at hfate
  exact hfate

/-- A pending task was begun. -/
theorem DelegationInv.mem_begun {e : U64 × PendingDelegation} (he : e ∈ s.delegations.pendingDelegations.entries) : e.1 ∈ s.log.begun := by
  have hp : 0 < s.delegations.pendingIds.count e.1 := count_pos_iff.mpr (List.mem_map_of_mem he)
  have hfate := h.safe.fate e.1
  exact count_pos_iff.mp (by omega)

theorem DelegationInv.begin {originPaneId : ℕ} {target : RuntimeManagedAgent δ} {receipt : RuntimeDelegationReceipt}
    {delegations : DelegationHub δ} (hb : beginDelegation originPaneId target s.delegations = .ok (receipt, delegations))
    (htg : ∃ a ∈ s.delegations.hub.managedAgents, a.agentId = target.agentId ∧ a.generation = target.generation ∧ a.active = true)
    (hlf : s.delegations.nextDelegation.val + 1 < 2 ^ 64) :
    DelegationInv ⟨delegations, { s.log with begun := s.log.begun ++ [receipt.taskId] }⟩ := by
  obtain ⟨hf, hid, hag, hg, rfl⟩ := beginDelegation_spec hb
  have hlt (t : U64) (ht : t ≤ s.delegations.nextDelegation) : t < receipt.taskId := hid ▸ Nat.lt_of_le_of_lt ht (U64.lt_saturatingSucc hlf)
  have hn : receipt.taskId ∉ s.log.begun := fun hm => absurd (hlt _ (h.drawn _ hm)) (Nat.lt_irrefl _)
  have hk : receipt.taskId ∉ s.delegations.pendingDelegations.entries.map fst := fun hm => by
    obtain ⟨e, he, heq⟩ := List.mem_map.mp hm
    exact hn (heq ▸ h.mem_begun he)
  have hents : (s.delegations.pendingDelegations.insert receipt.taskId ⟨receipt, target.name⟩).entries =
      s.delegations.pendingDelegations.entries ++ [(receipt.taskId, ⟨receipt, target.name⟩)] := Assoc.insert_of_not_mem hk
  have ho (e : U64 × PendingDelegation) (he : e ∈ s.delegations.pendingDelegations.entries)
      (hsm : e.2.receipt.target.agentId = receipt.target.agentId ∧ e.2.receipt.target.generation = receipt.target.generation) : False := by
    have hi : e.2.isFor target = true := isFor_iff.mpr ⟨hsm.1.trans hag, hsm.2.trans hg⟩
    exact absurd (hi.symm.trans (hf e he)) (by decide)
  refine ⟨⟨fun e he e' he' hsm hsm' => ?_, fun t => ?_, ?_, h.safe.handed, fun e he => ?_⟩, h.ids, fun e he => ?_, fun t ht => ?_⟩
  · rw [hents, mem_append, mem_singleton] at he he'
    rcases he with he | rfl
    · rcases he' with he' | rfl
      · exact h.safe.one e he e' he' hsm hsm'
      · exact (ho e he ⟨hsm, hsm'⟩).elim
    · rcases he' with he' | rfl
      · exact (ho e' he' ⟨hsm.symm, hsm'.symm⟩).elim
      · rfl
  · have hfate := h.safe.fate t
    rw [DelegationHub.pendingIds, hents, map_append, map_singleton, count_append, count_append]
    simp only [DelegationHub.pendingIds] at hfate ⊢
    omega
  · refine nodup_append.mpr ⟨h.safe.once, nodup_singleton _, fun t ht t' ht' heq => hn ?_⟩
    rw [← mem_singleton.mp ht', ← heq]
    exact ht
  · rw [hents, mem_append, mem_singleton] at he
    rcases he with he | rfl
    · exact h.safe.active e he
    · obtain ⟨a, ha, haid, hagen, hact⟩ := htg
      exact ⟨a, ha, isFor_iff.mpr ⟨by rw [hag, haid], by rw [hg, hagen]⟩, hact⟩
  · rw [hents, mem_append, mem_singleton] at he
    rcases he with he | rfl
    · exact h.keyed e he
    · rfl
  · rcases mem_append.mp ht with ht | ht
    · exact Nat.le_of_lt (hlt t (h.drawn t ht))
    · exact Fin.le_of_eq (mem_singleton.mp ht)

end

variable [DecidableEq δ]

theorem DelegationInv.hub (h : DelegationInv s) {call : Call δ} (hatt : s.Attends (.hub call)) :
    DelegationInv { s with delegations := { s.delegations with hub := s.delegations.hub.step call } } := by
  refine ⟨⟨h.safe.one, h.safe.fate, h.safe.once, h.safe.handed, fun e he => ?_⟩, step_distinctIds h.ids hatt.1, h.keyed, h.drawn⟩
  obtain ⟨a, ha, hi, hact⟩ := h.safe.active e he
  obtain ⟨a', ha', hl⟩ := step_later h.ids call ha
  refine ⟨a', ha', ?_, step_active h.ids ha hact (hatt.2 e he a ha hi) ha' hl.agentId⟩
  rw [isFor_iff] at hi ⊢
  rw [hl.agentId, hl.generation]
  exact hi

/-- **What one call keeps.** -/
theorem DelegationInv.step {processId : ℕ} {jsonString : Text → Option Text} {call : DelegationCall δ} {s' : DelegationState δ}
    (h : DelegationInv s) (ha : s.Attends call) (hst : s.step processId jsonString call = some s') : DelegationInv s' := by
  cases call with
  | hub call =>
    cases hst
    exact h.hub ha
  | begin originPaneId target =>
    rw [DelegationState.step] at hst
    split at hst
    · rename_i receipt delegations hb
      cases hst
      exact h.begin hb ha.1 ha.2
    · cases hst
      exact h
  | cancel taskId =>
    cases hst
    exact h.cancel taskId
  | completeForTurn event =>
    cases hst
    exact h.completeForTurn processId jsonString event
  | takeReady =>
    cases hst
    exact h.takeReady
  | requeue callback =>
    cases hst
    exact h.requeue callback
  | reorder pending =>
    rw [DelegationState.step] at hst
    split at hst
    · rename_i hperm
      cases hst
      exact h.reorder hperm
    · exact nomatch hst

/-- **Delegated tasks are safe** in every run in which the agent of a task is active when it begins and does not
end while it is pending. -/
theorem delegations_safe (processId : ℕ) (jsonString : Text → Option Text) (calls : List (DelegationCall δ))
    (h : Meets (DelegationState.step processId jsonString) DelegationState.Attends .new calls) :
    Along (DelegationState.step processId jsonString) DelegationsSafe .new calls := by
  have hnew : DelegationInv (.new : DelegationState δ) :=
    ⟨⟨nofun, fun _ => rfl, nodup_nil, fun _ => rfl, nofun⟩, registry_new.distinctIds, nofun, nofun⟩
  exact along_of_meets _ (fun _ h => h.safe) (fun _ _ _ h ha hst => h.step ha hst) hnew h

end

/-! ### A task whose agent ends -/

/-- The panes 3 and 4 of the window 7, with agents in these states. -/
def delegationSnapshot (origin target : RuntimeTaskState) : RuntimeSnapshot Unit :=
  sampleSnapshot [
    { samplePane 3 origin with agent := some ⟨none, none, none, none, "claude".toList, some "claude-session-1".toList, ()⟩ },
    { samplePane 4 target with agent := some ⟨none, none, none, none, "codex".toList, none, ()⟩ }] []

def worker : RuntimeManagedAgent Unit := ⟨1, 1, "worker".toList, "codex".toList, 7, 4, none, none, true, true, none⟩

def turnDone : AiHookEvent := ⟨.turnDone, none, some 4, "codex".toList, none, some "done".toList⟩

/-- The agent of the pane 3 delegates a task to the worker in the pane 4. -/
def delegationCalls : List (DelegationCall Unit) :=
  [.hub (.registerAgent "worker".toList "codex".toList 7 4 none none),
    .hub (.publish (delegationSnapshot .finished .running)), .begin 3 worker]

/-- The worker is done, the task is handed out, put back, and handed out again. -/
theorem delegations_safe_sample :
    Along (DelegationState.step 9 some) DelegationsSafe .new (delegationCalls ++ [.completeForTurn turnDone, .takeReady,
      .requeue ⟨1, ⟨7, 3, none, none, "claude".toList, some "claude-session-1".toList⟩, []⟩, .takeReady]) :=
  delegations_safe 9 some _ (by decide)

/-- The pane of the worker ends while the task is pending. -/
def strandedCalls : List (DelegationCall Unit) :=
  delegationCalls ++ [.hub (.recordPaneLifecycle 7 4 .exited), .hub (.publish (sampleSnapshot [samplePane 3 .finished] [])),
    .completeForTurn turnDone, .takeReady]

/-- The task stays where its agent has ended, and no turn of the pane completes it. -/
theorem delegation_stays :
    ∃ s, run (DelegationState.step 9 some) .new strandedCalls = some s ∧ s.delegations.pendingIds = [1] ∧
      (s.delegations.hub.managedAgents.map fun a => (a.agentId, a.active)) = [(1, false)] ∧ ¬DelegationsSafe s := by
  have hrun : ((run (DelegationState.step 9 some) .new strandedCalls).map fun s =>
      (s.delegations.pendingIds, s.delegations.hub.managedAgents.map fun a => (a.agentId, a.active),
        decide (∀ e ∈ s.delegations.pendingDelegations.entries, s.delegations.TargetActive e.2))) = some ([1], [(1, false)], false) := by
    decide
  obtain ⟨s, hs, hs'⟩ := map_eq_some_iff.mp hrun
  rw [Prod.mk.injEq, Prod.mk.injEq] at hs'
  obtain ⟨hids, hags, hact⟩ := hs'
  exact ⟨s, hs, hids, hags, fun h => absurd h.active (of_decide_eq_false hact)⟩

end Pebrel.Runtime
