import Pebrel.Runtime.Relocation

/-!
# The agents of the hub

An agent is registered under a name for a pane. The snapshots that are published
show kinds and sessions, and not which registered agent runs in a pane, so the hub
takes the first one of the kind that it comes upon, and closes the others. This is
the one that was registered last where it is the first of them in the order of the
map (`agents_safe`).

An agent is found by its id or by its name (`managedAgent`); its id is the text
that `agentIdText` makes of the number that was drawn.
-/

namespace Pebrel.Runtime

open Library List Option Nat HubState
open List (mem_map mem_map_of_mem)

variable {δ : Type}

/-! ### Finding an agent -/

inductive AgentError where
  | notFound
  | identityMismatch
  /-- The agent is not active any more; the code says why. -/
  | closed (code : Text)

def agentClosed : Text := "agent_closed".toList

/-- The code of an error about an agent that was closed for this reason. -/
def closedCode (reason : Option Text) : Text :=
  match reason with
  | some reason =>
    if reason ∈ [agentExited, agentReplaced, RuntimePaneLifecycleKind.closed.errorCode, RuntimePaneLifecycleKind.exited.errorCode] then
      reason
    else agentClosed
  | none => agentClosed

/-- `max_by_key` of the generation: the last of the agents with the highest one. -/
def latestGeneration (agents : List (RuntimeManagedAgent δ)) : Option (RuntimeManagedAgent δ) :=
  agents.foldl (fun best a =>
    match best with
    | some b => if b.generation ≤ a.generation then some a else some b
    | none => some a) none

/-- The agent of this id, or the latest one of this name. -/
def selectAgent (agentIdText : ℕ → Text) (selector : Text) (generation : Option U64) (requireActive : Bool) (state : HubState δ) :
    Option (RuntimeManagedAgent δ) :=
  let byGeneration := generation.bind fun g =>
    latestGeneration (state.managedAgents.filter fun a => decide (a.name = selector) && decide (a.generation = g))
  let byName := latestGeneration (state.managedAgents.filter fun a => decide (a.name = selector) && (!requireActive || a.active))
  ((state.managedAgents.find? fun a => agentIdText a.agentId = selector).or byGeneration).or byName

def managedAgent (agentIdText : ℕ → Text) (selector : Text) (generation : Option U64) (requireActive : Bool) (state : HubState δ) :
    Except AgentError (RuntimeManagedAgent δ) :=
  match selectAgent agentIdText selector generation requireActive state with
  | none => .error .notFound
  | some agent =>
    if generation.any fun expected => decide (expected ≠ agent.generation) then .error .identityMismatch
    else if requireActive && !agent.active then .error (.closed (closedCode agent.closedReason))
    else .ok agent

theorem managedAgent_generation {agentIdText : ℕ → Text} {selector : Text} {g : U64} {requireActive : Bool} {state : HubState δ}
    {agent : RuntimeManagedAgent δ} (h : managedAgent agentIdText selector (some g) requireActive state = .ok agent) :
    agent.generation = g := by
  rw [managedAgent] at h
  split at h
  · exact nomatch h
  rw [any_some] at h
  split at h
  · exact nomatch h
  rename_i hg
  split at h
  · exact nomatch h
  rw [Except.ok.injEq] at h
  subst h
  by_contra hne
  exact hg (decide_eq_true (.symm hne))

/-! ### Agents at a later time -/

/-- The same agent later: it has not become active, and if it was closed, it is for the same reason. -/
structure Later (a a' : RuntimeManagedAgent δ) : Prop where
  agentId : a'.agentId = a.agentId
  name : a'.name = a.name
  generation : a'.generation = a.generation
  active : a'.active = true → a.active = true
  closed : a.active = false → a'.closedReason = a.closedReason

theorem Later.refl (a : RuntimeManagedAgent δ) : Later a a := ⟨rfl, rfl, rfl, id, fun _ => rfl⟩

theorem Later.trans {a a' a'' : RuntimeManagedAgent δ} (h : Later a a') (h' : Later a' a'') : Later a a'' := by
  refine ⟨h'.agentId.trans h.agentId, h'.name.trans h.name, h'.generation.trans h.generation, fun ha =>
    h.active (h'.active ha), fun ha => ?_⟩
  have ha' : a'.active = false := by
    cases hact : a'.active with
    | false => rfl
    | true => exact absurd (ha.symm.trans (h.active hact)) Bool.false_ne_true
  exact (h'.closed ha').trans (h.closed ha)

/-- The agents later: they are the same ones. -/
structure Evolves (agents agents' : List (RuntimeManagedAgent δ)) : Prop where
  ids : (agents'.map RuntimeManagedAgent.agentId).Perm (agents.map RuntimeManagedAgent.agentId)
  later : ∀ a' ∈ agents', ∃ a ∈ agents, Later a a'

namespace Evolves

variable {agents agents' agents'' : List (RuntimeManagedAgent δ)}

theorem refl (agents : List (RuntimeManagedAgent δ)) : Evolves agents agents := ⟨.refl _, fun a ha => ⟨a, ha, .refl a⟩⟩

theorem trans (h : Evolves agents agents') (h' : Evolves agents' agents'') : Evolves agents agents'' := by
  refine ⟨h'.ids.trans h.ids, fun a'' ha'' => ?_⟩
  obtain ⟨a', ha', hl'⟩ := h'.later a'' ha''
  obtain ⟨a, ha, hl⟩ := h.later a' ha'
  exact ⟨a, ha, hl.trans hl'⟩

theorem cons {a a' : RuntimeManagedAgent δ} (ha : Later a a') (h : Evolves agents agents') : Evolves (a :: agents) (a' :: agents') := by
  refine ⟨?_, fun b' hb' => ?_⟩
  · rw [map_cons, map_cons, ha.agentId]
    exact h.ids.cons _
  · rcases mem_cons.mp hb' with rfl | hb'
    · exact ⟨a, mem_cons_self, ha⟩
    · obtain ⟨b, hb, hl⟩ := h.later b' hb'
      exact ⟨b, mem_cons_of_mem _ hb, hl⟩

theorem of_perm (h : agents'.Perm agents) : Evolves agents agents' := ⟨h.map _, fun a ha => ⟨a, h.mem_iff.mp ha, .refl a⟩⟩

theorem map {f : RuntimeManagedAgent δ → RuntimeManagedAgent δ} (hf : ∀ a, Later a (f a)) : Evolves agents (agents.map f) := by
  refine ⟨?_, fun a' ha' => ?_⟩
  · rw [List.map_map]
    exact .of_eq (map_congr_left fun a _ => (hf a).agentId)
  · obtain ⟨a, ha, rfl⟩ := mem_map.mp ha'
    exact ⟨a, ha, hf a⟩

/-- What an agent is later, where no two have the same id. -/
theorem exists_later (h : Evolves agents agents') (hnd : (agents.map RuntimeManagedAgent.agentId).Nodup) {a : RuntimeManagedAgent δ}
    (ha : a ∈ agents) : ∃ a' ∈ agents', Later a a' := by
  obtain ⟨a', ha', hid⟩ := mem_map.mp (h.ids.mem_iff.mpr (mem_map_of_mem ha))
  obtain ⟨b, hb, hl⟩ := h.later a' ha'
  obtain rfl : b = a := inj_on_of_nodup_map hnd hb ha (hl.agentId.symm.trans hid)
  exact ⟨a', ha', hl⟩

end Evolves

theorem Later.close {a : RuntimeManagedAgent δ} (reason : Text) (ha : a.active = true) : Later a (a.close reason) :=
  ⟨rfl, rfl, rfl, fun _ => ha, fun h => absurd (h.symm.trans ha) Bool.false_ne_true⟩

/-! ### The registry -/

/-- What is so of the agents in every state. -/
structure Registry (state : HubState δ) : Prop where
  ids : (state.managedAgents.map RuntimeManagedAgent.agentId).Nodup
  drawn : ∀ a ∈ state.managedAgents, a.agentId < state.nextAgentId
  names : ∀ a ∈ state.managedAgents, ∀ b ∈ state.managedAgents, a.active = true → b.active = true → a.name = b.name →
    a.agentId = b.agentId
  generations : ∀ a ∈ state.managedAgents, ∀ b ∈ state.managedAgents, a.name = b.name → a.agentId < b.agentId →
    a.generation < b.generation
  latest : ∀ a ∈ state.managedAgents, ∃ g, state.agentGenerations.get? a.name = some g ∧ a.generation ≤ g

/-- What is done to the agents where none is registered. -/
structure KeepsAgents (state state' : HubState δ) : Prop where
  nextAgentId : state'.nextAgentId = state.nextAgentId
  agentGenerations : state'.agentGenerations = state.agentGenerations
  agents : Evolves state.managedAgents state'.managedAgents

section
variable {state state' state'' : HubState δ}

theorem Registry.keeps (h : Registry state) (hkp : KeepsAgents state state') : Registry state' where
  ids := hkp.agents.ids.nodup_iff.mpr h.ids
  drawn a' ha' := by
    obtain ⟨a, ha, hl⟩ := hkp.agents.later a' ha'
    rw [hl.agentId, hkp.nextAgentId]
    exact h.drawn a ha
  names a' ha' b' hb' haa hba hnm := by
    obtain ⟨a, ha, hl⟩ := hkp.agents.later a' ha'
    obtain ⟨b, hb, hl'⟩ := hkp.agents.later b' hb'
    rw [hl.agentId, hl'.agentId]
    exact h.names a ha b hb (hl.active haa) (hl'.active hba) (hl.name.symm.trans (hnm.trans hl'.name))
  generations a' ha' b' hb' hnm hid := by
    obtain ⟨a, ha, hl⟩ := hkp.agents.later a' ha'
    obtain ⟨b, hb, hl'⟩ := hkp.agents.later b' hb'
    rw [hl.agentId, hl'.agentId] at hid
    rw [hl.generation, hl'.generation]
    exact h.generations a ha b hb (hl.name.symm.trans (hnm.trans hl'.name)) hid
  latest a' ha' := by
    obtain ⟨a, ha, hl⟩ := hkp.agents.later a' ha'
    rw [hl.name, hl.generation, hkp.agentGenerations]
    exact h.latest a ha

theorem KeepsAgents.refl (state : HubState δ) : KeepsAgents state state := ⟨rfl, rfl, .refl _⟩

theorem KeepsAgents.trans (h : KeepsAgents state state') (h' : KeepsAgents state' state'') : KeepsAgents state state'' :=
  ⟨h'.nextAgentId.trans h.nextAgentId, h'.agentGenerations.trans h.agentGenerations, h.agents.trans h'.agents⟩

theorem KeepsAgents.foldl {β : Type} {f : HubState δ → β → HubState δ} (hf : ∀ s b, KeepsAgents s (f s b)) (l : List β)
    (s : HubState δ) : KeepsAgents s (l.foldl f s) := by
  induction l generalizing s with
  | nil => exact .refl s
  | cons b l ih => exact (hf s b).trans (ih (f s b))

theorem recordPaneLifecycleLocked_keepsAgents (windowId paneId : ℕ) (event : RuntimePaneLifecycleKind) (state : HubState δ) :
    KeepsAgents state (recordPaneLifecycleLocked windowId paneId event state).1 := by
  rw [recordPaneLifecycleLocked]
  split
  · exact .refl state
  refine ⟨rfl, rfl, .map fun a => ?_⟩
  split
  · rename_i h
    exact Later.close _ (Bool.and_eq_true_iff.mp h).1
  · exact .refl a

theorem observeRemovedPanes_keepsAgents (state : HubState δ) (snapshot : RuntimeSnapshot δ) (relocations : ResolvedPaneRelocations) :
    KeepsAgents state (observeRemovedPanes state snapshot relocations) := by
  rw [observeRemovedPanes]
  split
  · exact .refl state
  · exact .foldl (fun s (i : PaneIdentity) => recordPaneLifecycleLocked_keepsAgents i.1 i.2 .closed s) _ state

theorem projectManagedAgent_later (snapshot : RuntimeSnapshot δ) (managed : RuntimeManagedAgent δ) :
    Later managed (projectManagedAgent snapshot managed).2.1 := by
  simp only [projectManagedAgent]
  split
  · exact .refl managed
  rename_i ha
  have ha : managed.active = true := by simpa using ha
  split
  · exact .close _ ha
  split
  · split
    · split
      · exact .close _ ha
      · exact ⟨rfl, rfl, rfl, id, fun h => absurd (h.symm.trans ha) Bool.false_ne_true⟩
    · split
      · exact .close _ ha
      · exact .refl managed
  · split
    · exact .close _ ha
    · exact .refl managed

theorem projectAgents_evolves (snapshot : RuntimeSnapshot δ) (agents : List (RuntimeManagedAgent δ)) :
    Evolves agents (projectAgents snapshot agents).2.1 := by
  induction agents generalizing snapshot with
  | nil => exact .refl []
  | cons managed agents ih => exact .cons (projectManagedAgent_later snapshot managed) (ih _)

theorem completeLastRun_keepsAgents (state : HubState δ) (e : ℕ × RuntimePane δ) : KeepsAgents state (completeLastRun state e) := by
  rcases completeLastRun_cases state e with ⟨h, -⟩ | ⟨outcome, -, h⟩
  · rw [h]
    exact .refl state
  · rw [h]
    exact ⟨rfl, rfl, .refl _⟩

theorem completeDisappeared_keepsAgents (observed : List RunKey) (state : HubState δ) (key : RunKey) :
    KeepsAgents state (completeDisappeared observed state key) := by
  rcases completeDisappeared_cases observed state key with h | ⟨-, -, result, -, h⟩
  · rw [h]
    exact .refl state
  · rw [h]
    exact ⟨rfl, rfl, .refl _⟩

theorem observeRunLifecycle_keepsAgents (state : HubState δ) (snapshot : RuntimeSnapshot δ) (relocations : ResolvedPaneRelocations) :
    KeepsAgents state (observeRunLifecycle state snapshot relocations) :=
  (KeepsAgents.foldl completeLastRun_keepsAgents _ _).trans (KeepsAgents.foldl (completeDisappeared_keepsAgents _) _ _)

theorem afterRemoval_keepsAgents (state : HubState δ) (snapshot : RuntimeSnapshot δ) : KeepsAgents state (afterRemoval state snapshot) := by
  have hpd : KeepsAgents state { state with pendingPaneRelocations := .empty } := ⟨rfl, rfl, .refl _⟩
  exact hpd.trans (observeRemovedPanes_keepsAgents _ snapshot _)

theorem observed_keepsAgents (state : HubState δ) (snapshot : RuntimeSnapshot δ) : KeepsAgents state (observed state snapshot) := by
  have hp : KeepsAgents (afterRemoval state snapshot) (afterProjection state snapshot) := ⟨rfl, rfl, projectAgents_evolves _ _⟩
  exact ((afterRemoval_keepsAgents state snapshot).trans hp).trans (observeRunLifecycle_keepsAgents _ _ _)

theorem movePanesToWindow_keepsAgents (source target : ℕ) (paneIds : List ℕ) (state : HubState δ) :
    KeepsAgents state (movePanesToWindow source target paneIds state) := by
  rw [movePanesToWindow]
  split
  · exact .refl state
  refine ⟨rfl, rfl, .map fun a => ?_⟩
  split
  · exact ⟨rfl, rfl, rfl, id, fun _ => rfl⟩
  · exact .refl a

theorem closeAgent_keepsAgents (agentId : ℕ) (reason : Text) (state : HubState δ) : KeepsAgents state (closeAgent agentId reason state) := by
  rw [closeAgent]
  refine ⟨rfl, rfl, .map fun a => ?_⟩
  split
  · rename_i h
    exact Later.close _ (Bool.and_eq_true_iff.mp h).2
  · exact .refl a

theorem waitRun_keepsAgents (windowId paneId runId : ℕ) (state : HubState δ) : KeepsAgents state (waitRun windowId paneId runId state) := by
  rw [waitRun]
  split
  · exact .refl state
  · exact ⟨rfl, rfl, .refl _⟩

variable [DecidableEq δ]

theorem publish_keepsAgents (snapshot : RuntimeSnapshot δ) (state : HubState δ) : KeepsAgents state (publish snapshot state) := by
  have ho := observed_keepsAgents state snapshot
  rw [publish_eq]
  split
  · split
    · exact ho
    · exact ho.trans ⟨rfl, rfl, .refl _⟩
  · exact ho.trans ⟨rfl, rfl, .refl _⟩

theorem recordPaneLifecycle_keepsAgents (windowId paneId : ℕ) (event : RuntimePaneLifecycleKind) (state : HubState δ) :
    KeepsAgents state (recordPaneLifecycle windowId paneId event state) := by
  have hlk := recordPaneLifecycleLocked_keepsAgents windowId paneId event state
  rw [recordPaneLifecycle]
  split
  · rename_i heq
    rw [heq] at hlk
    exact hlk
  rename_i heq
  rw [heq] at hlk
  split
  · exact hlk.trans (publish_keepsAgents _ _)
  · exact hlk

end

/-! ### Registration -/

section
variable {state : HubState δ} {name kind : Text} {windowId paneId : ℕ} {sessionId : Option Text} {worktree : Option δ}

theorem U64.lt_saturatingSucc {n : U64} (h : n.val + 1 < 2 ^ 64) : n < .saturatingSucc n := by
  rw [U64.saturatingSucc, dif_pos h]
  exact Fin.mk_lt_mk.mpr (lt_succ_self n.val)

/-- The name has generations left. -/
def GenerationLeft (name : Text) (state : HubState δ) : Prop := ((state.agentGenerations.get? name).getD 0).val + 1 < 2 ^ 64
deriving Decidable

/-- The ids of the agents are distinct, and none of them is still to be drawn. -/
structure DistinctIds (state : HubState δ) : Prop where
  ids : (state.managedAgents.map RuntimeManagedAgent.agentId).Nodup
  drawn : ∀ a ∈ state.managedAgents, a.agentId < state.nextAgentId

theorem Registry.distinctIds (h : Registry state) : DistinctIds state := ⟨h.ids, h.drawn⟩

theorem DistinctIds.filter_eq (h : DistinctIds state) :
    (state.managedAgents.filter fun a => a.agentId ≠ state.nextAgentId) = state.managedAgents :=
  filter_eq_self.mpr fun a ha => decide_eq_true (Nat.ne_of_lt (h.drawn a ha))

theorem DistinctIds.registerAgent (h : DistinctIds state) (hleft : state.IdLeft) (name kind : Text)
    (windowId paneId : ℕ) (sessionId : Option Text)
    (worktree : Option δ) : DistinctIds (registerAgent name kind windowId paneId sessionId worktree state) := by
  rw [Runtime.registerAgent]
  split
  · exact h
  simp only [h.filter_eq]
  constructor
  · rw [map_append, map_singleton]
    refine nodup_append.mpr ⟨h.ids, nodup_singleton _, fun id hid id' hid' heq => ?_⟩
    obtain ⟨a, ha, rfl⟩ := mem_map.mp hid
    exact Nat.ne_of_lt (h.drawn a ha) (heq.trans (mem_singleton.mp hid'))
  · intro a ha
    rcases mem_append.mp ha with ha | ha
    · exact hleft.lt_iff.mpr (Nat.le_of_lt (h.drawn a ha))
    · rw [mem_singleton.mp ha]
      exact hleft.lt_iff.mpr (Nat.le_refl _)

theorem Registry.registerAgent (h : Registry state) (hleft : state.IdLeft)
    (hlf : (∀ a ∈ state.managedAgents, a.active = true → a.name ≠ name) → GenerationLeft name state) :
    Registry (registerAgent name kind windowId paneId sessionId worktree state) := by
  have hi := h.distinctIds.registerAgent hleft name kind windowId paneId sessionId worktree
  rw [Runtime.registerAgent] at hi ⊢
  split
  · exact h
  rename_i hnm
  rw [if_neg hnm] at hi
  have hf (a : RuntimeManagedAgent δ) (ha : a ∈ state.managedAgents) (hact : a.active = true) : a.name ≠ name :=
    fun heq => hnm (List.any_eq_true.mpr ⟨a, ha, Bool.and_eq_true_iff.mpr ⟨hact, decide_eq_true heq⟩⟩)
  have hl (a : RuntimeManagedAgent δ) (ha : a ∈ state.managedAgents) (heq : a.name = name) :
      a.generation < ((state.agentGenerations.get? name).getD 0).saturatingSucc := by
    obtain ⟨g, hg, hle⟩ := h.latest a ha
    have hlf := hlf hf
    rw [GenerationLeft] at hlf
    rw [heq] at hg
    rw [hg, getD_some] at hlf ⊢
    exact Nat.lt_of_le_of_lt hle (U64.lt_saturatingSucc hlf)
  simp only [h.distinctIds.filter_eq] at hi ⊢
  refine ⟨hi.ids, hi.drawn, ?_, ?_, ?_⟩
  · intro a ha b hb haa hba heq
    rcases mem_append.mp ha with ha | ha
    · rcases mem_append.mp hb with hb | hb
      · exact h.names a ha b hb haa hba heq
      · rw [mem_singleton.mp hb] at heq
        exact absurd heq (hf a ha haa)
    · rcases mem_append.mp hb with hb | hb
      · rw [mem_singleton.mp ha] at heq
        exact absurd heq.symm (hf b hb hba)
      · rw [mem_singleton.mp ha, mem_singleton.mp hb]
  · intro a ha b hb heq hid
    rcases mem_append.mp ha with ha | ha
    · rcases mem_append.mp hb with hb | hb
      · exact h.generations a ha b hb heq hid
      · rw [mem_singleton.mp hb] at heq ⊢
        exact hl a ha heq
    · rw [mem_singleton.mp ha] at hid
      rcases mem_append.mp hb with hb | hb
      · exact absurd hid (Nat.lt_asymm (h.drawn b hb))
      · rw [mem_singleton.mp hb] at hid
        exact absurd hid (Nat.lt_irrefl _)
  · intro a ha
    rw [Assoc.Map.get?_insert]
    rcases mem_append.mp ha with ha | ha
    · by_cases heq : a.name = name
      · rw [if_pos heq]
        exact ⟨_, rfl, Nat.le_of_lt (hl a ha heq)⟩
      · rw [if_neg heq]
        exact h.latest a ha
    · rw [mem_singleton.mp ha, if_pos rfl]
      exact ⟨_, rfl, Fin.le_refl _⟩

/-- An agent that is there stays, as a later one. -/
theorem registerAgent_later (h : DistinctIds state) {a : RuntimeManagedAgent δ} (ha : a ∈ state.managedAgents) :
    a ∈ (registerAgent name kind windowId paneId sessionId worktree state).managedAgents := by
  rw [registerAgent]
  split
  · exact ha
  · exact mem_append_left _ (h.filter_eq.symm ▸ ha)

end

/-! ### The agents of a pane -/

/-- A snapshot shows an agent in this pane that is taken for this one. -/
def RuntimeManagedAgent.takes (i : PaneIdentity) (found : Option (RuntimePane δ)) (managed : RuntimeManagedAgent δ) : Bool :=
  managed.active && decide (managed.identity = i) &&
    (found.bind RuntimePane.agent).any fun agent => decide (agent.kind = managed.kind) && !managed.mismatches agent

open RuntimeManagedAgent (agentId identity mismatches stamp takes)

/-- The pane, marked as that of the agent. -/
def RuntimePane.mark (managed : RuntimeManagedAgent δ) (pane : RuntimePane δ) : RuntimePane δ :=
  { pane with agent := pane.agent.map managed.stamp }

/-- A snapshot shows this pane, and the agent in it still. -/
def RuntimeManagedAgent.ShownIn (managed : RuntimeManagedAgent δ) (found : Option (RuntimePane δ)) : Prop :=
  ∃ pane, found = some pane ∧ managed.ShownBy pane

section
variable {i : PaneIdentity} {snapshot : RuntimeSnapshot δ}
  {agents : List (RuntimeManagedAgent δ)} {a a' : RuntimeManagedAgent δ} {pane : RuntimePane δ} {agent : RuntimeAgent δ}
  {found : Option (RuntimePane δ)}

theorem RuntimePane.showAgent_id (agent : RuntimeAgent δ) (pane : RuntimePane δ) : (pane.showAgent agent).id = pane.id := rfl

theorem projectManagedAgent_found (managed : RuntimeManagedAgent δ) : (projectManagedAgent snapshot managed).1.findPane i.1 i.2 =
      if managed.takes i (snapshot.findPane i.1 i.2) then (snapshot.findPane i.1 i.2).map (.mark managed)
      else snapshot.findPane i.1 i.2 := by
  by_cases ht : managed.takes i (snapshot.findPane i.1 i.2) = true
  · rw [if_pos ht]
    simp only [takes, Bool.and_eq_true, decide_eq_true_eq] at ht
    obtain ⟨⟨hact, hid⟩, ha⟩ := ht
    subst hid
    cases hfd : snapshot.findPane managed.windowId managed.paneId with
    | none =>
      simp only [identity, hfd] at ha
      exact nomatch ha
    | some pane =>
      simp only [identity, hfd, bind_some] at ha ⊢
      cases hag : pane.agent with
      | none => exact nomatch hag ▸ ha
      | some agent =>
        simp only [hag, any_some, Bool.and_eq_true, decide_eq_true_eq, Bool.not_eq_true'] at ha
        simp only [projectManagedAgent, hact, Bool.not_true, Bool.false_eq_true, if_false, hfd, hag, ha.1, if_true, ha.2]
        rw [RuntimeSnapshot.findPane_modifyPane (RuntimePane.showAgent_id _), if_pos rfl, hfd]
        simp only [map_some, RuntimePane.mark, RuntimePane.showAgent, hag]
        rfl
  · rw [if_neg ht]
    simp only [projectManagedAgent]
    split
    · rfl
    rename_i hact
    split
    · rfl
    rename_i pane hfd
    split
    · rename_i agent hag
      split
      · rename_i hk
        split
        · rfl
        rename_i hm
        dsimp only
        rw [RuntimeSnapshot.findPane_modifyPane (RuntimePane.showAgent_id _), if_neg]
        intro hid
        refine ht ?_
        obtain ⟨hw, hp⟩ := Prod.mk.inj hid
        have ha : ((snapshot.findPane i.1 i.2).bind RuntimePane.agent).any
            (fun agent => decide (agent.kind = managed.kind) && !managed.mismatches agent) = true := by
          rw [hw, hp, hfd]
          simpa [hag, hk] using hm
        exact Bool.and_eq_true_iff.mpr ⟨Bool.and_eq_true_iff.mpr ⟨by simpa using hact, decide_eq_true hid.symm⟩, ha⟩
      · split <;> rfl
    · split <;> rfl

/-- An agent stays active where it is shown. -/
theorem projectManagedAgent_active_iff {managed : RuntimeManagedAgent δ} (ha : managed.active = true) :
    (projectManagedAgent snapshot managed).2.1.active = true ↔ managed.ShownIn (snapshot.findPane managed.windowId managed.paneId) := by
  constructor
  · simp only [projectManagedAgent, ha, Bool.not_true, Bool.false_eq_true, if_false]
    intro h
    cases hfd : snapshot.findPane managed.windowId managed.paneId with
    | none =>
      simp only [hfd] at h
      cases h
    | some pane =>
      refine ⟨pane, rfl, ?_⟩
      simp only [hfd] at h
      simp only [RuntimeManagedAgent.ShownBy]
      cases hag : pane.agent with
      | some agent =>
        simp only [hag] at h ⊢
        split at h
        · rename_i hk
          rw [if_pos hk]
          split at h
          · cases h
          · rename_i hm
            simpa using hm
        · rename_i hk
          rw [if_neg hk]
          split at h
          · cases h
          · rename_i ho
            simpa using ho
      | none =>
        simp only [hag] at h ⊢
        split at h
        · cases h
        · rename_i ho
          simpa using ho
  · rintro ⟨pane, hfd, hsh⟩
    exact projectManagedAgent_active hfd ha hsh

/-- What holds of the pane of an agent while the others are looked for says whether it stays active. -/
theorem projectAgents_active_iff {v : Prop}
    (Q : Option (RuntimePane δ) → Prop) (hmark : ∀ b ∈ agents, b.agentId ≠ a.agentId → ∀ found, Q found →
      b.takes a.identity found = true → Q (found.map (.mark b)))
    (hQ : ∀ found, Q found → (a.ShownIn found ↔ v)) (hi : (agents.map agentId).Nodup) (ha : a ∈ agents)
    (hact : a.active = true) (hfd : Q (snapshot.findPane a.windowId a.paneId))
    (ha' : a' ∈ (projectAgents snapshot agents).2.1) (hid : a'.agentId = a.agentId) : a'.active = true ↔ v := by
  induction agents generalizing snapshot with
  | nil => exact nomatch ha
  | cons b agents ih =>
    rw [map_cons, nodup_cons] at hi
    have hhd := (projectManagedAgent_agent snapshot b).1
    have htl : (projectAgents (projectManagedAgent snapshot b).1 agents).2.1.map agentId =
        agents.map agentId := projectAgents_ids _ _
    rcases mem_cons.mp ha' with rfl | ha'
    · rcases mem_cons.mp ha with rfl | ha
      · exact (projectManagedAgent_active_iff hact).trans (hQ _ hfd)
      · exact absurd (hhd.symm.trans hid ▸ mem_map_of_mem ha) hi.1
    have hm : a'.agentId ∈ agents.map agentId := htl ▸ mem_map_of_mem ha'
    have hne : b.agentId ≠ a.agentId := fun heq => hi.1 (heq.trans hid.symm ▸ hm)
    rcases mem_cons.mp ha with rfl | ha
    · exact absurd rfl hne
    have hnx : Q ((projectManagedAgent snapshot b).1.findPane a.windowId a.paneId) := by
      rw [show (projectManagedAgent snapshot b).1.findPane a.windowId a.paneId = _ from projectManagedAgent_found (i := a.identity) b]
      split
      · rename_i ht
        exact hmark b mem_cons_self hne _ hfd ht
      · exact hfd
    exact ih (fun c hc => hmark c (mem_cons_of_mem _ hc)) hi.2 ha hnx ha'

/-- An agent that is taken for this one, if it is not marked as that of another agent before. -/
def Replaced (a : RuntimeManagedAgent δ) (found : Option (RuntimePane δ)) : Prop :=
  ∃ pane agent, found = some pane ∧ pane.agent = some agent ∧ agent.kind = a.kind ∧ a.mismatches agent = true

/-- A pane that is marked as that of another agent is that of the other one. -/
theorem replaced_mark {b : RuntimeManagedAgent δ} (hag : pane.agent = some agent)
    (hk : agent.kind = a.kind) (hne : b.agentId ≠ a.agentId) : Replaced a (some (pane.mark b)) := by
  refine ⟨pane.mark b, b.stamp agent, rfl, ?_, hk, ?_⟩
  · rw [RuntimePane.mark, hag, map_some]
  · simp [mismatches, stamp, hne]

theorem Replaced.not_shownIn (h : Replaced a found) : ¬a.ShownIn found := by
  obtain ⟨pane, agent, rfl, hag, hk, hm⟩ := h
  rintro ⟨pane', heq, hsh⟩
  obtain rfl := some.inj heq
  simp only [RuntimeManagedAgent.ShownBy, hag, hk, if_true, hm] at hsh
  cases hsh

/-- The pane is shown, and no agent of this kind in it. -/
def Unshown (kind : Text) (found : Option (RuntimePane δ)) : Prop :=
  ∃ pane, found = some pane ∧ pane.agent.map RuntimeAgent.kind ≠ some kind

theorem Unshown.mark {kind : Text} (h : Unshown kind found) (b : RuntimeManagedAgent δ) : Unshown kind (found.map (.mark b)) := by
  obtain ⟨pane, rfl, hk⟩ := h
  refine ⟨pane.mark b, rfl, ?_⟩
  rw [RuntimePane.mark, Option.map_map]
  exact hk

theorem Unshown.shownIn_iff (h : Unshown a.kind found) : a.ShownIn found ↔ a.observed = false := by
  obtain ⟨pane, rfl, hk⟩ := h
  have hsh : a.ShownBy pane ↔ a.observed = false := by
    rw [RuntimeManagedAgent.ShownBy]
    split
    · rename_i agent hag
      rw [hag, map_some, ne_eq, some.injEq] at hk
      rw [if_neg hk]
    · exact .rfl
  constructor
  · rintro ⟨pane', heq, h⟩
    obtain rfl := some.inj heq
    exact hsh.mp h
  · exact fun h => ⟨pane, rfl, hsh.mpr h⟩

/-- The agent that the one in a pane is taken for: the first one that it may be. -/
def takenFor (i : PaneIdentity) (found : Option (RuntimePane δ)) (agents : List (RuntimeManagedAgent δ)) : Option (RuntimeManagedAgent δ) :=
  agents.find? (takes i found)

theorem takenFor_agentsOf (found : Option (RuntimePane δ)) (agents : List (RuntimeManagedAgent δ)) :
    takenFor i found (agentsOf i agents) = takenFor i found agents := by
  rw [takenFor, agentsOf, find?_filter]
  refine congrArg (fun q => agents.find? q) (funext fun a => ?_)
  simp only [takes]
  by_cases h : a.identity = i <;> simp [h]

theorem ne_of_mem_projectAgents {b : RuntimeManagedAgent δ} (hb : b.agentId ∉ agents.map agentId)
    (ha' : a' ∈ (projectAgents snapshot agents).2.1) (hid : a'.agentId = a.agentId) : b.agentId ≠ a.agentId := by
  intro heq
  refine hb ?_
  rw [heq, ← hid, ← projectAgents_ids snapshot agents]
  exact mem_map_of_mem ha'

/-- Where the agent that is shown is not taken for this one, this one is closed. -/
theorem projectAgents_not_taken (hfd : snapshot.findPane a.windowId a.paneId = some pane) (hag : pane.agent = some agent)
    (hk : agent.kind = a.kind) (htk : takenFor a.identity (some pane) agents ≠ some a)
    (hi : (agents.map agentId).Nodup) (ha : a ∈ agents) (hact : a.active = true)
    (ha' : a' ∈ (projectAgents snapshot agents).2.1) (hid : a'.agentId = a.agentId) : a'.active = false := by
  induction agents generalizing snapshot with
  | nil => exact nomatch ha
  | cons b agents ih =>
    have hi' := nodup_cons.mp (map_cons ▸ hi)
    have hhd := (projectManagedAgent_agent snapshot b).1
    have haft : (projectManagedAgent snapshot b).1.findPane a.windowId a.paneId =
        if b.takes a.identity (some pane) then some (pane.mark b) else some pane := by
      have h : (projectManagedAgent snapshot b).1.findPane a.identity.1 a.identity.2 = _ := projectManagedAgent_found b
      rwa [show snapshot.findPane a.identity.1 a.identity.2 = some pane from hfd] at h
    by_cases ht : b.takes a.identity (some pane) = true
    · rw [takenFor, find?_cons, ht] at htk
      have hne : b.agentId ≠ a.agentId := fun heq => htk (congrArg some (inj_on_of_nodup_map hi mem_cons_self ha heq))
      have hm : a ∈ agents := (mem_cons.mp ha).resolve_left fun heq => hne (congrArg agentId heq.symm)
      rcases mem_cons.mp ha' with rfl | ha'
      · exact absurd (hhd.symm.trans hid) hne
      have hr : Replaced a ((projectManagedAgent snapshot b).1.findPane a.windowId a.paneId) := by
        rw [haft, if_pos ht]
        exact replaced_mark hag hk hne
      have hact' := projectAgents_active_iff (v := False) (Replaced a) (fun c _ hc found hr _ => by
          obtain ⟨pane, agent, rfl, hag, hk, -⟩ := hr
          exact replaced_mark hag hk hc)
        (fun _ h => iff_false_intro h.not_shownIn) hi'.2 hm hact hr ha' hid
      exact Bool.eq_false_iff.mpr hact'.mp
    · rw [takenFor, find?_cons, Bool.eq_false_iff.mpr ht] at htk
      rw [if_neg ht] at haft
      rcases mem_cons.mp ha' with rfl | ha'
      · rcases mem_cons.mp ha with rfl | ha
        · refine Bool.eq_false_iff.mpr fun h => ht ?_
          obtain ⟨pane', heq, hsh⟩ := (projectManagedAgent_active_iff hact).mp h
          obtain rfl := some.inj (hfd.symm.trans heq)
          simp only [RuntimeManagedAgent.ShownBy, hag, hk, if_true] at hsh
          simp [takes, hact, hag, hk, hsh]
        · exact absurd (mem_map_of_mem ha) (hid.symm.trans hhd ▸ hi'.1)
      · have hm : a ∈ agents := (mem_cons.mp ha).resolve_left fun heq => ne_of_mem_projectAgents hi'.1 ha' hid (congrArg agentId heq.symm)
        exact ih haft htk hi'.2 hm ha'

/-- Where the agent that is shown is taken for this one, this one stays active. -/
theorem projectAgents_taken (hfd : snapshot.findPane a.windowId a.paneId = some pane) (htk : takenFor a.identity (some pane) agents = some a)
    (hi : (agents.map agentId).Nodup)
    (ha' : a' ∈ (projectAgents snapshot agents).2.1) (hid : a'.agentId = a.agentId) : a'.active = true := by
  induction agents generalizing snapshot with
  | nil => cases htk
  | cons b agents ih =>
    have hi' := nodup_cons.mp (map_cons ▸ hi)
    rw [takenFor, find?_cons] at htk
    by_cases ht : b.takes a.identity (some pane) = true
    · rw [ht] at htk
      obtain rfl := some.inj htk
      simp only [takes, Bool.and_eq_true, bind_some] at ht
      obtain ⟨⟨hact, -⟩, hany⟩ := ht
      rcases mem_cons.mp ha' with rfl | ha'
      · refine (projectManagedAgent_active_iff hact).mpr ⟨pane, hfd, ?_⟩
        cases hag : pane.agent with
        | none => cases hag ▸ hany
        | some agent =>
          rw [hag, any_some, Bool.and_eq_true, decide_eq_true_eq, Bool.not_eq_true'] at hany
          simp only [RuntimeManagedAgent.ShownBy, hag, hany.1, if_true, hany.2]
      · exact absurd rfl (ne_of_mem_projectAgents hi'.1 ha' hid)
    · rw [Bool.eq_false_iff.mpr ht] at htk
      have hnx : (projectManagedAgent snapshot b).1.findPane a.windowId a.paneId = some pane := by
        have h : (projectManagedAgent snapshot b).1.findPane a.identity.1 a.identity.2 = _ := projectManagedAgent_found b
        rwa [show snapshot.findPane a.identity.1 a.identity.2 = some pane from hfd, if_neg ht] at h
      rcases mem_cons.mp ha' with rfl | ha'
      · have hm : a.agentId ∈ agents.map agentId := mem_map_of_mem (mem_of_find?_eq_some htk)
        have heq : b.agentId = a.agentId := (projectManagedAgent_agent snapshot b).1.symm.trans hid
        exact absurd (heq ▸ hm) hi'.1
      · exact ih hnx htk hi'.2 ha'

end

/-! ### Publication -/

/-- Of two agents of one kind that were registered for one pane, the earlier one is kept and the later one closed. -/
def keepsEarlier (a b : RuntimeManagedAgent δ) (found : Option (RuntimePane δ))
    (agents : List (RuntimeManagedAgent δ)) [DecidableEq δ] : Bool :=
  match found with
  | none => false
  | some pane =>
    if pane.agent.map RuntimeAgent.kind = some a.kind then decide (takenFor a.identity (some pane) agents = some a)
    else !a.observed && b.observed

/-- Two active agents of one kind, for one pane, the first of them registered earlier. -/
structure Rivals (a b : RuntimeManagedAgent δ) : Prop where
  active : a.active = true ∧ b.active = true
  identity : a.identity = b.identity
  kind : a.kind = b.kind
  earlier : a.agentId < b.agentId

instance (a b : RuntimeManagedAgent δ) : Decidable (Rivals a b) :=
  decidable_of_iff ((a.active = true ∧ b.active = true) ∧ a.identity = b.identity ∧ a.kind = b.kind ∧ a.agentId < b.agentId)
    ⟨fun ⟨h₁, h₂, h₃, h₄⟩ => ⟨h₁, h₂, h₃, h₄⟩, fun ⟨h₁, h₂, h₃, h₄⟩ => ⟨h₁, h₂, h₃, h₄⟩⟩

/-- Of the agents of one kind that were registered for one pane, the latest is the one that is still active. -/
structure LatestSurvives (snapshot : RuntimeSnapshot δ) (state state' : HubState δ) : Prop where
  /-- An earlier one is active only where the later ones are too, and the pane does not show the kind. -/
  earlier : ∀ a ∈ state.managedAgents, ∀ b ∈ state.managedAgents, Rivals a b → ∀ a' ∈ state'.managedAgents, a'.agentId = a.agentId →
    a'.active = true → (∃ b' ∈ state'.managedAgents, b'.agentId = b.agentId ∧ b'.active = true) ∧
      ((snapshot.findPane a.windowId a.paneId).bind RuntimePane.agent).map RuntimeAgent.kind ≠ some a.kind
  /-- Where the pane shows any of them still, the latest is active. -/
  latest : ∀ b ∈ state.managedAgents, b.active = true → (∀ c ∈ state.managedAgents, ¬Rivals b c) →
    ∀ a ∈ state.managedAgents, a = b ∨ Rivals a b → a.ShownIn (snapshot.findPane b.windowId b.paneId) →
    ∀ b' ∈ state'.managedAgents, b'.agentId = b.agentId → b'.active = true
  /-- Those that are registered are still there. -/
  ids : (state'.managedAgents.map agentId).Perm (state.managedAgents.map agentId)

section
variable {state : HubState δ} {snapshot : RuntimeSnapshot δ} {a : RuntimeManagedAgent δ} {call : Call δ}

theorem mem_paneIdentities_of_findPane {w p : ℕ} {pane : RuntimePane δ} (h : snapshot.findPane w p = some pane) :
    (w, p) ∈ snapshot.paneIdentities := by
  obtain ⟨window, hwin, hpane⟩ := bind_eq_some_iff.mp h
  have hw := find?_some hwin
  have hp := find?_some hpane
  rw [decide_eq_true_eq] at hw hp
  refine mem_map.mpr ⟨(w, pane), ?_, by rw [hp]⟩
  refine mem_flatMap.mpr ⟨window, mem_of_find?_eq_some hwin, ?_⟩
  exact mem_map.mpr ⟨pane, mem_of_find?_eq_some hpane, by rw [hw]⟩

theorem recordPaneLifecycleLocked_active {windowId paneId : ℕ} {event : RuntimePaneLifecycleKind}
    (ha : a ∈ (recordPaneLifecycleLocked windowId paneId event state).1.managedAgents) (hact : a.active = true) :
    a ∈ state.managedAgents := by
  rw [recordPaneLifecycleLocked] at ha
  split at ha
  · exact ha
  obtain ⟨b, hb, rfl⟩ := mem_map.mp ha
  split at hact
  · cases hact
  · rename_i h
    rw [if_neg h]
    exact hb

/-- The record of ended panes changes no agent that stays active. -/
theorem afterRemoval_active (ha : a ∈ (afterRemoval state snapshot).managedAgents) (hact : a.active = true) : a ∈ state.managedAgents := by
  have hfold (removed : List PaneIdentity) (s : HubState δ)
      (h : a ∈ (removed.foldl (fun s i => (recordPaneLifecycleLocked i.1 i.2 .closed s).1) s).managedAgents) : a ∈ s.managedAgents := by
    induction removed generalizing s with
    | nil => exact h
    | cons i removed ih => exact recordPaneLifecycleLocked_active (ih _ h) hact
  rw [afterRemoval, observeRemovedPanes] at ha
  split at ha
  · exact ha
  · exact hfold _ { state with pendingPaneRelocations := .empty } ha

variable [DecidableEq δ]

/-- The publication keeps no earlier agent in the place of a later one. -/
def FairPublish (snapshot : RuntimeSnapshot δ) (state : HubState δ) : Prop :=
  ∀ a ∈ state.managedAgents, ∀ b ∈ state.managedAgents, Rivals a b →
    keepsEarlier a b (snapshot.findPane a.windowId a.paneId) state.managedAgents = false

instance (snapshot : RuntimeSnapshot δ) (state : HubState δ) : Decidable (FairPublish snapshot state) := by
  unfold FairPublish
  infer_instance

/-- The publication keeps the agent active: the pane shows it, or does not show its kind and has not yet. -/
def RuntimeManagedAgent.remains (a : RuntimeManagedAgent δ) (snapshot : RuntimeSnapshot δ) (state : HubState δ) : Bool :=
  match snapshot.findPane a.windowId a.paneId with
  | none => false
  | some pane =>
    if pane.agent.map RuntimeAgent.kind = some a.kind then decide (takenFor a.identity (some pane) state.managedAgents = some a)
    else !a.observed

theorem publish_active (h : DistinctIds state) (ha : a ∈ state.managedAgents) (hact : a.active = true)
    (hr : a.remains snapshot state = true) (ha' : a' ∈ (publish snapshot state).managedAgents)
    (hid : a'.agentId = a.agentId) : a'.active = true := by
  rw [(publish_publishes state snapshot).managedAgents] at ha'
  have hi : ((afterRemoval state snapshot).managedAgents.map agentId).Nodup :=
    (afterRemoval_keepsAgents state snapshot).agents.ids.nodup_iff.mpr h.ids
  rw [RuntimeManagedAgent.remains] at hr
  split at hr
  · exact nomatch hr
  rename_i pane hfd
  have hu : Untouched a.identity { state with pendingPaneRelocations := .empty } (afterRemoval state snapshot) :=
    (observeRemovedPanes_spec _ (mem_paneIdentities_of_findPane hfd)).1
  have hsh : ({ snapshot with paneLifecycles := (afterRemoval state snapshot).paneLifecycles } : RuntimeSnapshot δ).findPane
      a.windowId a.paneId = some pane := hfd
  split at hr
  · refine projectAgents_taken hsh ?_ hi ha' hid
    rw [← takenFor_agentsOf, show agentsOf a.identity (afterRemoval state snapshot).managedAgents = _ from hu.agents, takenFor_agentsOf]
    exact of_decide_eq_true hr
  · rename_i hk
    refine (projectAgents_active_iff (Unshown a.kind) (fun d _ _ _ h _ => h.mark d) (fun _ h => h.shownIn_iff) hi
      ((hu.mem rfl).mpr ha) hact (hsh ▸ ⟨pane, rfl, hk⟩) ha' hid).mpr ?_
    simpa using hr

/-- Where the pane shows one of the agents of a kind still, the latest of them stays. -/
theorem FairPublish.remains (hfair : FairPublish snapshot state) (hreg : Registry state) {b : RuntimeManagedAgent δ}
    (hb : b ∈ state.managedAgents) (hact : b.active = true) (hlast : ∀ c ∈ state.managedAgents, ¬Rivals b c)
    (ha : a ∈ state.managedAgents) (hab : a = b ∨ Rivals a b) (hsh : a.ShownIn (snapshot.findPane b.windowId b.paneId)) :
    b.remains snapshot state = true := by
  obtain ⟨pane, hfd, hby⟩ := hsh
  have hgrp : a.active = true ∧ a.identity = b.identity ∧ a.kind = b.kind := by
    rcases hab with rfl | hr
    · exact ⟨hact, rfl, rfl⟩
    · exact ⟨hr.active.1, hr.identity, hr.kind⟩
  have hfound {c : RuntimeManagedAgent δ} (hid : c.identity = b.identity) : snapshot.findPane c.windowId c.paneId = some pane := by
    obtain ⟨hw, hp⟩ := Prod.mk.inj hid
    rw [hw, hp, hfd]
  rw [RuntimeManagedAgent.remains]
  simp only [hfd]
  by_cases hk : pane.agent.map RuntimeAgent.kind = some b.kind
  · rw [if_pos hk, decide_eq_true_eq]
    obtain ⟨agent, hag, hkind⟩ := map_eq_some_iff.mp hk
    have hta : a.takes b.identity (some pane) = true := by
      simp only [RuntimeManagedAgent.ShownBy, hag, hkind, hgrp.2.2, if_true] at hby
      simp [takes, hgrp, hag, hkind, hby]
    cases htk : takenFor b.identity (some pane) state.managedAgents with
    | none => exact absurd hta (find?_eq_none.mp htk a ha)
    | some c =>
      have hc : c ∈ state.managedAgents := mem_of_find?_eq_some htk
      have htc : c.takes b.identity (some pane) = true := find?_some htk
      simp only [takes, Bool.and_eq_true, decide_eq_true_eq, bind_some, hag, any_some] at htc
      obtain ⟨⟨hcact, hcid⟩, hck, -⟩ := htc
      rw [hkind] at hck
      -- the agent that is taken is of the same kind, and neither later nor earlier
      rcases lt_trichotomy c.agentId b.agentId with hlt | heq | hgt
      · have hn := hfair c hc b hb ⟨⟨hcact, hact⟩, hcid, hck.symm, hlt⟩
        simp only [keepsEarlier, hfound hcid, hk, hck, if_true, decide_eq_false_iff_not] at hn
        rw [hcid] at hn
        exact absurd htk hn
      · rw [inj_on_of_nodup_map hreg.ids hc hb heq]
      · exact absurd ⟨⟨hact, hcact⟩, hcid.symm, hck, hgt⟩ (hlast c hc)
  · rw [if_neg hk]
    have hob : a.observed = false := by
      have huns : Unshown a.kind (some pane) := ⟨pane, rfl, hgrp.2.2 ▸ hk⟩
      exact huns.shownIn_iff.mp ⟨pane, rfl, hby⟩
    rcases hab with rfl | hr
    · rw [hob]
      rfl
    · have hn := hfair a ha b hb hr
      simp only [keepsEarlier, hfound hr.identity, hr.kind, hk, if_false, hob] at hn
      simpa using hn

/-- An earlier agent stays active only with the later ones, in a pane that does not show the kind. -/
theorem publish_earlier (hreg : Registry state) (hfair : FairPublish snapshot state) {b a' : RuntimeManagedAgent δ}
    (ha : a ∈ state.managedAgents) (hb : b ∈ state.managedAgents) (hr : Rivals a b)
    (ha' : a' ∈ (publish snapshot state).managedAgents) (hid : a'.agentId = a.agentId) (hact' : a'.active = true) :
    (∃ b' ∈ (publish snapshot state).managedAgents, b'.agentId = b.agentId ∧ b'.active = true) ∧
      ((snapshot.findPane a.windowId a.paneId).bind RuntimePane.agent).map RuntimeAgent.kind ≠ some a.kind := by
  have hkp := afterRemoval_keepsAgents state snapshot
  have hi : ((afterRemoval state snapshot).managedAgents.map agentId).Nodup := hkp.agents.ids.nodup_iff.mpr hreg.ids
  have hm := (publish_publishes state snapshot).managedAgents
  rw [hm] at ha' ⊢
  have hs {c c' : RuntimeManagedAgent δ} (hc : c ∈ state.managedAgents) (hc' : c' ∈ (projected state snapshot).2.1)
      (hcid : c'.agentId = c.agentId) (hact : c'.active = true) : c ∈ (afterRemoval state snapshot).managedAgents := by
    obtain ⟨c1, hc1, hl⟩ := (projectAgents_evolves _ _).later c' hc'
    have hmem := afterRemoval_active hc1 (hl.active hact)
    obtain rfl := inj_on_of_nodup_map hreg.ids hmem hc (hl.agentId.symm.trans hcid)
    exact hc1
  have ha1 := hs ha ha' hid hact'
  have hact := hr.active.1
  have hsh : ({ snapshot with paneLifecycles := (afterRemoval state snapshot).paneLifecycles } : RuntimeSnapshot δ).findPane
      a.windowId a.paneId = snapshot.findPane a.windowId a.paneId := rfl
  cases hfd : snapshot.findPane a.windowId a.paneId with
  | none =>
    rw [hfd] at hsh
    have hcl := projectAgents_active_iff (v := False) (fun found => found = none) (fun c _ _ found h _ => by rw [h]; rfl)
      (fun found h => iff_false_intro fun ⟨pane, heq, _⟩ => nomatch h.symm.trans heq) hi ha1 hact hsh ha' hid
    exact absurd hact' hcl.mp
  | some pane =>
    rw [hfd] at hsh
    have hu : Untouched a.identity { state with pendingPaneRelocations := .empty } (afterRemoval state snapshot) :=
      (observeRemovedPanes_spec _ (mem_paneIdentities_of_findPane hfd)).1
    have hn := hfair a ha b hb hr
    simp only [keepsEarlier, hfd] at hn
    by_cases hk : pane.agent.map RuntimeAgent.kind = some a.kind
    · obtain ⟨agent, hag, hk'⟩ := map_eq_some_iff.mp hk
      simp only [hk, if_true, decide_eq_false_iff_not] at hn
      have htk : takenFor a.identity (some pane) (afterRemoval state snapshot).managedAgents ≠ some a := by
        rw [← takenFor_agentsOf, show agentsOf a.identity (afterRemoval state snapshot).managedAgents = _ from hu.agents,
          takenFor_agentsOf]
        exact hn
      have hcl := projectAgents_not_taken hsh hag hk' htk hi ha1 hact ha' hid
      exact absurd (hcl.symm.trans hact') Bool.false_ne_true
    · have huns : Unshown a.kind (some pane) := ⟨pane, rfl, hk⟩
      have hst (c : RuntimeManagedAgent δ) (hc : c ∈ (afterRemoval state snapshot).managedAgents) (hcac : c.active = true)
          (hide : c.identity = a.identity) (hcki : c.kind = a.kind) {c' : RuntimeManagedAgent δ}
          (hc' : c' ∈ (projected state snapshot).2.1) (hcid : c'.agentId = c.agentId) : c'.active = true ↔ c.observed = false := by
        obtain ⟨hw, hp⟩ := Prod.mk.inj hide
        rw [← hw, ← hp] at hsh
        exact projectAgents_active_iff (Unshown c.kind) (fun d _ _ _ h _ => h.mark d) (fun _ h => h.shownIn_iff) hi hc hcac
          (hsh ▸ hcki ▸ huns) hc' hcid
      have ho := (hst a ha1 hact rfl rfl ha' hid).mp hact'
      have hb1 : b ∈ (afterRemoval state snapshot).managedAgents := (hu.mem hr.identity.symm).mpr hb
      have hbid : b.agentId ∈ (projected state snapshot).2.1.map agentId := by
        rw [projected, projectAgents_ids]
        exact mem_map_of_mem hb1
      obtain ⟨b', hb', hbid⟩ := mem_map.mp hbid
      refine ⟨⟨b', hb', hbid, ?_⟩, hk⟩
      refine (hst b hb1 hr.active.2 hr.identity.symm hr.kind.symm hb' hbid).mpr ?_
      simpa [hk, ho] using hn

theorem publish_latestSurvives (hreg : Registry state) (hfair : FairPublish snapshot state) :
    LatestSurvives snapshot state (publish snapshot state) where
  earlier _ ha _ hb hr _ := publish_earlier hreg hfair ha hb hr
  latest _ hb hact hlast _ ha hab hsh _ :=
    publish_active hreg.distinctIds hb hact (hfair.remains hreg hb hact hlast ha hab hsh)
  ids := (publish_keepsAgents snapshot state).agents.ids

/-! ### Runs of the hub -/

/-- The snapshot that a call publishes, and the state that it is published on. -/
def publication (state : HubState δ) : Call δ → Option (RuntimeSnapshot δ × HubState δ)
  | .publish snapshot => some (snapshot, state)
  | .recordPaneLifecycle windowId paneId event =>
    let locked := recordPaneLifecycleLocked windowId paneId event state
    if locked.2 then locked.1.current.map fun snapshot => (snapshot, locked.1) else none
  | _ => none

/-- There is an id for an agent that is registered, and its name has generations left where it is free. -/
def FairRegistration (state : HubState δ) : Call δ → Prop
  | .registerAgent name .. => state.IdLeft ∧ ((∀ a ∈ state.managedAgents, a.active = true → a.name ≠ name) → GenerationLeft name state)
  | _ => True

/-- What a call is to meet. -/
def Fair (state : HubState δ) (call : Call δ) : Prop :=
  FairRegistration state call ∧ ∀ p ∈ publication state call, FairPublish p.1 p.2

omit [DecidableEq δ] in
theorem recordPaneLifecycleLocked_registry (windowId paneId : ℕ) (event : RuntimePaneLifecycleKind) (h : Registry state) :
    Registry (recordPaneLifecycleLocked windowId paneId event state).1 :=
  h.keeps (recordPaneLifecycleLocked_keepsAgents windowId paneId event state)

theorem recordPaneLifecycle_eq (windowId paneId : ℕ) (event : RuntimePaneLifecycleKind) (state : HubState δ) :
    recordPaneLifecycle windowId paneId event state =
      match publication state (.recordPaneLifecycle windowId paneId event) with
      | some (snapshot, state) => publish snapshot state
      | none => (recordPaneLifecycleLocked windowId paneId event state).1 := by
  rw [recordPaneLifecycle, publication]
  generalize recordPaneLifecycleLocked windowId paneId event state = locked
  obtain ⟨state, recorded⟩ := locked
  cases recorded with
  | false => rfl
  | true =>
    cases hc : state.current with
    | none => simp only [hc, if_true, map_none]
    | some current => simp only [hc, if_true, map_some]

theorem publication_spec {p : RuntimeSnapshot δ × HubState δ} (h : p ∈ publication state call) (hr : Registry state) :
    state.step call = publish p.1 p.2 ∧ Registry p.2 := by
  cases call with
  | publish snapshot =>
    obtain rfl := some.inj h
    exact ⟨rfl, hr⟩
  | recordPaneLifecycle windowId paneId event =>
    refine ⟨?_, ?_⟩
    · rw [step, recordPaneLifecycle_eq, mem_def.mp h]
    · rw [mem_def, publication] at h
      split at h
      · obtain ⟨snapshot, -, rfl⟩ := map_eq_some_iff.mp h
        exact recordPaneLifecycleLocked_registry windowId paneId event hr
      · cases h
  | movePanesToWindow | registerAgent | closeAgent | waitRun | reorder => cases h

/-- A call registers an agent, or keeps those that there are. -/
theorem step_keepsAgents (state : HubState δ) (call : Call δ) : KeepsAgents state (state.step call) ∨
      ∃ name kind windowId paneId sessionId worktree, call = .registerAgent name kind windowId paneId sessionId worktree := by
  cases call with
  | publish snapshot => exact .inl (publish_keepsAgents snapshot state)
  | movePanesToWindow source target paneIds => exact .inl (movePanesToWindow_keepsAgents source target paneIds state)
  | recordPaneLifecycle windowId paneId event => exact .inl (recordPaneLifecycle_keepsAgents windowId paneId event state)
  | registerAgent name kind windowId paneId sessionId worktree => exact .inr ⟨name, kind, windowId, paneId, sessionId, worktree, rfl⟩
  | closeAgent agentId reason => exact .inl (closeAgent_keepsAgents agentId reason state)
  | waitRun windowId paneId runId => exact .inl (waitRun_keepsAgents windowId paneId runId state)
  | reorder agents pending =>
    rw [step]
    split
    · rename_i hperm
      exact .inl ⟨rfl, rfl, .of_perm hperm.1⟩
    · exact .inl (.refl state)

theorem step_registry (h : Registry state) (hfair : Fair state call) :
    Registry (state.step call) ∧ ∀ a ∈ state.managedAgents, ∃ a' ∈ (state.step call).managedAgents, Later a a' := by
  rcases step_keepsAgents state call with hkp | ⟨name, kind, windowId, paneId, sessionId, worktree, rfl⟩
  · exact ⟨h.keeps hkp, fun _ ha => hkp.agents.exists_later h.ids ha⟩
  · exact ⟨h.registerAgent hfair.1.1 hfair.1.2, fun a ha => ⟨a, registerAgent_later h.distinctIds ha, .refl a⟩⟩

/-- The states that fair calls lead to. -/
def FairRun : HubState δ → HubState δ → Prop := Relation.ReflTransGen fun state state' => ∃ call, Fair state call ∧ state' = state.step call

theorem FairRun.registry {state' : HubState δ} (h : Registry state) (hr : FairRun state state') :
    Registry state' ∧ ∀ a ∈ state.managedAgents, ∃ a' ∈ state'.managedAgents, Later a a' := by
  induction hr with
  | refl => exact ⟨h, fun a ha => ⟨a, ha, .refl a⟩⟩
  | tail _ hst ih =>
    obtain ⟨call, hfair, rfl⟩ := hst
    obtain ⟨hreg, hl⟩ := step_registry ih.1 hfair
    refine ⟨hreg, fun a ha => ?_⟩
    obtain ⟨a', ha', h'⟩ := ih.2 a ha
    obtain ⟨a'', ha'', h''⟩ := hl a' ha'
    exact ⟨a'', ha'', h'.trans h''⟩

omit [DecidableEq δ] in
theorem registry_new : Registry (new : HubState δ) := ⟨nodup_nil, nofun, nofun, nofun, nofun⟩

/-- What is to be so of the agents in a state. -/
structure AgentsSafe (agentIdText : ℕ → Text) (state : HubState δ) : Prop where
  names : ∀ a ∈ state.managedAgents, ∀ b ∈ state.managedAgents, a.active = true → b.active = true → a.name = b.name → a = b
  generations : ∀ a ∈ state.managedAgents, ∀ b ∈ state.managedAgents, a.name = b.name → a.agentId < b.agentId →
    a.generation < b.generation
  selected : ∀ selector g requireActive agent, managedAgent agentIdText selector (some g) requireActive state = .ok agent →
    agent.generation = g

/-- **The agents of a pane are told apart where the map favours the latest**: in a run of fair calls, active
agents have different names, the generations of a name increase, and an agent of another generation is never
selected. An agent that was closed stays closed, for the same reason, and a publication keeps the latest of the
agents of a kind that were registered for one pane. -/
theorem agents_safe (agentIdText : ℕ → Text) {state' : HubState δ} (h : FairRun new state) (h' : FairRun state state') :
    AgentsSafe agentIdText state' ∧ (∀ a ∈ state.managedAgents, ∃ a' ∈ state'.managedAgents, Later a a') ∧
      ∀ call, Fair state' call → ∀ p ∈ publication state' call, LatestSurvives p.1 p.2 (state'.step call) := by
  obtain ⟨hreg, -⟩ := h.registry registry_new
  obtain ⟨hreg', hlat⟩ := h'.registry hreg
  refine ⟨⟨fun a ha b hb haa hba hnm => ?_, hreg'.generations, fun _ _ _ _ => managedAgent_generation⟩, hlat, fun call hfair p hp => ?_⟩
  · exact inj_on_of_nodup_map hreg'.ids ha hb (hreg'.names a ha b hb haa hba hnm)
  · obtain ⟨hst, hreg1⟩ := publication_spec hp hreg'
    rw [hst]
    exact publish_latestSurvives hreg1 (hfair.2 p hp)

end

/-! ### An agent that is replaced -/

/-- The pane 3 of the window 7, with a codex in it. -/
def codexSnapshot : RuntimeSnapshot Unit :=
  sampleSnapshot [{ samplePane 3 .running with agent := some ⟨none, none, none, none, "codex".toList, none, ()⟩ }] []

/-- Two agents are registered for the pane one after the other, and no end of the first is observed. -/
def rivalsHub : HubState Unit :=
  (new.step registerReviewer).step (.registerAgent "writer".toList "codex".toList 7 3 none none)

/-- The same agents in the other order. -/
def reorderedHub : HubState Unit := rivalsHub.step (.reorder rivalsHub.managedAgents.reverse .empty)

/-- Which of the two agents a publication keeps depends on the order of the map: it may be the earlier one. -/
theorem agents_gap :
    ((rivalsHub.step (.publish codexSnapshot)).managedAgents.map fun a => (a.agentId, a.active)) = [(1, true), (2, false)] ∧
    ((reorderedHub.step (.publish codexSnapshot)).managedAgents.map fun a => (a.agentId, a.active)) = [(2, true), (1, false)] ∧
    ¬LatestSurvives codexSnapshot rivalsHub (rivalsHub.step (.publish codexSnapshot)) := by
  refine ⟨by decide, by decide, fun h => ?_⟩
  have he := h.earlier
  revert he
  decide

theorem reorderedHub_fair : FairRun new reorderedHub := by
  have hst {s : HubState Unit} {call : Call Unit} (h : FairRun new s) (hcall : publication s call = none)
      (hlf : FairRegistration s call) : FairRun new (s.step call) :=
    h.tail ⟨call, ⟨hlf, fun p hp => nomatch hcall ▸ hp⟩, rfl⟩
  have hr : FairRun new rivalsHub := by
    refine hst (hst .refl rfl ⟨?_, fun _ => ?_⟩) rfl ⟨?_, fun _ => ?_⟩ <;> decide
  exact hst hr rfl trivial

/-- Where the later agent is the first one of the map, it is kept. -/
theorem agents_safe_sample :
    LatestSurvives codexSnapshot reorderedHub (reorderedHub.step (.publish codexSnapshot)) := by
  have hfair : Fair reorderedHub (.publish codexSnapshot) := by
    refine ⟨trivial, fun p hp => ?_⟩
    obtain rfl := some.inj hp
    decide
  exact (agents_safe (fun _ => []) reorderedHub_fair .refl).2.2 (.publish codexSnapshot) hfair _ rfl

end Pebrel.Runtime
