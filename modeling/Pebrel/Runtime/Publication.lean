import Pebrel.Runtime.Hub
import Mathlib.Data.List.Nodup

/-!
# What a publication does

A publication goes through the panes of a snapshot several times: to see which
panes are gone, which agents are still there, how often a pane changed, and which
runs are over. Here is what each of these does to one pane, of which nothing is
assumed but where the snapshot shows it and where the last one did.
-/

namespace Pebrel.Runtime

open Library List Option Function RuntimeSnapshot
open RuntimeManagedAgent (agentId mismatches stamp)

variable {δ : Type}

/-! ### Changing the first element -/

section
variable {α κ : Type} [DecidableEq κ] {key : α → κ} {f : α → α}

theorem find?_modifyWhere (k k' : κ) (hf : ∀ a, key (f a) = key a) (l : List α) :
    (modifyWhere (fun a => key a = k') f l).find? (fun a => key a = k) =
      if k = k' then (l.find? fun a => key a = k).map f else l.find? fun a => key a = k := by
  induction l with
  | nil => simp [modifyWhere]
  | cons a l ih =>
    rw [modifyWhere]
    by_cases ha : key a = k'
    · by_cases hk : k = k'
      · simp [ha, hk, hf]
      · simp [ha, hk, hf, Ne.symm hk]
    by_cases hk : k = k'
    · simp only [ha, decide_false, Bool.false_eq_true, if_false, find?_cons, hk, if_true] at ih ⊢
      exact ih
    · simp only [ha, decide_false, Bool.false_eq_true, if_false, find?_cons, hk] at ih ⊢
      rw [ih]

theorem map_modifyWhere {β : Type} {g : α → β} (hf : ∀ a, g (f a) = g a) (q : α → Bool) (l : List α) :
    (modifyWhere q f l).map g = l.map g := by
  induction l with
  | nil => rfl
  | cons a l ih =>
    rw [modifyWhere]
    split
    · rw [map_cons, map_cons, hf]
    · rw [map_cons, map_cons, ih]

omit [DecidableEq κ] in
theorem map_key_nodup_reverse {l : List α} (h : (l.map key).Nodup) : (l.reverse.map key).Nodup := by
  rw [map_reverse]
  exact nodup_reverse.mpr h

/-- Where keys differ, an element is found by its key. -/
theorem find?_of_nodup {l : List α} (h : (l.map key).Nodup) {a : α} (ha : a ∈ l) : l.find? (fun b => key b = key a) = some a := by
  induction l with
  | nil => exact nomatch ha
  | cons b l ih =>
    rw [map_cons, nodup_cons] at h
    rcases mem_cons.mp ha with rfl | ha
    · simp only [find?_cons, decide_true]
    · have hne : key b ≠ key a := fun heq => h.1 (heq ▸ List.mem_map_of_mem ha)
      simp only [find?_cons, hne, decide_false]
      exact ih h.2 ha

theorem modifyWhere_append (q : α → Bool) (l l' : List α) :
    modifyWhere q f (l ++ l') = if l.any q then modifyWhere q f l ++ l' else l ++ modifyWhere q f l' := by
  induction l with
  | nil => rfl
  | cons a l ih =>
    rw [cons_append, modifyWhere, modifyWhere, any_cons, ih]
    cases q a with
    | true => rfl
    | false =>
      simp only [Bool.false_or, Bool.false_eq_true, if_false]
      split <;> rfl

end

/-! ### The panes of a snapshot -/

namespace RuntimeWindow

theorem panes_modifyPane (p : ℕ) (f : RuntimePane δ → RuntimePane δ) (w : RuntimeWindow δ) :
    (w.modifyPane p f).panes = modifyWhere (fun pane => pane.id = p) f w.panes := by
  obtain ⟨id, tabs, details⟩ := w
  simp only [modifyPane, panes]
  induction tabs with
  | nil => rfl
  | cons t tabs ih =>
    rw [flatMap_cons, modifyWhere_append, ← ih, modifyWhere]
    split
    · rw [flatMap_cons]
    · rw [flatMap_cons]

end RuntimeWindow

namespace RuntimeSnapshot

variable {s : RuntimeSnapshot δ}

/-- The windows have different numbers, and the panes of a window too. -/
structure WellFormed (s : RuntimeSnapshot δ) : Prop where
  windows : (s.windows.map RuntimeWindow.id).Nodup
  panes : s.paneIdentities.Nodup

/-- A pane without its agent. -/
def withoutAgent (e : ℕ × RuntimePane δ) : ℕ × RuntimePane δ := (e.1, { e.2 with agent := none })

theorem findPane_modifyPane {w p w' p' : ℕ} {f : RuntimePane δ → RuntimePane δ} (hf : ∀ pane, (f pane).id = pane.id) :
    (s.modifyPane w' p' f).findPane w p = if (w, p) = (w', p') then (s.findPane w p).map f else s.findPane w p := by
  have hwin := find?_modifyWhere w w' (show ∀ window, (RuntimeWindow.modifyPane p' f window).id = window.id from fun _ => rfl) s.windows
  simp only [findPane, modifyPane, hwin, Prod.mk.injEq]
  by_cases hw : w = w'
  · simp only [hw, if_true, true_and]
    cases s.windows.find? fun window => window.id = w' with
    | none => simp
    | some window =>
      have hpane := find?_modifyWhere p p' hf window.panes
      simp only [map_some, bind_some, RuntimeWindow.panes_modifyPane, hpane]
  · simp only [hw, if_false, false_and]

theorem panes_modifyPane_withoutAgent {w p : ℕ} {f : RuntimePane δ → RuntimePane δ}
    (hf : ∀ pane, { f pane with agent := none } = { pane with agent := none }) :
    (s.modifyPane w p f).panes.map withoutAgent = s.panes.map withoutAgent := by
  have hw (window : RuntimeWindow δ) : ((window.modifyPane p f).panes.map fun pane => withoutAgent (window.id, pane)) =
        window.panes.map fun pane => withoutAgent (window.id, pane) := by
    rw [RuntimeWindow.panes_modifyPane]
    exact map_modifyWhere (g := fun pane => withoutAgent (window.id, pane)) (fun pane => congrArg (Prod.mk window.id) (hf pane)) _ _
  have hm := map_modifyWhere (g := fun window : RuntimeWindow δ => window.panes.map fun pane => withoutAgent (window.id, pane))
    (f := .modifyPane p f) hw (fun window => window.id = w) s.windows
  simp only [panes, map_flatMap, List.map_map, comp_def]
  rw [flatMap_def, flatMap_def]
  exact congrArg flatten hm

theorem windowIds_modifyPane (w p : ℕ) (f : RuntimePane δ → RuntimePane δ) :
    (s.modifyPane w p f).windows.map RuntimeWindow.id = s.windows.map RuntimeWindow.id :=
  map_modifyWhere (f := RuntimeWindow.modifyPane p f) (g := RuntimeWindow.id) (fun _ => rfl) _ s.windows

theorem panes_mapPanes (f : ℕ → RuntimePane δ → RuntimePane δ) : (s.mapPanes f).panes = s.panes.map fun e => (e.1, f e.1 e.2) := by
  simp only [panes, mapPanes, RuntimeWindow.panes, flatMap_map, map_flatMap, List.map_map, comp_def]

/-- In a well-formed snapshot, the pane that is found is the one that is there. -/
theorem findPane_eq (hs : s.WellFormed) {w : ℕ} {pane : RuntimePane δ} (h : (w, pane) ∈ s.panes) : s.findPane w pane.id = some pane := by
  obtain ⟨window, hw, hm⟩ := mem_flatMap.mp h
  obtain ⟨pane', hpane, heq⟩ := List.mem_map.mp hm
  obtain ⟨rfl, rfl⟩ := Prod.mk.inj heq
  have hfd := find?_of_nodup hs.windows hw
  have hnd : (window.panes.map RuntimePane.id).Nodup := by
    have hsub : (window.panes.map fun pane => (window.id, pane.id)).Sublist s.paneIdentities := by
      rw [paneIdentities, panes, map_flatMap, flatMap_def]
      refine sublist_flatten_of_mem (List.mem_map.mpr ⟨window, hw, ?_⟩)
      rw [List.map_map]
      rfl
    have hp := hsub.nodup hs.panes
    exact List.Nodup.of_map (fun p => (window.id, p)) (by rwa [List.map_map])
  have hps := find?_of_nodup hnd hpane
  rw [findPane, hfd, bind_some, hps]

end RuntimeSnapshot

/-! ### Ended panes -/

/-- The agents of a pane. -/
def agentsOf (i : PaneIdentity) (agents : List (RuntimeManagedAgent δ)) : List (RuntimeManagedAgent δ) :=
  agents.filter fun a => a.identity = i

variable {i : PaneIdentity} {agents : List (RuntimeManagedAgent δ)} {s s' s'' state : HubState δ} {w p n : ℕ} {snapshot : RuntimeSnapshot δ}
  {relocations : ResolvedPaneRelocations} {managed : RuntimeManagedAgent δ} {pane : RuntimePane δ} {key : RunKey}
  {results : List RuntimeRunResult} {r : RuntimeRunResult}

theorem mem_agentsOf {a : RuntimeManagedAgent δ} : a ∈ agentsOf i agents ↔ a ∈ agents ∧ a.identity = i := by
  rw [agentsOf, mem_filter, decide_eq_true_eq]

/-- The agents of a pane are not changed by what changes those of others only. -/
theorem agentsOf_map {f : RuntimeManagedAgent δ → RuntimeManagedAgent δ}
    (hf : ∀ a, (f a).identity = a.identity) (hi : ∀ a, a.identity = i → f a = a) : agentsOf i (agents.map f) = agentsOf i agents := by
  induction agents with
  | nil => rfl
  | cons a agents ih =>
    rw [agentsOf, agentsOf] at ih ⊢
    rw [map_cons, filter_cons, filter_cons, hf, ih]
    split
    · rename_i ha
      rw [hi a (of_decide_eq_true ha)]
    · rfl

theorem mem_pushBounded {α : Type} {limit : ℕ} {a x : α} {queue : List α} (h : x ∈ pushBounded limit a queue) : x ∈ queue ∨ x = a := by
  have h := mem_of_mem_drop h
  rwa [mem_append, mem_singleton] at h

/-- What the record of other panes' ends leaves of a pane. -/
structure Untouched (i : PaneIdentity) (state state' : HubState δ) : Prop where
  current : state'.current = state.current
  pending : state'.pendingPaneRelocations = state.pendingPaneRelocations
  completed : state'.completedRuns = state.completedRuns
  nextAgentId : state'.nextAgentId = state.nextAgentId
  ids : state'.managedAgents.map agentId = state.managedAgents.map agentId
  agents : agentsOf i state'.managedAgents = agentsOf i state.managedAgents

theorem Untouched.refl (i : PaneIdentity) (state : HubState δ) : Untouched i state state := ⟨rfl, rfl, rfl, rfl, rfl, rfl⟩

theorem Untouched.trans (h : Untouched i s s') (h' : Untouched i s' s'') : Untouched i s s'' :=
  ⟨h'.current.trans h.current, h'.pending.trans h.pending, h'.completed.trans h.completed, h'.nextAgentId.trans h.nextAgentId,
    h'.ids.trans h.ids, h'.agents.trans h.agents⟩

theorem recordPaneLifecycleLocked_untouched (hi : (w, p) ≠ i) (event : RuntimePaneLifecycleKind)
    (state : HubState δ) : Untouched i state (recordPaneLifecycleLocked w p event state).1 := by
  rw [recordPaneLifecycleLocked]
  split
  · exact Untouched.refl i state
  refine ⟨rfl, rfl, rfl, rfl, ?_, agentsOf_map (fun a => ?_) fun a ha => ?_⟩
  · rw [List.map_map]
    refine map_congr_left fun a _ => ?_
    simp only [comp_apply]
    split <;> rfl
  · split <;> rfl
  · refine if_neg fun h => hi ?_
    exact (of_decide_eq_true (Bool.and_eq_true_iff.mp h).2).symm.trans ha

theorem recordPaneLifecycleLocked_lifecycles {event : RuntimePaneLifecycleKind} {l : RuntimePaneLifecycle}
    (h : l ∈ (recordPaneLifecycleLocked w p event state).1.paneLifecycles) : l ∈ state.paneLifecycles ∨ l.identity = (w, p) := by
  rw [recordPaneLifecycleLocked] at h
  split at h
  · exact .inl h
  · simp only at h
    exact (mem_pushBounded h).imp_right fun hl => by simp only [hl, RuntimePaneLifecycle.identity]

theorem recordAll_spec {removed : List PaneIdentity} (hi : i ∉ removed) (state : HubState δ) :
    Untouched i state (removed.foldl (fun state j => (recordPaneLifecycleLocked j.1 j.2 .closed state).1) state) ∧
      ∀ l ∈ (removed.foldl (fun state j => (recordPaneLifecycleLocked j.1 j.2 .closed state).1) state).paneLifecycles,
        l ∈ state.paneLifecycles ∨ l.identity ∈ removed := by
  induction removed generalizing state with
  | nil => exact ⟨Untouched.refl i state, fun l hl => .inl hl⟩
  | cons j removed ih =>
    rw [mem_cons, not_or] at hi
    obtain ⟨hu, hlife⟩ := ih hi.2 (recordPaneLifecycleLocked j.1 j.2 .closed state).1
    refine ⟨(recordPaneLifecycleLocked_untouched (Ne.symm hi.1) _ state).trans hu, fun l hl => ?_⟩
    rcases hlife l hl with hl | hl
    · exact (recordPaneLifecycleLocked_lifecycles hl).imp_right fun heq => mem_cons.mpr (.inl heq)
    · exact .inr (mem_cons_of_mem _ hl)

/-- The panes that are removed are not in this snapshot, and have not moved. -/
theorem observeRemovedPanes_spec (state : HubState δ) (hi : i ∈ snapshot.paneIdentities) :
    Untouched i state (observeRemovedPanes state snapshot relocations) ∧
      ∀ l ∈ (observeRemovedPanes state snapshot relocations).paneLifecycles,
        l ∈ state.paneLifecycles ∨ l.identity ∉ snapshot.paneIdentities ∧ relocations.bySource.containsKey l.identity = false := by
  rw [observeRemovedPanes]
  split
  · exact ⟨Untouched.refl i state, fun l hl => .inl hl⟩
  rename_i current _
  have hrm (j : PaneIdentity) (hj : j ∈ current.paneIdentities.filter fun j =>
      j ∉ snapshot.paneIdentities && !relocations.bySource.containsKey j) :
      j ∉ snapshot.paneIdentities ∧ relocations.bySource.containsKey j = false := by
    have hj := (mem_filter.mp hj).2
    rw [Bool.and_eq_true, Bool.not_eq_true', decide_eq_true_eq] at hj
    exact hj
  obtain ⟨hu, hlife⟩ := recordAll_spec (fun h => (hrm i h).1 hi) state
  exact ⟨hu, fun l hl => (hlife l hl).imp_right (hrm l.identity)⟩

/-! ### Agents -/

/-- A snapshot shows the agent in the pane still. -/
def RuntimeManagedAgent.ShownBy (a : RuntimeManagedAgent δ) (pane : RuntimePane δ) : Prop :=
  match pane.agent with
  | some agent => if agent.kind = a.kind then a.mismatches agent = false else a.observed = false
  | none => a.observed = false

theorem ShownBy_stamp {a : RuntimeManagedAgent δ} {agent : RuntimeAgent δ} (ha : a.ShownBy pane)
    (hag : pane.agent = some agent) (hid : a.agentId = managed.agentId) :
    a.ShownBy (pane.showAgent (managed.stamp agent)) := by
  simp only [RuntimeManagedAgent.ShownBy, RuntimePane.showAgent, hag] at ha ⊢
  by_cases hk : agent.kind = a.kind
  · rw [if_pos (show (managed.stamp agent).kind = a.kind from hk)]
    rw [if_pos hk] at ha
    simp only [mismatches, Bool.or_eq_false_iff] at ha ⊢
    refine ⟨ha.1, ?_⟩
    simp [stamp, hid]
  · rw [if_neg (show ¬(managed.stamp agent).kind = a.kind from hk)]
    rwa [if_neg hk] at ha

/-- One agent is looked for: the snapshot is changed in no pane but for its agent. -/
theorem projectManagedAgent_panes (snapshot : RuntimeSnapshot δ) (managed : RuntimeManagedAgent δ) :
    (projectManagedAgent snapshot managed).1.panes.map RuntimeSnapshot.withoutAgent = snapshot.panes.map RuntimeSnapshot.withoutAgent ∧
      (projectManagedAgent snapshot managed).1.windows.map RuntimeWindow.id = snapshot.windows.map RuntimeWindow.id ∧
      (projectManagedAgent snapshot managed).1.paneLifecycles = snapshot.paneLifecycles := by
  simp only [projectManagedAgent]
  split
  · exact ⟨rfl, rfl, rfl⟩
  split
  · exact ⟨rfl, rfl, rfl⟩
  · split
    · split
      · split
        · exact ⟨rfl, rfl, rfl⟩
        · refine ⟨RuntimeSnapshot.panes_modifyPane_withoutAgent ?_, RuntimeSnapshot.windowIds_modifyPane _ _ _, rfl⟩
          exact fun _ => rfl
      · split <;> exact ⟨rfl, rfl, rfl⟩
    · split <;> exact ⟨rfl, rfl, rfl⟩

theorem projectManagedAgent_agent (snapshot : RuntimeSnapshot δ) (managed : RuntimeManagedAgent δ) :
    (projectManagedAgent snapshot managed).2.1.agentId = managed.agentId ∧
      (projectManagedAgent snapshot managed).2.1.identity = managed.identity := by
  simp only [projectManagedAgent]
  split
  · exact ⟨rfl, rfl⟩
  split
  · exact ⟨rfl, rfl⟩
  · split
    · split
      · split <;> exact ⟨rfl, rfl⟩
      · split <;> exact ⟨rfl, rfl⟩
    · split <;> exact ⟨rfl, rfl⟩

/-- An agent that is shown in its pane stays active. -/
theorem projectManagedAgent_active (hpane : snapshot.findPane managed.windowId managed.paneId = some pane) (ha : managed.active = true)
    (hsh : managed.ShownBy pane) : (projectManagedAgent snapshot managed).2.1.active = true := by
  simp only [projectManagedAgent, ha, Bool.not_true, Bool.false_eq_true, if_false, hpane]
  simp only [RuntimeManagedAgent.ShownBy] at hsh
  split
  · rename_i agent hag
    simp only [hag] at hsh
    split
    · rename_i hk
      rw [if_pos hk] at hsh
      simp only [hsh, Bool.false_eq_true, if_false]
    · rename_i hk
      rw [if_neg hk] at hsh
      simp only [hsh, Bool.false_eq_true, if_false, ha]
  · rename_i hn
    simp only [hn] at hsh
    simp only [hsh, Bool.false_eq_true, if_false, ha]

/-- What another agent of the same pane is shown by is shown still. -/
theorem projectManagedAgent_findPane (managed : RuntimeManagedAgent δ) (hpane : snapshot.findPane i.1 i.2 = some pane) :
    ∃ pane', (projectManagedAgent snapshot managed).1.findPane i.1 i.2 = some pane' ∧
      ∀ a : RuntimeManagedAgent δ, (managed.active = true → managed.identity = i → a.agentId = managed.agentId) → a.ShownBy pane →
        a.ShownBy pane' := by
  simp only [projectManagedAgent]
  split
  · exact ⟨pane, hpane, fun _ _ h => h⟩
  rename_i hact
  have hact : managed.active = true := by simpa using hact
  split
  · exact ⟨pane, hpane, fun _ _ h => h⟩
  rename_i found hfd
  split
  · rename_i agent hag
    split
    · split
      · exact ⟨pane, hpane, fun _ _ h => h⟩
      · rw [RuntimeSnapshot.findPane_modifyPane (s := snapshot), hpane]
        swap
        · exact fun _ => rfl
        by_cases hi : (i.1, i.2) = (managed.windowId, managed.paneId)
        · obtain ⟨hw, hp⟩ := Prod.mk.inj hi
          obtain rfl : pane = found := by
            rw [hw, hp] at hpane
            exact some.inj (hpane.symm.trans hfd)
          rw [if_pos hi]
          exact ⟨_, rfl, fun a hid ha => ShownBy_stamp ha hag (hid hact hi.symm)⟩
        · rw [if_neg hi]
          exact ⟨pane, rfl, fun _ _ h => h⟩
    · split <;> exact ⟨pane, hpane, fun _ _ h => h⟩
  · split <;> exact ⟨pane, hpane, fun _ _ h => h⟩

/-- The agents are looked for: nothing changes in the snapshot but what it says of agents. -/
theorem projectAgents_panes (snapshot : RuntimeSnapshot δ) (agents : List (RuntimeManagedAgent δ)) :
    (projectAgents snapshot agents).1.panes.map RuntimeSnapshot.withoutAgent = snapshot.panes.map RuntimeSnapshot.withoutAgent ∧
      (projectAgents snapshot agents).1.windows.map RuntimeWindow.id = snapshot.windows.map RuntimeWindow.id ∧
      (projectAgents snapshot agents).1.paneLifecycles = snapshot.paneLifecycles := by
  induction agents generalizing snapshot with
  | nil => exact ⟨rfl, rfl, rfl⟩
  | cons managed agents ih =>
    obtain ⟨hps, hwins, hlife⟩ := projectManagedAgent_panes snapshot managed
    obtain ⟨hps', hwins', hlife'⟩ := ih (projectManagedAgent snapshot managed).1
    exact ⟨hps'.trans hps, hwins'.trans hwins, hlife'.trans hlife⟩

theorem projectAgents_ids (snapshot : RuntimeSnapshot δ) (agents : List (RuntimeManagedAgent δ)) :
    (projectAgents snapshot agents).2.1.map agentId = agents.map agentId := by
  induction agents generalizing snapshot with
  | nil => rfl
  | cons managed agents ih =>
    simp only [projectAgents, map_cons]
    rw [ih, (projectManagedAgent_agent snapshot managed).1]

/-- The agents of a pane that are shown in it stay active. -/
theorem projectAgents_active (hpane : snapshot.findPane i.1 i.2 = some pane)
    (hsole : ∀ a ∈ agents, ∀ b ∈ agents, a.active = true → a.identity = i → b.active = true → b.identity = i → a.agentId = b.agentId)
    (hsh : ∀ a ∈ agents, a.active = true → a.identity = i → a.ShownBy pane) :
    ∀ a ∈ agents, a.active = true → a.identity = i →
      ∃ a' ∈ (projectAgents snapshot agents).2.1, a'.agentId = a.agentId ∧ a'.identity = i ∧ a'.active = true := by
  induction agents generalizing snapshot pane with
  | nil => exact fun _ ha => nomatch ha
  | cons managed agents ih =>
    intro a ha hact hi
    rcases mem_cons.mp ha with rfl | hmem
    · obtain ⟨hid, hide⟩ := projectManagedAgent_agent snapshot a
      refine ⟨_, mem_cons_self, hid, hide.trans hi, ?_⟩
      refine projectManagedAgent_active ?_ hact (hsh a mem_cons_self hact hi)
      rw [← hi] at hpane
      exact hpane
    · obtain ⟨pane', hpane', hsh'⟩ := projectManagedAgent_findPane managed hpane
      obtain ⟨a', ha', h⟩ := ih hpane' (fun a ha b hb => hsole a (mem_cons_of_mem _ ha) b (mem_cons_of_mem _ hb))
        (fun b hb hact hi => hsh' b (fun hm hmi => hsole b (mem_cons_of_mem _ hb) managed mem_cons_self hact hi hm hmi)
          (hsh b (mem_cons_of_mem _ hb) hact hi)) a hmem hact hi
      exact ⟨a', mem_cons_of_mem _ ha', h⟩

/-! ### Counters -/

/-- A pane without what a publication says of it. -/
def RuntimeSnapshot.reported (e : ℕ × RuntimePane δ) : ℕ × RuntimePane δ := (e.1, { e.2 with agent := none, stateChangeSeq := 0 })

theorem stampStateChangeSeq_reported (previous : Option (RuntimeSnapshot δ)) (next : RuntimeSnapshot δ)
    (relocations : ResolvedPaneRelocations) :
    (stampStateChangeSeq previous next relocations).panes.map reported = next.panes.map reported := by
  rw [stampStateChangeSeq, RuntimeSnapshot.panes_mapPanes, List.map_map]
  rfl

theorem stampStateChangeSeq_windowIds (previous : Option (RuntimeSnapshot δ)) (next : RuntimeSnapshot δ)
    (relocations : ResolvedPaneRelocations) :
    (stampStateChangeSeq previous next relocations).windows.map RuntimeWindow.id = next.windows.map RuntimeWindow.id := by
  rw [stampStateChangeSeq, RuntimeSnapshot.mapPanes, List.map_map]
  rfl

theorem le_nextStateChangeSeq (before : RuntimePane δ) (taskState : RuntimeTaskState) :
    before.stateChangeSeq ≤ nextStateChangeSeq (some before) taskState := by
  rw [nextStateChangeSeq]
  split
  · exact Fin.le_refl _
  · exact U64.le_saturatingSucc _

/-- The counter of a pane goes on from that of the pane that it was. -/
theorem stampStateChangeSeq_le {previous next : RuntimeSnapshot δ} (hp : previous.WellFormed)
    {shown : ℕ} {before : RuntimePane δ} (hb : (shown, before) ∈ previous.panes) (hpane : (w, pane) ∈ next.panes)
    (hs : (relocations.byTarget.get? (w, pane.id)).getD (w, pane.id) = (shown, before.id)) :
    ∃ pane', (w, pane') ∈ (stampStateChangeSeq (some previous) next relocations).panes ∧ pane'.id = pane.id ∧
      before.stateChangeSeq ≤ pane'.stateChangeSeq := by
  have hfd := find?_of_nodup (map_key_nodup_reverse hp.panes) (mem_reverse.mpr hb)
  rw [stampStateChangeSeq, RuntimeSnapshot.panes_mapPanes]
  refine ⟨_, List.mem_map.mpr ⟨(w, pane), hpane, rfl⟩, rfl, ?_⟩
  simp only [hs, map_some, getD_some, hfd]
  exact le_nextStateChangeSeq before pane.taskState

/-! ### Runs -/

/-- What runs do not change. -/
structure OnlyRuns (state state' : HubState δ) : Prop where
  current : state'.current = state.current
  pending : state'.pendingPaneRelocations = state.pendingPaneRelocations
  paneLifecycles : state'.paneLifecycles = state.paneLifecycles
  managedAgents : state'.managedAgents = state.managedAgents
  nextAgentId : state'.nextAgentId = state.nextAgentId

theorem OnlyRuns.refl (state : HubState δ) : OnlyRuns state state := ⟨rfl, rfl, rfl, rfl, rfl⟩

theorem OnlyRuns.trans (h : OnlyRuns s s') (h' : OnlyRuns s' s'') : OnlyRuns s s'' :=
  ⟨h'.current.trans h.current, h'.pending.trans h.pending, h'.paneLifecycles.trans h.paneLifecycles,
    h'.managedAgents.trans h.managedAgents, h'.nextAgentId.trans h.nextAgentId⟩

theorem OnlyRuns.foldl {β : Type} {f : HubState δ → β → HubState δ} (hf : ∀ s b, OnlyRuns s (f s b)) (l : List β) (s : HubState δ) :
    OnlyRuns s (l.foldl f s) := by
  induction l generalizing s with
  | nil => exact .refl s
  | cons b l ih => exact (hf s b).trans (ih (f s b))

theorem completeRun_completedRuns (result : RuntimeRunResult) (state : HubState δ) :
    (completeRun result state).completedRuns = pushBounded completedRunCache result state.completedRuns := by
  simp only [completeRun]

/-- A run is completed, or nothing is done. -/
theorem completeLastRun_cases (state : HubState δ) (e : ℕ × RuntimePane δ) :
    completeLastRun state e = state ∧ (∀ outcome, e.2.lastRun = some outcome → ∃ r ∈ state.completedRuns,
      r.key = (e.1, e.2.id, outcome.runId)) ∨
      ∃ outcome, e.2.lastRun = some outcome ∧ completeLastRun state e = completeRun ⟨e.1, e.2.id, outcome⟩ state := by
  rw [completeLastRun]
  cases e.2.lastRun with
  | none => exact .inl ⟨rfl, fun _ h => nomatch h⟩
  | some outcome =>
    simp only
    split
    · rename_i ha
      refine .inl ⟨rfl, fun outcome' h => ?_⟩
      obtain rfl := some.inj h
      obtain ⟨r, hr, hk⟩ := List.any_eq_true.mp ha
      exact ⟨r, hr, of_decide_eq_true hk⟩
    · exact .inr ⟨outcome, rfl, rfl⟩

theorem completeDisappeared_cases (observed : List RunKey) (state : HubState δ) (key : RunKey) :
    completeDisappeared observed state key = state ∨ key ∉ observed ∧ (∀ r ∈ state.completedRuns, r.key ≠ key) ∧
      ∃ result : RuntimeRunResult, result.key = key ∧ completeDisappeared observed state key = completeRun result state := by
  rw [completeDisappeared]
  split
  · exact .inl rfl
  · rename_i h
    rw [Bool.or_eq_true, not_or, contains_iff_mem, List.any_eq_true] at h
    refine .inr ⟨h.1, fun r hr hk => h.2 ⟨r, hr, decide_eq_true hk⟩, _, rfl, rfl⟩

theorem completeLastRun_onlyRuns (state : HubState δ) (e : ℕ × RuntimePane δ) : OnlyRuns state (completeLastRun state e) := by
  rcases completeLastRun_cases state e with ⟨h, -⟩ | ⟨outcome, -, h⟩
  · rw [h]
    exact .refl state
  · rw [h]
    exact ⟨rfl, rfl, rfl, rfl, rfl⟩

theorem completeDisappeared_onlyRuns (observed : List RunKey) (state : HubState δ) (key : RunKey) :
    OnlyRuns state (completeDisappeared observed state key) := by
  rcases completeDisappeared_cases observed state key with h | ⟨-, -, result, -, h⟩
  · rw [h]
    exact .refl state
  · rw [h]
    exact ⟨rfl, rfl, rfl, rfl, rfl⟩

theorem observeRunLifecycle_onlyRuns (state : HubState δ) (snapshot : RuntimeSnapshot δ) (relocations : ResolvedPaneRelocations) :
    OnlyRuns state (observeRunLifecycle state snapshot relocations) :=
  (OnlyRuns.foldl completeLastRun_onlyRuns _ _).trans (OnlyRuns.foldl (completeDisappeared_onlyRuns _) _ _)

/-- The run was completed, with fewer than `n` others after it. -/
def Recent (key : RunKey) (n : ℕ) (results : List RuntimeRunResult) : Prop :=
  ∃ l r t, results = l ++ r :: t ∧ r.key = key ∧ t.length < n

theorem Recent.mono {m : ℕ} (h : Recent key n results) (hnm : n ≤ m) : Recent key m results := by
  obtain ⟨l, r, t, heq, hk, hl⟩ := h
  exact ⟨l, r, t, heq, hk, by omega⟩

theorem Recent.exists (h : Recent key n results) : ∃ r ∈ results, r.key = key := by
  obtain ⟨l, r, t, rfl, hk, -⟩ := h
  exact ⟨r, mem_append_right _ mem_cons_self, hk⟩

/-- The results that are kept are the latest ones. -/
theorem Recent.push (h : Recent key n results) (hn : n < completedRunCache)
    (r' : RuntimeRunResult) : Recent key (n + 1) (pushBounded completedRunCache r' results) := by
  obtain ⟨l, r, t, rfl, hk, hl⟩ := h
  refine ⟨l.drop ((l ++ r :: t).length + 1 - completedRunCache), r, t ++ [r'], ?_, hk, ?_⟩
  · rw [pushBounded, append_assoc, cons_append, drop_append_of_le_length]
    rw [length_append, length_cons]
    omega
  · rw [length_append, length_singleton]
    omega

theorem recent_push (r : RuntimeRunResult) (results : List RuntimeRunResult) :
    Recent r.key 1 (pushBounded completedRunCache r results) := by
  refine ⟨results.drop (results.length + 1 - completedRunCache), r, [], ?_, rfl, Nat.zero_lt_one⟩
  rw [pushBounded, drop_append_of_le_length]
  rw [completedRunCache]
  omega

theorem completeLastRuns_new (panes : List (ℕ × RuntimePane δ)) (state : HubState δ)
    (hr : r ∈ (panes.foldl completeLastRun state).completedRuns) :
    r ∈ state.completedRuns ∨ ∃ e ∈ panes, ∃ outcome, e.2.lastRun = some outcome ∧ r = ⟨e.1, e.2.id, outcome⟩ := by
  induction panes generalizing state with
  | nil => exact .inl hr
  | cons e panes ih =>
    rcases ih _ hr with hr | ⟨e', he', h⟩
    · rcases completeLastRun_cases state e with ⟨heq, -⟩ | ⟨outcome, ho, heq⟩
      · rw [heq] at hr
        exact .inl hr
      · rw [heq, completeRun_completedRuns] at hr
        refine (mem_pushBounded hr).imp_right fun h => ⟨e, mem_cons_self, outcome, ho, h⟩
    · exact .inr ⟨e', mem_cons_of_mem _ he', h⟩

theorem completeLastRuns_recent (panes : List (ℕ × RuntimePane δ)) (state : HubState δ)
    (h : Recent key n state.completedRuns) (hn : n + panes.length ≤ completedRunCache) :
    Recent key (n + panes.length) (panes.foldl completeLastRun state).completedRuns := by
  induction panes generalizing state n with
  | nil => exact h
  | cons e panes ih =>
    rw [length_cons] at hn ⊢
    rw [Nat.add_comm panes.length, ← Nat.add_assoc] at hn ⊢
    refine ih (completeLastRun state e) ?_ hn
    rcases completeLastRun_cases state e with ⟨heq, -⟩ | ⟨outcome, -, heq⟩
    · rw [heq]
      exact h.mono (Nat.le_succ n)
    · rw [heq, completeRun_completedRuns]
      exact h.push (by omega) _

/-- A run that is the last one of a pane is completed. -/
theorem completeLastRuns_recent_of_mem {panes : List (ℕ × RuntimePane δ)} (state : HubState δ) {e : ℕ × RuntimePane δ} (he : e ∈ panes)
    {outcome : RuntimeRunOutcome} (ho : e.2.lastRun = some outcome)
    (hnew : ∀ r ∈ state.completedRuns, r.key ≠ (e.1, e.2.id, outcome.runId)) (hn : panes.length ≤ completedRunCache) :
    Recent (e.1, e.2.id, outcome.runId) panes.length (panes.foldl completeLastRun state).completedRuns := by
  induction panes generalizing state with
  | nil => exact nomatch he
  | cons e' panes ih =>
    rw [length_cons, Nat.add_comm] at hn ⊢
    rw [foldl_cons]
    rcases completeLastRun_cases state e' with ⟨heq, hc⟩ | ⟨outcome', ho', heq⟩
    · rw [heq]
      rcases mem_cons.mp he with rfl | he
      · obtain ⟨r, hr, hk⟩ := hc outcome ho
        exact absurd hk (hnew r hr)
      · exact (ih state he hnew (by omega)).mono (by omega)
    · by_cases hk : (⟨e'.1, e'.2.id, outcome'⟩ : RuntimeRunResult).key = (e.1, e.2.id, outcome.runId)
      · refine completeLastRuns_recent panes _ ?_ hn
        rw [heq, completeRun_completedRuns, ← hk]
        exact recent_push _ _
      · rcases mem_cons.mp he with rfl | he
        · obtain rfl := some.inj (ho.symm.trans ho')
          exact absurd rfl hk
        · refine (ih _ he (fun r hr => ?_) (by omega)).mono (by omega)
          rw [heq, completeRun_completedRuns] at hr
          rcases mem_pushBounded hr with hr | rfl
          · exact hnew r hr
          · exact hk

/-- A run that is observed, or was completed lately, does not disappear. -/
theorem completeDisappeared_new {observed : List RunKey} (keys : List RunKey) (state : HubState δ)
    (h : key ∈ observed ∨ ∃ n, Recent key n state.completedRuns ∧ n + keys.length ≤ completedRunCache)
    (hr : r ∈ (keys.foldl (completeDisappeared observed) state).completedRuns) : r ∈ state.completedRuns ∨ r.key ≠ key := by
  induction keys generalizing state with
  | nil => exact .inl hr
  | cons key' keys ih =>
    rw [foldl_cons] at hr
    rcases completeDisappeared_cases observed state key' with heq | ⟨ho, hnone, result, hk, heq⟩
    · rw [heq] at hr
      refine ih state (h.imp_right ?_) hr
      rintro ⟨n, hrec, hn⟩
      exact ⟨n, hrec, by rw [length_cons] at hn; omega⟩
    · have hne : result.key ≠ key := by
        rintro rfl
        rcases h with h | ⟨n, hrec, -⟩
        · exact ho (hk ▸ h)
        · obtain ⟨r', hr', hk'⟩ := hrec.exists
          exact hnone r' hr' (hk'.trans hk)
      rw [heq] at hr
      have hnx : key ∈ observed ∨ ∃ n, Recent key n (completeRun result state).completedRuns ∧ n + keys.length ≤ completedRunCache := by
        refine h.imp_right ?_
        rintro ⟨n, hrec, hn⟩
        rw [length_cons] at hn
        rw [completeRun_completedRuns]
        exact ⟨n + 1, hrec.push (by omega) result, by omega⟩
      rcases ih _ hnx hr with hr | hr
      · rw [completeRun_completedRuns] at hr
        refine (mem_pushBounded hr).imp_right ?_
        rintro rfl
        exact hne
      · exact .inr hr

theorem completeDisappeared_key {observed : List RunKey} (keys : List RunKey) (state : HubState δ)
    (hr : r ∈ (keys.foldl (completeDisappeared observed) state).completedRuns) : r ∈ state.completedRuns ∨ r.key ∈ keys := by
  induction keys generalizing state with
  | nil => exact .inl hr
  | cons key' keys ih =>
    rcases ih _ hr with hr | hr
    · rcases completeDisappeared_cases observed state key' with heq | ⟨-, -, result, hk, heq⟩
      · exact .inl (heq ▸ hr)
      · rw [heq, completeRun_completedRuns] at hr
        refine (mem_pushBounded hr).imp_right ?_
        rintro rfl
        exact hk ▸ mem_cons_self
    · exact .inr (mem_cons_of_mem _ hr)

/-- What is completed is of a pane that is shown, or of one that was and has not moved from there. -/
theorem observeRunLifecycle_new (hr : r ∈ (observeRunLifecycle state snapshot relocations).completedRuns) :
    r ∈ state.completedRuns ∨ (r.windowId, r.paneId) ∈ snapshot.paneIdentities ∨
      ∃ i : PaneIdentity, (relocations.bySource.get? i).getD i = (r.windowId, r.paneId) := by
  simp only [observeRunLifecycle] at hr
  rcases completeDisappeared_key _ _ hr with hr | hr
  · rcases completeLastRuns_new _ _ hr with hr | ⟨e, he, outcome, -, rfl⟩
    · exact .inl hr
    · exact .inr (.inl (mem_map_of_mem he))
  · obtain ⟨key, -, hk⟩ := mem_map.mp hr
    refine .inr (.inr ⟨(key.1, key.2.1), ?_⟩)
    rw [RuntimeRunResult.key, Prod.mk.injEq, Prod.mk.injEq] at hk
    exact Prod.ext hk.1 hk.2.1

/-- A snapshot shows the run of the pane still: it is active, or it is the last one, and was not completed
before. Where it is the last one, the panes are not more than the results that are kept. -/
def RunShown (state : HubState δ) (snapshot : RuntimeSnapshot δ) (w : ℕ) (pane : RuntimePane δ) (runId : ℕ) : Prop :=
  (∀ outcome, pane.lastRun = some outcome → outcome.runId = runId →
    outcome.unavailableReason ≠ some RuntimeRunOutcome.paneOrRunDisappeared) ∧
  ((∃ run, pane.activeRun = some run ∧ run.runId = runId) ∨
    (∃ outcome, pane.lastRun = some outcome ∧ outcome.runId = runId) ∧ (∀ r ∈ state.completedRuns, r.key ≠ (w, pane.id, runId)) ∧
      snapshot.panes.length + ((state.current.map RuntimeSnapshot.panes).getD []).length ≤ completedRunCache)

theorem observeRunLifecycle_kept {runId : ℕ} (hs : snapshot.paneIdentities.Nodup) (hpane : (w, pane) ∈ snapshot.panes)
    (hsh : RunShown state snapshot w pane runId)
    (hr : r ∈ (observeRunLifecycle state snapshot relocations).completedRuns) :
    r ∈ state.completedRuns ∨
      ¬(r.key = (w, pane.id, runId) ∧ r.outcome.unavailableReason = some RuntimeRunOutcome.paneOrRunDisappeared) := by
  have hl : (w, pane.id, runId) ∈ snapshot.activeRuns ∨ ∃ n,
    Recent (w, pane.id, runId) n (snapshot.panes.foldl completeLastRun state).completedRuns ∧
      n + ((state.current.map RuntimeSnapshot.panes).getD []).length ≤ completedRunCache := by
    rcases hsh.2 with ⟨run, hrun, rfl⟩ | ⟨⟨outcome, ho, rfl⟩, hnew, hn⟩
    · refine .inl (mem_filterMap.mpr ⟨(w, pane), hpane, ?_⟩)
      simp only [hrun, map_some]
    · exact .inr ⟨_, completeLastRuns_recent_of_mem state hpane ho hnew (by omega), hn⟩
  have hlen : ((state.current.map activeRuns).getD []).length ≤
      ((state.current.map RuntimeSnapshot.panes).getD []).length := by
    cases state.current with
    | none => exact Nat.le_refl 0
    | some current => exact length_filterMap_le _ _
  have hc := (OnlyRuns.foldl completeLastRun_onlyRuns snapshot.panes state).current
  simp only [observeRunLifecycle, hc] at hr
  rcases completeDisappeared_new _ _ (hl.imp_right (by rintro ⟨n, hrec, hn⟩; exact ⟨n, hrec, by rw [length_map]; omega⟩)) hr with hr | hr
  · rcases completeLastRuns_new _ _ hr with hr | ⟨e, he, outcome, ho, rfl⟩
    · exact .inl hr
    · refine .inr ?_
      rintro ⟨hk, hrea⟩
      simp only [RuntimeRunResult.key, Prod.mk.injEq] at hk
      obtain ⟨hw, hid, hrun⟩ := hk
      have heq : e = (w, pane) := by
        refine inj_on_of_nodup_map hs he hpane ?_
        rw [hw, hid]
      rw [heq] at ho
      exact hsh.1 outcome ho hrun hrea
  · exact .inr fun h => hr h.1

end Pebrel.Runtime
