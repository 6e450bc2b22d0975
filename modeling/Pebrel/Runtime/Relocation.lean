import Pebrel.Runtime.Publication

/-!
# A pane that moves to another window

A pane that the user interface shows in every snapshot is to keep what belongs to
it: no end of it is recorded, its agents stay active, its counter does not go
back, and its runs do not disappear. This is so as long as the snapshot that shows
the pane in its new window is the first to be published after the move: before it
the pane does not move again, and no end of another pane is recorded, as that
publishes the last snapshot once more (`relocation_safe`).
-/

namespace Pebrel.Runtime

open Library List RuntimeSnapshot RuntimeRunOutcome

variable {δ : Type}

/-! ### The parts of a publication -/

section Parts

variable (state : HubState δ) (snapshot : RuntimeSnapshot δ)

def relocationsOf : ResolvedPaneRelocations := (resolvePaneRelocations state snapshot).2

def afterRemoval : HubState δ := observeRemovedPanes { state with pendingPaneRelocations := .empty } snapshot (relocationsOf state snapshot)

def projected : RuntimeSnapshot δ × List (RuntimeManagedAgent δ) × Bool :=
  projectAgents { snapshot with paneLifecycles := (afterRemoval state snapshot).paneLifecycles } (afterRemoval state snapshot).managedAgents

def stamped : RuntimeSnapshot δ :=
  stampStateChangeSeq (afterRemoval state snapshot).current (projected state snapshot).1 (relocationsOf state snapshot)

def afterProjection : HubState δ := { afterRemoval state snapshot with managedAgents := (projected state snapshot).2.1 }

def observed : HubState δ := observeRunLifecycle (afterProjection state snapshot) (stamped state snapshot) (relocationsOf state snapshot)

variable [DecidableEq δ]

/-- What a publication leaves, as the parts of it left it. -/
structure Publishes (state' : HubState δ) : Prop where
  pending : state'.pendingPaneRelocations = (afterRemoval state snapshot).pendingPaneRelocations
  paneLifecycles : state'.paneLifecycles = (afterRemoval state snapshot).paneLifecycles
  managedAgents : state'.managedAgents = (projected state snapshot).2.1
  nextAgentId : state'.nextAgentId = (afterRemoval state snapshot).nextAgentId
  completedRuns : state'.completedRuns = (observed state snapshot).completedRuns
  current : ∃ current, state'.current = some current ∧ current.windows = (stamped state snapshot).windows

theorem publish_eq : publish snapshot state = match (observed state snapshot).current with
    | some current =>
      if current = { stamped state snapshot with revision := current.revision } then observed state snapshot
      else { observed state snapshot with current := some { stamped state snapshot with revision := current.revision.saturatingSucc } }
    | none => { observed state snapshot with current := some { stamped state snapshot with revision := 1 } } := rfl

theorem publish_publishes : Publishes state snapshot (publish snapshot state) := by
  obtain ⟨-, hpd, hlife, ha, hn⟩ :=
    observeRunLifecycle_onlyRuns (afterProjection state snapshot) (stamped state snapshot) (relocationsOf state snapshot)
  rw [publish_eq]
  split
  · rename_i current hc
    split
    · rename_i heq
      refine ⟨hpd, hlife, ha, hn, rfl, current, hc, ?_⟩
      rw [heq]
    · exact ⟨hpd, hlife, ha, hn, rfl, _, rfl, rfl⟩
  · exact ⟨hpd, hlife, ha, hn, rfl, _, rfl, rfl⟩

end Parts

/-! ### The pending relocation of a pane -/

/-- The pane is known where it was shown last, and its relocation is pending, if it is at another place now. -/
structure Relocating (pending : Assoc.Map PaneIdentity PaneIdentity) (shown now : PaneIdentity) : Prop where
  target : ∀ i, (i, now) ∈ pending.entries → i = shown ∧ shown ≠ now
  source : shown ≠ now → (shown, now) ∈ pending.entries

section
variable {state : HubState δ} {snapshot : RuntimeSnapshot δ} {shown now : PaneIdentity}

theorem Relocating.byTarget (h : Relocating state.pendingPaneRelocations shown now) (hn : now ∈ snapshot.paneIdentities) :
    ((relocationsOf state snapshot).byTarget.get? now).getD now = shown := by
  have hvs : ∀ i ∈ Assoc.values now ((state.pendingPaneRelocations.entries.filter fun e => e.2 ∈ snapshot.paneIdentities).map Prod.swap),
      i = shown ∧ shown ≠ now := by
    intro i hi
    obtain ⟨e, he, heq⟩ := mem_map.mp (Assoc.mem_values.mp hi)
    obtain ⟨rfl, rfl⟩ := Prod.mk.inj heq
    exact h.target _ (mem_filter.mp he).1
  rw [relocationsOf, resolvePaneRelocations, Assoc.Map.get?_ofEntries]
  cases hl : (Assoc.values now ((state.pendingPaneRelocations.entries.filter fun e =>
    e.2 ∈ snapshot.paneIdentities).map Prod.swap)).getLast? with
  | some i => exact (hvs i (mem_of_getLast? hl)).1
  | none =>
    by_contra hne
    have hm : shown ∈ Assoc.values now
        ((state.pendingPaneRelocations.entries.filter fun e => e.2 ∈ snapshot.paneIdentities).map .swap) := by
      refine Assoc.mem_values.mpr (mem_map.mpr ⟨(shown, now), mem_filter.mpr ⟨h.source (Ne.symm hne), ?_⟩, rfl⟩)
      exact decide_eq_true hn
    rw [getLast?_eq_none_iff.mp hl] at hm
    exact nomatch hm

theorem Relocating.bySource (h : Relocating state.pendingPaneRelocations shown now) (hn : now ∈ snapshot.paneIdentities)
    (hne : shown ≠ now) : (relocationsOf state snapshot).bySource.containsKey shown = true := by
  have hents : (state.pendingPaneRelocations.entries.filter fun e => e.2 ∈ snapshot.paneIdentities) =
      (relocationsOf state snapshot).bySource.entries := by
    refine (Assoc.collect_of_nodup ?_).symm
    exact (filter_sublist.map Prod.fst).nodup state.pendingPaneRelocations.nodup
  rw [Assoc.Map.containsKey_iff]
  refine ⟨now, ?_⟩
  rw [← hents]
  exact mem_filter.mpr ⟨h.source hne, decide_eq_true hn⟩

end

/-! ### What a pane keeps -/

/-- The window that a pane is in, and the one that the last snapshot shows it in. -/
structure Place where
  now : ℕ
  shown : ℕ

/-- The snapshot does not say itself that the last run of the pane disappeared. -/
def RuntimePane.Truthful (pane : RuntimePane δ) : Prop :=
  ∀ outcome, pane.lastRun = some outcome → outcome.unavailableReason ≠ some paneOrRunDisappeared

/-- What is known of a pane between two calls. -/
structure Tracked (p : ℕ) (place : Place) (state : HubState δ) : Prop where
  ids : ∀ a ∈ state.managedAgents, a.agentId < state.nextAgentId
  unshown : state.current.isSome = false → place.shown = place.now
  current : ∀ current, state.current = some current → current.WellFormed ∧
    (∃ pane, (place.shown, pane) ∈ current.panes ∧ pane.id = p ∧ pane.Truthful) ∧
    Relocating state.pendingPaneRelocations (place.shown, p) (place.now, p)

/-- The pane has one agent at most, and the snapshot shows it. -/
def AgentShown (i : PaneIdentity) (state : HubState δ) (snapshot : RuntimeSnapshot δ) : Prop :=
  (∀ a ∈ state.managedAgents, ∀ b ∈ state.managedAgents,
    a.active = true → a.identity = i → b.active = true → b.identity = i → a.agentId = b.agentId) ∧
  ∀ a ∈ state.managedAgents, a.active = true → a.identity = i → ∀ pane, (i.1, pane) ∈ snapshot.panes → pane.id = i.2 → a.ShownBy pane

/-- What a pane keeps when it is moved from a place to another, or stays there. -/
structure Kept (p : ℕ) (place place' : Place) (state state' : HubState δ) : Prop where
  /-- No end of the pane is recorded. -/
  lifecycles : ∀ l ∈ state'.paneLifecycles, l ∈ state.paneLifecycles ∨
    l.identity ≠ (place.now, p) ∧ l.identity ≠ (place.shown, p) ∧ l.identity ≠ (place'.now, p)
  /-- Its agents stay active. -/
  agents : ∀ a ∈ state.managedAgents, a.active = true → a.identity = (place.now, p) →
    ∃ a' ∈ state'.managedAgents, a'.agentId = a.agentId ∧ a'.identity = (place'.now, p) ∧ a'.active = true
  /-- Its counter does not go back. -/
  counter : ∀ current pane, state.current = some current → (place.shown, pane) ∈ current.panes → pane.id = p →
    ∃ current' pane', state'.current = some current' ∧ (place'.shown, pane') ∈ current'.panes ∧ pane'.id = p ∧
      pane.stateChangeSeq ≤ pane'.stateChangeSeq
  /-- Its active run is not completed as disappeared, neither where it is nor where it was shown, unless another pane is shown there. -/
  runs : ∀ current pane run, state.current = some current → (place.shown, pane) ∈ current.panes → pane.id = p →
    pane.activeRun = some run → ∀ r ∈ state'.completedRuns, (r.key = (place'.now, p, run.runId) ∨ r.key = (place.shown, p, run.runId) ∧
        ∀ current', state'.current = some current' → (place.shown, p) ∉ current'.paneIdentities) →
      r.outcome.unavailableReason = some paneOrRunDisappeared →
      ∃ r₀ ∈ state.completedRuns, r₀.paneId = p ∧ r₀.outcome = r.outcome

/-! ### Publication -/

section
variable {p : ℕ} {place : Place} {state : HubState δ} {snapshot : RuntimeSnapshot δ} {w : ℕ} {pane : RuntimePane δ}

theorem afterRemoval_spec (state : HubState δ) (hn : (place.now, p) ∈ snapshot.paneIdentities) :
    Untouched (place.now, p) { state with pendingPaneRelocations := .empty } (afterRemoval state snapshot) ∧
      ∀ l ∈ (afterRemoval state snapshot).paneLifecycles, l ∈ state.paneLifecycles ∨
        l.identity ∉ snapshot.paneIdentities ∧ (relocationsOf state snapshot).bySource.containsKey l.identity = false :=
  observeRemovedPanes_spec _ hn

theorem stamped_reported (state : HubState δ) (snapshot : RuntimeSnapshot δ) :
    (stamped state snapshot).panes.map reported = snapshot.panes.map reported := by
  rw [stamped, stampStateChangeSeq_reported]
  have ha := (projectAgents_panes { snapshot with paneLifecycles := (afterRemoval state snapshot).paneLifecycles }
    (afterRemoval state snapshot).managedAgents).1
  have h := congrArg (List.map reported) ha
  rw [map_map, map_map] at h
  exact h

theorem stamped_paneIdentities (state : HubState δ) (snapshot : RuntimeSnapshot δ) :
    (stamped state snapshot).paneIdentities = snapshot.paneIdentities := by
  have hi (s : RuntimeSnapshot δ) : s.paneIdentities = (s.panes.map reported).map fun e => (e.1, e.2.id) := by
    rw [map_map]
    rfl
  rw [hi, stamped_reported, ← hi]

theorem stamped_wellFormed (state : HubState δ) (h : snapshot.WellFormed) : (stamped state snapshot).WellFormed := by
  constructor
  · rw [stamped, stampStateChangeSeq_windowIds, projected, (projectAgents_panes _ _).2.1]
    exact h.windows
  · rw [stamped_paneIdentities]
    exact h.panes

/-- A pane of the snapshot, as it is shown after the publication. -/
theorem exists_stamped (state : HubState δ) (h : (w, pane) ∈ snapshot.panes) :
    ∃ pane', (w, pane') ∈ (stamped state snapshot).panes ∧ pane'.id = pane.id ∧ pane'.activeRun = pane.activeRun ∧
      pane'.lastRun = pane.lastRun := by
  have hm : reported (w, pane) ∈ (stamped state snapshot).panes.map reported := by
    rw [stamped_reported]
    exact mem_map_of_mem h
  obtain ⟨⟨w', pane'⟩, hpane', heq⟩ := mem_map.mp hm
  simp only [reported, Prod.mk.injEq, RuntimePane.mk.injEq] at heq
  obtain ⟨rfl, hid, -, -, -, hr, hl, -⟩ := heq
  exact ⟨pane', hpane', hid, hr, hl⟩

theorem exists_projected (state : HubState δ) (h : (w, pane) ∈ snapshot.panes) :
    ∃ pane', (w, pane') ∈ (projected state snapshot).1.panes ∧ pane'.id = pane.id := by
  have hm : withoutAgent (w, pane) ∈ (projected state snapshot).1.panes.map withoutAgent := by
    rw [projected, (projectAgents_panes _ _).1]
    exact mem_map_of_mem h
  obtain ⟨⟨w', pane'⟩, hpane', heq⟩ := mem_map.mp hm
  simp only [withoutAgent, Prod.mk.injEq, RuntimePane.mk.injEq] at heq
  obtain ⟨rfl, hid, -⟩ := heq
  exact ⟨pane', hpane', hid⟩

/-- The agents that the snapshot shows stay active. -/
theorem projected_active (hs : snapshot.WellFormed) (hpane : (place.now, pane) ∈ snapshot.panes) (hid : pane.id = p)
    (hags : AgentShown (place.now, p) state snapshot) {a : RuntimeManagedAgent δ} (ha : a ∈ state.managedAgents) (hact : a.active = true)
    (hi : a.identity = (place.now, p)) :
    ∃ a' ∈ (projected state snapshot).2.1, a'.agentId = a.agentId ∧ a'.identity = (place.now, p) ∧ a'.active = true := by
  have hn : (place.now, p) ∈ snapshot.paneIdentities := mem_map.mpr ⟨_, hpane, by rw [hid]⟩
  have hsm (b : RuntimeManagedAgent δ) (hb : b.identity = (place.now, p)) :
      b ∈ (afterRemoval state snapshot).managedAgents ↔ b ∈ state.managedAgents := by
    have h : b ∈ agentsOf (place.now, p) (afterRemoval state snapshot).managedAgents ↔ b ∈ agentsOf (place.now, p) state.managedAgents := by
      rw [(afterRemoval_spec state hn).1.agents]
    rw [mem_agentsOf, mem_agentsOf] at h
    exact ⟨fun hm => (h.mp ⟨hm, hb⟩).1, fun hm => (h.mpr ⟨hm, hb⟩).1⟩
  have hfd : ({ snapshot with paneLifecycles := (afterRemoval state snapshot).paneLifecycles } : RuntimeSnapshot δ).findPane place.now p =
      some pane := hid ▸ findPane_eq hs hpane
  refine projectAgents_active (i := (place.now, p)) hfd ?_ ?_ a ((hsm a hi).mpr ha) hact hi
  · intro b hb c hc hba hbi hca hci
    exact hags.1 b ((hsm b hbi).mp hb) c ((hsm c hci).mp hc) hba hbi hca hci
  · intro b hb hba hbi
    exact hags.2 b ((hsm b hbi).mp hb) hba hbi pane hpane hid

/-- No end of the pane is recorded by a publication. -/
theorem afterRemoval_lifecycles (ht : Tracked p place state) (hn : (place.now, p) ∈ snapshot.paneIdentities) {l : RuntimePaneLifecycle}
    (hl : l ∈ (afterRemoval state snapshot).paneLifecycles) :
    l ∈ state.paneLifecycles ∨ l.identity ≠ (place.now, p) ∧ l.identity ≠ (place.shown, p) := by
  cases hc : state.current with
  | none =>
    simp only [afterRemoval, observeRemovedPanes, hc] at hl
    exact .inl hl
  | some current =>
    refine ((afterRemoval_spec state hn).2 l hl).imp_right ?_
    rintro ⟨hm, hs⟩
    refine ⟨fun heq => hm (heq ▸ hn), fun heq => ?_⟩
    by_cases hne : place.shown = place.now
    · exact hm (heq ▸ hne ▸ hn)
    obtain ⟨-, -, hr⟩ := ht.current current hc
    have hmv := hr.bySource hn fun h => hne (Prod.mk.inj h).1
    rw [← heq, hs] at hmv
    exact Bool.false_ne_true hmv

variable [DecidableEq δ]

/-- A snapshot that shows the pane where it is keeps what belongs to it. -/
theorem publish_kept (ht : Tracked p place state) (hs : snapshot.WellFormed)
    (hpane : (place.now, pane) ∈ snapshot.panes) (hid : pane.id = p) (htru : pane.Truthful)
    (hags : AgentShown (place.now, p) state snapshot)
    (hruns : ∀ current before run, state.current = some current → (place.shown, before) ∈ current.panes → before.id = p →
      before.activeRun = some run → RunShown state snapshot place.now pane run.runId) :
    Tracked p ⟨place.now, place.now⟩ (publish snapshot state) ∧ Kept p place ⟨place.now, place.now⟩ state (publish snapshot state) := by
  have hn : (place.now, p) ∈ snapshot.paneIdentities := mem_map.mpr ⟨_, hpane, by rw [hid]⟩
  obtain ⟨hpd, hlife, hm, hnex, hcmp, current', hc', hwins⟩ := publish_publishes state snapshot
  have hrem := (afterRemoval_spec state hn).1
  have hps : current'.panes = (stamped state snapshot).panes := by rw [panes, hwins]; rfl
  obtain ⟨pane', hpane', hid', hrun', hlast'⟩ := exists_stamped state hpane
  refine ⟨⟨?_, fun _ => rfl, ?_⟩, ?_, ?_, ?_, ?_⟩
  · intro a ha
    rw [hm] at ha
    rw [hnex, hrem.nextAgentId]
    have hids : a.agentId ∈ state.managedAgents.map RuntimeManagedAgent.agentId := by
      rw [← hrem.ids, ← projectAgents_ids]
      exact mem_map_of_mem ha
    obtain ⟨b, hb, hba⟩ := mem_map.mp hids
    exact hba ▸ ht.ids b hb
  · intro current hc
    obtain rfl := Option.some.inj (hc'.symm.trans hc)
    have hw := stamped_wellFormed state hs
    refine ⟨⟨by rw [hwins]; exact hw.windows, by rw [paneIdentities, hps]; exact hw.panes⟩, ?_, ?_, ?_⟩
    · refine ⟨pane', hps ▸ hpane', hid'.trans hid, ?_⟩
      rw [RuntimePane.Truthful, hlast']
      exact htru
    · intro i hi
      rw [hpd, hrem.pending] at hi
      cases hi
    · exact fun h => absurd rfl h
  · intro l hl
    rw [hlife] at hl
    exact (afterRemoval_lifecycles ht hn hl).imp_right fun h => ⟨h.1, h.2, h.1⟩
  · intro a ha hact hide
    rw [hm]
    exact projected_active hs hpane hid hags ha hact hide
  · intro current before hc hbef hbid
    obtain ⟨hw, -, hrel⟩ := ht.current current hc
    obtain ⟨next, hnx, hnid⟩ := exists_projected state hpane
    have hsrc := hrel.byTarget hn
    rw [← hid, ← hnid] at hsrc
    obtain ⟨after, haft, haid, hle⟩ := stampStateChangeSeq_le hw hbef hnx (hsrc.trans (by rw [hnid, hid, hbid]))
    refine ⟨current', after, hc', ?_, haid.trans (hnid.trans hid), hle⟩
    rw [hps, stamped, hrem.current]
    simp only [hc]
    exact haft
  · intro current before run hc hbef hbid hrun r hr hk hrea
    rw [hcmp] at hr
    have hsh := hruns current before run hc hbef hbid hrun
    have hlen : (stamped state snapshot).panes.length = snapshot.panes.length := by
      have h := congrArg length (stamped_reported state snapshot)
      rwa [length_map, length_map] at h
    have hsta : RunShown (afterProjection state snapshot) (stamped state snapshot) place.now pane' run.runId := by
      simp only [RunShown, afterProjection, hrun', hlast', hid', hlen, hrem.completed, hrem.current]
      exact hsh
    by_cases hold : r ∈ state.completedRuns
    · refine ⟨r, hold, ?_, rfl⟩
      rcases hk with hk | ⟨hk, -⟩ <;> exact congrArg (fun k : RunKey => k.2.1) hk
    have hnew : r ∉ (afterProjection state snapshot).completedRuns := by
      rw [afterProjection, hrem.completed]
      exact hold
    rcases hk with hk | ⟨hk, hgone⟩
    · exact absurd ⟨hk.trans (by rw [hid', hid]), hrea⟩ ((observeRunLifecycle_kept (stamped_wellFormed state hs).panes
        hpane' hsta hr).resolve_left hnew)
    · -- nothing is shown at the old place, and the pane has moved from there
      have hnot : (place.shown, p) ∉ snapshot.paneIdentities := by
        have := hgone current' hc'
        rwa [paneIdentities, hps, ← paneIdentities, stamped_paneIdentities] at this
      rw [RuntimeRunResult.key, Prod.mk.injEq, Prod.mk.injEq] at hk
      have hcases := (observeRunLifecycle_new hr).resolve_left hnew
      rw [hk.1, hk.2.1, stamped_paneIdentities] at hcases
      obtain ⟨i, hi⟩ := hcases.resolve_left hnot
      cases hg : (relocationsOf state snapshot).bySource.get? i with
      | some target =>
        rw [hg] at hi
        obtain rfl : target = (place.shown, p) := hi
        rw [relocationsOf, resolvePaneRelocations, Assoc.Map.get?_ofEntries] at hg
        have hm := (mem_filter.mp (Assoc.mem_values.mp (mem_of_getLast? hg))).2
        exact absurd (of_decide_eq_true hm) hnot
      | none =>
        rw [hg] at hi
        obtain rfl : i = (place.shown, p) := hi
        have hsrc := (ht.current current hc).2.2.bySource hn fun heq => hnot (heq ▸ hn)
        rw [Assoc.Map.containsKey_eq_isSome, hg] at hsrc
        cases hsrc

end

/-! ### The other calls -/

theorem mem_foldl_insert {source target : ℕ} {paneIds : List ℕ} {pending : Assoc.Map PaneIdentity PaneIdentity}
    {e : PaneIdentity × PaneIdentity} :
    e ∈ (paneIds.foldl (fun pending p => pending.insert (source, p) (target, p)) pending).entries ↔
      (∃ p ∈ paneIds, e = ((source, p), (target, p))) ∨ e ∈ pending.entries ∧ ∀ p ∈ paneIds, e.1 ≠ (source, p) := by
  induction paneIds generalizing pending with
  | nil => simp
  | cons q paneIds ih =>
    rw [foldl_cons, ih, Assoc.Map.mem_entries_insert]
    constructor
    · rintro (⟨p, hp, rfl⟩ | ⟨rfl | ⟨he, hq⟩, hne⟩)
      · exact .inl ⟨p, mem_cons_of_mem _ hp, rfl⟩
      · exact .inl ⟨q, mem_cons_self, rfl⟩
      · exact .inr ⟨he, forall_mem_cons.mpr ⟨hq, hne⟩⟩
    · rintro (⟨p, hp, rfl⟩ | ⟨he, hne⟩)
      · by_cases hm : p ∈ paneIds
        · exact .inl ⟨p, hm, rfl⟩
        · obtain rfl := (mem_cons.mp hp).resolve_right hm
          exact .inr ⟨.inl rfl, fun p' hp' heq => hm ((Prod.mk.inj heq).2 ▸ hp')⟩
      · obtain ⟨hq, hne⟩ := forall_mem_cons.mp hne
        exact .inr ⟨.inr ⟨he, hq⟩, hne⟩

section
variable {p : ℕ} {place : Place} {state : HubState δ}

/-- The pane moves, or another one does. -/
def Place.move (p : ℕ) (place : Place) (state : HubState δ) (source target : ℕ) (paneIds : List ℕ) : Place :=
  if source ≠ target ∧ source = place.now ∧ p ∈ paneIds then ⟨target, if state.current.isSome then place.shown else target⟩ else place

/-- What a move is to meet: the pane was shown since it moved last, and no other pane is moved to its place. -/
def SteadyMove (p : ℕ) (place : Place) (state : HubState δ) (source target : ℕ) (paneIds : List ℕ) : Prop :=
  p ∈ paneIds → source ≠ target → state.current.isSome = true →
    if source = place.now then place.shown = place.now ∧ ∀ i, (i, (target, p)) ∉ state.pendingPaneRelocations.entries
    else target ≠ place.now ∧ source ≠ place.shown

variable {source target : ℕ} {paneIds : List ℕ} {state' : HubState δ} {i : PaneIdentity}

theorem movePanesToWindow_relocating (hs : state.current.isSome = true)
    (hr : Relocating state.pendingPaneRelocations (place.shown, p) (place.now, p))
    (hstd : SteadyMove p place state source target paneIds) (hne : ¬(source = target ∨ paneIds = [])) :
    Relocating (movePanesToWindow source target paneIds state).pendingPaneRelocations
      ((place.move p state source target paneIds).shown, p) ((place.move p state source target paneIds).now, p) := by
  rw [movePanesToWindow, if_neg hne, Place.move]
  rw [not_or] at hne
  by_cases hp : p ∈ paneIds
  · have hstd := hstd hp hne.1 hs
    by_cases hsrc : source = place.now
    · rw [if_pos hsrc] at hstd
      rw [if_pos ⟨hne.1, hsrc, hp⟩, if_pos hs]
      obtain ⟨hsh, htg⟩ := hstd
      refine ⟨fun i hi => ?_, fun _ => ?_⟩
      · rcases mem_foldl_insert.mp hi with ⟨q, -, heq⟩ | ⟨hi, -⟩
        · simp only [Prod.mk.injEq] at heq
          obtain ⟨hi, -, hq⟩ := heq
          subst hq
          rw [hi, hsh, ← hsrc]
          exact ⟨rfl, fun h => hne.1 (Prod.mk.inj h).1⟩
        · exact absurd hi (htg i)
      · refine mem_foldl_insert.mpr (.inl ⟨p, hp, ?_⟩)
        rw [hsh, hsrc]
    · rw [if_neg hsrc] at hstd
      rw [if_neg fun h => hsrc h.2.1]
      obtain ⟨htg, hsh⟩ := hstd
      refine ⟨fun i hi => ?_, fun hmv => ?_⟩
      · rcases mem_foldl_insert.mp hi with ⟨q, -, heq⟩ | ⟨hi, -⟩
        · simp only [Prod.mk.injEq] at heq
          exact absurd heq.2.1.symm htg
        · exact hr.target i hi
      · exact mem_foldl_insert.mpr (.inr ⟨hr.source hmv, fun q _ heq => hsh (Prod.mk.inj heq).1.symm⟩)
  · rw [if_neg fun h => hp h.2.2]
    refine ⟨fun i hi => ?_, fun hmv => ?_⟩
    · rcases mem_foldl_insert.mp hi with ⟨q, hq, heq⟩ | ⟨hi, -⟩
      · simp only [Prod.mk.injEq] at heq
        exact absurd (heq.2.2 ▸ hq) hp
      · exact hr.target i hi
    · refine mem_foldl_insert.mpr (.inr ⟨hr.source hmv, fun q hq heq => ?_⟩)
      exact hp ((Prod.mk.inj heq).2 ▸ hq)

/-- What changes nothing but the agents and the runs keeps what a pane has, if it keeps its agents. -/
theorem Kept.of_frame {place' : Place} (hlife : state'.paneLifecycles = state.paneLifecycles)
    (hcur : state'.current = state.current) (hsh : state.current.isSome = true → place'.shown = place.shown)
    (hruns : ∀ r ∈ state'.completedRuns, ∃ r0 ∈ state.completedRuns, r0.paneId = r.paneId ∧ r0.outcome = r.outcome)
    (ha : ∀ a ∈ state.managedAgents, a.active = true → a.identity = (place.now, p) →
      ∃ a' ∈ state'.managedAgents, a'.agentId = a.agentId ∧ a'.identity = (place'.now, p) ∧ a'.active = true) :
    Kept p place place' state state' where
  lifecycles l hl := .inl (hlife ▸ hl)
  agents := ha
  counter current pane hc hpane hid := by
    have hs : state.current.isSome = true := by rw [hc]; rfl
    exact ⟨current, pane, hcur.trans hc, by rw [hsh hs]; exact hpane, hid, Fin.le_refl _⟩
  runs current pane run _ _ _ _ r hr hk _ := by
    obtain ⟨r0, hr0, hid, ho⟩ := hruns r hr
    refine ⟨r0, hr0, hid.trans ?_, ho⟩
    rcases hk with hk | ⟨hk, -⟩ <;> exact congrArg (fun k : RunKey => k.2.1) hk

theorem Kept.refl (p : ℕ) (place : Place) (state : HubState δ) : Kept p place place state state :=
  .of_frame rfl rfl (fun _ => rfl) (fun r hr => ⟨r, hr, rfl, rfl⟩) fun a ha hact hid => ⟨a, ha, rfl, hid, hact⟩

theorem movePanesToWindow_kept (ht : Tracked p place state) (hstd : SteadyMove p place state source target paneIds) :
    Tracked p (place.move p state source target paneIds) (movePanesToWindow source target paneIds state) ∧
      Kept p place (place.move p state source target paneIds) state (movePanesToWindow source target paneIds state) := by
  by_cases hne : source = target ∨ paneIds = []
  · have hpl : place.move p state source target paneIds = place := by
      refine if_neg fun h => ?_
      rcases hne with heq | heq
      · exact h.1 heq
      · exact nomatch heq ▸ h.2.2
    rw [hpl, movePanesToWindow, if_pos hne]
    exact ⟨ht, .refl p place state⟩
  · have hsh (hs : state.current.isSome = true) : (place.move p state source target paneIds).shown = place.shown := by
      rw [Place.move, hs]
      split <;> rfl
    constructor
    · constructor
      · rw [movePanesToWindow, if_neg hne]
        intro a ha
        obtain ⟨b, hb, rfl⟩ := mem_map.mp ha
        have hid := ht.ids b hb
        split <;> exact hid
      · intro hn
        have hn : state.current.isSome = false := by
          rw [movePanesToWindow, if_neg hne] at hn
          exact hn
        rw [Place.move]
        split
        · simp only [hn, Bool.false_eq_true, if_false]
        · exact ht.unshown hn
      · intro current hc
        have hc : state.current = some current := by
          rw [movePanesToWindow, if_neg hne] at hc
          exact hc
        have hs : state.current.isSome = true := by rw [hc]; rfl
        obtain ⟨hw, hpane, hrel⟩ := ht.current current hc
        refine ⟨hw, ?_, movePanesToWindow_relocating hs hrel hstd hne⟩
        rw [hsh hs]
        exact hpane
    · have hmove : movePanesToWindow source target paneIds state = _ := if_neg hne
      rw [hmove]
      refine .of_frame rfl rfl hsh ?_ ?_
      · intro r hr
        obtain ⟨r0, hr0, rfl⟩ := mem_map.mp hr
        refine ⟨r0, hr0, ?_⟩
        split <;> exact ⟨rfl, rfl⟩
      · intro a ha hact hi
        refine ⟨_, mem_map.mpr ⟨a, ha, rfl⟩, ?_⟩
        rw [not_or] at hne
        by_cases hmv : source = place.now ∧ p ∈ paneIds
        · have hcond : (decide (a.identity.1 = source) && paneIds.contains a.identity.2) = true := by
            rw [hi, hmv.1]
            simpa using hmv.2
          rw [if_pos hcond, Place.move, if_pos ⟨hne.1, hmv⟩]
          exact ⟨rfl, congrArg (Prod.mk target) (Prod.mk.inj hi).2, hact⟩
        · have hcond : ¬(decide (a.identity.1 = source) && paneIds.contains a.identity.2) = true := by
            rw [hi, Bool.and_eq_true, decide_eq_true_eq, contains_iff_mem]
            exact fun h => hmv ⟨h.1.symm, h.2⟩
          rw [if_neg hcond, Place.move, if_neg fun h => hmv h.2]
          exact ⟨rfl, hi, hact⟩

theorem recordPaneLifecycleLocked_cases (windowId paneId : ℕ) (event : RuntimePaneLifecycleKind) (state : HubState δ) :
    recordPaneLifecycleLocked windowId paneId event state = (state, false) ∨ (∀ l ∈ state.paneLifecycles, l.identity ≠ (windowId, paneId)) ∧
        recordPaneLifecycleLocked windowId paneId event state = ((recordPaneLifecycleLocked windowId paneId event state).1, true) := by
  by_cases ha : (state.paneLifecycles.any fun l => l.identity = (windowId, paneId)) = true
  · exact .inl (if_pos ha)
  · refine .inr ⟨fun l hl heq => ha (any_eq_true.mpr ⟨l, hl, decide_eq_true heq⟩), ?_⟩
    rw [recordPaneLifecycleLocked, if_neg ha]

theorem Tracked.untouched (ht : Tracked p place state) (h : Untouched (place.now, p) state state') : Tracked p place state' := by
  refine ⟨fun a ha => ?_, fun hn => ht.unshown (h.current ▸ hn), fun current hc => ?_⟩
  · have hi : a.agentId ∈ state.managedAgents.map RuntimeManagedAgent.agentId := by
      rw [← h.ids]
      exact mem_map_of_mem ha
    obtain ⟨b, hb, hba⟩ := mem_map.mp hi
    rw [h.nextAgentId]
    exact hba ▸ ht.ids b hb
  · rw [h.pending]
    exact ht.current current (h.current.symm.trans hc)

theorem Untouched.mem (h : Untouched i state state') {a : RuntimeManagedAgent δ}
    (ha : a.identity = i) : a ∈ state'.managedAgents ↔ a ∈ state.managedAgents := by
  have hmem : a ∈ agentsOf i state'.managedAgents ↔ a ∈ agentsOf i state.managedAgents := by rw [h.agents]
  rw [mem_agentsOf, mem_agentsOf] at hmem
  exact ⟨fun hm => (hmem.mp ⟨hm, ha⟩).1, fun hm => (hmem.mpr ⟨hm, ha⟩).1⟩

theorem AgentShown.untouched {snapshot : RuntimeSnapshot δ} (h : Untouched i state state')
    (hsh : AgentShown i state snapshot) : AgentShown i state' snapshot :=
  ⟨fun a ha b hb haa hai hba hbi => hsh.1 a ((h.mem hai).mp ha) b ((h.mem hbi).mp hb) haa hai hba hbi,
    fun a ha haa hai => hsh.2 a ((h.mem hai).mp ha) haa hai⟩

/-- What is kept of a pane after the end of another one was recorded was kept from before. -/
theorem Kept.untouched {state1 state2 : HubState δ} (h : Untouched (place.now, p) state state1)
    (hlife : ∀ l ∈ state1.paneLifecycles, l ∈ state.paneLifecycles ∨ l.identity ≠ (place.now, p)) (hsh : place.shown = place.now)
    (hk : Kept p place place state1 state2) : Kept p place place state state2 where
  lifecycles l hl := by
    rw [hsh]
    rcases hk.lifecycles l hl with hl | hl
    · exact (hlife l hl).imp_right fun hne => ⟨hne, hne, hne⟩
    · exact .inr ⟨hl.1, hl.1, hl.1⟩
  agents a ha hact hi := hk.agents a ((h.mem hi).mpr ha) hact hi
  counter current pane hc := hk.counter current pane (h.current.trans hc)
  runs current pane run hc hpane hid hrun r hr hkey hrea := by
    rw [← h.completed]
    exact hk.runs current pane run (h.current.trans hc) hpane hid hrun r hr hkey hrea

variable [DecidableEq δ]

/-- What the record of a pane's end is to meet: it is another pane, and if the end is new, the pane that is
followed was shown since it moved last, and the last snapshot shows its agent. -/
def SteadyRecord (p : ℕ) (place : Place) (state : HubState δ) (windowId paneId : ℕ) : Prop :=
  (windowId, paneId) ≠ (place.now, p) ∧ ∀ current, state.current = some current →
    (∀ l ∈ state.paneLifecycles, l.identity ≠ (windowId, paneId)) →
      place.shown = place.now ∧ AgentShown (place.now, p) state current

/-- The end of another pane is recorded, and the last snapshot published again. -/
theorem recordPaneLifecycle_kept {windowId paneId : ℕ} (event : RuntimePaneLifecycleKind) (ht : Tracked p place state)
    (hs : SteadyRecord p place state windowId paneId) :
    Tracked p place (recordPaneLifecycle windowId paneId event state) ∧
      Kept p place place state (recordPaneLifecycle windowId paneId event state) := by
  obtain ⟨hne, hr⟩ := hs
  have hu := recordPaneLifecycleLocked_untouched hne event state
  rcases recordPaneLifecycleLocked_cases windowId paneId event state with hold | ⟨hn, hlk⟩
  · rw [recordPaneLifecycle, hold]
    exact ⟨ht, .refl p place state⟩
  have hlife (l : RuntimePaneLifecycle) (hl : l ∈ (recordPaneLifecycleLocked windowId paneId event state).1.paneLifecycles) :
      l ∈ state.paneLifecycles ∨ l.identity ≠ (place.now, p) := by
    rcases recordPaneLifecycleLocked_lifecycles hl with hl | hl
    · exact .inl hl
    · exact .inr (hl ▸ hne)
  rw [recordPaneLifecycle, hlk]
  simp only
  generalize (recordPaneLifecycleLocked windowId paneId event state).1 = state1 at hu hlife ⊢
  have ht1 := ht.untouched hu
  cases hc : state.current with
  | none =>
    rw [hu.current, hc]
    have hsh := ht.unshown (by rw [hc]; rfl)
    exact ⟨ht1, .untouched hu hlife hsh (.refl p place state1)⟩
  | some current =>
    obtain ⟨hsh, ha⟩ := hr current hc hn
    obtain ⟨hw, ⟨pane, hpane, hid, htru⟩, -⟩ := ht.current current hc
    have hpl : (⟨place.now, place.now⟩ : Place) = place := by
      cases place
      exact congrArg (Place.mk _) hsh.symm
    rw [hu.current, hc]
    obtain ⟨htra, hk⟩ := publish_kept ht1 hw (hsh ▸ hpane) hid htru (ha.untouched hu) (by
      intro current' before run hc' hb hbid hrun
      rw [hu.current, hc, Option.some.injEq] at hc'
      subst hc'
      have heq : ((place.shown, before) : ℕ × RuntimePane δ) = (place.shown, pane) :=
        inj_on_of_nodup_map hw.panes hb hpane (by rw [hbid, hid])
      obtain rfl := (Prod.mk.inj heq).2
      exact ⟨fun outcome ho _ => htru outcome ho, .inl ⟨run, hrun, rfl⟩⟩)
    rw [hpl] at htra hk
    exact ⟨htra, .untouched hu hlife hsh hk⟩

section
omit [DecidableEq δ]

/-- What leaves the snapshot and the pending relocations keeps track of a pane. -/
theorem Tracked.of_frame (ht : Tracked p place state) (hcur : state'.current = state.current)
    (hpd : ∀ e, e ∈ state'.pendingPaneRelocations.entries ↔ e ∈ state.pendingPaneRelocations.entries)
    (hids : ∀ a ∈ state'.managedAgents, a.agentId < state'.nextAgentId) : Tracked p place state' := by
  refine ⟨hids, fun hn => ht.unshown (hcur ▸ hn), fun current hc => ?_⟩
  obtain ⟨hw, hpane, hr⟩ := ht.current current (hcur.symm.trans hc)
  refine ⟨hw, hpane, fun i hi => hr.target i ((hpd _).mp hi), fun hne => ?_⟩
  exact (hpd _).mpr (hr.source hne)

theorem registerAgent_kept (name kind : Text) (windowId paneId : ℕ) (sessionId : Option Text) (worktree : Option δ)
    (ht : Tracked p place state) (hleft : state.IdLeft) :
    Tracked p place (registerAgent name kind windowId paneId sessionId worktree state) ∧
      Kept p place place state (registerAgent name kind windowId paneId sessionId worktree state) := by
  rw [registerAgent]
  split
  · exact ⟨ht, .refl p place state⟩
  refine ⟨ht.of_frame rfl (fun _ => .rfl) fun a ha => ?_, .of_frame rfl rfl (fun _ => rfl) (fun r hr => ⟨r, hr, rfl, rfl⟩) ?_⟩
  · rcases mem_append.mp ha with ha | ha
    · exact hleft.lt_iff.mpr (Nat.le_of_lt (ht.ids a (mem_filter.mp ha).1))
    · rw [mem_singleton.mp ha]
      exact hleft.lt_iff.mpr (Nat.le_refl _)
  · intro a ha hact hid
    refine ⟨a, mem_append_left _ (mem_filter.mpr ⟨ha, ?_⟩), rfl, hid, hact⟩
    exact decide_eq_true (Nat.ne_of_lt (ht.ids a ha))

theorem closeAgent_kept {agentId : ℕ} (reason : Text) (ht : Tracked p place state)
    (hs : ∀ a ∈ state.managedAgents, a.active = true → a.identity = (place.now, p) → a.agentId ≠ agentId) :
    Tracked p place (closeAgent agentId reason state) ∧ Kept p place place state (closeAgent agentId reason state) := by
  rw [closeAgent]
  refine ⟨ht.of_frame rfl (fun _ => .rfl) fun a ha => ?_, .of_frame rfl rfl (fun _ => rfl) (fun r hr => ⟨r, hr, rfl, rfl⟩) ?_⟩
  · obtain ⟨b, hb, rfl⟩ := mem_map.mp ha
    have hid := ht.ids b hb
    split <;> exact hid
  · intro a ha hact hi
    refine ⟨a, mem_map.mpr ⟨a, ha, if_neg fun h => ?_⟩, rfl, hi, hact⟩
    exact hs a ha hact hi (of_decide_eq_true (Bool.and_eq_true_iff.mp h).1)

theorem waitRun_kept (windowId paneId runId : ℕ) (ht : Tracked p place state) :
    Tracked p place (waitRun windowId paneId runId state) ∧ Kept p place place state (waitRun windowId paneId runId state) := by
  rw [waitRun]
  split
  · exact ⟨ht, .refl p place state⟩
  · exact ⟨ht.of_frame rfl (fun _ => .rfl) ht.ids, .of_frame rfl rfl (fun _ => rfl) (fun r hr => ⟨r, hr, rfl, rfl⟩)
      fun a ha hact hid => ⟨a, ha, rfl, hid, hact⟩⟩

end

/-! ### Runs of the hub -/

/-- Where the pane is after a call. -/
def Place.after (p : ℕ) (place : Place) (state : HubState δ) : Call δ → Place
  | .publish _ => ⟨place.now, place.now⟩
  | .movePanesToWindow source target paneIds => place.move p state source target paneIds
  | _ => place

/-- What a call is to meet. The snapshots of the user interface show the pane, its agent and its active run;
other panes end, other agents are closed, and there is an id for a new one. A move finds that the pane was shown
since it moved last, and so does the record of an end that is new. -/
def Steady (p : ℕ) (place : Place) (state : HubState δ) : Call δ → Prop
  | .publish snapshot => snapshot.WellFormed ∧ AgentShown (place.now, p) state snapshot ∧
    ∃ pane, (place.now, pane) ∈ snapshot.panes ∧ pane.id = p ∧ pane.Truthful ∧
      ∀ current before run, state.current = some current → (place.shown, before) ∈ current.panes → before.id = p →
        before.activeRun = some run → RunShown state snapshot place.now pane run.runId
  | .movePanesToWindow source target paneIds => SteadyMove p place state source target paneIds
  | .recordPaneLifecycle windowId paneId _ => SteadyRecord p place state windowId paneId
  | .closeAgent agentId _ => ∀ a ∈ state.managedAgents, a.active = true → a.identity = (place.now, p) → a.agentId ≠ agentId
  | .registerAgent .. => state.IdLeft
  | .waitRun .. => True
  | .reorder .. => True

theorem step_kept (ht : Tracked p place state) {call : Call δ} (hs : Steady p place state call) :
    Tracked p (place.after p state call) (state.step call) ∧ Kept p place (place.after p state call) state (state.step call) := by
  cases call with
  | publish snapshot =>
    obtain ⟨hw, hags, pane, hpane, hid, htru, hruns⟩ := hs
    exact publish_kept ht hw hpane hid htru hags hruns
  | movePanesToWindow source target paneIds => exact movePanesToWindow_kept ht hs
  | recordPaneLifecycle windowId paneId event => exact recordPaneLifecycle_kept event ht hs
  | registerAgent name kind windowId paneId sessionId worktree => exact registerAgent_kept name kind windowId paneId sessionId worktree ht hs
  | closeAgent agentId reason => exact closeAgent_kept reason ht hs
  | waitRun windowId paneId runId => exact waitRun_kept windowId paneId runId ht
  | reorder agents pending =>
    simp only [HubState.step]
    split
    · rename_i hperm
      refine ⟨ht.of_frame rfl (fun e => hperm.2.mem_iff) fun a ha => ht.ids a (hperm.1.mem_iff.mp ha), ?_⟩
      exact .of_frame rfl rfl (fun _ => rfl) (fun r hr => ⟨r, hr, rfl, rfl⟩)
        fun a ha hact hi => ⟨a, hperm.1.mem_iff.mpr ha, rfl, hi, hact⟩
    · exact ⟨ht, .refl p place state⟩

/-- The states of the hub that calls lead to, each of them steady for the pane `p`, which is in the window `w`
at first. -/
inductive Reached (p w : ℕ) : Place → HubState δ → Prop where
  | new : Reached p w ⟨w, w⟩ .new
  | step {place : Place} {state : HubState δ} {call : Call δ} (h : Reached p w place state) (hsteady : Steady p place state call) :
    Reached p w (place.after p state call) (state.step call)

theorem Reached.tracked {w : ℕ} (h : Reached p w place state) : Tracked p place state := by
  induction h with
  | new => exact ⟨nofun, fun _ => rfl, nofun⟩
  | step _ hs ih => exact (step_kept ih hs).1

/-- **A pane keeps what belongs to it when it moves**: in a run whose calls are all steady for it, no call records
its end, ends its agents, sets its counter back or has its active run disappear. -/
theorem relocation_safe {w : ℕ} (h : Reached p w place state) {call : Call δ} (hsteady : Steady p place state call) :
    Kept p place (place.after p state call) state (state.step call) :=
  (step_kept h.tracked hsteady).2

end

/-! ### Runs with and without a gap -/

def samplePane (id : ℕ) (taskState : RuntimeTaskState) : RuntimePane Unit :=
  ⟨id, none, taskState, 0, some ⟨51, .started⟩, none, ()⟩

/-- A snapshot of the windows 7 and 8, with these panes. -/
def sampleSnapshot (seven eight : List (RuntimePane Unit)) : RuntimeSnapshot Unit :=
  ⟨0, [⟨7, [⟨seven, ()⟩], ()⟩, ⟨8, [⟨eight, ()⟩], ()⟩], [], ()⟩

def registerReviewer : Call Unit := .registerAgent "reviewer".toList "codex".toList 7 3 none none

/-- The pane 3 of the window 7 has been shown twice, in two states, and has an agent. -/
def sampleHub : HubState Unit :=
  ((HubState.new.step (.publish (sampleSnapshot [samplePane 3 .idle, samplePane 4 .idle] []))).step registerReviewer).step
    (.publish (sampleSnapshot [samplePane 3 .running, samplePane 4 .idle] []))

/-- The counters of the panes that the last snapshot shows. -/
def counters (state : HubState Unit) : List (PaneIdentity × U64) :=
  ((state.current.map panes).getD []).map fun e => ((e.1, e.2.id), e.2.stateChangeSeq)

/-- The pane 4 ends after the pane 3 was moved to the window 8, before a snapshot shows it there. -/
def interruptedHub : HubState Unit :=
  ((sampleHub.step (.movePanesToWindow 7 8 [3])).step (.recordPaneLifecycle 7 4 .exited)).step
    (.publish (sampleSnapshot [] [samplePane 3 .running]))

/-- The pane 3 is moved to the window 8 by way of the window 9. -/
def movedTwiceHub : HubState Unit :=
  ((sampleHub.step (.movePanesToWindow 7 9 [3])).step (.movePanesToWindow 9 8 [3])).step
    (.publish (sampleSnapshot [samplePane 4 .idle] [samplePane 3 .running]))

/-- The pane 4 ends after the agent of the pane 3, which the last snapshot shows, was closed and another one
was registered. -/
def reregisteredHub : HubState Unit :=
  let shown : RuntimePane Unit :=
    { samplePane 3 .running with agent := some ⟨none, none, none, none, "codex".toList, none, ()⟩ }
  ((((sampleHub.step (.publish (sampleSnapshot [shown, samplePane 4 .idle] []))).step (.closeAgent 1 "agent_exited".toList)).step
    registerReviewer).step (.recordPaneLifecycle 7 4 .exited))

/-- A pane that every snapshot shows loses its agent, an end of it is recorded, its counter starts anew and its
run disappears, where another pane ends between its move and the next snapshot, and where it is moved twice
before that. A new agent is closed where another pane ends before a snapshot shows it. -/
theorem relocation_gap :
    counters sampleHub = [((7, 3), 2), ((7, 4), 1)] ∧
    (interruptedHub.managedAgents.map fun a => (a.identity, a.active, a.closedReason)) = [((8, 3), false, some "pane_closed".toList)] ∧
    (7, 3) ∈ interruptedHub.paneLifecycles.map RuntimePaneLifecycle.identity ∧
    ⟨7, 3, .unavailable 51 paneOrRunDisappeared⟩ ∈ interruptedHub.completedRuns ∧
    counters interruptedHub = [((8, 3), 1)] ∧
    (7, 3) ∈ movedTwiceHub.paneLifecycles.map RuntimePaneLifecycle.identity ∧
    ⟨7, 3, .unavailable 51 paneOrRunDisappeared⟩ ∈ movedTwiceHub.completedRuns ∧
    counters movedTwiceHub = [((7, 4), 1), ((8, 3), 1)] ∧
    (reregisteredHub.managedAgents.map fun a => (a.agentId, a.active, a.closedReason)) =
      [(1, false, some "agent_exited".toList), (2, false, some "agent_replaced".toList)] := by
  refine ⟨?_, ?_, ?_, ?_, ?_, ?_, ?_, ?_, ?_⟩ <;> decide +kernel

/-- The snapshots of the sample show the pane 3, with its run. -/
theorem sample_steady {place : Place} {state : HubState Unit} {seven eight : List (RuntimePane Unit)} {taskState : RuntimeTaskState}
    (hags : state.managedAgents.length ≤ 1) (ho : ∀ a ∈ state.managedAgents, a.observed = false)
    (hps : ∀ e ∈ (sampleSnapshot seven eight).panes, e.2.agent = none) (hnd : (sampleSnapshot seven eight).paneIdentities.Nodup)
    (hpane : (place.now, samplePane 3 taskState) ∈ (sampleSnapshot seven eight).panes)
    (hruns : ∀ e ∈ (state.current.map panes).getD [], e.2.activeRun.map RuntimePaneRun.runId = some 51) :
    Steady 3 place state (.publish (sampleSnapshot seven eight)) := by
  refine ⟨⟨nodup_cons.mpr ⟨by simp, nodup_singleton _⟩, hnd⟩, ⟨fun a ha b hb _ _ _ _ => ?_, fun a ha _ _ pane hpane _ => ?_⟩,
    _, hpane, rfl, nofun, fun current before run hc hbef _ hr => ⟨nofun, .inl ⟨_, rfl, ?_⟩⟩⟩
  · match hst : state.managedAgents, hags with
    | [], _ => exact nomatch hst ▸ ha
    | [c], _ =>
      rw [hst, mem_singleton] at ha hb
      rw [ha, hb]
  · have hn : pane.agent = none := hps _ hpane
    simp only [RuntimeManagedAgent.ShownBy, hn]
    exact ho a ha
  · rw [hc] at hruns
    have hid := hruns _ hbef
    rw [hr] at hid
    exact (Option.some.inj hid).symm

theorem sampleHub_reached : Reached 3 7 ⟨7, 7⟩ sampleHub := by
  have hf : Reached 3 7 ⟨7, 7⟩ (HubState.new.step (.publish (sampleSnapshot [samplePane 3 .idle, samplePane 4 .idle] []))) :=
    .step .new (sample_steady (by decide) (by decide) (by decide) (by decide) mem_cons_self (by decide))
  have hr : Reached 3 7 ⟨7, 7⟩
      ((HubState.new.step (.publish (sampleSnapshot [samplePane 3 .idle, samplePane 4 .idle] []))).step registerReviewer) :=
    hf.step (show Steady 3 ⟨7, 7⟩ _ registerReviewer from (by decide : HubState.IdLeft _))
  exact .step hr (sample_steady (by decide) (by decide) (by decide) (by decide) mem_cons_self (by decide))

/-- A pane with an agent is shown, moved, and shown again: it keeps what it has. -/
theorem relocation_safe_sample :
    Kept 3 ⟨8, 7⟩ ⟨8, 8⟩ (sampleHub.step (.movePanesToWindow 7 8 [3]))
      ((sampleHub.step (.movePanesToWindow 7 8 [3])).step (.publish (sampleSnapshot [samplePane 4 .idle] [samplePane 3 .running]))) := by
  have hmove : Steady 3 ⟨7, 7⟩ sampleHub (.movePanesToWindow 7 8 [3]) := fun _ _ _ => ⟨rfl, nofun⟩
  have hmv : Reached 3 7 ⟨8, 7⟩ (sampleHub.step (.movePanesToWindow 7 8 [3])) := .step sampleHub_reached hmove
  have hsh : Steady 3 ⟨8, 7⟩ (sampleHub.step (.movePanesToWindow 7 8 [3]))
      (.publish (sampleSnapshot [samplePane 4 .idle] [samplePane 3 .running])) :=
    sample_steady (by decide) (by decide) (by decide) (by decide) (mem_cons_of_mem _ mem_cons_self) (by decide)
  exact relocation_safe hmv hsh

end Pebrel.Runtime
