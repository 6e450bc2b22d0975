import Pebrel.Hooks.EventOrder

/-!
# Batches of hook events

While no stream is dropped, what the gate takes of a stream does not depend on the events of the
others. A batch that is reordered has, of each stream, the events in the order of their numbers;
so the gate takes the same ones in the same order, however the batch came (`hook_gate_orders`).
-/

namespace Pebrel.Hooks

open Library List Option AiHookEvent AiHookStreamState

variable {α : Type} {hash : Fingerprint α → ℕ} {events events' : List (AiHookEvent α)} {event event' : AiHookEvent α}
  {gate : AiHookEventGate}
  {key : AiHookStreamKey} {streams : List AiHookStreamKey}

/-! ### Reordering -/

/-- The events of a group. -/
def groupOf (groups : Assoc.Map AiHookStreamKey (List (AiHookEvent α))) (key : AiHookStreamKey) : List (AiHookEvent α) :=
  (groups.get? key).getD []

/-- The events of a stream in a list. -/
def ofStream (key : AiHookStreamKey) (events : List (AiHookEvent α)) : List (AiHookEvent α) :=
  events.filter fun event => event.streamKey event.pane = key

theorem groupOf_groupEvents : groupOf (groupEvents events) key = ofStream key events := by
  suffices h : ∀ groups, groupOf (events.foldl (fun groups event => groups.insert (event.streamKey event.pane)
      ((groups.get? (event.streamKey event.pane)).getD [] ++ [event])) groups) key = groupOf groups key ++ ofStream key events from h _
  induction events with
  | nil => exact fun groups => (append_nil _).symm
  | cons event events ih =>
    intro groups
    rw [foldl_cons, ih, groupOf, Assoc.Map.get?_insert, ofStream, ofStream, filter_cons]
    by_cases hk : key = event.streamKey event.pane
    · subst hk
      rw [if_pos rfl, if_pos (decide_eq_true rfl), getD_some, append_assoc]
      rfl
    · rw [if_neg hk, if_neg fun h => hk (of_decide_eq_true h).symm]
      rfl

theorem groupOf_orderGroup (groups : Assoc.Map AiHookStreamKey (List (AiHookEvent α))) :
    groupOf (groups.mapValues orderGroup) key = orderGroup (groupOf groups key) := by
  rw [groupOf, groupOf, Assoc.Map.get?_mapValues]
  cases groups.get? key with
  | none => rfl
  | some group => rfl

theorem perm_orderGroup (group : List (AiHookEvent α)) : (orderGroup group).Perm group := by
  rw [orderGroup]
  split
  · exact StableSort.perm_sortByKey _ _
  · exact .refl _

/-- Each group is put to the places of its key. -/
theorem ofStream_popAll {keys : List AiHookStreamKey} {groups : Assoc.Map AiHookStreamKey (List (AiHookEvent α))}
    (hg : ∀ key, ∀ event ∈ groupOf groups key, event.streamKey event.pane = key)
    (hc : ∀ key, (groupOf groups key).length = keys.count key) (key : AiHookStreamKey) :
    ofStream key (popAll keys groups) = groupOf groups key := by
  induction keys generalizing groups with
  | nil => exact (length_eq_zero_iff.mp (hc key)).symm
  | cons first keys ih =>
    have hf := hc first
    rw [count_cons_self] at hf
    obtain ⟨event, rest, hgr⟩ : ∃ event rest, groups.get? first = some (event :: rest) := by
      rw [groupOf] at hf
      match hget : groups.get? first with
      | some (event :: rest) => exact ⟨event, rest, rfl⟩
      | some [] => rw [hget] at hf; exact nomatch hf
      | none => rw [hget] at hf; exact nomatch hf
    have hi (k : AiHookStreamKey) : groupOf (groups.insert first rest) k = if k = first then rest else groupOf groups k := by
      rw [groupOf, Assoc.Map.get?_insert]
      split <;> rfl
    have hof : groupOf groups first = event :: rest := by rw [groupOf, hgr, getD_some]
    have hev : event.streamKey event.pane = first := hg first event (hof ▸ mem_cons_self)
    have htl : ofStream key (popAll keys (groups.insert first rest)) = groupOf (groups.insert first rest) key := by
      refine ih (fun k e he => ?_) fun k => ?_
      · rw [hi] at he
        split at he
        · rename_i hk
          rw [hk]
          exact hg first e (hof ▸ mem_cons_of_mem _ he)
        · exact hg k e he
      · rw [hi]
        split
        · rename_i hk
          rw [hof, length_cons, Nat.add_right_cancel_iff] at hf
          rw [hk, hf]
        · rename_i hk
          rw [hc, count_cons_of_ne (Ne.symm hk)]
    rw [popAll, hgr]
    change ofStream key (event :: popAll keys (groups.insert first rest)) = _
    rw [ofStream, filter_cons, hev]
    by_cases hkey : first = key
    · subst hkey
      rw [if_pos (decide_eq_true rfl), hof, ← ofStream, htl, hi, if_pos rfl]
    · rw [if_neg fun h => hkey (of_decide_eq_true h), ← ofStream, htl, hi, if_neg (Ne.symm hkey)]

/-- A batch has the events of each stream in the order of its group. -/
theorem ofStream_reorderBatch : ofStream key (reorderBatch events) = orderGroup (ofStream key events) := by
  have hgr (k : AiHookStreamKey) : groupOf ((groupEvents events).mapValues orderGroup) k = orderGroup (ofStream k events) := by
    rw [groupOf_orderGroup, groupOf_groupEvents]
  rw [reorderBatch, ofStream_popAll, hgr]
  · intro k event hev
    rw [hgr, (perm_orderGroup _).mem_iff] at hev
    exact of_decide_eq_true (mem_filter.mp hev).2
  · intro k
    rw [hgr, (perm_orderGroup _).length_eq, ofStream, ← countP_eq_length_filter, count, countP_map]
    rfl

theorem orderGroup_eq (h : ∀ event ∈ events, event.bridgeSequence.isSome) :
    orderGroup events = StableSort.sortByKey (fun event => event.bridgeSequence.getD 0) events := by
  rw [orderGroup]
  split
  · rfl
  rename_i hn
  match events, h with
  | [], _ => rfl
  | [event], _ => rfl
  | event :: event' :: events, h => exact absurd ⟨by simp, List.all_eq_true.mpr h⟩ hn

/-- Where all events have a number of their own, only the events of a batch count, not their order. -/
theorem ofStream_reorderBatch_of_perm (hperm : events.Perm events') (hs : ∀ event ∈ events, event.bridgeSequence.isSome)
    (hnd : (events.map bridgeSequence).Nodup) (key : AiHookStreamKey) :
    ofStream key (reorderBatch events) = ofStream key (reorderBatch events') := by
  have hstr (l : List (AiHookEvent α)) (h : ∀ event ∈ l, event.bridgeSequence.isSome) :
    ∀ event ∈ ofStream key l, event.bridgeSequence.isSome :=
    fun event hev => h event (mem_filter.mp hev).1
  rw [ofStream_reorderBatch, ofStream_reorderBatch, orderGroup_eq (hstr _ hs),
    orderGroup_eq (hstr _ fun event hev => hs event (hperm.mem_iff.mpr hev))]
  refine StableSort.sortByKey_eq_of_perm _ (hperm.filter _) ?_
  have hsub : ((ofStream key events).map bridgeSequence).Nodup := (filter_sublist.map _).nodup hnd
  have hm : (ofStream key events).map bridgeSequence =
      ((ofStream key events).map fun event => event.bridgeSequence.getD 0).map some := by
    rw [List.map_map]
    refine map_congr_left fun event hev => ?_
    obtain ⟨n, hn⟩ := isSome_iff_exists.mp (hstr _ hs event hev)
    rw [Function.comp_apply, hn, getD_some]
  rw [hm] at hsub
  exact hsub.of_map _

/-! ### The gate -/

/-- The events of a stream that the gate takes, of a sequence of events with their panes. -/
def takenOf (hash : Fingerprint α → ℕ) (key : AiHookStreamKey) : AiHookEventGate → List (AiHookEvent α × ℕ) → List (AiHookEvent α)
  | _, [] => []
  | gate, (event, pane) :: rest =>
    let next := gate.verdict hash event pane
    if event.streamKey (some pane) = key ∧ next.2 = .accepted then event :: takenOf hash key next.1 rest else takenOf hash key next.1 rest

/-- What is taken of one stream by itself. -/
def streamTaken (hash : Fingerprint α → ℕ) : Option AiHookStreamState → List (AiHookEvent α) → List (AiHookEvent α)
  | _, [] => []
  | state, event :: rest =>
    if (state.getD (.new event)).judge hash event = .accepted then
      event :: streamTaken hash (some ((state.getD (.new event)).absorb hash event)) rest
    else streamTaken hash state rest

/-- The gate has only streams of these, and there is room for all of them. -/
def Room (streams : List AiHookStreamKey) (gate : AiHookEventGate) : Prop :=
  streams.length ≤ maxTrackedStreams ∧ ∀ e ∈ gate.entries, e.1 ∈ streams
deriving Decidable

theorem Room.makeRoom (h : Room streams gate) (hkey : key ∈ streams) : gate.makeRoom key = gate := by
  cases hct : gate.containsKey key with
  | true => exact makeRoom_of_containsKey hct
  | false =>
    refine makeRoom_of_lt (lt_of_lt_of_le ?_ h.1)
    have hs : gate.entries.map Prod.fst ⊆ streams.erase key := by
      intro k hk
      obtain ⟨e, he, rfl⟩ := List.mem_map.mp hk
      refine (mem_erase_of_ne fun heq => ?_).mpr (h.2 e he)
      rw [Assoc.Map.containsKey_eq_isSome, isSome_eq_false_iff, isNone_iff_eq_none] at hct
      have hg : gate.get? e.1 = some e.2 := Assoc.Map.get?_eq_some_iff.mpr he
      rw [heq, hct] at hg
      exact nomatch hg
    have hl := (subperm_of_subset gate.nodup hs).length_le
    rw [length_map, length_erase_of_mem hkey] at hl
    have := length_pos_of_mem hkey
    omega

theorem Room.verdict (h : Room streams gate) {pane : ℕ} (hk : event.streamKey (some pane) ∈ streams) :
    Room streams (gate.verdict hash event pane).1 := by
  by_cases ha : (gate.verdict hash event pane).2 = .accepted
  · refine ⟨h.1, fun e he => ?_⟩
    have hg := verdict_get? ha e.1
    rw [Assoc.Map.get?_eq_some_iff.mpr he, h.makeRoom hk] at hg
    split at hg
    · rename_i heq
      rw [heq]
      exact hk
    · exact h.2 (e.1, e.2) (Assoc.Map.get?_eq_some_iff.mp hg.symm)
  · rw [verdict_rejected ha]
    exact h

/-- While there is room, a stream is judged by itself. -/
theorem takenOf_eq_streamTaken {events : List (AiHookEvent α × ℕ)} (h : Room streams gate)
    (hkeys : ∀ e ∈ events, e.1.streamKey (some e.2) ∈ streams) :
    takenOf hash key gate events = streamTaken hash (gate.get? key)
      ((events.filter fun e => e.1.streamKey (some e.2) = key).map Prod.fst) := by
  induction events generalizing gate with
  | nil => rfl
  | cons e events ih =>
    obtain ⟨event, pane⟩ := e
    have hk := hkeys (event, pane) mem_cons_self
    have hrm : Room streams (gate.verdict hash event pane).1 := h.verdict hk
    have hr := ih hrm fun e he => hkeys e (mem_cons_of_mem _ he)
    rw [takenOf, filter_cons]
    dsimp only
    rw [hr]
    by_cases hsm : event.streamKey (some pane) = key
    · subst hsm
      rw [if_pos (decide_eq_true rfl), map_cons, streamTaken, ← verdict_judge]
      split
      · rename_i ha
        rw [if_pos ha.2, verdict_get? ha.2, if_pos rfl]
      · rename_i ha
        have hacc : (gate.verdict hash event pane).2 ≠ .accepted := fun h => ha ⟨rfl, h⟩
        rw [if_neg hacc, verdict_rejected hacc]
    · rw [if_neg fun ha => hsm ha.1, if_neg fun h => hsm (of_decide_eq_true h)]
      by_cases hacc : (gate.verdict hash event pane).2 = .accepted
      · rw [verdict_get? hacc, if_neg (Ne.symm hsm), h.makeRoom hk]
      · rw [verdict_rejected hacc]

/-- The pane of each event: its own, or the one that events without one go to. -/
def routed (focused : ℕ) (events : List (AiHookEvent α)) : List (AiHookEvent α × ℕ) :=
  events.map fun event => (event, event.pane.getD focused)

theorem streamKey_congr {pane : Option ℕ} (h : event.streamKey pane = event'.streamKey pane) (other : Option ℕ) :
    event.streamKey other = event'.streamKey other := congrArg (fun key => { key with pane := other }) h

theorem mem_reorderBatch (h : event ∈ reorderBatch events) : event ∈ events := by
  have hm : event ∈ ofStream (event.streamKey event.pane) (reorderBatch events) := mem_filter.mpr ⟨h, decide_eq_true rfl⟩
  rw [ofStream_reorderBatch, (perm_orderGroup _).mem_iff] at hm
  exact (mem_filter.mp hm).1

/-- The streams of the gate are those of the batch. -/
theorem filter_routed {focused : ℕ} {l : List (AiHookEvent α)}
    (hps : ∀ event ∈ l, event.streamKey (some (event.pane.getD focused)) = event'.streamKey (some (event'.pane.getD focused)) →
      event.pane = event'.pane) :
    ((routed focused l).filter fun e => e.1.streamKey (some e.2) = event'.streamKey (some (event'.pane.getD focused))).map Prod.fst =
      ofStream (event'.streamKey event'.pane) l := by
  rw [routed, List.filter_map, List.map_map]
  refine (List.map_id' _).trans (filter_congr fun event hev => decide_eq_decide.mpr ⟨fun h => ?_, fun h => ?_⟩)
  · have hpane := hps event hev h
    change event.streamKey (some (event.pane.getD focused)) = _ at h
    rw [hpane] at h ⊢
    exact streamKey_congr h _
  · have hpane : event.pane = event'.pane := congrArg AiHookStreamKey.pane h
    change event.streamKey (some (event.pane.getD focused)) = _
    rw [hpane] at h ⊢
    exact streamKey_congr h _

/-- **The gate orders hook events.** In every run, the events taken of a stream while the gate
keeps it are in order, and an event that is not taken changes nothing. Where all events of a batch
have numbers of their own, name the pane of their stream alike, and there is room for their
streams, the batch may come in any order. -/
theorem hook_gate_orders (hash : Fingerprint α → ℕ) :
    (∀ key events, Ordered (history hash key .empty [] events)) ∧
      (∀ (gate : AiHookEventGate) (event : AiHookEvent α) pane, (gate.verdict hash event pane).2 ≠ .accepted →
      (gate.verdict hash event pane).1 = gate) ∧
      ∀ gate focused (events events' : List (AiHookEvent α)) streams, events.Perm events' →
        (∀ event ∈ events, event.bridgeSequence.isSome) → (events.map bridgeSequence).Nodup →
        (∀ event ∈ events, ∀ event' ∈ events,
          event.streamKey (some (event.pane.getD focused)) = event'.streamKey (some (event'.pane.getD focused)) → event.pane = event'.pane) →
        Room streams gate → (∀ event ∈ events, event.streamKey (some (event.pane.getD focused)) ∈ streams) →
        ∀ key, takenOf hash key gate (routed focused (reorderBatch events)) = takenOf hash key gate
          (routed focused (reorderBatch events')) := by
  refine ⟨fun key events => Keeps.history_ordered (.inl ⟨rfl, rfl⟩) events, fun gate event pane => verdict_rejected,
    fun gate focused events events' streams hperm hs hnd hps hrm hstre key => ?_⟩
  have hkeys (l : List (AiHookEvent α)) (hl : ∀ event ∈ l, event ∈ events) : ∀ e ∈ routed focused l, e.1.streamKey (some e.2) ∈ streams := by
    intro e he
    obtain ⟨event, hev, rfl⟩ := List.mem_map.mp he
    exact hstre event (hl event hev)
  have hl : ∀ event ∈ reorderBatch events, event ∈ events := fun event => mem_reorderBatch
  have hl' : ∀ event ∈ reorderBatch events', event ∈ events := fun event h => hperm.mem_iff.mpr (mem_reorderBatch h)
  rw [takenOf_eq_streamTaken hrm (hkeys _ hl), takenOf_eq_streamTaken hrm (hkeys _ hl')]
  congr 1
  by_cases hstr : ∃ event ∈ events, event.streamKey (some (event.pane.getD focused)) = key
  · obtain ⟨event, hev, rfl⟩ := hstr
    rw [filter_routed fun e he => hps e (hl e he) event hev, filter_routed fun e he => hps e (hl' e he) event hev]
    exact ofStream_reorderBatch_of_perm hperm hs hnd _
  have hnil (l : List (AiHookEvent α)) (hl : ∀ event ∈ l, event ∈ events) :
      ((routed focused l).filter fun e => e.1.streamKey (some e.2) = key) = [] := by
    refine filter_eq_nil_iff.mpr fun e he hkey => ?_
    obtain ⟨event, hev, rfl⟩ := List.mem_map.mp he
    exact hstr ⟨event, hl event hev, of_decide_eq_true hkey⟩
  rw [hnil _ hl, hnil _ hl']

/-- An event of a session that is named by its process only. -/
def sampleEvent (kind : AiHookKind) (id : Option Text) (pane sequence : Option ℕ) (received : ℕ) : AiHookEvent Empty :=
  ⟨"pi".toList, kind, none, none, pane, none, none, id, sequence, none, 0, received, none, none, none, none⟩

/-- A start and a prompt of one pane may come the other way round. -/
theorem hook_gate_orders_sample :
    takenOf (fun _ => 0) ((sampleEvent .sessionStart none none none 0).streamKey (some 3)) .empty
        (routed 3 (reorderBatch [sampleEvent .sessionStart none (some 3) (some 1) 0, sampleEvent .promptSubmit none (some 3) (some 2) 1])) =
      takenOf (fun _ => 0) ((sampleEvent .sessionStart none none none 0).streamKey (some 3)) .empty
        (routed 3 (reorderBatch [sampleEvent .promptSubmit none (some 3) (some 2) 1, sampleEvent .sessionStart none (some 3) (some 1) 0])) :=
  (hook_gate_orders fun _ => 0).2.2 .empty 3 _ _ [(sampleEvent .sessionStart none none none 0).streamKey (some 3)] (.swap _ _ _)
    (by decide) (by decide) (by decide) (by decide) (by decide) _

/-- The gate after a sequence of events. -/
def afterEvents (gate : AiHookEventGate) (events : List (AiHookEvent Empty × ℕ)) : AiHookEventGate :=
  events.foldl (fun gate e => (gate.verdict (fun _ => 0) e.1 e.2).1) gate

/-- One event for each of so many panes. -/
def samplePanes (n : ℕ) : List (AiHookEvent Empty × ℕ) := (List.range n).map fun i => (sampleEvent .promptSubmit none none (some 5) i, i)

/-- The streams of these panes. -/
def sampleStreams (n : ℕ) : List (AiHookStreamKey × AiHookStreamState) :=
  (List.range n).map fun i => (⟨"pi".toList, none, some i, none, none⟩, ⟨some 5, none, i, .active, [], none⟩)

theorem sampleStreams_nodup (n : ℕ) : ((sampleStreams n).map Prod.fst).Nodup := by
  rw [sampleStreams, List.map_map]
  exact nodup_range.map fun i j h => some.inj (congrArg AiHookStreamKey.pane h)

/-- An event of a new stream adds its state. -/
theorem entries_verdict_new {pane : ℕ} (hrm : gate.entries.length < maxTrackedStreams)
    (hn : event.streamKey (some pane) ∉ gate.entries.map Prod.fst) :
    (gate.verdict hash event pane).1.entries =
      gate.entries ++ [(event.streamKey (some pane), (new event).absorb hash event)] := by
  have hg : gate.get? (event.streamKey (some pane)) = none := eq_none_iff_forall_ne_some.mpr fun state hst =>
    hn (List.mem_map.mpr ⟨_, Assoc.Map.get?_eq_some_iff.mp hst, rfl⟩)
  unfold AiHookEventGate.verdict
  dsimp only
  rw [makeRoom_of_lt hrm, hg, getD_none, judge_new]
  exact Assoc.insert_of_not_mem hn

theorem afterEvents_samplePanes {n : ℕ} (hn : n ≤ maxTrackedStreams) :
    afterEvents .empty (samplePanes n) = ⟨sampleStreams n, sampleStreams_nodup n⟩ := by
  induction n with
  | zero => rfl
  | succ n ih =>
    have hstep : afterEvents .empty (samplePanes (n + 1)) =
        ((afterEvents .empty (samplePanes n)).verdict (fun _ => 0) (sampleEvent .promptSubmit none none (some 5) n) n).1 := by
      rw [afterEvents, samplePanes, range_succ, map_append, foldl_append]
      rfl
    have hl : (sampleStreams n).length = n := by rw [sampleStreams, length_map, length_range]
    rw [hstep, ih (Nat.le_of_succ_le hn)]
    refine Assoc.Map.ext ((entries_verdict_new (hl.symm ▸ hn) fun hm => ?_).trans ?_)
    · change _ ∈ (sampleStreams n).map Prod.fst at hm
      rw [sampleStreams, List.map_map] at hm
      obtain ⟨i, hi, heq⟩ := List.mem_map.mp hm
      obtain rfl : i = n := some.inj (congrArg AiHookStreamKey.pane heq)
      exact absurd (mem_range.mp hi) (lt_irrefl _)
    · have hst : (new (sampleEvent .promptSubmit none none (some 5) n)).absorb (fun _ => 0)
          (sampleEvent .promptSubmit none none (some 5) n) = ⟨some 5, none, n, .active, [], none⟩ :=
        congrArg (fun received => mk (some 5) none received .active [] none) (max_self n)
      rw [hst]
      change sampleStreams n ++ [_] = sampleStreams (n + 1)
      unfold sampleStreams
      rw [range_succ, map_append]
      rfl

/-- An identity is forgotten when the session starts anew, a stream when 512 others come, and
events of one stream that name its pane differently are not put in order. -/
theorem hook_gate_forgets :
    (history (fun _ => 0) ((sampleEvent .promptSubmit none none none 0).streamKey (some 3)) .empty []
        [(sampleEvent .promptSubmit (some "a".toList) none none 1, 3), (sampleEvent .sessionStart none none none 2, 3),
          (sampleEvent .promptSubmit (some "a".toList) none none 3, 3)]).length = 3 ∧
      ((afterEvents (afterEvents .empty (samplePanes 512)) [(sampleEvent .promptSubmit none none (some 5) 512, 512)]).verdict (fun _ => 0)
        (sampleEvent .promptSubmit none none (some 5) 513) 0).2 = .accepted ∧
      (takenOf (fun _ => 0) ((sampleEvent .promptSubmit none none none 0).streamKey (some 3)) .empty
        (routed 3 (reorderBatch [sampleEvent .promptSubmit none (some 3) (some 2) 0,
        sampleEvent .promptSubmit none none (some 1) 1]))).length = 1 := by
  refine ⟨by decide, ?_, by decide⟩
  have hfu : afterEvents .empty (samplePanes 512) = ⟨sampleStreams 512, sampleStreams_nodup 512⟩ :=
    afterEvents_samplePanes (le_refl maxTrackedStreams)
  rw [hfu]
  decide +kernel

end Pebrel.Hooks
