import Pebrel.Hooks.EventGate
import Mathlib.Data.List.Chain

/-!
# What the gate of hook events takes

While the gate keeps a stream, the events that it takes of it have growing numbers, and no
identity comes again among the next ones before the session starts anew, and nothing but a start
comes after an end (`Ordered`). The streams of a batch are taken alike, in whatever order its
events came (`ofStream_reorderBatch_of_perm`).
-/

namespace Pebrel.Hooks

open Library List Option AiHookStreamState AiHookEvent AiHookEventGate

variable {α : Type} {hash : Fingerprint α → ℕ} {events : List (AiHookEvent α)} {event : AiHookEvent α} {state : AiHookStreamState}

/-! ### What a state says -/

theorem judge_new : (new event).judge hash event = .accepted := by
  have hn (current : Option ℕ) : order current none = none := by cases current <;> rfl
  simp [judge, new, hn]

/-- An event that is taken is new, has a greater number, and is a start if the session has ended. -/
theorem judge_accepted (h : state.judge hash event = .accepted) : (∀ id, event.eventId = some id → id ∉ state.seenEventIds) ∧
      (∀ n m, event.bridgeSequence = some n → state.lastBridgeSequence = some m → m < n) ∧
      (state.lifecycle = .ended → event.kind = .sessionStart) := by
  unfold judge at h
  dsimp only at h
  split at h
  · exact nomatch h
  rename_i hseen
  split at h
  · exact nomatch h
  rename_i ho
  split at h
  · exact nomatch h
  split at h
  · exact nomatch h
  · refine ⟨fun id hid hmem => hseen ?_, fun n m hn hm => ?_, fun he => ?_⟩
    · rw [hid]
      simpa using hmem
    · rw [hn, hm] at ho
      have hgt : compare n m = .gt := by simpa [order] using ho
      exact Nat.compare_eq_gt.mp hgt
    · rw [he] at h
      by_contra hk
      rw [if_neg hk] at h
      exact nomatch h

/-! ### Streams -/

/-- The identities since the session was started the last time. -/
def recentIds (events : List (AiHookEvent α)) : List Text :=
  events.foldl (fun ids event => (if event.kind = .sessionStart then [] else ids) ++ event.eventId.toList) []

/-- The last 64 elements. -/
def lastIds (ids : List Text) : List Text := ids.drop (ids.length - maxEventIdsPerStream)

theorem remember_lastIds (ids : List Text) (id : Option Text) :
    remember (lastIds ids) id = lastIds (ids ++ id.toList) := by
  cases id with
  | none => rw [toList_none, append_nil]; rfl
  | some id =>
    have hl : (ids ++ [id]).length = ids.length + 1 := length_append
    rw [remember, lastIds, lastIds, length_drop, toList_some, hl, maxEventIdsPerStream]
    split
    · have hdr : ids.length - 64 + 1 = ids.length + 1 - 64 := by omega
      rw [tail_drop, drop_append_of_le_length (by omega), hdr]
    · have hf : ids.length - 64 = 0 := by omega
      have hs : ids.length + 1 - 64 = 0 := by omega
      rw [hf, hs, drop_zero, drop_zero]

/-- What the state of a stream remembers of its events. -/
structure Remembers (events : List (AiHookEvent α)) (state : AiHookStreamState) : Prop where
  sequence : state.lastBridgeSequence = (events.filterMap bridgeSequence).getLast?
  ids : state.seenEventIds = lastIds (recentIds events)
  lifecycle : ∃ event, events.getLast? = some event ∧ state.lifecycle = event.lifecycleAfter

theorem Taken.remembers (h : Taken hash events state) : Remembers events state := by
  induction h with
  | first event =>
    refine ⟨?_, ?_, event, rfl, rfl⟩
    · cases hs : event.bridgeSequence <;> simp [absorb, new, hs]
    · cases hid : event.eventId <;> simp [absorb, new, remember, recentIds, hid, lastIds,
        maxEventIdsPerStream]
  | @next events state event h ha ih =>
    refine ⟨?_, ?_, event, by rw [getLast?_append_of_ne_nil _ (cons_ne_nil _ _)]; rfl, rfl⟩
    · rw [filterMap_append, getLast?_append, ← ih.sequence]
      cases hs : event.bridgeSequence <;> simp [absorb, hs]
    · have hr : recentIds (events ++ [event]) = (if event.kind = .sessionStart then [] else recentIds events) ++ event.eventId.toList := by
        rw [recentIds, foldl_append]
        rfl
      rw [hr, ← remember_lastIds]
      change remember (if event.kind = .sessionStart then [] else state.seenEventIds) event.eventId = _
      split
      · rfl
      · rw [ih.ids]

/-- The events of a stream are in order. -/
structure Ordered (events : List (AiHookEvent α)) : Prop where
  sequences : (events.filterMap bridgeSequence).Pairwise (· < ·)
  ids : ∀ a e b e' c id, events = a ++ e :: b ++ e' :: c → e.eventId = some id → e'.eventId = some id →
    maxEventIdsPerStream ≤ (b.filterMap eventId).length ∨ ∃ s ∈ b, s.kind = .sessionStart
  ended : events.IsChain fun e e' => e.kind = .sessionEnd → e'.kind = .sessionStart

theorem recentIds_append (events later : List (AiHookEvent α)) (h : ∀ s ∈ later, s.kind ≠ .sessionStart) :
    recentIds (events ++ later) = recentIds events ++ later.filterMap eventId := by
  induction later generalizing events with
  | nil => simp
  | cons event later ih =>
    have hf : recentIds (events ++ [event]) = recentIds events ++ event.eventId.toList := by
      rw [recentIds, foldl_append, foldl_cons, foldl_nil, if_neg (h event mem_cons_self)]
      rfl
    rw [append_cons, ih _ fun s hs => h s (mem_cons_of_mem _ hs), hf, append_assoc]
    cases hid : event.eventId <;> simp [hid]

/-- An identity that has come recently is remembered. -/
theorem Remembers.mem_ids {a b : List (AiHookEvent α)} {id : Text} (h : Remembers (a ++ event :: b) state) (hid : event.eventId = some id)
    (hrm : (b.filterMap eventId).length < maxEventIdsPerStream) (hst : ∀ s ∈ b, s.kind ≠ .sessionStart) :
    id ∈ state.seenEventIds := by
  obtain ⟨ids, hr⟩ : ∃ ids, recentIds (a ++ [event]) = ids ++ [id] := by
    rw [recentIds, foldl_append, foldl_cons, foldl_nil, hid]
    exact ⟨_, rfl⟩
  rw [h.ids, append_cons, recentIds_append _ _ hst, hr, lastIds, append_assoc]
  have hl : (ids ++ ([id] ++ b.filterMap eventId)).length - maxEventIdsPerStream ≤ ids.length := by
    rw [length_append, length_append, length_singleton]
    omega
  rw [drop_append_of_le_length hl]
  exact mem_append_right _ (mem_append_left _ (mem_singleton_self _))

/-- The last one of growing numbers is the greatest. -/
theorem exists_getLast_le {l : List ℕ} (h : l.Pairwise (· < ·)) {m : ℕ} (hm : m ∈ l) : ∃ n, l.getLast? = some n ∧ m ≤ n := by
  rcases eq_nil_or_concat l with rfl | ⟨l, n, rfl⟩
  · exact nomatch hm
  rw [concat_eq_append] at h hm ⊢
  refine ⟨n, getLast?_concat, ?_⟩
  rcases mem_append.mp hm with hm | hm
  · exact ((pairwise_append.mp h).2.2 m hm n (mem_singleton_self n)).le
  · exact (mem_singleton.mp hm).le

/-- **The events that are taken of a stream** are in order. -/
theorem Taken.ordered (h : Taken hash events state) : Ordered events := by
  induction h with
  | first event =>
    refine ⟨?_, fun a e b e' c id heq => ?_, .singleton _⟩
    · cases hs : event.bridgeSequence <;> simp [hs]
    · have hlen := congrArg length heq
      simp only [length_append, length_cons, length_nil] at hlen
      omega
  | @next events state event h ha ih =>
    obtain ⟨hi, hseq, hend⟩ := judge_accepted ha
    have hr := h.remembers
    obtain ⟨last, hlast, hlif⟩ := hr.lifecycle
    refine ⟨?_, fun a e b e' c id heq he he' => ?_, ?_⟩
    · rw [filterMap_append]
      cases hs : event.bridgeSequence with
      | none => simpa [hs] using ih.sequences
      | some n =>
        have hnew : [event].filterMap bridgeSequence = [n] := by simp [hs]
        rw [hnew]
        refine pairwise_append.mpr ⟨ih.sequences, pairwise_singleton _ _, fun m hm n' hn' => ?_⟩
        obtain rfl := mem_singleton.mp hn'
        obtain ⟨l, hl, hle⟩ := exists_getLast_le ih.sequences hm
        exact lt_of_le_of_lt hle (hseq n' l hs (hr.sequence.trans hl))
    · rcases eq_nil_or_concat c with rfl | ⟨c, x, rfl⟩
      · obtain ⟨rfl, hev⟩ := append_inj' heq rfl
        obtain rfl := (List.cons.inj hev).1
        by_contra hnot
        rw [not_or, not_le] at hnot
        exact hi id he' (hr.mem_ids he hnot.1 fun s hs hk => hnot.2 ⟨s, hs, hk⟩)
      · rw [concat_eq_append, ← cons_append, ← append_assoc] at heq
        obtain ⟨rfl, -⟩ := append_inj' heq rfl
        exact ih.ids a e b e' c id rfl he he'
    · refine isChain_append.mpr ⟨ih.ended, .singleton _, fun e he e' he' hk => ?_⟩
      obtain rfl := some.inj (hlast.symm.trans he)
      obtain rfl := some.inj he'
      refine hend (hlif.trans ?_)
      rw [lifecycleAfter, hk]

/-! ### The gate -/

/-- The events of a stream that the gate has taken since it keeps the stream: `taken` already, and
those of a sequence of events, each with its pane. -/
def history (hash : Fingerprint α → ℕ) (key : AiHookStreamKey) :
    AiHookEventGate → List (AiHookEvent α) → List (AiHookEvent α × ℕ) → List (AiHookEvent α)
  | _, taken, [] => taken
  | gate, taken, (event, pane) :: rest =>
    let next := gate.verdict hash event pane
    let kept := if next.1.containsKey key then taken else []
    history hash key next.1 (if event.streamKey (some pane) = key ∧ next.2 = .accepted then kept ++ [event] else kept) rest

/-- The gate has the state of a stream that the events taken of it lead to. -/
def Keeps (hash : Fingerprint α → ℕ) (key : AiHookStreamKey) (gate : AiHookEventGate) (taken : List (AiHookEvent α)) : Prop :=
  (gate.get? key = none ∧ taken = []) ∨ ∃ state, gate.get? key = some state ∧ Taken hash taken state

variable {gate : AiHookEventGate} {key : AiHookStreamKey} {pane : ℕ}

theorem makeRoom_of_containsKey (h : gate.containsKey key = true) : gate.makeRoom key = gate :=
  if_neg fun hfu => Bool.false_ne_true (hfu.1.symm.trans h)

theorem makeRoom_of_lt (h : gate.entries.length < maxTrackedStreams) : gate.makeRoom key = gate :=
  if_neg fun hfu => absurd h (not_lt.mpr hfu.2)

/-- Streams stay, or are dropped. -/
theorem makeRoom_get?_or (gate : AiHookEventGate) (key k : AiHookStreamKey) :
    (gate.makeRoom key).get? k = gate.get? k ∨ (gate.makeRoom key).get? k = none := by
  rw [makeRoom]
  split
  · cases gate.oldest with
    | none => exact .inl rfl
    | some oldest =>
      change (gate.filterKeys (· ≠ oldest)).get? k = _ ∨ (gate.filterKeys (· ≠ oldest)).get? k = none
      rw [Assoc.Map.get?_filterKeys]
      split
      · exact .inl rfl
      · exact .inr rfl
  · exact .inl rfl

theorem makeRoom_get? : (gate.makeRoom key).get? key = gate.get? key := by
  cases hk : gate.containsKey key with
  | true => rw [makeRoom_of_containsKey hk]
  | false =>
    rw [Assoc.Map.containsKey_eq_isSome, isSome_eq_false_iff, isNone_iff_eq_none] at hk
    rcases makeRoom_get?_or gate key key with h | h
    · exact h
    · rw [h, hk]

/-- An event that is not taken leaves the gate as it was. -/
theorem verdict_rejected (h : (gate.verdict hash event pane).2 ≠ .accepted) : (gate.verdict hash event pane).1 = gate := by
  unfold verdict at h ⊢
  dsimp only at h ⊢
  rw [makeRoom_get?] at h ⊢
  generalize hk : event.streamKey (some pane) = key at h ⊢
  cases hg : gate.get? key with
  | none =>
    rw [hg, getD_none, judge_new] at h
    exact absurd rfl h
  | some state =>
    have hct : gate.containsKey key = true := by rw [Assoc.Map.containsKey_eq_isSome, hg, isSome_some]
    rw [hg, getD_some] at h
    rw [getD_some, makeRoom_of_containsKey hct, if_pos hct]
    split
    · rename_i ha
      rw [ha] at h
      exact absurd rfl h
    · rfl

/-- An event is taken if the state of its stream, or a new one, takes it. -/
theorem verdict_judge : (gate.verdict hash event pane).2 =
    ((gate.get? (event.streamKey (some pane))).getD (.new event)).judge hash event := by
  unfold verdict
  dsimp only
  rw [makeRoom_get?]
  split <;> rename_i h
  · exact h.symm
  · rfl

/-- After an event that is taken, its stream has the next state. -/
theorem verdict_get? (h : (gate.verdict hash event pane).2 = .accepted) (k : AiHookStreamKey) :
    (gate.verdict hash event pane).1.get? k = if k = event.streamKey (some pane) then
        some (((gate.get? (event.streamKey (some pane))).getD (.new event)).absorb hash event)
      else (gate.makeRoom (event.streamKey (some pane))).get? k := by
  rw [verdict_judge] at h
  unfold verdict
  dsimp only
  rw [makeRoom_get?, h]
  exact Assoc.Map.get?_insert

theorem Keeps.step {taken : List (AiHookEvent α)} (h : Keeps hash key gate taken) (event : AiHookEvent α) (pane : ℕ) :
    let next := gate.verdict hash event pane
    let kept := if next.1.containsKey key then taken else []
    Keeps hash key next.1 (if event.streamKey (some pane) = key ∧ next.2 = .accepted then kept ++ [event] else kept) := by
  dsimp only
  by_cases ha : (gate.verdict hash event pane).2 = .accepted
  · have hg := verdict_get? ha key
    rw [Assoc.Map.containsKey_eq_isSome, hg]
    rw [verdict_judge] at ha
    by_cases hk : key = event.streamKey (some pane)
    · subst hk
      rw [if_pos rfl, isSome_some, if_pos rfl, if_pos ⟨rfl, verdict_judge.trans ha⟩]
      rw [if_pos rfl] at hg
      refine .inr ⟨_, hg, ?_⟩
      rcases h with ⟨hn, rfl⟩ | ⟨state, hs, htk⟩
      · rw [hn]
        exact .first event
      · rw [hs] at ha ⊢
        exact .next htk ha
    · rw [if_neg fun hand => hk hand.1.symm, if_neg hk]
      rw [if_neg hk] at hg
      rcases makeRoom_get?_or gate (event.streamKey (some pane)) key with hsm | hn
      · rw [hsm] at hg ⊢
        rcases h with ⟨hn, rfl⟩ | ⟨state, hs, htk⟩
        · rw [hn]
          exact .inl ⟨hg.trans hn, rfl⟩
        · rw [hs]
          exact .inr ⟨state, hg.trans hs, htk⟩
      · rw [hn]
        exact .inl ⟨hg.trans hn, rfl⟩
  · rw [verdict_rejected ha, if_neg fun hand => ha hand.2, Assoc.Map.containsKey_eq_isSome]
    rcases h with ⟨hn, rfl⟩ | ⟨state, hs, htk⟩
    · rw [hn]
      exact .inl ⟨hn, rfl⟩
    · rw [hs]
      exact .inr ⟨state, hs, htk⟩

/-- In every run, the events that are taken of a stream while the gate keeps it are in order. -/
theorem Keeps.history_ordered {taken : List (AiHookEvent α)} (h : Keeps hash key gate taken) (events : List (AiHookEvent α × ℕ)) :
    Ordered (history hash key gate taken events) := by
  induction events generalizing gate taken with
  | nil =>
    rcases h with ⟨-, rfl⟩ | ⟨state, -, htk⟩
    · exact ⟨.nil, fun a e b e' c id heq => by simp [history] at heq, .nil⟩
    · exact htk.ordered
  | cons e events ih => exact ih (h.step e.1 e.2)

end Pebrel.Hooks
