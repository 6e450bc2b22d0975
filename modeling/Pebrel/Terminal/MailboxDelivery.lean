import Pebrel.Terminal.EventMailbox

/-!
# What the mailbox delivers

As long as the channel is open, one invalidation of each kind is under way exactly when its
flag is set: a sender is about to queue it, or it is in the queue, or the receiver is to
acknowledge it (`Held`). All other events are received in the order in which they were
queued. So nothing is lost (`mailbox_delivers`).
-/

namespace Pebrel.Terminal

open Library Transition List Option Nat Function

namespace Mailbox

variable {α : Type} {m m' : Mailbox α} {a : MailboxAction α} {as : List (MailboxAction α)} {k : Invalidation}

/-! ### What a step does -/

/-- What each action does to the mailbox, and when. -/
inductive Stepped (m : Mailbox α) : MailboxAction α → Mailbox α → Prop where
  | send {i : ℕ} {b : α} (hopen : m.isOpen = true) : Stepped m (.send i b) { m with queue := m.queue ++ [(i, .other b)] }
  | unsent {i : ℕ} {b : α} (hclosed : m.isOpen = false) : Stepped m (.send i b) m
  | skip {i : ℕ} {k : Invalidation} (hpending : m.pending k = true) : Stepped m (.swap i k) m
  | swap {i : ℕ} {k : Invalidation} (hidle : m.senders i = .idle) (hpending : m.pending k = false) : Stepped m (.swap i k)
      { m with pending := Function.update m.pending k true, senders := Function.update m.senders i (.queueing k) }
  | queue {i : ℕ} {k : Invalidation} (hopen : m.isOpen = true) (hsender : m.senders i = .queueing k) : Stepped m (.queue i)
      { m with queue := m.queue ++ [(i, .invalidation k)], senders := Function.update m.senders i .idle }
  | unqueued {i : ℕ} {k : Invalidation} (hclosed : m.isOpen = false) (hsender : m.senders i = .queueing k) : Stepped m (.queue i)
      { m with senders := Function.update m.senders i (.clearing k) }
  | clear {i : ℕ} {k : Invalidation} (hsender : m.senders i = .clearing k) : Stepped m (.clear i)
      { m with pending := Function.update m.pending k false, senders := Function.update m.senders i .idle }
  | receive {i : ℕ} {e : MailboxEvent α} {queue : List (ℕ × MailboxEvent α)} (hack : m.acknowledging = none)
      (hqueue : m.queue = (i, e) :: queue) :
      Stepped m .receive { m with queue := queue, received := m.received ++ [(i, e)], acknowledging := e.pending }
  | acknowledge {k : Invalidation} (hack : m.acknowledging = some k) : Stepped m (.acknowledge k)
      { m with pending := Function.update m.pending k false, acknowledging := none }
  | close (hack : m.acknowledging = none) (hopen : m.isOpen = true) : Stepped m .close { m with isOpen := false, queue := [] }

variable {e : MailboxEvent α} {i : ℕ} {s : Sending} {bs cs : List (MailboxAction α)}

theorem stepped (hst : m.step a = some m') : Stepped m a m' := by
  cases a with
  | send i b =>
    rw [step, ite_none_right_eq_some] at hst
    obtain ⟨_, hst⟩ := hst
    split at hst
    · rename_i ho
      exact some.inj hst ▸ .send ho
    · rename_i hcl
      exact some.inj hst ▸ .unsent (eq_false_of_ne_true hcl)
  | swap i k =>
    rw [step, ite_none_right_eq_some] at hst
    obtain ⟨hidle, hst⟩ := hst
    split at hst
    · rename_i hpd
      exact some.inj hst ▸ .skip hpd
    · rename_i hpd
      exact some.inj hst ▸ .swap hidle (eq_false_of_ne_true hpd)
  | queue i =>
    rw [step] at hst
    split at hst
    · rename_i hs
      split at hst
      · rename_i ho
        exact some.inj hst ▸ .queue ho hs
      · rename_i hcl
        exact some.inj hst ▸ .unqueued (eq_false_of_ne_true hcl) hs
    · exact nomatch hst
  | clear i =>
    rw [step] at hst
    split at hst
    · rename_i hs
      exact some.inj hst ▸ .clear hs
    · exact nomatch hst
  | receive =>
    rw [step, ite_none_right_eq_some] at hst
    obtain ⟨ha, hst⟩ := hst
    split at hst
    · exact nomatch hst
    · rename_i hq
      exact some.inj hst ▸ .receive ha hq
  | acknowledge k =>
    rw [step, ite_none_right_eq_some] at hst
    exact some.inj hst.2 ▸ .acknowledge hst.1
  | close =>
    rw [step, ite_none_right_eq_some] at hst
    exact some.inj hst.2 ▸ .close hst.1.1 hst.1.2

/-! ### One invalidation under way -/

def isKind (k : Invalidation) : MailboxEvent α → Bool
  | .invalidation k' => decide (k' = k)
  | .other _ => false

theorem isKind_iff : isKind k e = true ↔ e = .invalidation k := by
  cases e with
  | invalidation k' => simp [isKind]
  | other b => simp [isKind]

theorem pending_eq_some : e.pending = some k ↔ e = .invalidation k := by
  cases e with
  | invalidation k' => simp [MailboxEvent.pending]
  | other b => simp [MailboxEvent.pending]

/-- Invalidations of the kind in the queue. -/
def queued (m : Mailbox α) (k : Invalidation) : ℕ := m.queue.countP fun e => isKind k e.2

/-- Who has the invalidation of the kind, if one is under way. -/
inductive Held (m : Mailbox α) (k : Invalidation) : Prop where
  | free (hpending : m.pending k = false) (hsenders : ∀ i, m.senders i ≠ .queueing k) (hqueued : m.queued k = 0)
    (hack : m.acknowledging ≠ some k)
  | sender (hpending : m.pending k = true) (i : ℕ) (hsender : m.senders i = .queueing k) (hsenders : ∀ j, j ≠ i → m.senders j ≠ .queueing k)
    (hqueued : m.queued k = 0) (hack : m.acknowledging ≠ some k)
  | queue (hpending : m.pending k = true) (hsenders : ∀ i, m.senders i ≠ .queueing k) (hqueued : m.queued k = 1)
    (hack : m.acknowledging ≠ some k)
  | receiver (hpending : m.pending k = true) (hsenders : ∀ i, m.senders i ≠ .queueing k) (hqueued : m.queued k = 0)
    (hack : m.acknowledging = some k)

/-- While the channel is open, no flag is cleared by a sender. -/
structure Invariant (m : Mailbox α) : Prop where
  held : ∀ k, Held m k
  senders : ∀ i k, m.senders i ≠ .clearing k

theorem invariant_channel : Invariant (channel : Mailbox α) := ⟨fun _ => .free rfl (fun _ => nofun) rfl nofun, fun _ _ => nofun⟩

theorem queued_append_other (queue : List (ℕ × MailboxEvent α)) (i : ℕ) (b : α) :
    ({ m with queue := queue ++ [(i, .other b)] } : Mailbox α).queued k = ({ m with queue := queue } : Mailbox α).queued k := by
  simp [queued, isKind, countP_append]

theorem queued_append_invalidation (i : ℕ) (k' : Invalidation) (senders : ℕ → Sending) :
    ({ m with queue := m.queue ++ [(i, .invalidation k')], senders := senders } : Mailbox α).queued k =
      m.queued k + if k' = k then 1 else 0 := by
  simp only [queued, isKind, countP_append, countP_cons, countP_nil, Nat.zero_add, decide_eq_true_eq]

/-- What is as before for a kind is held as before. -/
theorem Held.congr (h : Held m k) (hpd : m'.pending k = m.pending k) (hsnds : ∀ j, m'.senders j = .queueing k ↔ m.senders j = .queueing k)
    (hqd : m'.queued k = m.queued k) (hack : m'.acknowledging = some k ↔ m.acknowledging = some k) : Held m' k := by
  cases h with
  | free hp hs hq ha => exact .free (hpd.trans hp) (fun j => mt (hsnds j).mp (hs j)) (hqd.trans hq) (mt hack.mp ha)
  | sender hp i hi hs hq ha =>
    exact .sender (hpd.trans hp) i ((hsnds i).mpr hi) (fun j hj => mt (hsnds j).mp (hs j hj)) (hqd.trans hq) (mt hack.mp ha)
  | queue hp hs hq ha => exact .queue (hpd.trans hp) (fun j => mt (hsnds j).mp (hs j)) (hqd.trans hq) (mt hack.mp ha)
  | receiver hp hs hq ha => exact .receiver (hpd.trans hp) (fun j => mt (hsnds j).mp (hs j)) (hqd.trans hq) (hack.mpr ha)

theorem update_senders_iff {s' : Sending} (hs : s ≠ s') (hi : m.senders i ≠ s') (j : ℕ) :
    Function.update m.senders i s j = s' ↔ m.senders j = s' := by
  by_cases hj : j = i
  · rw [hj, update_self]
    exact iff_of_false hs hi
  · rw [update_of_ne hj]

theorem Invariant.update (h : Invariant m) (hs : ∀ k, s ≠ .clearing k) (i j : ℕ) (k : Invalidation) :
    Function.update m.senders i s j ≠ .clearing k := mt (update_senders_iff (hs k) (h.senders i k) j).mp (h.senders j k)

/-- The steps keep it, as long as the channel stays open. -/
theorem Invariant.step (h : Invariant m) (ho : m.isOpen = true) (hclo : a ≠ .close) (hst : m.step a = some m') : Invariant m' := by
  cases stepped hst with
  | close => exact absurd rfl hclo
  | unsent hcl => exact nomatch ho.symm.trans hcl
  | unqueued hcl => exact nomatch ho.symm.trans hcl
  | clear hs => exact absurd hs (h.senders _ _)
  | skip => exact h
  | @send i b _ => exact ⟨fun k => (h.held k).congr rfl (fun _ => .rfl) (queued_append_other m.queue i b) .rfl, h.senders⟩
  | @swap i k' hidle hpd' =>
    refine ⟨fun k => ?_, fun j k => ?_⟩
    · by_cases hk : k = k'
      · subst hk
        cases h.held k with
        | free _ hsnds hqd ha =>
          refine .sender (update_self _ _ _) i (update_self _ _ _) (fun j hj => ?_) hqd ha
          exact fun heq => hsnds j ((update_of_ne hj _ _).symm.trans heq)
        | sender hpd => exact nomatch hpd.symm.trans hpd'
        | queue hpd => exact nomatch hpd.symm.trans hpd'
        | receiver hpd => exact nomatch hpd.symm.trans hpd'
      · exact (h.held k).congr (update_of_ne hk _ _)
          (update_senders_iff (fun heq => hk (Sending.queueing.inj heq).symm) (hidle ▸ nofun)) rfl .rfl
    · exact h.update (s := .queueing k') (fun _ => nofun) i j k
  | @queue i k' _ hs' =>
    have hc (k : Invalidation) := queued_append_invalidation (m := m) (k := k) i k' (Function.update m.senders i .idle)
    refine ⟨fun k => ?_, h.update (s := .idle) (fun _ => nofun) i⟩
    by_cases hk : k' = k
    · subst hk
      cases h.held k' with
      | free _ hsnds => exact absurd hs' (hsnds i)
      | sender hpd j hs hsnds hqd ha =>
        have hji : i = j := by
          by_contra hne
          exact hsnds i hne hs'
        subst hji
        refine .queue hpd (fun j => ?_) (by rw [hc, hqd, if_pos rfl]) ha
        by_cases hji : j = i
        · rw [hji]
          exact fun heq => nomatch (update_self i _ _).symm.trans heq
        · exact fun heq => hsnds j hji ((update_of_ne hji _ _).symm.trans heq)
      | queue _ hsnds => exact absurd hs' (hsnds i)
      | receiver _ hsnds => exact absurd hs' (hsnds i)
    · exact (h.held k).congr rfl (update_senders_iff nofun fun heq => hk (Sending.queueing.inj (hs'.symm.trans heq)))
        ((hc k).trans (by rw [if_neg hk, Nat.add_zero])) .rfl
  | @receive i e queue hidle hq =>
    refine ⟨fun k => ?_, h.senders⟩
    have hc : m.queued k = ({ m with queue := queue } : Mailbox α).queued k + if isKind k e then 1 else 0 := by
      rw [queued, hq, countP_cons]
      rfl
    have hf : m.acknowledging ≠ some k := hidle ▸ nofun
    by_cases he : isKind k e = true
    · rw [if_pos he] at hc
      obtain rfl : e = .invalidation k := isKind_iff.mp he
      cases h.held k with
      | free _ _ hqd => exact absurd (hc.symm.trans hqd) (succ_ne_zero _)
      | sender _ _ _ _ hqd => exact absurd (hc.symm.trans hqd) (succ_ne_zero _)
      | queue hpd hsnds hqd => exact .receiver hpd hsnds (Nat.succ.inj (hc.symm.trans hqd)) rfl
      | receiver _ _ hqd => exact absurd (hc.symm.trans hqd) (succ_ne_zero _)
    · rw [if_neg he, Nat.add_zero] at hc
      exact (h.held k).congr rfl (fun _ => .rfl) hc.symm (iff_of_false (fun heq => he (isKind_iff.mpr (pending_eq_some.mp heq))) hf)
  | @acknowledge k' hackn =>
    refine ⟨fun k => ?_, h.senders⟩
    by_cases hk : k = k'
    · subst hk
      cases h.held k with
      | free _ _ _ ha => exact absurd hackn ha
      | sender _ _ _ _ _ ha => exact absurd hackn ha
      | queue _ _ _ ha => exact absurd hackn ha
      | receiver _ hsnds hqd => exact .free (update_self _ _ _) hsnds hqd nofun
    · exact (h.held k).congr (update_of_ne hk _ _) (fun _ => .rfl) rfl
        (iff_of_false nofun fun heq => hk (some.inj (hackn.symm.trans heq)).symm)

/-! ### What a sender swapped -/

/-- An invalidation of the kind is on its way to the receiver, or the receiver is to acknowledge it. -/
def UnderWay (m : Mailbox α) (k : Invalidation) : Prop :=
  (∃ i, m.senders i = .queueing k) ∨ (∃ i, (i, .invalidation k) ∈ m.queue) ∨ m.acknowledging = some k

theorem Held.underWay (h : Held m k) (hpd : m.pending k = true) : UnderWay m k := by
  cases h with
  | free hf => exact nomatch hpd.symm.trans hf
  | sender _ i hs => exact .inl ⟨i, hs⟩
  | queue _ _ hqd =>
    obtain ⟨⟨i, e⟩, hm, he⟩ := countP_pos_iff.mp (hqd ▸ Nat.one_pos : 0 < m.queued k)
    obtain rfl : e = .invalidation k := isKind_iff.mp he
    exact .inr (.inl ⟨i, hm⟩)
  | receiver _ _ _ ha => exact .inr (.inr ha)

theorem Quiet.not_underWay (h : Quiet m) : ¬UnderWay m k := by
  obtain ⟨hsnds, hq, ha⟩ := h
  rintro (⟨i, hi⟩ | ⟨i, hi⟩ | hi)
  · exact nomatch (hsnds i).symm.trans hi
  · rw [hq] at hi
    exact nomatch hi
  · exact nomatch ha.symm.trans hi

theorem isOpen_step (hcl : a ≠ .close) (hst : m.step a = some m') : m'.isOpen = m.isOpen := by
  cases stepped hst with
  | close => exact absurd rfl hcl
  | _ => rfl

/-- Only the receiver clears a flag, as long as the channel is open. -/
theorem Invariant.pending_step (h : Invariant m) (hpd : m.pending k = true) (ha : a ≠ .acknowledge k)
    (hst : m.step a = some m') : m'.pending k = true := by
  cases stepped hst with
  | @swap i k' =>
    by_cases hk : k = k'
    · rw [hk]
      exact update_self _ _ _
    · exact (update_of_ne hk _ _).trans hpd
  | clear hs => exact absurd hs (h.senders _ _)
  | acknowledge =>
    have hk := fun heq : k = _ => ha (heq ▸ rfl)
    exact (update_of_ne hk _ _).trans hpd
  | _ => exact hpd

theorem Invariant.run (h : Invariant m) (ho : m.isOpen = true) (hcl : .close ∉ as) (hr : Transition.run Mailbox.step m as = some m') :
    Invariant m' ∧ m'.isOpen = true := by
  induction as generalizing m with
  | nil =>
    cases hr
    exact ⟨h, ho⟩
  | cons a as ih =>
    obtain ⟨u, hu, hr⟩ := (run_cons_eq_some Mailbox.step).mp hr
    obtain ⟨ha, has⟩ := not_or.mp (mt mem_cons.mpr hcl)
    exact ih (h.step ho (Ne.symm ha) hu) ((isOpen_step (Ne.symm ha) hu).trans ho) has hr

theorem Invariant.pending_run (h : Invariant m) (ho : m.isOpen = true) (hpd : m.pending k = true) (hcl : .close ∉ as)
    (hack : .acknowledge k ∉ as) (hr : Transition.run Mailbox.step m as = some m') : m'.pending k = true := by
  induction as generalizing m with
  | nil =>
    cases hr
    exact hpd
  | cons a as ih =>
    obtain ⟨u, hu, hr⟩ := (run_cons_eq_some Mailbox.step).mp hr
    obtain ⟨ha, has⟩ := not_or.mp (mt mem_cons.mpr hcl)
    obtain ⟨ha', has'⟩ := not_or.mp (mt mem_cons.mpr hack)
    exact ih (h.step ho (Ne.symm ha) hu) ((isOpen_step (Ne.symm ha) hu).trans ho) (h.pending_step hpd (Ne.symm ha') hu) has has' hr

/-- What a sender swapped is acknowledged after that, or it is still under way. -/
theorem Invariant.swapped (h : Invariant m) (ho : m.isOpen = true) (hcl : .close ∉ as)
    (hr : Transition.run Mailbox.step m (.swap i k :: as) = some m') : .acknowledge k ∈ as ∨ UnderWay m' k := by
  obtain ⟨u, hu, hr⟩ := (run_cons_eq_some Mailbox.step).mp hr
  have hpd : u.pending k = true := by
    rw [Mailbox.step] at hu
    split at hu
    · split at hu
      · cases hu
        assumption
      · cases hu
        exact update_self _ _ _
    · exact nomatch hu
  have hcl' : (.swap i k : MailboxAction α) ≠ .close := nofun
  have hi := h.step ho hcl' hu
  have ho' := (isOpen_step hcl' hu).trans ho
  by_cases ha : .acknowledge k ∈ as
  · exact .inl ha
  · exact .inr (((hi.run ho' hcl hr).1.held k).underWay (hi.pending_run ho' hpd hcl ha hr))

/-! ### What is queued in any case -/

/-- The events of a queue of which each is to be received. -/
def others (events : List (ℕ × MailboxEvent α)) : List (ℕ × α) :=
  events.filterMap fun e => match e.2 with
    | .other b => some (e.1, b)
    | .invalidation _ => none

/-- What the senders send of them. -/
def sent (as : List (MailboxAction α)) : List (ℕ × α) :=
  as.filterMap fun a => match a with
    | .send i b => some (i, b)
    | _ => none

@[simp] theorem others_nil : others ([] : List (ℕ × MailboxEvent α)) = [] := rfl

@[simp] theorem others_append (es fs : List (ℕ × MailboxEvent α)) : others (es ++ fs) = others es ++ others fs := filterMap_append

theorem others_invalidation (i : ℕ) : others [(i, (.invalidation k : MailboxEvent α))] = [] := rfl

theorem others_other (i : ℕ) (b : α) : others [(i, .other b)] = [(i, b)] := rfl

theorem sent_cons (a : MailboxAction α) (as : List (MailboxAction α)) : sent (a :: as) = sent [a] ++ sent as := filterMap_append (l := [a])

/-- What a step adds is added at the end, and what it takes is recorded. -/
theorem others_step (ho : m.isOpen = true) (hcl : a ≠ .close) (hst : m.step a = some m') :
    others m'.received ++ others m'.queue = others m.received ++ others m.queue ++ sent [a] := by
  cases stepped hst with
  | close => exact absurd rfl hcl
  | unsent hc => exact nomatch ho.symm.trans hc
  | send =>
    simp only [others_append, others_other, append_assoc]
    rfl
  | queue =>
    rw [others_append, others_invalidation, append_nil]
    exact (append_nil _).symm
  | @receive i e queue _ hq =>
    have hn : sent [(.receive : MailboxAction α)] = [] := rfl
    rw [hq, hn, append_nil, ← singleton_append (l := queue), others_append, others_append, append_assoc]
  | _ => exact (append_nil _).symm

theorem others_run (ho : m.isOpen = true) (hcl : .close ∉ as) (hr : run step m as = some m') :
    others m'.received ++ others m'.queue = others m.received ++ others m.queue ++ sent as := by
  induction as generalizing m with
  | nil =>
    cases hr
    exact (append_nil _).symm
  | cons a as ih =>
    obtain ⟨u, hu, hr⟩ := (run_cons_eq_some step).mp hr
    obtain ⟨ha, has⟩ := not_or.mp (mt mem_cons.mpr hcl)
    rw [ih ((isOpen_step (Ne.symm ha) hu).trans ho) has hr, others_step ho (Ne.symm ha) hu, append_assoc, ← sent_cons]

/-! ### A closed channel -/

/-- Nothing is taken from a closed channel, and nothing is put in it. -/
structure Closed (m : Mailbox α) : Prop where
  isOpen : m.isOpen = false
  queue : m.queue = []
  acknowledging : m.acknowledging = none

theorem Closed.step (h : Closed m) (hst : m.step a = some m') : Closed m' ∧ m'.received = m.received := by
  obtain ⟨hcl, hq, ha⟩ := h
  cases stepped hst with
  | send ho => exact nomatch hcl.symm.trans ho
  | queue ho => exact nomatch hcl.symm.trans ho
  | close _ ho => exact nomatch hcl.symm.trans ho
  | receive _ hs => exact nomatch hq.symm.trans hs
  | acknowledge hs => exact nomatch ha.symm.trans hs
  | _ => exact ⟨⟨hcl, hq, ha⟩, rfl⟩

theorem Closed.run (h : Closed m) (hr : Transition.run Mailbox.step m as = some m') : Closed m' ∧ m'.received = m.received := by
  induction as generalizing m with
  | nil =>
    cases hr
    exact ⟨h, rfl⟩
  | cons a as ih =>
    obtain ⟨u, hu, hr⟩ := (run_cons_eq_some Mailbox.step).mp hr
    obtain ⟨hcl, hrcv⟩ := h.step hu
    obtain ⟨hcl', hrcv'⟩ := ih hcl hr
    exact ⟨hcl', hrcv'.trans hrcv⟩

theorem closed_close (hst : m.step .close = some m') : Closed m' ∧ m'.received = m.received := by
  cases stepped hst with
  | close ha => exact ⟨⟨rfl, rfl, ha⟩, rfl⟩

/-! ### Nothing blocks -/

/-- What senders and receiver do without anything new being sent. -/
def Proceeds : MailboxAction α → Prop
  | .queue _ | .receive | .acknowledge _ => True
  | _ => False

/-- Only finitely many senders are in `send`. -/
def Within (m : Mailbox α) (senders : List ℕ) : Prop := ∀ i, i ∉ senders → m.senders i = .idle

theorem within_step {senders : List ℕ} (h : Within m senders) (hst : m.step a = some m') : ∃ senders', Within m' senders' := by
  have hu (i : ℕ) (s : Sending) (j : ℕ) (hj : j ∉ i :: senders) : Function.update m.senders i s j = .idle := by
    obtain ⟨hji, hj⟩ := not_or.mp (mt mem_cons.mpr hj)
    rw [update_of_ne hji]
    exact h j hj
  cases stepped hst with
  | @swap i => exact ⟨i :: senders, hu i _⟩
  | @queue i => exact ⟨i :: senders, hu i _⟩
  | @unqueued i => exact ⟨i :: senders, hu i _⟩
  | @clear i => exact ⟨i :: senders, hu i _⟩
  | _ => exact ⟨senders, h⟩

/-- Every sender in `send` can go on to its end. -/
theorem Invariant.return_all (h : Invariant m) (ho : m.isOpen = true) {senders : List ℕ} (hw : Within m senders) :
    ∃ as m', (∀ a ∈ as, Proceeds a) ∧ Transition.run Mailbox.step m as = some m' ∧ ∀ i, m'.senders i = .idle := by
  induction senders generalizing m with
  | nil => exact ⟨[], m, nofun, rfl, fun i => hw i not_mem_nil⟩
  | cons i senders ih =>
    cases hs : m.senders i with
    | idle =>
      refine ih h ho fun j hj => ?_
      by_cases hji : j = i
      · rw [hji, hs]
      · exact hw j (not_or.mpr ⟨hji, hj⟩ ∘ mem_cons.mp)
    | clearing k => exact absurd hs (h.senders i k)
    | queueing k =>
      have hst : m.step (.queue i) = some { m with queue := m.queue ++ [(i, .invalidation k)], senders := Function.update m.senders i .idle } := by
        rw [Mailbox.step, hs]
        exact congrArg some (if_pos ho)
      have hcl : (.queue i : MailboxAction α) ≠ .close := nofun
      obtain ⟨as, m', has, hr, hidle⟩ := ih (h.step ho hcl hst) ho fun j hj => by
        by_cases hji : j = i
        · rw [hji]
          exact update_self _ _ _
        · exact (update_of_ne hji _ _).trans (hw j (not_or.mpr ⟨hji, hj⟩ ∘ mem_cons.mp))
      refine ⟨.queue i :: as, m', ?_, (run_cons_eq_some Mailbox.step).mpr ⟨_, hst, hr⟩, hidle⟩
      rintro b (_ | ⟨_, hb⟩)
      · trivial
      · exact has b hb

/-- The receiver can take what is queued. -/
theorem receive_all {queue : List (ℕ × MailboxEvent α)} (hque : m.queue = queue) (ha : m.acknowledging = none)
    (hidle : ∀ i, m.senders i = .idle) : ∃ as m', (∀ a ∈ as, Proceeds a) ∧ run step m as = some m' ∧ Quiet m' := by
  induction queue generalizing m with
  | nil => exact ⟨[], m, nofun, rfl, hidle, hque, ha⟩
  | cons e queue ih =>
    obtain ⟨i, e⟩ := e
    have hrec : m.step .receive = some { m with queue := queue, received := m.received ++ [(i, e)], acknowledging := e.pending } := by
      rw [step, if_pos ha, hque]
    cases e with
    | other b =>
      obtain ⟨as, m', has, hr, hq⟩ := ih rfl rfl hidle
        (m := { m with queue := queue, received := m.received ++ [(i, .other b)], acknowledging := none })
      refine ⟨.receive :: as, m', ?_, (run_cons_eq_some step).mpr ⟨_, hrec, hr⟩, hq⟩
      rintro b (_ | ⟨_, hb⟩)
      · trivial
      · exact has b hb
    | invalidation k =>
      obtain ⟨as, m', has, hr, hq⟩ := ih (m := { m with
        queue := queue, received := m.received ++ [(i, .invalidation k)], pending :=
          Function.update m.pending k false, acknowledging := none })
        rfl rfl hidle
      refine ⟨.receive :: .acknowledge k :: as, m', ?_, (run_cons_eq_some step).mpr ⟨_, hrec, (run_cons_eq_some step).mpr ⟨_, ?_, hr⟩⟩, hq⟩
      · rintro b (_ | ⟨_, _ | ⟨_, hb⟩⟩)
        · trivial
        · trivial
        · exact has b hb
      · exact if_pos rfl

/-! ### What is acknowledged -/

/-- The receiver acknowledges what it received last. -/
def Acknowledges (m : Mailbox α) : Prop := ∀ k, m.acknowledging = some k → ∃ i, m.received.getLast? = some (i, .invalidation k)

theorem Acknowledges.step (h : Acknowledges m) (hst : m.step a = some m') : Acknowledges m' := by
  cases stepped hst with
  | @receive i e _ _ _ =>
    intro k hk
    obtain rfl : e = .invalidation k := pending_eq_some.mp hk
    exact ⟨i, getLast?_concat⟩
  | acknowledge => exact nofun
  | _ => exact h

theorem acknowledges_run (hr : run step channel as = some m) : Acknowledges m :=
  have hc : Acknowledges (channel : Mailbox α) := fun _ => nofun
  run_invariant step (fun _ _ _ h hst => h.step hst) hc hr

theorem acknowledged (hr : run step channel (bs ++ .acknowledge k :: cs) = some m) :
    ∃ u i, run step channel bs = some u ∧ u.received.getLast? = some (i, .invalidation k) := by
  rw [run_append, bind_eq_some_iff] at hr
  obtain ⟨u, hu, hr⟩ := hr
  obtain ⟨v, hv, -⟩ := (run_cons_eq_some step).mp hr
  rw [step, ite_none_right_eq_some] at hv
  obtain ⟨i, hi⟩ := acknowledges_run hu k hv.1
  exact ⟨u, i, hu, hi⟩

/-! ### Runs -/

theorem Held.le_one (h : Held m k) : m.queued k + (if m.acknowledging = some k then 1 else 0) ≤ 1 := by
  cases h with
  | free _ _ hqd ha => simp [hqd, ha]
  | sender _ _ _ _ hqd ha => simp [hqd, ha]
  | queue _ _ hqd ha => simp [hqd, ha]
  | receiver _ _ hqd ha => simp [hqd, ha]

theorem within_run (hr : run step channel as = some m) : ∃ senders, Within m senders :=
  have hc : ∃ senders, Within (channel : Mailbox α) senders := ⟨[], fun _ _ => rfl⟩
  run_invariant (P := fun m => ∃ senders, Within m senders) step (fun _ _ _ ⟨_, h⟩ hst => within_step h hst) hc hr

/-- Up to where the channel is closed. -/
theorem run_close (hc : .close ∈ as) (hr : run step channel as = some m) :
    ∃ bs cs u, as = bs ++ .close :: cs ∧ .close ∉ bs ∧ run step channel bs = some u ∧ Closed m ∧ m.received = u.received := by
  obtain ⟨bs, cs, rfl, hbs⟩ := eq_append_cons_of_mem hc
  rw [run_append, bind_eq_some_iff] at hr
  obtain ⟨u, hu, hr⟩ := hr
  obtain ⟨v, hv, hr⟩ := (run_cons_eq_some step).mp hr
  obtain ⟨hcl, hrcv⟩ := closed_close hv
  obtain ⟨hcl', hrcv'⟩ := hcl.run hr
  exact ⟨bs, cs, u, rfl, hbs, hu, hcl', hrcv'.trans hrcv⟩

theorem others_channel (hcl : .close ∉ as) (hr : run step channel as = some m) : others m.received ++ others m.queue = sent as :=
  others_run rfl hcl hr

theorem received_isPrefix (hr : run step channel as = some m) : others m.received <+: sent as := by
  by_cases hcl : .close ∈ as
  · obtain ⟨bs, cs, u, rfl, hbs, hu, -, hrcv⟩ := run_close hcl hr
    rw [hrcv, sent, filterMap_append]
    exact List.IsPrefix.trans ⟨_, others_channel hbs hu⟩ (prefix_append _ _)
  · exact ⟨_, others_channel hcl hr⟩

theorem le_one (hr : run step channel as = some m) : m.queued k + (if m.acknowledging = some k then 1 else 0) ≤ 1 := by
  by_cases hcl : .close ∈ as
  · obtain ⟨-, -, -, -, -, -, hc, -⟩ := run_close hcl hr
    rw [queued, hc.queue, hc.acknowledging]
    exact Nat.zero_le 1
  · exact ((invariant_channel.run rfl hcl hr).1.held k).le_one

theorem swapped_channel (hcl : .close ∉ bs ++ .swap i k :: cs)
    (hr : run step channel (bs ++ .swap i k :: cs) = some m) : .acknowledge k ∈ cs ∨ UnderWay m k := by
  rw [run_append, bind_eq_some_iff] at hr
  obtain ⟨u, hu, hr⟩ := hr
  obtain ⟨hbs, hcs⟩ := not_or.mp (mt mem_append.mpr hcl)
  obtain ⟨hi, ho⟩ := invariant_channel.run rfl hbs hu
  exact hi.swapped ho (fun h => hcs (mem_cons_of_mem _ h)) hr

/-- Senders and receiver can go on until nothing is under way. -/
theorem quiet_reachable (hcl : .close ∉ as) (hr : run step channel as = some m) :
    ∃ bs m', (∀ a ∈ bs, Proceeds a) ∧ run step m bs = some m' ∧ Quiet m' := by
  obtain ⟨senders, hw⟩ := within_run hr
  obtain ⟨hi, ho⟩ := invariant_channel.run rfl hcl hr
  obtain ⟨bs, u, hbs, hu, hidle⟩ := hi.return_all ho hw
  cases hack : u.acknowledging with
  | none =>
    obtain ⟨cs, m', hcs, hm', hq⟩ := receive_all rfl hack hidle
    refine ⟨bs ++ cs, m', fun a ha => (mem_append.mp ha).elim (hbs a) (hcs a), ?_, hq⟩
    rw [run_append, hu]
    exact hm'
  | some k =>
    obtain ⟨cs, m', hcs, hm', hq⟩ :=
      receive_all (m := { u with pending := Function.update u.pending k false, acknowledging := none }) rfl rfl hidle
    refine ⟨bs ++ .acknowledge k :: cs, m', fun a ha => ?_, ?_, hq⟩
    · rcases mem_append.mp ha with ha | ha
      · exact hbs a ha
      · rcases mem_cons.mp ha with rfl | ha
        · trivial
        · exact hcs a ha
    · rw [run_append, hu]
      exact (run_cons_eq_some step).mpr ⟨_, if_pos hack, hm'⟩

/-- **The mailbox delivers.** In every interleaving, at most one invalidation of each kind is
queued or to be acknowledged, and the other events are received in the order in which they
were sent, none of them twice. What is acknowledged is what was received last. While the
channel is open nothing is lost: what is not yet received is queued; the kind of a flag that
was swapped is acknowledged after that, or it is still on its way; and without anything new
being sent everything gets to the receiver. -/
theorem mailbox_delivers (hrun : run step channel as = some m) :
    (∀ k, m.queued k + (if m.acknowledging = some k then 1 else 0) ≤ 1) ∧ others m.received <+: sent as ∧
      (∀ bs k cs, as = bs ++ MailboxAction.acknowledge k :: cs →
        ∃ u i, run step channel bs = some u ∧ u.received.getLast? = some (i, .invalidation k)) ∧
      (.close ∉ as → others m.received ++ others m.queue = sent as ∧
        (∀ bs i k cs, as = bs ++ MailboxAction.swap i k :: cs → MailboxAction.acknowledge k ∈ cs ∨ UnderWay m k) ∧
        (Quiet m → others m.received = sent as ∧ ∀ bs i k cs, as = bs ++ MailboxAction.swap i k :: cs → MailboxAction.acknowledge k ∈ cs) ∧
        ∃ bs m', (∀ a ∈ bs, Proceeds a) ∧ run step m bs = some m' ∧ Quiet m') := by
  have hswa (hcl : .close ∉ as) (bs : List (MailboxAction α)) (i : ℕ) (k : Invalidation) (cs : List (MailboxAction α))
      (has : as = bs ++ MailboxAction.swap i k :: cs) : MailboxAction.acknowledge k ∈ cs ∨ UnderWay m k := by
    subst has
    exact swapped_channel hcl hrun
  refine ⟨fun k => le_one hrun, received_isPrefix hrun, ?_, fun hcl => ⟨others_channel hcl hrun, hswa hcl, ?_, ?_⟩⟩
  · rintro bs k cs rfl
    exact acknowledged hrun
  · intro hq
    refine ⟨?_, fun bs i k cs has => (hswa hcl bs i k cs has).resolve_right hq.not_underWay⟩
    have hsd := others_channel hcl hrun
    rwa [hq.2.1, others_nil, append_nil] at hsd
  · exact quiet_reachable hcl hrun

/-- A second sender swaps the flag between the receiver's taking the event and its clearing
the flag, and a third one after that. -/
def sampleActions : List (MailboxAction ℕ) :=
  [.swap 0 .wakeup, .send 1 7, .queue 0, .receive, .receive, .swap 1 .wakeup, .acknowledge .wakeup, .swap 2 .wakeup, .queue 2]

theorem mailbox_delivers_sample :
    ∃ m, run step channel sampleActions = some m ∧ others m.received ++ others m.queue = [(1, 7)] ∧ UnderWay m .wakeup := by
  have hrun : run step channel sampleActions = some ((run step channel sampleActions).get rfl) := (some_get _).symm
  obtain ⟨-, -, -, h⟩ := mailbox_delivers hrun
  obtain ⟨hoths, hswa, -⟩ := h (by decide)
  exact ⟨_, hrun, hoths, (hswa (sampleActions.take 7) 2 .wakeup [.queue 2] rfl).resolve_left (by decide)⟩

end Mailbox

end Pebrel.Terminal
