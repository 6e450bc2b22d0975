import Pebrel.Workspace.SessionPersistence

/-!
# What becomes of the session

The storage has the tabs of a snapshot that was passed to a save, and after tabs were closed
none of an older one. It is empty only when empty snapshots of closed tabs or windows were
passed, has the newest snapshot after each checkpoint that succeeds (unless a write that
failed has replaced the file), and is left alone after the program has saved to quit
(`session_kept`).
-/

namespace Pebrel.Workspace

open Option List

variable {τ δ : Type} [DecidableEq τ] [DecidableEq δ]

/-! ### One save -/

section
variable {pending : Bool} {writes : Writes} {current : Option (Session τ δ)} {reason : SaveReason} {s : SessionPersistence τ δ}
  {session : Session τ δ}

section
omit [DecidableEq τ] [DecidableEq δ]

theorem nonEmpty_eq_some {c : Session τ δ} : nonEmpty current = some c ↔ current = some c ∧ c.tabs ≠ [] := by
  rw [nonEmpty, filter_eq_some_iff]
  simp

theorem stamped_tabs (session : Session τ δ) : (stamped current reason session).tabs = session.tabs := by
  rw [stamped]
  split <;> rfl

end

theorem saveWith_none (h : candidate pending current reason s = none) : saveWith pending writes current reason s = (s, none, true) := by
  rw [saveWith, h]

theorem saveWith_some (h : candidate pending current reason s = some session) :
    saveWith pending writes current reason s = saveSession pending writes reason (stamped current reason session) s := by
  rw [saveWith, h]

/-- What a save of a session does: the session is the latest, and is the saved one too if it succeeds. -/
structure SavesSession (pending : Bool) (reason : SaveReason) (session : Session τ δ) (s : SessionPersistence τ δ)
    (result : SessionPersistence τ δ × Option (Session τ δ) × Bool) : Prop where
  latest : result.1.latest = some session
  isolated : result.1.isolated = s.isolated
  written : result.2.1 = none ∧ (result.1.saved = s.saved ∨ s.isolated = true) ∨
    result.2.1 = some session ∧ s.isolated = false ∧ (result.2.2 = true → result.1.saved = some session)
  ok : result.2.2 = true → s.isolated = false → result.1.saved = some session
  quitting : result.1.quitting = s.quitting ∨ result.2.2 = true ∧ result.1.quitting = true ∧ reason = .quit ∧ pending = false
  quits : result.2.2 = true → reason = .quit → pending = false → result.1.quitting = true

theorem saveSession_spec : SavesSession pending reason session s (saveSession pending writes reason session s) := by
  have hq : (s.quitting || decide (reason = .quit) && !pending) = s.quitting ∨
      (s.quitting || decide (reason = .quit) && !pending) = true ∧ reason = .quit ∧ pending = false := by
    cases s.quitting <;> cases pending <;> cases reason <;> decide
  have hqui : reason = .quit → pending = false → (s.quitting || decide (reason = .quit) && !pending) = true := by
    rintro rfl rfl
    exact Bool.or_true _
  rw [saveSession]
  split
  · rename_i hsv
    exact ⟨rfl, rfl, .inl ⟨rfl, .inl rfl⟩, fun _ _ => hsv, hq.imp id fun h => ⟨rfl, h⟩, fun _ => hqui⟩
  split
  · rename_i hi
    split
    · exact ⟨rfl, rfl, .inl ⟨rfl, .inl rfl⟩, nofun, .inl rfl, nofun⟩
    · exact ⟨rfl, rfl, .inl ⟨rfl, .inl rfl⟩, fun _ h => absurd (hi.symm.trans h) nofun, hq.imp id fun h => ⟨rfl, h⟩, fun _ => hqui⟩
    · exact ⟨rfl, rfl, .inl ⟨rfl, .inr hi⟩, fun _ _ => rfl, hq.imp id fun h => ⟨rfl, h⟩, fun _ => hqui⟩
  · rename_i hi
    rw [Bool.not_eq_true] at hi
    split
    · exact ⟨rfl, rfl, .inr ⟨rfl, hi, fun _ => rfl⟩, fun _ _ => rfl, hq.imp id fun h => ⟨rfl, h⟩, fun _ => hqui⟩
    · exact ⟨rfl, rfl, .inl ⟨rfl, .inl rfl⟩, nofun, .inl rfl, nofun⟩
    · exact ⟨rfl, rfl, .inr ⟨rfl, hi, nofun⟩, nofun, .inl rfl, nofun⟩

/-- A snapshot that a save may take: one with tabs, or of what was closed. -/
def Takes (current : Option (Session τ δ)) (reason : SaveReason) (c : Session τ δ) : Prop :=
  current = some c ∧ (c.tabs ≠ [] ∨ reason = .windowClose ∨ reason = .tabsClosed)

/-- The session that is written is the latest, or the snapshot. -/
theorem candidate_cases (h : candidate pending current reason s = some session) :
    s.latest = some session ∨ Takes current reason session := by
  have hn {c : Session τ δ} (h : nonEmpty current = some c) : Takes current reason c := by
    obtain ⟨hcur, htabs⟩ := nonEmpty_eq_some.mp h
    exact ⟨hcur, .inl htabs⟩
  have hor {other : Option (Session τ δ)} (ho : ∀ c, other = some c → s.latest = some c)
      (h : (nonEmpty current).or other = some session) : s.latest = some session ∨ Takes current reason session := by
    rcases or_eq_some_iff.mp h with h | ⟨-, h⟩
    · exact .inr (hn h)
    · exact .inl (ho _ h)
  unfold candidate at h
  split at h
  · rcases or_eq_some_iff.mp h with h | ⟨-, h⟩
    · exact .inl h
    · exact .inr (hn h)
  split at h
  · split at h
    · exact nomatch h
    · exact .inl h
  · split at h
    · exact hor (fun c hc => (filter_eq_some_iff.mp hc).1) h
    · exact .inr ⟨h, .inr (.inl rfl)⟩
    · exact .inr ⟨h, .inr (.inr rfl)⟩
    · exact hor (fun c hc => hc) h

end

/-! ### Runs -/

section
variable {s s₀ : State τ δ} {e : Event τ δ} {es : List (Event τ δ)} {P : List τ → Prop}

theorem saves (s : State τ δ) (current : Option (Session τ δ)) (reason : SaveReason) (writes : Writes) (c : Session τ δ) :
    SavesSession s.pending reason (stamped current reason c) s.persistence
      (saveSession s.pending writes reason (stamped current reason c) s.persistence) := saveSession_spec

/-- What an event passes to be saved has the property. -/
def Passes (P : List τ → Prop) : Event τ δ → Prop
  | .save current reason _ => ∀ c, Takes current reason c → P c.tabs
  | _ => True

/-- The tabs of the latest session have the property, and those of the stored one, if it is another than before. -/
structure From (P : List τ → Prop) (stored : Option (Session τ δ)) (s : State τ δ) : Prop where
  latest : ∀ l, s.persistence.latest = some l → P l.tabs
  stored : s.stored = stored ∨ ∃ x, s.stored = some x ∧ P x.tabs

variable {stored current : Option (Session τ δ)} {n : Option (List τ)} {b : Bool} {writes : Writes}

theorem From.step (h : From P stored s) (he : Passes P e) : From P stored (step s e) := by
  cases e with
  | cancelQuit => exact ⟨h.latest, h.stored⟩
  | ending pending => exact ⟨h.latest, h.stored⟩
  | save current reason writes =>
    cases hcand : candidate s.pending current reason s.persistence with
    | none =>
      rw [Workspace.step, saveWith_none hcand]
      exact ⟨h.latest, h.stored⟩
    | some c =>
      have hspec := saves s current reason writes c
      have hc : P (stamped current reason c).tabs := by
        rw [stamped_tabs]
        rcases candidate_cases hcand with hlst | ht
        · exact h.latest c hlst
        · exact he c ht
      rw [Workspace.step, saveWith_some hcand]
      refine ⟨fun l hl => ?_, ?_⟩
      · rw [hspec.latest] at hl
        exact some.inj hl ▸ hc
      · rcases hspec.written with ⟨hn, -⟩ | ⟨hs, -⟩
        · exact h.stored.imp (fun heq => by simp [hn, heq]) fun ⟨x, hx, hP⟩ => ⟨x, by simp [hn, hx], hP⟩
        · exact .inr ⟨_, by simp [hs], hc⟩

/-- By induction on the events. -/
theorem From.run (h : From P stored s) (hes : ∀ e ∈ es, Passes P e) : From P stored (run s es) := by
  induction es generalizing s with
  | nil => exact h
  | cons e es ih =>
    obtain ⟨he, hes⟩ := forall_mem_cons.mp hes
    exact ih (h.step he) hes

/-- An event passes these tabs. -/
def Passed (es : List (Event τ δ)) (tabs : List τ) : Prop :=
  ∃ current reason writes c, .save current reason writes ∈ es ∧ Takes current reason c ∧ tabs = c.tabs

section
omit [DecidableEq τ] [DecidableEq δ]

theorem passes_passed (es : List (Event τ δ)) : ∀ e ∈ es, Passes (Passed es) e := by
  intro e he
  cases e with
  | cancelQuit => trivial
  | ending pending => trivial
  | save current reason writes => exact fun c hc => ⟨current, reason, writes, c, he, hc, rfl⟩

theorem takes_iff_passed_nil (h : Passed es []) :
    ∃ current reason writes, .save current reason writes ∈ es ∧ (∃ c, current = some c ∧ c.tabs = []) ∧
      (reason = .windowClose ∨ reason = .tabsClosed) := by
  obtain ⟨current, reason, writes, c, hm, ⟨hc, ht⟩, htabs⟩ := h
  refine ⟨current, reason, writes, hm, ⟨c, hc, htabs.symm⟩, ?_⟩
  exact ht.resolve_left fun hne => hne htabs.symm

end

/-! ### The newest snapshot -/

/-- The latest session has the tabs of the newest snapshot, and what was saved is what is stored, but for what a
failed write has put there. -/
structure Synced (n : Option (List τ)) (stray : Bool) (s : State τ δ) : Prop where
  newest : s.persistence.latest.map Session.tabs = n
  stored : s.persistence.isolated = false → stray = false → ∀ x, s.persistence.saved = some x → s.stored = some x

theorem candidate_newest (h : s.persistence.latest.map Session.tabs = n) (current : Option (Session τ δ))
    (reason : SaveReason) (writes : Writes) :
    ((candidate s.pending current reason s.persistence).map Session.tabs).or n = newestAfter s n (.save current reason writes) := by
  subst h
  unfold candidate newestAfter
  dsimp only
  cases hpd : s.pending with
  | true =>
    cases hl : s.persistence.latest with
    | none => simp
    | some l => simp
  | false =>
    cases hq : s.persistence.quitting with
    | true =>
      cases reason <;> cases hl : s.persistence.latest <;> simp
    | false =>
      cases reason with
      | checkpoint =>
        cases nonEmpty current with
        | none =>
          cases hl : s.persistence.latest with
          | none => simp
          | some l =>
            by_cases hsv : s.persistence.saved = some l <;> simp [Option.filter, hsv]
        | some c => simp
      | windowClose => cases current <;> simp
      | tabsClosed => cases current <;> simp
      | quit =>
        cases nonEmpty current with
        | none => cases hl : s.persistence.latest <;> simp
        | some c => simp

theorem Synced.step (h : Synced n b s) (e : Event τ δ) : Synced (newestAfter s n e) (strayAfter s b e) (step s e) := by
  cases e with
  | cancelQuit => exact ⟨h.newest, h.stored⟩
  | ending pending => exact ⟨h.newest, h.stored⟩
  | save current reason writes =>
    rw [← candidate_newest h.newest]
    cases hcand : candidate s.pending current reason s.persistence with
    | none =>
      rw [Workspace.step, strayAfter, saveWith_none hcand]
      exact ⟨h.newest, h.stored⟩
    | some c =>
      have hspec := saves s current reason writes c
      rw [Workspace.step, strayAfter, saveWith_some hcand]
      refine ⟨?_, fun hi hb x hx => ?_⟩
      · rw [hspec.latest]
        exact congrArg some (stamped_tabs c)
      · rw [hspec.isolated] at hi
        rcases hspec.written with ⟨hn, hsv⟩ | ⟨hs, -, hsv⟩
        · have hkept := hsv.resolve_right fun htrue => nomatch htrue.symm.trans hi
          simp only [hn, isSome_none, Bool.false_eq_true, if_false] at hb ⊢
          rw [hkept] at hx
          exact h.stored hi hb x hx
        · simp only [hs, isSome_some, if_true, Bool.not_eq_false'] at hb ⊢
          rw [hsv hb] at hx
          exact hx

theorem Synced.run (h : Synced n b s) : Synced (Workspace.newest s n es) (Workspace.stray s b es) (Workspace.run s es) := by
  induction es generalizing s n b with
  | nil => exact h
  | cons e es ih => exact ih (h.step e)

/-- A checkpoint that succeeds leaves the newest snapshot in the storage. -/
theorem checkpoint_stores (h : Synced n b s) (hi : s.persistence.isolated = false)
    (hb : strayAfter s b (.save current .checkpoint writes) = false) (hf : s.persistence.quitting = false ∨ s.pending = true)
    (hok : Succeeds s current .checkpoint writes) {tabs : List τ} (hn : newestAfter s n (.save current .checkpoint writes) = some tabs) :
    ∃ x, (step s (.save current .checkpoint writes)).stored = some x ∧ x.tabs = tabs := by
  have hst := h.step (.save current .checkpoint writes)
  rw [hn] at hst
  obtain ⟨l, hl, htabs⟩ := map_eq_some_iff.mp hst.newest
  refine ⟨l, ?_, htabs⟩
  cases hcand : candidate s.pending current .checkpoint s.persistence with
  | none =>
    have hl' : s.persistence.latest = some l := by
      rw [Workspace.step, saveWith_none hcand] at hl
      exact hl
    have hsv : s.persistence.saved = some l := by
      unfold candidate at hcand
      cases hpd : s.pending with
      | true =>
        rw [hpd, hl'] at hcand
        exact nomatch hcand
      | false =>
        have hq : s.persistence.quitting = false := hf.resolve_right fun htrue => nomatch hpd.symm.trans htrue
        rw [hpd, hq, hl'] at hcand
        by_contra hne
        have hfil : (some l).filter (fun latest => decide (s.persistence.saved ≠ some latest)) = some l := by simp [Option.filter, hne]
        rw [hfil] at hcand
        cases hc : nonEmpty current <;> simp [hc] at hcand
    rw [strayAfter, saveWith_none hcand] at hb
    rw [Workspace.step, saveWith_none hcand]
    exact h.stored hi hb l hsv
  | some c =>
    have hspec := saves s current .checkpoint writes c
    have hsv := hspec.ok (by rw [Succeeds, saveWith_some hcand] at hok; exact hok) hi
    refine hst.stored ?_ hb l ?_
    · rw [Workspace.step, saveWith_some hcand]
      exact hspec.isolated.trans hi
    · rw [Workspace.step, saveWith_some hcand] at hl ⊢
      exact hsv.trans (hspec.latest.symm.trans hl)

/-! ### After the program has saved to quit -/

/-- What was saved to quit is kept. -/
structure Frozen (s : State τ δ) : Prop where
  quitting : s.persistence.quitting = true
  pending : s.pending = false
  kept : s.persistence.isolated = false → ∃ l, s.persistence.latest = some l ∧ s.persistence.saved = some l ∧ l.cleanExit = true

theorem isolated_step (h : s.persistence.isolated = true) (e : Event τ δ) :
    (step s e).persistence.isolated = true ∧ (step s e).stored = s.stored := by
  cases e with
  | cancelQuit => exact ⟨h, rfl⟩
  | ending pending => exact ⟨h, rfl⟩
  | save current reason writes =>
    cases hcand : candidate s.pending current reason s.persistence with
    | none =>
      rw [Workspace.step, saveWith_none hcand]
      exact ⟨h, rfl⟩
    | some c =>
      have hspec := saves s current reason writes c
      rw [Workspace.step, saveWith_some hcand]
      refine ⟨hspec.isolated.trans h, ?_⟩
      rcases hspec.written with ⟨hn, -⟩ | ⟨-, hf, -⟩
      · simp [hn]
      · exact nomatch h.symm.trans hf

theorem isolated_eq (s : State τ δ) (e : Event τ δ) : (step s e).persistence.isolated = s.persistence.isolated := by
  cases e with
  | cancelQuit => rfl
  | ending pending => rfl
  | save current reason writes =>
    cases hcand : candidate s.pending current reason s.persistence with
    | none => rw [Workspace.step, saveWith_none hcand]
    | some c =>
      rw [Workspace.step, saveWith_some hcand]
      exact saveSession_spec.isolated

theorem isolated_run (h : s.persistence.isolated = true) : (run s es).stored = s.stored := by
  induction es generalizing s with
  | nil => rfl
  | cons e es ih =>
    obtain ⟨hi, hs⟩ := isolated_step h e
    exact (ih hi).trans hs

/-- Nothing but a notice of the system or the user's cancelling it ends it. -/
theorem Frozen.step (h : Frozen s) (hc : e ≠ .cancelQuit) (he : e ≠ .ending true) :
    Frozen (step s e) ∧ (step s e).stored = s.stored := by
  cases e with
  | cancelQuit => exact absurd rfl hc
  | ending pending =>
    cases pending with
    | true => exact absurd rfl he
    | false => exact ⟨⟨h.quitting, rfl, h.kept⟩, rfl⟩
  | save current reason writes =>
    have hsm (hres : (saveWith s.pending writes current reason s.persistence).1 = s.persistence)
        (hwr : (saveWith s.pending writes current reason s.persistence).2.1 = none) :
        Frozen (Workspace.step s (.save current reason writes)) ∧ (Workspace.step s (.save current reason writes)).stored = s.stored := by
      rw [Workspace.step]
      dsimp only
      rw [hres, hwr]
      exact ⟨⟨h.quitting, h.pending, h.kept⟩, rfl⟩
    cases hcand : candidate s.pending current reason s.persistence with
    | none => exact hsm (by rw [saveWith_none hcand]) (by rw [saveWith_none hcand])
    | some c =>
      obtain ⟨hq, hlst⟩ : reason = .quit ∧ s.persistence.latest = some c := by
        unfold candidate at hcand
        rw [h.pending, h.quitting] at hcand
        by_cases hr : reason = .quit
        · exact ⟨hr, by simpa [hr] using hcand⟩
        · simp [hr] at hcand
      subst hq
      cases hi : s.persistence.isolated with
      | true =>
        have hspec := saves s current .quit writes c
        obtain ⟨hi', hs⟩ := isolated_step hi (.save current .quit writes)
        refine ⟨⟨?_, h.pending, fun hf => nomatch hi'.symm.trans hf⟩, hs⟩
        rw [Workspace.step, saveWith_some hcand]
        rcases hspec.quitting with hqui | ⟨-, hqui, -⟩
        · exact hqui.trans h.quitting
        · exact hqui
      | false =>
        obtain ⟨l, hl, hsv, hcln⟩ := h.kept hi
        obtain rfl : c = l := some.inj (hlst.symm.trans hl)
        have hsta : stamped current .quit c = c := by
          rw [stamped, if_neg fun h => nomatch h.1]
          cases c
          cases hcln
          rfl
        have hsave : saveSession s.pending writes .quit (stamped current .quit c) s.persistence = (s.persistence, none, true) := by
          rw [saveSession, hsta, if_pos hsv, h.quitting, Bool.true_or]
          refine Prod.ext ?_ rfl
          dsimp only
          rw [← hl, ← h.quitting]
        exact hsm (by rw [saveWith_some hcand, hsave]) (by rw [saveWith_some hcand, hsave])

theorem Frozen.run (h : Frozen s) (hes : ∀ e ∈ es, e ≠ .cancelQuit ∧ e ≠ .ending true) : (run s es).stored = s.stored := by
  induction es generalizing s with
  | nil => rfl
  | cons e es ih =>
    obtain ⟨he, hes⟩ := forall_mem_cons.mp hes
    obtain ⟨hf, hs⟩ := h.step he.1 he.2
    exact (ih hf hes).trans hs

/-- A save to quit that succeeds, and has anything to save. -/
theorem frozen_of_quit (h : Synced n b s) (hpd : s.pending = false) (hok : Succeeds s current .quit writes)
    (hnew : newestAfter s n (.save current .quit writes) ≠ none) : Frozen (step s (.save current .quit writes)) := by
  rw [← candidate_newest h.newest] at hnew
  cases hcand : candidate s.pending current .quit s.persistence with
  | none =>
    have hn : n = none := by
      have hl : s.persistence.latest = none := by
        unfold candidate at hcand
        rw [hpd] at hcand
        cases hq : s.persistence.quitting with
        | true => simpa [hq] using hcand
        | false =>
          rw [hq] at hcand
          exact (or_eq_none_iff.mp hcand).2
      rw [← h.newest, hl]
      rfl
    rw [hcand, hn] at hnew
    exact absurd rfl hnew
  | some c =>
    have hspec := saves s current .quit writes c
    have hok' : (saveSession s.pending writes .quit (stamped current .quit c) s.persistence).2.2 = true := by
      rw [Succeeds, saveWith_some hcand] at hok
      exact hok
    rw [Workspace.step, saveWith_some hcand]
    refine ⟨hspec.quits hok' rfl hpd, hpd, fun hi => ⟨_, hspec.latest, hspec.ok hok' (hspec.isolated.symm.trans hi), ?_⟩⟩
    rw [stamped, if_neg fun h => nomatch h.1]
    rfl

end

/-- **What is kept of the session**, in every run of saves, notices and cancelled quits, with any writes failing:
the stored session has the tabs of a snapshot that was passed, or is the one there was; it is empty by an empty
snapshot of closed tabs or windows only; a checkpoint that succeeds, but while the program quits, leaves the newest
snapshot stored, unless the storage holds what a failed write has put there; what a successful save to quit has
stored, if any, is kept until quitting is cancelled or the system ends the session; after tabs were closed, but not
while the program quits or the system ends the session, only snapshots from then on are stored; and an isolated
window stores nothing. -/
theorem session_kept (isolated pending : Bool) (stored : Option (Session τ δ)) (es : List (Event τ δ)) :
    ((run (initial isolated pending stored) es).stored = stored ∨
      ∃ x, (run (initial isolated pending stored) es).stored = some x ∧ Passed es x.tabs) ∧
    (∀ x, (run (initial isolated pending stored) es).stored = some x → x.tabs = [] → some x = stored ∨
      ∃ current reason writes, .save current reason writes ∈ es ∧ (∃ c, current = some c ∧ c.tabs = []) ∧
        (reason = .windowClose ∨ reason = .tabsClosed)) ∧
    (∀ current writes tabs, isolated = false →
      ((run (initial isolated pending stored) es).persistence.quitting = false ∨ (run (initial isolated pending stored) es).pending = true) →
      Succeeds (run (initial isolated pending stored) es) current .checkpoint writes →
      stray (initial isolated pending stored) false (es ++ [.save current .checkpoint writes]) = false →
      newest (initial isolated pending stored) none (es ++ [.save current .checkpoint writes]) = some tabs →
      ∃ x, (run (initial isolated pending stored) (es ++ [.save current .checkpoint writes])).stored = some x ∧ x.tabs = tabs) ∧
    (∀ current writes post, (run (initial isolated pending stored) es).pending = false →
      Succeeds (run (initial isolated pending stored) es) current .quit writes →
      newest (initial isolated pending stored) none (es ++ [.save current .quit writes]) ≠ none →
      (∀ e ∈ post, e ≠ .cancelQuit ∧ e ≠ .ending true) →
      (run (initial isolated pending stored) (es ++ .save current .quit writes :: post)).stored =
        (run (initial isolated pending stored) (es ++ [.save current .quit writes])).stored) ∧
    (∀ c reason writes post, (run (initial isolated pending stored) es).pending = false →
      (run (initial isolated pending stored) es).persistence.quitting = false → reason = .windowClose ∨ reason = .tabsClosed →
      (run (initial isolated pending stored) (es ++ .save (some c) reason writes :: post)).stored =
          (run (initial isolated pending stored) (es ++ [.save (some c) reason writes])).stored ∨
        ∃ x, (run (initial isolated pending stored) (es ++ .save (some c) reason writes :: post)).stored = some x ∧
          (x.tabs = c.tabs ∨ Passed post x.tabs)) ∧
    (isolated = true → (run (initial isolated pending stored) es).stored = stored) := by
  have hfrom : From (Passed es) stored (run (initial isolated pending stored) es) := .run ⟨nofun, .inl rfl⟩ (passes_passed es)
  have hsyn : Synced (newest (initial isolated pending stored) none es) (stray (initial isolated pending stored) false es)
      (run (initial isolated pending stored) es) := Synced.run ⟨rfl, fun _ _ _ => nofun⟩
  have happ (post : List (Event τ δ)) : run (initial isolated pending stored) (es ++ post) =
      run (run (initial isolated pending stored) es) post := foldl_append
  have hnew (s : State τ δ) (n : Option (List τ)) (es : List (Event τ δ)) (e : Event τ δ) :
      newest s n (es ++ [e]) = newestAfter (run s es) (newest s n es) e := by
    induction es generalizing s n with
    | nil => rfl
    | cons e' es ih => exact ih (step s e') (newestAfter s n e')
  have hstray (s : State τ δ) (b : Bool) (es : List (Event τ δ)) (e : Event τ δ) :
      stray s b (es ++ [e]) = strayAfter (run s es) (stray s b es) e := by
    induction es generalizing s b with
    | nil => rfl
    | cons e' es ih => exact ih (step s e') (strayAfter s b e')
  refine ⟨hfrom.stored, fun x hx htabs => ?_, fun current writes tabs hisol hf hok hst htabs => ?_,
    fun current writes post hpd hok htabs hpost => ?_, fun c reason writes post hpd hq hrea => ?_, fun hisol => ?_⟩
  · rcases hfrom.stored with heq | ⟨y, hy, hpas⟩
    · exact .inl (hx.symm.trans heq)
    · obtain rfl := some.inj (hx.symm.trans hy)
      exact .inr (takes_iff_passed_nil (htabs ▸ hpas))
  · rw [hnew] at htabs
    rw [happ]
    have hiso : (run (initial isolated pending stored) es).persistence.isolated = false := by
      have hkeep (s : State τ δ) (h : s.persistence.isolated = false) (es : List (Event τ δ)) : (run s es).persistence.isolated = false := by
        induction es generalizing s with
        | nil => exact h
        | cons e es ih => exact ih _ (isolated_eq s e ▸ h)
      exact hkeep _ hisol es
    exact checkpoint_stores hsyn hiso (hstray .. ▸ hst) hf hok htabs
  · rw [hnew] at htabs
    rw [happ, happ]
    exact (frozen_of_quit hsyn hpd hok htabs).run hpost
  · rw [happ, happ]
    have hcl : ∀ l, (step (run (initial isolated pending stored) es) (.save (some c) reason writes)).persistence.latest = some l →
        l.tabs = c.tabs ∨ Passed post l.tabs := by
      intro l hl
      have hst := (hsyn.step (.save (some c) reason writes)).newest
      rw [hl] at hst
      unfold newestAfter at hst
      simp only [hpd, hq, hrea, if_true, Bool.false_eq_true, if_false, map_some, some_or] at hst
      exact .inl (some.inj hst)
    exact (From.run (P := fun tabs => tabs = c.tabs ∨ Passed post tabs) ⟨hcl, .inl rfl⟩ fun e he => by
      cases e with
      | cancelQuit => trivial
      | ending pending => trivial
      | save current reason writes => exact fun c' hc' => .inr ⟨current, reason, writes, c', he, hc', rfl⟩).stored
  · exact isolated_run hisol

/-- The system is ending the session when the program saves to quit; then it does not, and a checkpoint changes what was stored. -/
theorem quit_not_kept :
    let quit : Event ℕ Unit := .save (some ⟨[1], false, ()⟩) .quit ⟨.done, none⟩
    let checkpoint : Event ℕ Unit := .save (some ⟨[2], false, ()⟩) .checkpoint ⟨.done, none⟩
    Succeeds (initial false true none) (some (⟨[1], false, ()⟩ : Session ℕ Unit)) .quit ⟨.done, none⟩ ∧
      (run (initial false true none) [quit]).stored = some ⟨[1], true, ()⟩ ∧
      (run (initial false true none) [quit, .ending false, checkpoint]).stored = some ⟨[2], false, ()⟩ := by
  refine ⟨?_, ?_, ?_⟩ <;> rfl

end Pebrel.Workspace
