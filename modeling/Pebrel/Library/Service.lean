import Mathlib.Data.List.Basic

/-!
# Services

A service answers every request: `step : σ → α → σ × β` from a state and a request
to the next state and the reply. `absorbing` is about a set of states that is
never left again, and `replies_after` about the replies that lead into it: after
the first of them, all replies are those of an absorbed service.
-/

namespace Pebrel.Library.Service

open List

variable {σ α β : Type*} (step : σ → α → σ × β)

/-- The state after the requests. -/
def run (s : σ) (as : List α) : σ := as.foldl (fun s a => (step s a).1) s

/-- The replies to the requests. -/
def replies : σ → List α → List β
  | _, [] => []
  | s, a :: as => (step s a).2 :: replies (step s a).1 as

theorem run_cons (s : σ) (a : α) (as : List α) : run step s (a :: as) = run step (step s a).1 as := rfl

theorem replies_append (s : σ) (as bs : List α) : replies step s (as ++ bs) = replies step s as ++ replies step (run step s as) bs := by
  induction as generalizing s with
  | nil => rfl
  | cons a as ih => rw [cons_append, replies, replies, ih, run_cons, cons_append]

variable {step}

/-- What every step preserves holds after every run. -/
theorem run_invariant {P : σ → Prop} (hst : ∀ s a, P s → P (step s a).1) {s : σ} (hs : P s) (as : List α) : P (run step s as) := by
  induction as generalizing s with
  | nil => exact hs
  | cons a as ih => exact ih (hst s a hs)

/-- From states that are not left again, all replies are as from these states. -/
theorem absorbing {P : σ → Prop} {Q : β → Prop} (hst : ∀ s a, P s → P (step s a).1 ∧ Q (step s a).2) {s : σ}
    (hs : P s) (as : List α) : ∀ b ∈ replies step s as, Q b := by
  induction as generalizing s with
  | nil => exact fun b hb => nomatch hb
  | cons a as ih =>
    intro b hb
    rcases mem_cons.mp hb with rfl | hb
    · exact (hst s a hs).2
    · exact ih (hst s a hs).1 b hb

/-- After a reply that leads into states that are not left again. -/
theorem replies_after {P : σ → Prop} {Q R : β → Prop} (hst : ∀ s a, P s → P (step s a).1 ∧ Q (step s a).2)
    (hlead : ∀ s a, R (step s a).2 → P (step s a).1) {s : σ} {as : List α} {before after : List β} {b : β}
    (h : replies step s as = before ++ b :: after) (hb : R b) : ∀ c ∈ after, Q c := by
  induction as generalizing s before with
  | nil => exact absurd h (by simp [replies])
  | cons a as ih =>
    rw [replies] at h
    cases before with
    | nil =>
      obtain ⟨hhd, htl⟩ := List.cons.inj h
      rw [← htl]
      exact absorbing hst (hlead s a (hhd ▸ hb)) as
    | cons d before => exact ih (List.cons.inj h).2

end Pebrel.Library.Service
