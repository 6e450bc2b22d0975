import Mathlib.Data.List.Induction

/-!
# What happened since

A machine is a step function `step : σ → α → σ`. `Since step E K s as` says that in the
run of the actions `as` from `s` there is a step of which `E` holds, and of all steps
after it `K` does. `since_of_step` is the rule for it: what holds of a state only if `E`
holds of the last step, or it did before the step and `K` holds of the step,
holds only if `E` has, and since then `K`.
-/

namespace Pebrel.Library.History

open List

variable {σ α : Type*} (step : σ → α → σ)

/-- The state after the actions. -/
def run (s : σ) (as : List α) : σ := as.foldl step s

@[simp] theorem run_nil (s : σ) : run step s [] = s := rfl

@[simp] theorem run_cons (s : σ) (a : α) (as : List α) : run step s (a :: as) = run step (step s a) as := rfl

theorem run_append (s : σ) (as bs : List α) : run step s (as ++ bs) = run step (run step s as) bs := foldl_append

theorem run_concat (s : σ) (as : List α) (a : α) : run step s (as ++ [a]) = step (run step s as) a := by
  rw [run_append, run_cons, run_nil]

/-- `K` holds of all steps. -/
def Throughout (K : σ → α → Prop) : σ → List α → Prop
  | _, [] => True
  | s, a :: as => K s a ∧ Throughout K (step s a) as

/-- A step of which `E` holds, and after it only steps of which `K` does. -/
def Since (E K : σ → α → Prop) (s : σ) (as : List α) : Prop :=
  ∃ before a after, as = before ++ a :: after ∧ E (run step s before) a ∧ Throughout step K (run step s (before ++ [a])) after

section
variable {step} {E K : σ → α → Prop} {P : σ → Prop} {s : σ} {a : α} {as : List α}

theorem throughout_concat_iff : Throughout step K s (as ++ [a]) ↔ Throughout step K s as ∧ K (run step s as) a := by
  induction as generalizing s with
  | nil => exact ⟨fun h => ⟨trivial, h.1⟩, fun h => ⟨h.2, trivial⟩⟩
  | cons b as ih => rw [cons_append, Throughout, Throughout, ih, run_cons, and_assoc]

theorem since_concat_iff : Since step E K s (as ++ [a]) ↔ E (run step s as) a ∨ K (run step s as) a ∧ Since step E K s as := by
  constructor
  · rintro ⟨before, b, after, h, hb, haft⟩
    rcases eq_nil_or_concat after with rfl | ⟨after, c, rfl⟩
    · obtain ⟨rfl, hab⟩ := append_inj' h rfl
      obtain rfl := singleton_inj.mp hab
      exact .inl hb
    rw [concat_eq_append, ← cons_append, ← append_assoc] at h
    obtain ⟨rfl, hac⟩ := append_inj' h rfl
    obtain rfl := singleton_inj.mp hac
    obtain ⟨hk, hl⟩ := throughout_concat_iff.mp (concat_eq_append ▸ haft)
    refine .inr ⟨?_, before, b, after, rfl, hb, hk⟩
    rw [← run_append, append_assoc] at hl
    exact hl
  · rintro (ha | ⟨ha, before, b, after, rfl, hb, haft⟩)
    · exact ⟨as, a, [], rfl, ha, trivial⟩
    · refine ⟨before, b, after ++ [a], by rw [append_assoc, cons_append], hb, throughout_concat_iff.mpr ⟨haft, ?_⟩⟩
      rw [← run_append, append_assoc]
      exact ha

/-- **The rule.** -/
theorem since_of_step (hst : ¬ P s) (hstep : ∀ s a, P (step s a) → E s a ∨ K s a ∧ P s) (h : P (run step s as)) : Since step E K s as := by
  induction as using reverseRecOn with
  | nil => exact absurd h hst
  | append_singleton as a ih =>
    rw [run_concat] at h
    exact since_concat_iff.mpr ((hstep _ a h).imp_right fun hb => ⟨hb.1, ih hb.2⟩)

end

end Pebrel.Library.History
