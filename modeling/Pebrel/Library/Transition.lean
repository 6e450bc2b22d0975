import Mathlib.Order.Basic

/-!
# Transitions

A machine is a step function `step : σ → α → Option σ`: from a state and an
action to the next state, or to nothing where the action is not taken. This
module has the runs of such a machine and the rules by which what one step
preserves is carried over whole runs.

`Along step P s as` says that `P` holds of every state that the actions `as`
reach from `s`, and `Meets step C s as` that every action taken meets the
condition `C` on the state before it. `run_along_iff` joins the two: if a step
from a good state leads to a good state exactly when it meets `C`, then all
states of a run are good exactly when all its steps meet `C`.
-/

namespace Pebrel.Library.Transition

open Option

variable {σ α : Type*} (step : σ → α → Option σ)

/-- The state after the actions, if each of them is taken. -/
def run : σ → List α → Option σ
  | s, [] => some s
  | s, a :: as => (step s a).bind fun s' => run s' as

variable {s s' : σ} {as : List α} {P Q : σ → Prop} {C : σ → α → Prop}

theorem run_cons (s : σ) (a : α) (as : List α) : run step s (a :: as) = (step s a).bind (run step · as) := rfl

theorem run_cons_eq_some {a : α} : run step s (a :: as) = some s' ↔ ∃ u, step s a = some u ∧ run step u as = some s' := by
  rw [run_cons, bind_eq_some_iff]

theorem run_append (s : σ) (as bs : List α) : run step s (as ++ bs) = (run step s as).bind (run step · bs) := by
  induction as generalizing s with
  | nil => rfl
  | cons a as ih =>
    rw [List.cons_append, run_cons, run_cons, bind_assoc]
    congr 1
    funext u
    exact ih u

/-- What every step preserves holds of every state reached. -/
theorem run_invariant (hst : ∀ s a s', P s → step s a = some s' → P s') (hs : P s) (h : run step s as = some s') : P s' := by
  induction as generalizing s with
  | nil => cases h; exact hs
  | cons a as ih =>
    obtain ⟨u, hu, h⟩ := (run_cons_eq_some step).mp h
    exact ih (hst s a u hs hu) h

/-- `P` holds of every state that the actions reach. -/
def Along (P : σ → Prop) : σ → List α → Prop
  | s, [] => P s
  | s, a :: as => P s ∧ ∀ s', step s a = some s' → Along P s' as

/-- Every action taken meets `C` on the state before it. -/
def Meets (C : σ → α → Prop) : σ → List α → Prop
  | _, [] => True
  | s, a :: as => C s a ∧ ∀ s', step s a = some s' → Meets C s' as

section
variable {step}

theorem Along.last {P : σ → Prop} {s s' : σ} {as : List α} (h : Along step P s as) (hr : run step s as = some s') : P s' := by
  induction as generalizing s with
  | nil =>
    cases hr
    exact h
  | cons a as ih =>
    obtain ⟨u, hu, hr⟩ := (run_cons_eq_some step).mp hr
    exact ih (h.2 u hu) hr

instance Along.decidable {P : σ → Prop} [DecidablePred P] : (s : σ) → (as : List α) → Decidable (Along step P s as)
  | s, [] => inferInstanceAs (Decidable (P s))
  | s, a :: as =>
    match h : step s a with
    | none => decidable_of_iff (P s) (by simp [Along, h])
    | some s' =>
      have : Decidable (Along step P s' as) := Along.decidable s' as
      decidable_of_iff (P s ∧ Along step P s' as) (by simp [Along, h])

instance Meets.decidable {C : σ → α → Prop} [∀ s a, Decidable (C s a)] :
    (s : σ) → (as : List α) → Decidable (Meets step C s as)
  | _, [] => inferInstanceAs (Decidable True)
  | s, a :: as =>
    match h : step s a with
    | none => decidable_of_iff (C s a) (by simp [Meets, h])
    | some s' =>
      have : Decidable (Meets step C s' as) := Meets.decidable s' as
      decidable_of_iff (C s a ∧ Meets step C s' as) (by simp [Meets, h])

end

/-- If steps that meet `C` keep the invariant `Q`, which implies `P`, then `P` holds of every
state of a run whose steps all meet `C`. -/
theorem along_of_meets (hP : ∀ s, Q s → P s) (hst : ∀ s a s', Q s → C s a → step s a = some s' → Q s') (hs : Q s)
    (h : Meets step C s as) : Along step P s as := by
  induction as generalizing s with
  | nil => exact hP s hs
  | cons a as ih => exact ⟨hP s hs, fun s' hs' => ih (hst s a s' hs h.1 hs') (h.2 s' hs')⟩

/-- If a step from a good state leads to a good state exactly when it meets `C`, then the
states of a run from a good state are all good exactly when its steps all meet `C`. The
invariant `Q` holds throughout. -/
theorem run_along_iff (hQ : ∀ s a s', Q s → P s → step s a = some s' → Q s')
    (hP : ∀ s a s', Q s → P s → step s a = some s' → (P s' ↔ C s a))
    (hq : Q s) (hp : P s) (h : run step s as = some s') :
    Along step P s as ↔ Meets step C s as := by
  induction as generalizing s with
  | nil => exact ⟨fun _ => trivial, fun _ => hp⟩
  | cons a as ih =>
    obtain ⟨u, hu, h⟩ := (run_cons_eq_some step).mp h
    have hcond := hP s a u hq hp hu
    have hs : ∀ v, step s a = some v → v = u := fun v hv => by rw [hu] at hv; exact (some.inj hv).symm
    constructor
    · rintro ⟨-, ha⟩
      have hpu : P u := by
        have hu' := ha u hu
        cases as with
        | nil => exact hu'
        | cons b bs => exact hu'.1
      refine ⟨hcond.mp hpu, fun v hv => ?_⟩
      rw [hs v hv]
      exact (ih (hQ s a u hq hp hu) hpu h).mp (ha u hu)
    · rintro ⟨hc, hm⟩
      have hpu := hcond.mpr hc
      refine ⟨hp, fun v hv => ?_⟩
      rw [hs v hv]
      exact (ih (hQ s a u hq hp hu) hpu h).mpr (hm u hu)

end Pebrel.Library.Transition
