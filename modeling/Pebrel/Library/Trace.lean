import Mathlib.Data.List.Induction

/-!
# Traces

A trace is the list of the events of a run, with the first one first. `Causal P t`
says that `P` holds of each event of `t` and the events before it. A trace stays
causal when events are added to its end of which `P` asks what is the case.
-/

namespace Pebrel.Library.Trace

open List

variable {ε : Type*} {P : List ε → ε → Prop} {t es : List ε} {e : ε}

/-- Each event is as `P` says of it and of those before it. -/
def Causal (P : List ε → ε → Prop) (t : List ε) : Prop := ∀ before e after, t = before ++ e :: after → P before e

theorem causal_nil : Causal P [] := by
  intro before e after h
  simp at h

theorem causal_concat_iff : Causal P (t ++ [e]) ↔ Causal P t ∧ P t e := by
  constructor
  · intro h
    refine ⟨fun before x after hx => h before x (after ++ [e]) ?_, h t e [] rfl⟩
    rw [hx, append_assoc, cons_append]
  · rintro ⟨ht, he⟩ before x after hx
    rcases eq_nil_or_concat after with rfl | ⟨after, y, rfl⟩
    · obtain ⟨rfl, hxe⟩ := append_inj' hx rfl
      cases hxe
      exact he
    · rw [concat_eq_append, ← cons_append, ← append_assoc] at hx
      obtain ⟨rfl, -⟩ := append_inj' hx rfl
      exact ht before x after rfl

/-- Events of which nothing is asked may be added. -/
theorem Causal.append (h : Causal P t) (hes : ∀ e ∈ es, ∀ before, P before e) : Causal P (t ++ es) := by
  induction es using reverseRecOn with
  | nil => simpa using h
  | append_singleton es e ih =>
    rw [← append_assoc, causal_concat_iff]
    exact ⟨ih fun x hx => hes x (by simp [hx]), hes e (by simp) _⟩

/-- What each event excludes among those before it, excludes it after them. -/
theorem Causal.not_mem_after {f : ε} {before after : List ε} (h : Causal P t) (ht : t = before ++ f :: after)
    (hP : ∀ before, P before e → f ∉ before) : e ∉ after := by
  intro he
  obtain ⟨s, u, rfl⟩ := append_of_mem he
  refine hP (before ++ f :: s) (h _ e u ?_) (by simp)
  rw [ht, append_assoc, cons_append]

end Pebrel.Library.Trace
