import Pebrel.Library.Fallible
import Mathlib.Data.Nat.Notation

/-!
# Programs that may be cut off

A program reads what is stored and writes one thing after another; before any of its writes
it may be cut off, and what was written until then stays. `Cut.run` runs it with the number of
writes after which it is cut off. `Cut.Spec P x Q E` says that from a state with `P`, it ends in
one with `Q` of its value, or was cut off in one with `E`. There is one rule for each way to put
programs together.
-/

namespace Pebrel.Library

/-- What is stored, and how many writes are left until the program is cut off. -/
structure Running (σ : Type) where
  stored : σ
  left : Option ℕ

/-- A program with stored states `σ` and values `α`. -/
abbrev Cut (σ α : Type) := Fallible (Running σ) Unit α

namespace Cut

variable {σ α β : Type}

/-- What is stored now. -/
def look : Cut σ σ := fun s => (s, .ok s.stored)

/-- One write. -/
def write (f : σ → σ) : Cut σ Unit := fun s =>
  match s.left with
  | some 0 => (s, .error ())
  | some (n + 1) => (⟨f s.stored, some n⟩, .ok ())
  | none => (⟨f s.stored, none⟩, .ok ())

/-- What a run leaves, and its value if it was not cut off. -/
def run (x : Cut σ α) (cut : Option ℕ) (s : σ) : σ × Option α := ((x ⟨s, cut⟩).1.stored, (x ⟨s, cut⟩).2.toOption)

/-- From a state with `P`, the program ends with `Q`, or it is cut off with `E`. -/
def Spec (P : σ → Prop) (x : Cut σ α) (Q : α → σ → Prop) (E : σ → Prop) : Prop :=
  ∀ whole : Prop, Fallible.Triple (fun s => P s.stored ∧ (whole → s.left = none)) x
    (fun a s => Q a s.stored ∧ (whole → s.left = none)) fun _ s => E s.stored ∧ ¬whole

namespace Spec

variable {P P' : σ → Prop} {x : Cut σ α} {f : α → Cut σ β} {Q Q' : α → σ → Prop} {R : β → σ → Prop} {E E' : σ → Prop}

protected theorem pure {a : α} (h : ∀ s, P s → Q a s) : Spec P (pure a) Q E :=
  fun _ => .pure fun s hs => ⟨h s.stored hs.1, hs.2⟩

protected theorem bind (hx : Spec P x Q E) (hf : ∀ a, Spec (Q a) (f a) R E) : Spec P (x >>= f) R E :=
  fun whole => .bind (hx whole) fun a => hf a whole

/-- What is stored may be named. -/
theorem look_bind {f : σ → Cut σ β} (h : ∀ s, P s → Spec (fun s' => s' = s) (f s) R E) : Spec P (look >>= f) R E :=
  fun whole s hs => h s.stored hs.1 whole s ⟨rfl, hs.2⟩

/-- A program that is cut off before a write leaves what was there before it. -/
protected theorem write {g : σ → σ} {Q : Unit → σ → Prop} (hc : ∀ s, P s → E s) (h : ∀ s, P s → Q () (g s)) : Spec P (write g) Q E := by
  rintro whole ⟨s, left⟩ ⟨hs, hlf⟩
  match left with
  | some 0 => exact ⟨hc s hs, fun h => nomatch hlf h⟩
  | some (n + 1) => exact ⟨h s hs, fun h => nomatch hlf h⟩
  | none => exact ⟨h s hs, fun _ => rfl⟩

/-- Strengthen what holds before, and weaken what holds after. -/
theorem conseq (h : Spec P x Q E) (hP : ∀ s, P' s → P s) (hQ : ∀ a s, Q a s → Q' a s) (hE : ∀ s, E s → E' s) : Spec P' x Q' E' :=
  fun whole => (h whole).conseq (fun s hs => ⟨hP s.stored hs.1, hs.2⟩) (fun a s hs => ⟨hQ a s.stored hs.1, hs.2⟩)
    fun _ s hs => ⟨hE s.stored hs.1, hs.2⟩

theorem of_pre (h : Spec P x Q E) (hP : ∀ s, P' s → P s) : Spec P' x Q E := h.conseq hP (fun _ _ => id) fun _ => id

theorem of_forall (h : ∀ s, P s → Spec (fun s' => s' = s) x Q E) : Spec P x Q E := fun whole s hs => h s.stored hs.1 whole s ⟨rfl, hs.2⟩

/-- What a run leaves; only one with a cut is cut off. -/
theorem run (h : Spec P x Q E) {s : σ} (hs : P s) (cut : Option ℕ) :
    (∃ a, (x.run cut s).2 = some a ∧ Q a (x.run cut s).1) ∨ (x.run cut s).2 = none ∧ E (x.run cut s).1 ∧ cut ≠ none := by
  have h := h (cut = none) ⟨s, cut⟩ ⟨hs, id⟩
  rw [Cut.run]
  split at h
  · rename_i t a heq
    rw [heq]
    exact .inl ⟨a, rfl, h.1⟩
  · rename_i t e heq
    rw [heq]
    exact .inr ⟨rfl, h.1, h.2⟩

end Spec

end Cut

end Pebrel.Library
