import Mathlib.Logic.Basic

/-!
# Programs that may fail

A program of this kind changes a state and then returns a value or an error; the
state keeps what was done before the error. `Triple P x Q E` says that from a
state in which `P` holds, `x` ends in one in which `Q` holds of the value, or `E`
of the error. There is one rule for each way to put programs together.
-/

namespace Pebrel.Library

/-- What has a value is made of parts that have one. -/
theorem bind_eq_ok {ε α β : Type} {x : Except ε α} {f : α → Except ε β} {b : β} (h : (x >>= f) = .ok b) : ∃ a, x = .ok a ∧ f a = .ok b := by
  cases x with
  | error e => exact nomatch h
  | ok a => exact ⟨a, rfl, h⟩

/-- A program with states `σ`, errors `ε` and values `α`. -/
def Fallible (σ ε α : Type) := σ → σ × Except ε α

namespace Fallible

variable {σ ε α β : Type}

instance : Monad (Fallible σ ε) where
  pure a := fun s => (s, .ok a)
  bind x f := fun s =>
    match x s with
    | (s, .ok a) => f a s
    | (s, .error e) => (s, .error e)

/-- End with an error. -/
def fail (e : ε) : Fallible σ ε α := fun s => (s, .error e)

/-- A value or an error that does not depend on the state. -/
def ofExcept (x : Except ε α) : Fallible σ ε α := fun s => (s, x)

/-- Go on after an error, with the error as a value. -/
def attempt (x : Fallible σ ε α) : Fallible σ ε (Except ε α) := fun s => ((x s).1, .ok (x s).2)

def get : Fallible σ ε σ := fun s => (s, .ok s)

def modify (f : σ → σ) : Fallible σ ε Unit := fun s => (f s, .ok ())

theorem bind_ok {s s' : σ} {a : α} {x : Fallible σ ε α} {f : α → Fallible σ ε β} (h : x s = (s', .ok a)) : (x >>= f) s = f a s' := by
  change (match x s with
    | (s, .ok a) => f a s
    | (s, .error e) => (s, .error e)) = _
  rw [h]

theorem get_bind_apply {s : σ} {f : σ → Fallible σ ε β} : (get >>= f) s = f s s := rfl

/-- From states with `P`, the program ends in ones with `Q` of its value or `E` of its error. -/
def Triple (P : σ → Prop) (x : Fallible σ ε α) (Q : α → σ → Prop) (E : ε → σ → Prop) : Prop :=
  ∀ s, P s → match x s with
    | (s, .ok a) => Q a s
    | (s, .error e) => E e s

variable {P P' : σ → Prop} {x : Fallible σ ε α} {f : α → Fallible σ ε β} {Q Q' : α → σ → Prop} {R : β → σ → Prop}
  {E E' : ε → σ → Prop}

namespace Triple

protected theorem pure {a : α} (h : ∀ s, P s → Q a s) : Triple P (pure a) Q E := h

protected theorem fail {e : ε} (h : ∀ s, P s → E e s) : Triple P (fail e) Q E := h

protected theorem ofExcept {x : Except ε α} (hok : ∀ a s, x = .ok a → P s → Q a s) (he : ∀ e s, x = .error e → P s → E e s) :
    Triple P (ofExcept x) Q E := by
  intro s hs
  cases x with
  | ok a => exact hok a s rfl hs
  | error e => exact he e s rfl hs

protected theorem bind (hx : Triple P x Q E) (hf : ∀ a, Triple (Q a) (f a) R E) : Triple P (x >>= f) R E := by
  intro s hs
  have hx := hx s hs
  change match (match x s with
    | (s, .ok a) => f a s
    | (s, .error e) => (s, .error e)) with
    | (s, .ok b) => R b s
    | (s, .error e) => E e s
  split at hx
  · exact hf _ _ hx
  · exact hx

protected theorem attempt {R : Except ε α → σ → Prop}
    (hx : Triple P x (fun a s => R (.ok a) s) fun e s => R (.error e) s) : Triple P (attempt x) R E := by
  intro s hs
  have hx := hx s hs
  change R (x s).2 (x s).1
  split at hx
  · rename_i s' a heq
    rw [heq]
    exact hx
  · rename_i s' e heq
    rw [heq]
    exact hx

protected theorem modify {g : σ → σ} {Q : Unit → σ → Prop} (h : ∀ s, P s → Q () (g s)) : Triple P (modify g) Q E := h

/-- The state that is read may be named. -/
theorem get_bind {f : σ → Fallible σ ε β} (h : ∀ s, P s → Triple (fun s' => s' = s) (f s) R E) : Triple P (get >>= f) R E :=
  fun s hs => h s hs s rfl

/-- Strengthen what holds before, and weaken what holds after. -/
theorem conseq (h : Triple P x Q E) (hP : ∀ s, P' s → P s) (hQ : ∀ a s, Q a s → Q' a s) (hE : ∀ e s, E e s → E' e s) :
    Triple P' x Q' E' := by
  intro s hs
  have h := h s (hP s hs)
  split at h
  · exact hQ _ _ h
  · exact hE _ _ h

theorem of_pre (h : Triple P x Q E) (hP : ∀ s, P' s → P s) : Triple P' x Q E := h.conseq hP (fun _ _ => id) fun _ _ => id

/-- Weaken what holds of the value. -/
theorem post (h : Triple P x Q E) (hQ : ∀ a s, Q a s → Q' a s) : Triple P x Q' E := h.conseq (fun _ => id) hQ fun _ _ => id

/-- Weaken what holds of the error. -/
theorem error (h : Triple P x Q E) (hE : ∀ e s, E e s → E' e s) : Triple P x Q E' := h.conseq (fun _ => id) (fun _ _ => id) hE

/-- Two things that are known of one program. -/
protected theorem and (h : Triple P x Q E) (h' : Triple P x Q' E') :
    Triple P x (fun a s => Q a s ∧ Q' a s) fun e s => E e s ∧ E' e s := by
  intro s hs
  have h := h s hs
  have h' := h' s hs
  split at h
  · rename_i heq
    rw [heq] at h'
    exact ⟨h, h'⟩
  · rename_i heq
    rw [heq] at h'
    exact ⟨h, h'⟩

theorem and_pre {p : Prop} (h : p → Triple P x Q E) : Triple (fun s => p ∧ P s) x Q E := fun s hs => h hs.1 s hs.2

/-- What the first program tells that is not about the state may be taken as given by the second. -/
theorem bind_and {p : α → Prop} {P' : α → σ → Prop} (hx : Triple P x (fun a s => p a ∧ P' a s) E)
    (hf : ∀ a, p a → Triple (P' a) (f a) R E) : Triple P (x >>= f) R E :=
  .bind hx fun a => and_pre (hf a)

end Triple

end Fallible

end Pebrel.Library
