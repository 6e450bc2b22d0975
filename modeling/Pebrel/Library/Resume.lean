import Mathlib.Order.Basic

/-!
# Reads in parts

A read that is cut into parts: each part says where the next one starts, and the
last one says that there is none. `follow` reads part after part.

`follow_spec` is the rule for such a read. What there is to read from a position
is `whole`, and `glue` puts a part in front of what comes after it. If every
part, glued to what there is to read from its next position, is what there is to
read from its own, and the next position is closer to the end, then the parts
come to an end and are, glued together, the whole.
-/

namespace Pebrel.Library.Resume

variable {P C W E : Type*} (part : Option P → Except E (C × Option P))

/-- The parts from a cursor on, for at most so many of them. -/
def follow : ℕ → Option P → Option (Except E (List C))
  | 0, _ => none
  | n + 1, cursor =>
    match part cursor with
    | .error e => some (.error e)
    | .ok (c, none) => some (.ok [c])
    | .ok (c, some p) => (follow n (some p)).map (·.map (c :: ·))

/-- What a part from the position `p` on does: it fails in an admitted way, or it is the last one, or it leads on
to a position closer to the end. -/
def Sound (fails : E → Prop) (within : C → Prop) (inv : P → Prop) (measure : P → ℕ) (whole : P → W) (glue : C → W → W)
    (done : W) (p : P) : Except E (C × Option P) → Prop
  | .error e => fails e
  | .ok (c, none) => within c ∧ glue c done = whole p
  | .ok (c, some q) => within c ∧ inv q ∧ measure q < measure p ∧ glue c (whole q) = whole p

variable {part} {fails : E → Prop} {within : C → Prop} {inv : P → Prop} {measure : P → ℕ} {whole : P → W}
  {glue : C → W → W} {done : W}

/-- Parts that are sound from every position come to an end, and are then the whole. -/
theorem follow_spec (hpt : ∀ p, inv p → Sound fails within inv measure whole glue done p (part (some p)))
    {cursor : Option P} {p : P} (hcur : Sound fails within inv measure whole glue done p (part cursor)) :
    ∃ n result, follow part n cursor = some result ∧
      match result with
      | .error e => fails e
      | .ok parts => (∀ c ∈ parts, within c) ∧ parts.foldr glue done = whole p := by
  induction hm : measure p using Nat.strongRecOn generalizing p cursor with
  | ind m ih =>
    subst hm
    cases hc : part cursor with
    | error e =>
      rw [hc] at hcur
      exact ⟨1, .error e, by simp [follow, hc], hcur⟩
    | ok read =>
      rw [hc] at hcur
      obtain ⟨c, next⟩ := read
      cases next with
      | none =>
        obtain ⟨hw, hglue⟩ := hcur
        exact ⟨1, .ok [c], by simp [follow, hc], by simpa using hw, hglue⟩
      | some q =>
        obtain ⟨hw, hq, hlt, hglue⟩ := hcur
        obtain ⟨n, result, hrun, hr⟩ := ih (measure q) hlt (hpt q hq) rfl
        refine ⟨n + 1, result.map (c :: ·), by simp [follow, hc, hrun], ?_⟩
        cases result with
        | error e => exact hr
        | ok parts =>
          obtain ⟨ha, hjoin⟩ := hr
          refine ⟨?_, ?_⟩
          · simpa using ⟨hw, ha⟩
          · rw [List.foldr_cons, hjoin, hglue]

end Pebrel.Library.Resume
