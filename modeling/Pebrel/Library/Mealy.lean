import Mathlib.Data.List.Range
import Mathlib.Data.List.Flatten

/-!
# Machines that read symbols and make outputs

A machine reads one symbol at a time, keeps a state and may make an output after
a symbol. `run` is the state after a word, `outputs` are the outputs made on the
way, each with the number of symbols read so far, and `wire` is the word with
the outputs at their places.

All three go through when a word is read in pieces, with the positions shifted
by what was read before. `interleave_outputs` is what a caller needs who acts on
the outputs afterwards: cutting the word at the positions of the outputs gives
back the wire. `run_related` compares the outputs of two machines.
-/

namespace Pebrel.Library.Mealy

open List Option Nat

variable {σ α β : Type*} (step : σ → α → σ × Option β)

/-- The state after a word. -/
def run (s : σ) (as : List α) : σ := as.foldl (fun s a => (step s a).1) s

/-- The outputs, each with the number of symbols read when it is made. -/
def outputs : σ → List α → List (ℕ × β)
  | _, [] => []
  | s, a :: as =>
    ((step s a).2.map fun b => (1, b)).toList ++ (outputs (step s a).1 as).map fun o => (o.1 + 1, o.2)

/-- The word with the outputs at their places. -/
def wire : σ → List α → List (α ⊕ β)
  | _, [] => []
  | s, a :: as => .inl a :: (((step s a).2.map .inr).toList ++ wire (step s a).1 as)

variable {s : σ} {as l : List α} {o : ℕ × β} {g : α → Option β}

theorem run_append (s : σ) (as bs : List α) : run step s (as ++ bs) = run step (run step s as) bs := foldl_append

theorem run_cons (s : σ) (a : α) (as : List α) : run step s (a :: as) = run step (step s a).1 as := rfl

theorem outputs_append (s : σ) (as bs : List α) : outputs step s (as ++ bs) =
      outputs step s as ++ (outputs step (run step s as) bs).map fun o => (o.1 + as.length, o.2) := by
  induction as generalizing s with
  | nil =>
    rw [nil_append, outputs, nil_append]
    exact (List.map_id _).symm
  | cons a as ih =>
    rw [cons_append, outputs, outputs, ih, run_cons, map_append, append_assoc, List.map_map, length_cons]
    congr 3

theorem wire_append (s : σ) (as bs : List α) : wire step s (as ++ bs) = wire step s as ++ wire step (run step s as) bs := by
  induction as generalizing s with
  | nil => rfl
  | cons a as ih => rw [cons_append, wire, wire, ih, run_cons, cons_append, append_assoc]

theorem position_mem_outputs (h : o ∈ outputs step s as) : 0 < o.1 ∧ o.1 ≤ as.length := by
  induction as generalizing s o with
  | nil => cases h
  | cons a as ih =>
    rw [length_cons]
    rcases mem_append.mp h with h | h
    · obtain ⟨b, -, rfl⟩ := map_eq_some_iff.mp (mem_toList.mp h)
      exact ⟨Nat.one_pos, Nat.le_add_left 1 as.length⟩
    · obtain ⟨o', ho', rfl⟩ := List.mem_map.mp h
      exact ⟨succ_pos _, succ_le_succ (ih ho').2⟩

/-- An output is made by the step after the symbols before it. -/
theorem mem_outputs_iff {p : ℕ} {b : β} : (p, b) ∈ outputs step s as ↔
      ∃ pre a post, as = pre ++ a :: post ∧ p = pre.length + 1 ∧ (step (run step s pre) a).2 = some b := by
  induction as generalizing s p with
  | nil => simp [outputs]
  | cons a as ih =>
    rw [outputs, mem_append, mem_toList, map_eq_some_iff, List.mem_map]
    constructor
    · rintro (⟨b', hb, heq⟩ | ⟨⟨q, b'⟩, hm, heq⟩)
      · cases heq
        exact ⟨[], a, as, rfl, rfl, hb⟩
      · cases heq
        obtain ⟨pre, a', post, rfl, rfl, hb⟩ := ih.1 hm
        exact ⟨a :: pre, a', post, rfl, rfl, hb⟩
    · rintro ⟨pre, a', post, heq, rfl, hb⟩
      cases pre with
      | nil =>
        cases heq
        exact .inl ⟨b, hb, rfl⟩
      | cons a'' pre =>
        cases heq
        exact .inr ⟨(pre.length + 1, b), ih.2 ⟨pre, a', post, rfl, rfl, hb⟩, rfl⟩

/-- The outputs are in the order of their positions. -/
theorem pairwise_outputs (s : σ) (as : List α) : (outputs step s as).Pairwise fun o o' => o.1 < o'.1 := by
  induction as generalizing s with
  | nil => exact .nil
  | cons a as ih =>
    rw [outputs, pairwise_append]
    refine ⟨?_, ?_, ?_⟩
    · cases (step s a).2 <;> simp
    · rw [pairwise_map]
      exact (ih _).imp fun h => succ_lt_succ h
    · intro o ho o' ho'
      obtain ⟨b, -, rfl⟩ := map_eq_some_iff.1 (mem_toList.1 ho)
      obtain ⟨q, hq, rfl⟩ := List.mem_map.1 ho'
      exact succ_lt_succ (position_mem_outputs step hq).1

/-- The last output is the one of the greatest position. -/
theorem getLast?_outputs_iff : (outputs step s as).getLast? = some o ↔ o ∈ outputs step s as ∧ ∀ o' ∈ outputs step s as, o'.1 ≤ o.1 := by
  have hpw := pairwise_outputs step s as
  generalize outputs step s as = os at hpw
  rcases eq_nil_or_concat os with rfl | ⟨os, q, rfl⟩
  · simp
  rw [concat_eq_append] at hpw ⊢
  have hlt := (pairwise_append.1 hpw).2.2
  rw [getLast?_concat, some.injEq]
  constructor
  · rintro rfl
    refine ⟨by simp, fun o' ho' => ?_⟩
    rcases mem_append.1 ho' with ho' | ho'
    · exact (hlt o' ho' q (by simp)).le
    · rw [mem_singleton.1 ho']
  · rintro ⟨hm, hle⟩
    rcases mem_append.1 hm with hm | hm
    · exact absurd (hlt o hm q (by simp)) (not_lt.2 (hle q (by simp)))
    · exact (mem_singleton.1 hm).symm

/-- Where the outputs lie that are made after `n` symbols. -/
theorem position_mem_shifted {n : ℕ} (h : o ∈ (outputs step s as).map fun o => (o.1 + n, o.2)) : n < o.1 ∧ o.1 ≤ n + as.length := by
  obtain ⟨o', ho', rfl⟩ := List.mem_map.mp h
  have hp := position_mem_outputs step ho'
  exact ⟨by omega, by omega⟩

/-- The outputs made in a piece of a word are those of the word with the positions in it. -/
theorem outputs_piece (s : σ) (as bs cs : List α) :
    (outputs step s (as ++ bs ++ cs)).filter (fun o => as.length < o.1 ∧ o.1 ≤ as.length + bs.length) =
      (outputs step (run step s as) bs).map fun o => (o.1 + as.length, o.2) := by
  rw [outputs_append, outputs_append, filter_append, filter_append, filter_eq_nil_iff.mpr, filter_eq_self.mpr, filter_eq_nil_iff.mpr,
    nil_append, append_nil]
  · intro o ho
    have hp := position_mem_shifted step ho
    rw [length_append] at hp
    rw [decide_eq_true_iff]
    omega
  · exact fun o ho => decide_eq_true (position_mem_shifted step ho)
  · intro o ho
    have hp := position_mem_outputs step ho
    rw [decide_eq_true_iff]
    omega

/-! ### Acting on the outputs -/

/-- A word from a position on, cut at the positions of the outputs. -/
def interleave (as : List α) : List (ℕ × β) → ℕ → List (α ⊕ β)
  | [], n => (as.drop n).map .inl
  | (m, b) :: os, n => ((as.take m).drop n).map .inl ++ .inr b :: interleave as os m

theorem interleave_cons (a : α) (as : List α) (os : List (ℕ × β)) (n : ℕ) :
    interleave (a :: as) (os.map fun o => (o.1 + 1, o.2)) (n + 1) = interleave as os n := by
  induction os generalizing n with
  | nil => rfl
  | cons o os ih =>
    rw [map_cons, interleave, interleave, ih]
    rfl

theorem interleave_cons_zero (a : α) (as : List α) (os : List (ℕ × β)) :
    interleave (a :: as) (os.map fun o => (o.1 + 1, o.2)) 0 = .inl a :: interleave as os 0 := by
  cases os with
  | nil => rfl
  | cons o os =>
    rw [map_cons, interleave, interleave, interleave_cons]
    rfl

/-- The word cut at the positions of its outputs is the wire. -/
theorem interleave_outputs (s : σ) (as : List α) : interleave as (outputs step s as) 0 = wire step s as := by
  induction as generalizing s with
  | nil => rfl
  | cons a as ih =>
    rw [outputs, wire, ← ih]
    cases (step s a).2 with
    | none => exact interleave_cons_zero a as _
    | some b =>
      rw [map_some, map_some, toList_some, toList_some, singleton_append, singleton_append, interleave, interleave_cons]
      rfl

/-! ### Pieces of one length -/

/-- A word in pieces of a length; the last one may be shorter. -/
def pieces (n : ℕ) (as : List α) : List (List α) :=
  (List.range ((as.length + n - 1) / n)).map fun k => (as.drop (k * n)).take n

theorem flatten_range_pieces (n : ℕ) (as : List α) (k : ℕ) :
    ((List.range k).map fun i => (as.drop (i * n)).take n).flatten = as.take (k * n) := by
  induction k with
  | zero => rw [Nat.zero_mul, take_zero]; rfl
  | succ k ih =>
    rw [range_succ, map_append, flatten_append, ih, map_singleton, flatten_singleton, succ_mul, take_add]

theorem flatten_pieces {n : ℕ} (hn : 0 < n) (as : List α) : (pieces n as).flatten = as := by
  have hl : as.length ≤ (as.length + n - 1) / n * n := by
    have hd := div_add_mod (as.length + n - 1) n
    have hm := mod_lt (as.length + n - 1) hn
    rw [Nat.mul_comm] at hd
    omega
  rw [pieces, flatten_range_pieces, take_of_length_le hl]

/-- The last output of a word with one more symbol in front. -/
theorem getLast?_outputs_cons (s : σ) (a : α) (as : List α) : (outputs step s (a :: as)).getLast?.map Prod.snd =
      ((outputs step (step s a).1 as).getLast?.map Prod.snd).or (step s a).2 := by
  rw [outputs, getLast?_append, getLast?_map]
  cases (outputs step (step s a).1 as).getLast? with
  | some o => rfl
  | none => cases (step s a).2 <;> rfl

/-! ### Machines that are followed by others -/

theorem length_filterMap_le_of_le {f : α → Option β} (h : ∀ a ∈ l, g a ≠ none → f a = g a) :
    (l.filterMap g).length ≤ (l.filterMap f).length := by
  induction l with
  | nil => exact le_rfl
  | cons a l ih =>
    have hle := ih fun a' ha' => h a' (mem_cons_of_mem a ha')
    cases hg : g a with
    | none =>
      rw [filterMap_cons_none hg, filterMap_cons]
      cases f a with
      | none => exact hle
      | some b => exact le_succ_of_le hle
    | some b =>
      have hf : f a = some b := (h a mem_cons_self (by rw [hg]; nofun)).trans hg
      rw [filterMap_cons_some hg, filterMap_cons_some hf]
      exact succ_le_succ hle

/-- Two translations of which one only adds to the other make the same of a list just if they are the same on it. -/
theorem filterMap_eq_iff_of_le {f : α → Option β} (h : ∀ a ∈ l, g a ≠ none → f a = g a) :
    l.filterMap f = l.filterMap g ↔ ∀ a ∈ l, f a = g a := by
  refine ⟨fun heq => ?_, filterMap_congr⟩
  induction l with
  | nil => nofun
  | cons a l ih =>
    have hr : ∀ a' ∈ l, g a' ≠ none → f a' = g a' := fun a' ha' => h a' (mem_cons_of_mem a ha')
    cases hg : g a with
    | none =>
      cases hf : f a with
      | none =>
        rw [filterMap_cons_none hg, filterMap_cons_none hf] at heq
        exact forall_mem_cons.2 ⟨by rw [hf, hg], ih hr heq⟩
      | some b =>
        rw [filterMap_cons_none hg, filterMap_cons_some hf] at heq
        have hl := congrArg length heq
        have hle := length_filterMap_le_of_le hr
        rw [length_cons] at hl
        omega
    | some b =>
      have hf : f a = some b := (h a mem_cons_self (by rw [hg]; nofun)).trans hg
      rw [filterMap_cons_some hg, filterMap_cons_some hf, List.cons.injEq] at heq
      exact forall_mem_cons.2 ⟨by rw [hf, hg], ih hr heq.2⟩

/-- The outputs of a machine whose steps are followed by another one that translates each output. -/
theorem run_related {τ γ : Type*} {step' : τ → α → τ × Option γ} {f : γ → Option β} {R : σ → τ → Prop}
    (hst : ∀ s t a, R s t → R (step s a).1 (step' t a).1 ∧ (step s a).2 = (step' t a).2.bind f)
    {t : τ} (h : R s t) (as : List α) :
    R (run step s as) (run step' t as) ∧ outputs step s as = (outputs step' t as).filterMap fun o => (f o.2).map fun b => (o.1, b) := by
  induction as generalizing s t with
  | nil => exact ⟨h, rfl⟩
  | cons a as ih =>
    obtain ⟨hnx, ho⟩ := hst s t a h
    obtain ⟨hr, houtp⟩ := ih hnx
    refine ⟨hr, ?_⟩
    rw [outputs, outputs, ho, houtp, filterMap_append, map_filterMap, filterMap_map]
    congr 1
    · cases (step' t a).2 with
      | none => rfl
      | some c => cases hc : f c <;> simp [hc]
    · refine filterMap_congr fun o _ => ?_
      rw [Option.map_map]
      rfl

end Pebrel.Library.Mealy
