import Mathlib.Data.List.Infix

/-!
# Line endings

A line ends with a line feed, and there may be a carriage return before it. The two may be
replaced by a line feed (`replaceCrlf`), and a line feed by the two (`widen`). Which
endings there are is read off from left to right (`endings`): if all have carriage returns,
widening brings back what was replaced (`widen_replaceCrlf`), and if none has, nothing is
replaced (`replaceCrlf_of_not_mem`). A coding that keeps the two characters keeps the
endings and the lines (`endings_flatMap`, `splitInclusive_flatMap`).
-/

namespace Pebrel.Library.LineEndings

open List

variable {α β : Type*} [DecidableEq α] [DecidableEq β]

/-- The endings of the lines: for each, whether a carriage return is before it. -/
def endings (cr lf : α) : Bool → List α → List Bool
  | _, [] => []
  | afterCr, c :: l => if c = lf then afterCr :: endings cr lf false l else endings cr lf (c = cr) l

/-- The list with `by_` for each carriage return with a line feed. -/
def replaceCrlf (cr lf : α) (by_ : List α) : List α → List α
  | [] => []
  | [c] => [c]
  | c :: d :: l => if c = cr ∧ d = lf then by_ ++ replaceCrlf cr lf by_ l else c :: replaceCrlf cr lf by_ (d :: l)

/-- The list with a carriage return and a line feed for each line feed. -/
def widen (cr lf : α) (l : List α) : List α := l.flatMap fun c => if c = lf then [cr, lf] else [c]

/-- The lines, with their ends. -/
def splitInclusive (lf : α) : List α → List (List α)
  | [] => []
  | c :: l =>
    if c = lf then [c] :: splitInclusive lf l
    else
      match splitInclusive lf l with
      | [] => [[c]]
      | line :: lines => (c :: line) :: lines

example : endings 13 10 false [13, 10, 10] = [true, false] := by simp [endings]

example (l : List ℕ) : replaceCrlf 13 10 [13, 10] l = l := by
  fun_induction replaceCrlf 13 10 [13, 10] l <;> simp_all

variable {cr lf : α} {by_ l : List α} {b : Bool}

/-! ### Endings -/

theorem endings_cons_of_ne {c : α} (hc : c ≠ lf) (b b' : Bool) (l : List α) : endings cr lf b (c :: l) = endings cr lf b' (c :: l) := by
  rw [endings, endings, if_neg hc, if_neg hc]

theorem endings_cons_lf (b : Bool) (l : List α) : endings cr lf b (lf :: l) = b :: endings cr lf false l := by
  rw [endings, if_pos rfl]

theorem endings_crlf (hne : cr ≠ lf) (b : Bool) (l : List α) : endings cr lf b (cr :: lf :: l) = true :: endings cr lf false l := by
  rw [endings, if_neg hne, endings, if_pos rfl, decide_eq_true rfl]

theorem endings_cons_cons {c d : α} (hp : ¬ (c = cr ∧ d = lf)) (hc : c ≠ lf) (b : Bool) (l : List α) :
    endings cr lf b (c :: d :: l) = endings cr lf false (d :: l) := by
  rw [endings, if_neg hc]
  by_cases hcr : c = cr
  · exact endings_cons_of_ne (fun hd => hp ⟨hcr, hd⟩) _ _ l
  · rw [decide_eq_false hcr]

/-- There is a carriage return with a line feed. -/
theorem true_mem_endings (hne : cr ≠ lf) : true ∈ endings cr lf b l ↔ b = true ∧ l.head? = some lf ∨ [cr, lf] <:+: l := by
  induction l generalizing b with
  | nil => simp [endings]
  | cons c l ih =>
    rw [endings, infix_cons_iff]
    by_cases hc : c = lf
    · have hst : ¬ [cr, lf] <+: c :: l := fun h => hne ((cons_prefix_cons.mp h).1.trans hc)
      rw [if_pos hc, mem_cons, ih, head?_cons, hc]
      simp [eq_comm, hc ▸ hst]
    rw [if_neg hc, ih, head?_cons, decide_eq_true_eq, cons_prefix_cons]
    have hst : c = cr ∧ l.head? = some lf ↔ cr = c ∧ [lf] <+: l := by
      cases l <;> simp [eq_comm]
    rw [hst]
    simp [hc]

theorem mem_replaceCrlf_nil (hne : cr ≠ lf) : lf ∈ replaceCrlf cr lf [] l ↔ false ∈ endings cr lf false l := by
  fun_induction replaceCrlf cr lf [] l with
  | case1 => simp [endings]
  | case2 c =>
    by_cases hc : c = lf
    · simp [endings, hc]
    · simp [endings, hc, Ne.symm hc]
  | case3 c d l hp ih =>
    obtain ⟨rfl, rfl⟩ := hp
    rw [nil_append, ih, endings_crlf hne]
    simp
  | case4 c d l hp ih =>
    rw [mem_cons, ih]
    by_cases hc : c = lf
    · rw [hc, endings_cons_lf]
      simp
    · rw [endings_cons_cons hp hc, or_iff_right (fun h => hc h.symm)]

/-! ### Replacing -/

/-- Without a carriage return before a line feed nothing is replaced. -/
theorem replaceCrlf_of_not_mem (hne : cr ≠ lf) (h : true ∉ endings cr lf false l) : replaceCrlf cr lf by_ l = l := by
  fun_induction replaceCrlf cr lf by_ l with
  | case1 => rfl
  | case2 c => rfl
  | case3 c d l hp ih =>
    obtain ⟨rfl, rfl⟩ := hp
    rw [endings_crlf hne] at h
    exact absurd mem_cons_self h
  | case4 c d l hp ih =>
    by_cases hc : c = lf
    · rw [hc, endings_cons_lf] at h
      rw [ih fun hm => h (mem_cons_of_mem _ hm)]
    · rw [endings_cons_cons hp hc] at h
      rw [ih h]

theorem widen_cons (c : α) (l : List α) : widen cr lf (c :: l) = (if c = lf then [cr, lf] else [c]) ++ widen cr lf l := flatMap_cons

/-- Where each line feed had a carriage return before it, widening brings them back. -/
theorem widen_replaceCrlf (hne : cr ≠ lf) (h : false ∉ endings cr lf false l) : widen cr lf (replaceCrlf cr lf [lf] l) = l := by
  fun_induction replaceCrlf cr lf [lf] l with
  | case1 => rfl
  | case2 c =>
    have hc : c ≠ lf := by
      rintro rfl
      rw [endings_cons_lf] at h
      exact h mem_cons_self
    simp [widen, hc]
  | case3 c d l hp ih =>
    obtain ⟨rfl, rfl⟩ := hp
    rw [endings_crlf hne] at h
    rw [singleton_append, widen_cons, if_pos rfl, ih fun hm => h (mem_cons_of_mem _ hm)]
    rfl
  | case4 c d l hp ih =>
    by_cases hc : c = lf
    · rw [hc, endings_cons_lf] at h
      exact absurd mem_cons_self h
    · rw [endings_cons_cons hp hc] at h
      rw [widen_cons, if_neg hc, ih h]
      rfl

theorem replaceCrlf_sublist (l : List α) : (replaceCrlf cr lf [lf] l).Sublist l := by
  fun_induction replaceCrlf cr lf [lf] l with
  | case1 => exact .refl _
  | case2 c => exact .refl _
  | case3 c d l hp ih =>
    rw [hp.2]
    exact (ih.cons_cons lf).cons c
  | case4 c d l hp ih => exact ih.cons_cons c

/-- Replacing makes it shorter. -/
theorem length_replaceCrlf_lt (h : true ∈ endings cr lf false l) : (replaceCrlf cr lf [lf] l).length < l.length := by
  fun_induction replaceCrlf cr lf [lf] l with
  | case1 => cases h
  | case2 c => by_cases hc : c = lf <;> simp [endings, hc] at h
  | case3 c d l hp ih =>
    have hle := (@replaceCrlf_sublist α _ cr lf l).length_le
    simp only [singleton_append, length_cons]
    omega
  | case4 c d l hp ih =>
    have htl : true ∈ endings cr lf false (d :: l) := by
      by_cases hc : c = lf
      · rw [hc, endings_cons_lf, mem_cons] at h
        exact h.resolve_left (by decide)
      · rwa [endings_cons_cons hp hc] at h
    have hlt := ih htl
    simp only [length_cons] at hlt ⊢
    omega

/-! ### Lines -/

theorem splitInclusive_cons_lf (l : List α) : splitInclusive lf (lf :: l) = [lf] :: splitInclusive lf l := by
  rw [splitInclusive, if_pos rfl]

@[simp] theorem flatten_splitInclusive (l : List α) : (splitInclusive lf l).flatten = l := by
  induction l with
  | nil => rfl
  | cons c l ih =>
    rw [splitInclusive]
    split
    · rw [flatten_cons, ih]
      rfl
    · split <;> simp_all

theorem length_splitInclusive_cons {c : α} (hc : c ≠ lf) (l : List α) :
    (splitInclusive lf (c :: l)).length = max 1 (splitInclusive lf l).length := by
  rw [splitInclusive, if_neg hc]
  split <;> simp_all

/-- There are as many lines with one ending as with the other. -/
theorem length_splitInclusive_replaceCrlf (hne : cr ≠ lf) (l : List α) :
    (splitInclusive lf (replaceCrlf cr lf [lf] l)).length = (splitInclusive lf l).length := by
  fun_induction replaceCrlf cr lf [lf] l with
  | case1 => rfl
  | case2 c => rfl
  | case3 c d l hp ih =>
    obtain ⟨rfl, rfl⟩ := hp
    rw [singleton_append, length_splitInclusive_cons hne, splitInclusive_cons_lf, splitInclusive_cons_lf, length_cons, length_cons, ih]
    omega
  | case4 c d l hp ih =>
    by_cases hc : c = lf
    · rw [hc, splitInclusive_cons_lf, splitInclusive_cons_lf, length_cons, length_cons, ih]
    · rw [length_splitInclusive_cons hc, length_splitInclusive_cons hc, ih]

/-! ### Codings -/

section
variable {lf' : β} {w : List β} {g : α → List β}

/-- What has no line feed is part of the line that follows. -/
theorem splitInclusive_append {p : List β} (hne : p ≠ []) (hp : lf' ∉ p) (l : List β) : splitInclusive lf' (p ++ l) =
    match splitInclusive lf' l with
    | [] => [p]
    | line :: lines => (p ++ line) :: lines := by
  induction p with
  | nil => exact absurd rfl hne
  | cons c p ih =>
    rw [mem_cons, not_or] at hp
    rw [cons_append, splitInclusive, if_neg (fun hc => hp.1 hc.symm)]
    by_cases hn : p = []
    · subst hn
      rfl
    · rw [ih hn hp.2]
      cases splitInclusive lf' l <;> rfl

theorem splitInclusive_append_lf (hw : lf' ∉ w) (l : List β) :
    splitInclusive lf' (w ++ lf' :: l) = (w ++ [lf']) :: splitInclusive lf' l := by
  by_cases hn : w = []
  · rw [hn]
    exact splitInclusive_cons_lf l
  · rw [splitInclusive_append hn hw, splitInclusive_cons_lf]

/-- **A coding that ends lines where they end keeps the lines.** -/
theorem splitInclusive_flatMap (hlf : g lf = w ++ [lf']) (hw : lf' ∉ w) (ho : ∀ c, c ≠ lf → g c ≠ [] ∧ lf' ∉ g c) (l : List α) :
    splitInclusive lf' (l.flatMap g) = (splitInclusive lf l).map fun line => line.flatMap g := by
  induction l with
  | nil => rfl
  | cons c l ih =>
    rw [flatMap_cons]
    by_cases hc : c = lf
    · rw [hc, hlf, append_assoc, singleton_append, splitInclusive_append_lf hw, splitInclusive_cons_lf, ih, map_cons,
        flatMap_singleton, hlf]
    rw [splitInclusive_append (ho c hc).1 (ho c hc).2, ih, splitInclusive, if_neg hc]
    cases splitInclusive lf l with
    | nil => simp
    | cons line lines => simp

/-- What has neither of the two characters. -/
theorem endings_append {cr' : β} {p : List β} (hne : p ≠ []) (hcr : cr' ∉ p) (hlf : lf' ∉ p) (b : Bool) (l : List β) :
    endings cr' lf' b (p ++ l) = endings cr' lf' false l := by
  induction p generalizing b with
  | nil => exact absurd rfl hne
  | cons c p ih =>
    rw [mem_cons, not_or] at hcr hlf
    rw [cons_append, endings, if_neg (fun hc => hlf.1 hc.symm), decide_eq_false (fun hc => hcr.1 hc.symm)]
    by_cases hn : p = []
    · rw [hn]
      rfl
    · exact ih hn hcr.2 hlf.2 false

/-- **A coding of the two characters by two keeps the endings.** -/
theorem endings_flatMap {cr' : β} (hne : cr' ≠ lf') (hcr : g cr = [cr']) (hlf : g lf = [lf'])
    (ho : ∀ c, c ≠ cr → c ≠ lf → g c ≠ [] ∧ cr' ∉ g c ∧ lf' ∉ g c) (l : List α) :
    endings cr' lf' b (l.flatMap g) = endings cr lf b l := by
  induction l generalizing b with
  | nil => rfl
  | cons c l ih =>
    rw [flatMap_cons, endings]
    by_cases hc : c = lf
    · rw [if_pos hc, hc, hlf, singleton_append, endings, if_pos rfl, ih]
    rw [if_neg hc]
    by_cases hc' : c = cr
    · rw [hc', hcr, singleton_append, endings, if_neg hne, ih, decide_eq_true rfl, decide_eq_true rfl]
    · obtain ⟨hn, hcr', hlf'⟩ := ho c hc' hc
      rw [endings_append hn hcr' hlf', ih, decide_eq_false hc']

end

end Pebrel.Library.LineEndings
