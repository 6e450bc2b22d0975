import Mathlib.Data.List.Basic

/-!
# Delimited strings

A string between delimiters goes on to the first delimiter that is not written twice
(`readDoubled`); where there is an escape as well, to the first that is neither written
twice nor escaped (`readEscaped`). There may be several delimiters, and any of them ends
what another began. A writer that knows of some of them only is read back exactly if no
other is in the string (`readDoubled_double_iff`, `readEscaped_escaped_iff`).
-/

namespace Pebrel.Library

open List Option Prod

variable {α : Type*}

/-! ### Delimiters written twice -/

/-- The string up to its delimiter, and what is after that. Of two delimiters the second is meant. -/
def readDoubled (delim : α → Bool) : List α → Option (List α × List α)
  | [] => none
  | c :: l =>
    if delim c then
      match l with
      | [] => some ([], [])
      | d :: l => if delim d then (readDoubled delim l).map fun r => (d :: r.1, r.2) else some ([], d :: l)
    else (readDoubled delim l).map fun r => (c :: r.1, r.2)

/-- The string with each `close` written twice. -/
def double [DecidableEq α] (close : α) (v : List α) : List α := v.flatMap fun c => if c = close then [c, c] else [c]

variable {delim : α → Bool} {close : α}

/-- Two delimiters are read as one character. -/
theorem readDoubled_count {l w : List α} (h : readDoubled delim l = some (w, [])) : 2 * w.length + l.countP delim + 1 = 2 * l.length := by
  fun_induction readDoubled delim l generalizing w with
  | case1 => cases h
  | case2 c hc =>
    obtain ⟨rfl, -⟩ := mk.inj (some.inj h)
    simp [hc]
  | case3 c hc d l hd ih =>
    obtain ⟨⟨w', rest⟩, hrd, heq⟩ := map_eq_some_iff.mp h
    obtain ⟨rfl, rfl⟩ := mk.inj heq
    have hcnt := ih hrd
    simp only [length_cons, countP_cons, hc, hd, if_true]
    omega
  | case4 c hc d l hd => exact absurd (mk.inj (some.inj h)).2 (cons_ne_nil _ _)
  | case5 c l hc ih =>
    obtain ⟨⟨w', rest⟩, hrd, heq⟩ := map_eq_some_iff.mp h
    obtain ⟨rfl, rfl⟩ := mk.inj heq
    have hcnt := ih hrd
    simp only [length_cons, countP_cons, if_neg hc]
    omega

theorem readDoubled_cons_of_neg {c : α} (hc : delim c = false) (l : List α) :
    readDoubled delim (c :: l) = (readDoubled delim l).map fun r => (c :: r.1, r.2) := by
  cases l <;> simp [readDoubled, hc]

section
variable [DecidableEq α]

theorem double_cons (c : α) (v : List α) : double close (c :: v) = (if c = close then [c, c] else [c]) ++ double close v := flatMap_cons

theorem length_double (v : List α) : (double close v).length = v.length + v.count close := by
  induction v with
  | nil => rfl
  | cons c v ih =>
    rw [double_cons, length_append, ih, length_cons, count_cons]
    by_cases hc : c = close
    · simp [hc]
      omega
    · simp [hc]
      omega

theorem countP_double (hcl : delim close = true) (v : List α) : (double close v).countP delim = v.countP delim + v.count close := by
  induction v with
  | nil => rfl
  | cons c v ih =>
    rw [double_cons, countP_append, ih, countP_cons, count_cons]
    by_cases hc : c = close
    · simp [hc, hcl]
      omega
    · simp [hc]
      omega

theorem count_le_countP (hcl : delim close = true) (v : List α) : v.count close ≤ v.countP delim := by
  refine countP_mono_left fun c _ hc => ?_
  rw [beq_iff_eq.mp hc]
  exact hcl

theorem forall_of_count_eq (hcl : delim close = true) {v : List α} (h : v.countP delim = v.count close) :
    ∀ c ∈ v, delim c = true → c = close := by
  induction v with
  | nil => exact nofun
  | cons c v ih =>
    have hle := count_le_countP hcl v
    rw [countP_cons, count_cons] at h
    by_cases hc : c = close
    · refine forall_mem_cons.mpr ⟨fun _ => hc, ih ?_⟩
      simp only [hc, hcl, beq_self_eq_true, if_true] at h
      omega
    simp only [beq_iff_eq, hc, if_false] at h
    by_cases hdel : delim c = true
    · rw [if_pos hdel] at h
      omega
    · rw [if_neg hdel] at h
      exact forall_mem_cons.mpr ⟨fun hd => absurd hd hdel, ih h⟩

theorem readDoubled_double (hcl : delim close = true) {v : List α} (h : ∀ c ∈ v, delim c = true → c = close) :
    readDoubled delim (double close v ++ [close]) = some (v, []) := by
  induction v with
  | nil => simp [double, readDoubled, hcl]
  | cons c v ih =>
    obtain ⟨hc, hv⟩ := forall_mem_cons.mp h
    rw [double_cons]
    by_cases heq : c = close
    · rw [if_pos heq, heq]
      simp [readDoubled, hcl, ih hv]
    · rw [if_neg heq]
      rw [singleton_append, cons_append, readDoubled_cons_of_neg (eq_false_of_ne_true fun hd => heq (hc hd)), ih hv]
      rfl

/-- **A string in which one delimiter is doubled is read back exactly if the others are not in it.** -/
theorem readDoubled_double_iff (hcl : delim close = true) {v : List α} :
    readDoubled delim (double close v ++ [close]) = some (v, []) ↔ ∀ c ∈ v, delim c = true → c = close := by
  constructor
  · intro h
    have hc := readDoubled_count h
    rw [length_append, countP_append, length_double, countP_double hcl, length_singleton, countP_singleton, if_pos hcl] at hc
    exact forall_of_count_eq hcl (by omega)
  · exact readDoubled_double hcl

end

/-! ### Delimiters that are escaped -/

/-- The string up to its delimiter, and what is after that; an escape makes `meaning` of the character that it is before. A string with a
character that `expands` is not one that stands for itself. -/
def readEscaped [DecidableEq α] (delim : α → Bool) (escape : α) (meaning : α → α) (expands : α → Bool) : List α → Option (List α × List α)
  | [] => none
  | c :: l =>
    if c = escape then
      match l with
      | [] => none
      | d :: l => (readEscaped delim escape meaning expands l).map fun r => (meaning d :: r.1, r.2)
    else if delim c then
      match l with
      | [] => some ([], [])
      | d :: l => if delim d then (readEscaped delim escape meaning expands l).map fun r => (d :: r.1, r.2) else some ([], d :: l)
    else if expands c then none
    else (readEscaped delim escape meaning expands l).map fun r => (c :: r.1, r.2)

/-- The string with an escape before each special character. -/
def escaped (escape : α) (special : α → Bool) (v : List α) : List α := v.flatMap fun c => if special c then [escape, c] else [c]

section
variable {escape : α} {meaning : α → α} {expands special : α → Bool}

theorem escaped_cons_of_pos {c : α} (hc : special c = true) (v : List α) :
    escaped escape special (c :: v) = escape :: c :: escaped escape special v := by
  rw [escaped, flatMap_cons, if_pos hc]
  rfl

theorem escaped_cons_of_neg {c : α} (hc : ¬ special c = true) (v : List α) :
    escaped escape special (c :: v) = c :: escaped escape special v := by
  rw [escaped, flatMap_cons, if_neg hc]
  rfl

/-- What the writer has to know: it escapes the escape, what expands and the delimiter that it ends with. -/
structure Escapes (delim : α → Bool) (escape : α) (meaning : α → α) (expands special : α → Bool) (close : α) : Prop where
  escape_special : special escape = true
  expands_special : ∀ c, expands c = true → special c = true
  meaning_special : ∀ c, special c = true → meaning c = c
  escape_delim : delim escape = false
  close_delim : delim close = true

theorem Escapes.ne_escape (h : Escapes delim escape meaning expands special close) {c : α} (hc : ¬ special c = true) : c ≠ escape :=
  fun heq => hc (heq ▸ h.escape_special)

theorem Escapes.close_ne (h : Escapes delim escape meaning expands special close) : close ≠ escape :=
  fun heq => absurd (heq ▸ h.close_delim) (by rw [h.escape_delim]; exact Bool.false_ne_true)

theorem Escapes.not_expands (h : Escapes delim escape meaning expands special close) {c : α} (hc : ¬ special c = true) : expands c = false :=
  eq_false_of_ne_true fun he => hc (h.expands_special c he)

section
variable [DecidableEq α]

theorem readEscaped_cons_escape (d : α) (l : List α) : readEscaped delim escape meaning expands (escape :: d :: l) =
    (readEscaped delim escape meaning expands l).map fun r => (meaning d :: r.1, r.2) := by
  simp [readEscaped]

theorem readEscaped_cons_delim {c : α} (hc : c ≠ escape) (hd : delim c = true) (d : α) (l : List α) :
    readEscaped delim escape meaning expands (c :: d :: l) =
      if delim d then (readEscaped delim escape meaning expands l).map fun r => (d :: r.1, r.2) else some ([], d :: l) := by
  simp [readEscaped, hc, hd]

theorem readEscaped_cons_plain {c : α} (hc : c ≠ escape) (hd : delim c = false) (he : expands c = false) (l : List α) :
    readEscaped delim escape meaning expands (c :: l) = (readEscaped delim escape meaning expands l).map fun r => (c :: r.1, r.2) := by
  cases l <;> simp [readEscaped, hc, hd, he]

/-- Two delimiters that are not escaped are read as one character. -/
theorem readEscaped_count (h : Escapes delim escape meaning expands special close) :
    ∀ {v w : List α}, readEscaped delim escape meaning expands (escaped escape special v ++ [close]) = some (w, []) →
      2 * w.length + v.countP (fun c => delim c && !special c) = 2 * v.length
  | [], w, hrd => by
    simp only [escaped, flatMap_nil, nil_append, readEscaped, if_neg h.close_ne, if_pos h.close_delim] at hrd
    obtain ⟨rfl, -⟩ := mk.inj (some.inj hrd)
    rfl
  | c :: v, w, hrd => by
    by_cases hc : special c = true
    · rw [escaped_cons_of_pos hc, cons_append, cons_append, readEscaped_cons_escape] at hrd
      obtain ⟨⟨w', rest⟩, hr, heq⟩ := map_eq_some_iff.mp hrd
      obtain ⟨rfl, rfl⟩ := mk.inj heq
      have hcnt := readEscaped_count h hr
      simp only [length_cons, countP_cons, hc, Bool.not_true, Bool.and_false, Bool.false_eq_true, if_false]
      omega
    · rw [escaped_cons_of_neg hc, cons_append] at hrd
      by_cases hdel : delim c = true
      · -- a delimiter is read only as the first of two, and what is escaped is none
        match v, hrd with
        | [], hrd =>
          rw [escaped, flatMap_nil, nil_append, readEscaped_cons_delim (h.ne_escape hc) hdel, if_pos h.close_delim] at hrd
          cases hrd
        | d :: v, hrd =>
          by_cases hd : special d = true
          · rw [escaped_cons_of_pos hd, cons_append, readEscaped_cons_delim (h.ne_escape hc) hdel,
              if_neg (by rw [h.escape_delim]; exact Bool.false_ne_true)] at hrd
            cases hrd
          rw [escaped_cons_of_neg hd, cons_append, readEscaped_cons_delim (h.ne_escape hc) hdel] at hrd
          by_cases hdel' : delim d = true
          · rw [if_pos hdel'] at hrd
            obtain ⟨⟨w', rest⟩, hr, heq⟩ := map_eq_some_iff.mp hrd
            obtain ⟨rfl, rfl⟩ := mk.inj heq
            have hcnt := readEscaped_count h hr
            simp only [length_cons, countP_cons, hc, hdel, hd, hdel', Bool.not_false, Bool.and_self, if_true]
            omega
          · rw [if_neg hdel'] at hrd
            cases hrd
      · rw [readEscaped_cons_plain (h.ne_escape hc) (eq_false_of_ne_true hdel) (h.not_expands hc)] at hrd
        obtain ⟨⟨w', rest⟩, hr, heq⟩ := map_eq_some_iff.mp hrd
        obtain ⟨rfl, rfl⟩ := mk.inj heq
        have hcnt := readEscaped_count h hr
        simp only [length_cons, countP_cons, hdel, Bool.false_and, Bool.false_eq_true, if_false]
        omega

theorem readEscaped_escaped (h : Escapes delim escape meaning expands special close) {v : List α}
    (hv : ∀ c ∈ v, delim c = true → special c = true) :
    readEscaped delim escape meaning expands (escaped escape special v ++ [close]) = some (v, []) := by
  induction v with
  | nil => simp [escaped, readEscaped, h.close_ne, h.close_delim]
  | cons c v ih =>
    obtain ⟨hc, hr⟩ := forall_mem_cons.mp hv
    by_cases hs : special c = true
    · rw [escaped_cons_of_pos hs, cons_append, cons_append, readEscaped_cons_escape, ih hr, h.meaning_special c hs]
      rfl
    · rw [escaped_cons_of_neg hs, cons_append,
        readEscaped_cons_plain (h.ne_escape hs) (eq_false_of_ne_true (mt hc hs)) (h.not_expands hs), ih hr]
      rfl

/-- **A string with escapes is read back exactly if no delimiter is in it that is not escaped.** -/
theorem readEscaped_escaped_iff (h : Escapes delim escape meaning expands special close) {v : List α} :
    readEscaped delim escape meaning expands (escaped escape special v ++ [close]) = some (v, []) ↔
      ∀ c ∈ v, delim c = true → special c = true := by
  refine ⟨fun hrd c hc hd => ?_, readEscaped_escaped h⟩
  have hcnt := readEscaped_count h hrd
  have hn : v.countP (fun c => delim c && !special c) = 0 := by omega
  have hnot := countP_eq_zero.mp hn c hc
  simpa [hd] using hnot

end

end

end Pebrel.Library
