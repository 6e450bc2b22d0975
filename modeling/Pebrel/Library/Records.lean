import Mathlib.Data.List.Basic

/-!
# Records and fields

Records of which each ends with a separator are read back one by one, and so are
fields between separators, the last of which may have separators of its own.
-/

namespace Pebrel.Library.Records

open List

variable {α : Type} [DecidableEq α] {sep : α}

/-! ### Records -/

/-- The records one after another, each with a separator after it. -/
def terminated (sep : α) (records : List (List α)) : List α := records.flatMap (· ++ [sep])

/-- The records of a text, the last of which has its separator. -/
def splitTerminated (sep : α) (l : List α) : Option (List (List α)) := if l.getLast? = some sep then some (l.splitOn sep).dropLast else none

omit [DecidableEq α] in
theorem terminated_cons (record : List α) (records : List (List α)) :
    terminated sep (record :: records) = record ++ sep :: terminated sep records := by
  simp [terminated]

omit [DecidableEq α] in
theorem terminated_append (records records' : List (List α)) :
    terminated sep (records ++ records') = terminated sep records ++ terminated sep records' := flatMap_append

theorem splitOn_terminated {records : List (List α)} (h : ∀ record ∈ records, sep ∉ record) (rest : List α) :
    (terminated sep records ++ rest).splitOn sep = records ++ rest.splitOn sep := by
  induction records with
  | nil => rfl
  | cons record records ih =>
    rw [terminated_cons, append_assoc, cons_append, splitOn_append_cons_self_of_not_mem (h record mem_cons_self),
      ih fun r hr => h r (mem_cons_of_mem record hr)]
    rfl

omit [DecidableEq α] in
theorem getLast?_terminated {records : List (List α)} (h : records ≠ []) : (terminated sep records).getLast? = some sep := by
  obtain ⟨records, record, rfl⟩ := eq_nil_or_concat records |>.resolve_left h
  rw [concat_eq_append, terminated_append, terminated_cons]
  simp [terminated]

theorem splitTerminated_terminated {records : List (List α)} (hne : records ≠ []) (h : ∀ record ∈ records, sep ∉ record) :
    splitTerminated sep (terminated sep records) = some records := by
  have hsp := splitOn_terminated h []
  rw [append_nil] at hsp
  rw [splitTerminated, if_pos (getLast?_terminated hne), hsp, splitOn_nil, dropLast_concat]

/-! ### Fields -/

/-- At most `n` fields, the last of which is what is left. -/
def splitn (sep : α) : ℕ → List α → List (List α)
  | 0, _ => []
  | 1, l => [l]
  | n + 2, l => if sep ∈ l then l.takeWhile (· ≠ sep) :: splitn sep (n + 1) ((l.dropWhile (· ≠ sep)).drop 1) else [l]

/-- Fields with separators between them. -/
def joined (sep : α) (fields : List (List α)) (last : List α) : List α := fields.foldr (fun field rest => field ++ sep :: rest) last

theorem splitn_joined {fields : List (List α)} (h : ∀ field ∈ fields, sep ∉ field) (last : List α) :
    splitn sep (fields.length + 1) (joined sep fields last) = fields ++ [last] := by
  induction fields with
  | nil => rfl
  | cons field fields ih =>
    have hfie : ∀ c ∈ field, decide (c ≠ sep) = true := fun c hc => decide_eq_true fun heq => h field mem_cons_self (heq ▸ hc)
    have hcons : joined sep (field :: fields) last = field ++ sep :: joined sep fields last := rfl
    rw [length_cons, splitn, hcons, if_pos (by simp), takeWhile_append_of_pos hfie, dropWhile_append_of_pos hfie]
    rw [takeWhile_cons_of_neg (by simp), dropWhile_cons_of_neg (by simp), drop_one, tail_cons,
      ih fun f hf => h f (mem_cons_of_mem field hf), append_nil]
    rfl

end Pebrel.Library.Records
