import Mathlib.Algebra.BigOperators.Group.List.Basic
import Pebrel.Runtime.Orchestration

/-!
# The budget of the tails

What the steps of a workflow show of the screen is at the end cut to one budget for
the whole receipt (`enforce_tail_budget`). Each text keeps its end, cut between two
characters, and says that it was cut. A text in an object says so in other members of
the object; a bare text has no such place, and a note is put before it. The note is not
counted: with bare texts the budget is kept only where the note fits into what the
shares leave over.
-/

namespace Pebrel.Runtime.Orchestrate

open Library List Option Nat Function Text
open Text (byteLen)
open Sync (Json)

/-! ### Objects -/

section Objects

variable {members : List (Text × Json)} {key key' : String} {value v : Json}

theorem get?_eq_head? : get? (.object members) key = (Assoc.values key.toList members).head? := by
  rw [get?, Json.get?, Assoc.values, head?_map, head?_filter]

theorem get?_insertField (h : value = .object members) (field : Json) :
    get? (insertField key field value) key' = if key' = key then some field else get? value key' := by
  subst h
  rw [insertField, get?_eq_head?, Assoc.values_insert, get?_eq_head?]
  simp only [String.toList_inj]
  split <;> rfl

theorem exists_object (h : get? value key = some v) : ∃ members, value = .object members := by
  cases value with
  | object members => exact ⟨members, rfl⟩
  | _ => cases h

theorem insertField_self (h : get? value key = some v) : insertField key v value = value := by
  cases value with
  | object members =>
    rw [get?, Json.get?, map_eq_some_iff] at h
    obtain ⟨member, hfd, rfl⟩ := h
    rw [insertField, Assoc.insert_of_find? hfd]
  | _ => rfl

end Objects

/-! ### What a budget means -/

/-- The text of a tail. -/
def tailText : Json → Option Text
  | .string text => some text
  | .object members => (get? (.object members) "text").bind Json.asStr
  | _ => none

def StepReceipt.tailText (r : StepReceipt) : Option Text := r.tailSlot.bind Orchestrate.tailText

/-- The bytes of all tails together. -/
def tailBytes (receipts : List StepReceipt) : ℕ := (receipts.filterMap fun r => r.tailText.map byteLen).sum

/-- What stands before a bare text that was cut. -/
def truncationNote (kept original : ℕ) : Text :=
  "[truncated to last ".toList ++ Nat.toDigits 10 kept ++ " of ".toList ++ Nat.toDigits 10 original ++ " bytes]\n".toList

/-- A tail after the cut: an end of its text is kept, and if it is not the whole text, the tail says so. -/
inductive Shortened : Json → Json → Prop where
  | whole (tail : Json) : Shortened tail tail
  | bare {dropped kept : Text} (h : dropped ≠ []) :
    Shortened (.string (dropped ++ kept))
      (.string (truncationNote (byteLen kept) (byteLen (dropped ++ kept)) ++ kept))
  | object {tail tail' : Json} {dropped kept : Text} (h : dropped ≠ []) (before : get? tail "text" = some (.string (dropped ++ kept)))
    (after : get? tail' "text" = some (.string kept)) (truncated : get? tail' "truncated" = some (.bool true))
    (original : get? tail' "original_bytes" = some (number (byteLen (dropped ++ kept))))
    (returned : get? tail' "returned_bytes" = some (number (byteLen kept)))
    (others : ∀ key, key ∉ ["text", "truncated", "original_bytes", "returned_bytes"] → get? tail' key = get? tail key) :
    Shortened tail tail'

/-- A receipt is as it was but for the tail, and the tail is as it was or shortened. -/
def TailShortened (r r' : StepReceipt) : Prop :=
  r' = r ∨ ∃ tail tail', r.tailSlot = some tail ∧ Shortened tail tail' ∧ r'.tailSlot = some tail' ∧ r' = r.modifyTail fun _ => tail'

/-- The receipts keep the budget. -/
structure WithinBudget (receipts : List StepReceipt) (budget : ℕ) : Prop where
  fits : tailBytes (enforceTailBudget receipts budget) ≤ budget
  untouched : tailBytes receipts ≤ budget → enforceTailBudget receipts budget = receipts
  shortened : List.Forall₂ TailShortened receipts (enforceTailBudget receipts budget)

/-! ### When it is kept -/

/-- The bytes of the longest end of `text` that has whole characters and at most `share` bytes. -/
def endBytes (share : ℕ) (text : Text) : ℕ := ((text.tails.map byteLen).filter (· ≤ share)).foldr max 0

/-- The bytes of the note of a tail, if it is to have one. -/
def noteBytes (share : ℕ) : Json → ℕ
  | .string text =>
    if byteLen text ≤ share then 0
    else byteLen (truncationNote (endBytes share text) (byteLen text))
  | _ => 0

/-- The tails that have a text, with the text. -/
def textTails (receipts : List StepReceipt) : List (Json × Text) :=
  receipts.filterMap fun r => r.tailSlot.bind fun tail => (tailText tail).map fun text => (tail, text)

/-- The notes of the bare tails fit into what is left over: by the division, by the short texts, and by the characters that
are not cut. -/
def NotesFit (receipts : List StepReceipt) (budget : ℕ) : Prop :=
  let tails := textTails receipts
  let share := budget / tails.length
  (tails.map fun t => noteBytes share t.1).sum ≤ budget % tails.length + (tails.map fun t => share - endBytes share t.2).sum

/-! ### The end that is kept -/

variable {share : ℕ} {text : Text} {members : List (Text × Json)} {tail : Json} {r : StepReceipt}

theorem keepTrailingBytes_suffix (share : ℕ) (text : Text) : keepTrailingBytes share text <:+ text := by
  induction text with
  | nil => exact suffix_rfl
  | cons c text ih =>
    rw [keepTrailingBytes]
    split
    · exact suffix_rfl
    · exact ih.trans (suffix_cons c text)

theorem keepTrailingBytes_of_le (h : byteLen text ≤ share) : keepTrailingBytes share text = text := by
  cases text with
  | nil => rfl
  | cons c text => rw [keepTrailingBytes, if_pos h]

theorem endBytes_cons (share : ℕ) (c : Char) (text : Text) :
    endBytes share (c :: text) = if byteLen (c :: text) ≤ share then max (byteLen (c :: text)) (endBytes share text)
      else endBytes share text := by
  have ht : (c :: text).tails = (c :: text) :: text.tails := rfl
  simp only [endBytes, ht, map_cons, filter_cons, decide_eq_true_eq]
  split <;> rfl

theorem endBytes_le_byteLen (share : ℕ) (text : Text) : endBytes share text ≤ byteLen text := by
  induction text with
  | nil => simp [endBytes, byteLen]
  | cons c text ih =>
    have hcons := byteLen_cons c text
    rw [endBytes_cons]
    split <;> omega

theorem byteLen_keepTrailingBytes (share : ℕ) (text : Text) : byteLen (keepTrailingBytes share text) = endBytes share text := by
  induction text with
  | nil => simp [endBytes, keepTrailingBytes, byteLen]
  | cons c text ih =>
    have hcons := byteLen_cons c text
    have hle := endBytes_le_byteLen share text
    rw [keepTrailingBytes, endBytes_cons]
    split
    · omega
    · exact ih

theorem endBytes_le (share : ℕ) (text : Text) : endBytes share text ≤ share := by
  induction text with
  | nil => simp [endBytes, byteLen]
  | cons c text ih =>
    rw [endBytes_cons]
    split
    · exact max_le ‹_› ih
    · exact ih

theorem endBytes_of_le (h : byteLen text ≤ share) : endBytes share text = byteLen text := by
  rw [← byteLen_keepTrailingBytes, keepTrailingBytes_of_le h]

/-! ### One tail -/

theorem tailTextLen_eq (tail : Json) : tailTextLen tail = (tailText tail).map byteLen := by
  cases tail <;> rfl

theorem tailText_object : tailText (.object members) = some text ↔ get? (.object members) "text" = some (.string text) := by
  rw [tailText, bind_eq_some_iff]
  constructor
  · rintro ⟨value, hv, ht⟩
    cases value with
    | string t => cases ht; exact hv
    | _ => cases ht
  · exact fun h => ⟨_, h, rfl⟩

theorem truncateTail_of_le (h : tailText tail = some text) (hle : byteLen text ≤ share) : truncateTail share tail = tail := by
  cases tail with
  | string original =>
    cases h
    simp only [truncateTail, keepTrailingBytes_of_le hle, lt_irrefl, if_false]
  | object members =>
    have hf := tailText_object.mp h
    simp only [truncateTail, hf, keepTrailingBytes_of_le hle, lt_irrefl, if_false]
    exact insertField_self hf
  | _ => cases h

/-- The members of an object whose text was cut. -/
theorem get?_truncateTail {original : Text} (h : get? (.object members) "text" = some (.string original))
    (hlg : byteLen (keepTrailingBytes share original) < byteLen original) (key : String) :
    get? (truncateTail share (.object members)) key =
      if key = "returned_bytes" then some (number (byteLen (keepTrailingBytes share original)))
      else if key = "original_bytes" then some (number (byteLen original))
      else if key = "truncated" then some (.bool true)
      else if key = "text" then some (.string (keepTrailingBytes share original))
      else get? (.object members) key := by
  simp only [truncateTail, h, hlg, if_true]
  refine (get?_insertField rfl _).trans (if_congr .rfl rfl ?_)
  refine (get?_insertField rfl _).trans (if_congr .rfl rfl ?_)
  exact (get?_insertField rfl _).trans (if_congr .rfl rfl (get?_insertField rfl _))

/-- What the cut makes of a tail. -/
theorem shortened_truncateTail (h : tailText tail = some text) : Shortened tail (truncateTail share tail) := by
  by_cases hle : byteLen text ≤ share
  · rw [truncateTail_of_le h hle]
    exact .whole tail
  obtain ⟨dropped, hdr⟩ := keepTrailingBytes_suffix share text
  have hlg : byteLen (keepTrailingBytes share text) < byteLen text := by
    have := endBytes_le share text
    rw [byteLen_keepTrailingBytes]
    omega
  have hne : dropped ≠ [] := by
    rintro rfl
    rw [nil_append] at hdr
    exact absurd hlg (by rw [hdr]; exact lt_irrefl _)
  cases tail with
  | string original =>
    cases h
    have hbare := @Shortened.bare _ (keepTrailingBytes share text) hne
    rw [hdr] at hbare
    simp only [truncateTail, hlg, if_true]
    exact hbare
  | object members =>
    have hf := tailText_object.mp h
    have hg := get?_truncateTail hf hlg
    refine .object hne (hf.trans (by rw [hdr])) (hg _) (hg _) ((hg _).trans (by rw [hdr]; rfl)) (hg _) fun key hk => ?_
    rw [hg]
    simp only [mem_cons, not_mem_nil, or_false, not_or] at hk
    rw [if_neg hk.2.2.2, if_neg hk.2.2.1, if_neg hk.2.1, if_neg hk.1]
  | _ => cases h

/-- The bytes of a tail after the cut. -/
theorem byteLen_truncateTail (h : tailText tail = some text) :
    (tailText (truncateTail share tail)).map byteLen = some (endBytes share text + noteBytes share tail) := by
  by_cases hle : byteLen text ≤ share
  · rw [truncateTail_of_le h hle, h, endBytes_of_le hle]
    cases tail with
    | string original =>
      cases h
      rw [noteBytes, if_pos hle]
      rfl
    | object members => rfl
    | _ => cases h
  have hlg : byteLen (keepTrailingBytes share text) < byteLen text := by
    have := endBytes_le share text
    rw [byteLen_keepTrailingBytes]
    omega
  cases tail with
  | string original =>
    cases h
    simp only [truncateTail, hlg, if_true]
    rw [noteBytes, if_neg hle, ← byteLen_keepTrailingBytes]
    rw [tailText, map_some, Nat.add_comm, ← byteLen_append]
    rfl
  | object members =>
    obtain ⟨members', hm⟩ := exists_object (get?_truncateTail (tailText_object.mp h) hlg "text")
    have ht := get?_truncateTail (tailText_object.mp h) hlg "text"
    rw [hm] at ht ⊢
    rw [tailText_object.mpr ht, ← byteLen_keepTrailingBytes]
    rfl
  | _ => cases h

/-! ### One receipt -/

theorem tailSlot_eq_some_iff : r.tailSlot = some tail ↔ (r.action.bind fun action => get? action "tail") = some tail ∨
      (r.action.bind fun action => get? action "tail") = none ∧
        ((r.error.bind ApiError.details).bind fun details => get? details "tail") = some tail := by
  rw [StepReceipt.tailSlot, or_eq_some_iff]

theorem tailSlot_modifyTail (h : r.tailSlot = some tail) (f : Json → Json) : (r.modifyTail f).tailSlot = some (f tail) := by
  rcases tailSlot_eq_some_iff.mp h with ha | ⟨ha, he⟩
  · obtain ⟨action, hr, hg⟩ := bind_eq_some_iff.mp ha
    obtain ⟨members, hm⟩ := exists_object hg
    refine tailSlot_eq_some_iff.mpr (.inl ?_)
    rw [StepReceipt.modifyTail, ha]
    simp only [hr, map_some, bind_some, get?_insertField hm, if_true]
  · obtain ⟨details, hr, hg⟩ := bind_eq_some_iff.mp he
    obtain ⟨error, he, hd⟩ := bind_eq_some_iff.mp hr
    obtain ⟨members, hm⟩ := exists_object hg
    refine tailSlot_eq_some_iff.mpr (.inr ?_)
    rw [StepReceipt.modifyTail, ha]
    simp only [he, hd, hg, map_some, bind_some, get?_insertField hm, if_true, and_true]
    exact ha

theorem modifyTail_congr (h : r.tailSlot = some tail) (f : Json → Json) : r.modifyTail f = r.modifyTail fun _ => f tail := by
  rcases tailSlot_eq_some_iff.mp h with ha | ⟨ha, he⟩
  · simp only [StepReceipt.modifyTail, ha]
  · obtain ⟨details, hr, hg⟩ := bind_eq_some_iff.mp he
    obtain ⟨error, he, hd⟩ := bind_eq_some_iff.mp hr
    simp only [StepReceipt.modifyTail, ha, he, hd, hg, map_some]

/-! ### All receipts -/

theorem tailTextLen_tailSlot (r : StepReceipt) : r.tailSlot.bind tailTextLen = r.tailText.map byteLen := by
  rw [StepReceipt.tailText, Option.map_bind]
  exact congrArg r.tailSlot.bind (funext tailTextLen_eq)

theorem tailText_map_eq (r : StepReceipt) (f : Text → ℕ) : r.tailText.map f =
    (r.tailSlot.bind fun tail => (tailText tail).map fun text => (tail, text)).map fun t => f t.2 := by
  rw [StepReceipt.tailText, Option.map_bind, Option.map_bind]
  refine congrArg r.tailSlot.bind (funext fun tail => ?_)
  rw [comp_apply, comp_apply, Option.map_map]
  rfl

theorem slots_eq (receipts : List StepReceipt) :
    (receipts.filterMap fun r => r.tailText.map byteLen) = (textTails receipts).map fun t => byteLen t.2 := by
  rw [textTails, map_filterMap]
  exact congrArg (receipts.filterMap ·) (funext fun r => tailText_map_eq r byteLen)

/-- What `enforce_tail_budget` does with a receipt once the tails are to be cut. -/
def cut (share : ℕ) (r : StepReceipt) : StepReceipt :=
  if (r.tailSlot.bind tailTextLen).isSome then r.modifyTail (truncateTail share) else r

theorem enforceTailBudget_eq (receipts : List StepReceipt) (budget : ℕ) : enforceTailBudget receipts budget =
    if tailBytes receipts ≤ budget then receipts
    else receipts.map (cut (max (budget / (textTails receipts).length) 1)) := by
  have hs : (receipts.filterMap fun receipt => receipt.tailSlot.bind tailTextLen) =
      receipts.filterMap fun r => r.tailText.map byteLen :=
    congrArg (receipts.filterMap ·) (funext tailTextLen_tailSlot)
  have hl : (receipts.filterMap fun r => r.tailText.map byteLen).length = (textTails receipts).length := by
    rw [slots_eq, length_map]
  have hn : (receipts.filterMap fun r => r.tailText.map byteLen) = [] → tailBytes receipts ≤ budget := by
    intro h
    rw [tailBytes, h]
    exact Nat.zero_le budget
  simp only [enforceTailBudget, hs, hl]
  by_cases hle : tailBytes receipts ≤ budget
  · rw [if_pos hle, if_pos (.inr hle)]
  · rw [if_neg hle, if_neg fun h => h.elim (fun h => hle (hn h)) hle]
    rfl

/-- The cut keeps an end of the text of each tail, and says so. -/
theorem tailShortened_cut (share : ℕ) (r : StepReceipt) : TailShortened r (cut share r) := by
  rw [cut, tailTextLen_tailSlot]
  split
  · rename_i hs
    obtain ⟨text, ht⟩ := isSome_iff_exists.mp (isSome_map.symm.trans hs)
    obtain ⟨tail, htl, ht⟩ := bind_eq_some_iff.mp ht
    exact .inr ⟨tail, _, htl, shortened_truncateTail ht, tailSlot_modifyTail htl _, modifyTail_congr htl _⟩
  · exact .inl rfl

/-- The bytes of a tail after the cut. -/
theorem byteLen_cut (share : ℕ) (r : StepReceipt) : (cut share r).tailText.map byteLen =
    (r.tailSlot.bind fun tail => (tailText tail).map fun text => (tail, text)).map fun t =>
      endBytes share t.2 + noteBytes share t.1 := by
  rw [cut, tailTextLen_tailSlot]
  cases htl : r.tailSlot with
  | none => simp [StepReceipt.tailText, htl]
  | some tail =>
    cases ht : tailText tail with
    | none => simp [StepReceipt.tailText, htl, ht]
    | some text =>
      have hc := @byteLen_truncateTail share _ _ ht
      simp [StepReceipt.tailText, htl, ht, tailSlot_modifyTail htl, hc]

theorem tailBytes_cut (share : ℕ) (receipts : List StepReceipt) : tailBytes (receipts.map (cut share)) =
    ((textTails receipts).map fun t => endBytes share t.2).sum + ((textTails receipts).map fun t => noteBytes share t.1).sum := by
  rw [tailBytes, filterMap_map, ← sum_map_add, textTails, map_filterMap]
  exact congrArg (fun f => (receipts.filterMap f).sum) (funext fun r => byteLen_cut share r)

/-- What the ends of the texts leave over of their shares. -/
theorem sum_endBytes (share : ℕ) (tails : List (Json × Text)) :
    (tails.map fun t => endBytes share t.2).sum + (tails.map fun t => share - endBytes share t.2).sum = tails.length * share := by
  induction tails with
  | nil => simp
  | cons t tails ih =>
    have := endBytes_le share t.2
    simp only [map_cons, sum_cons, length_cons, succ_mul]
    omega

/-- **The budget is kept just when the notes fit into what is left over.** -/
theorem withinBudget_iff (receipts : List StepReceipt) (budget : ℕ) (hbudget : (textTails receipts).length ≤ budget) :
    WithinBudget receipts budget ↔ tailBytes receipts ≤ budget ∨ NotesFit receipts budget := by
  have hsh : List.Forall₂ TailShortened receipts (enforceTailBudget receipts budget) := by
    rw [enforceTailBudget_eq]
    split
    · exact forall₂_same.mpr fun r _ => .inl rfl
    · exact forall₂_map_right_iff.mpr (forall₂_same.mpr fun r _ => tailShortened_cut _ r)
  by_cases hle : tailBytes receipts ≤ budget
  · have hsm : enforceTailBudget receipts budget = receipts := (enforceTailBudget_eq receipts budget).trans (if_pos hle)
    exact iff_of_true ⟨hsm.symm ▸ hle, fun _ => hsm, hsh⟩ (.inl hle)
  have hcut := (enforceTailBudget_eq receipts budget).trans (if_neg hle)
  have hpos : 0 < (textTails receipts).length := by
    rw [length_pos_iff]
    intro hnil
    rw [tailBytes, slots_eq, hnil] at hle
    exact hle (Nat.zero_le budget)
  rw [max_eq_left (Nat.div_pos hbudget hpos)] at hcut
  have hfits : tailBytes (enforceTailBudget receipts budget) ≤ budget ↔ NotesFit receipts budget := by
    have hsum := sum_endBytes (budget / (textTails receipts).length) (textTails receipts)
    have hdiv := div_add_mod budget (textTails receipts).length
    rw [hcut, tailBytes_cut, NotesFit]
    omega
  constructor
  · exact fun h => .inr (hfits.mp h.fits)
  · rintro (h | h)
    · exact absurd h hle
    · exact ⟨hfits.mpr h, fun h => absurd h hle, hsh⟩

/-- A run that the pane shows no sign of: the tail is a bare text of so many bytes. -/
def quietRun (bytes : ℕ) : StepReceipt :=
  ⟨"build".toList, "run", false, none, some ⟨"run_not_started".toList, "the command was submitted but never reported CommandStart".toList,
    some (object [("pane_id", number 3), ("tail", .string (.replicate bytes 'x'))])⟩⟩

theorem textTails_quietRun (bytes : ℕ) :
    textTails [quietRun bytes] = [(.string (.replicate bytes 'x'), .replicate bytes 'x')] := by
  simp [textTails, quietRun, StepReceipt.tailSlot, object, get?, Json.get?, tailText]

theorem byteLen_replicate (n : ℕ) : byteLen (List.replicate n 'x') = n := by
  rw [byteLen, map_replicate, sum_replicate]
  exact Nat.mul_one n

theorem tailBytes_quietRun (bytes : ℕ) : tailBytes [quietRun bytes] = bytes := by
  rw [tailBytes, slots_eq, textTails_quietRun]
  exact byteLen_replicate bytes

/-- A step whose tail is an object with a text of so many bytes. -/
def shownRun (bytes : ℕ) : StepReceipt :=
  ⟨"test".toList, "run", true, some (object [("tail", object [("text", .string (.replicate bytes 'y'))])]), none⟩

set_option maxRecDepth 8000 in
/-- A budget of 100 bytes for two tails, one of each shape, that have more. Where the first one leaves 40 bytes of its share, the
note of the second one, of 35 bytes, fits; where both are cut it does not. -/
theorem withinBudget_iff_shared :
    (WithinBudget [shownRun 10, quietRun 95] 100 ↔ tailBytes [shownRun 10, quietRun 95] ≤ 100 ∨ NotesFit [shownRun 10, quietRun 95] 100) ∧
      tailBytes [shownRun 10, quietRun 95] = 105 ∧ NotesFit [shownRun 10, quietRun 95] 100 ∧
    (WithinBudget [shownRun 60, quietRun 60] 100 ↔ tailBytes [shownRun 60, quietRun 60] ≤ 100 ∨ NotesFit [shownRun 60, quietRun 60] 100) ∧
      tailBytes [shownRun 60, quietRun 60] = 120 ∧ ¬ NotesFit [shownRun 60, quietRun 60] 100 := by
  refine ⟨withinBudget_iff _ 100 (by decide), by decide, ?_, withinBudget_iff _ 100 (by decide), by decide, ?_⟩
  · unfold NotesFit
    decide
  · unfold NotesFit
    decide

theorem byteLen_truncationNote_pos (kept original : ℕ) : 0 < byteLen (truncationNote kept original) :=
  Nat.lt_of_lt_of_le (succ_pos _) (length_le_byteLen (truncationNote kept original))

/-- One bare text that is a byte too long: its end takes the whole budget, and the note comes on top. -/
theorem lt_tailBytes_quietRun (budget : ℕ) (hp : 0 < budget) : budget < tailBytes (enforceTailBudget [quietRun (budget + 1)] budget) := by
  have he : endBytes budget (replicate (budget + 1) 'x') = budget := by
    have hlg : ¬ byteLen ('x' :: replicate budget 'x') ≤ budget := by
      rw [← replicate_succ, byteLen_replicate]
      omega
    rw [replicate_succ, endBytes_cons, if_neg hlg, endBytes_of_le (byteLen_replicate budget).le, byteLen_replicate]
  have hn : 0 < noteBytes budget (.string (replicate (budget + 1) 'x')) := by
    rw [noteBytes, byteLen_replicate, if_neg (by omega)]
    exact byteLen_truncationNote_pos _ _
  rw [enforceTailBudget_eq, tailBytes_quietRun, if_neg (by omega), tailBytes_cut, textTails_quietRun]
  have hs : max (budget / [(Json.string (replicate (budget + 1) 'x'), replicate (budget + 1) 'x')].length) 1 = budget := by
    rw [length_singleton, Nat.div_one, Nat.max_eq_left (succ_le_of_lt hp)]
  simp only [hs, map_cons, map_nil, sum_cons, sum_nil, he]
  omega

theorem not_withinBudget_long : ¬ ∀ receipts budget, (textTails receipts).length ≤ budget → WithinBudget receipts budget := by
  intro h
  have hlen : (textTails [quietRun (maxReceiptTailBytes + 1)]).length ≤ maxReceiptTailBytes := by
    rw [textTails_quietRun]
    exact le_of_ble_eq_true rfl
  exact absurd (h _ maxReceiptTailBytes hlen).fits (Nat.not_le.mpr (lt_tailBytes_quietRun maxReceiptTailBytes (succ_pos _)))

end Pebrel.Runtime.Orchestrate
