import Pebrel.Library.ByteText

/-!
# The history of a document

The history keeps the changed spans, in groups, and no texts. It stands for a timeline of
versions: the undo groups lead from each of the past versions to the next, the redo groups
from the current version onwards (`Represents`). Every run of the operations is a run over
versions (`editHistory_follows`).
-/

namespace Pebrel.Documents

open Library Text List Option

/-! ### Changed spans -/

/-- The bytes of the characters that two texts begin with. -/
def commonBytes (s t : Text) : ℕ := (((s.zip t).takeWhile fun e => e.1 = e.2).map fun e => e.1.utf8Size).sum

/-- The ranges that are left between what two texts begin with, and what the rest of them ends with. -/
def changedSpan (before after : Text) : Option (Range × Range) := do
  let front := commonBytes before after
  let (_, beforeRest) ← splitAtByte front before
  let (_, afterRest) ← splitAtByte front after
  let suffix := commonBytes beforeRest.reverse afterRest.reverse
  some (⟨front, byteLen before - suffix⟩, ⟨front, byteLen after - suffix⟩)

/-- The loop over the characters from the front: `front` is where those end that are the same. -/
def ropePrefix (offset front : ℕ) : Text → Text → ℕ
  | [], _ => front
  | c :: before, after =>
    if after.head? = some c then ropePrefix (offset + c.utf8Size) (offset + c.utf8Size) before after.tail else front

/-- The loop over the characters from the back. -/
def ropeSuffix (suffix : ℕ) : Text → Text → ℕ
  | c :: before, d :: after => if c ≠ d then suffix else ropeSuffix (suffix + c.utf8Size) before after
  | _, _ => suffix

def changedRopeSpan (before after : Text) : Option (Range × Range) := do
  let front := ropePrefix 0 0 before after
  let (_, beforeRest) ← splitAtByte front before
  let (_, afterTail) ← splitAtByte front after
  let suffix := ropeSuffix 0 beforeRest.reverse afterTail.reverse
  some (⟨front, byteLen before - suffix⟩, ⟨front, byteLen after - suffix⟩)

/-! ### The history -/

def maxHistoryBytes : ℕ := 8 * 1024 * 1024

structure Change where
  start : ℕ
  before : Text
  after : Text
  objectEdit : Bool

def Change.bytes (c : Change) : ℕ := byteLen c.before + byteLen c.after

/-- The bytes of the changes of groups. -/
def totalBytes (groups : List (List Change)) : ℕ := (groups.flatten.map Change.bytes).sum

/-- The groups are in the order of the vectors: the last one is the next to be undone, or redone. Times are in nanoseconds. -/
structure EditHistory where
  current : Text := []
  undo : List (List Change) := []
  redo : List (List Change) := []
  bytes : ℕ := 0
  lastEdit : Option ℕ := none

/-- A subtraction of `usize`: none below 0. -/
def checkedSub (a b : ℕ) : Option ℕ := if b ≤ a then some (a - b) else none

namespace EditHistory

def reset (text : Text) : EditHistory := { current := text }

def barrier (h : EditHistory) : EditHistory := { h with lastEdit := none }

def markObjectEdit (h : EditHistory) : EditHistory :=
  match h.undo.getLast? with
  | some group => { h with undo := h.undo.dropLast ++ [group.map fun change => { change with objectEdit := true }] }
  | none => h

/-- A change joins the last group within 600 ms of the edit before, if it touches the last change. -/
def joins (h : EditHistory) (now : ℕ) (change : Change) : Bool :=
  (h.lastEdit.any fun last => now - last < 600 * 1000000) &&
    (h.undo.getLast?.bind List.getLast?).any fun last =>
      change.start ≤ last.start + byteLen last.after && last.start ≤ change.start + byteLen change.before

/-- The oldest groups are dropped, as long as there are too many bytes. -/
def evict : ℕ → List (List Change) → Option (ℕ × List (List Change))
  | bytes, [] => some (bytes, [])
  | bytes, group :: groups =>
    if maxHistoryBytes < bytes then (checkedSub bytes (totalBytes [group])).bind fun bytes => evict bytes groups
    else some (bytes, group :: groups)

def pushChange (h : EditHistory) (now : ℕ) (change : Change) : Option EditHistory := do
  let bytes ← checkedSub h.bytes (totalBytes h.redo)
  let undo ← if h.joins now change then h.undo.getLast?.map fun group => h.undo.dropLast ++ [group ++ [change]]
    else some (h.undo ++ [[change]])
  let (bytes, undo) ← evict (bytes + change.bytes) undo
  some { h with undo, redo := [], bytes, lastEdit := some now }

/-- The text in the range is replaced, and the change is pushed. -/
def replaceRange (h : EditHistory) (now : ℕ) (before : Range) (after : Text) : Option EditHistory := do
  let old ← sliceBytes h.current before
  let current ← replaceBytes h.current before after
  { h with current }.pushChange now ⟨before.start, old, after, false⟩

def recordRope (h : EditHistory) (now : ℕ) (text : Text) : Option EditHistory := do
  let (before, after) ← changedRopeSpan h.current text
  if before.stop ≤ before.start ∧ after.stop ≤ after.start then some h
  else h.replaceRange now before (← sliceBytes text after)

def record (h : EditHistory) (now : ℕ) (text : Text) : Option EditHistory :=
  if text = h.current then some h
  else do
    let (before, after) ← changedSpan h.current text
    h.replaceRange now before (← sliceBytes text after)

end EditHistory

/-- A change is made again, or taken back: the text and the cursor after it. -/
def Change.travel (redo : Bool) (e : Text × ℕ) (change : Change) : Option (Text × ℕ) :=
  let (old, new) := if redo then (change.before, change.after) else (change.after, change.before)
  (replaceBytes e.1 ⟨change.start, change.start + byteLen old⟩ new).map (·, change.start + byteLen new)

def EditHistory.travel (h : EditHistory) (redo : Bool) : Option (EditHistory × Option (Text × ℕ)) :=
  let h := h.barrier
  match (if redo then h.redo else h.undo).getLast? with
  | none => some (h, none)
  | some changes => do
    let (current, cursor) ← (if redo then changes else changes.reverse).foldlM (Change.travel redo) (h.current, 0)
    if redo then some ({ h with current, redo := h.redo.dropLast, undo := h.undo ++ [changes] }, some (current, cursor))
    else some ({ h with current, undo := h.undo.dropLast, redo := h.redo ++ [changes] }, some (current, cursor))

inductive Op where
  | reset (text : Text)
  | record (now : ℕ) (text : Text)
  | recordRope (now : ℕ) (text : Text)
  | barrier
  | markObjectEdit
  | undo
  | redo

namespace EditHistory

/-- An operation, and what it returns. There is no state after a panic. -/
def step (h : EditHistory) : Op → Option (EditHistory × Option (Text × ℕ))
  | .reset text => some (reset text, none)
  | .record now text => (h.record now text).map (·, none)
  | .recordRope now text => (h.recordRope now text).map (·, none)
  | .barrier => some (h.barrier, none)
  | .markObjectEdit => some (h.markObjectEdit, none)
  | .undo => h.travel false
  | .redo => h.travel true

def run (h : EditHistory) : List Op → Option (EditHistory × List (Option (Text × ℕ)))
  | [] => some (h, [])
  | op :: ops => do
    let (h, out) ← h.step op
    let (h, outs) ← h.run ops
    some (h, out :: outs)

end EditHistory

/-! ### Versions -/

/-- The texts before the current one, the oldest first, and those after it. -/
structure Versions where
  past : List Text := []
  current : Text := []
  future : List Text := []

/-- An operation on versions, and the text that it returns. A new text ends the future; it is in the group of the
current one, or in a group of its own; the oldest versions may be dropped. -/
inductive Versions.Step (v : Versions) : Op → Versions → Option Text → Prop where
  | reset (text : Text) : Step v (.reset text) ⟨[], text, []⟩ none
  | barrier : Step v .barrier v none
  | markObjectEdit : Step v .markObjectEdit v none
  | same {op : Op} {now : ℕ} (hop : op = .record now v.current ∨ op = .recordRope now v.current) : Step v op v none
  | edited {op : Op} {now : ℕ} {text : Text} {past : List Text} (hop : op = .record now text ∨ op = .recordRope now text)
      (hne : text ≠ v.current) (hpast : past <:+ v.past ++ [v.current]) : Step v op ⟨past, text, []⟩ none
  | joined {op : Op} {now : ℕ} {text : Text} {past : List Text} (hop : op = .record now text ∨ op = .recordRope now text)
      (hne : text ≠ v.current) (hpast : past <:+ v.past) (hsome : v.past ≠ []) : Step v op ⟨past, text, []⟩ none
  | undo {past : List Text} {text : Text} (hpast : v.past = past ++ [text]) :
      Step v .undo ⟨past, text, v.current :: v.future⟩ (some text)
  | redo {text : Text} {future : List Text} (hfuture : v.future = text :: future) :
      Step v .redo ⟨v.past ++ [v.current], text, future⟩ (some text)
  | nothingBefore (hpast : v.past = []) : Step v .undo v none
  | nothingAfter (hfuture : v.future = []) : Step v .redo v none

inductive Versions.Run : Versions → List Op → Versions → List (Option Text) → Prop where
  | nil (v : Versions) : Run v [] v []
  | cons {v v' v'' : Versions} {op : Op} {ops : List Op} {out : Option Text} {outs : List (Option Text)} :
      v.Step op v' out → Run v' ops v'' outs → Run v (op :: ops) v'' (out :: outs)

/-- A change leads from one text to another: its range is between two characters of each of them. -/
def Change.Leads (c : Change) (t u : Text) : Prop :=
  ∃ a b, t = a ++ c.before ++ b ∧ u = a ++ c.after ++ b ∧ c.start = byteLen a

/-- The changes of a group lead from one text to another, one after the other. -/
def GroupLeads : List Change → Text → Text → Prop
  | [], t, u => t = u
  | c :: group, t, u => ∃ m, c.Leads t m ∧ GroupLeads group m u

/-- Groups lead from each of the texts to the next one. -/
def Chained : List (List Change) → List Text → Prop
  | [], [_] => True
  | group :: groups, t :: u :: texts => GroupLeads group t u ∧ Chained groups (u :: texts)
  | _, _ => False

structure Represents (h : EditHistory) (v : Versions) : Prop where
  current : h.current = v.current
  length : h.undo.length = v.past.length
  chained : Chained (h.undo ++ h.redo.reverse) (v.past ++ v.current :: v.future)
  bytes : h.bytes = totalBytes h.undo + totalBytes h.redo

/-! ### The spans -/

section
variable {t u : Text} {k : ℕ}

theorem commonBytes_spec (t u : Text) : ∃ p t' u', t = p ++ t' ∧ u = p ++ u' ∧ commonBytes t u = byteLen p := by
  induction t generalizing u with
  | nil => exact ⟨[], [], u, rfl, rfl, rfl⟩
  | cons c t ih =>
    cases u with
    | nil => exact ⟨[], c :: t, [], rfl, rfl, rfl⟩
    | cons d u =>
      by_cases hc : c = d
      · obtain ⟨p, t', u', rfl, rfl, hp⟩ := ih u
        refine ⟨c :: p, t', u', rfl, by rw [hc]; rfl, ?_⟩
        rw [byteLen_cons, ← hp]
        simp [commonBytes, hc]
      · exact ⟨[], c :: t, d :: u, rfl, rfl, by simp [commonBytes, hc, byteLen]⟩

theorem commonBytes_self (t : Text) : commonBytes t t = byteLen t := by
  induction t with
  | nil => rfl
  | cons c t ih =>
    rw [byteLen_cons, ← ih]
    simp [commonBytes]

theorem ropePrefix_eq (k : ℕ) (t u : Text) : ropePrefix k k t u = k + commonBytes t u := by
  induction t generalizing k u with
  | nil => rfl
  | cons c t ih =>
    cases u with
    | nil => rfl
    | cons d u =>
      by_cases hc : c = d
      · subst hc
        simp [ropePrefix, ih, commonBytes, Nat.add_assoc]
      · simp [ropePrefix, commonBytes, hc, Ne.symm hc]

theorem ropeSuffix_eq (k : ℕ) (t u : Text) : ropeSuffix k t u = k + commonBytes t u := by
  induction t generalizing k u with
  | nil => rfl
  | cons c t ih =>
    cases u with
    | nil => rfl
    | cons d u =>
      by_cases hc : c = d
      · simp [ropeSuffix, hc, ih, commonBytes, Nat.add_assoc]
      · simp [ropeSuffix, commonBytes, hc]

theorem changedRopeSpan_eq (t u : Text) : changedRopeSpan t u = changedSpan t u := by
  simp only [changedRopeSpan, changedSpan, ropePrefix_eq, ropeSuffix_eq, Nat.zero_add]

theorem changedSpan_self (t : Text) : changedSpan t t = some (⟨byteLen t, byteLen t⟩, ⟨byteLen t, byteLen t⟩) := by
  have hsp := splitAtByte_append t []
  rw [append_nil] at hsp
  simp only [changedSpan, commonBytes_self, hsp, bind_eq_bind, bind_some]
  rfl

/-- The spans are between two characters of each text, and what is outside of them is the same. -/
theorem changedSpan_spec (t u : Text) : ∃ p b a s, t = p ++ b ++ s ∧ u = p ++ a ++ s ∧
    changedSpan t u = some (⟨byteLen p, byteLen p + byteLen b⟩, ⟨byteLen p, byteLen p + byteLen a⟩) := by
  obtain ⟨p, t', u', rfl, rfl, hp⟩ := commonBytes_spec t u
  obtain ⟨q, b, a, hb, ha, hq⟩ := commonBytes_spec t'.reverse u'.reverse
  rw [reverse_eq_iff, reverse_append] at hb ha
  refine ⟨p, b.reverse, a.reverse, q.reverse, by rw [hb, append_assoc], by rw [ha, append_assoc], ?_⟩
  have hr : byteLen q.reverse = byteLen q := by simp [byteLen]
  have hl (x : Text) : byteLen (p ++ (q.reverse.reverse.reverse ++ x)) = byteLen p + (byteLen q + byteLen x) := by
    rw [reverse_reverse, byteLen_append, byteLen_append, hr]
  simp only [changedSpan, hp, splitAtByte_append, bind_eq_bind, bind_some, hq]
  rw [hb, ha]
  simp only [byteLen_append, hr, Nat.add_sub_cancel, ← Nat.add_assoc]

end

namespace EditHistory

variable {h : EditHistory} {now : ℕ} {text : Text} {change : Change}

/-- **The two ways of recording a text are one.** -/
theorem recordRope_eq (h : EditHistory) (now : ℕ) (text : Text) : h.recordRope now text = h.record now text := by
  rw [recordRope, record, changedRopeSpan_eq]
  by_cases ht : text = h.current
  · rw [ht, changedSpan_self, if_pos rfl]
    simp
  rw [if_neg ht]
  obtain ⟨p, b, a, s, hc, rfl, hspan⟩ := changedSpan_spec h.current text
  have hs : ¬(byteLen b = 0 ∧ byteLen a = 0) := by
    rintro ⟨hb, ha⟩
    have hn {x : Text} (hx : byteLen x = 0) : x = [] := length_eq_zero_iff.mp (Nat.le_zero.mp (hx ▸ length_le_byteLen x))
    exact ht (by rw [hc, hn hb, hn ha])
  simp only [hspan, bind_eq_bind, bind_some]
  rw [if_neg fun ⟨hb, ha⟩ => hs ⟨by omega, by omega⟩]

/-- A text that is another one is recorded as a change that leads to it. -/
theorem record_of_ne (now : ℕ) (ht : text ≠ h.current) :
    ∃ change, change.Leads h.current text ∧ h.record now text = { h with current := text }.pushChange now change := by
  obtain ⟨p, b, a, s, hc, rfl, hspan⟩ := changedSpan_spec h.current text
  refine ⟨⟨byteLen p, b, a, false⟩, ⟨p, s, hc, rfl, rfl⟩, ?_⟩
  rw [record, if_neg ht, hspan]
  simp only [bind_eq_bind, bind_some, sliceBytes_append, replaceRange, hc, replaceBytes_append]

end EditHistory

/-! ### The bytes -/

@[simp] theorem totalBytes_append (gs gs' : List (List Change)) : totalBytes (gs ++ gs') = totalBytes gs + totalBytes gs' := by
  simp [totalBytes]

theorem totalBytes_concat_change (gs : List (List Change)) (g : List Change) (c : Change) :
    totalBytes (gs ++ [g ++ [c]]) = totalBytes (gs ++ [g]) + c.bytes := by
  simp [totalBytes, Nat.add_assoc]

theorem checkedSub_add (a b : ℕ) : checkedSub (a + b) b = some a := by
  rw [checkedSub, if_pos (Nat.le_add_left _ _), Nat.add_sub_cancel]

/-- The oldest groups are dropped, and their bytes with them. -/
theorem evict_spec (groups : List (List Change)) :
    ∃ kept, EditHistory.evict (totalBytes groups) groups = some (totalBytes kept, kept) ∧ kept <:+ groups := by
  induction groups with
  | nil => exact ⟨[], rfl, suffix_rfl⟩
  | cons group groups ih =>
    rw [EditHistory.evict]
    split
    · obtain ⟨kept, he, hk⟩ := ih
      have ht : totalBytes (group :: groups) = totalBytes groups + totalBytes [group] := by
        rw [← singleton_append, totalBytes_append, Nat.add_comm]
      refine ⟨kept, ?_, hk.trans (suffix_cons group groups)⟩
      rw [ht, checkedSub_add, bind_some, he]
    · exact ⟨_, rfl, suffix_rfl⟩

/-- The last group is extended, or one more is pushed; some of the oldest may be dropped. -/
theorem EditHistory.pushChange_spec {h : EditHistory} (hbs : h.bytes = totalBytes h.undo + totalBytes h.redo) (now : ℕ) (change : Change) :
    ∃ groups undo, h.pushChange now change = some ⟨h.current, undo, [], totalBytes undo, some now⟩ ∧ undo <:+ groups ∧
      (groups = h.undo ++ [[change]] ∨ ∃ gs g, h.undo = gs ++ [g] ∧ groups = gs ++ [g ++ [change]]) := by
  simp only [pushChange, hbs, checkedSub_add, bind_eq_bind, bind_some]
  by_cases hj : h.joins now change = true
  · rw [if_pos hj]
    obtain ⟨g, hl⟩ : ∃ g, h.undo.getLast? = some g := by
      cases hl : h.undo.getLast? with
      | none => simp [joins, hl] at hj
      | some g => exact ⟨g, rfl⟩
    obtain ⟨gs, hgs⟩ := getLast?_eq_some_iff.mp hl
    obtain ⟨kept, he, hk⟩ := evict_spec (gs ++ [g ++ [change]])
    refine ⟨_, kept, ?_, hk, .inr ⟨gs, g, hgs, rfl⟩⟩
    rw [totalBytes_concat_change] at he
    simp only [hgs, getLast?_concat, dropLast_concat, map_some, bind_some, he]
  · rw [if_neg hj]
    obtain ⟨kept, he, hk⟩ := evict_spec (h.undo ++ [[change]])
    refine ⟨_, kept, ?_, hk, .inl rfl⟩
    rw [← nil_append [change], totalBytes_concat_change, totalBytes_append] at he
    rw [nil_append] at he
    have ho : totalBytes [[]] = 0 := rfl
    rw [ho, Nat.add_zero] at he
    simp only [bind_some, he]

/-! ### Groups -/

section
variable {g g' : List Change} {gs gs' : List (List Change)} {t u : Text} {ts ts' : List Text}

theorem groupLeads_concat {c : Change} : GroupLeads (g ++ [c]) t u ↔ ∃ m, GroupLeads g t m ∧ c.Leads m u := by
  induction g generalizing t with
  | nil => simp [GroupLeads]
  | cons d g ih =>
    simp only [cons_append, GroupLeads, ih]
    exact ⟨fun ⟨m, hd, m', hg, hc⟩ => ⟨m', ⟨m, hd, hg⟩, hc⟩, fun ⟨m', ⟨m, hd, hg⟩, hc⟩ => ⟨m, hd, m', hg, hc⟩⟩

/-- A group that is made again. -/
theorem GroupLeads.redone (h : GroupLeads g t u) (cursor : ℕ) :
    ∃ cursor', g.foldlM (Change.travel true) (t, cursor) = some (u, cursor') := by
  induction g generalizing t cursor with
  | nil =>
    obtain rfl : t = u := h
    exact ⟨cursor, rfl⟩
  | cons c g ih =>
    obtain ⟨m, ⟨a, b, rfl, rfl, hst⟩, hg⟩ := h
    obtain ⟨cursor', hfold⟩ := ih hg (c.start + byteLen c.after)
    refine ⟨cursor', ?_⟩
    simp only [foldlM_cons, Change.travel, if_true, hst, replaceBytes_append, map_some, bind_eq_bind, bind_some]
    rw [← hst]
    exact hfold

/-- A group that is taken back, from its last change to its first. -/
theorem GroupLeads.undone (h : GroupLeads g t u) (cursor : ℕ) :
    ∃ cursor', g.reverse.foldlM (Change.travel false) (u, cursor) = some (t, cursor') := by
  induction g using reverseRecOn generalizing u cursor with
  | nil =>
    obtain rfl : t = u := h
    exact ⟨cursor, rfl⟩
  | append_singleton g c ih =>
    obtain ⟨m, hg, a, b, rfl, rfl, hst⟩ := groupLeads_concat.mp h
    obtain ⟨cursor', hfold⟩ := ih hg (c.start + byteLen c.before)
    refine ⟨cursor', ?_⟩
    simp only [reverse_append, reverse_singleton, singleton_append, foldlM_cons, Change.travel, Bool.false_eq_true, if_false,
      hst, replaceBytes_append, map_some, bind_eq_bind, bind_some]
    rw [← hst]
    exact hfold

theorem Chained.length (h : Chained gs ts) : ts.length = gs.length + 1 := by
  induction gs generalizing ts with
  | nil =>
    rcases ts with _ | ⟨t, _ | ⟨u, ts⟩⟩
    · exact h.elim
    · rfl
    · exact h.elim
  | cons g gs ih =>
    rcases ts with _ | ⟨t, _ | ⟨u, ts⟩⟩
    · exact h.elim
    · exact h.elim
    · exact congrArg Nat.succ (ih h.2)

theorem chained_append (hl : gs.length = ts.length) :
    Chained (gs ++ gs') (ts ++ t :: ts') ↔ Chained gs (ts ++ [t]) ∧ Chained gs' (t :: ts') := by
  induction gs generalizing ts with
  | nil =>
    obtain rfl := length_eq_zero_iff.mp hl.symm
    exact (and_iff_right trivial).symm
  | cons g gs ih =>
    rcases ts with _ | ⟨u, _ | ⟨v, ts⟩⟩
    · cases hl
    · obtain rfl := length_eq_zero_iff.mp (Nat.succ.inj hl)
      exact ⟨fun h => ⟨⟨h.1, trivial⟩, h.2⟩, fun h => ⟨h.1.1, h.2⟩⟩
    · have hr := @ih (v :: ts) (Nat.succ.inj hl)
      exact (and_congr_right fun _ => hr).trans and_assoc.symm

/-- Groups that are dropped, and as many texts. -/
theorem Chained.drop (h : Chained (gs ++ gs') ts) : Chained gs' (ts.drop gs.length) := by
  induction gs generalizing ts with
  | nil => exact h
  | cons g gs ih =>
    rcases ts with _ | ⟨t, _ | ⟨u, ts⟩⟩
    · exact h.elim
    · exact h.elim
    · exact ih h.2

/-- What a drop of the oldest groups leaves stands for the versions that are left. -/
theorem represents_suffix {past : List Text} (h : Chained gs (past ++ [t])) (hs : gs' <:+ gs) (last : Option ℕ) :
    ∃ past', past' <:+ past ∧ Represents ⟨t, gs', [], totalBytes gs', last⟩ ⟨past', t, []⟩ := by
  obtain ⟨dropped, rfl⟩ := hs
  have hl := h.length
  rw [length_append, length_append, length_singleton] at hl
  have hch := h.drop
  rw [drop_append_of_le_length (by omega)] at hch
  refine ⟨past.drop dropped.length, drop_suffix _ _, rfl, ?_, by simpa using hch, rfl⟩
  rw [length_drop]
  dsimp only
  omega

end

/-! ### Runs -/

section
variable {h : EditHistory} {v : Versions}

section
variable (hr : Represents h v)
include hr

theorem Represents.barrier : Represents h.barrier v := ⟨hr.current, hr.length, hr.chained, hr.bytes⟩

/-- The versions of a history whose last group is split off. -/
theorem Represents.last {gs : List (List Change)} {g : List Change} (hundo : h.undo = gs ++ [g]) :
    ∃ past t, v.past = past ++ [t] ∧ gs.length = past.length ∧ Chained gs (past ++ [t]) ∧ GroupLeads g t v.current ∧
      Chained h.redo.reverse (v.current :: v.future) := by
  obtain ⟨hc, hl, hch, -⟩ := hr
  rw [hundo, length_append, length_singleton] at hl
  obtain ⟨past, t, hpast⟩ : ∃ past t, v.past = past ++ [t] := by
    rcases eq_nil_or_concat' v.past with hn | hs
    · rw [hn] at hl
      cases hl
    · exact hs
  rw [hpast, length_append, length_singleton] at hl
  have hgs : gs.length = past.length := Nat.succ.inj hl
  rw [hundo, hpast, append_assoc, append_assoc] at hch
  obtain ⟨hb, hld, ha⟩ := (chained_append hgs).mp hch
  exact ⟨past, t, hpast, hgs, hb, hld, ha⟩

theorem Represents.record (now : ℕ) (text : Text) (op : Op) (hop : op = .record now text ∨ op = .recordRope now text) :
    ∃ h' v', h.record now text = some h' ∧ v.Step op v' none ∧ Represents h' v' := by
  by_cases ht : text = h.current
  · have hsm : v.Step op v none := .same (ht.trans hr.current ▸ hop)
    exact ⟨h, v, by rw [EditHistory.record, if_pos ht], hsm, hr⟩
  obtain ⟨change, hld, hrec⟩ := EditHistory.record_of_ne now ht
  have hne : text ≠ v.current := hr.current ▸ ht
  rw [hr.current] at hld
  obtain ⟨groups, undo, hpush, hs, hg⟩ := @EditHistory.pushChange_spec { h with current := text } hr.bytes now change
  rw [hrec, hpush]
  rcases hg with rfl | ⟨gs, g, hundo, rfl⟩
  · obtain ⟨hb, -⟩ := (chained_append hr.length).mp hr.chained
    have hch : Chained (h.undo ++ [[change]]) (v.past ++ v.current :: [text]) :=
      (chained_append hr.length).mpr ⟨hb, ⟨text, hld, rfl⟩, trivial⟩
    rw [append_cons v.past] at hch
    obtain ⟨past, hpast, hr'⟩ := represents_suffix hch hs (some now)
    exact ⟨_, _, rfl, .edited hop hne hpast, hr'⟩
  · obtain ⟨past, t, hpast, hgs, hb, hgr, -⟩ := hr.last hundo
    have hch : Chained (gs ++ [g ++ [change]]) (past ++ t :: [text]) :=
      (chained_append hgs).mpr ⟨hb, groupLeads_concat.mpr ⟨_, hgr, hld⟩, trivial⟩
    rw [append_cons past, ← hpast] at hch
    obtain ⟨past', hpast', hr'⟩ := represents_suffix hch hs (some now)
    exact ⟨_, _, rfl, .joined hop hne hpast' (by simp [hpast]), hr'⟩

theorem Represents.undo : ∃ h' out v', h.travel false = some (h', out) ∧ v.Step .undo v' (out.map Prod.fst) ∧ Represents h' v' := by
  simp only [EditHistory.travel, EditHistory.barrier, Bool.false_eq_true, if_false]
  cases hl : h.undo.getLast? with
  | none =>
    have hn : v.past = [] := length_eq_zero_iff.mp (hr.length ▸ length_eq_zero_iff.mpr (getLast?_eq_none_iff.mp hl))
    exact ⟨_, _, v, rfl, .nothingBefore hn, hr.barrier⟩
  | some g =>
    obtain ⟨gs, hgs⟩ := getLast?_eq_some_iff.mp hl
    obtain ⟨past, t, hpast, hlen, hb, hgr, ha⟩ := hr.last hgs
    rw [← hr.current] at hgr
    obtain ⟨cursor, hfold⟩ := hgr.undone 0
    simp only [hfold, bind_eq_bind, bind_some, hgs, dropLast_concat]
    have hch : Chained (gs ++ g :: h.redo.reverse) (past ++ t :: v.current :: v.future) :=
      (chained_append hlen).mpr ⟨hb, hr.current ▸ hgr, ha⟩
    refine ⟨_, _, ⟨past, t, v.current :: v.future⟩, rfl, .undo hpast, rfl, hlen, ?_, ?_⟩
    · simpa using hch
    · have hbs := hr.bytes
      rw [hgs, totalBytes_append] at hbs
      rw [totalBytes_append]
      dsimp only
      omega

theorem Represents.redo : ∃ h' out v', h.travel true = some (h', out) ∧ v.Step .redo v' (out.map Prod.fst) ∧ Represents h' v' := by
  simp only [EditHistory.travel, EditHistory.barrier, if_true]
  obtain ⟨hb, ha⟩ := (chained_append hr.length).mp hr.chained
  cases hl : h.redo.getLast? with
  | none =>
    rw [getLast?_eq_none_iff.mp hl] at ha
    have hn : v.future = [] := length_eq_zero_iff.mp (Nat.succ.inj ha.length)
    exact ⟨_, _, v, rfl, .nothingAfter hn, hr.barrier⟩
  | some g =>
    obtain ⟨gs, hgs⟩ := getLast?_eq_some_iff.mp hl
    rw [hgs, reverse_concat'] at ha
    obtain ⟨t, future, hf⟩ : ∃ t future, v.future = t :: future := by
      have hlen := ha.length
      exact exists_cons_of_length_pos (by simp at hlen; omega)
    rw [hf] at ha
    obtain ⟨hgr, ha⟩ := ha
    rw [← hr.current] at hgr
    obtain ⟨cursor, hfold⟩ := hgr.redone 0
    simp only [hfold, bind_eq_bind, bind_some, hgs, dropLast_concat]
    have hch : Chained (h.undo ++ g :: gs.reverse) (v.past ++ v.current :: t :: future) :=
      (chained_append hr.length).mpr ⟨hb, hr.current ▸ hgr, ha⟩
    refine ⟨_, _, ⟨v.past ++ [v.current], t, future⟩, rfl, .redo hf, rfl, ?_, ?_, ?_⟩
    · simp [hr.length]
    · simpa using hch
    · have hbs := hr.bytes
      rw [hgs, totalBytes_append] at hbs
      rw [totalBytes_append]
      dsimp only
      omega

/-- A mark is no change of the texts. -/
theorem Represents.markObjectEdit : Represents h.markObjectEdit v := by
  rw [EditHistory.markObjectEdit]
  cases hl : h.undo.getLast? with
  | none => exact hr
  | some g =>
    obtain ⟨gs, hgs⟩ := getLast?_eq_some_iff.mp hl
    obtain ⟨past, t, hpast, hlen, hb, hgr, ha⟩ := hr.last hgs
    let marked := g.map fun change => { change with objectEdit := true }
    have hm : ∀ (g : List Change) (t : Text), GroupLeads g t v.current →
        GroupLeads (g.map fun change => { change with objectEdit := true }) t v.current := by
      intro g
      induction g with
      | nil => exact fun _ => id
      | cons c g ih => exact fun t ⟨m, hc, hg⟩ => ⟨m, hc, ih m hg⟩
    simp only [hgs, dropLast_concat]
    refine ⟨hr.current, ?_, ?_, ?_⟩
    · simp [hpast, hlen]
    · have hlin : Chained (marked :: h.redo.reverse) (t :: v.current :: v.future) := ⟨hm g t hgr, ha⟩
      have hch := (chained_append hlen).mpr ⟨hb, hlin⟩
      simpa [hpast, marked] using hch
    · have hsm : totalBytes [marked] = totalBytes [g] := by
        simp only [totalBytes, marked, flatten_singleton, List.map_map]
        rfl
      have hbs := hr.bytes
      rw [hgs, totalBytes_append, ← hsm, ← totalBytes_append] at hbs
      exact hbs

/-- One operation. -/
theorem Represents.step (op : Op) : ∃ h' out v', h.step op = some (h', out) ∧ v.Step op v' (out.map Prod.fst) ∧ Represents h' v' := by
  cases op with
  | reset text => exact ⟨_, none, ⟨[], text, []⟩, rfl, .reset text, rfl, rfl, trivial, rfl⟩
  | record now text =>
    obtain ⟨h', v', hrec, hst, hr'⟩ := hr.record now text _ (.inl rfl)
    exact ⟨h', none, v', by rw [EditHistory.step, hrec]; rfl, hst, hr'⟩
  | recordRope now text =>
    obtain ⟨h', v', hrec, hst, hr'⟩ := hr.record now text _ (.inr rfl)
    exact ⟨h', none, v', by rw [EditHistory.step, EditHistory.recordRope_eq, hrec]; rfl, hst, hr'⟩
  | barrier => exact ⟨_, none, v, rfl, .barrier, hr.barrier⟩
  | markObjectEdit => exact ⟨_, none, v, rfl, .markObjectEdit, hr.markObjectEdit⟩
  | undo => exact hr.undo
  | redo => exact hr.redo

theorem Represents.run (ops : List Op) :
    ∃ h' outs v', h.run ops = some (h', outs) ∧ v.Run ops v' (outs.map (Option.map Prod.fst)) ∧ Represents h' v' := by
  induction ops generalizing h v with
  | nil => exact ⟨h, [], v, rfl, .nil v, hr⟩
  | cons op ops ih =>
    obtain ⟨h', out, v', hst, hv, hr'⟩ := hr.step op
    obtain ⟨h'', outs, v'', hrun, hv', hr''⟩ := ih hr'
    refine ⟨h'', out :: outs, v'', ?_, .cons hv hv', hr''⟩
    simp only [EditHistory.run, hst, bind_eq_bind, bind_some, hrun]

end

end

end Pebrel.Documents
