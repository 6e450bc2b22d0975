import Mathlib.Algebra.Order.Ring.Nat
import Mathlib.Data.List.Induction

/-!
# Association lists

Entries of a key and a value, in order, where a key may have several entries.
`values key s` are the values of one key, and each operation is described by
what it does to the values of every key: `insert` is that of a map that keeps
its order, and `collect` makes such a map of a list of entries.
-/

namespace Pebrel.Library.Assoc

open List Option Prod
open Prod (fst mk snd)

variable {κ α : Type*} [DecidableEq κ] {k key : κ} {v : α} {s t : List (κ × α)}

/-- The values of a key, in order. -/
def values (key : κ) (s : List (κ × α)) : List α := (s.filter fun e => e.1 = key).map snd

@[simp] theorem values_nil : values key ([] : List (κ × α)) = [] := rfl

theorem values_cons (e : κ × α) (s : List (κ × α)) : values key (e :: s) = if e.1 = key then e.2 :: values key s else values key s := by
  unfold values
  rw [filter_cons]
  by_cases h : e.1 = key
  · simp only [h, decide_true, if_true, map_cons]
  · simp only [h, decide_false, if_false, Bool.false_eq_true]

theorem values_append (s t : List (κ × α)) : values key (s ++ t) = values key s ++ values key t := by
  unfold values
  rw [filter_append, map_append]

theorem mem_values : v ∈ values key s ↔ (key, v) ∈ s := by
  unfold values
  rw [List.mem_map]
  constructor
  · rintro ⟨⟨k, w⟩, he, rfl⟩
    obtain ⟨he, hk⟩ := mem_filter.mp he
    rw [← of_decide_eq_true hk]
    exact he
  · intro h
    exact ⟨(key, v), mem_filter.mpr ⟨h, decide_eq_true rfl⟩, rfl⟩

theorem values_eq_nil_iff : values key s = [] ↔ ∀ e ∈ s, e.1 ≠ key := by
  unfold values
  rw [map_eq_nil_iff, filter_eq_nil_iff]
  simp only [decide_eq_true_eq, ne_eq]

/-- The values of a key are those of a reordered list where no key has two. -/
theorem values_perm (h : s.Perm t) : (values key s).Perm (values key t) := (h.filter _).map _

/-! ### Changing the first entry of a key -/

/-- Change the value of the first entry of a key. -/
def modifyFirst (key : κ) (f : α → α) : List (κ × α) → List (κ × α)
  | [] => []
  | (k, v) :: s => if k = key then (k, f v) :: s else (k, v) :: modifyFirst key f s

theorem values_modifyFirst (f : α → α) (s : List (κ × α)) :
    values k (modifyFirst key f s) = if k = key then (values k s).modifyHead f else values k s := by
  induction s with
  | nil =>
    unfold modifyFirst
    split <;> rfl
  | cons e s ih =>
    unfold modifyFirst
    by_cases he : e.1 = key
    · rw [if_pos he, values_cons, values_cons]
      by_cases hk : k = key
      · rw [if_pos hk]
        simp only [he, hk, if_true, modifyHead_cons]
      · have hne : e.1 ≠ k := fun h => hk (h.symm.trans he)
        rw [if_neg hk, if_neg hne, if_neg hne]
    · rw [if_neg he, values_cons, values_cons, ih]
      by_cases hk : k = key
      · have hne : e.1 ≠ k := fun h => he (h.trans hk)
        rw [if_pos hk, if_pos hk, if_neg hne, if_neg hne]
      · rw [if_neg hk, if_neg hk]

theorem keys_modifyFirst (f : α → α) (s : List (κ × α)) : (modifyFirst key f s).map fst = s.map fst := by
  induction s with
  | nil => rfl
  | cons e s ih =>
    unfold modifyFirst
    split
    · rfl
    · rw [map_cons, map_cons, ih]

theorem filter_modifyFirst (f : α → α) (s : List (κ × α)) :
    ((modifyFirst key f s).filter fun e => e.1 ≠ key) = s.filter fun e => e.1 ≠ key := by
  induction s with
  | nil => rfl
  | cons e s ih =>
    unfold modifyFirst
    split
    · rename_i h
      simp [h]
    · rw [filter_cons, filter_cons, ih]

/-! ### Taking out the first entry of a key -/

/-- The first entry of a key has the first of its values, and the rest of the entries the rest. -/
theorem values_of_find? {e : κ × α} (h : s.find? (fun e => e.1 = key) = some e) :
    e.1 = key ∧ values key s = e.2 :: values key (s.eraseP fun e => e.1 = key) := by
  induction s with
  | nil => cases h
  | cons a s ih =>
    rw [find?_cons] at h
    rw [eraseP_cons, values_cons]
    by_cases ha : a.1 = key
    · simp only [ha, decide_true, some.injEq] at h
      subst h
      simp only [ha, decide_true, if_true, cond_true, true_and]
    simp only [ha, decide_false] at h
    obtain ⟨hk, hs⟩ := ih h
    simp only [ha, decide_false, if_false, cond_false, values_cons]
    exact ⟨hk, hs⟩

theorem values_eraseP_of_ne (h : k ≠ key) : values k (s.eraseP fun e => e.1 = key) = values k s := by
  induction s with
  | nil => rfl
  | cons a s ih =>
    rw [eraseP_cons]
    by_cases ha : a.1 = key
    · have hne : a.1 ≠ k := fun hk => h (hk.symm.trans ha)
      simp only [ha, decide_true, cond_true, values_cons, if_neg (Ne.symm h)]
    · simp only [ha, decide_false, cond_false, values_cons, ih]

theorem values_eq_nil_of_find? (h : s.find? (fun e => e.1 = key) = none) : values key s = [] := by
  rw [find?_eq_none] at h
  exact values_eq_nil_iff.mpr fun e he heq => h e he (decide_eq_true heq)

/-! ### Maps that keep their order -/

/-- Insert into a map: the value of a key that is there is replaced where it stands. -/
def insert (key : κ) (v : α) (s : List (κ × α)) : List (κ × α) :=
  if s.any fun e => e.1 = key then modifyFirst key (fun _ => v) s else s ++ [(key, v)]

theorem any_key_iff : (s.any fun e => e.1 = key) = true ↔ values key s ≠ [] := by
  rw [ne_eq, values_eq_nil_iff, List.any_eq_true]
  push Not
  simp only [decide_eq_true_eq]

theorem values_insert (s : List (κ × α)) : values k (insert key v s) = if k = key then v :: (values k s).tail else values k s := by
  unfold insert
  by_cases h : (s.any fun e => e.1 = key) = true
  · rw [if_pos h, values_modifyFirst]
    by_cases hk : k = key
    · rw [if_pos hk, if_pos hk]
      obtain ⟨w, ws, hws⟩ := exists_cons_of_ne_nil (any_key_iff.mp h)
      rw [hk, hws, modifyHead_cons, tail_cons]
    · rw [if_neg hk, if_neg hk]
  · rw [if_neg h, values_append, values_cons]
    by_cases hk : k = key
    · have hn : values key s = [] := not_not.mp fun hne => h (any_key_iff.mpr hne)
      rw [if_pos hk.symm, if_pos hk, hk, hn]
      rfl
    · rw [if_neg (Ne.symm hk), if_neg hk, values_nil, append_nil]

/-- The map of a list of entries, the last entry of a key counting. -/
def collect (entries : List (κ × α)) : List (κ × α) := entries.foldl (fun s e => insert e.1 e.2 s) []

theorem values_collect (entries : List (κ × α)) : values k (collect entries) = (values k entries).getLast?.toList := by
  unfold collect
  induction entries using reverseRecOn with
  | nil => rfl
  | append_singleton es e ih =>
    rw [foldl_append, foldl_cons, foldl_nil, values_insert, values_append, values_cons, values_nil]
    by_cases hk : k = e.1
    · rw [if_pos hk, if_pos hk.symm, getLast?_concat, ih]
      cases (values k es).getLast? <;> rfl
    · rw [if_neg hk, if_neg (Ne.symm hk), append_nil, ih]

/-! ### Checking that keys are distinct -/

omit [DecidableEq κ] in
/-- One step of a loop that checks items and keeps the keys it has seen. -/
theorem distinct_cons_iff {P : α → Prop} {key : α → κ} {a : α} {rest : List α} {seen : List κ} :
    (∀ x ∈ a :: rest, P x ∧ key x ∉ seen) ∧ ((a :: rest).map key).Nodup ↔
      (P a ∧ key a ∉ seen) ∧ (∀ x ∈ rest, P x ∧ key x ∉ key a :: seen) ∧ (rest.map key).Nodup := by
  rw [forall_mem_cons, map_cons, nodup_cons]
  constructor
  · rintro ⟨⟨ha, hr⟩, hn, hnd⟩
    refine ⟨ha, fun x hx => ⟨(hr x hx).1, fun hm => ?_⟩, hnd⟩
    rcases mem_cons.mp hm with hk | hm
    · exact hn (List.mem_map.mpr ⟨x, hx, hk⟩)
    · exact (hr x hx).2 hm
  · rintro ⟨ha, hr, hnd⟩
    refine ⟨⟨ha, fun x hx => ⟨(hr x hx).1, fun hm => (hr x hx).2 (mem_cons_of_mem _ hm)⟩⟩, ?_, hnd⟩
    intro hm
    obtain ⟨x, hx, hk⟩ := List.mem_map.mp hm
    exact (hr x hx).2 (hk ▸ mem_cons_self)

/-! ### Maps that keep their keys apart -/

theorem mem_modifyFirst {f : α → α} {e : κ × α} (hs : (s.map fst).Nodup) :
    e ∈ modifyFirst key f s ↔ (e ∈ s ∧ e.1 ≠ key) ∨ ∃ v, (key, v) ∈ s ∧ e = (key, f v) := by
  induction s with
  | nil => simp [modifyFirst]
  | cons a s ih =>
    obtain ⟨k, v⟩ := a
    rw [map_cons, nodup_cons] at hs
    have hk : ∀ w, (k, w) ∉ s := fun w hw => hs.1 (List.mem_map.mpr ⟨_, hw, rfl⟩)
    by_cases h : k = key
    · subst h
      simp only [modifyFirst, if_true, mem_cons, mk.injEq, true_and]
      constructor
      · rintro (rfl | he)
        · exact .inr ⟨v, .inl rfl, rfl⟩
        · exact .inl ⟨.inr he, fun heq => hk e.2 (heq ▸ he)⟩
      · rintro (⟨rfl | he, hne⟩ | ⟨w, rfl | hw, rfl⟩)
        · exact absurd rfl hne
        · exact .inr he
        · exact .inl rfl
        · exact absurd hw (hk w)
    · simp only [modifyFirst, if_neg h, mem_cons, ih hs.2, mk.injEq, Ne.symm h, false_and, false_or]
      constructor
      · rintro (rfl | ⟨he, hne⟩ | hv)
        · exact .inl ⟨.inl rfl, h⟩
        · exact .inl ⟨.inr he, hne⟩
        · exact .inr hv
      · rintro (⟨rfl | he, hne⟩ | hv)
        · exact .inl rfl
        · exact .inr (.inl ⟨he, hne⟩)
        · exact .inr (.inr hv)

theorem insert_of_not_mem (h : key ∉ s.map fst) : insert key v s = s ++ [(key, v)] := by
  refine if_neg fun ha => h ?_
  obtain ⟨e, he, hk⟩ := List.any_eq_true.mp ha
  exact List.mem_map.mpr ⟨e, he, of_decide_eq_true hk⟩

theorem insert_of_mem (h : key ∈ s.map fst) : insert key v s = modifyFirst key (fun _ => v) s := by
  obtain ⟨e, he, hk⟩ := List.mem_map.mp h
  exact if_pos (List.any_eq_true.mpr ⟨e, he, decide_eq_true hk⟩)

theorem insert_of_find? {e : κ × α} (h : s.find? (fun e => e.1 = key) = some e) : insert key e.2 s = s := by
  rw [insert, if_pos (List.any_eq_true.mpr ⟨e, mem_of_find?_eq_some h, find?_some h⟩)]
  induction s with
  | nil => rfl
  | cons a s ih =>
    rw [modifyFirst]
    rw [find?_cons] at h
    split at h
    · rename_i ha
      cases h
      rw [if_pos (of_decide_eq_true ha)]
    · rename_i ha
      rw [if_neg (of_decide_eq_false ha), ih h]

theorem mem_insert {e : κ × α} (hs : (s.map fst).Nodup) : e ∈ insert key v s ↔ e = (key, v) ∨ e ∈ s ∧ e.1 ≠ key := by
  by_cases h : key ∈ s.map fst
  · rw [insert_of_mem h, mem_modifyFirst hs]
    constructor
    · rintro (he | ⟨-, -, he⟩)
      · exact .inr he
      · exact .inl he
    · rintro (he | he)
      · obtain ⟨a, ha, rfl⟩ := List.mem_map.mp h
        exact .inr ⟨a.2, ha, he⟩
      · exact .inl he
  · have hne : ∀ e ∈ s, e.1 ≠ key := fun e he heq => h (List.mem_map.mpr ⟨e, he, heq⟩)
    rw [insert_of_not_mem h, mem_append, mem_singleton]
    constructor
    · rintro (he | he)
      · exact .inr ⟨he, hne e he⟩
      · exact .inl he
    · rintro (he | ⟨he, -⟩)
      · exact .inr he
      · exact .inl he

theorem nodup_keys_insert (hs : (s.map fst).Nodup) : ((insert key v s).map fst).Nodup := by
  by_cases h : key ∈ s.map fst
  · rw [insert_of_mem h, keys_modifyFirst]
    exact hs
  · rw [insert_of_not_mem h, map_append, map_singleton]
    refine nodup_append.mpr ⟨hs, nodup_cons.mpr ⟨not_mem_nil, nodup_nil⟩, fun a ha b hb heq => h ?_⟩
    have hk : a = key := heq.trans (mem_singleton.mp hb)
    exact hk ▸ ha

theorem collect_append (entries : List (κ × α)) (e : κ × α) : collect (entries ++ [e]) = insert e.1 e.2 (collect entries) := by
  simp [collect]

theorem nodup_keys_collect (entries : List (κ × α)) : ((collect entries).map fst).Nodup := by
  induction entries using reverseRecOn with
  | nil => exact nodup_nil
  | append_singleton es e ih =>
    rw [collect_append]
    exact nodup_keys_insert ih

/-- A list with distinct keys is the map that it makes. -/
theorem collect_of_nodup {entries : List (κ × α)} (h : (entries.map fst).Nodup) : collect entries = entries := by
  induction entries using reverseRecOn with
  | nil => rfl
  | append_singleton es e ih =>
    rw [map_append, map_singleton] at h
    obtain ⟨hes, -, hd⟩ := nodup_append.mp h
    rw [collect_append, ih hes, insert_of_not_mem fun hm => hd _ hm _ mem_cons_self rfl]

/-- A map: no key has two entries. -/
@[ext] structure Map (κ α : Type*) where
  entries : List (κ × α)
  nodup : (entries.map fst).Nodup
  deriving DecidableEq

namespace Map

/-- The map without entries. -/
def empty : Map κ α := ⟨[], List.nodup_nil⟩

def insert (key : κ) (v : α) (m : Map κ α) : Map κ α := ⟨Assoc.insert key v m.entries, nodup_keys_insert m.nodup⟩

/-- The last of the entries of a key counts. -/
def ofEntries (entries : List (κ × α)) : Map κ α := ⟨collect entries, nodup_keys_collect entries⟩

def get? (m : Map κ α) (key : κ) : Option α := (m.entries.find? fun e => e.1 = key).map snd

def containsKey (m : Map κ α) (key : κ) : Bool := m.entries.any fun e => e.1 = key

def mapValues (f : α → α) (m : Map κ α) : Map κ α :=
  ⟨m.entries.map fun e => (e.1, f e.2), by simpa [List.map_map, Function.comp_def] using m.nodup⟩

/-- Keep the entries whose key satisfies `p`. -/
def filterKeys (p : κ → Bool) (m : Map κ α) : Map κ α :=
  ⟨m.entries.filter fun e => p e.1, (List.filter_sublist.map fst).nodup m.nodup⟩

def retain (p : α → Bool) (m : Map κ α) : Map κ α :=
  ⟨m.entries.filter fun e => p e.2, (List.filter_sublist.map fst).nodup m.nodup⟩

variable {m : Map κ α} {e : κ × α}

@[simp] theorem mem_entries_insert : e ∈ (m.insert key v).entries ↔ e = (key, v) ∨ e ∈ m.entries ∧ e.1 ≠ key := mem_insert m.nodup

omit [DecidableEq κ] in
@[simp] theorem mem_entries_mapValues {f : α → α} : e ∈ (m.mapValues f).entries ↔ ∃ v, (e.1, v) ∈ m.entries ∧ f v = e.2 := by
  obtain ⟨k, w⟩ := e
  simp [mapValues]

omit [DecidableEq κ] in
@[simp] theorem mem_entries_filterKeys {p : κ → Bool} : e ∈ (m.filterKeys p).entries ↔ e ∈ m.entries ∧ p e.1 = true := by
  simp [filterKeys]

@[simp] theorem containsKey_iff : m.containsKey key = true ↔ ∃ v, (key, v) ∈ m.entries := by
  simp [containsKey]

theorem get?_eq_head? : m.get? key = (values key m.entries).head? := by
  rw [get?, values, head?_map, head?_filter]

theorem get?_eq_some_iff : m.get? key = some v ↔ (key, v) ∈ m.entries := by
  obtain ⟨s, hs⟩ := m
  rw [get?_eq_head?, ← mem_values]
  have hl : (values key s).length ≤ 1 := by
    induction s with
    | nil => exact Nat.zero_le 1
    | cons e s ih =>
      rw [map_cons, nodup_cons] at hs
      rw [values_cons]
      split
      · rename_i hk
        have hn : values key s = [] := values_eq_nil_iff.mpr fun a ha h =>
          hs.1 (List.mem_map.mpr ⟨a, ha, h.trans hk.symm⟩)
        rw [hn]
        exact Nat.le_refl 1
      · exact ih hs.2
  match values key s, hl with
  | [], _ => simp
  | [w], _ => simp [eq_comm]

theorem get?_retain {p : α → Bool} : (m.retain p).get? key = (m.get? key).filter p := by
  cases h : m.get? key with
  | none =>
    refine eq_none_iff_forall_ne_some.mpr fun v hv => ?_
    have hm := (mem_filter.mp (get?_eq_some_iff.mp hv)).1
    exact nomatch h.symm.trans (get?_eq_some_iff.mpr hm)
  | some v =>
    have hm := get?_eq_some_iff.mp h
    cases hp : p v with
    | true => exact (get?_eq_some_iff.mpr (mem_filter.mpr ⟨hm, hp⟩)).trans (filter_some_pos hp).symm
    | false =>
      rw [filter_some_neg hp]
      refine eq_none_iff_forall_ne_some.mpr fun w hw => ?_
      obtain ⟨hm', hpw⟩ := mem_filter.mp (get?_eq_some_iff.mp hw)
      obtain rfl := some.inj (h.symm.trans (get?_eq_some_iff.mpr hm'))
      exact nomatch hp.symm.trans hpw

theorem length_insert : (m.insert key v).entries.length = if m.containsKey key = true then m.entries.length else m.entries.length + 1 := by
  change (Assoc.insert key v m.entries).length = if (m.entries.any fun e => e.1 = key) = true then m.entries.length else m.entries.length + 1
  unfold Assoc.insert
  split
  · have hkeys : ((modifyFirst key (fun _ => v) m.entries).map fst).length = (m.entries.map fst).length :=
      congrArg length (keys_modifyFirst _ _)
    rwa [length_map, length_map] at hkeys
  · rw [length_append, length_singleton]

theorem keys_insert (h : m.containsKey key = true) : (m.insert key v).entries.map fst = m.entries.map fst := by
  change (Assoc.insert key v m.entries).map fst = m.entries.map fst
  have hi : Assoc.insert key v m.entries = modifyFirst key (fun _ => v) m.entries := if_pos h
  rw [hi]
  exact keys_modifyFirst _ _

theorem entries_eq_nil_iff : m.entries = [] ↔ ∀ key, m.get? key = none := by
  constructor
  · intro h key
    rw [get?, h]
    rfl
  · intro h
    refine eq_nil_iff_forall_not_mem.mpr fun e he => ?_
    exact nomatch (h e.1).symm.trans (get?_eq_some_iff.mpr he)

theorem get?_insert {k : κ} : (m.insert key v).get? k = if k = key then some v else m.get? k := by
  rw [get?_eq_head?, get?_eq_head?, insert, values_insert]
  split
  · rfl
  · rfl

@[simp] theorem get?_empty : (empty : Map κ α).get? key = none := rfl

theorem get?_mapValues {f : α → α} : (m.mapValues f).get? key = (m.get? key).map f := by
  rw [get?, get?, mapValues, find?_map, Option.map_map, Option.map_map]
  rfl

theorem get?_filterKeys {p : κ → Bool} : (m.filterKeys p).get? key = if p key = true then m.get? key else none := by
  refine ext fun v => ?_
  rw [get?_eq_some_iff, mem_entries_filterKeys]
  split
  · rename_i h
    rw [get?_eq_some_iff, and_iff_left h]
  · rename_i h
    exact iff_of_false (fun hv => h hv.2) nofun

theorem containsKey_eq_isSome : m.containsKey key = (m.get? key).isSome := by
  rw [Bool.eq_iff_iff, containsKey_iff, isSome_iff_exists]
  exact exists_congr fun v => get?_eq_some_iff.symm

/-- A key that was not there is taken out again. -/
theorem filterKeys_insert (h : m.get? key = none) : (m.insert key v).filterKeys (· ≠ key) = m := by
  have hne : ∀ e ∈ m.entries, e.1 ≠ key := fun e he hk => nomatch h.symm.trans (get?_eq_some_iff.mpr (hk ▸ he : (key, e.2) ∈ m.entries))
  have hkeys : key ∉ m.entries.map fst := by
    intro hm
    obtain ⟨e, he, hk⟩ := List.mem_map.mp hm
    exact hne e he hk
  refine Map.ext ?_
  change (Assoc.insert key v m.entries).filter (fun e => e.1 ≠ key) = m.entries
  rw [insert_of_not_mem hkeys, filter_append, filter_eq_self.mpr fun e he => decide_eq_true (hne e he), filter_cons]
  simp

/-- A sum over the entries without that of one key. -/
theorem sum_filterKeys_ne (m : Map κ α) (key : κ) (f : α → ℕ) :
    ((m.filterKeys (· ≠ key)).entries.map fun e => f e.2).sum + ((m.get? key).map f).getD 0 = (m.entries.map fun e => f e.2).sum := by
  obtain ⟨s, hs⟩ := m
  rw [get?_eq_head?]
  change ((s.filter fun e => e.1 ≠ key).map fun e => f e.2).sum + ((values key s).head?.map f).getD 0 = (s.map fun e => f e.2).sum
  induction s with
  | nil => rfl
  | cons e s ih =>
    obtain ⟨hnot, hnd⟩ := nodup_cons.mp hs
    have hsum := ih hnd
    rw [values_cons, filter_cons, map_cons, sum_cons]
    by_cases hk : e.1 = key
    · have hn : values key s = [] := values_eq_nil_iff.mpr fun a ha h => hnot (List.mem_map.mpr ⟨a, ha, h.trans hk.symm⟩)
      rw [hn] at hsum
      simp only [hk, hn] at hsum ⊢
      simp only [ne_eq, not_true_eq_false, decide_false, Bool.false_eq_true, if_false, if_true, head?_nil, head?_cons, map_none,
        map_some, getD_none, getD_some] at hsum ⊢
      omega
    · rw [if_neg hk, if_pos (decide_eq_true hk), map_cons, sum_cons]
      omega

/-- A value for one that counts as much leaves a sum. -/
theorem sum_insert {w : α} {f : α → ℕ} (h : m.get? key = some w) (hf : f v = f w) :
    ((m.insert key v).entries.map fun e => f e.2).sum = (m.entries.map fun e => f e.2).sum := by
  have hfil : (m.insert key v).filterKeys (· ≠ key) = m.filterKeys (· ≠ key) := by
    refine Map.ext ?_
    change (Assoc.insert key v m.entries).filter (fun e => e.1 ≠ key) = m.entries.filter fun e => e.1 ≠ key
    have hct : m.containsKey key = true := by rw [containsKey_eq_isSome, h, isSome_some]
    have hi : Assoc.insert key v m.entries = modifyFirst key (fun _ => v) m.entries := if_pos hct
    rw [hi]
    exact filter_modifyFirst _ _
  have hn := sum_filterKeys_ne (m.insert key v) key f
  have hold := sum_filterKeys_ne m key f
  rw [hfil, get?_insert, if_pos rfl, map_some, getD_some, hf] at hn
  rw [h, map_some, getD_some] at hold
  exact hn.symm.trans hold

theorem get?_ofEntries (entries : List (κ × α)) : (ofEntries entries).get? key = (values key entries).getLast? := by
  rw [get?_eq_head?, ofEntries, values_collect, head?_toList]

@[simp] theorem ofEntries_entries (m : Map κ α) : ofEntries m.entries = m := Map.ext (collect_of_nodup m.nodup)

end Map

end Pebrel.Library.Assoc
