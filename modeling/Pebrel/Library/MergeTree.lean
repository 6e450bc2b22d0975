import Mathlib.Data.Finset.Basic

/-!
# Merge trees

Replicas are merged two at a time, in some order and grouping: a binary tree
with the replicas at its leaves. This module asks what of the result depends on
the replicas only, and not on the tree.

A merge puts the newer of two replicas over the older one, and its result counts
as as new as the newer one. Three kinds of observations are treated:

* a property that a merge has if one of its parts has it (`eval_iff_exists`);
* what is taken from the newer part alone (`eval_newest`);
* a register, which may be empty, and is taken from the newer part unless it is
  empty there.

A register need not converge, since a merge does not keep the age of what it
took from the older part. `register_agree_iff` says when it does: the newest
replica has it, or all replicas that have it agree.
-/

namespace Pebrel.Library

open List Option

/-- An order and grouping in which replicas are merged. -/
inductive MergeTree (α : Type*) where
  | leaf (a : α)
  | node (l r : MergeTree α)

namespace MergeTree

variable {α β : Type*}

/-- The replicas merged. -/
def leaves : MergeTree α → List α
  | leaf a => [a]
  | node l r => l.leaves ++ r.leaves

/-- The result of the merges. -/
def eval (op : α → α → α) : MergeTree α → α
  | leaf a => a
  | node l r => op (l.eval op) (r.eval op)

theorem leaves_ne_nil (t : MergeTree α) : t.leaves ≠ [] := by
  induction t with
  | leaf a => exact cons_ne_nil a []
  | node l r hl _ => exact append_ne_nil_of_left_ne_nil hl _

theorem leaves_eq_singleton {t : MergeTree α} {a : α} (h : t.leaves = [a]) : t = leaf a := by
  cases t with
  | leaf b => rw [(List.cons.inj h).1]
  | node l r =>
    have hlen := congrArg length h
    rw [leaves, length_append, length_singleton] at hlen
    have hl := length_pos_iff.mpr (leaves_ne_nil l)
    have hr := length_pos_iff.mpr (leaves_ne_nil r)
    omega

/-- The merges of some replicas agree on an observation. -/
def Agree (op : α → α → α) (as : List α) (f : α → β) : Prop :=
  ∀ t u : MergeTree α, t.leaves.Perm as → u.leaves.Perm as → f (t.eval op) = f (u.eval op)

variable {op : α → α → α} {t : MergeTree α}

/-- Only merges of two replicas or more can disagree. -/
theorem agree_of_node {as : List α} {f : α → β} (h : ∀ l r l' r', (node l r).leaves.Perm as → (node l' r').leaves.Perm as →
    f ((node l r).eval op) = f ((node l' r').eval op)) : Agree op as f := by
  intro t u ht hu
  cases t with
  | leaf a => rw [leaves_eq_singleton (perm_singleton.mp (hu.trans ht.symm))]
  | node l r =>
    cases u with
    | leaf b => exact nomatch leaves_eq_singleton (perm_singleton.mp (ht.trans hu.symm))
    | node l' r' => exact h l r l' r' ht hu

theorem eval_iff_exists {Q : α → Prop} (hop : ∀ a b, Q (op a b) ↔ Q a ∨ Q b) : Q (t.eval op) ↔ ∃ a ∈ t.leaves, Q a := by
  induction t with
  | leaf a =>
    simp only [eval, leaves, mem_singleton, exists_eq_left]
  | node l r hl hr =>
    rw [eval, hop, hl, hr, leaves]
    simp only [mem_append, or_and_right, exists_or]

/-! ### Stamps -/

section
variable (stamp : α → ℕ)

/-- The newer of two replicas; the second one of equally new ones. -/
def newer (a b : α) : α := if stamp b ≥ stamp a then b else a

/-- The older of two replicas. -/
def older (a b : α) : α := if stamp b ≥ stamp a then a else b

/-- A merge is as new as the newer part. -/
def KeepsStamp (op : α → α → α) : Prop := ∀ a b, stamp (op a b) = max (stamp a) (stamp b)

/-- A replica that is newer than all others. -/
def IsNewest (as : List α) (n : α) : Prop := n ∈ as ∧ ∀ a ∈ as, a = n ∨ stamp a < stamp n

variable {stamp} {as : List α} {n : α} {a : α} {v : β}

theorem exists_isNewest (hne : as ≠ []) (hnd : (as.map stamp).Nodup) : ∃ n, IsNewest stamp as n := by
  induction as with
  | nil => exact absurd rfl hne
  | cons a as ih =>
    rw [map_cons, nodup_cons] at hnd
    obtain ⟨hn, hnd⟩ := hnd
    by_cases has : as = []
    · rw [has]
      exact ⟨a, mem_cons_self, fun b hb => .inl (mem_singleton.mp hb)⟩
    obtain ⟨n, hm, hmax⟩ := ih has hnd
    have hneq : stamp a ≠ stamp n := fun h => hn (h ▸ List.mem_map_of_mem hm)
    rcases lt_or_gt_of_ne hneq with hlt | hgt
    · refine ⟨n, mem_cons_of_mem a hm, fun b hb => ?_⟩
      rcases mem_cons.mp hb with rfl | hb
      · exact .inr hlt
      · exact hmax b hb
    · refine ⟨a, mem_cons_self, fun b hb => ?_⟩
      rcases mem_cons.mp hb with rfl | hb
      · exact .inl rfl
      · rcases hmax b hb with rfl | hb
        · exact .inr hgt
        · exact .inr (hb.trans hgt)

theorem IsNewest.perm {bs : List α} (h : IsNewest stamp as n) (hperm : bs.Perm as) : IsNewest stamp bs n :=
  ⟨hperm.mem_iff.mpr h.1, fun a ha => h.2 a (hperm.mem_iff.mp ha)⟩

section
variable (hstamp : KeepsStamp stamp op)
include hstamp

theorem stamp_eval_le {m : ℕ} (h : ∀ a ∈ t.leaves, stamp a ≤ m) : stamp (t.eval op) ≤ m := by
  induction t with
  | leaf a => exact h a (mem_singleton_self a)
  | node l r hl hr =>
    rw [eval, hstamp]
    exact max_le (hl fun a ha => h a (mem_append_left _ ha)) (hr fun a ha => h a (mem_append_right _ ha))

theorem le_stamp_eval (h : a ∈ t.leaves) : stamp a ≤ stamp (t.eval op) := by
  induction t with
  | leaf b => rw [mem_singleton.mp h]; exact le_rfl
  | node l r hl hr =>
    rw [eval, hstamp]
    rcases mem_append.mp h with h | h
    · exact (hl h).trans (le_max_left _ _)
    · exact (hr h).trans (le_max_right _ _)

theorem IsNewest.stamp_eval (h : IsNewest stamp t.leaves n) : stamp (t.eval op) = stamp n := by
  refine le_antisymm (stamp_eval_le hstamp fun a ha => ?_) (le_stamp_eval hstamp h.1)
  rcases h.2 a ha with rfl | hlt
  · exact le_rfl
  · exact hlt.le

/-- Of two subtrees the newer result is that of one with the newest replica at a leaf. -/
theorem IsNewest.newer_eval {l r : MergeTree α} (h : IsNewest stamp (l.leaves ++ r.leaves) n) :
    (newer stamp (l.eval op) (r.eval op) = l.eval op ∧ IsNewest stamp l.leaves n) ∨
      (newer stamp (l.eval op) (r.eval op) = r.eval op ∧ IsNewest stamp r.leaves n) := by
  obtain ⟨hmem, hm⟩ := h
  have hl : ∀ a ∈ l.leaves, a = n ∨ stamp a < stamp n := fun a ha => hm a (mem_append_left _ ha)
  have hr : ∀ a ∈ r.leaves, a = n ∨ stamp a < stamp n := fun a ha => hm a (mem_append_right _ ha)
  have hle : stamp (l.eval op) ≤ stamp n := stamp_eval_le hstamp fun a ha => by
    rcases hl a ha with rfl | hlt
    · exact le_rfl
    · exact hlt.le
  by_cases hrig : n ∈ r.leaves
  · refine .inr ⟨if_pos ?_, hrig, hr⟩
    rw [IsNewest.stamp_eval hstamp ⟨hrig, hr⟩]
    exact hle
  have hlf : n ∈ l.leaves := (mem_append.mp hmem).resolve_right hrig
  refine .inl ⟨if_neg ?_, hlf, hl⟩
  rw [IsNewest.stamp_eval hstamp ⟨hlf, hl⟩, not_le]
  obtain ⟨b, hb⟩ := exists_mem_of_ne_nil _ (leaves_ne_nil r)
  have hp : stamp (r.eval op) ≤ stamp n - 1 ∧ 0 < stamp n := by
    have hlt : ∀ a ∈ r.leaves, stamp a < stamp n := fun a ha =>
      (hr a ha).resolve_left fun heq => hrig (heq ▸ ha)
    have hb := hlt b hb
    exact ⟨stamp_eval_le hstamp fun a ha => by have := hlt a ha; omega, by omega⟩
  omega

end

/-! ### What the newer part decides -/

/-- What a merge takes from its newer part, the whole takes from the newest replica. -/
theorem eval_newest (hstamp : KeepsStamp stamp op) {f : α → β} (hf : ∀ a b, f (op a b) = f (newer stamp a b))
    (h : IsNewest stamp t.leaves n) : f (t.eval op) = f n := by
  induction t with
  | leaf a =>
    rcases mem_singleton.mp h.1 with rfl
    rfl
  | node l r hl hr =>
    rw [eval, hf]
    rcases h.newer_eval hstamp with ⟨heq, h⟩ | ⟨heq, h⟩
    · rw [heq]
      exact hl h
    · rw [heq]
      exact hr h

theorem agree_newest (hstamp : KeepsStamp stamp op) {f : α → β} (hf : ∀ a b, f (op a b) = f (newer stamp a b))
    (hn : IsNewest stamp as n) : Agree op as f := fun t u ht hu => by
  rw [eval_newest hstamp hf (hn.perm ht), eval_newest hstamp hf (hn.perm hu)]

/-! ### Registers -/

/-- A merge takes the register from its newer part, or else from the older one. -/
def IsRegister (stamp : α → ℕ) (op : α → α → α) (f : α → Option β) : Prop :=
  ∀ a b, f (op a b) = (f (newer stamp a b)).or (f (older stamp a b))

variable {f : α → Option β}

theorem newer_or_older (stamp : α → ℕ) (a b : α) :
    (newer stamp a b = a ∧ older stamp a b = b) ∨ (newer stamp a b = b ∧ older stamp a b = a) := by
  unfold newer older
  split
  · exact .inr ⟨rfl, rfl⟩
  · exact .inl ⟨rfl, rfl⟩

theorem register_isSome (hf : IsRegister stamp op f) : (f (t.eval op)).isSome = true ↔ ∃ a ∈ t.leaves, (f a).isSome = true := by
  refine eval_iff_exists (Q := fun a => (f a).isSome = true) fun a b => ?_
  rw [hf, isSome_or, Bool.or_eq_true]
  rcases newer_or_older stamp a b with ⟨hn, ho⟩ | ⟨hn, ho⟩
  · rw [hn, ho]
  · rw [hn, ho, or_comm]

/-- The register of a result is that of one of the replicas. -/
theorem register_mem (hf : IsRegister stamp op f) (h : f (t.eval op) = some v) : ∃ a ∈ t.leaves, f a = some v := by
  induction t with
  | leaf a => exact ⟨a, mem_singleton_self a, h⟩
  | node l r hl hr =>
    rw [eval, hf, or_eq_some_iff] at h
    have hc : f (l.eval op) = some v ∨ f (r.eval op) = some v := by
      rcases newer_or_older stamp (l.eval op) (r.eval op) with ⟨hn, ho⟩ | ⟨hn, ho⟩
      · rw [hn, ho] at h
        exact h.imp id And.right
      · rw [hn, ho] at h
        exact h.symm.imp And.right id
    rcases hc with h | h
    · obtain ⟨a, ha, hv⟩ := hl h
      exact ⟨a, mem_append_left _ ha, hv⟩
    · obtain ⟨a, ha, hv⟩ := hr h
      exact ⟨a, mem_append_right _ ha, hv⟩

section
variable (hstamp : KeepsStamp stamp op)
include hstamp

theorem register_newest (hf : IsRegister stamp op f) (h : IsNewest stamp t.leaves n) (hv : f n = some v) : f (t.eval op) = some v := by
  induction t with
  | leaf a =>
    rcases mem_singleton.mp h.1 with rfl
    exact hv
  | node l r hl hr =>
    rw [eval, hf]
    rcases h.newer_eval hstamp with ⟨heq, h⟩ | ⟨heq, h⟩
    · rw [heq, hl h, some_or]
    · rw [heq, hr h, some_or]

/-- Replicas older than the result so far leave a register alone that it has. -/
theorem register_foldl (hf : IsRegister stamp op f) (as : List α)
    (hv : f (t.eval op) = some v) (hold : ∀ a ∈ as, stamp a < stamp (t.eval op)) :
    ∃ u : MergeTree α, u.leaves = t.leaves ++ as ∧ f (u.eval op) = some v := by
  induction as generalizing t with
  | nil => exact ⟨t, (append_nil _).symm, hv⟩
  | cons a as ih =>
    have ha := hold a mem_cons_self
    have heval : (node t (leaf a)).eval op = op (t.eval op) a := rfl
    have hn : f ((node t (leaf a)).eval op) = some v := by
      rw [heval, hf, newer, if_neg (not_le.mpr ha), hv, some_or]
    obtain ⟨u, hu, hfu⟩ := ih hn fun b hb => by
      rw [heval, hstamp]
      exact (hold b (mem_cons_of_mem a hb)).trans_le (le_max_left _ _)
    exact ⟨u, by rw [hu, leaves, leaves, append_assoc, singleton_append], hfu⟩

/-- If the newest replica has an empty register, each value of another one is the result of
some merges. -/
theorem exists_register_eq [DecidableEq α] (hf : IsRegister stamp op f)
    (hn : IsNewest stamp as n) (he : f n = none) (ha : a ∈ as) (hv : f a = some v)
    (hnd : as.Nodup) : ∃ t : MergeTree α, t.leaves.Perm as ∧ f (t.eval op) = some v := by
  have hne : a ≠ n := fun h => by rw [h, he] at hv; cases hv
  have hlt : stamp a < stamp n := (hn.2 a ha).resolve_left hne
  have hperm : as.Perm (a :: n :: (as.erase a).erase n) :=
    (perm_cons_erase ha).trans ((perm_cons_erase ((mem_erase_of_ne (.symm hne)).mpr hn.1)).cons a)
  have heval : (node (leaf a) (leaf n)).eval op = op a n := rfl
  have hfst : f ((node (leaf a) (leaf n)).eval op) = some v := by
    rw [heval, hf, newer, older, if_pos hlt.le, if_pos hlt.le, he, none_or, hv]
  obtain ⟨t, ht, hft⟩ := register_foldl hstamp hf ((as.erase a).erase n) hfst fun b hb => by
    rw [heval, hstamp]
    refine lt_of_lt_of_le ?_ (le_max_right _ _)
    have hbn : b ≠ n := ((hnd.erase a).mem_erase_iff.mp hb).1
    exact (hn.2 b (mem_of_mem_erase (mem_of_mem_erase hb))).resolve_left hbn
  exact ⟨t, by rw [ht]; exact hperm.symm, hft⟩

/-- When a register converges: the newest replica has it, or all that have it agree. -/
theorem register_agree_iff [DecidableEq α] (hf : IsRegister stamp op f) (hn : IsNewest stamp as n) (hnd : as.Nodup) :
    Agree op as f ↔ f n ≠ none ∨ ∀ a ∈ as, ∀ b ∈ as, ∀ v ∈ f a, ∀ w ∈ f b, v = w := by
  constructor
  · intro hagr
    by_contra hnot
    push Not at hnot
    obtain ⟨he, a, ha, b, hb, v, hv, w, hw, hvw⟩ := hnot
    obtain ⟨t, ht, htv⟩ := exists_register_eq hstamp hf hn he ha hv hnd
    obtain ⟨u, hu, huw⟩ := exists_register_eq hstamp hf hn he hb hw hnd
    have heq := hagr t u ht hu
    rw [htv, huw] at heq
    exact hvw (some.inj heq)
  · rintro (hc | hsm) t u ht hu
    · obtain ⟨v, hv⟩ := ne_none_iff_exists'.mp hc
      rw [register_newest hstamp hf (hn.perm ht) hv, register_newest hstamp hf (hn.perm hu) hv]
    · have hs : (f (t.eval op)).isSome = true ↔ (f (u.eval op)).isSome = true := by
        rw [register_isSome hf, register_isSome hf]
        simp only [ht.mem_iff, hu.mem_iff]
      cases hft : f (t.eval op) with
      | none =>
        rw [hft] at hs
        exact (not_isSome_iff_eq_none.mp fun h => by cases hs.mpr h).symm
      | some v =>
        rw [hft] at hs
        obtain ⟨w, hw⟩ := isSome_iff_exists.mp (hs.mp rfl)
        obtain ⟨a, ha, hav⟩ := register_mem hf hft
        obtain ⟨b, hb, hbw⟩ := register_mem hf hw
        rw [hw, hsm a (ht.mem_iff.mp ha) b (hu.mem_iff.mp hb) v hav w hbw]

end

/-! ### Merging a replica again -/

theorem newest_again (hstamp : KeepsStamp stamp op) {f : α → β} (hf : ∀ a b, f (op a b) = f (newer stamp a b))
    (hn : IsNewest stamp t.leaves n) (ha : a ∈ t.leaves) :
    f (op (t.eval op) a) = f (t.eval op) ∧ f (op a (t.eval op)) = f (t.eval op) := by
  have heval := eval_newest hstamp hf hn
  have hs := hn.stamp_eval hstamp
  rw [hf, hf]
  unfold newer
  rcases hn.2 a ha with rfl | hlt
  · rw [if_pos hs.le, if_pos hs.ge]
    exact ⟨heval.symm, rfl⟩
  · rw [if_neg (by omega), if_pos (by omega)]
    exact ⟨rfl, rfl⟩

theorem register_again (hstamp : KeepsStamp stamp op) (hf : IsRegister stamp op f) (hn : IsNewest stamp t.leaves n)
    (ha : a ∈ t.leaves) : f (op (t.eval op) a) = f (t.eval op) ∧ f (op a (t.eval op)) = f (t.eval op) := by
  have hsta := hn.stamp_eval hstamp
  have hover : (f (t.eval op)).or (f a) = f (t.eval op) := by
    cases ht : f (t.eval op) with
    | some v => rfl
    | none =>
      rw [none_or]
      by_contra hne
      have hs := (register_isSome hf).mpr ⟨a, ha, isSome_iff_ne_none.mpr hne⟩
      rw [ht] at hs
      cases hs
  have hu : stamp a = stamp n → (f a).or (f (t.eval op)) = f (t.eval op) := by
    intro heq
    rcases hn.2 a ha with rfl | hlt
    · cases hfa : f a with
      | none => rfl
      | some v => rw [register_newest hstamp hf hn hfa, some_or]
    · omega
  rw [hf, hf]
  unfold newer older
  rcases (hn.2 a ha).imp_left (congrArg stamp) with heq | hlt
  · rw [if_pos (by omega), if_pos (by omega), if_pos (by omega), if_pos (by omega)]
    exact ⟨hu heq, hover⟩
  · rw [if_neg (by omega), if_neg (by omega), if_pos (by omega), if_pos (by omega)]
    exact ⟨hover, hover⟩

end

end MergeTree

end Pebrel.Library
