import Pebrel.Split.Layout
import Mathlib.Data.List.Nodup

/-!
# Edits of the tree of panes

A pane is split, removed, replaced or exchanged with another one, or a tree is docked
beside it (`nebula_split/src/lib.rs`, `dock.rs`). Each edit is at the first leaf of the
pane, and changes the list of the leaves there and nowhere else (`tree_edits`). What
comes into the tree has to be new to it, else a pane would have two places.
-/

namespace Pebrel.Split

open List Option

inductive SplitNav where
  | left
  | right
  | up
  | down

inductive RemoveOutcome (T : Type) where
  | notFound
  | wasRoot
  | collapsed (focus : T)

namespace SplitTree

variable {T : Type}

/-- `leaves`, depth first. -/
def leaves : SplitTree T → List T
  | leaf id => [id]
  | split _ _ _ _ first second => first.leaves ++ second.leaves

/-- The first pane in reading order. -/
def firstLeaf : SplitTree T → T
  | leaf id => id
  | split _ _ _ _ first _ => first.firstLeaf

/-- The tree with other panes in their places. -/
def map (f : T → T) : SplitTree T → SplitTree T
  | leaf id => leaf (f id)
  | split d r p g first second => split d r p g (first.map f) (second.map f)

def joined (t source : SplitTree T) (side : SplitNav) : SplitTree T :=
  match side with
  | .left => split .leftRight (1 / 2) none false source t
  | .right => split .leftRight (1 / 2) none false t source
  | .up => split .topBottom (1 / 2) none false source t
  | .down => split .topBottom (1 / 2) none false t source

variable [DecidableEq T]

def contains (id : T) : SplitTree T → Bool
  | leaf pane => pane = id
  | split _ _ _ _ first second => first.contains id || second.contains id

/-- The first leaf of a pane makes room for a tree, if the pane is there. -/
def graft (target : T) : SplitTree T → SplitTree T → Option (SplitTree T)
  | leaf id, new => if id = target then some new else none
  | split d r p g first second, new =>
    match first.graft target new with
    | some first => some (split d r p g first second)
    | none => (second.graft target new).map fun second => split d r p g first second

def replaceLeaf (t : SplitTree T) (target replacement : T) : SplitTree T × Bool :=
  ((t.graft target (leaf replacement)).getD t, (t.graft target (leaf replacement)).isSome)

/-- The split that `split_leaf` puts in the place of a leaf. -/
def splitOff (target new : T) (direction : SplitDirection) (ratio : ℚ) : SplitTree T :=
  split direction ratio none false (leaf target) (leaf new)

def splitLeaf (t : SplitTree T) (target new : T) (direction : SplitDirection) (ratio : ℚ) : SplitTree T × Bool :=
  ((t.graft target (splitOff target new direction ratio)).getD t, (t.graft target (splitOff target new direction ratio)).isSome)

/-- `dock_at_leaf`: the tree after it, and the source where it is given back. -/
def dockAtLeaf (target : T) (side : SplitNav) : SplitTree T → SplitTree T → SplitTree T × Option (SplitTree T)
  | leaf id, source => if id = target then ((leaf id).joined source side, none) else (leaf id, some source)
  | split d r p g first second, source =>
    match first.dockAtLeaf target side source with
    | (first, none) => (split d r p g first second, none)
    | (first, some source) =>
      let (second, back) := second.dockAtLeaf target side source
      (split d r p g first second, back)

/-- The tree is the leaf of a pane. -/
def isLeafOf (target : T) : SplitTree T → Bool
  | leaf id => id = target
  | split .. => false

def removeLeaf (target : T) : SplitTree T → SplitTree T × RemoveOutcome T
  | leaf id => (leaf id, if id = target then .wasRoot else .notFound)
  | split d r p g first second =>
    if first.isLeafOf target then (second, .collapsed second.firstLeaf)
    else if second.isLeafOf target then (first, .collapsed first.firstLeaf)
    else
      match first.removeLeaf target with
      | (first, .notFound) =>
        let (second, outcome) := second.removeLeaf target
        (split d r p g first second, outcome)
      | (first, outcome) => (split d r p g first second, outcome)

/-- What `swap_leaves` puts in the place of a pane. -/
def exchanged (a b id : T) : T := if id = a then b else if id = b then a else id

def swapLeaves (t : SplitTree T) (a b : T) : SplitTree T × Bool :=
  if a = b || !t.contains a || !t.contains b then (t, false) else (t.map (exchanged a b), true)

/-- In the list of the leaves some panes have come in the place of one, or the tree is as it was. -/
def Edited (t t' : SplitTree T) (target : T) (panes : List T) : Prop :=
  if target ∈ t.leaves then ∃ before after, t.leaves = before ++ target :: after ∧ t'.leaves = before ++ panes ++ after else t' = t

variable {t t' new source : SplitTree T} {target id a b : T} {panes : List T}

/-! ### Leaves -/

theorem contains_iff : t.contains id = true ↔ id ∈ t.leaves := by
  induction t with
  | leaf pane => simp [contains, leaves, eq_comm]
  | split d r p g first second ihFirst ihSecond => rw [contains, Bool.or_eq_true, ihFirst, ihSecond, leaves, mem_append]

omit [DecidableEq T] in
theorem firstLeaf_mem (t : SplitTree T) : t.firstLeaf ∈ t.leaves := by
  induction t with
  | leaf id => exact mem_singleton_self id
  | split d r p g first second ihFirst => exact mem_append_left _ ihFirst

theorem isLeafOf_eq_true : t.isLeafOf target = true ↔ t = leaf target := by
  cases t <;> simp [isLeafOf]

theorem isLeafOf_eq_false (h : target ∉ t.leaves) : t.isLeafOf target = false := by
  refine Bool.eq_false_iff.mpr fun hlf => h ?_
  rw [isLeafOf_eq_true.mp hlf]
  exact mem_singleton_self target

/-- A change in one of the trees of a split is a change of the split. -/
theorem Edited.split (d : SplitDirection) (r : ℚ) (p : Option ℚ) (g : Bool) (h : t.Edited t' target panes) (htg : target ∈ t.leaves)
    (u : SplitTree T) : (SplitTree.split d r p g t u).Edited (SplitTree.split d r p g t' u) target panes ∧
      (target ∉ u.leaves → (SplitTree.split d r p g u t).Edited (SplitTree.split d r p g u t') target panes) := by
  rw [Edited, if_pos htg] at h
  obtain ⟨before, after, hold, hn⟩ := h
  refine ⟨?_, fun _ => ?_⟩
  · rw [Edited, if_pos (show target ∈ (SplitTree.split d r p g t u).leaves from mem_append_left _ htg)]
    exact ⟨before, after ++ u.leaves, by simp [leaves, hold], by simp [leaves, hn]⟩
  · rw [Edited, if_pos (show target ∈ (SplitTree.split d r p g u t).leaves from mem_append_right _ htg)]
    exact ⟨u.leaves ++ before, after, by simp [leaves, hold], by simp [leaves, hn]⟩

/-- The panes stay distinct, if those that come in are distinct and new. -/
theorem Edited.nodup (h : t.Edited t' target panes) (ht : t.leaves.Nodup) (hps : panes.Nodup)
    (hn : target ∈ t.leaves → ∀ id ∈ panes, id = target ∨ id ∉ t.leaves) : t'.leaves.Nodup := by
  rw [Edited] at h
  split_ifs at h with htg
  · obtain ⟨before, after, hold, heq⟩ := h
    have hn := hn htg
    rw [hold] at ht hn
    obtain ⟨hout, hr⟩ := nodup_cons.mp (perm_middle.nodup_iff.mp ht)
    have hperm : (before ++ panes ++ after).Perm (panes ++ (before ++ after)) := by
      rw [← append_assoc]
      exact perm_append_comm.append_right after
    rw [heq, hperm.nodup_iff]
    refine nodup_append.mpr ⟨hps, hr, fun id hid other ho => ?_⟩
    rintro rfl
    rcases hn id hid with heq | hnot
    · exact hout (heq ▸ ho)
    · exact hnot (mem_append.mpr ((mem_append.mp ho).imp_right (mem_cons_of_mem _)))
  · exact h ▸ ht

/-! ### An edit at one leaf -/

theorem graft_eq_none_iff : t.graft target new = none ↔ target ∉ t.leaves := by
  induction t with
  | leaf id => simp [graft, leaves, eq_comm]
  | split d r p g first second ihFirst ihSecond =>
    rw [graft, leaves, mem_append, not_or, ← ihFirst, ← ihSecond]
    cases first.graft target new <;> simp

theorem isSome_graft : (t.graft target new).isSome = decide (target ∈ t.leaves) := by
  rw [Bool.eq_iff_iff, isSome_iff_ne_none, decide_eq_true_iff, ne_eq, graft_eq_none_iff, not_not]

theorem edited_graft (target : T) (t new : SplitTree T) : t.Edited ((t.graft target new).getD t) target new.leaves := by
  by_cases h : target ∈ t.leaves
  · induction t with
    | leaf id =>
      obtain rfl := mem_singleton.mp h
      rw [Edited, if_pos h, graft, if_pos rfl]
      exact ⟨[], [], rfl, (append_nil _).symm⟩
    | split d r p g first second ihFirst ihSecond =>
      rw [graft]
      by_cases hf : target ∈ first.leaves
      · obtain ⟨u, hu⟩ := ne_none_iff_exists'.mp fun hn => graft_eq_none_iff.mp hn hf
        have hed := ihFirst hf
        rw [hu] at hed ⊢
        exact (hed.split d r p g hf second).1
      · have hs := (mem_append.mp h).resolve_left hf
        obtain ⟨u, hu⟩ := ne_none_iff_exists'.mp fun hn => graft_eq_none_iff.mp hn hs
        have hed := ihSecond hs
        rw [graft_eq_none_iff.mpr hf]
        rw [hu] at hed ⊢
        exact (hed.split d r p g hs first).2 hf
  · rw [Edited, if_neg h, graft_eq_none_iff.mpr h, getD_none]

theorem dockAtLeaf_eq (target : T) (side : SplitNav) (t source : SplitTree T) :
    t.dockAtLeaf target side source = ((t.graft target ((leaf target).joined source side)).getD t,
      if (t.graft target ((leaf target).joined source side)).isSome then none else some source) := by
  induction t with
  | leaf id => by_cases h : id = target <;> simp [dockAtLeaf, graft, h]
  | split d r p g first second ihFirst ihSecond =>
    rw [dockAtLeaf, graft, ihFirst]
    cases first.graft target ((leaf target).joined source side) with
    | none =>
      dsimp only [isSome_none]
      rw [if_neg Bool.false_ne_true]
      dsimp only
      rw [ihSecond]
      cases second.graft target ((leaf target).joined source side) <;> rfl
    | some first' => rfl

omit [DecidableEq T] in
theorem perm_joined (target : T) (source : SplitTree T) (side : SplitNav) :
    ((leaf target).joined source side).leaves.Perm (target :: source.leaves) := by
  cases side with
  | left | up => exact perm_append_comm
  | right | down => exact .rfl

/-! ### A pane that is removed -/

theorem removeLeaf_of_not_mem (h : target ∉ t.leaves) : t.removeLeaf target = (t, .notFound) := by
  induction t with
  | leaf id => simp_all [removeLeaf, leaves, eq_comm]
  | split d r p g first second ihFirst ihSecond =>
    rw [leaves, mem_append, not_or] at h
    rw [removeLeaf, isLeafOf_eq_false h.1, isLeafOf_eq_false h.2, ihFirst h.1, ihSecond h.2]
    rfl

/-- A pane that is not the only one goes out of the list of the leaves. -/
theorem removeLeaf_of_mem (h : target ∈ t.leaves) (hne : t ≠ leaf target) :
    ∃ t' focus, t.removeLeaf target = (t', .collapsed focus) ∧ t.Edited t' target [] ∧ focus ∈ t'.leaves := by
  induction t with
  | leaf id =>
    obtain rfl := mem_singleton.mp h
    exact absurd rfl hne
  | split d r p g first second ihFirst ihSecond =>
    rw [removeLeaf]
    split_ifs with hf hs
    · obtain rfl := isLeafOf_eq_true.mp hf
      refine ⟨second, _, rfl, ?_, firstLeaf_mem second⟩
      rw [Edited, if_pos h]
      exact ⟨[], second.leaves, rfl, rfl⟩
    · obtain rfl := isLeafOf_eq_true.mp hs
      refine ⟨first, _, rfl, ?_, firstLeaf_mem first⟩
      rw [Edited, if_pos h]
      exact ⟨first.leaves, [], rfl, by simp⟩
    rw [isLeafOf_eq_true] at hf hs
    by_cases hm : target ∈ first.leaves
    · obtain ⟨first', focus, heq, hed, hfoc⟩ := ihFirst hm hf
      rw [heq]
      exact ⟨_, focus, rfl, (hed.split d r p g hm second).1, mem_append_left _ hfoc⟩
    · have hm' := (mem_append.mp h).resolve_left hm
      obtain ⟨second', focus, heq, hed, hfoc⟩ := ihSecond hm' hs
      rw [removeLeaf_of_not_mem hm]
      dsimp only
      rw [heq]
      exact ⟨_, focus, rfl, (hed.split d r p g hm' first).2 hm, mem_append_right _ hfoc⟩

section
variable {direction : SplitDirection} {ratio : ℚ} {pane : T}

theorem isLeafOf_graft (h : t.graft target (splitOff target pane direction ratio) = some t') : t'.isLeafOf pane = false := by
  cases t with
  | leaf id =>
    obtain ⟨-, hn⟩ := ite_none_right_eq_some.mp h
    cases hn
    rfl
  | split d r p g first second =>
    rw [graft] at h
    split at h
    · cases h
      rfl
    · obtain ⟨u, -, rfl⟩ := map_eq_some_iff.mp h
      rfl

/-- A pane that has just been split off is removed again. -/
theorem removeLeaf_graft (hpane : pane ∉ t.leaves) (h : t.graft target (splitOff target pane direction ratio) = some t') :
    t'.removeLeaf pane = (t, .collapsed target) := by
  induction t generalizing t' with
  | leaf id =>
    obtain ⟨rfl, hn⟩ := ite_none_right_eq_some.mp h
    cases hn
    rw [splitOff, removeLeaf, isLeafOf_eq_false hpane]
    simp [isLeafOf, firstLeaf]
  | split d r p g first second ihFirst ihSecond =>
    rw [leaves, mem_append, not_or] at hpane
    rw [graft] at h
    split at h
    · rename_i first' hf
      cases h
      rw [removeLeaf, isLeafOf_graft hf, isLeafOf_eq_false hpane.2, ihFirst hpane.1 hf]
      rfl
    · obtain ⟨second', hs, rfl⟩ := map_eq_some_iff.mp h
      rw [removeLeaf, isLeafOf_graft hs, isLeafOf_eq_false hpane.1, removeLeaf_of_not_mem hpane.1]
      dsimp only
      rw [ihSecond hpane.2 hs]
      rfl

end

/-! ### Panes that change places -/

section
omit [DecidableEq T]

theorem leaves_map (f : T → T) (t : SplitTree T) : (t.map f).leaves = t.leaves.map f := by
  induction t with
  | leaf id => rfl
  | split d r p g first second ihFirst ihSecond => rw [map, leaves, leaves, ihFirst, ihSecond, map_append]

/-- Panes that change places leave the layout as it is. -/
theorem collectRects_map (f : T → T) (cellW cellH divider : ℚ) (usePreview : Bool) (path : List Bool) (vp : Rect) (t : SplitTree T) :
    (t.map f).collectRects cellW cellH divider usePreview path vp =
      { t.collectRects cellW cellH divider usePreview path vp with
        panes := (t.collectRects cellW cellH divider usePreview path vp).panes.map fun pane => (f pane.1, pane.2) } := by
  induction t generalizing path vp with
  | leaf id => rfl
  | split d r p g first second ihFirst ihSecond =>
    rw [map, collectRects, collectRects, ihFirst, ihSecond]
    dsimp only
    rw [map_append]

end

theorem exchanged_eq (a b : T) : exchanged a b = Equiv.swap a b := by
  funext id
  rw [exchanged, Equiv.swap_apply_def]

theorem map_exchanged (a b : T) (t : SplitTree T) : (t.map (exchanged a b)).map (exchanged a b) = t := by
  rw [exchanged_eq]
  induction t with
  | leaf id => rw [map, map, Equiv.swap_apply_self]
  | split d r p g first second ihFirst ihSecond => rw [map, map, ihFirst, ihSecond]

/-- An exchange of panes: the panes stay distinct, the same exchange undoes it, and the panes have the rectangles of each other. -/
theorem swapLeaves_spec (ht : t.leaves.Nodup) (a b : T) : (t.swapLeaves a b).1.leaves.Nodup ∧
    ((t.swapLeaves a b).1.swapLeaves a b).1 = t ∧ ((t.swapLeaves a b).2 = false → (t.swapLeaves a b).1 = t) ∧
      ((t.swapLeaves a b).2 = true → ∀ viewport cellW cellH divider usePreview,
        (t.swapLeaves a b).1.layout viewport cellW cellH divider usePreview =
          { t.layout viewport cellW cellH divider usePreview with
            panes := (t.layout viewport cellW cellH divider usePreview).panes.map fun pane => (exchanged a b pane.1, pane.2) }) := by
  by_cases h : a = b || !t.contains a || !t.contains b
  · rw [swapLeaves, if_pos h, swapLeaves, if_pos h]
    exact ⟨ht, rfl, fun _ => rfl, nofun⟩
  · have hm : ¬(a = b || !(t.map (exchanged a b)).contains a || !(t.map (exchanged a b)).contains b) := by
      simp only [Bool.or_eq_true, decide_eq_true_eq, Bool.not_eq_true', ← Bool.not_eq_true, contains_iff, not_or, not_not] at h ⊢
      rw [leaves_map, exchanged_eq]
      exact ⟨⟨h.1.1, mem_map.mpr ⟨b, h.2, Equiv.swap_apply_right a b⟩⟩, mem_map.mpr ⟨a, h.1.2, Equiv.swap_apply_left a b⟩⟩
    rw [swapLeaves, if_neg h, swapLeaves, if_neg hm]
    refine ⟨?_, map_exchanged a b t, nofun, fun _ viewport cellW cellH divider usePreview => collectRects_map _ _ _ _ _ _ _ _⟩
    rw [leaves_map, exchanged_eq]
    exact ht.map (Equiv.swap a b).injective

/-! ### The edits -/

/-- **Each edit changes the list of the leaves at one place**, and the panes stay distinct, if what comes in is new. -/
theorem tree_edits (t : SplitTree T) (ht : t.leaves.Nodup) :
    (∀ target pane direction ratio, pane ∉ t.leaves → ∃ t', t.splitLeaf target pane direction ratio = (t', decide (target ∈ t.leaves)) ∧
        t.Edited t' target [target, pane] ∧ t'.leaves.Nodup ∧ (target ∈ t.leaves → t'.removeLeaf pane = (t, .collapsed target))) ∧
      (∀ target, ∃ t' outcome, t.removeLeaf target = (t', outcome) ∧ t'.leaves.Nodup ∧
        ((outcome = .notFound ∧ target ∉ t.leaves ∧ t' = t) ∨ (outcome = .wasRoot ∧ t = leaf target ∧ t' = t) ∨
          ∃ focus ∈ t'.leaves, outcome = .collapsed focus ∧ target ∈ t.leaves ∧ t.Edited t' target [])) ∧
      (∀ target side source, source.leaves.Nodup → (∀ id ∈ source.leaves, id ∉ t.leaves) →
        ∃ t', t.dockAtLeaf target side source = (t', if target ∈ t.leaves then none else some source) ∧
          t.Edited t' target ((leaf target).joined source side).leaves ∧ t'.leaves.Nodup) ∧
      (∀ target replacement, replacement = target ∨ replacement ∉ t.leaves →
        ∃ t', t.replaceLeaf target replacement = (t', decide (target ∈ t.leaves)) ∧ t.Edited t' target [replacement] ∧ t'.leaves.Nodup) ∧
      ∀ a b, (t.swapLeaves a b).1.leaves.Nodup ∧ ((t.swapLeaves a b).1.swapLeaves a b).1 = t ∧
        ((t.swapLeaves a b).2 = false → (t.swapLeaves a b).1 = t) ∧
        ((t.swapLeaves a b).2 = true → ∀ viewport cellW cellH divider usePreview,
          (t.swapLeaves a b).1.layout viewport cellW cellH divider usePreview =
            { t.layout viewport cellW cellH divider usePreview with
              panes := (t.layout viewport cellW cellH divider usePreview).panes.map fun pane => (exchanged a b pane.1, pane.2) }) := by
  refine ⟨fun target pane direction ratio hpane => ⟨_, Prod.ext rfl isSome_graft, ?_⟩, fun target => ?_,
    fun target side source hsrc hnew => ⟨(t.graft target ((leaf target).joined source side)).getD t, ?_, ?_⟩,
    fun target replacement hnew => ⟨_, Prod.ext rfl isSome_graft, ?_⟩, swapLeaves_spec ht⟩
  · have hed := edited_graft target t (splitOff target pane direction ratio)
    refine ⟨hed, ?_, fun h => ?_⟩
    · by_cases h : target ∈ t.leaves
      · refine hed.nodup ht (nodup_cons.mpr ⟨fun heq => hpane (mem_singleton.mp heq ▸ h), nodup_singleton pane⟩)
          fun _ id (hid : id ∈ [target, pane]) => ?_
        exact (mem_cons.mp hid).imp_right fun (hid : id ∈ [pane]) => (mem_singleton.mp hid) ▸ hpane
      · rw [splitLeaf, graft_eq_none_iff.mpr h]
        exact ht
    · obtain ⟨t', hgra⟩ := ne_none_iff_exists'.mp fun hn => graft_eq_none_iff.mp hn h
      rw [splitLeaf, hgra]
      exact removeLeaf_graft hpane hgra
  · by_cases h : target ∈ t.leaves
    · by_cases hlf : t = leaf target
      · subst hlf
        exact ⟨_, _, rfl, ht, .inr (.inl ⟨if_pos rfl, rfl, rfl⟩)⟩
      · obtain ⟨t', focus, heq, hed, hfoc⟩ := removeLeaf_of_mem h hlf
        exact ⟨t', _, heq, hed.nodup ht nodup_nil nofun, .inr (.inr ⟨focus, hfoc, rfl, h, hed⟩)⟩
    · exact ⟨t, _, removeLeaf_of_not_mem h, ht, .inl ⟨rfl, h, rfl⟩⟩
  · rw [dockAtLeaf_eq, isSome_graft]
    simp only [decide_eq_true_eq]
  · have hed := edited_graft target t ((leaf target).joined source side)
    have hperm := perm_joined target source side
    refine ⟨hed, ?_⟩
    by_cases h : target ∈ t.leaves
    · refine hed.nodup ht (hperm.nodup_iff.mpr (nodup_cons.mpr ⟨fun hmem => hnew target hmem h, hsrc⟩)) fun _ id hid => ?_
      exact (mem_cons.mp (hperm.mem_iff.mp hid)).imp_right (hnew id)
    · rw [graft_eq_none_iff.mpr h]
      exact ht
  · have hed := edited_graft target t (leaf replacement)
    exact ⟨hed, hed.nodup ht (nodup_singleton replacement) fun _ id (hid : id ∈ [replacement]) => mem_singleton.mp hid ▸ hnew⟩

theorem tree_edits_twoPanes : (twoPanes.splitLeaf 2 3 .topBottom (1 / 2)).1.leaves = [1, 2, 3] ∧
    ((twoPanes.splitLeaf 2 3 .topBottom (1 / 2)).1.removeLeaf 3).1 = twoPanes := by
  obtain ⟨t', heq, -, -, hrm⟩ := (tree_edits twoPanes (by decide)).1 2 3 .topBottom (1 / 2) (by decide)
  rw [heq, hrm (by decide)]
  exact ⟨by rw [show t' = (twoPanes.splitLeaf 2 3 .topBottom (1 / 2)).1 by rw [heq]]; decide, rfl⟩

/-- A pane that is split off under a name that the tree has is there twice. -/
theorem splitLeaf_duplicates : ¬∀ (t : SplitTree ℕ) (target pane : ℕ) (direction : SplitDirection) (ratio : ℚ), t.leaves.Nodup →
    (t.splitLeaf target pane direction ratio).1.leaves.Nodup := by
  intro h
  have hnd := h (leaf 1) 1 1 .leftRight (1 / 2) (by decide)
  revert hnd
  decide

end SplitTree

end Pebrel.Split
