import Pebrel.Library.FileTree

/-!
# File systems

A file tree with finitely many nodes, so that it can be seen whether a directory has
entries. Each operation is described by the node that it leaves at every path.
-/

namespace Pebrel.Library.FileTree

open Option Function

variable {ν β : Type*}

structure FileSystem (ν β : Type*) where
  tree : Tree ν β
  /-- Paths, all those among them where there is something. -/
  paths : List (List ν)
  complete : ∀ p, tree p ≠ none → p ∈ paths

namespace FileSystem

variable [DecidableEq ν] {fs : FileSystem ν β} {p q : List ν} {n : Node β}

def empty : FileSystem ν β := ⟨fun _ => none, [], fun _ h => absurd rfl h⟩

/-- Put a node at a path. -/
def set (p : List ν) (n : Node β) (fs : FileSystem ν β) : FileSystem ν β where
  tree := update fs.tree p (some n)
  paths := p :: fs.paths
  complete q hq := by
    by_cases h : q = p
    · exact h ▸ List.mem_cons_self
    · rw [update_of_ne h] at hq
      exact List.mem_cons_of_mem _ (fs.complete q hq)

/-- Take away what is at a path. -/
def remove (p : List ν) (fs : FileSystem ν β) : FileSystem ν β where
  tree := update fs.tree p none
  paths := fs.paths
  complete q hq := by
    by_cases h : q = p
    · rw [h, update_self] at hq
      exact absurd rfl hq
    · rw [update_of_ne h] at hq
      exact fs.complete q hq

@[simp] theorem tree_set : (fs.set p n).tree q = if q = p then some n else fs.tree q := update_apply _ _ _ _

/-- A directory has entries. -/
def hasEntries (p : List ν) (fs : FileSystem ν β) : Bool :=
  fs.paths.any fun q => decide (q ≠ []) && decide (q.dropLast = p) && (fs.tree q).isSome

theorem hasEntries_iff : fs.hasEntries p = true ↔ ∃ x, fs.tree (p ++ [x]) ≠ none := by
  rw [hasEntries, List.any_eq_true]
  constructor
  · rintro ⟨q, -, hq⟩
    simp only [Bool.and_eq_true, decide_eq_true_eq, isSome_iff_ne_none] at hq
    obtain ⟨⟨hne, rfl⟩, hs⟩ := hq
    exact ⟨q.getLast hne, by rwa [List.dropLast_append_getLast]⟩
  · rintro ⟨x, hx⟩
    refine ⟨p ++ [x], fs.complete _ hx, ?_⟩
    simp [isSome_iff_ne_none, hx]

/-- `create_dir_all`; with a budget, it fails after having made so many directories. -/
def createDirAll (budget : Option ℕ) (p : List ν) (fs : FileSystem ν β) : FileSystem ν β × Bool :=
  (⟨(createDirs budget fs.tree (parents p ++ [p])).1, (parents p ++ [p]) ++ fs.paths, fun q hq => by
      have hspec := createDirs_spec (show createDirs budget fs.tree (parents p ++ [p]) = (_, _) from rfl)
      rcases hspec.1 q with h | ⟨h, -⟩
      · exact List.mem_append_right _ (fs.complete q (h ▸ hq))
      · exact List.mem_append_left _ h⟩,
    (createDirs budget fs.tree (parents p ++ [p])).2)

/-- What `create_dir_all` does, and why it fails where no call does. -/
theorem createDirAll_spec {budget : Option ℕ} {fs' : FileSystem ν β} {ok : Bool} (h : fs.createDirAll budget p = (fs', ok)) :
    (∀ q, fs'.tree q = fs.tree q ∨ q ∈ parents p ++ [p] ∧ fs.tree q = none ∧ fs'.tree q = some .dir) ∧
      (ok = true → ∀ q ∈ parents p ++ [p], fs'.tree q = some .dir) ∧
      (ok = false → budget = none → ∃ q ∈ parents p ++ [p], ∃ n, fs.tree q = some n ∧ n ≠ .dir) := by
  obtain ⟨rfl, rfl⟩ := Prod.mk.inj h
  exact createDirs_spec rfl

end FileSystem

end Pebrel.Library.FileTree
