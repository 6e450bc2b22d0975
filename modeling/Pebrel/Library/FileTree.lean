import Mathlib.Data.List.Infix

/-!
# File trees

A tree gives every path below its root a node, or nothing. A file is replaced as
a whole: the directories above it are made, a temporary file is written beside it
and renamed over it. Each of these calls can fail, and then the next ones are not
made.

`atomicWrite_spec` says what a write can change, and `atomicWrite_ok` where it
has to succeed.
-/

namespace Pebrel.Library.FileTree

open List Function

/-- What is at a path. -/
inductive Node (β : Type*) where
  | file (contents : β)
  | dir
  | symlink
  deriving DecidableEq

/-- The nodes of all paths below the root, which is a directory itself. -/
abbrev Tree (ν β : Type*) := List ν → Option (Node β)

variable {ν β : Type*} [DecidableEq ν] {t t' : Tree ν β} {p q : List ν} {contents : β}

/-- The paths above a path, from the top, without the root. -/
def parents (p : List ν) : List (List ν) := p.inits.tail.dropLast

omit [DecidableEq ν] in
theorem mem_parents : q ∈ parents p ↔ q ≠ [] ∧ q <+: p ∧ q ≠ p := by
  induction p generalizing q with
  | nil =>
    constructor
    · exact fun h => nomatch h
    · rintro ⟨hne, hp, -⟩
      exact absurd (prefix_nil.mp hp) hne
  | cons x p ih =>
    cases p with
    | nil =>
      constructor
      · exact fun h => nomatch h
      · rintro ⟨hne, hp, ho⟩
        obtain ⟨y, q, rfl⟩ := exists_cons_of_ne_nil hne
        obtain ⟨rfl, hrest⟩ := cons_prefix_cons.mp hp
        rw [prefix_nil.mp hrest] at ho
        exact absurd rfl ho
    | cons y p =>
      have hcons : parents (x :: y :: p) = [x] :: (parents (y :: p)).map (x :: ·) := by
        simp only [parents, inits_cons, tail_cons, map_cons, map_map, map_dropLast]
        exact dropLast_cons_of_ne_nil (by cases p <;> simp)
      rw [hcons, mem_cons, mem_map]
      constructor
      · rintro (rfl | ⟨r, hr, rfl⟩)
        · exact ⟨by simp, by simp, by simp⟩
        · obtain ⟨-, hp, ho⟩ := ih.mp hr
          exact ⟨by simp, cons_prefix_cons.mpr ⟨rfl, hp⟩, by simpa using ho⟩
      · rintro ⟨hne, hp, ho⟩
        obtain ⟨z, q, rfl⟩ := exists_cons_of_ne_nil hne
        obtain ⟨rfl, hrest⟩ := cons_prefix_cons.mp hp
        by_cases hq : q = []
        · exact .inl (by rw [hq])
        · exact .inr ⟨q, ih.mpr ⟨hq, hrest, fun h => ho (by rw [h])⟩, rfl⟩

omit [DecidableEq ν] in
theorem not_mem_parents_self : p ∉ parents p := fun h => (mem_parents.mp h).2.2 rfl

/-! ### Making directories -/

/-- Make directories, those above first; with a budget, fail after having made so many. -/
def createDirs (budget : Option ℕ) (t : Tree ν β) : List (List ν) → Tree ν β × Bool
  | [] => (t, true)
  | d :: ds =>
    match t d with
    | some .dir => createDirs budget t ds
    | some _ => (t, false)
    | none =>
      match budget with
      | some 0 => (t, false)
      | some (n + 1) => createDirs (some n) (update t d (some .dir)) ds
      | none => createDirs none (update t d (some .dir)) ds

theorem createDirs_spec {budget : Option ℕ} {ds : List (List ν)} {ok : Bool} (h : createDirs budget t ds = (t', ok)) :
    (∀ q, t' q = t q ∨ q ∈ ds ∧ t q = none ∧ t' q = some .dir) ∧ (ok = true → ∀ q ∈ ds, t' q = some .dir) ∧
      (ok = false → budget = none → ∃ q ∈ ds, ∃ n, t q = some n ∧ n ≠ .dir) := by
  induction ds generalizing budget t with
  | nil =>
    cases h
    exact ⟨fun _ => .inl rfl, fun _ => nofun, nofun⟩
  | cons d ds ih =>
    have hmade : ∀ budget', createDirs budget' (update t d (some .dir)) ds = (t', ok) → t d = none →
        (budget = none → budget' = none) →
        (∀ q, t' q = t q ∨ q ∈ d :: ds ∧ t q = none ∧ t' q = some .dir) ∧ (ok = true → ∀ q ∈ d :: ds, t' q = some .dir) ∧
          (ok = false → budget = none → ∃ q ∈ d :: ds, ∃ n, t q = some n ∧ n ≠ .dir) := by
      intro budget' h hd hb
      obtain ⟨hc, hok, hfail⟩ := ih h
      have hdir : t' d = some .dir := by
        rcases hc d with heq | ⟨-, -, heq⟩
        · rw [heq, update_self]
        · exact heq
      refine ⟨fun q => ?_, fun htrue => ?_, fun hf hnone => ?_⟩
      · by_cases hq : q = d
        · rw [hq]
          exact .inr ⟨mem_cons_self, hd, hdir⟩
        · rcases hc q with heq | ⟨hm, hnone, heq⟩
          · exact .inl (heq.trans (update_of_ne hq _ _))
          · exact .inr ⟨mem_cons_of_mem _ hm, (update_of_ne hq _ _).symm.trans hnone, heq⟩
      · exact forall_mem_cons.mpr ⟨hdir, hok htrue⟩
      · obtain ⟨q, hq, n, hn, hne⟩ := hfail hf (hb hnone)
        by_cases hqd : q = d
        · rw [hqd, update_self] at hn
          exact absurd (Option.some.inj hn).symm hne
        · rw [update_of_ne hqd] at hn
          exact ⟨q, mem_cons_of_mem _ hq, n, hn, hne⟩
    simp only [createDirs] at h
    split at h
    · rename_i hd
      obtain ⟨hc, hok, hfail⟩ := ih h
      refine ⟨fun q => ?_, fun htrue => ?_, fun hf hnone => ?_⟩
      · rcases hc q with heq | ⟨hm, hr⟩
        · exact .inl heq
        · exact .inr ⟨mem_cons_of_mem _ hm, hr⟩
      · refine forall_mem_cons.mpr ⟨?_, hok htrue⟩
        rcases hc d with heq | ⟨-, hnone, -⟩
        · exact heq.trans hd
        · rw [hd] at hnone
          cases hnone
      · obtain ⟨q, hq, hr⟩ := hfail hf hnone
        exact ⟨q, mem_cons_of_mem _ hq, hr⟩
    · rename_i n hn hd
      cases h
      exact ⟨fun _ => .inl rfl, nofun, fun _ _ => ⟨d, mem_cons_self, n, hd, fun heq => hn heq⟩⟩
    · rename_i hd
      split at h
      · cases h
        exact ⟨fun _ => .inl rfl, nofun, nofun⟩
      · exact hmade _ h hd nofun
      · exact hmade _ h hd fun _ => rfl

/-! ### Writing and removing files -/

variable [DecidableEq β]

/-- The call that fails while a file is replaced. -/
inductive Fault where
  /-- After having made so many directories. -/
  | createDirectory (made : ℕ)
  | openTemporary
  | writeAll
  | syncFile
  | rename
  /-- The file is renamed, and its directory cannot be synced. -/
  | syncDirectory

/-- How many directories may be made. -/
def Fault.budget : Option Fault → Option ℕ
  | some (createDirectory made) => some made
  | _ => none

/-- Replace the file at a path; `false` is an error. -/
def atomicWrite (fault : Option Fault) (t : Tree ν β) (p : List ν) (contents : β) : Tree ν β × Bool :=
  match createDirs (Fault.budget fault) t (parents p) with
  | (t, false) => (t, false)
  | (t, true) =>
    match fault with
    | none => if t p = some .dir then (t, false) else (update t p (some (.file contents)), true)
    | some .syncDirectory => if t p = some .dir then (t, false) else (update t p (some (.file contents)), false)
    | some _ => (t, false)

/-- `remove_file`, where it is no error that there is nothing. -/
def removeFile (t : Tree ν β) (p : List ν) : Tree ν β × Bool :=
  match t p with
  | none => (t, true)
  | some .dir => (t, false)
  | some _ => (update t p none, true)

/-- What a write can change: directories are made above the path, and the file is replaced. -/
theorem atomicWrite_spec {fault : Option Fault} {ok : Bool} (h : atomicWrite fault t p contents = (t', ok)) :
    (∀ q, t' q = t q ∨ (q ∈ parents p ∧ t q = none ∧ t' q = some .dir) ∨ (q = p ∧ t p ≠ some .dir ∧ t' p = some (.file contents))) ∧
      (ok = true → fault = none ∧ t' p = some (.file contents) ∧ ∀ q ∈ parents p, t' q = some .dir) ∧
      (ok = false → fault = none → (∃ q ∈ parents p, ∃ n, t q = some n ∧ n ≠ .dir) ∨ t p = some .dir ∧ t' p = some .dir) := by
  obtain ⟨⟨u, made⟩, hcr⟩ : ∃ r, createDirs (Fault.budget fault) t (parents p) = r := ⟨_, rfl⟩
  obtain ⟨hc, hmade, hfail⟩ := createDirs_spec hcr
  have hself : u p = t p := by
    rcases hc p with heq | ⟨hm, -⟩
    · exact heq
    · exact absurd hm not_mem_parents_self
  have hk : ∀ q, u q = t q ∨ (q ∈ parents p ∧ t q = none ∧ u q = some .dir) ∨
      (q = p ∧ t p ≠ some .dir ∧ u p = some (.file contents)) := fun q => (hc q).imp_right .inl
  have hr : u p ≠ some .dir → ∀ q, update u p (some (.file contents)) q = t q ∨
      (q ∈ parents p ∧ t q = none ∧ update u p (some (.file contents)) q = some .dir) ∨
        (q = p ∧ t p ≠ some .dir ∧ update u p (some (.file contents)) p = some (.file contents)) := by
    intro hd q
    by_cases hq : q = p
    · exact .inr (.inr ⟨hq, hself ▸ hd, update_self _ _ _⟩)
    · rw [update_of_ne hq]
      exact (hc q).imp_right .inl
  simp only [atomicWrite, hcr] at h
  cases made with
  | false =>
    cases h
    exact ⟨hk, nofun, fun _ hn => .inl (hfail rfl (by rw [hn]; rfl))⟩
  | true =>
    simp only at h
    split at h
    · split at h
      · rename_i hd
        cases h
        exact ⟨hk, nofun, fun _ _ => .inr ⟨hself ▸ hd, hd⟩⟩
      · rename_i hd
        cases h
        refine ⟨hr hd, fun _ => ⟨rfl, update_self _ _ _, fun q hq => ?_⟩, nofun⟩
        have hne : q ≠ p := fun heq => not_mem_parents_self (heq ▸ hq)
        rw [update_of_ne hne]
        exact hmade rfl q hq
    · split at h
      · cases h
        exact ⟨hk, nofun, nofun⟩
      · rename_i hd
        cases h
        exact ⟨hr hd, nofun, nofun⟩
    · cases h
      exact ⟨hk, nofun, nofun⟩

/-- A write that no call fails of succeeds, if nothing but directories is above the path and none is at it. -/
theorem atomicWrite_ok (hp : ∀ q ∈ parents p, t q = none ∨ t q = some .dir) (hself : t p ≠ some .dir) :
    (atomicWrite none t p contents).2 = true := by
  obtain ⟨⟨t', ok⟩, hwr⟩ : ∃ r, atomicWrite none t p contents = r := ⟨_, rfl⟩
  rw [hwr]
  cases ok with
  | true => rfl
  | false =>
    rcases (atomicWrite_spec hwr).2.2 rfl rfl with ⟨q, hq, n, hn, hne⟩ | ⟨hd, -⟩
    · rcases hp q hq with hnone | hd
      · rw [hn] at hnone
        cases hnone
      · rw [hn] at hd
        exact absurd (Option.some.inj hd) hne
    · exact absurd hd hself

end Pebrel.Library.FileTree
