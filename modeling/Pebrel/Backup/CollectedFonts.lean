import Pebrel.Backup.Collection
import Pebrel.Backup.Recovery

/-!
# Collected fonts

The walk over the directories of the fonts finds every file in them once
(`walk_perm`), whatever the order in which the directories are read. Where no name
has a backslash, and none is other than Unicode, the name of an entry leads back to
the path of its file (`components_fontName`), and no file is above another one.
-/

namespace Pebrel.Backup

open Library FileTree List
open Settings.Migration (Name Path Listing Leaf)

/-! ### The files of a listing -/

/-- The files of a listing with their paths, without what a migration left behind. -/
def files : Listing → List (Path × Bytes)
  | .nil => []
  | .leaf name leaf rest =>
    if isArtifact name then files rest
    else
      match leaf with
      | .file contents => ([name], contents.bytes) :: files rest
      | _ => files rest
  | .dir name entries rest =>
    if isArtifact name then files rest else (files entries).map (fun f => (name :: f.1, f.2)) ++ files rest

/-- The entry of a file. -/
def fontEntry (f : Path × Bytes) : BackupEntry := ⟨.fonts, fontName f.1, f.2⟩

/-- The entries of a directory on the stack. -/
def found (d : Path × Listing) : List BackupEntry := (files d.2).map fun f => fontEntry (d.1 ++ f.1, f.2)

/-- The directories on the stack. -/
def pending (stack : List (Path × Listing)) : ℕ := (stack.map fun d => directories d.2).sum

variable {listing : Listing} {f : Path × Bytes} {p : Path} {name : Name}

theorem pending_cons (d : Path × Listing) (stack : List (Path × Listing)) : pending (d :: stack) = directories d.2 + pending stack := by
  simp [pending]

/-- One directory: what is found, on the stack or already read, are its files and what was found before. -/
theorem scan_spec (path : Path) (listing : Listing) (stack : List (Path × Listing)) (entries : List BackupEntry) :
    ((scan path listing stack entries).2 ++ (scan path listing stack entries).1.flatMap found).Perm
      (entries ++ found (path, listing) ++ stack.flatMap found) ∧
    pending (scan path listing stack entries).1 + 1 ≤ pending stack + directories listing := by
  induction listing generalizing stack entries with
  | nil => simp [scan, found, files, directories]
  | leaf name leaf rest ih =>
    simp only [scan, found, files, directories]
    by_cases ha : isArtifact name = true
    · simp only [if_pos ha]
      exact ih stack entries
    simp only [if_neg ha]
    cases leaf with
    | file contents =>
      obtain ⟨hperm, hpd⟩ := ih stack (entries ++ [⟨.fonts, fontName (path ++ [name]), contents.bytes⟩])
      refine ⟨hperm.trans ?_, hpd⟩
      simp [found, fontEntry]
    | symlink target => exact ih stack entries
    | other => exact ih stack entries
  | dir name inner rest _ ih =>
    simp only [scan, found, files, directories]
    by_cases ha : isArtifact name = true
    · simp only [if_pos ha]
      obtain ⟨hperm, hpd⟩ := ih stack entries
      exact ⟨hperm, by omega⟩
    simp only [if_neg ha]
    obtain ⟨hperm, hpd⟩ := ih ((path ++ [name], inner) :: stack) entries
    rw [pending_cons] at hpd
    refine ⟨hperm.trans ?_, by simp only at hpd ⊢; omega⟩
    have hi : found (path ++ [name], inner) = (files inner).map fun f => fontEntry (path ++ name :: f.1, f.2) := by
      simp [found, append_assoc]
    rw [flatMap_cons, hi, map_append, map_map]
    simp only [found, Function.comp_def, append_assoc]
    refine .append_left entries ?_
    rw [← append_assoc, ← append_assoc]
    exact perm_append_comm.append_right _

/-- **The walk finds every file once.** -/
theorem walk_perm (n : ℕ) (stack : List (Path × Listing)) (entries : List BackupEntry) (hn : pending stack ≤ n) :
    (walk n stack entries).Perm (entries ++ stack.flatMap found) := by
  induction n generalizing stack entries with
  | zero =>
    cases stack with
    | nil => simp [walk]
    | cons d stack =>
      have hp : 0 < directories d.2 := by
        have := (scan_spec [] d.2 [] []).2
        simp only [pending, map_nil, sum_nil] at this
        omega
      rw [pending_cons] at hn
      omega
  | succ n ih =>
    cases stack with
    | nil => simp [walk]
    | cons d stack =>
      obtain ⟨path, listing⟩ := d
      obtain ⟨hperm, hpd⟩ := scan_spec path listing stack entries
      rw [pending_cons] at hn
      rw [walk]
      refine (ih _ _ (by simp only at hn; omega)).trans (hperm.trans ?_)
      rw [flatMap_cons, append_assoc]

/-! ### Paths that are not above each other -/

/-- The paths are different, and none is above the other one. -/
def Incomparable {α : Type} (p q : List α) : Prop := ¬ p <+: q ∧ ¬ q <+: p

section
variable {α β : Type} {p q : List α}

theorem Incomparable.symm (h : Incomparable p q) : Incomparable q p := ⟨h.2, h.1⟩

theorem Incomparable.ne (h : Incomparable p q) : p ≠ q := fun heq => h.1 (heq ▸ prefix_rfl)

theorem Incomparable.not_mem_parents (h : Incomparable p q) : p ∉ parents q := fun hm => h.1 (mem_parents.mp hm).2.1

theorem incomparable_cons {a b : α} : Incomparable (a :: p) (b :: q) ↔ a ≠ b ∨ Incomparable p q := by
  simp only [Incomparable, cons_prefix_cons, not_and]
  constructor
  · rintro ⟨hp, hq⟩
    by_cases hab : a = b
    · exact .inr ⟨hp hab, hq hab.symm⟩
    · exact .inl hab
  · rintro (hab | ⟨hp, hq⟩)
    · exact ⟨fun heq => absurd heq hab, fun heq => absurd heq.symm hab⟩
    · exact ⟨fun _ => hp, fun _ => hq⟩

/-- Paths remain so under a map that can be taken back on them. -/
theorem Incomparable.map {f : α → β} (g : β → α) (hp : (p.map f).map g = p) (hq : (q.map f).map g = q) (h : Incomparable p q) :
    Incomparable (p.map f) (q.map f) := by
  constructor
  · intro hpre
    have hbk := hpre.map g
    rw [hp, hq] at hbk
    exact h.1 hbk
  · intro hpre
    have hbk := hpre.map g
    rw [hp, hq] at hbk
    exact h.2 hbk

end

/-! ### The paths of a listing -/

theorem named_of_mem_files (h : f ∈ files listing) : ∃ name rest, f.1 = name :: rest ∧ Named name listing := by
  induction listing generalizing f with
  | nil => cases h
  | leaf name leaf rest ih =>
    have hr : f ∈ files rest → ∃ first more, f.1 = first :: more ∧ Named first (.leaf name leaf rest) := by
      intro hm
      obtain ⟨first, more, hf, hnm⟩ := ih hm
      exact ⟨first, more, hf, .inr hnm⟩
    simp only [files] at h
    split at h
    · exact hr h
    cases leaf with
    | file contents =>
      rcases mem_cons.mp h with rfl | h
      · exact ⟨name, [], rfl, .inl rfl⟩
      · exact hr h
    | symlink target => exact hr h
    | other => exact hr h
  | dir name entries rest _ ih =>
    have hr : f ∈ files rest → ∃ first more, f.1 = first :: more ∧ Named first (.dir name entries rest) := by
      intro hm
      obtain ⟨first, more, hf, hnm⟩ := ih hm
      exact ⟨first, more, hf, .inr hnm⟩
    simp only [files] at h
    split at h
    · exact hr h
    rcases mem_append.mp h with h | h
    · obtain ⟨g, -, rfl⟩ := mem_map.mp h
      exact ⟨name, g.1, rfl, .inl rfl⟩
    · exact hr h

theorem legal_of_mem_files (hl : WellNamed listing) (h : f ∈ files listing) : ∀ name ∈ f.1, LegalName name := by
  induction listing generalizing f with
  | nil => cases h
  | leaf name leaf rest ih =>
    obtain ⟨hnm, -, hr⟩ := hl
    simp only [files] at h
    split at h
    · exact ih hr h
    cases leaf with
    | file contents =>
      rcases mem_cons.mp h with rfl | h
      · simpa using hnm
      · exact ih hr h
    | symlink target => exact ih hr h
    | other => exact ih hr h
  | dir name entries rest ihentries ih =>
    obtain ⟨hnm, -, hents, hr⟩ := hl
    simp only [files] at h
    split at h
    · exact ih hr h
    rcases mem_append.mp h with h | h
    · obtain ⟨g, hg, rfl⟩ := mem_map.mp h
      exact forall_mem_cons.mpr ⟨hnm, ihentries hents hg⟩
    · exact ih hr h

/-- **No file of a listing is above another one.** -/
theorem files_incomparable (hl : WellNamed listing) : (files listing).Pairwise fun f g => Incomparable f.1 g.1 := by
  induction listing with
  | nil => exact .nil
  | leaf name leaf rest ih =>
    obtain ⟨-, hn, hr⟩ := hl
    simp only [files]
    split
    · exact ih hr
    cases leaf with
    | file contents =>
      refine pairwise_cons.mpr ⟨fun g hg => ?_, ih hr⟩
      obtain ⟨first, more, hgf, hnm⟩ := named_of_mem_files hg
      rw [hgf, incomparable_cons]
      exact .inl fun heq => hn (heq ▸ hnm)
    | symlink target => exact ih hr
    | other => exact ih hr
  | dir name entries rest ihentries ih =>
    obtain ⟨-, hn, hents, hr⟩ := hl
    simp only [files]
    split
    · exact ih hr
    refine pairwise_append.mpr ⟨?_, ih hr, fun f hf g hg => ?_⟩
    · rw [pairwise_map]
      exact (ihentries hents).imp fun h => incomparable_cons.mpr (.inr h)
    · obtain ⟨f, -, rfl⟩ := mem_map.mp hf
      obtain ⟨first, more, hgf, hnm⟩ := named_of_mem_files hg
      rw [hgf, incomparable_cons]
      exact .inl fun heq => hn (heq ▸ hnm)

/-! ### The names of fonts -/

/-- The names of the path are Unicode, without backslashes. -/
def PlainPath (p : Path) : Prop := ∀ name ∈ p, ∀ u ∈ name, ∃ c, u = .inl c ∧ c ≠ '\x5c'

section
variable (hp : PlainPath p)
include hp

theorem ofText_lossy (hnm : name ∈ p) : .ofText (lossy name) = name := by
  rw [Name.ofText, lossy, map_map]
  refine (map_congr_left fun u hu => ?_).trans (map_id name)
  obtain ⟨c, rfl, -⟩ := hp name hnm u hu
  rfl

theorem map_ofText_map_lossy : (p.map lossy).map .ofText = p := by
  rw [map_map]
  exact (map_congr_left fun name hnm => ofText_lossy hp hnm).trans (map_id p)

/-- What a name has to be for it to stand between two slashes. -/
theorem lossy_legal (hnm : name ∈ p) (hl : LegalName name) :
    '/' ∉ lossy name ∧ '\x5c' ∉ lossy name ∧ lossy name ≠ [] ∧ lossy name ≠ ['.'] ∧ lossy name ≠ ['.', '.'] := by
  obtain ⟨hne, hs, hd, hdots⟩ := hl
  have hbk := ofText_lossy hp hnm
  refine ⟨fun h => hs ?_, fun h => ?_, fun h => hne ?_, fun h => hd ?_, fun h => hdots ?_⟩
  · rw [← hbk]
    exact mem_map.mpr ⟨_, h, rfl⟩
  · obtain ⟨u, hu, hu'⟩ := mem_map.mp h
    obtain ⟨c, rfl, hc⟩ := hp name hnm u hu
    exact hc hu'
  · rw [← hbk, h]
    rfl
  · rw [← hbk, h]
  · rw [← hbk, h]

/-- The name of an entry, with nothing to be replaced in it. -/
theorem fontName_eq (hl : ∀ name ∈ p, LegalName name) : fontName p = ['/'].intercalate ("fonts".toList :: p.map lossy) := by
  have hk : ∀ part ∈ "fonts".toList :: p.map lossy, '\x5c' ∉ part := by
    refine forall_mem_cons.mpr ⟨by decide, fun part hpt => ?_⟩
    obtain ⟨name, hnm, rfl⟩ := mem_map.mp hpt
    exact (lossy_legal hp hnm (hl name hnm)).2.1
  have hno : ∀ parts : List Text, (∀ part ∈ parts, '\x5c' ∉ part) → '\x5c' ∉ ['/'].intercalate parts := by
    intro parts hps
    induction parts with
    | nil => simp
    | cons part parts ih =>
      obtain ⟨hpt, hps⟩ := forall_mem_cons.mp hps
      cases parts with
      | nil => simpa using hpt
      | cons part' parts =>
        rw [intercalate_cons_cons]
        simpa [hpt] using ih hps
  rw [fontName]
  refine (map_congr_left fun c hc => ?_).trans (map_id _)
  have hc' : c ≠ '\x5c' := fun heq => hno _ hk (heq ▸ hc)
  simp [hc']

theorem splitOn_fontName (hl : ∀ name ∈ p, LegalName name) : (fontName p).splitOn '/' = "fonts".toList :: p.map lossy := by
  rw [fontName_eq hp hl]
  refine splitOn_intercalate '/' (forall_mem_cons.mpr ⟨by decide, fun part hpt => ?_⟩) (by simp)
  obtain ⟨name, hnm, rfl⟩ := mem_map.mp hpt
  exact (lossy_legal hp hnm (hl name hnm)).1

/-- **The name of an entry leads back to the path of the file.** -/
theorem components_fontName (hl : ∀ name ∈ p, LegalName name) : components (fontName p) = "fonts".toList :: p.map lossy := by
  rw [components, splitOn_fontName hp hl, filter_eq_self]
  refine forall_mem_cons.mpr ⟨by decide, fun part hpt => ?_⟩
  obtain ⟨name, hnm, rfl⟩ := mem_map.mp hpt
  obtain ⟨-, -, hne, hd, -⟩ := lossy_legal hp hnm (hl name hnm)
  simp [hne, hd]

theorem safePath_fontName (hl : ∀ name ∈ p, LegalName name) : safePath (fontName p) = .ok (components (fontName p)) := by
  have hsp := splitOn_fontName hp hl
  have hhd : ∃ rest, fontName p = "fonts".toList ++ rest := by
    rw [fontName_eq hp hl]
    cases p with
    | nil => exact ⟨[], by simp⟩
    | cons name p => exact ⟨_, intercalate_cons_cons.trans (by rw [append_assoc])⟩
  obtain ⟨rest, hr⟩ := hhd
  rw [safePath, if_neg]
  rintro (hn | hs | hd | hdots)
  · simp [hr] at hn
  · simp [hr] at hs
  · simp [hsp] at hd
  · rw [components_fontName hp hl] at hdots
    rcases mem_cons.mp hdots with heq | hm
    · exact absurd heq (by decide)
    · obtain ⟨name, hnm, heq⟩ := mem_map.mp hm
      exact (lossy_legal hp hnm (hl name hnm)).2.2.2.2 heq

end

/-- A font of a backup is below the directory of the fonts. -/
theorem allowed_fontEntry [Commands.JsonText Bytes] (hp : PlainPath f.1)
    (hl : ∀ name ∈ f.1, LegalName name) (hne : f.1 ≠ []) : (fontEntry f).allowed = true := by
  obtain ⟨path, bytes⟩ := f
  obtain ⟨name, p, rfl⟩ := exists_cons_of_ne_nil hne
  have hnm : lossy name ≠ [] := (lossy_legal hp mem_cons_self (hl name mem_cons_self)).2.2.1
  have hst : ∃ rest, rest ≠ [] ∧ fontName (name :: p) = "fonts/".toList ++ rest := by
    rw [fontName_eq hp hl, map_cons, intercalate_cons_cons]
    refine ⟨['/'].intercalate (lossy name :: p.map lossy), ?_, rfl⟩
    cases p with
    | nil => simpa using hnm
    | cons name' p =>
      rw [map_cons, intercalate_cons_cons]
      simp
  obtain ⟨rest, hr, heq⟩ := hst
  simp only [BackupEntry.allowed, fontEntry, heq, Bool.and_eq_true, decide_eq_true_eq, isPrefixOf_iff_prefix]
  refine ⟨prefix_append _ _, ?_⟩
  rw [length_append]
  exact Nat.lt_add_of_pos_right (length_pos_iff.mpr hr)

end Pebrel.Backup
