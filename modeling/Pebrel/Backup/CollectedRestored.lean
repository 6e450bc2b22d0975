import Pebrel.Backup.CollectedContents
import Pebrel.Backup.CollectedFonts

/-!
# Restoring what was collected

What is collected has names that none of which is above another one (`addCategories_spec`), and is
what its category may have, but for two files that are collected as they are and
read again when an archive is validated: the terminal profiles have to be JSON, and
the saved commands have to be a store of commands (`allowed_iff`).
-/

namespace Pebrel.Backup

open Library FileTree List String BackupEntry
open Settings.Migration (Name Path Listing)
open Sync (Json)
open Commands (JsonText SavedCommands)

/-! ### Stored files -/

section
variable {dir : DataDirectory} {category : BackupCategory} {name : Text} {transform : Bytes → Bytes} {entries : List BackupEntry}

theorem addFile_eq_ok (h : addFile dir category name transform = .ok entries) : entries = [] ∧ storedFile dir name = .ok none ∨
      ∃ bytes, storedFile dir name = .ok (some bytes) ∧ entries = [⟨category, canonicalDataFileName name, transform bytes⟩] := by
  simp only [addFile] at h
  cases hs : storedFile dir name with
  | error e =>
    rw [hs] at h
    cases h
  | ok stored =>
    rw [hs] at h
    cases stored with
    | none =>
      cases h
      exact .inl ⟨rfl, rfl⟩
    | some bytes =>
      cases h
      exact .inr ⟨bytes, rfl, rfl⟩

/-- The entries of names are those of the names that are stored. -/
theorem addFiles_eq_ok {names : List Text} (h : addFiles dir category names = .ok entries) :
    (entries.map BackupEntry.name).Sublist (names.map canonicalDataFileName) ∧
      ∀ e, e ∈ entries ↔ ∃ name ∈ names, ∃ bytes, storedFile dir name = .ok (some bytes) ∧
        e = ⟨category, canonicalDataFileName name, bytes⟩ := by
  induction names generalizing entries with
  | nil =>
    cases h
    simp
  | cons name names ih =>
    simp only [addFiles] at h
    cases ha : addFile dir category name id with
    | error e =>
      rw [ha] at h
      cases h
    | ok added =>
      rw [ha] at h
      cases hmore : addFiles dir category names with
      | error e =>
        rw [hmore] at h
        cases h
      | ok more =>
        rw [hmore] at h
        cases h
        obtain ⟨hsub, hm⟩ := ih hmore
        rcases addFile_eq_ok ha with ⟨rfl, hs⟩ | ⟨bytes, hs, rfl⟩
        · refine ⟨hsub.cons _, fun e => ?_⟩
          rw [nil_append, hm e]
          simp [hs]
        · refine ⟨hsub.cons_cons _, fun e => ?_⟩
          rw [singleton_append, mem_cons, hm e]
          simp [hs]

end

/-! ### What a category has -/

/-- The files that a category has, as they are named where they are collected. -/
def collectedNames : BackupCategory → List Text
  | .appearance => ["nebula_settings.txt".toList]
  | .config => ["nebula.lua", "nebula.toml", "nebula.yml", "nebula.yaml", "terminal_profiles.json"].map String.toList
  | .ssh => []
  | .sync => ["nebula_sync.txt".toList]
  | .assistant => ["nebula_assistant.txt".toList]
  | .session => ["session.json".toList]
  | .directoryHistory => ["directory_history.json".toList]
  | .commandHistory =>
    ["pebrel_history.jsonl", "pebrel_history_wsl.jsonl", "pebrel_history_ssh.jsonl", "saved_commands.json"].map String.toList
  | .fonts => []

/-- What is kept of a file. -/
def kept : BackupCategory → Bytes → Bytes
  | .appearance => filterSettings
  | _ => id

/-- The first names of the paths of a category. -/
def heads : BackupCategory → List Text
  | .ssh => ["ssh_profiles.json".toList]
  | .fonts => ["fonts".toList]
  | category => (collectedNames category).map canonicalDataFileName

theorem heads_disjoint (c c' : BackupCategory) : ∀ head ∈ heads c, head ∈ heads c' → c = c' := by
  cases c <;> cases c' <;> decide

theorem heads_nodup (c : BackupCategory) : (heads c).Nodup := by
  cases c <;> decide

theorem collectedNames_path (c : BackupCategory) : ∀ name ∈ collectedNames c,
    canonicalDataFileName name ∈ heads c ∧ components (canonicalDataFileName name) = [canonicalDataFileName name] ∧
      safePath (canonicalDataFileName name) = .ok [canonicalDataFileName name] := by
  cases c <;> decide

/-- The fonts have names that are Unicode, without backslashes. -/
def PlainFonts (dir : DataDirectory) : Prop :=
  ∀ listing, dir.fonts = .directory listing → ∀ f ∈ files listing, PlainPath f.1

section
variable [JsonText Bytes] [JsonWriter]

/-- The entry is one that the data directory gives. -/
inductive Collected (dir : DataDirectory) : BackupEntry → Prop where
  | stored {category : BackupCategory} {name : Text} {bytes : Bytes} : name ∈ collectedNames category →
      storedFile dir name = .ok (some bytes) → Collected dir ⟨category, canonicalDataFileName name, kept category bytes⟩
  | ssh {bytes : Bytes} {value : Json} : dir.read "ssh_profiles.json".toList = .bytes bytes →
      JsonText.fromSlice bytes = some value →
      Collected dir ⟨.ssh, "ssh_profiles.json".toList, JsonWriter.toVec (sanitize value)⟩
  | font {listing : Listing} {f : Path × Bytes} : dir.fonts = .directory listing → f ∈ files listing → Collected dir (fontEntry f)

variable {dir : DataDirectory} {e : BackupEntry} {category : BackupCategory} {entries : List BackupEntry}

/-- The path of an entry begins with a name of its category, and has no other name if it is not the path of a font. -/
theorem Collected.path (h : Collected dir e) (hpl : e.category = .fonts → PlainFonts dir) :
    safePath e.name = .ok e.path ∧ ∃ head ∈ heads e.category, ∃ rest, e.path = head :: rest ∧
      (e.category ≠ .fonts → e.name = head ∧ rest = []) := by
  cases h with
  | stored hnm hs =>
    obtain ⟨hhd, hc, hsf⟩ := collectedNames_path _ _ hnm
    rw [path, hc]
    exact ⟨hsf, _, hhd, [], rfl, fun _ => ⟨rfl, rfl⟩⟩
  | ssh hrd hv => exact ⟨rfl, _, mem_singleton.mpr rfl, [], rfl, fun _ => ⟨rfl, rfl⟩⟩
  | font hfon hf =>
    have hp := hpl rfl _ hfon _ hf
    have hl := legal_of_mem_files (dir.wellNamed _ hfon) hf
    refine ⟨safePath_fontName hp hl, _, mem_singleton.mpr rfl, _, components_fontName hp hl, fun hne => ?_⟩
    exact absurd rfl hne

omit [JsonText Bytes] [JsonWriter] in
theorem incomparable_of_names (hn : (entries.map BackupEntry.name).Nodup) (hp : ∀ e ∈ entries, e.path = [e.name]) :
    entries.Pairwise fun e e' => Incomparable e.path e'.path := by
  refine (pairwise_map.mp hn).imp_of_mem fun {e e'} he he' hne => ?_
  rw [hp e he, hp e' he', incomparable_cons]
  exact .inl hne

/-- What the data directory gives for a category of files. -/
theorem collected_iff (c : BackupCategory) (hssh : c ≠ .ssh) (hf : c ≠ .fonts) :
    e.category = c ∧ Collected dir e ↔ ∃ name ∈ collectedNames c, ∃ bytes,
      storedFile dir name = .ok (some bytes) ∧ e = ⟨c, canonicalDataFileName name, kept c bytes⟩ := by
  constructor
  · rintro ⟨rfl, h⟩
    cases h with
    | stored hnm hs => exact ⟨_, hnm, _, hs, rfl⟩
    | ssh => exact absurd rfl hssh
    | font => exact absurd rfl hf
  · rintro ⟨name, hnm, bytes, hs, rfl⟩
    exact ⟨rfl, .stored hnm hs⟩

/-- A category of files, as they are. -/
theorem addFiles_spec (hk : kept category = id) (hs : category ≠ .ssh) (hf : category ≠ .fonts)
    (h : addFiles dir category (collectedNames category) = .ok entries) :
    (∀ e, e ∈ entries ↔ e.category = category ∧ Collected dir e) ∧
      (entries.map BackupEntry.name).Sublist ((collectedNames category).map canonicalDataFileName) := by
  obtain ⟨hsub, hm⟩ := addFiles_eq_ok h
  refine ⟨fun e => ?_, hsub⟩
  rw [hm e, collected_iff category hs hf, hk]
  rfl

/-- A category of files: their names are different, and are their paths. -/
theorem incomparable_of_stored (hs : category ≠ .ssh) (hf : category ≠ .fonts)
    (hm : ∀ e ∈ entries, e.category = category ∧ Collected dir e)
    (hsub : (entries.map BackupEntry.name).Sublist ((collectedNames category).map canonicalDataFileName)) :
    entries.Pairwise fun e e' => Incomparable e.path e'.path := by
  have hh : heads category = (collectedNames category).map canonicalDataFileName := by
    cases category with
    | ssh => exact absurd rfl hs
    | fonts => exact absurd rfl hf
    | _ => rfl
  refine incomparable_of_names (hsub.nodup (hh ▸ heads_nodup category)) fun e he => ?_
  obtain ⟨rfl, hc⟩ := hm e he
  obtain ⟨-, head, -, rest, hp, ho⟩ := hc.path fun heq => absurd heq hf
  obtain ⟨hnm, hr⟩ := ho hf
  rw [hp, hnm, hr]

/-- The fonts, in the order of the walk. -/
theorem addFonts_spec (h : addFonts dir = .ok entries) (hpl : PlainFonts dir) : (∀ e, e ∈ entries ↔ e.category = .fonts ∧ Collected dir e) ∧
      entries.Pairwise fun e e' => Incomparable e.path e'.path := by
  have hi : ∀ e, e.category = .fonts ∧ Collected dir e ↔
      ∃ listing, dir.fonts = .directory listing ∧ ∃ f ∈ files listing, fontEntry f = e := by
    intro e
    constructor
    · rintro ⟨hc, hcol⟩
      cases hcol with
      | stored hnm =>
        obtain rfl : _ = BackupCategory.fonts := hc
        cases hnm
      | ssh => cases hc
      | font hfon hf => exact ⟨_, hfon, _, hf, rfl⟩
    · rintro ⟨listing, hfon, f, hf, rfl⟩
      exact ⟨rfl, .font hfon hf⟩
  simp only [addFonts] at h
  cases hfon : dir.fonts with
  | missing =>
    rw [hfon] at h
    cases h
    refine ⟨fun e => ?_, .nil⟩
    rw [hi e, hfon]
    simp
  | noDirectory =>
    rw [hfon] at h
    cases h
  | directory listing =>
    rw [hfon] at h
    obtain rfl := Except.ok.inj h
    have hperm : (walk (directories listing) [([], listing)] []).Perm ((files listing).map fontEntry) := by
      have hwalk := walk_perm (directories listing) [([], listing)] [] (by simp [pending])
      simpa [found] using hwalk
    have hl : ∀ f ∈ files listing, ∀ name ∈ f.1, LegalName name := fun f hf => legal_of_mem_files (dir.wellNamed _ hfon) hf
    have hp : ∀ f ∈ files listing, (fontEntry f).path = "fonts".toList :: f.1.map lossy :=
      fun f hf => components_fontName (hpl _ hfon f hf) (hl f hf)
    refine ⟨fun e => ?_, (hperm.pairwise_iff fun h => h.symm).mpr ?_⟩
    · rw [hperm.mem_iff, mem_map, hi e, hfon]
      simp
    · rw [pairwise_map]
      refine (files_incomparable (dir.wellNamed _ hfon)).imp_of_mem fun {f g} hf hg hfg => ?_
      rw [hp f hf, hp g hg, incomparable_cons]
      exact .inr (hfg.map .ofText (map_ofText_map_lossy (hpl _ hfon f hf)) (map_ofText_map_lossy (hpl _ hfon g hg)))

/-- **What a category adds is what the data directory gives.** -/
theorem addCategory_spec (h : addCategory dir category = .ok entries) (hpl : category = .fonts → PlainFonts dir) :
    (∀ e, e ∈ entries ↔ e.category = category ∧ Collected dir e) ∧ entries.Pairwise fun e e' => Incomparable e.path e'.path := by
  have hfs : ∀ c, kept c = id → c ≠ .ssh → c ≠ .fonts → addFiles dir c (collectedNames c) = .ok entries →
      (∀ e, e ∈ entries ↔ e.category = c ∧ Collected dir e) ∧ entries.Pairwise fun e e' => Incomparable e.path e'.path := by
    intro c hk hs hf ha
    obtain ⟨hm, hsub⟩ := addFiles_spec hk hs hf ha
    exact ⟨hm, incomparable_of_stored hs hf (fun e he => (hm e).mp he) hsub⟩
  cases category with
  | appearance =>
    refine ⟨fun e => ?_, ?_⟩
    · rw [collected_iff .appearance nofun nofun]
      rcases addFile_eq_ok h with ⟨rfl, hn⟩ | ⟨bytes, hstd, rfl⟩
      · simp only [collectedNames, mem_singleton, exists_eq_left, hn, Except.ok.injEq, reduceCtorEq, false_and, exists_false, not_mem_nil]
      · simp only [collectedNames, mem_singleton, exists_eq_left, hstd, Except.ok.injEq, Option.some.injEq, exists_eq_left', kept]
    · rcases addFile_eq_ok h with ⟨rfl, -⟩ | ⟨bytes, -, rfl⟩
      · exact .nil
      · exact pairwise_singleton _ _
  | config => exact hfs .config rfl nofun nofun h
  | sync => exact hfs .sync rfl nofun nofun h
  | assistant => exact hfs .assistant rfl nofun nofun h
  | session => exact hfs .session rfl nofun nofun h
  | directoryHistory => exact hfs .directoryHistory rfl nofun nofun h
  | commandHistory => exact hfs .commandHistory rfl nofun nofun h
  | fonts => exact addFonts_spec h (hpl rfl)
  | ssh =>
    have hi : ∀ e, e.category = .ssh ∧ Collected dir e ↔ ∃ bytes value, dir.read "ssh_profiles.json".toList = .bytes bytes ∧
        JsonText.fromSlice bytes = some value ∧ ⟨.ssh, "ssh_profiles.json".toList, JsonWriter.toVec (sanitize value)⟩ = e := by
      intro e
      constructor
      · rintro ⟨hc, hcol⟩
        cases hcol with
        | stored hnm =>
          obtain rfl : _ = BackupCategory.ssh := hc
          cases hnm
        | ssh hrd hv => exact ⟨_, _, hrd, hv, rfl⟩
        | font => cases hc
      · rintro ⟨bytes, value, hrd, hv, rfl⟩
        exact ⟨rfl, .ssh hrd hv⟩
    simp only [addCategory, addSanitizedSsh] at h
    cases hrd : dir.read "ssh_profiles.json".toList with
    | bytes bytes =>
      simp only [hrd] at h
      cases hv : JsonText.fromSlice bytes with
      | none =>
        simp only [hv] at h
        cases h
      | some value =>
        simp only [hv] at h
        cases h
        refine ⟨fun e => ?_, pairwise_singleton _ _⟩
        rw [hi e, hrd]
        simp [hv, eq_comm]
    | notFound =>
      simp only [hrd] at h
      cases h
      refine ⟨fun e => ?_, .nil⟩
      rw [hi e, hrd]
      simp
    | failed =>
      simp only [hrd] at h
      cases h
      refine ⟨fun e => ?_, .nil⟩
      rw [hi e, hrd]
      simp

/-! ### Archives -/

omit [JsonText Bytes] [JsonWriter] in
theorem categories_nodup (selection : BackupSelection) : selection.categories.Nodup := by
  have hs : ∀ l : List (Bool × BackupCategory), (l.filterMap fun c => if c.1 then some c.2 else none).Sublist (l.map Prod.snd) := by
    intro l
    induction l with
    | nil => exact .slnil
    | cons c l ih =>
      obtain ⟨selected, category⟩ := c
      cases selected with
      | false => exact ih.cons _
      | true => exact ih.cons_cons _
  have ha : [BackupCategory.appearance, .config, .ssh, .sync, .assistant, .session, .directoryHistory, .commandHistory,
      .fonts].Nodup := by decide
  exact (hs _).nodup ha

/-- Entries of two categories. -/
theorem Collected.incomparable {e' : BackupEntry} (h : Collected dir e) (h' : Collected dir e') (hne : e.category ≠ e'.category)
    (hpl : e.category = .fonts → PlainFonts dir) (hpl' : e'.category = .fonts → PlainFonts dir) :
    Incomparable e.path e'.path := by
  obtain ⟨-, head, hhd, rest, hp, -⟩ := h.path hpl
  obtain ⟨-, head', hhd', rest', hp', -⟩ := h'.path hpl'
  rw [hp, hp', incomparable_cons]
  exact .inl fun heq => hne (heads_disjoint _ _ head hhd (heq ▸ hhd'))

/-- **What is collected is what the data directory gives, and no path in it is above another one.** -/
theorem addCategories_spec {categories : List BackupCategory} (h : addCategories dir categories = .ok entries)
    (hnd : categories.Nodup) (hpl : .fonts ∈ categories → PlainFonts dir) :
    (∀ e, e ∈ entries ↔ e.category ∈ categories ∧ Collected dir e) ∧ entries.Pairwise fun e e' => Incomparable e.path e'.path := by
  induction categories generalizing entries with
  | nil =>
    cases h
    simp
  | cons category categories ih =>
    obtain ⟨hn, hnd⟩ := nodup_cons.mp hnd
    simp only [addCategories] at h
    cases ha : addCategory dir category with
    | error e =>
      rw [ha] at h
      cases h
    | ok added =>
      rw [ha] at h
      cases hmore : addCategories dir categories with
      | error e =>
        rw [hmore] at h
        cases h
      | ok more =>
        rw [hmore] at h
        cases h
        obtain ⟨hadde, hap⟩ := addCategory_spec ha fun heq => hpl (heq ▸ mem_cons_self)
        obtain ⟨hm, hap'⟩ := ih hmore hnd fun hf => hpl (mem_cons_of_mem _ hf)
        refine ⟨fun e => ?_, pairwise_append.mpr ⟨hap, hap', fun e he e' he' => ?_⟩⟩
        · rw [mem_append, hadde e, hm e, mem_cons, or_and_right]
        · obtain ⟨hc, hcol⟩ := (hadde e).mp he
          obtain ⟨hc', hcol'⟩ := (hm e').mp he'
          refine hcol.incomparable hcol' ?_ ?_ ?_
          · exact fun heq => hn (hc ▸ heq ▸ hc')
          · exact fun heq => hpl (mem_cons.mpr (.inl (heq ▸ hc)))
          · exact fun heq => hpl (mem_cons_of_mem _ (heq ▸ hc'))

/-! ### What is read again -/

/-- The two files that are collected as they are, and read again: they are read. -/
structure WellFormed (dir : DataDirectory) (categories : List BackupCategory) : Prop where
  profiles : .config ∈ categories → ∀ bytes, dir.read "terminal_profiles.json".toList = .bytes bytes →
    (JsonText.fromSlice bytes).isSome = true
  commands : .commandHistory ∈ categories → ∀ bytes, dir.read "saved_commands.json".toList = .bytes bytes →
    ∃ saved, SavedCommands.fromBytes bytes = .ok saved

/-- **An entry is allowed if it is none of the files that are read again, or if it is read.** -/
theorem Collected.allowed_iff (h : Collected dir e) (hpl : e.category = .fonts → PlainFonts dir) : e.allowed = true ↔
      (e.category = .config → e.name = "terminal_profiles.json".toList → (JsonText.fromSlice e.bytes).isSome = true) ∧
        (e.category = .commandHistory → e.name = "saved_commands.json".toList → ∃ saved, SavedCommands.fromBytes e.bytes = .ok saved) := by
  have htrue : ∀ {c : BackupCategory} {p q : Prop}, e.allowed = true → e.category = c → c ≠ .config → c ≠ .commandHistory →
      (e.allowed = true ↔ (e.category = .config → p) ∧ (e.category = .commandHistory → q)) := by
    rintro c p q ha rfl hc hcmds
    exact ⟨fun _ => ⟨fun heq => absurd heq hc, fun heq => absurd heq hcmds⟩, fun _ => ha⟩
  cases h with
  | ssh hrd hv =>
    refine htrue ?_ rfl (by rintro ⟨⟩) (by rintro ⟨⟩)
    simp only [allowed, decide_true, Bool.true_and]
    exact sshIsSanitized_written hv
  | font hfon hf =>
    refine htrue (allowed_fontEntry (hpl rfl _ hfon _ hf) (legal_of_mem_files (dir.wellNamed _ hfon) hf) ?_) rfl
      (by rintro ⟨⟩) (by rintro ⟨⟩)
    obtain ⟨name, rest, hp, -⟩ := named_of_mem_files hf
    rw [hp]
    exact cons_ne_nil _ _
  | @stored category name bytes hnm hs =>
    cases category with
    | ssh => cases hnm
    | fonts => cases hnm
    | appearance =>
      obtain rfl := mem_singleton.mp hnm
      refine htrue ?_ rfl (by rintro ⟨⟩) (by rintro ⟨⟩)
      simp only [allowed, kept, filterSettings_filterSettings, decide_true, Bool.and_true, decide_eq_true_eq]
      rfl
    | sync =>
      obtain rfl := mem_singleton.mp hnm
      exact htrue rfl rfl (by rintro ⟨⟩) (by rintro ⟨⟩)
    | assistant =>
      obtain rfl := mem_singleton.mp hnm
      exact htrue rfl rfl (by rintro ⟨⟩) (by rintro ⟨⟩)
    | session =>
      obtain rfl := mem_singleton.mp hnm
      exact htrue rfl rfl (by rintro ⟨⟩) (by rintro ⟨⟩)
    | directoryHistory =>
      obtain rfl := mem_singleton.mp hnm
      exact htrue rfl rfl (by rintro ⟨⟩) (by rintro ⟨⟩)
    | config =>
      have hl : ∀ name ∈ collectedNames .config, canonicalDataFileName name ∈
          ["pebrel.lua", "pebrel.toml", "pebrel.yml", "pebrel.yaml", "terminal_profiles.json"].map toList := by decide
      simp only [allowed, kept, decide_eq_true (hl name hnm), Bool.true_and, Bool.or_eq_true, decide_eq_true_eq,
        reduceCtorEq, false_implies, and_true, true_implies]
      exact Decidable.imp_iff_not_or.symm
    | commandHistory =>
      have hl : ∀ name ∈ collectedNames .commandHistory, canonicalDataFileName name = "saved_commands.json".toList ∨
          canonicalDataFileName name ∈
            ["pebrel_history.jsonl", "pebrel_history_wsl.jsonl", "pebrel_history_ssh.jsonl"].map toList := by decide
      have ho : "saved_commands.json".toList ∉
          ["pebrel_history.jsonl", "pebrel_history_wsl.jsonl", "pebrel_history_ssh.jsonl"].map toList := by decide
      rcases hl name hnm with heq | hm
      · simp only [allowed, kept, heq, decide_eq_false ho, Bool.false_or, decide_true, Bool.true_and,
          reduceCtorEq, false_implies, true_and, true_implies, id]
        cases SavedCommands.fromBytes bytes <;> simp
      · have hne : canonicalDataFileName name ≠ "saved_commands.json".toList := fun heq => ho (heq ▸ hm)
        simp only [allowed, kept, decide_eq_true hm, Bool.true_or, reduceCtorEq, false_implies, true_and, hne, implies_true]

end

end Pebrel.Backup
