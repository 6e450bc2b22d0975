import Mathlib.Data.List.Pairwise
import Pebrel.Backup.CollectedRestored

/-!
# From a collection to a restore

An archive that was collected is accepted exactly when the two files that are read
again are read (`WellFormed`). Then it is sealed and opened, and a restore of it into
an empty directory makes every file that was collected, under its name of now, and no
other one (`collect_restore`).

For any archive that is accepted, the paths of the entries are below the data
directory, and names that are spelled without `.` and without empty parts are those of
different paths.
-/

namespace Pebrel.Backup

open Library FileTree List
open BackupEntry (name path)
open Settings.Migration (Name Path Listing)
open Sync (Json)
open Commands (JsonText SavedCommands)

/-! ### Paths of accepted archives -/

/-- The name has no empty part and no `.` in it. -/
def Spelled (name : Text) : Prop := components name = name.splitOn '/'

/-- Such a name is not that of a directory. -/
theorem Spelled.namesDirectory {name : Text} (h : Spelled name) : namesDirectory name = false := by
  refine decide_eq_false fun hlast => ?_
  have hparts := filter_eq_self.mp h
  rcases mem_cons.mp hlast with hnil | hdot
  · exact absurd (hparts _ (mem_of_getLast? hnil)) (by decide)
  · exact absurd (hparts _ (mem_of_getLast? (mem_singleton.mp hdot))) (by decide)

/-- A path below the data directory. -/
def Below (path : List Text) : Prop := path ≠ [] ∧ ∀ name ∈ path, name ≠ [] ∧ name ≠ ['.'] ∧ name ≠ ['.', '.'] ∧ '/' ∉ name

theorem eq_of_components {name name' : Text} (h : Spelled name) (h' : Spelled name') (heq : components name = components name') :
    name = name' := by
  rw [Spelled] at h h'
  rw [h, h'] at heq
  have hjoin := congrArg ['/'].intercalate heq
  rwa [intercalate_splitOn, intercalate_splitOn] at hjoin

theorem below_of_safePath {name : Text} (hsf : safePath name = .ok (components name)) (hne : components name ≠ []) :
    Below (components name) := by
  refine ⟨hne, fun part hpt => ?_⟩
  have hdots : ['.', '.'] ∉ components name := by
    intro hm
    rw [safePath, if_pos (.inr (.inr (.inr hm)))] at hsf
    cases hsf
  obtain ⟨hsp, hf⟩ := mem_filter.mp hpt
  obtain ⟨hn, hd⟩ := of_decide_eq_true hf
  exact ⟨hn, hd, fun heq => hdots (heq ▸ hpt), Text.not_mem_of_mem_splitOn hsp⟩

theorem path_ne_nil [JsonText Bytes] {e : BackupEntry} (h : e.allowed = true) : e.path ≠ [] := by
  rcases name_of_allowed h with hm | ⟨rest, hr⟩
  · have hf : ∀ name ∈ fixedNames, components name ≠ [] := by decide
    exact hf _ hm
  have hsp : ("fonts".toList ++ '/' :: rest).splitOn '/' = ("fonts".toList).splitOn '/' ++ rest.splitOn '/' := splitOn_append_cons_self _ _
  have hhd : ("fonts".toList).splitOn '/' = ["fonts".toList] := by decide
  have hnm : "fonts/".toList ++ rest = "fonts".toList ++ '/' :: rest := rfl
  rw [path, ← hr, components, hnm, hsp, hhd, singleton_append, filter_cons_of_pos (by decide)]
  exact cons_ne_nil _ _

/-- **The entries of an archive that is accepted are below the data directory, and have different paths where
their names are spelled so.** -/
theorem paths_of_validateArchive [JsonText Bytes] {archive : BackupArchive} (h : validateArchive archive = .ok ()) :
    (∀ e ∈ archive.entries, Below e.path) ∧ archive.entries.Pairwise fun e e' => Spelled e.name → Spelled e'.name → e.path ≠ e'.path := by
  obtain ⟨-, -, hents, hn⟩ := validateArchive_eq_ok.mp h
  refine ⟨fun e he => ?_, (pairwise_map.mp hn).imp fun hne hs hs' heq => ?_⟩
  · obtain ⟨-, hsf, ha⟩ := hents e he
    exact below_of_safePath hsf (path_ne_nil ha)
  · exact hne (eq_of_components hs hs' heq)

/-! ### Collected archives -/

section
variable [JsonText Bytes] [JsonWriter] {dir : DataDirectory} {selection : BackupSelection} {archive : BackupArchive}

/-- What is known of an archive that was collected. -/
structure CollectedArchive (dir : DataDirectory) (selection : BackupSelection) (archive : BackupArchive) : Prop where
  version : archive.version = 1
  categories : archive.categories = selection.categories
  mem_iff : ∀ e, e ∈ archive.entries ↔ e.category ∈ selection.categories ∧ Collected dir e
  incomparable : archive.entries.Pairwise fun e e' => Incomparable e.path e'.path
  /-- The SSH profiles are read. -/
  profiles : .ssh ∈ selection.categories → ∀ bytes, dir.read "ssh_profiles.json".toList = .bytes bytes →
    ∃ value, JsonText.fromSlice bytes = some value

theorem addCategory_of_addCategories {categories : List BackupCategory} {entries : List BackupEntry}
    (h : addCategories dir categories = .ok entries) {c : BackupCategory} (hc : c ∈ categories) :
    ∃ added, addCategory dir c = .ok added := by
  induction categories generalizing entries with
  | nil => cases hc
  | cons category categories ih =>
    simp only [addCategories] at h
    cases ha : addCategory dir category with
    | error e =>
      rw [ha] at h
      cases h
    | ok added =>
      rw [ha] at h
      cases hmore : addCategories dir categories with
      | error e =>
        rw [hmore] at h
        cases h
      | ok more =>
        rcases mem_cons.mp hc with rfl | hc
        · exact ⟨added, ha⟩
        · exact ih hmore hc

theorem collectFrom_eq_ok (h : collectFrom dir selection = .ok archive) (hpl : .fonts ∈ selection.categories → PlainFonts dir) :
    CollectedArchive dir selection archive := by
  simp only [collectFrom] at h
  cases ha : addCategories dir selection.categories with
  | error e =>
    rw [ha] at h
    cases h
  | ok entries =>
    rw [ha] at h
    cases h
    obtain ⟨hm, hi⟩ := addCategories_spec ha (categories_nodup selection) hpl
    refine ⟨rfl, rfl, hm, hi, fun hs bytes hrd => ?_⟩
    obtain ⟨added, hadde⟩ := addCategory_of_addCategories ha hs
    simp only [addCategory, addSanitizedSsh, hrd] at hadde
    cases hv : JsonText.fromSlice bytes with
    | none =>
      rw [hv] at hadde
      cases hadde
    | some value => exact ⟨value, rfl⟩

theorem CollectedArchive.nodup (h : CollectedArchive dir selection archive) : (archive.entries.map name).Nodup := by
  rw [List.Nodup, pairwise_map]
  exact h.incomparable.imp fun hap heq => hap.ne (congrArg components heq)

/-- Any two entries are the same, or none is above the other one. -/
theorem CollectedArchive.eq_or_incomparable (h : CollectedArchive dir selection archive) {e e' : BackupEntry}
    (he : e ∈ archive.entries) (he' : e' ∈ archive.entries) : e = e' ∨ Incomparable e.path e'.path := by
  have hsymm : Std.Symm fun e e' : BackupEntry => e = e' ∨ Incomparable e.path e'.path := by
    refine ⟨fun e e' hee' => ?_⟩
    rcases hee' with rfl | hap
    · exact .inl rfl
    · exact .inr hap.symm
  have hpw : archive.entries.Pairwise fun e e' => e = e' ∨ Incomparable e.path e'.path := h.incomparable.imp fun hap => .inr hap
  exact List.Pairwise.forall_of_forall (fun _ _ => .inl rfl) hpw he he'

omit [JsonText Bytes] [JsonWriter] in
/-- A file that has had its name before. -/
theorem storedFile_of_one {name : Text} (ho : storedFile dir name = readCandidates dir [name]) {bytes : Bytes} :
    storedFile dir name = .ok (some bytes) ↔ dir.read name = .bytes bytes := by
  rw [ho]
  simp only [readCandidates]
  cases dir.read name <;> simp

/-- **An archive that was collected is accepted exactly when the files that are read again are read.** -/
theorem CollectedArchive.validate_iff (h : CollectedArchive dir selection archive) (hpl : .fonts ∈ selection.categories → PlainFonts dir) :
    validateArchive archive = .ok () ↔ WellFormed dir selection.categories := by
  have ha : ∀ {e}, e ∈ archive.entries → (safePath e.name = .ok e.path ∧ (e.allowed = true ↔ _)) := fun {e} he =>
    have hf : e.category = .fonts → PlainFonts dir := fun heq => hpl (heq ▸ ((h.mem_iff e).mp he).1)
    ⟨(((h.mem_iff e).mp he).2.path hf).1, ((h.mem_iff e).mp he).2.allowed_iff hf⟩
  constructor
  · intro hv
    obtain ⟨-, -, hents, -⟩ := validateArchive_eq_ok.mp hv
    constructor
    · intro hcfg bytes hrd
      have hc : Collected dir ⟨.config, canonicalDataFileName "terminal_profiles.json".toList, bytes⟩ :=
        @Collected.stored _ _ dir .config _ bytes (by decide) ((storedFile_of_one rfl).mpr hrd)
      have he := (h.mem_iff _).mpr ⟨hcfg, hc⟩
      exact ((ha he).2.mp (hents _ he).2.2).1 rfl rfl
    · intro hcmds bytes hrd
      have hc : Collected dir ⟨.commandHistory, canonicalDataFileName "saved_commands.json".toList, bytes⟩ :=
        @Collected.stored _ _ dir .commandHistory _ bytes (by decide) ((storedFile_of_one rfl).mpr hrd)
      have he := (h.mem_iff _).mpr ⟨hcmds, hc⟩
      exact ((ha he).2.mp (hents _ he).2.2).2 rfl rfl
  · intro hw
    refine validateArchive_eq_ok.mpr ⟨h.version, h.categories ▸ categories_nodup selection, fun e he => ?_, h.nodup⟩
    obtain ⟨hcat, hc⟩ := (h.mem_iff e).mp he
    refine ⟨h.categories ▸ hcat, (ha he).1, (ha he).2.mpr ⟨fun hcfg hnm => ?_, fun hcmds hnm => ?_⟩⟩
    · obtain ⟨name, hm, bytes, hs, rfl⟩ := (collected_iff .config nofun nofun).mp ⟨hcfg, hc⟩
      have honly : ∀ name ∈ collectedNames .config, canonicalDataFileName name = "terminal_profiles.json".toList →
          name = "terminal_profiles.json".toList := by decide
      obtain rfl := honly name hm hnm
      exact hw.profiles hcat bytes ((storedFile_of_one rfl).mp hs)
    · obtain ⟨name, hm, bytes, hs, rfl⟩ := (collected_iff .commandHistory nofun nofun).mp ⟨hcmds, hc⟩
      have honly : ∀ name ∈ collectedNames .commandHistory, canonicalDataFileName name = "saved_commands.json".toList →
          name = "saved_commands.json".toList := by decide
      obtain rfl := honly name hm hnm
      exact hw.commands hcat bytes ((storedFile_of_one rfl).mp hs)

/-! ### Restoring -/

/-- The files of the data directory that were collected are in the tree, under their names of now, and no other ones. -/
structure Recreated (dir : DataDirectory) (archive : BackupArchive) (t : Files) : Prop where
  entries : ∀ e ∈ archive.entries, t e.path = some (.file e.bytes)
  stored : ∀ c ∈ archive.categories, ∀ name ∈ collectedNames c, ∀ bytes, storedFile dir name = .ok (some bytes) →
    t [canonicalDataFileName name] = some (.file (kept c bytes))
  profiles : .ssh ∈ archive.categories → ∀ bytes, dir.read "ssh_profiles.json".toList = .bytes bytes →
    ∃ value, JsonText.fromSlice bytes = some value ∧
      t ["ssh_profiles.json".toList] = some (.file (JsonWriter.toVec (sanitize value)))
  fonts : .fonts ∈ archive.categories → ∀ listing, dir.fonts = .directory listing → ∀ f ∈ files listing,
    ∃ path : List Text, path.map .ofText = f.1 ∧ t ("fonts".toList :: path) = some (.file f.2)
  nothingElse : ∀ p node, t p = some node → node = .dir ∨ ∃ e ∈ archive.entries, p = e.path ∧ node = .file e.bytes

/-- The paths of the entries can be written. -/
theorem CollectedArchive.separate (h : CollectedArchive dir selection archive) : Separate archive.entries := by
  have hap : ∀ e ∈ archive.entries, ∀ e' ∈ archive.entries, e.path ∉ parents e'.path := by
    intro e he e' he'
    rcases h.eq_or_incomparable he he' with rfl | hap
    · exact not_mem_parents_self
    · exact hap.not_mem_parents
  refine ⟨fun e he => hap e ((takeWhile_sublist _).subset he), fun e he e' he' => hap e he e' ((triedEntries_sublist _).subset he'),
    fun _ e he e' he' heq => ?_⟩
  rcases h.eq_or_incomparable he he' with rfl | hap
  · rfl
  · exact absurd heq hap.ne

omit [JsonText Bytes] in
theorem collectedNames_spelled (c : BackupCategory) : ∀ name ∈ collectedNames c, Spelled (canonicalDataFileName name) := by
  cases c <;> unfold Spelled <;> decide

/-- The names of the entries are those of files. -/
theorem CollectedArchive.plain (h : CollectedArchive dir selection archive) (hpl : .fonts ∈ selection.categories → PlainFonts dir) :
    ∀ e ∈ archive.entries, namesDirectory e.name = false := by
  intro e he
  obtain ⟨hcat, hc⟩ := (h.mem_iff e).mp he
  cases hc with
  | stored hnm _ => exact (collectedNames_spelled _ _ hnm).namesDirectory
  | ssh _ _ => rfl
  | font hl hf =>
    have hp := hpl hcat _ hl _ hf
    have hleg := legal_of_mem_files (dir.wellNamed _ hl) hf
    exact Spelled.namesDirectory ((components_fontName hp hleg).trans (splitOn_fontName hp hleg).symm)

/-- **A restore into an empty directory makes every file that was collected.** -/
theorem CollectedArchive.restore (h : CollectedArchive dir selection archive) (hval : validateArchive archive = .ok ())
    (hpl : .fonts ∈ selection.categories → PlainFonts dir) :
    ∃ t, restoreTo .sound noFiles archive = (t, .ok ()) ∧ Recreated dir archive t := by
  obtain ⟨-, -, hents, -⟩ := validateArchive_eq_ok.mp hval
  have hps : restorePaths noFiles (archive.entries.map name) = .ok ((archive.entries.map name).map components) := by
    refine restorePaths_eq_ok (fun name hnm => ?_) fun _ _ _ _ => .inl rfl
    obtain ⟨e, he, rfl⟩ := mem_map.mp hnm
    exact (hents e he).2.1
  obtain ⟨⟨t, r⟩, hr⟩ : ∃ w, writeEntries .sound 0 noFiles (archive.entries.map fun e => (e, e.path)) = w := ⟨_, rfl⟩
  have hrd : Ready noFiles ((archive.entries.map name).map components) := ⟨fun _ _ _ _ => .inl rfl, fun _ _ => .inl rfl⟩
  obtain ⟨hb, -, hwr, hok⟩ := writeEntries_between hrd h.separate.apart (fun e he => mem_map_of_mem he) (fun e he => mem_map_of_mem he)
    (.refl _ _ _) hr
  have hplain := h.plain hpl
  obtain rfl := hok (fun _ => rfl) hplain
  have hwr := (hwr rfl).2 (h.separate.agree hplain)
  refine ⟨t, ?_, hwr, ?_, ?_, ?_, ?_⟩
  · simp only [restoreTo, hval, hps, zip_paths, hr]
  · intro c hc name hnm bytes hstd
    have he := (h.mem_iff _).mpr ⟨h.categories ▸ hc, .stored hnm hstd⟩
    have hpath := (collectedNames_path c name hnm).2.1
    exact hpath ▸ hwr _ he
  · intro hs bytes hread
    obtain ⟨value, hv⟩ := h.profiles (h.categories ▸ hs) bytes hread
    exact ⟨value, hv, hwr _ ((h.mem_iff _).mpr ⟨h.categories ▸ hs, .ssh hread hv⟩)⟩
  · intro hfon listing hl f hf
    have hp := hpl (h.categories ▸ hfon) listing hl f hf
    have hleg := legal_of_mem_files (dir.wellNamed _ hl) hf
    have he := (h.mem_iff _).mpr ⟨h.categories ▸ hfon, .font hl hf⟩
    exact ⟨f.1.map lossy, map_ofText_map_lossy hp, components_fontName hp hleg ▸ hwr _ he⟩
  · intro p node hn
    by_cases hp : p ∈ (archive.entries.map name).map components
    · rw [map_path] at hp
      obtain ⟨e, he, rfl⟩ := mem_map.mp hp
      rw [hwr e he] at hn
      exact .inr ⟨e, he, rfl, (Option.some.inj hn).symm⟩
    · rcases hb.other p fun hw => hp (h.separate.apart.subset hw) with heq | ⟨-, hd, -⟩
      · rw [heq] at hn
        cases hn
      · rw [hd] at hn
        exact .inl (Option.some.inj hn).symm

/-! ### The round trip -/

variable [Cipher] [SerdeJson BackupArchive]

omit [JsonWriter] in
theorem sealArchive_openArchive (hv : validateArchive archive = .ok ()) {drawn : Option Drawn} {passphrase : Text} {packet : Bytes}
    (hpk : encryptJson drawn archive passphrase = .ok packet) :
    sealArchive drawn archive passphrase = .ok packet ∧ openArchive packet passphrase = .ok archive := by
  constructor
  · simp only [sealArchive, if_neg (length_of_encryptJson hpk), hv, hpk, Except.mapError]
  · simp only [openArchive, decryptJson_encryptJson hpk, hv]

/-- **Collecting, sealing, opening and restoring.** -/
theorem collect_restore (hcollect : collectFrom dir selection = .ok archive)
    (hplain : .fonts ∈ selection.categories → PlainFonts dir) (other : BackupArchive) :
    (validateArchive archive = .ok () ↔ WellFormed dir selection.categories) ∧
      (WellFormed dir selection.categories →
        (∀ drawn passphrase packet, encryptJson drawn archive passphrase = .ok packet →
          sealArchive drawn archive passphrase = .ok packet ∧ openArchive packet passphrase = .ok archive) ∧
        ∃ t, restoreTo .sound noFiles archive = (t, .ok ()) ∧ Recreated dir archive t) ∧
      (validateArchive other = .ok () → (∀ e ∈ other.entries, Below e.path) ∧
        other.entries.Pairwise fun e e' => Spelled e.name → Spelled e'.name → e.path ≠ e'.path) := by
  have hcol := collectFrom_eq_ok hcollect hplain
  have hiff := hcol.validate_iff hplain
  refine ⟨hiff, fun hw => ⟨fun drawn passphrase packet hpk => ?_, ?_⟩, paths_of_validateArchive⟩
  · exact sealArchive_openArchive (hiff.mpr hw) hpk
  · exact hcol.restore (hiff.mpr hw) hplain

end

/-! ### Two data directories -/

/-- A reader of empty objects. -/
@[reducible] def emptyObjects : JsonText Bytes := ⟨fun _ => [123, 125], fun bytes => if bytes = [123, 125] then some (.object []) else none⟩

theorem emptyObjects_eq_some {bytes : Bytes} {value : Json} (h : emptyObjects.fromSlice bytes = some value) : value = .object [] := by
  change (if bytes = [123, 125] then some (.object []) else none) = some value at h
  split at h
  · exact (Option.some.inj h).symm
  · cases h

@[reducible] def emptyObjectsWriter : @JsonWriter emptyObjects :=
  @JsonWriter.mk emptyObjects (fun _ => [123, 125])
    (by
      intro bytes value members hvalue hpart
      obtain rfl := emptyObjects_eq_some hvalue
      cases hpart with
      | self => exact List.nodup_nil
      | member hm _ => cases hm)
    (by
      intro bytes value w hvalue hless
      obtain rfl := emptyObjects_eq_some hvalue
      refine ⟨.object [], rfl, ?_⟩
      cases hless with
      | refl => exact .refl _
      | object hkept hkeys _ =>
        obtain rfl := List.subperm_nil.mp hkept
        obtain rfl := List.map_eq_nil_iff.mp hkeys
        exact .refl _)

/-- Settings under their name of before, with a host in them, profiles, and a font in a directory. -/
def someFiles : DataDirectory where
  read name :=
    if name = "nebula_settings.txt".toList then .bytes ("theme=dark\nsaved_hosts=a\nopacity=1\n".toList.map fun c => .ofNat c.toNat)
    else if name = "terminal_profiles.json".toList ∨ name = "ssh_profiles.json".toList then .bytes [123, 125]
    else .notFound
  fonts := .directory (.dir (.ofText ['a']) (.leaf (.ofText ['b']) (.file ⟨[1], 0o644⟩) .nil) .nil)
  wellNamed := by
    rintro entries heq
    obtain rfl := Fonts.directory.inj heq
    have ha : LegalName (.ofText ['a']) := by simp [LegalName, Name.ofText]
    have hb : LegalName (.ofText ['b']) := by simp [LegalName, Name.ofText]
    exact ⟨ha, not_false, ⟨hb, not_false, trivial⟩, trivial⟩

def someArchive : BackupArchive :=
  ⟨1, everything.categories,
    [⟨.appearance, "pebrel_settings.txt".toList, "theme=dark\nopacity=1".toList.map fun c => .ofNat c.toNat⟩,
      ⟨.config, "terminal_profiles.json".toList, [123, 125]⟩, ⟨.ssh, "ssh_profiles.json".toList, [123, 125]⟩,
      ⟨.fonts, "fonts/a/b".toList, [1]⟩]⟩

/-- The archive in a packet, with its header. -/
def somePacket : Bytes := magic ++ replicate 28 0 ++ [0, 1, 2, 3]

theorem collect_restore_someFiles :
    @collectFrom emptyObjects emptyObjectsWriter someFiles everything = .ok someArchive ∧
      (.fonts ∈ everything.categories → PlainFonts someFiles) ∧
      @WellFormed emptyObjects someFiles everything.categories ∧
      (@sealArchive emptyObjects tagging (jsonOf someArchive) (some zeros) someArchive "passphrase".toList = .ok somePacket ∧
        @openArchive emptyObjects tagging (jsonOf someArchive) somePacket "passphrase".toList = .ok someArchive) ∧
      ∃ t, @restoreTo emptyObjects .sound noFiles someArchive = (t, .ok ()) ∧
        @Recreated emptyObjects emptyObjectsWriter someFiles someArchive t := by
  have hcol : @collectFrom emptyObjects emptyObjectsWriter someFiles everything = .ok someArchive := by decide
  have hpl : .fonts ∈ everything.categories → PlainFonts someFiles := by
    intro _ listing heq f hf
    obtain rfl := Fonts.directory.inj heq
    obtain rfl : f = ([.ofText ['a'], .ofText ['b']], [1]) := mem_singleton.mp hf
    unfold PlainPath
    simp [Name.ofText]
  have hw : @WellFormed emptyObjects someFiles everything.categories := by
    refine @WellFormed.mk emptyObjects _ _ (fun _ bytes hrd => ?_) fun _ bytes hrd => nomatch hrd
    obtain rfl := Read.bytes.inj hrd
    rfl
  obtain ⟨hseal, hr⟩ := (@collect_restore emptyObjects emptyObjectsWriter someFiles everything someArchive
    tagging (jsonOf someArchive) hcol hpl someArchive).2.1 hw
  exact ⟨hcol, hpl, hw, hseal (some zeros) "passphrase".toList somePacket rfl, hr⟩

/-- Profiles that are not JSON. -/
def brokenProfiles : DataDirectory where
  read name := if name = "terminal_profiles.json".toList then .bytes [123] else .notFound
  fonts := .missing
  wellNamed := nofun

/-- The profiles that are not JSON are collected, and the archive is not accepted; two names of an archive that is accepted
can be those of one path. -/
theorem collected_not_accepted :
    (∃ archive, @collectFrom emptyObjects emptyObjectsWriter brokenProfiles everything = .ok archive ∧
      @validateArchive emptyObjects archive = .error (.notAllowed .config "terminal_profiles.json".toList)) ∧
    (@validateArchive emptyObjects ⟨1, [.fonts], [⟨.fonts, "fonts/a".toList, [1]⟩, ⟨.fonts, "fonts/./a".toList, [2]⟩]⟩ = .ok () ∧
      (⟨.fonts, "fonts/a".toList, [1]⟩ : BackupEntry).path = (⟨.fonts, "fonts/./a".toList, [2]⟩ : BackupEntry).path) :=
  ⟨⟨⟨1, everything.categories, [⟨.config, "terminal_profiles.json".toList, [123]⟩]⟩, by decide, rfl⟩, rfl, by decide⟩

end Pebrel.Backup
