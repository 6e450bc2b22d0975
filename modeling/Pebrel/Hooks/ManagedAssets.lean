import Pebrel.Hooks.ManagedKept
import Pebrel.Hooks.SkillKept

/-!
# Managed assets across crashes

Installs of one version after another may each be cut off. Between the writes of a content and
of its marker, the file is recognised by an install of the same content only; any other one is
refused from then on. Where the next install is of what was begun, none is refused, one that is
not cut off leaves its version, and a removal takes it away. Whatever else is edited, nothing is
overwritten or deleted that was not written here, as long as nobody writes the markers
(`managed_assets_recognised`).
-/

namespace Pebrel.Hooks

open Library Transition Option
open Managed (install remove step)

variable {digest : Bytes → Bytes}

namespace Managed

variable {released : List Text} {files files' : Files} {as : List Action} {ours : Set Bytes}

/-- Nobody edits the files, what was begun is continued, and each version knows the releases. -/
def Undisturbed (released : List Text) (files : Files) : Action → Prop
  | .install legacyHashes content _ => released ⊆ legacyHashes ∧ Continues files content
  | .remove _ _ _ => False
  | .edit _ _ => False

/-- The contents are ours, and nobody writes the markers. -/
def Apart (ours : Set Bytes) (_ : Files) : Action → Prop
  | .install _ content _ => content ∈ ours
  | .remove _ content _ => content ∈ ours
  | .edit file content => file = .path ∨ file = .legacy ∨ content = none

theorem Recognised.step {a : Action} (h : Recognised digest released files) (ha : Undisturbed released files a)
    (hst : step digest files a = some files') : Recognised digest released files' := by
  cases a with
  | install legacyHashes content cut =>
    cases hst
    rcases (install_recognised h ha.1 ha.2).run rfl cut with ⟨_, -, -, hinst⟩ | ⟨-, hrecg, -⟩
    · exact hinst.recognised
    · exact hrecg
  | remove legacyHashes content cut => exact ha.elim
  | edit file content => exact ha.elim

/-- The content is installed, unless the program is cut off, and can be removed. -/
def Installs (digest : Bytes → Bytes) (legacyHashes : List Text) (content : Bytes) (cut : Option ℕ) (files : Files) : Prop :=
  ((install digest legacyHashes content).run cut files).2 ≠ some .conflict ∧
    (cut = none → ((install digest legacyHashes content).run cut files).2 ≠ none ∧
      Installed digest content ((install digest legacyHashes content).run cut files).1 ∧
      ((remove digest legacyHashes content).run none ((install digest legacyHashes content).run cut files).1).2 = some (.done true) ∧
      ∀ file, file ≠ .legacyMarker →
        ((remove digest legacyHashes content).run none ((install digest legacyHashes content).run cut files).1).1.get file = none)

theorem installs (hi : Initial digest released files) (hm : Meets (step digest) (Undisturbed released) files as)
    (hrun : run (step digest) files as = some files') (legacyHashes : List Text) (hk : released ⊆ legacyHashes)
    (content : Bytes) (cut : Option ℕ) (hct : Continues files' content) : Installs digest legacyHashes content cut files' := by
  have hrecg : Recognised digest released files' :=
    (along_of_meets _ (P := Recognised digest released) (fun _ => id) (fun _ _ _ h ha => h.step ha) hi.recognised hm).last hrun
  rcases (install_recognised hrecg hk hct).run rfl cut with ⟨reply, hr, hne, hinst⟩ | ⟨hn, -, hc⟩
  · refine ⟨fun h => hne (some.inj (hr.symm.trans h)), fun _ => ⟨hr ▸ some_ne_none reply, hinst, ?_⟩⟩
    have hspec : Cut.Spec _ (remove digest legacyHashes content) _ _ := remove_installed hinst
    rcases hspec.run rfl none with ⟨_, hrm, rfl, hp, hl, hmk⟩ | ⟨-, -, hf⟩
    · refine ⟨hrm, fun file hfile => ?_⟩
      cases file with
      | path => exact hp
      | legacy => exact hl
      | marker => exact hmk
      | legacyMarker => exact absurd rfl hfile
    · exact absurd rfl hf
  · exact ⟨hn ▸ nofun, fun h => absurd h hc⟩

theorem Marked.step {a : Action} (h : Marked digest ours files) (hd : Distinguishes digest ours) (ha : Apart ours files a)
    (hst : step digest files a = some files') : Marked digest ours files' := by
  cases a with
  | install legacyHashes content cut =>
    cases hst
    exact (h.install hd ha cut).1
  | remove legacyHashes content cut =>
    cases hst
    exact (h.remove hd ha cut).1
  | edit file content =>
    cases hst
    cases file with
    | path => exact ⟨h.marker, h.legacyMarker⟩
    | legacy => exact ⟨h.marker, h.legacyMarker⟩
    | marker =>
      obtain rfl : content = none := ha.elim nofun (Or.elim · nofun id)
      exact ⟨fun _ => nofun, h.legacyMarker⟩
    | legacyMarker => exact ⟨h.marker, ha.elim nofun (Or.elim · nofun id)⟩

end Managed

namespace Skill

variable {s s' : Skills} {as : List Action} {ours : Set Version}

/-- Nobody edits the directories, and what was begun is continued. -/
def Undisturbed (ours : Set Version) (s : Skills) : Action → Prop
  | .ensure v _ => v ∈ ours ∧ Continues s v
  | .remove _ => False
  | .edit _ _ => False

/-- The versions are ours, and nobody writes the markers. -/
def Apart (ours : Set Version) (s : Skills) : Action → Prop
  | .ensure v _ => v ∈ ours
  | .remove _ => True
  | .edit place d => ∀ f, f = .marker ∨ f = .oldMarker → (d.bind fun d => d.file f) = none ∨ (d.bind fun d => d.file f) = s.file place f

theorem Recognised.step {a : Action} (h : Recognised digest s) (hours : Tells digest ours) (ha : Undisturbed ours s a)
    (hst : step digest s a = some s') : Recognised digest s' := by
  cases a with
  | ensure v cut =>
    cases hst
    rcases (ensure_recognised hours ha.1 h ha.2).run rfl cut with ⟨_, -, -, hinst⟩ | ⟨-, hrecg, -⟩
    · exact hinst.recognised
    · exact hrecg
  | remove cut => exact ha.elim
  | edit place d => exact ha.elim

/-- The version is installed, unless the program is cut off, and can be removed. -/
def Installs (digest : Bytes → Bytes) (v : Version) (cut : Option ℕ) (s : Skills) : Prop :=
  ((ensureRuntimeSkill digest v).run cut s).2 ≠ some .conflict ∧
    (cut = none → ((ensureRuntimeSkill digest v).run cut s).2 ≠ none ∧ Installed digest v ((ensureRuntimeSkill digest v).run cut s).1 ∧
      ((removeRuntimeSkill digest).run none ((ensureRuntimeSkill digest v).run cut s).1).2 = some .removed ∧
      ∀ f, f ≠ .oldMarker → ((removeRuntimeSkill digest).run none ((ensureRuntimeSkill digest v).run cut s).1).1.file .dir f = none)

theorem installs (hours : Tells digest ours) (hi : Initial digest s) (hm : Meets (step digest) (Undisturbed ours) s as)
    (hrun : run (step digest) s as = some s') (v : Version) (cut : Option ℕ) (hv : v ∈ ours) (hct : Continues s' v) :
    Installs digest v cut s' := by
  have hrecg : Recognised digest s' :=
    (along_of_meets _ (P := Recognised digest) (fun _ => id) (fun _ _ _ h ha => h.step hours ha) hi.recognised hm).last hrun
  rcases (ensure_recognised hours hv hrecg hct).run rfl cut with ⟨reply, hr, hne, hinst⟩ | ⟨hn, -, hc⟩
  · refine ⟨fun h => hne (some.inj (hr.symm.trans h)), fun _ => ⟨hr ▸ some_ne_none reply, hinst, ?_⟩⟩
    rcases (remove_installed hinst).run rfl none with ⟨_, hrm, rfl, hsk, hmeta, hmk, -⟩ | ⟨-, -, hfal⟩
    · refine ⟨hrm, fun f hf => ?_⟩
      cases f with
      | skill => exact hsk
      | metadata => exact hmeta
      | marker => exact hmk
      | oldMarker => exact absurd rfl hf
    · exact absurd rfl hfal
  · exact ⟨hn ▸ nofun, fun h => absurd h hc⟩

theorem Marked.step {a : Action} (h : Marked digest ours s) (hours : Tells digest ours) (ha : Apart ours s a)
    (hst : step digest s a = some s') : Marked digest ours s' ∧ ((∀ place d, a ≠ .edit place d) → Spares digest ours s s') := by
  cases a with
  | ensure v cut =>
    cases hst
    rcases (h.ensure_spec hours ha).run rfl cut with ⟨_, -, hm, hs⟩ | ⟨-, ⟨hm, hs⟩, -⟩
    · exact ⟨hm, fun _ => hs⟩
    · exact ⟨hm, fun _ => hs⟩
  | remove cut =>
    cases hst
    rcases (h.remove_spec hours).run rfl cut with ⟨_, -, hm, hs⟩ | ⟨-, ⟨hm, hs⟩, -⟩
    · exact ⟨hm, fun _ => hs⟩
    · exact ⟨hm, fun _ => hs⟩
  | edit place d =>
    cases hst
    refine ⟨fun place' f hf content hfile => ?_, fun hne => absurd rfl (hne place d)⟩
    have hset : (s.set d place).file place' f = some content := hfile
    rw [Skills.file] at hset
    by_cases hpl : place' = place
    · subst hpl
      rw [get_set_self] at hset
      rcases ha f hf with hn | hsm
      · cases hn.symm.trans hset
      · exact h place' f hf content (hsm.symm.trans hset)
    · rw [get_set_of_ne _ hpl] at hset
      exact h place' f hf content hset

end Skill

/-- What is kept of the files of an integration. Without an editor: in every run of installs,
each of which continues what was begun and knows the releases that were there, an install that
does so is not refused, and one that is not cut off leaves exactly its content, which a removal
takes away. With an editor that leaves the markers alone: an install or a removal, cut off or
not, overwrites and deletes only what was written here. -/
def ManagedKept (digest : Bytes → Bytes) (ours : Set Bytes) : Prop :=
  ∀ (files : Managed.Files) (as : List Managed.Action) (files' : Managed.Files), run (step digest) files as = some files' →
    (∀ released, Managed.Initial digest released files → Meets (step digest) (Managed.Undisturbed released) files as →
      ∀ legacyHashes, released ⊆ legacyHashes → ∀ content cut, Managed.Continues files' content →
        Managed.Installs digest legacyHashes content cut files') ∧
    (Managed.Marked digest ours files → Meets (step digest) (Managed.Apart ours) files as →
      ∀ legacyHashes, ∀ content ∈ ours, ∀ cut,
        Managed.Spares digest legacyHashes ours files' ((install digest legacyHashes content).run cut files').1 ∧
        Managed.Spares digest legacyHashes ours files' ((remove digest legacyHashes content).run cut files').1)

/-- The same of the directories of the skill. -/
def SkillKept (digest : Bytes → Bytes) (ours : Set Skill.Version) : Prop :=
  ∀ (s : Skill.Skills) (as : List Skill.Action) (s' : Skill.Skills), run (Skill.step digest) s as = some s' →
    (Skill.Initial digest s → Meets (Skill.step digest) (Skill.Undisturbed ours) s as →
      ∀ v ∈ ours, ∀ cut, Skill.Continues s' v →
        Skill.Installs digest v cut s') ∧
    (Skill.Marked digest ours s → Meets (Skill.step digest) (Skill.Apart ours) s as →
      ∀ a, Skill.Apart ours s' a → (∀ place d, a ≠ .edit place d) → ∀ after,
        Skill.step digest s' a = some after → Skill.Spares digest ours s' after)

/-- **Managed assets stay recognised**, in every run in which an install that was cut off
between the content and its marker is followed by one of the same content, and nobody else
writes the markers. -/
theorem managed_assets_recognised (contents : Set Bytes) (versions : Set Skill.Version)
    (hcontents : Distinguishes digest contents) (hversions : Skill.Tells digest versions) :
    ManagedKept digest contents ∧ SkillKept digest versions := by
  refine ⟨fun files as files' hrun => ⟨fun _ hini hm => Managed.installs hini hm hrun, fun hmkd hm _ content hc cut => ?_⟩,
    fun s as s' hrun => ⟨fun hini hm v hv cut => Skill.installs hversions hini hm hrun v cut hv, fun hmkd hm a ha hne after hst => ?_⟩⟩
  · have hmkd' : Managed.Marked digest contents files' :=
      (along_of_meets _ (P := Managed.Marked digest contents) (fun _ => id)
      (fun _ _ _ h ha hst => h.step hcontents ha hst) hmkd hm).last hrun
    exact ⟨(hmkd'.install hcontents hc cut).2, (hmkd'.remove hcontents hc cut).2⟩
  · have hmkd' : Skill.Marked digest versions s' :=
      (along_of_meets _ (P := Skill.Marked digest versions) (fun _ => id)
      (fun _ _ _ h ha hst => (h.step hversions ha hst).1) hmkd hm).last hrun
    exact (hmkd'.step hversions ha hst).2 hne

/-- The digests of the three contents and of the two texts that are used below. -/
def sampleDigest (content : Bytes) : Bytes :=
  if content = [49] then
    [107, 134, 178, 115, 255, 52, 252, 225, 157, 107, 128, 78, 255, 90, 63, 87, 71, 173, 164, 234, 162, 47, 29, 73,
    192, 30, 82, 221, 183, 135, 91, 75]
  else if content = [50] then
    [212, 115, 94, 58, 38, 94, 22, 238, 224, 63, 89, 113, 139, 155, 93, 3, 1, 156, 7, 216, 182, 197, 31, 144, 218, 58,
    102, 110, 236, 19, 171, 53]
  else if content = [51] then
    [78, 7, 64, 133, 98, 190, 219, 139, 96, 206, 5, 193, 222, 207, 227, 173, 22, 183, 34, 48, 150, 125, 224, 31, 100,
    11, 126, 71, 41, 180, 159, 206]
  else if content = [115, 0, 109] then
    [30, 83, 233, 132, 182, 62, 56, 151, 176, 195, 76, 228, 204, 160, 105, 162, 5, 115, 129, 181, 222, 244, 254, 83,
    67, 216, 249, 46, 97, 50, 109, 162]
  else []

theorem sampleDigest_cases (a : Bytes) : a = [49] ∨ a = [50] ∨ a = [51] ∨ a = [115, 0, 109] ∨ sampleDigest a = [] := by
  by_cases h1 : a = [49]
  · exact .inl h1
  by_cases h2 : a = [50]
  · exact .inr (.inl h2)
  by_cases h3 : a = [51]
  · exact .inr (.inr (.inl h3))
  by_cases h4 : a = [115, 0, 109]
  · exact .inr (.inr (.inr (.inl h4)))
  · refine .inr (.inr (.inr (.inr ?_)))
    rw [sampleDigest, if_neg h1, if_neg h2, if_neg h3, if_neg h4]

def sampleVersion : Skill.Version := ⟨[115], [109], by decide, by decide⟩

def noFiles : Managed.Files := ⟨none, none, none, none, none⟩

/-- An install of the second version is cut off before its marker, and is done again; and so is the first one of the skill. -/
theorem managed_assets_recognised_sample :
    ((install sampleDigest [] [50]).run none
      ((install sampleDigest [] [50]).run (some 1) ((install sampleDigest [] [49]).run none noFiles).1).1).2 ≠ some .conflict ∧
    ((Skill.ensureRuntimeSkill sampleDigest sampleVersion).run none
      ((Skill.ensureRuntimeSkill sampleDigest sampleVersion).run (some 1) ⟨none, none, none⟩).1).2 ≠ some .conflict := by
  have hcons : Distinguishes sampleDigest {[49], [50], [51]} := by
    intro a b hb heq
    rcases hb with rfl | rfl | rfl
    all_goals
      rcases sampleDigest_cases a with rfl | rfl | rfl | rfl | hn
      all_goals first | rfl | exact absurd heq (by decide) | exact absurd (hn.symm.trans heq) (by decide)
  have hver : Skill.Tells sampleDigest {sampleVersion} := by
    rintro a b ⟨v, rfl, rfl⟩ heq
    rcases sampleDigest_cases a with rfl | rfl | rfl | rfl | hn
    all_goals first | rfl | exact absurd heq (by decide) | exact absurd (hn.symm.trans heq) (by decide)
  obtain ⟨h, hskill⟩ := managed_assets_recognised _ _ hcons hver
  constructor
  · refine ((h noFiles [.install [] [49] none, .install [] [50] (some 1)] _ rfl).1 [] ⟨nofun, nofun, rfl, rfl, rfl⟩
      ⟨?_, ?_⟩ [] (fun _ => id) [50] none ?_).1
    · exact ⟨fun _ => id, fun _ => nofun⟩
    · rintro _ ⟨⟩
      exact ⟨⟨fun _ => id, show Managed.Continues _ _ by decide⟩, fun _ _ => trivial⟩
    · decide
  · refine ((hskill ⟨none, none, none⟩ [.ensure sampleVersion (some 1)] _ rfl).1 ⟨nofun, nofun, rfl⟩ ⟨?_, ?_⟩ sampleVersion rfl none ?_).1
    · exact ⟨rfl, fun _ => nofun⟩
    · exact fun _ _ => trivial
    · rintro _ ⟨⟩
      exact ⟨rfl, .inl rfl⟩

/-- An install of the second version is cut off before its marker: the third one is refused. -/
theorem interrupted_upgrade_conflicts :
    ((install sampleDigest [] [51]).run none
      ((install sampleDigest [] [50]).run (some 1) ((install sampleDigest [] [49]).run none noFiles).1).1).2 = some .conflict := by
  decide

end Pebrel.Hooks
