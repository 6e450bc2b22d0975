import Pebrel.Hooks.RuntimeSkill

/-!
# What the runtime skill keeps

As long as nobody else edits it, the directory is recognised (`Recognised`): by its marker, or
as begun. An install that continues what was begun is not refused, and leaves the skill
installed (`ensure_recognised`); what is installed can be removed (`remove_installed`). Whatever
is edited but the markers, nothing is overwritten or deleted that was not written here
(`Marked.ensure_spec`, `Marked.remove_spec`).
-/

namespace Pebrel.Hooks.Skill

open Library List Option Text

variable {digest : Bytes → Bytes} {s s₀ s₁ : Skills} {v : Version} {place place' : Place} {f f' : SkillFile} {content : Bytes}

/-! ### Files and directories -/

@[simp] theorem get_set_self (s : Skills) (d : Option SkillDir) (place : Place) : (s.set d place).get place = d := by cases place <;> rfl

theorem get_set_of_ne (d : Option SkillDir) (h : place' ≠ place) : (s.set d place).get place' = s.get place' := by
  cases place <;> cases place'
  · exact absurd rfl h
  · rfl
  · rfl
  · exact absurd rfl h

theorem file_write (d : SkillDir) : (d.write content f).file f' = if f' = f then some content else d.file f' := by
  cases f <;> cases f' <;> rfl

theorem file_delete (d : SkillDir) : (d.delete f).file f' = if f' = f then none else d.file f' := by
  cases f <;> cases f' <;> first | rfl | (cases h : d.agents <;> simp [SkillDir.file, SkillDir.delete, h])

theorem file_new : SkillDir.new.file f = none := by cases f <;> rfl

theorem file_put : (s.put place f content).file place' f' = if place' = place ∧ f' = f then some content else s.file place' f' := by
  rw [Skills.put, Skills.file, Skills.file]
  by_cases hpl : place' = place
  · subst hpl
    rw [get_set_self, bind_some, file_write]
    by_cases hf : f' = f
    · rw [if_pos hf, if_pos ⟨rfl, hf⟩]
    rw [if_neg hf, if_neg fun h => hf h.2]
    cases s.get place' with
    | none => exact file_new
    | some d => rfl
  · rw [get_set_of_ne _ hpl, if_neg fun h => hpl h.1]

theorem file_put_self (s : Skills) (place : Place) (f : SkillFile) (content : Bytes) : (s.put place f content).file place f = some content :=
  file_put.trans (if_pos ⟨rfl, rfl⟩)

theorem file_deleted : (s.delete place f).file place' f' = if place' = place ∧ f' = f then none else s.file place' f' := by
  rw [Skills.delete, Skills.file, Skills.file]
  by_cases hpl : place' = place
  · subst hpl
    rw [get_set_self, bind_map]
    cases s.get place' with
    | none => exact (ite_self _).symm
    | some d =>
      change (d.delete f).file f' = _
      rw [file_delete]
      by_cases hf : f' = f
      · rw [if_pos hf, if_pos ⟨rfl, hf⟩]
      · rw [if_neg hf, if_neg fun h => hf h.2]
        rfl
  · rw [get_set_of_ne _ hpl, if_neg fun h => hpl h.1]

/-- The other files of a directory. -/
def SkillDir.rest (d : SkillDir) : List Bytes := d.others ++ (d.agents.map AgentsDir.others).getD []

def Skills.rest (s : Skills) (place : Place) : List Bytes := ((s.get place).map SkillDir.rest).getD []

theorem rest_set {d : Option SkillDir} (h : (d.map SkillDir.rest).getD [] = s.rest place) : (s.set d place).rest place' = s.rest place' := by
  by_cases hpl : place' = place
  · rw [Skills.rest, hpl, get_set_self, h]
  · rw [Skills.rest, get_set_of_ne _ hpl, Skills.rest]

theorem rest_put (s : Skills) (place : Place) (f : SkillFile) (content : Bytes) (place' : Place) :
    (s.put place f content).rest place' = s.rest place' := by
  refine rest_set ?_
  rw [Skills.rest]
  cases s.get place with
  | none => cases f <;> rfl
  | some d => cases f <;> rfl

theorem rest_delete (s : Skills) (place : Place) (f : SkillFile) (place' : Place) : (s.delete place f).rest place' = s.rest place' := by
  refine rest_set ?_
  rw [Skills.rest]
  cases s.get place with
  | none => rfl
  | some d =>
    cases f with
    | metadata => cases ha : d.agents <;> simp [SkillDir.rest, SkillDir.delete, ha]
    | skill => rfl
    | marker => rfl
    | oldMarker => rfl

/-! ### What is recognised -/

theorem readSkillMarker_eq {t : Text} (h : markerValue (s.file place .marker) = some t) : readSkillMarker s place = some t := by
  rw [markerValue] at h
  rw [readSkillMarker]
  cases hrd : (s.file place .marker).bind readToString with
  | none => cases (hrd ▸ h : (none : Option Text).map trim = some t)
  | some u => rw [← h, hrd, some_or]

theorem readSkillFingerprint_eq {skill metadata : Bytes} (hsk : s.file place .skill = some skill)
    (hmeta : s.file place .metadata = some metadata) :
    readSkillFingerprint digest s place = some (skillFingerprint digest skill metadata) := by
  rw [readSkillFingerprint, hsk, hmeta]
  rfl

theorem readSkillFingerprint_eq_some {t : Text} (h : readSkillFingerprint digest s place = some t) :
    ∃ skill metadata, s.file place .skill = some skill ∧ s.file place .metadata = some metadata ∧
      t = skillFingerprint digest skill metadata := by
  obtain ⟨skill, hsk, h⟩ := bind_eq_some_iff.mp h
  obtain ⟨metadata, hmeta, rfl⟩ := map_eq_some_iff.mp h
  exact ⟨skill, metadata, hsk, hmeta, rfl⟩

theorem owned_iff : owned digest s place = true ↔ ∃ t, readSkillFingerprint digest s place = some t ∧ readSkillMarker s place = some t := by
  rw [owned, Bool.and_eq_true, decide_eq_true_eq, isSome_iff_exists]
  constructor
  · rintro ⟨⟨t, ht⟩, heq⟩
    exact ⟨t, ht, heq.symm.trans ht⟩
  · rintro ⟨t, ht, hmk⟩
    exact ⟨⟨t, ht⟩, ht.trans hmk.symm⟩

/-- The bytes that are digested. -/
def Version.bytes (v : Version) : Bytes := v.skill ++ 0 :: v.metadata

theorem append_zero_inj {a b : Bytes} (h : a ++ 0 :: b = v.bytes) : a = v.skill ∧ b = v.metadata := by
  rcases append_eq_append_iff.mp h with ⟨c, hsk, hb⟩ | ⟨c, rfl, hb⟩
  · cases c with
    | nil => exact ⟨(append_nil a ▸ hsk).symm, (cons_eq_cons.mp hb).2⟩
    | cons x c =>
      obtain ⟨rfl, -⟩ := cons_eq_cons.mp hb
      exact absurd (hsk ▸ mem_append_right _ mem_cons_self) v.skill_text
  · cases c with
    | nil => exact ⟨append_nil _, (cons_eq_cons.mp hb).2.symm⟩
    | cons x c =>
      obtain ⟨rfl, hmeta⟩ := cons_eq_cons.mp hb
      exact absurd (hmeta ▸ mem_append_right _ mem_cons_self) v.metadata_text

/-- Of the versions, each is told from all other texts by its digest. -/
def Tells (digest : Bytes → Bytes) (ours : Set Version) : Prop := Distinguishes digest {b | ∃ v ∈ ours, v.bytes = b}

variable {ours : Set Version}

theorem Tells.eq (h : Tells digest ours) (hv : v ∈ ours) {skill metadata : Bytes}
    (heq : skillFingerprint digest skill metadata = v.fingerprint digest) : skill = v.skill ∧ metadata = v.metadata :=
  append_zero_inj (Distinguishes.eq h ⟨v, hv, rfl⟩ heq)

/-! ### Removal -/

/-- What a removal at a place may have done: some files are gone, others certainly, and nothing else is changed. -/
structure Shrunk (place : Place) (s₀ : Skills) (gone : List SkillFile) (s : Skills) : Prop where
  file : ∀ place' f, s.file place' f = s₀.file place' f ∨ place' = place ∧ s.file place' f = none
  gone : ∀ f ∈ gone, s.file place f = none
  rest : ∀ place', s.rest place' = s₀.rest place'
  other : ∀ place', place' ≠ place → s.get place' = s₀.get place'

variable {gone : List SkillFile}

theorem Shrunk.refl : Shrunk place s [] s := ⟨fun _ _ => .inl rfl, nofun, fun _ => rfl, fun _ _ => rfl⟩

theorem Shrunk.deleted (h : Shrunk place s₀ gone s) (f : SkillFile) : Shrunk place s₀ (f :: gone) (s.delete place f) where
  file place' f' := by
    rw [file_deleted]
    split
    · rename_i heq
      exact .inr ⟨heq.1, rfl⟩
    · exact h.file place' f'
  gone f' hf' := by
    rw [file_deleted]
    split
    · rfl
    rename_i hne
    rcases mem_cons.mp hf' with rfl | hf'
    · exact absurd ⟨rfl, rfl⟩ hne
    · exact h.gone f' hf'
  rest place' := (rest_delete s place f place').trans (h.rest place')
  other place' hne := (get_set_of_ne _ hne).trans (h.other place' hne)

/-- A directory may be set to one with the same files. -/
theorem Shrunk.set (h : Shrunk place s₀ gone s) {d : Option SkillDir} (hfile : ∀ f, (d.bind fun d => d.file f) = s.file place f)
    (hrest : ∀ place', (s.set d place).rest place' = s.rest place') : Shrunk place s₀ gone (s.set d place) := by
  have hsm (place' : Place) (f : SkillFile) : (s.set d place).file place' f = s.file place' f := by
    by_cases hpl : place' = place
    · rw [hpl, Skills.file, get_set_self, hfile]
    · rw [Skills.file, get_set_of_ne _ hpl, Skills.file]
  exact ⟨fun place' f => hsm place' f ▸ h.file place' f, fun f hf => (hsm place f).trans (h.gone f hf),
    fun place' => (hrest place').trans (h.rest place'), fun place' hne => (get_set_of_ne _ hne).trans (h.other place' hne)⟩

/-- Of a directory that is taken away, no file is left. -/
theorem Shrunk.agents_removed (h : Shrunk place s₀ gone s) (he : (s.get place).bind SkillDir.agents = some ⟨none, []⟩) :
    Shrunk place s₀ gone (s.set ((s.get place).map fun d => { d with agents := none }) place) := by
  obtain ⟨d, hd, ha⟩ := bind_eq_some_iff.mp he
  refine h.set (fun f => ?_) fun place' => rest_set ?_
  · rw [hd, map_some, bind_some, Skills.file, hd, bind_some]
    cases f with
    | metadata => rw [SkillDir.file, SkillDir.file, ha]; rfl
    | skill => rfl
    | marker => rfl
    | oldMarker => rfl
  · rw [hd, Skills.rest, hd]
    simp [SkillDir.rest, ha]

theorem Shrunk.removed (h : Shrunk place s₀ gone s) (he : s.get place = some .new) : Shrunk place s₀ gone (s.set none place) := by
  refine h.set (fun f => ?_) fun place' => rest_set ?_
  · rw [Skills.file, he, bind_some, file_new, bind_none]
  · rw [Skills.rest, he]
    rfl

/-- The file is gone after that. -/
theorem removeFile_spec (place : Place) (f : SkillFile) :
    Cut.Spec (Shrunk place s₀ gone) (removeFile place f) (fun _ => Shrunk place s₀ (f :: gone))
      (fun s => ∃ gone, Shrunk place s₀ gone s) := by
  refine .look_bind fun s h => ?_
  split
  · refine .write ?_ ?_
    · rintro _ rfl
      exact ⟨gone, h⟩
    · rintro _ rfl
      exact h.deleted f
  · rename_i hn
    refine .pure ?_
    rintro _ rfl
    refine ⟨h.file, fun f' hf' => ?_, h.rest, h.other⟩
    rcases mem_cons.mp hf' with rfl | hf'
    · exact not_isSome_iff_eq_none.mp hn
    · exact h.gone f' hf'

/-- A marker that has the value is gone after that. -/
theorem removeMarker_spec (place : Place) (f : SkillFile) (marker : Text) : Cut.Spec (Shrunk place s₀ gone) (removeMarker place f marker s₁)
      (fun _ => Shrunk place s₀ (if markerValue (s₁.file place f) = some marker then f :: gone else gone))
      (fun s => ∃ gone, Shrunk place s₀ gone s) := by
  rw [removeMarker]
  split
  · exact removeFile_spec place f
  · exact .pure fun _ => id

theorem removeAgentsDir_spec (place : Place) :
    Cut.Spec (Shrunk place s₀ gone) (removeAgentsDir place) (fun _ => Shrunk place s₀ gone) (fun s => ∃ gone, Shrunk place s₀ gone s) := by
  refine .look_bind fun s h => ?_
  split
  · rename_i he
    refine .write ?_ ?_
    · rintro _ rfl
      exact ⟨gone, h⟩
    · rintro _ rfl
      exact h.agents_removed he
  · refine .pure ?_
    rintro _ rfl
    exact h

theorem removeDir_spec (place : Place) :
    Cut.Spec (Shrunk place s₀ gone) (removeDir place) (fun _ => Shrunk place s₀ gone) (fun s => ∃ gone, Shrunk place s₀ gone s) := by
  refine .look_bind fun s h => ?_
  split
  · rename_i he
    refine .write ?_ ?_
    · rintro _ rfl
      exact ⟨gone, h⟩
    · rintro _ rfl
      exact h.removed he
  · refine .pure ?_
    rintro _ rfl
    exact h

/-- A removal that is not refused takes the texts away, and the marker that it went by. -/
theorem removeSkillAt_spec (place : Place) (s₀ : Skills) : Cut.Spec (fun s => s = s₀) (removeSkillAt digest place)
      (fun reply s => (∃ gone, Shrunk place s₀ gone s) ∧
        ((reply ≠ .removed ∧ s = s₀ ∧ owned digest s₀ place = false ∧
        (reply = .conflict → readSkillMarker s₀ place ≠ none)) ∨ reply = .removed ∧ owned digest s₀ place = true ∧
          s.file place .skill = none ∧ s.file place .metadata = none ∧
            (markerValue (s₀.file place .marker) = readSkillMarker s₀ place → s.file place .marker = none)))
      (fun s => owned digest s₀ place = true ∧ ∃ gone, Shrunk place s₀ gone s) := by
  refine .look_bind ?_
  rintro s rfl
  have hnot (h : ∀ t, readSkillFingerprint digest s place = some t → readSkillMarker s place ≠ some t) : owned digest s place = false := by
    refine Bool.eq_false_iff.mpr fun ho => ?_
    obtain ⟨t, ht, hmk⟩ := owned_iff.mp ho
    exact h t ht hmk
  split
  · rename_i hn
    refine .pure ?_
    rintro _ rfl
    exact ⟨⟨[], .refl⟩, .inl ⟨nofun, rfl, hnot fun t _ hmk => (nomatch hn.symm.trans hmk), nofun⟩⟩
  · rename_i marker hmk
    split
    · rename_i hne
      refine .pure ?_
      rintro _ rfl
      refine ⟨⟨[], .refl⟩, .inl ⟨nofun, rfl, hnot fun t ht heq => hne ?_, fun _ hn => nomatch hmk.symm.trans hn⟩⟩
      rw [ht, ← heq, hmk]
    · rename_i hfp
      have ho : owned digest s place = true := owned_iff.mpr ⟨marker, not_not.mp hfp, hmk⟩
      refine .conseq (Q := fun reply s' => ∃ gone, Shrunk place s gone s' ∧ reply = .removed ∧ .skill ∈ gone ∧ .metadata ∈ gone ∧
        (markerValue (s.file place .marker) = some marker → .marker ∈ gone)) (E := fun s' => ∃ gone,
        Shrunk place s gone s') (P := Shrunk place s []) ?_ ?_ ?_ ?_
      · refine .bind (removeFile_spec place .skill) fun _ => .bind (removeFile_spec place .metadata) fun _ =>
          .bind (removeMarker_spec place .marker marker) fun _ => .bind (removeMarker_spec place .oldMarker marker) fun _ =>
          .bind (removeAgentsDir_spec place) fun _ => .bind (removeDir_spec place) fun _ => .pure fun s' h => ⟨_, h, rfl, ?_⟩
        split <;> split <;> simp_all
      · rintro _ rfl
        exact .refl
      · rintro reply s' ⟨gone, h, rfl, hsk, hmeta, hm⟩
        refine ⟨⟨gone, h⟩, .inr ⟨rfl, ho, h.gone _ hsk, h.gone _ hmeta, fun heq => h.gone _ (hm ?_)⟩⟩
        exact heq.trans hmk
      · exact fun _ h => ⟨ho, h⟩

/-! ### Without an editor -/

section
variable (digest)

/-- The directory is recognised by its marker, or something of it was begun. -/
structure Recognised (s : Skills) : Prop where
  dir : s.dir ≠ none → owned digest s .dir = true ∨ ∃ begun, s.begun = some begun ∧ s.file .dir .skill = some begun.skill
  legacy : s.legacy ≠ none → s.dir = none ∧ owned digest s .legacy = true
  begun : s.begun ≠ none → owned digest s .dir = false

structure Installed (v : Version) (s : Skills) : Prop where
  skill : s.file .dir .skill = some v.skill
  metadata : s.file .dir .metadata = some v.metadata
  marker : markerValue (s.file .dir .marker) = some (v.fingerprint digest)
  legacy : s.legacy = none
  begun : s.begun = none

end

/-- The text is the one that was begun, and the metadata are missing or those to be installed. -/
def Continues (s : Skills) (v : Version) : Prop :=
  ∀ begun, s.begun = some begun → v.skill = begun.skill ∧ (s.file .dir .metadata = none ∨ s.file .dir .metadata = some v.metadata)

theorem Initial.recognised (h : Initial digest s) : Recognised digest s :=
  ⟨fun hd => .inl (h.dir hd), h.legacy, fun hb => absurd h.begun hb⟩

theorem Installed.owned (h : Installed digest v s) : owned digest s .dir = true :=
  owned_iff.mpr ⟨_, readSkillFingerprint_eq h.skill h.metadata, readSkillMarker_eq h.marker⟩

theorem Installed.recognised (h : Installed digest v s) : Recognised digest s :=
  ⟨fun _ => .inl h.owned, fun hl => absurd h.legacy hl, fun hb => absurd h.begun hb⟩

theorem Recognised.admits (h : Recognised digest s) (hct : Continues s v) : admits digest v s = true := by
  rw [Skill.admits, Bool.or_eq_true, Bool.or_eq_true]
  by_cases hd : s.dir = none
  · refine .inl (.inl ?_)
    have hn (f : SkillFile) : s.file .dir f = none := congrArg (Option.bind · _) hd
    rw [hn, hn]
    rfl
  · rcases h.dir hd with ho | ⟨begun, hb, hsk⟩
    · exact .inl (.inr ho)
    · obtain ⟨heq, hmeta⟩ := hct begun hb
      refine .inr ?_
      rw [hsk, heq, decide_eq_true rfl, Bool.true_and, Bool.or_eq_true, decide_eq_true_eq, isNone_iff_eq_none]
      exact hmeta

/-- A file of the version is written; the text is the version's after that. -/
theorem writeFile_spec {P Q : Skills → Prop} (hP : ∀ s, P s → Recognised digest s)
    (hQ : ∀ s, P s → s.legacy = none ∧ (s.put .dir f content).file .dir .skill = some v.skill ∧
      ∀ begun, Recognised digest { s.put .dir f content with begun := begun } → Q { s.put .dir f content with begun := begun }) :
    Cut.Spec P (writeFile digest v f content) (fun _ => Q) (Recognised digest) := by
  refine .write hP fun s hs => ?_
  obtain ⟨hl, hsk, hQ⟩ := hQ s hs
  refine hQ _ ⟨fun _ => ?_, fun h => absurd hl h, fun hb => ?_⟩
  · by_cases ho : owned digest (s.put .dir f content) .dir = true
    · exact .inl ho
    · have hb : (if owned digest (s.put .dir f content) .dir then none else some v) = some v := if_neg ho
      exact .inr ⟨v, hb, hsk⟩
  · refine Bool.eq_false_iff.mpr fun ho => hb ?_
    exact (if_pos ho : (if owned digest (s.put .dir f content) .dir then none else some v) = none)

/-! #### Installing -/

/-- The text is written, and then the metadata. -/
structure Texts (digest : Bytes → Bytes) (v : Version) (s : Skills) : Prop where
  recognised : Recognised digest s
  legacy : s.legacy = none
  skill : s.file .dir .skill = some v.skill

theorem installed_delete_oldMarker (h : Installed digest v s) : Installed digest v (s.delete .dir .oldMarker) where
  skill := by rw [file_deleted, if_neg (by decide)]; exact h.skill
  metadata := by rw [file_deleted, if_neg (by decide)]; exact h.metadata
  marker := by rw [file_deleted, if_neg (by decide)]; exact h.marker
  legacy := h.legacy
  begun := h.begun

theorem writeVersion_spec (v : Version) (removeOld : Bool) :
    Cut.Spec (fun s => Recognised digest s ∧ s.legacy = none) (writeVersion digest v removeOld)
      (fun reply s => reply = .installed ∧ Installed digest v s) (Recognised digest) := by
  have hsk : Cut.Spec (fun s => Recognised digest s ∧ s.legacy = none) (writeFile digest v .skill v.skill) (fun _ => Texts digest v)
      (Recognised digest) := by
    refine writeFile_spec (fun s h => h.1) fun s h => ⟨h.2, ?_, fun begun hrecg => ⟨hrecg, h.2, ?_⟩⟩
    · exact file_put_self s .dir .skill v.skill
    · exact file_put_self s .dir .skill v.skill
  have hmeta : Cut.Spec (Texts digest v) (writeFile digest v .metadata v.metadata)
      (fun _ s => Texts digest v s ∧ s.file .dir .metadata = some v.metadata) (Recognised digest) := by
    refine writeFile_spec (fun s h => h.recognised) fun s h => ⟨h.legacy, ?_, fun begun hrecg => ⟨⟨hrecg, h.legacy, ?_⟩, ?_⟩⟩
    · rw [file_put, if_neg (by decide)]
      exact h.skill
    · exact file_put.trans ((if_neg (by decide)).trans h.skill)
    · exact file_put_self s .dir .metadata v.metadata
  have hmk : Cut.Spec (fun s => Texts digest v s ∧ s.file .dir .metadata = some v.metadata)
      (writeFile digest v .marker (markerLine (v.fingerprint digest))) (fun _ => Installed digest v) (Recognised digest) := by
    refine (writeFile_spec (Q := fun s => Recognised digest s ∧
      (s.file .dir .skill = some v.skill ∧ s.file .dir .metadata = some v.metadata) ∧
      markerValue (s.file .dir .marker) = some (v.fingerprint digest) ∧ s.legacy = none) (fun s h =>
        h.1.recognised) ?_).conseq (fun _ => id) ?_ fun _ => id
    · intro s h
      have hsk : (s.put .dir .marker (markerLine (v.fingerprint digest))).file .dir .skill = some v.skill :=
        file_put.trans ((if_neg (by decide)).trans h.1.skill)
      refine ⟨h.1.legacy, hsk, fun begun hrecg => ⟨hrecg, ⟨hsk, ?_⟩, ?_, h.1.legacy⟩⟩
      · exact file_put.trans ((if_neg (by decide)).trans h.2)
      · exact (congrArg markerValue (file_put_self s .dir .marker _)).trans (markerValue_markerLine v.bytes)
    · rintro - s ⟨hrecg, ⟨hsk, hmeta⟩, hmk, hl⟩
      refine ⟨hsk, hmeta, hmk, hl, ?_⟩
      have ho : owned digest s .dir = true := owned_iff.mpr ⟨_, readSkillFingerprint_eq hsk hmeta, readSkillMarker_eq hmk⟩
      by_contra hb
      exact nomatch ho.symm.trans (hrecg.begun hb)
  have hold : Cut.Spec (Installed digest v) (removeOldMarker removeOld) (fun _ => Installed digest v) (Recognised digest) := by
    rw [removeOldMarker]
    split
    · refine .look_bind fun s h => ?_
      split
      · refine .write ?_ ?_
        · rintro _ rfl
          exact h.recognised
        · rintro _ rfl
          exact installed_delete_oldMarker h
      · refine .pure ?_
        rintro _ rfl
        exact h
    · exact .pure fun _ => id
  exact .bind hsk fun _ => .bind hmeta fun _ => .bind hmk fun _ => .bind hold fun _ => .pure fun s h => ⟨rfl, h⟩

/-- The directory of the older name becomes the one of the new name. -/
theorem migrate_recognised (h : Recognised digest s₀) : Cut.Spec (fun s => s = s₀) (migrate digest s₀)
      (fun moved s => moved ≠ .conflict ∧ (Recognised digest s ∧ s.legacy = none) ∧ (s₀.legacy = none → s = s₀)) (Recognised digest) := by
  rw [migrate]
  split
  · rename_i hl
    obtain ⟨hd, ho⟩ := h.legacy (isSome_iff_ne_none.mp hl)
    rw [hd, if_neg (isSome_none ▸ Bool.false_ne_true)]
    refine .bind (.write (Q := fun _ s => s = { dir := s₀.legacy, legacy := none, begun := none }) ?_ ?_) fun _ => .pure ?_
    · rintro _ rfl
      exact h
    · rintro _ rfl
      rfl
    · rintro _ rfl
      refine ⟨nofun, ⟨⟨fun _ => .inl ?_, fun hne => absurd rfl hne, fun hne => absurd rfl hne⟩, rfl⟩, fun hn => ?_⟩
      · exact ho
      · rw [hn] at hl
        exact nomatch hl
  · rename_i hl
    refine .pure ?_
    rintro _ rfl
    exact ⟨nofun, ⟨h, not_isSome_iff_eq_none.mp hl⟩, fun _ => rfl⟩

/-- An install that continues what was begun is not refused, and leaves the version installed. -/
theorem ensure_recognised (hours : Tells digest ours) (hv : v ∈ ours) (h : Recognised digest s₀) (hct : Continues s₀ v) :
    Cut.Spec (fun s => s = s₀) (ensureRuntimeSkill digest v) (fun reply s => reply ≠ .conflict ∧ Installed digest v s)
      (Recognised digest) := by
  refine .look_bind ?_
  rintro s rfl
  have ha : ¬(!admits digest v s || (s.legacy.isSome && !owned digest s .legacy)) = true := by
    rw [h.admits hct, Bool.not_true, Bool.false_or, Bool.and_eq_true, Bool.not_eq_true']
    rintro ⟨hl, ho⟩
    exact nomatch ho.symm.trans (h.legacy (isSome_iff_ne_none.mp hl)).2
  rw [if_neg ha]
  refine .bind (migrate_recognised h) fun moved => .of_forall ?_
  rintro now ⟨hmv, hn, hsm⟩
  rw [if_neg hmv]
  refine .look_bind ?_
  rintro _ rfl
  split
  · rename_i hc
    obtain ⟨hl, hfp, hmk⟩ := hc
    obtain rfl := hsm (isNone_iff_eq_none.mp hl)
    refine .pure ?_
    rintro _ rfl
    obtain ⟨skill, metadata, hsk, hmeta, heq⟩ := readSkillFingerprint_eq_some hfp
    obtain ⟨rfl, rfl⟩ := hours.eq hv heq.symm
    refine ⟨nofun, hsk, hmeta, hmk, hn.2, ?_⟩
    by_contra hb
    exact nomatch (owned_iff.mpr ⟨_, hfp, readSkillMarker_eq hmk⟩).symm.trans (hn.1.begun hb)
  · refine (writeVersion_spec v _).conseq ?_ ?_ fun _ => id
    · rintro _ rfl
      exact hn
    · rintro _ s ⟨rfl, hinst⟩
      exact ⟨nofun, hinst⟩

/-- A removal of what is installed removes it. -/
theorem remove_installed (h : Installed digest v s₀) : Cut.Spec (fun s => s = s₀) (removeRuntimeSkill digest)
      (fun reply s => reply = .removed ∧ s.file .dir .skill = none ∧ s.file .dir .metadata = none ∧
      s.file .dir .marker = none ∧ s.legacy = none)
      fun _ => True := by
  have ho := h.owned
  refine .bind ((removeSkillAt_spec .dir s₀).conseq (fun _ => id) (fun _ _ => id) fun _ _ => trivial) fun current => .of_forall ?_
  rintro s₁ ⟨⟨gone, hs⟩, ⟨-, -, hf, -⟩ | ⟨rfl, -, hsk, hmeta, hmk⟩⟩
  · exact nomatch ho.symm.trans hf
  have hl : s₁.legacy = none := (hs.other .legacy nofun).trans h.legacy
  have hmk := hmk (h.marker.trans (readSkillMarker_eq h.marker).symm)
  refine .bind ((removeSkillAt_spec .legacy s₁).conseq (fun _ => id) (fun _ _ => id) fun _ _ => trivial) fun legacy => .of_forall ?_
  have hn (f : SkillFile) : s₁.file .legacy f = none := congrArg (fun l : Option SkillDir => l.bind fun d => d.file f) hl
  have hm : readSkillMarker s₁ .legacy = none := by
    rw [readSkillMarker, hn, hn]
    rfl
  rintro s2 ⟨-, ⟨-, rfl, -, hc⟩ | ⟨-, htrue, -⟩⟩
  · have hnot : ¬(Removal.removed = .conflict ∨ legacy = .conflict) := fun h => h.elim nofun fun h => hc h hm
    rw [if_neg hnot, if_pos (.inl rfl)]
    refine .pure ?_
    rintro _ rfl
    exact ⟨rfl, hsk, hmeta, hmk, hl⟩
  · obtain ⟨t, -, ht⟩ := owned_iff.mp htrue
    exact nomatch hm.symm.trans ht

/-! ### With an editor -/

section
variable (digest)

/-- The content is one that was written here: a text of a version, or a marker. -/
def Written (ours : Set Version) (content : Bytes) : Prop :=
  ∃ v ∈ ours, content = v.skill ∨ content = v.metadata ∨ markerValue (some content) = some (v.fingerprint digest)

/-- The markers are those of versions. -/
def Marked (ours : Set Version) (s : Skills) : Prop :=
  ∀ place f, f = .marker ∨ f = .oldMarker → ∀ content, s.file place f = some content →
    ∃ v ∈ ours, markerValue (some content) = some (v.fingerprint digest)

/-- A file that is overwritten or deleted has content that was written here, and all others are
kept; those of the older directory may have been moved with it. -/
structure Spares (ours : Set Version) (before after : Skills) : Prop where
  file : ∀ place f content, before.file place f = some content →
    Written digest ours content ∨ after.file place f = some content ∨ place = .legacy ∧ after.file .dir f = some content
  rest : ∀ place, ∀ content ∈ before.rest place, content ∈ after.rest place ∨ place = .legacy ∧ content ∈ after.rest .dir

end

theorem Spares.refl : Spares digest ours s s := ⟨fun _ _ _ h => .inr (.inl h), fun _ _ h => .inl h⟩

theorem Spares.trans {s2 : Skills} (h : Spares digest ours s s₁) (h' : Spares digest ours s₁ s2) : Spares digest ours s s2 where
  file place f content hfile := by
    rcases h.file place f content hfile with hwr | hk | ⟨hl, hmv⟩
    · exact .inl hwr
    · exact h'.file place f content hk
    · rcases h'.file .dir f content hmv with hwr | hk | ⟨hf, -⟩
      · exact .inl hwr
      · exact .inr (.inr ⟨hl, hk⟩)
      · exact nomatch hf
  rest place content hr := by
    rcases h.rest place content hr with hk | ⟨hl, hmv⟩
    · exact h'.rest place content hk
    · rcases h'.rest .dir content hmv with hk | ⟨hf, -⟩
      · exact .inr ⟨hl, hk⟩
      · exact nomatch hf

/-- What its marker recognises was written here. -/
theorem Marked.written (h : Marked digest ours s) (hours : Tells digest ours) (ho : owned digest s place = true)
    (hfile : s.file place f = some content) : Written digest ours content := by
  obtain ⟨t, hfp, hmk⟩ := owned_iff.mp ho
  have hver : ∃ v ∈ ours, t = v.fingerprint digest := by
    rw [readSkillMarker, map_or] at hmk
    have hval (f : SkillFile) (hf : f = .marker ∨ f = .oldMarker) (hs : ((s.file place f).bind readToString).map trim = some t) :
        ∃ v ∈ ours, t = v.fingerprint digest := by
      cases hc : s.file place f with
      | none => exact nomatch (hc ▸ hs : (none.bind readToString).map trim = some t)
      | some content =>
        obtain ⟨v, hv, heq⟩ := h place f hf content hc
        exact ⟨v, hv, some.inj ((hc ▸ hs : markerValue (some content) = some t).symm.trans heq)⟩
    rcases or_eq_some_iff.mp hmk with hmk | ⟨-, hmk⟩
    · exact hval .marker (.inl rfl) hmk
    · exact hval .oldMarker (.inr rfl) hmk
  obtain ⟨v, hv, rfl⟩ := hver
  obtain ⟨skill, metadata, hsk, hmeta, heq⟩ := readSkillFingerprint_eq_some hfp
  obtain ⟨rfl, rfl⟩ := hours.eq hv heq.symm
  cases f with
  | skill => exact ⟨v, hv, .inl (some.inj (hfile.symm.trans hsk))⟩
  | metadata => exact ⟨v, hv, .inr (.inl (some.inj (hfile.symm.trans hmeta)))⟩
  | marker =>
    obtain ⟨w, hw, heq⟩ := h place .marker (.inl rfl) content hfile
    exact ⟨w, hw, .inr (.inr heq)⟩
  | oldMarker =>
    obtain ⟨w, hw, heq⟩ := h place .oldMarker (.inr rfl) content hfile
    exact ⟨w, hw, .inr (.inr heq)⟩

/-- What an install does not refuse was written here. -/
theorem Marked.admitted (h : Marked digest ours s) (hours : Tells digest ours) (hv : v ∈ ours) (ha : admits digest v s = true)
    (hfile : s.file .dir f = some content) : Written digest ours content := by
  have hmk (f : SkillFile) (hf : f = .marker ∨ f = .oldMarker) (hfile : s.file .dir f = some content) : Written digest ours content := by
    obtain ⟨w, hw, heq⟩ := h .dir f hf content hfile
    exact ⟨w, hw, .inr (.inr heq)⟩
  rw [admits, Bool.or_eq_true, Bool.or_eq_true] at ha
  rcases ha with (he | ho) | hexa
  · rw [Bool.and_eq_true, isNone_iff_eq_none, isNone_iff_eq_none] at he
    cases f with
    | skill => exact nomatch he.1.symm.trans hfile
    | metadata => exact nomatch he.2.symm.trans hfile
    | marker => exact hmk .marker (.inl rfl) hfile
    | oldMarker => exact hmk .oldMarker (.inr rfl) hfile
  · exact h.written hours ho hfile
  · rw [Bool.and_eq_true, decide_eq_true_eq, Bool.or_eq_true, isNone_iff_eq_none, decide_eq_true_eq] at hexa
    obtain ⟨hsk, hmeta⟩ := hexa
    cases f with
    | skill => exact ⟨v, hv, .inl (some.inj (hfile.symm.trans hsk))⟩
    | metadata =>
      rcases hmeta with hn | hs
      · exact nomatch hn.symm.trans hfile
      · exact ⟨v, hv, .inr (.inl (some.inj (hfile.symm.trans hs)))⟩
    | marker => exact hmk .marker (.inl rfl) hfile
    | oldMarker => exact hmk .oldMarker (.inr rfl) hfile

theorem Shrunk.marked (h : Shrunk place s₀ gone s) (hm : Marked digest ours s₀) : Marked digest ours s := by
  intro place' f hf content hfile
  rcases h.file place' f with hsm | ⟨-, hn⟩
  · exact hm place' f hf content (hsm.symm.trans hfile)
  · exact nomatch hn.symm.trans hfile

theorem Shrunk.spares (h : Shrunk place s₀ gone s) (hwr : ∀ f content, s₀.file place f = some content → Written digest ours content) :
    Spares digest ours s₀ s where
  file place' f content hf := by
    rcases h.file place' f with hsm | ⟨rfl, -⟩
    · exact .inr (.inl (hsm.trans hf))
    · exact .inl (hwr f content hf)
  rest place' content hr := .inl (h.rest place' ▸ hr)

/-- One directory is removed, if it was written here. -/
theorem Marked.removeSkillAt (h : Marked digest ours s₀) (hours : Tells digest ours) (place : Place) :
    Cut.Spec (fun s => s = s₀) (removeSkillAt digest place) (fun _ s => Marked digest ours s ∧ Spares digest ours s₀ s)
      (fun s => Marked digest ours s ∧ Spares digest ours s₀ s) := by
  refine (removeSkillAt_spec place s₀).conseq (fun _ => id) ?_ ?_
  · rintro _ s ⟨⟨gone, hs⟩, ⟨-, rfl, -⟩ | ⟨-, ho, -⟩⟩
    · exact ⟨h, .refl⟩
    · exact ⟨hs.marked h, hs.spares fun f content hf => h.written hours ho hf⟩
  · rintro s ⟨ho, gone, hs⟩
    exact ⟨hs.marked h, hs.spares fun f content hf => h.written hours ho hf⟩

theorem Marked.remove_spec (h : Marked digest ours s₀) (hours : Tells digest ours) :
    Cut.Spec (fun s => s = s₀) (removeRuntimeSkill digest) (fun _ s => Marked digest ours s ∧ Spares digest ours s₀ s)
      (fun s => Marked digest ours s ∧ Spares digest ours s₀ s) := by
  refine .bind (h.removeSkillAt hours .dir) fun current => .of_forall ?_
  rintro s₁ ⟨hm, hs⟩
  have hl : Cut.Spec (fun s => s = s₁) (Skill.removeSkillAt digest .legacy) (fun _ s => Marked digest ours s ∧ Spares digest ours s₀ s)
      (fun s => Marked digest ours s ∧ Spares digest ours s₀ s) :=
    (hm.removeSkillAt hours .legacy).conseq (fun _ => id) (fun _ s h => ⟨h.1, hs.trans h.2⟩) fun s h => ⟨h.1, hs.trans h.2⟩
  refine .bind hl fun legacy => ?_
  split
  · exact .pure fun _ => id
  · split
    · exact .pure fun _ => id
    · exact .pure fun _ => id

/-- While a version is written, markers are those of versions, and other files are kept. -/
structure Writing (digest : Bytes → Bytes) (ours : Set Version) (s₀ s : Skills) : Prop where
  marked : Marked digest ours s
  rest : ∀ place, ∀ content ∈ s₀.rest place, content ∈ s.rest place ∨ place = .legacy ∧ content ∈ s.rest .dir

theorem Writing.put (h : Writing digest ours s₀ s) (hc : f = .marker ∨ f = .oldMarker →
      ∃ v ∈ ours, markerValue (some content) = some (v.fingerprint digest)) (begun : Option Version) :
    Writing digest ours s₀ { s.put .dir f content with begun := begun } where
  marked place f' hf' b hb := by
    have hp : (if place = .dir ∧ f' = f then some content else s.file place f') = some b := file_put.symm.trans hb
    split at hp
    · rename_i heq
      obtain rfl := some.inj hp
      exact hc (heq.2 ▸ hf')
    · exact h.marked place f' hf' b hp
  rest place b hb := by
    have hr (place : Place) : ({ s.put .dir f content with begun := begun } : Skills).rest place = s.rest place :=
      rest_put s .dir f content place
    rw [hr, hr]
    exact h.rest place b hb

theorem Writing.delete (h : Writing digest ours s₀ s) (place : Place) (f : SkillFile) : Writing digest ours s₀ (s.delete place f) where
  marked place' f' hf' b hb := by
    rw [file_deleted] at hb
    split at hb
    · exact nomatch hb
    · exact h.marked place' f' hf' b hb
  rest place' b hb := by
    rw [rest_delete, rest_delete]
    exact h.rest place' b hb

theorem writeVersion_writing (hv : v ∈ ours) (removeOld : Bool) :
    Cut.Spec (Writing digest ours s₀) (writeVersion digest v removeOld) (fun _ => Writing digest ours s₀) (Writing digest ours s₀) := by
  have hold : Cut.Spec (Writing digest ours s₀) (removeOldMarker removeOld) (fun _ => Writing digest ours s₀) (Writing digest ours s₀) := by
    rw [removeOldMarker]
    split
    · refine .look_bind fun s h => ?_
      split
      · refine .write ?_ ?_
        · rintro _ rfl
          exact h
        · rintro _ rfl
          exact h.delete .dir .oldMarker
      · refine .pure ?_
        rintro _ rfl
        exact h
    · exact .pure fun _ => id
  have hmk : ∃ w ∈ ours, markerValue (some (markerLine (v.fingerprint digest))) = some (w.fingerprint digest) :=
    ⟨v, hv, markerValue_markerLine v.bytes⟩
  have hwr (f : SkillFile) (content : Bytes) (hc : f = .marker ∨ f = .oldMarker →
      ∃ w ∈ ours, markerValue (some content) = some (w.fingerprint digest)) :
      Cut.Spec (Writing digest ours s₀) (writeFile digest v f content) (fun _ => Writing digest ours s₀) (Writing digest ours s₀) :=
    .write (fun _ => id) fun s h => h.put hc _
  exact .bind (hwr .skill v.skill fun hf => hf.elim nofun nofun) fun _ =>
    .bind (hwr .metadata v.metadata fun hf => hf.elim nofun nofun) fun _ =>
    .bind (hwr .marker _ fun _ => hmk) fun _ => .bind hold fun _ => .pure fun _ => id

/-- An install overwrites and deletes only what was written here. -/
theorem Marked.ensure_spec (h : Marked digest ours s₀) (hours : Tells digest ours) (hv : v ∈ ours) :
    Cut.Spec (fun s => s = s₀) (ensureRuntimeSkill digest v) (fun _ s => Marked digest ours s ∧ Spares digest ours s₀ s)
      (fun s => Marked digest ours s ∧ Spares digest ours s₀ s) := by
  refine .look_bind ?_
  rintro s rfl
  split
  · refine .pure ?_
    rintro _ rfl
    exact ⟨h, .refl⟩
  rename_i hn
  rw [Bool.or_eq_true, Bool.and_eq_true, not_or, Bool.not_eq_true', Bool.not_eq_false, not_and, Bool.not_eq_true', Bool.not_eq_false] at hn
  obtain ⟨ha, hl⟩ := hn
  have hwr (place : Place) (f : SkillFile) (content : Bytes) (hfile : s.file place f = some content) : Written digest ours content := by
    cases place with
    | dir => exact h.admitted hours hv ha hfile
    | legacy =>
      cases hd : s.legacy with
      | none => exact nomatch (congrArg (fun l : Option SkillDir => l.bind fun d => d.file f) hd).symm.trans hfile
      | some d => exact h.written hours (hl (hd ▸ rfl)) hfile
  have hspa (s' : Skills) (hs' : Writing digest ours s s') : Marked digest ours s' ∧ Spares digest ours s s' :=
    ⟨hs'.marked, fun place f content hfile => .inl (hwr place f content hfile), hs'.rest⟩
  refine .conseq (Q := fun _ => Writing digest ours s) (E := Writing digest ours s) ?_ (fun _ => id) (fun _ => hspa) hspa
  have hm : Cut.Spec (fun s' => s' = s) (migrate digest s) (fun _ => Writing digest ours s) (Writing digest ours s) := by
    rw [migrate]
    split
    · split
      · refine (removeSkillAt_spec .legacy s).conseq (fun _ => id) ?_ ?_
        · rintro _ s' ⟨⟨gone, hshr⟩, -⟩
          exact ⟨hshr.marked h, fun place b hb => .inl (hshr.rest place ▸ hb)⟩
        · rintro s' ⟨-, gone, hshr⟩
          exact ⟨hshr.marked h, fun place b hb => .inl (hshr.rest place ▸ hb)⟩
      · rename_i hd
        refine .bind (.write (Q := fun _ => Writing digest ours s) ?_ ?_) fun _ => .pure fun _ => id
        · rintro _ rfl
          exact ⟨h, fun place b hb => .inl hb⟩
        rintro _ rfl
        refine ⟨fun place f hf b hb => ?_, fun place b hb => ?_⟩
        · cases place with
          | dir => exact h .legacy f hf b hb
          | legacy => exact nomatch hb
        · cases place with
          | dir =>
            rw [Skills.rest, Skills.get, not_isSome_iff_eq_none.mp hd] at hb
            exact nomatch hb
          | legacy => exact .inr ⟨rfl, hb⟩
    · refine .pure ?_
      rintro _ rfl
      exact ⟨h, fun place b hb => .inl hb⟩
  refine .bind hm fun moved => ?_
  split
  · exact .pure fun _ => id
  refine .look_bind fun now hnow => ?_
  split
  · refine .pure ?_
    rintro _ rfl
    exact hnow
  · refine (writeVersion_writing hv _).of_pre ?_
    rintro _ rfl
    exact hnow

end Pebrel.Hooks.Skill
