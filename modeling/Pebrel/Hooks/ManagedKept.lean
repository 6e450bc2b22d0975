import Pebrel.Hooks.ManagedFiles

/-!
# What managed files keep

As long as nobody else edits them, the files are recognised (`Recognised`): a file that its
marker does not speak for is one of an old release, or was begun. An install of what was begun
is not refused, and puts all right (`install_recognised`). Whatever is edited but the markers,
nothing is overwritten or deleted that was not written here (`Marked.install`, `Marked.remove`).
-/

namespace Pebrel.Hooks.Managed

open Library Transition
open Option (some)

variable {digest : Bytes → Bytes} {released legacyHashes : List Text} {files files₀ : Files} {content : Bytes}

theorem isOwned_iff {marker : Option Bytes} {expected : Bytes} :
    isOwned digest legacyHashes marker expected content = true ↔ content = expected ∨ fingerprint digest content ∈ legacyHashes ∨
      markerValue marker = some (fingerprint digest content) := by
  simp only [isOwned, Bool.or_eq_true, decide_eq_true_eq, or_assoc]

theorem conflicts_eq_false {expected : Bytes} : conflicts digest legacyHashes expected files = false ↔
      (∀ content, files.path = some content → isOwned digest legacyHashes files.marker expected content = true) ∧
        ∀ content, files.legacy = some content → isOwned digest legacyHashes files.legacyMarker expected content = true := by
  rw [conflicts, Bool.or_eq_false_iff]
  cases files.path <;> cases files.legacy <;> simp

/-! ### Without an editor -/

section
variable (digest released)

/-- Each file is one of an old release, or its marker has its fingerprint, or it was begun. -/
structure Recognised (files : Files) : Prop where
  path : ∀ content, files.path = some content → fingerprint digest content ∈ released ∨
    markerValue files.marker = some (fingerprint digest content) ∨ files.begun = some content
  legacy : ∀ content, files.legacy = some content → fingerprint digest content ∈ released
  begun : ∀ content, files.begun = some content → files.path = some content ∧ markerValue files.marker ≠ some (fingerprint digest content)

/-- The content is installed, and nothing else. -/
structure Installed (content : Bytes) (files : Files) : Prop where
  path : files.path = some content
  legacy : files.legacy = none
  marker : markerValue files.marker = some (fingerprint digest content)
  begun : files.begun = none

end

/-- What is to be installed is what was begun, if anything was. -/
def Continues (files : Files) (content : Bytes) : Prop := ∀ begun, files.begun = some begun → content = begun

instance : Decidable (Continues files content) :=
  match h : files.begun with
  | none => .isTrue fun _ heq => nomatch h.symm.trans heq
  | some begun => decidable_of_iff (content = begun) ⟨fun heq _ hsome => heq.trans (some.inj (h.symm.trans hsome)), fun h' => h' begun h⟩

theorem Initial.recognised (h : Initial digest released files) : Recognised digest released files :=
  ⟨fun content hp => .inl (h.path content hp), h.legacy, fun _ hb => nomatch h.begun.symm.trans hb⟩

theorem Installed.recognised (h : Installed digest content files) : Recognised digest released files :=
  ⟨fun _ hp => .inr (.inl (some.inj (h.path.symm.trans hp) ▸ h.marker)),
    fun _ hl => (nomatch h.legacy.symm.trans hl), fun _ hb => nomatch h.begun.symm.trans hb⟩

theorem Recognised.begun_eq_none (h : Recognised digest released files) (hp : files.path = some content)
    (hmk : markerValue files.marker = some (fingerprint digest content)) : files.begun = none := by
  cases hbeg : files.begun with
  | none => rfl
  | some b =>
    obtain ⟨hb, hne⟩ := h.begun b hbeg
    obtain rfl := some.inj (hp.symm.trans hb)
    exact absurd hmk hne

theorem Recognised.not_conflicts (h : Recognised digest released files) (hk : released ⊆ legacyHashes) (hct : Continues files content) :
    conflicts digest legacyHashes content files = false := by
  refine conflicts_eq_false.mpr ⟨fun b hp => isOwned_iff.mpr ?_, fun b hl => isOwned_iff.mpr (.inr (.inl (hk (h.legacy b hl))))⟩
  rcases h.path b hp with hold | hmk | hb
  · exact .inr (.inl (hk hold))
  · exact .inr (.inr hmk)
  · exact .inl (hct b hb).symm

/-- The file of the older name is gone, and the markers are as they were. -/
theorem moveLegacy_spec (h : Recognised digest released files₀) : Cut.Spec (fun files => files = files₀) (moveLegacy files₀)
      (fun _ files => (Recognised digest released files ∧ files.legacy = none) ∧ (files₀.legacy = none → files = files₀))
      (Recognised digest released) := by
  rw [moveLegacy]
  split
  · rename_i hl
    have hne : files₀.legacy ≠ none := Option.isSome_iff_ne_none.mp hl
    split
    · refine .write ?_ ?_
      · rintro _ rfl
        exact h
      · rintro files rfl
        exact ⟨⟨⟨fun content hp => .inl (h.legacy content hp), fun _ => nofun, fun _ => nofun⟩, rfl⟩, fun hn => absurd hn hne⟩
    · refine .write ?_ ?_
      · rintro _ rfl
        exact h
      · rintro files rfl
        exact ⟨⟨⟨h.path, fun _ => nofun, h.begun⟩, rfl⟩, fun hn => absurd hn hne⟩
  · rename_i hl
    refine .pure ?_
    rintro files rfl
    exact ⟨⟨h, Option.not_isSome_iff_eq_none.mp hl⟩, fun _ => rfl⟩

/-- The content with no marker, or its own. -/
theorem writeContent_spec : Cut.Spec (fun files => Recognised digest released files ∧ files.legacy = none) (writeContent digest content)
      (fun _ files => Recognised digest released files ∧ files.path = some content ∧ files.legacy = none)
      (Recognised digest released) := by
  refine .write (fun _ h => h.1) ?_
  rintro files ⟨h, hl⟩
  by_cases hmk : markerValue files.marker = some (fingerprint digest content)
  · refine ⟨⟨fun b hb => ?_, h.legacy, fun b hb => ?_⟩, rfl, hl⟩
    · obtain rfl := some.inj hb
      exact .inr (.inl hmk)
    · exact nomatch (if_pos hmk).symm.trans hb
  · have hbeg : (if markerValue files.marker = some (fingerprint digest content) then none else some content) = some content := if_neg hmk
    refine ⟨⟨fun b hb => ?_, h.legacy, fun b hb => ?_⟩, rfl, hl⟩
    · obtain rfl := some.inj hb
      exact .inr (.inr hbeg)
    · obtain rfl := some.inj (hbeg.symm.trans hb)
      exact ⟨rfl, hmk⟩

theorem writeMarker_spec :
    Cut.Spec (fun files => Recognised digest released files ∧ files.path = some content ∧ files.legacy = none) (writeMarker digest content)
      (fun _ => Installed digest content) (Recognised digest released) :=
  .write (fun _ h => h.1) fun _ ⟨_, hp, hl⟩ => ⟨hp, hl, markerValue_markerLine content, rfl⟩

/-- An install that is to be continued is not refused, and leaves its content installed. -/
theorem install_recognised (h : Recognised digest released files₀) (hk : released ⊆ legacyHashes) (hct : Continues files₀ content) :
    Cut.Spec (fun files => files = files₀) (install digest legacyHashes content)
      (fun reply files => reply ≠ .conflict ∧ Installed digest content files) (Recognised digest released) := by
  refine .look_bind ?_
  rintro _ rfl
  rw [if_neg (Bool.eq_false_iff.mp (h.not_conflicts hk hct))]
  refine .bind (moveLegacy_spec h) fun _ => .look_bind ?_
  rintro now ⟨hn, hsm⟩
  split
  · rename_i hc
    obtain ⟨hl, hp, hmk⟩ := hc
    refine .pure ?_
    rintro _ rfl
    rw [hsm hl] at hmk ⊢
    exact ⟨nofun, hp, hl, hmk, h.begun_eq_none hp hmk⟩
  · refine .bind (writeContent_spec.of_pre ?_) fun _ => .bind writeMarker_spec fun _ => .pure fun _ h => ⟨nofun, h⟩
    rintro _ rfl
    exact hn

/-- A removal of what is installed removes it. -/
theorem remove_installed (h : Installed digest content files₀) : Cut.Spec (fun files => files = files₀) (remove digest legacyHashes content)
      (fun reply files => reply = .done true ∧ files.path = none ∧ files.legacy = none ∧ files.marker = none) fun _ => True := by
  obtain ⟨hp, hl, hmk, -⟩ := h
  have hconf : conflicts digest legacyHashes content files₀ = false :=
    conflicts_eq_false.mpr ⟨fun _ hb => isOwned_iff.mpr (.inl (some.inj (hp.symm.trans hb)).symm),
      fun _ hb => nomatch hl.symm.trans hb⟩
  refine .look_bind ?_
  rintro files rfl
  rw [if_neg (Bool.eq_false_iff.mp hconf)]
  have hmv : Cut.Spec (fun f => f = files) (removePath files)
    (fun _ f => f.path = none ∧ f.legacy = none ∧ f.marker = none) fun _ => True := by
    rw [removePath, hp, if_pos Option.isSome_some]
    refine .bind (.write (Q := fun _ f => f.path = none ∧ f.legacy = none) (fun _ _ => trivial) ?_) fun _ => .look_bind ?_
    · rintro _ rfl
      exact ⟨rfl, hl⟩
    rintro now ⟨hp, hl⟩
    split
    · refine .write (fun _ _ => trivial) ?_
      rintro _ rfl
      exact ⟨hp, hl, rfl⟩
    rename_i hn
    refine .pure ?_
    rintro _ rfl
    exact ⟨hp, hl, Option.not_isSome_iff_eq_none.mp hn⟩
  refine .bind hmv fun _ => ?_
  rw [removeLegacy, hl, if_neg (Option.isSome_none ▸ Bool.false_ne_true)]
  refine .bind (.pure fun _ h => h) fun _ => .pure fun f hf => ⟨?_, hf⟩
  rw [hp]
  rfl

/-! ### With an editor -/

section
variable (digest legacyHashes)

/-- The content is one that was written here: a version, or an old release, or a marker. -/
def Written (ours : Set Bytes) (content : Bytes) : Prop :=
  content ∈ ours ∨ fingerprint digest content ∈ legacyHashes ∨ ∃ version ∈ ours, content = markerLine (fingerprint digest version)

/-- The markers are those of versions. -/
structure Marked (ours : Set Bytes) (files : Files) : Prop where
  marker : ∀ content, files.marker = some content → ∃ version ∈ ours, content = markerLine (fingerprint digest version)
  legacyMarker : files.legacyMarker = none

/-- A file that is overwritten or deleted has content that was written here; the one of the
older name may have been renamed. -/
def Spares (ours : Set Bytes) (before after : Files) : Prop :=
  ∀ file content, before.get file = some content →
    Written digest legacyHashes ours content ∨ after.get file = some content ∨ file = .legacy ∧ after.path = some content

end

variable {ours : Set Bytes}

theorem Spares.refl : Spares digest legacyHashes ours files files := fun _ _ h => .inr (.inl h)

/-- What is not refused was written here. -/
theorem Marked.written (h : Marked digest ours files) (hd : Distinguishes digest ours) (hc : content ∈ ours)
    (hconf : conflicts digest legacyHashes content files = false) (after : Files) : Spares digest legacyHashes ours files after := by
  obtain ⟨hp, hl⟩ := conflicts_eq_false.mp hconf
  intro file b hb
  refine .inl ?_
  have hown {marker : Option Bytes} (hmk : ∀ m, marker = some m → ∃ version ∈ ours, m = markerLine (fingerprint digest version))
      (ho : isOwned digest legacyHashes marker content b = true) : Written digest legacyHashes ours b := by
    rcases isOwned_iff.mp ho with rfl | hold | hv
    · exact .inl hc
    · exact .inr (.inl hold)
    · cases marker with
      | none => exact nomatch hv
      | some m =>
        obtain ⟨version, hver, rfl⟩ := hmk m rfl
        rw [markerValue_markerLine] at hv
        obtain rfl := hd.eq hver (some.inj hv).symm
        exact .inl hver
  cases file with
  | path => exact hown h.marker (hp b hb)
  | legacy => exact hown (fun m hm => nomatch h.legacyMarker.symm.trans hm) (hl b hb)
  | marker => exact .inr (.inr (h.marker b hb))
  | legacyMarker => exact nomatch h.legacyMarker.symm.trans hb

theorem install_marked (hc : content ∈ ours) :
    Cut.Spec (Marked digest ours) (install digest legacyHashes content) (fun _ => Marked digest ours) (Marked digest ours) := by
  have hmv (files₀ : Files) : Cut.Spec (Marked digest ours) (moveLegacy files₀) (fun _ => Marked digest ours) (Marked digest ours) := by
    rw [moveLegacy]
    split
    · split
      · exact .write (fun _ => id) fun _ h => ⟨h.marker, h.legacyMarker⟩
      · exact .write (fun _ => id) fun _ h => ⟨h.marker, h.legacyMarker⟩
    · exact .pure fun _ => id
  have hwr : Cut.Spec (Marked digest ours) (writeContent digest content) (fun _ => Marked digest ours) (Marked digest ours) :=
    .write (fun _ => id) fun _ h => ⟨h.marker, h.legacyMarker⟩
  have hm : Cut.Spec (Marked digest ours) (writeMarker digest content) (fun _ => Marked digest ours) (Marked digest ours) := by
    refine .write (fun _ => id) fun _ h => ⟨fun b hb => ?_, h.legacyMarker⟩
    obtain rfl := some.inj hb
    exact ⟨content, hc, rfl⟩
  refine .look_bind fun files₀ h0 => ?_
  split
  · refine .pure ?_
    rintro _ rfl
    exact h0
  refine .bind ((hmv files₀).of_pre ?_) fun _ => .look_bind fun now hn => ?_
  · rintro _ rfl
    exact h0
  · split
    · refine .pure ?_
      rintro _ rfl
      exact hn
    · refine .bind (hwr.of_pre ?_) fun _ => .bind hm fun _ => .pure fun _ => id
      rintro _ rfl
      exact hn

theorem remove_marked : Cut.Spec (Marked digest ours) (remove digest legacyHashes content)
    (fun _ => Marked digest ours) (Marked digest ours) := by
  have hp (files₀ : Files) : Cut.Spec (Marked digest ours) (removePath files₀) (fun _ => Marked digest ours) (Marked digest ours) := by
    rw [removePath]
    split
    · refine .bind (.write (Q := fun _ => Marked digest ours) (fun _ => id) fun _ h => ⟨h.marker, h.legacyMarker⟩)
        fun _ => .look_bind fun now hn => ?_
      split
      · refine .write ?_ ?_
        · rintro _ rfl
          exact hn
        · rintro _ rfl
          exact ⟨fun _ => nofun, hn.legacyMarker⟩
      · refine .pure ?_
        rintro _ rfl
        exact hn
    · exact .pure fun _ => id
  have hl (files₀ : Files) : Cut.Spec (Marked digest ours) (removeLegacy files₀) (fun _ => Marked digest ours) (Marked digest ours) := by
    rw [removeLegacy]
    split
    · refine .bind (.write (Q := fun _ => Marked digest ours) (fun _ => id) fun _ h => ⟨h.marker, h.legacyMarker⟩)
        fun _ => .look_bind fun now hn => ?_
      split
      · refine .write ?_ ?_
        · rintro _ rfl
          exact hn
        · rintro _ rfl
          exact ⟨hn.marker, rfl⟩
      · refine .pure ?_
        rintro _ rfl
        exact hn
    · exact .pure fun _ => id
  refine .look_bind fun files₀ h0 => ?_
  split
  · refine .pure ?_
    rintro _ rfl
    exact h0
  · refine .bind ((hp files₀).of_pre ?_) fun _ => .bind (hl files₀) fun _ => .pure fun _ => id
    rintro _ rfl
    exact h0

/-- What an install that is refused leaves. -/
theorem install_conflict (h : conflicts digest legacyHashes content files = true) (cut : Option ℕ) :
    (install digest legacyHashes content).run cut files = (files, some .conflict) := by
  have hr : install digest legacyHashes content ⟨files, cut⟩ = (⟨files, cut⟩, .ok .conflict) := by
    change (if conflicts digest legacyHashes content files then pure .conflict else _ : Cut Files Install) ⟨files, cut⟩ = _
    rw [if_pos h]
    rfl
  rw [Cut.run, hr]
  rfl

theorem remove_preserved (h : conflicts digest legacyHashes content files = true) (cut : Option ℕ) :
    (remove digest legacyHashes content).run cut files = (files, some .preserved) := by
  have hr : remove digest legacyHashes content ⟨files, cut⟩ = (⟨files, cut⟩, .ok .preserved) := by
    change (if conflicts digest legacyHashes content files then pure .preserved else _ : Cut Files Removal) ⟨files, cut⟩ = _
    rw [if_pos h]
    rfl
  rw [Cut.run, hr]
  rfl

/-- An install overwrites and deletes only what was written here. -/
theorem Marked.install (h : Marked digest ours files) (hd : Distinguishes digest ours) (hc : content ∈ ours) (cut : Option ℕ) :
    Marked digest ours ((install digest legacyHashes content).run cut files).1 ∧
      Spares digest legacyHashes ours files ((install digest legacyHashes content).run cut files).1 := by
  constructor
  · rcases (install_marked hc).run h cut with ⟨_, -, hm⟩ | ⟨-, hm, -⟩
    · exact hm
    · exact hm
  · cases hconf : conflicts digest legacyHashes content files with
    | true =>
      rw [install_conflict hconf]
      exact .refl
    | false => exact h.written hd hc hconf _

theorem Marked.remove (h : Marked digest ours files) (hd : Distinguishes digest ours) (hc : content ∈ ours) (cut : Option ℕ) :
    Marked digest ours ((remove digest legacyHashes content).run cut files).1 ∧
      Spares digest legacyHashes ours files ((remove digest legacyHashes content).run cut files).1 := by
  constructor
  · rcases remove_marked.run h cut with ⟨_, -, hm⟩ | ⟨-, hm, -⟩
    · exact hm
    · exact hm
  · cases hconf : conflicts digest legacyHashes content files with
    | true =>
      rw [remove_preserved hconf]
      exact .refl
    | false => exact h.written hd hc hconf _

end Pebrel.Hooks.Managed
