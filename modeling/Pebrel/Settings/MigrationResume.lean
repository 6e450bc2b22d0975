import Pebrel.Settings.MigrationSteps

/-!
# Migrations that are cut off

Whatever calls of a run fail, it leaves a destination between the one that was there and
the one that is planned for it: what is there is kept, and what is new is as planned. So
the next run goes on, unless it takes a configuration file that an earlier run has copied
for one that was there before (`migration_resumable`).
-/

namespace Pebrel.Settings.Migration

open Library List Option Function Listing At

/-! ### A whole run -/

section
variable {keepConfig : Bool} {l : Listing} {q : Path}

theorem skipped_mono {name : Name} (h : skipped true name = false) : skipped false name = false := by
  rw [skipped] at h ⊢
  cases hnm : name.toStr with
  | none => rfl
  | some t =>
    rw [hnm, any_some, Bool.or_eq_false_iff] at h
    rw [any_some, h.1]
    rfl

/-- What is copied although configuration files are kept is what is copied anyway. -/
theorem view_mono (hd : l.Distinct) (h : l.view true q ≠ none) : l.view false q = l.view true q := by
  induction l with
  | nil => rfl
  | leaf name entry rest ih =>
    rw [view] at h
    rw [view, view]
    split at h
    · rename_i hq
      rw [if_pos hq, if_pos ⟨skipped_mono hq.1, hq.2⟩]
    rename_i hq
    have hne := head_ne hd.1 h
    rw [if_neg hq, if_neg, ih hd.2 h]
    rintro ⟨-, rfl⟩
    exact hne rfl
  | dir name entries rest _ ih =>
    rw [view] at h
    rw [view, view]
    split at h
    · rename_i hq
      rw [if_pos hq, if_pos ⟨skipped_mono hq.1, hq.2⟩]
    · rename_i hq
      rw [if_neg hq, if_neg fun hq' => head_ne hd.1 h hq'.2, ih hd.2.2 h]

theorem config_of_skipped {name : Name} (h : skipped true name = true) (h' : skipped false name = false) :
    ∃ t ∈ configFiles, name = .ofText t := by
  rw [skipped, any_eq_true_iff_get] at h
  obtain ⟨hs, h⟩ := h
  obtain ⟨t, ht⟩ := isSome_iff_exists.mp hs
  have hnm := eq_ofText ht
  rw [hnm, skipped_ofText, Bool.false_and, Bool.or_false] at h'
  simp only [ht, get_some, h', Bool.false_or, Bool.true_and] at h
  exact ⟨t, contains_iff_mem.mp h, hnm⟩

/-- What else is copied is below a configuration file. -/
theorem config_of_view (h : l.view false q ≠ none) (h' : l.view true q = none) : ∃ t ∈ configFiles, q.head? = some (.ofText t) := by
  induction l with
  | nil => exact absurd rfl h
  | leaf name entry rest ih =>
    rw [view] at h h'
    split at h
    · rename_i hq
      split at h'
      · exact absurd h' h
      rename_i hq'
      obtain ⟨t, ht, hnm⟩ := config_of_skipped (eq_true_of_ne_false fun hf => hq' ⟨hf, hq.2⟩) hq.1
      exact ⟨t, ht, by rw [hq.2, hnm]; rfl⟩
    · split at h'
      · rename_i hq hq'
        exact absurd ⟨skipped_mono hq'.1, hq'.2⟩ hq
      · exact ih h h'
  | dir name entries rest _ ih =>
    rw [view] at h h'
    split at h
    · rename_i hq
      split at h'
      · exact absurd h' h
      rename_i hq'
      obtain ⟨t, ht, hnm⟩ := config_of_skipped (eq_true_of_ne_false fun hf => hq' ⟨hf, hq.2⟩) hq.1
      exact ⟨t, ht, hnm ▸ hq.2⟩
    · split at h'
      · rename_i hq hq'
        exact absurd ⟨skipped_mono hq'.1, hq'.2⟩ hq
      · exact ih h h'

theorem view_artifact {t : Text} (ht : isMigrationArtifact t = true) : l.view keepConfig [.ofText t] = none := by
  have hskip : skipped keepConfig (.ofText t) = true := by rw [skipped_ofText, ht, Bool.true_or]
  induction l with
  | nil => rfl
  | leaf name entry rest ih =>
    rw [view, if_neg, ih]
    rintro ⟨hnm, hq⟩
    rw [← (List.cons.inj hq).1, hskip] at hnm
    cases hnm
  | dir name entries rest _ ih =>
    rw [view, if_neg, ih]
    rintro ⟨hnm, hq⟩
    rw [← some.inj hq, hskip] at hnm
    cases hnm

end

section
variable {env : Environment} {run : Run} {legacy : Legacy} {t₀ : Tree} {J : Tree → Prop} {t : Tree}
  {q : Path} {keepConfig : Bool} {n : Node}

theorem planned_root (h : t₀ [] = none) : planned env legacy t₀ [] = some .dir := by
  have hprep : prepared env t₀ [] = some .dir := by
    rw [prepared, h]
    rfl
  rw [planned]
  split
  · exact hprep
  · dsimp only
    rw [copied, hprep]
    rfl

theorem planned_lock (h : t₀ [.ofText lockFile] = none) :
    planned env legacy t₀ [.ofText lockFile] = some (.file ⟨[], env.permissions⟩) := by
  have hprep : prepared env t₀ [.ofText lockFile] = some (.file ⟨[], env.permissions⟩) := by
    rw [prepared, h, none_or, if_neg (cons_ne_nil _ _), if_pos rfl]
  rw [planned]
  split
  · exact hprep
  · dsimp only
    rw [copied, hprep, some_or, some_or, some_or]

theorem prepared_eq_none (h : t₀ q = none) (hroot : q ≠ []) (hlock : q ≠ [.ofText lockFile]) : prepared env t₀ q = none := by
  rw [prepared, h, none_or, if_neg hroot, if_neg hlock]

theorem legacy_view_artifact {t : Text} (ht : isMigrationArtifact t = true) : legacy.view keepConfig [.ofText t] = none := by
  cases legacy with
  | missing => rfl
  | noDirectory => rfl
  | directory l => exact view_artifact ht

theorem planned_complete (ho : followed env (prepared env t₀) [.ofText completeFile] = none) (h : t₀ [.ofText completeFile] = none) :
    planned env legacy t₀ [.ofText completeFile] = some (.file ⟨completeText, env.permissions⟩) := by
  have hcp : copied env legacy t₀ [.ofText completeFile] = none := by
    rw [copied, prepared_eq_none h (cons_ne_nil _ _) complete_ne_lock, none_or, legacy_view_artifact (by decide), ite_self]
  have hr : renamed env legacy t₀ [.ofText completeFile] = none := by
    by_contra hne
    obtain ⟨e, he, heq, -⟩ := renamed_ne_none hne
    exact new_ne_complete he heq.symm
  rw [planned_of_open ho, hcp, hr, if_pos rfl]
  rfl

/-- A configuration file that was there is there. -/
theorem keeps_mono (hi : Invariant env legacy t₀ t) (h : keeps t₀ = true) : keeps t = true := by
  rw [keeps, List.any_eq_true] at h ⊢
  obtain ⟨name, hm, hnm⟩ := h
  refine ⟨name, hm, ?_⟩
  rwa [hi.kept _ (isSome_iff_ne_none.mp hnm)]

theorem anyExists_triple (names : List Text) : Fallible.Triple (At legacy (· = t)) (anyExists run names)
      (fun b s => b = (names.any fun name => (t [.ofText name]).isSome) ∧ At legacy (· = t) s) (fun _ => At legacy (· = t)) := by
  induction names with
  | nil => exact .pure fun s hs => ⟨rfl, hs⟩
  | cons name names ih =>
    rw [anyExists]
    refine .bind_and destinationExists_triple fun found hfd => .bind_and ih fun others hoths => ?_
    refine .pure fun s hs => ⟨?_, hs⟩
    rw [any_cons, hfd, hoths]

/-- Legacy directories as they are found: the names in each differ, and one that is not Unicode is no temporary name. -/
structure Legacy.WellFormed (legacy : Legacy) : Prop where
  distinct : ∀ l, legacy = .directory l → l.Distinct
  plain : ∀ l, legacy = .directory l → l.Plain

/-- No directory is, contains or is contained in the other. -/
def Environment.Apart (env : Environment) : Prop := ¬env.source <+: env.destination ∧ ¬env.destination <+: env.source

theorem Environment.Apart.ne (h : env.Apart) : env.source ≠ env.destination := by
  intro heq
  have hn := h.1
  rw [heq] at hn
  exact hn prefix_rfl

/-- There is the destination with its lock. -/
def Opened (t : Tree) : Prop := t [] = some .dir ∧ t [.ofText lockFile] ≠ none

theorem opened_mono {t t' : Tree} (hk : ∀ r, t r ≠ none → t' r = t r) (h : Opened t) : Opened t' :=
  ⟨(hk _ (h.1 ▸ some_ne_none _)).trans h.1, by rw [hk _ h.2]; exact h.2⟩

/-- What is there from the start needs no copying. -/
theorem Opened.prepared (h : Opened t) (hi : Invariant env legacy t₀ t) (hq : prepared env t₀ q ≠ none) : t q ≠ none := by
  by_cases hn : t₀ q = none
  · by_cases hroot : q = []
    · rw [hroot, h.1]
      exact some_ne_none _
    · by_cases hlock : q = [.ofText lockFile]
      · exact hlock ▸ h.2
      · exact absurd (prepared_eq_none hn hroot hlock) hq
  · rwa [hi.kept q hn]

/-- What is below the configuration files, where a run keeps them and was not to. -/
def Spared (env : Environment) (legacy : Legacy) (t₀ : Tree) (keepConfig : Bool) (q : Path) : Prop :=
  keepConfig ≠ keeps t₀ ∧ (∃ name ∈ configFiles, q.head? = some (.ofText name)) ∧ ¬Temporary q ∧ planned env legacy t₀ q ≠ none

theorem copyLegacy_triple (hJ : Closed env legacy t₀ J) (ho : followed env (prepared env t₀) [.ofText completeFile] = none)
    (hl : legacy.WellFormed) (hap : env.Apart) (hkeep : keeps t₀ = true → keepConfig = true)
    (hop : ∀ t, J t → Opened t) (hspa : ∀ t, J t → Has (Spared env legacy t₀ keepConfig) t) :
    Fallible.Triple (At legacy J) (copyLegacy env run keepConfig)
      (fun _ => At legacy fun t => J t ∧ Has (fun q => ¬Temporary q ∧ copied env legacy t₀ q ≠ none) t) (fun _ => At legacy J) := by
  have hprep (t : Tree) (ht : J t) (q : Path) (hq : prepared env t₀ q ≠ none) : t q ≠ none := (hop t ht).prepared (hJ.invariant t ht) hq
  refine call_triple.bind fun _ => .get_bind fun s hs => ?_
  have hbk : ∀ s', s' = s → At legacy J s' := fun s' heq => heq ▸ hs
  rw [hs.1]
  cases legacy with
  | missing =>
    refine .pure fun s' heq => (hbk s' heq).mono fun t ht => ⟨ht, fun q hq => hprep t ht q fun hnone => hq.2 ?_⟩
    rw [copied, hnone, none_or]
    exact ite_self _
  | noDirectory =>
    refine (call_triple.of_pre hbk).bind fun _ => ?_
    rw [if_neg hap.ne]
    split <;> exact .fail fun _ => id
  | directory l =>
    refine (call_triple.of_pre hbk).bind fun _ => ?_
    rw [if_neg hap.ne, if_neg (not_or.mpr hap)]
    have hd := hl.distinct l rfl
    have hview (q : Path) (h : l.view keepConfig q ≠ none) : l.view (keeps t₀) q = l.view keepConfig q := by
      cases hkp : keeps t₀ with
      | true => rw [hkeep hkp]
      | false =>
        cases keepConfig with
        | false => rfl
        | true => exact view_mono hd h
    refine (copyTree_triple hJ hd (hl.plain l rfl) (fun t ht a ha => ?_) fun r n hn hc hnone => ?_).post fun _ _ =>
      mono fun t ht => ⟨ht.1, ?_⟩
    · rw [prefix_nil.mp ha, (hop t ht).1]
    · rw [nil_append] at hc hnone ⊢
      have hroot : r ≠ [] := fun h => by rw [h, view_nil] at hn; cases hn
      have hlock : r ≠ [.ofText lockFile] := fun h => by rw [h, view_artifact (by decide)] at hn; cases hn
      refine planned_of_copied ho ?_
      rw [copied, prepared_eq_none hnone hroot hlock, none_or, if_pos hc]
      exact (hview r (hn ▸ some_ne_none _)).trans hn
    · rintro q ⟨htmp, hcp⟩
      by_cases hq : prepared env t₀ q = none
      · have hp : planned env (.directory l) t₀ q ≠ none := by
          obtain ⟨n, hn⟩ := ne_none_iff_exists'.mp hcp
          rw [planned_of_copied ho hn]
          exact some_ne_none _
        rw [copied, hq, none_or] at hcp
        split at hcp
        · rename_i hc
          change l.view (keeps t₀) q ≠ none at hcp
          by_cases hsh : l.view keepConfig q = none
          · cases hkp : keeps t₀ with
            | true => rw [hkp, ← hkeep hkp, hsh] at hcp; exact absurd rfl hcp
            | false =>
              rw [hkp] at hcp
              cases keepConfig with
              | false => exact absurd hsh hcp
              | true =>
                refine hspa t ht.1 q ⟨?_, config_of_view hcp hsh, htmp, hp⟩
                rw [hkp]
                exact Bool.noConfusion
          · exact ht.2 q ⟨q, rfl, hsh, hc⟩
        · exact absurd rfl hcp
      · exact hprep t ht.1 q hq

/-- All that is planned is there. -/
def AllDone (env : Environment) (legacy : Legacy) (t₀ t : Tree) : Prop := ∀ q, ¬Temporary q → planned env legacy t₀ q ≠ none → t q ≠ none

theorem migrateInto_triple (hJ : Closed env legacy t₀ J) (ho : followed env (prepared env t₀) [.ofText completeFile] = none)
    (hl : legacy.WellFormed) (hap : env.Apart) (hs : Steady env legacy t₀) (hop : ∀ t, J t → Opened t) :
    Fallible.Triple (At legacy fun t => J t ∧ Ready env legacy t₀ t) (migrateInto env run)
      (fun _ => At legacy fun t => J t ∧ AllDone env legacy t₀ t) (fun _ => At legacy J) := by
  refine at_triple fun t ⟨ht, hrd⟩ => ?_
  have hbk : ∀ s, At legacy (· = t) s → At legacy J s := fun _ => mono fun _ heq => heq ▸ ht
  refine .bind_and ((anyExists_triple configFiles).error fun _ => hbk) fun keepConfig hkp => ?_
  change keepConfig = keeps t at hkp
  have hkeep : keeps t₀ = true → keepConfig = true := fun h => hkp.trans (keeps_mono (hJ.invariant t ht) h)
  have hspa : Has (Spared env legacy t₀ keepConfig) t := by
    rintro q ⟨hne, hc, htmp, hp⟩
    rcases hrd with h | h | h
    · exact absurd ((hkeep h).trans h.symm) hne
    · cases hkp0 : keeps t₀ with
      | true => exact nomatch (keeps_mono (hJ.invariant t ht) hkp0).symm.trans h
      | false => exact absurd (hkp.trans (h.trans hkp0.symm)) hne
    · exact h q hc htmp hp
  have hJs := hJ.has (Spared env legacy t₀ keepConfig)
  have hst : ∀ s, At legacy (· = t) s → At legacy (fun t => J t ∧ Has (Spared env legacy t₀ keepConfig) t) s :=
    fun _ => mono fun _ heq => heq ▸ ⟨ht, hspa⟩
  refine ((copyLegacy_triple hJs ho hl hap hkeep (fun t h => hop t h.1) fun t h => h.2).conseq hst (fun _ _ => id)
    fun _ _ => mono fun t h => h.1).bind fun _ => ?_
  have hJc := hJs.has fun q => ¬Temporary q ∧ copied env legacy t₀ q ≠ none
  refine ((renameFiles_triple hJc ho hs (fun t h q htmp hq => h.2 q ⟨htmp, hq⟩) (fun _ => id) hkeep).error fun _ _ =>
    mono fun t h => h.1.1).bind fun _ => ?_
  have hJr := hJc.has fun q => planned env legacy t₀ q ≠ none ∧
    ∃ e ∈ dataFiles, q = [.ofText e.2] ∧ (keepConfig && configFiles.contains e.2) = false
  -- Everything but the mark is there.
  have hr (t : Tree) (h : (((J t ∧ Has (Spared env legacy t₀ keepConfig) t) ∧
    Has (fun q => ¬Temporary q ∧ copied env legacy t₀ q ≠ none) t) ∧
      Has (fun q => planned env legacy t₀ q ≠ none ∧ ∃ e ∈ dataFiles, q = [.ofText e.2] ∧
        (keepConfig && configFiles.contains e.2) = false) t)) :
      Rest env legacy t₀ t := by
    intro q htmp hne hp
    by_cases hcp : copied env legacy t₀ q = none
    · have hren : renamed env legacy t₀ q ≠ none := by
        intro hn
        rw [planned_of_open ho, hcp, hn, if_neg hne] at hp
        exact absurd rfl hp
      obtain ⟨e, he, rfl, hkeep0⟩ := renamed_ne_none hren
      by_cases hskip : (keepConfig && configFiles.contains e.2) = true
      · obtain ⟨hkeep', hc⟩ := Bool.and_eq_true_iff.mp hskip
        refine h.1.1.2 _ ⟨fun heq => ?_, ⟨e.2, contains_iff_mem.mp hc, rfl⟩, htmp, hp⟩
        rw [heq] at hskip
        exact nomatch hkeep0.symm.trans hskip
      · exact h.2 _ ⟨hp, e, he, rfl, eq_false_of_ne_true hskip⟩
    · exact h.1.2 q ⟨htmp, hcp⟩
  refine (writeIfAbsent_triple hJr (not_temporary (by decide)) (fun t h hn => ?_) (fun t h _ _ => hr t h)
    fun t temporary h hn htmp hth => ?_).conseq (fun _ => id) (fun _ _ => mono fun t h => ⟨h.1.1.1.1, ?_⟩)
    fun _ _ => mono fun t h => h.1.1.1
  · rw [planned_complete ho (none_of_none (hJr.invariant t h) hn)]
    exact some_ne_none _
  · refine writeAll_triple (fun _ _ hu => hu.update _) fun u hu => ⟨hu.update _, ?_⟩
    rw [update_self, planned_complete ho (none_of_none (hJr.invariant t h) hn)]
  · intro q htmp hp
    by_cases hq : q = [.ofText completeFile]
    · exact hq ▸ h.2
    · exact hr t h.1 q htmp hq hp

theorem keeps_update (hq : ∀ name ∈ configFiles, q ≠ [.ofText name]) : keeps (update t q (some n)) = keeps t := by
  have hsm (name : Text) (hnm : name ∈ configFiles) : update t q (some n) [.ofText name] = t [.ofText name] :=
    update_of_ne (.symm (hq name hnm)) _ _
  rw [keeps, keeps, Bool.eq_iff_iff, List.any_eq_true, List.any_eq_true]
  exact exists_congr fun name => and_congr_right fun hnm => by rw [hsm name hnm]

/-- A node that is no configuration file may be put. -/
theorem Ready.put (h : Ready env legacy t₀ t) (hq : ∀ name ∈ configFiles, q ≠ [.ofText name]) (hn : t q = none) :
    Ready env legacy t₀ (update t q (some n)) := by
  rcases h with h | h | h
  · exact .inl h
  · exact .inr (.inl ((keeps_update hq).trans h))
  · refine .inr (.inr fun r hc ht hp => ?_)
    have hr := h r hc ht hp
    have hne : r ≠ q := by
      rintro rfl
      exact hr hn
    rwa [update_of_ne hne]

/-- The mark is there from the start, or when a run is done with the rest. -/
theorem complete_iff (hstd : Steady env legacy t₀) (hi : Invariant env legacy t₀ t) (hop : Opened t) :
    AllDone env legacy t₀ t ∧ (followed env t [.ofText completeFile]).isSome = true ∨
      followed env (prepared env t₀) [.ofText completeFile] = none ∧ (followed env t [.ofText completeFile]).isSome = false := by
  have ht : ¬Temporary [.ofText completeFile] := not_temporary (by decide)
  cases hst : t₀ [.ofText completeFile] with
  | none =>
    have hprep : prepared env t₀ [.ofText completeFile] = none := prepared_eq_none hst nofun complete_ne_lock
    have ho : followed env (prepared env t₀) [.ofText completeFile] = none := by rw [followed, hprep]
    by_cases hn : t [.ofText completeFile] = none
    · refine .inr ⟨ho, ?_⟩
      rw [followed, hn]
      rfl
    refine .inl ⟨fun q hq hp => ?_, ?_⟩
    · by_cases heq : q = [.ofText completeFile]
      · exact heq ▸ hn
      · exact hi.mark hst hn q hq heq hp
    · rw [followed, hi.planned _ ht hn, planned_complete ho hst]
      rfl
  | some n =>
    have hth : t [.ofText completeFile] = some n := (hi.kept _ (hst ▸ some_ne_none _)).trans hst
    have hprep : prepared env t₀ [.ofText completeFile] = some n := (prepared_of_ne_none (hst ▸ some_ne_none _)).trans hst
    have hsm : (followed env t [.ofText completeFile]).isSome = (followed env (prepared env t₀) [.ofText completeFile]).isSome := by
      rw [followed, followed, hth, hprep]
      cases n with
      | file contents => rfl
      | dir => rfl
      | symlink target => exact hstd.complete t target hi.toBetween hst
    by_cases ho : followed env (prepared env t₀) [.ofText completeFile] = none
    · refine .inr ⟨ho, ?_⟩
      rw [hsm, ho]
      rfl
    have hs := isSome_iff_ne_none.mpr ho
    refine .inl ⟨fun q _ hp => ?_, hsm.trans hs⟩
    rw [planned, if_pos hs] at hp
    exact hop.prepared hi hp

/-- **One run**, with any calls of it failing: it ends with the planned destination, or between. -/
theorem migrateDataAt_triple (hJ : Closed env legacy t₀ J) (hleg : legacy.WellFormed) (hap : env.Apart) (hstd : Steady env legacy t₀) :
    Fallible.Triple (At legacy fun t => J t ∧ Ready env legacy t₀ t) (migrateDataAt env run)
      (fun _ => At legacy fun t => J t ∧ AllDone env legacy t₀ t ∧ Opened t) (fun _ => At legacy J) := by
  have hcr : Fallible.Triple (At legacy fun t => J t ∧ Ready env legacy t₀ t) (createDestination run)
      (fun _ => At legacy fun t => (J t ∧ t [] = some .dir) ∧ Ready env legacy t₀ t) (fun _ => At legacy J) := by
    refine (call_triple.error fun _ _ => mono fun t h => h.1).bind fun _ => tree_bind fun t ht => ?_
    split
    · rename_i hdir
      exact .pure fun s => mono fun u heq => heq ▸ ⟨⟨ht.1, hdir⟩, ht.2⟩
    · exact .fail fun s => mono fun u heq => heq ▸ ht.1
    · rename_i hnone
      refine put_triple fun u heq => heq ▸ ⟨⟨?_, update_self _ _ _⟩, ht.2.put (fun _ _ => nofun) hnone⟩
      exact hJ.put ht.1 not_temporary_nil nofun hnone (planned_root (none_of_none (hJ.invariant t ht.1) hnone))
  have hroot : Closed env legacy t₀ fun t => J t ∧ t [] = some .dir := hJ.and fun t t' hk h => (hk _ (h ▸ some_ne_none _)).trans h
  have hl : ¬Temporary [.ofText lockFile] := not_temporary (by decide)
  have hlock : Fallible.Triple (At legacy fun t => (J t ∧ t [] = some .dir) ∧ Ready env legacy t₀ t) (openLock env run)
      (fun _ => At legacy fun t => (J t ∧ Opened t) ∧ Ready env legacy t₀ t) (fun _ => At legacy J) := by
    refine (call_triple.error fun _ _ => mono fun t h => h.1.1).bind fun _ => tree_bind fun t ht => ?_
    have hst (n : Node) (hn : t [.ofText lockFile] = some n) : ∀ s, At legacy (· = t) s →
        At legacy (fun t => (J t ∧ Opened t) ∧ Ready env legacy t₀ t) s :=
      fun _ => mono fun u heq => heq ▸ ⟨⟨ht.1.1, ht.1.2, hn ▸ some_ne_none _⟩, ht.2⟩
    have hbk : ∀ s, At legacy (· = t) s → At legacy J s := fun _ => mono fun u heq => heq ▸ ht.1.1
    split
    · rename_i hnone
      have hput := hroot.put ht.1 hl complete_ne_lock.symm hnone (planned_lock (none_of_none (hJ.invariant t ht.1.1) hnone))
      have hrd : Ready env legacy t₀ (update t [.ofText lockFile] (some (.file ⟨[], env.permissions⟩))) :=
        ht.2.put (fun name hnm heq => absurd (single_inj.mp heq ▸ hnm) (by decide)) hnone
      refine put_triple fun u heq => heq ▸ ⟨⟨hput.1, hput.2, ?_⟩, hrd⟩
      rw [update_self]
      exact some_ne_none _
    · rename_i hf
      exact .pure (hst _ hf)
    · exact .fail hbk
    · rename_i target hlink
      have hth : t₀ [.ofText lockFile] = some (.symlink target) := by
        by_cases hnone : t₀ [.ofText lockFile] = none
        · have hp := (hJ.invariant t ht.1.1).planned _ hl (hlink ▸ some_ne_none _)
          rw [hlink, planned_lock hnone] at hp
          exact nomatch hp
        · exact ((hJ.invariant t ht.1.1).kept _ hnone).symm.trans hlink
      split
      · exact .pure (hst _ hlink)
      · exact .fail hbk
      · rename_i hnone
        exact absurd hnone (hstd.lock t target (hJ.invariant t ht.1.1).kept hth)
  have hcall : Fallible.Triple (At legacy fun t => (J t ∧ Opened t) ∧ Ready env legacy t₀ t) (call run)
      (fun _ => At legacy fun t => (J t ∧ Opened t) ∧ Ready env legacy t₀ t) (fun _ => At legacy J) :=
    call_triple.error fun _ _ => mono fun t h => h.1.1
  rw [migrateDataAt]
  refine hcr.bind fun _ => (call_triple.error fun _ _ => mono fun t h => h.1.1).bind fun _ =>
    hlock.bind fun _ => hcall.bind fun _ => at_triple fun t ht => ?_
  have hi := hJ.invariant t ht.1.1
  refine .bind_and (tryExists_triple.error fun _ _ => mono fun u heq => heq ▸ ht.1.1) fun complete hc => ?_
  have hmark := complete_iff hstd hi ht.1.2
  rcases hmark with ⟨hd, hs⟩ | ⟨ho, hs⟩
  · rw [hc, hs]
    exact .pure fun s => mono fun u heq => heq ▸ ⟨ht.1.1, hd, ht.1.2⟩
  rw [hc, hs]
  have hop : Closed env legacy t₀ fun t => J t ∧ Opened t := hJ.and fun t t' => opened_mono
  refine (migrateInto_triple hop ho hleg hap hstd fun t h => h.2).conseq (fun _ => mono fun u heq => heq ▸ ht)
    (fun _ _ => mono fun u h => ⟨h.1.1, h.2, h.1.2⟩) fun _ _ => mono fun u h => h.1

end

/-! ### Runs, one after another -/

section
variable {env : Environment} {legacy : Legacy} {t₀ : Tree} {J : Tree → Prop} {disk : Disk}

/-- Each of the runs starts with configuration files as it is to find them. -/
def ReadyRuns (env : Environment) (legacy : Legacy) (t₀ : Tree) : List Run → Disk → Prop
  | [], _ => True
  | run :: runs, disk => Ready env legacy t₀ disk.destination ∧ ReadyRuns env legacy t₀ runs (migrate env run disk).1

variable {t : Tree} {runs : List Run}

theorem Ready.refl : Ready env legacy t₀ t₀ := by
  cases h : keeps t₀ with
  | true => exact .inl h
  | false => exact .inr (.inl h)

theorem Ready.of_allDone (h : AllDone env legacy t₀ t) : Ready env legacy t₀ t := .inr (.inr fun q _ ht hp => h q ht hp)

/-- What a run leaves. -/
theorem migrate_spec (hJ : Closed env legacy t₀ J) (hl : legacy.WellFormed) (hap : env.Apart) (hs : Steady env legacy t₀)
    (hdisk : disk.legacy = legacy) (ht : J disk.destination) (hrd : Ready env legacy t₀ disk.destination) (run : Run) :
    (migrate env run disk).1.legacy = legacy ∧ J (migrate env run disk).1.destination ∧
      ((migrate env run disk).2 = .ok () → AllDone env legacy t₀ (migrate env run disk).1.destination ∧
        Opened (migrate env run disk).1.destination) := by
  have htri : Fallible.Triple _ (migrateDataAt env run) _ _ := migrateDataAt_triple hJ hl hap hs
  have h := htri ⟨disk, 0, 0, false⟩ ⟨hdisk, ht, hrd⟩
  rw [migrate]
  split at h
  · rename_i s a heq
    dsimp only
    rw [heq]
    exact ⟨h.1, h.2.1, fun _ => h.2.2⟩
  · rename_i s e heq
    dsimp only
    rw [heq]
    exact ⟨h.1, h.2, nofun⟩

/-- What runs leave, by induction on them. -/
theorem migrateAll_spec (hJ : Closed env legacy t₀ J) (hl : legacy.WellFormed) (hap : env.Apart) (hs : Steady env legacy t₀)
    (hdisk : disk.legacy = legacy) (ht : J disk.destination) (hrd : ReadyRuns env legacy t₀ runs disk) :
    (migrateAll env runs disk).legacy = legacy ∧ J (migrateAll env runs disk).destination := by
  induction runs generalizing disk with
  | nil => exact ⟨hdisk, ht⟩
  | cons run runs ih =>
    obtain ⟨hl', hJ', -⟩ := migrate_spec hJ hl hap hs hdisk ht hrd.1 run
    exact ih hl' hJ' hrd.2

theorem readyRuns_append {run : Run} (h : ReadyRuns env legacy t₀ (runs ++ [run]) disk) :
    ReadyRuns env legacy t₀ runs disk ∧ Ready env legacy t₀ (migrateAll env runs disk).destination := by
  induction runs generalizing disk with
  | nil => exact ⟨trivial, h.1⟩
  | cons run' runs ih =>
    obtain ⟨hruns, hrd⟩ := ih h.2
    exact ⟨⟨h.1, hruns⟩, hrd⟩

/-- Nothing is left to do from a destination that is done: no step starts there. -/
theorem closed_done (hi : Invariant env legacy t₀ t) (hd : AllDone env legacy t₀ t) : Closed env legacy t₀ fun u => u = t := by
  refine ⟨fun u u' heq hst => ?_, fun u heq => heq ▸ hi⟩
  obtain ⟨q, ht, hn, hp, -⟩ := hst
  exact absurd (heq ▸ hn) (hd q ht hp)

theorem eq_planned (hi : Invariant env legacy t₀ t) (hd : AllDone env legacy t₀ t) {q : Path} (hq : ¬Temporary q) :
    t q = planned env legacy t₀ q := by
  by_cases hn : t q = none
  · by_cases hp : planned env legacy t₀ q = none
    · rw [hn, hp]
    · exact absurd hn (hd q hq hp)
  · exact hi.planned q hq hn

end

/-- **A migration that was cut off is resumed.** However the calls of some runs fail, and where each of them finds the
configuration files that were there before, or none, or all: when a run ends well, the destination is the one that any
single run would have left, what was there is as it was, and further runs change nothing. -/
theorem migration_resumable (env : Environment) (disk : Disk) (runs : List Run) (run : Run) (hlegacy : disk.legacy.WellFormed)
    (hapart : env.Apart) (hsteady : Steady env disk.legacy disk.destination)
    (hready : ReadyRuns env disk.legacy disk.destination (runs ++ [run]) disk)
    (hok : (migrate env run (migrateAll env runs disk)).2 = .ok ()) :
    (∀ q, ¬Temporary q →
        (migrate env run (migrateAll env runs disk)).1.destination q = planned env disk.legacy disk.destination q ∧
          ∀ single, (migrate env single disk).2 = .ok () →
            (migrate env run (migrateAll env runs disk)).1.destination q = (migrate env single disk).1.destination q) ∧
      (∀ q, disk.destination q ≠ none → (migrate env run (migrateAll env runs disk)).1.destination q = disk.destination q) ∧
      (migrate env run (migrateAll env runs disk)).1.legacy = disk.legacy ∧
      ∀ more : List Run, migrateAll env more (migrate env run (migrateAll env runs disk)).1 =
        (migrate env run (migrateAll env runs disk)).1 := by
  have hcl : Closed env disk.legacy disk.destination (Invariant env disk.legacy disk.destination) :=
    ⟨fun _ _ h hst => h.step hst, fun _ => id⟩
  obtain ⟨hruns, hl⟩ := readyRuns_append hready
  obtain ⟨hdisk, hinv⟩ := migrateAll_spec hcl hlegacy hapart hsteady rfl .refl hruns
  obtain ⟨hfin, hinv, hd⟩ := migrate_spec hcl hlegacy hapart hsteady hdisk hinv hl run
  obtain ⟨hd, -⟩ := hd hok
  generalize (migrate env run (migrateAll env runs disk)).1 = final at *
  refine ⟨fun q hq => ⟨eq_planned hinv hd hq, fun single hsing => ?_⟩, hinv.kept, hfin, fun more => ?_⟩
  · obtain ⟨-, hinv', hd'⟩ := migrate_spec hcl hlegacy hapart hsteady rfl .refl .refl single
    rw [eq_planned hinv hd hq, eq_planned hinv' (hd' hsing).1 hq]
  · have hsm := closed_done hinv hd
    induction more with
    | nil => rfl
    | cons run' more ih =>
      obtain ⟨hlegacy', heq, -⟩ := migrate_spec hsm hlegacy hapart hsteady hfin rfl (.of_allDone hd) run'
      have hstay : (migrate env run' final).1 = final := by
        cases hrun : (migrate env run' final).1 with
        | mk legacy destination =>
          rw [hrun] at hlegacy' heq
          cases final
          rw [show legacy = _ from hlegacy'.trans hfin.symm, show destination = _ from heq]
      change migrateAll env more (migrate env run' final).1 = final
      rw [hstay, ih]

/-! ### Cases -/

section

def sampleEnvironment : Environment where
  source := [.ofText "Nebula".toList]
  destination := [.ofText "Pebrel".toList]
  permissions := 420
  behindLinks _ _ := none
  createBehind t _ := t

/-- A run that is cut off at this call. -/
def sampleRun (crash : Option ℕ) : Run := ⟨fun n => if some n = crash then .crash 0 else .done, fun n => (1, 1, n)⟩

def sampleDisk : Disk := ⟨.directory (.leaf (.ofText "nebula.lua".toList) (.file ⟨[1], 420⟩) .nil), fun _ => none⟩

theorem ok_of_isOk {x : Except Failure Unit} (h : x.isOk = true) : x = .ok () := by
  cases x with
  | error e => exact nomatch h
  | ok a => rfl

theorem migration_resumable_sample :
    (migrate sampleEnvironment (sampleRun none) (migrateAll sampleEnvironment [sampleRun (some 20)] sampleDisk)).1.destination
      [.ofText "pebrel.lua".toList] = planned sampleEnvironment sampleDisk.legacy sampleDisk.destination [.ofText "pebrel.lua".toList] := by
  have hleg : sampleDisk.legacy.WellFormed := by
    constructor
    · rintro l ⟨⟩
      exact ⟨not_mem_nil, trivial⟩
    · rintro l ⟨⟩
      exact ⟨by decide, trivial⟩
  have hap : sampleEnvironment.Apart := ⟨by decide, by decide⟩
  have hstd : Steady sampleEnvironment sampleDisk.legacy sampleDisk.destination :=
    ⟨fun _ _ _ => nofun, fun _ _ _ => nofun, fun _ _ _ _ _ _ _ => rfl⟩
  have hcut : keeps (migrate sampleEnvironment (sampleRun (some 20)) sampleDisk).1.destination = false := by decide +kernel
  have hrd : ReadyRuns sampleEnvironment sampleDisk.legacy sampleDisk.destination ([sampleRun (some 20)] ++ [sampleRun none]) sampleDisk :=
    ⟨.refl, .inr (.inl hcut), trivial⟩
  have hok : (migrate sampleEnvironment (sampleRun none) (migrateAll sampleEnvironment [sampleRun (some 20)] sampleDisk)).2 = .ok () :=
    ok_of_isOk (by decide +kernel)
  exact ((migration_resumable sampleEnvironment sampleDisk [sampleRun (some 20)] (sampleRun none) hleg hap hstd hrd hok).1 _
    (not_temporary (by decide))).1

def sampleConfigs : Disk :=
  ⟨.directory (.leaf (.ofText "pebrel.lua".toList) (.file ⟨[1], 420⟩) (.leaf (.ofText "pebrel.toml".toList) (.file ⟨[2], 420⟩) .nil)),
    fun _ => none⟩

/-- A run is cut off between two configuration files: the next one leaves the second out, and ends well. -/
theorem migration_drops_config :
    (migrate sampleEnvironment (sampleRun none) (migrate sampleEnvironment (sampleRun (some 25)) sampleConfigs).1).2 = .ok () ∧
      (migrate sampleEnvironment (sampleRun none) sampleConfigs).2 = .ok () ∧ ¬Temporary [.ofText "pebrel.toml".toList] ∧
      (migrate sampleEnvironment (sampleRun none) (migrate sampleEnvironment (sampleRun (some 25)) sampleConfigs).1).1.destination
        [.ofText "pebrel.toml".toList] = none ∧
      (migrate sampleEnvironment (sampleRun none) sampleConfigs).1.destination [.ofText "pebrel.toml".toList] = some (.file ⟨[2], 420⟩) := by
  refine ⟨ok_of_isOk ?_, ok_of_isOk ?_, not_temporary ?_, ?_, ?_⟩ <;> decide +kernel

end

end Pebrel.Settings.Migration
