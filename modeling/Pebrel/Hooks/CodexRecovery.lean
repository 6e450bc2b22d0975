import Pebrel.Hooks.CodexHooks
import Pebrel.Hooks.GroupMerge

/-!
# Codex hooks across crashes

In every run of installs and removals that may be cut off, the foreign groups stay, and the
hook file holds besides them the groups that the marker records, or those that a call wrote
before it was cut off (`Invariant`). Where the next call can tell its own groups in that state
(`Recoverable`), it succeeds: an install leaves exactly the desired groups, and a removal none
of ours, with the feature flag as it was, unless hooks of others are left that need it
(`codex_hooks_recoverable`).
-/

namespace Pebrel.Hooks.Codex

open Library Transition List Option

variable {γ ρ : Type} [DecidableEq γ] [DecidableEq ρ] {value : HookGroup → γ} {windows : Bool} {helper : Text} {mode : CodexHookMode}

/-! ### What is held -/

section
variable (value windows)

/-- The groups that an install can write. -/
def ours : Set γ := fun v => ∃ helper mode event, v ∈ (groups value windows helper mode).at event

end

omit [DecidableEq γ] in
theorem isOurs_groups : IsOurs (ours value windows) (groups value windows helper mode) := by
  refine ⟨_, mode.events, mode.nodup_events, mode.events_subset, fun name hnm => ⟨helper, mode, name, ?_⟩, rfl⟩
  rw [groups, codexGroups]
  exact (at_single.trans (if_pos hnm)) ▸ mem_singleton_self _

omit [DecidableEq γ] in
theorem groups_ne_nil : groups value windows helper mode ≠ [] := by cases mode <;> exact cons_ne_nil _ _

/-- The groups of the marker. -/
def recorded (s : Files γ ρ) : Groups γ :=
  match s.marker with
  | some (.marker (some groups) _) => groups
  | _ => []

def enabled (s : Files γ ρ) : Bool :=
  match s.marker with
  | some (.marker _ enabledFeature) => enabledFeature.getD false
  | _ => false

/-- The groups of ours that the hook file holds. -/
def held (s : Files γ ρ) : Groups γ := s.begun.getD (recorded s)

/-- The groups under an event of the hook file. -/
def listed (s : Files γ ρ) (event : Text) : List γ :=
  match readHooks s.hooks with
  | .ok (events, _) => listOf (events.get? event)
  | .error _ => []

/-- The groups held are those of the marker; or there is no marker and they are the desired
ones; or none is held, and no other group stands under the events of the marker. -/
def Recoverable (s : Files γ ρ) (desired : Groups γ) : Prop :=
  recorded s = held s ∨ recorded s = [] ∧ desired = held s ∨ held s = [] ∧ ∀ e ∈ recorded s, listed s e.1 = []

instance (s : Files γ ρ) (desired : Groups γ) : Decidable (Recoverable s desired) := inferInstanceAs (Decidable (_ ∨ _ ∨ _))

/-- What there was before the first install. -/
structure Base (γ ρ : Type) where
  events : Assoc.Map Text (Entry γ)
  others : List (Text × γ)
  features : Features
  inlineHooks : Bool
  rest : ρ

variable {b : Base γ ρ} {s s' s₀ : Files γ ρ} {desired : Groups γ}

namespace Base

def foreign (b : Base γ ρ) (event : Text) : List γ := listOf (b.events.get? event)

/-- No hook but ours, neither in the hook file nor in the configuration. -/
def Lone (b : Base γ ρ) : Prop := b.inlineHooks = false ∧ ∀ event, b.events.get? event = none ∨ b.events.get? event = some (.groups [])

end Base

section
variable (value windows)

/-- The hook file is one of hooks, with no groups of ours, and the user has not opted out. -/
structure Base.Sound (b : Base γ ρ) : Prop where
  arrays : ∀ event ∈ codexFullEvents, IsArray (b.events.get? event)
  foreign : ∀ event, ∀ v ∈ b.foreign event, v ∉ ours value windows
  hooks : b.features.hooks = .missing ∨ b.features.hooks = .bool true
  codexHooks : b.features.codexHooks ≠ .bool false
  table : b.features ≠ .other

/-- Nothing is installed. -/
structure Initial (b : Base γ ρ) (s : Files γ ρ) : Prop where
  hooks : readHooks s.hooks = .ok (b.events, b.others)
  marker : s.marker = none
  config : s.config = some (.toml b.features b.inlineHooks b.rest)
  begun : s.begun = none

end

/-- The hook file holds the groups, and the foreign ones. -/
def HooksHold (b : Base γ ρ) (groups : Groups γ) (s : Files γ ρ) : Prop :=
  ∃ events, readHooks s.hooks = .ok (events, b.others) ∧ (∀ event ∈ codexFullEvents, IsArray (events.get? event)) ∧
    Holds b.foreign groups events ∧ Untouched b.events events

/-- The feature flag is as it was, or it is on; it is on for nobody else only if the marker tells. -/
structure Flagged (b : Base γ ρ) (s : Files γ ρ) (features : Features) : Prop where
  codexHooks : features.codexHooks = b.features.codexHooks
  table : features ≠ .other
  missing : b.features.hooks = .missing → features.hooks = .missing ∨ features.hooks = .bool true ∧ (b.Lone → enabled s = true)
  present : b.features.hooks = .bool true → features.hooks = .bool true ∧ enabled s = false

section
variable (value windows)

structure Invariant (b : Base γ ρ) (s : Files γ ρ) : Prop where
  hooks : HooksHold b (held s) s
  marker : s.marker = none ∨ ∃ groups enabledFeature, s.marker = some (.marker (some groups) (some enabledFeature)) ∧ groups ≠ []
  markerOurs : IsOurs (ours value windows) (recorded s)
  config : ∃ features, s.config = some (.toml features b.inlineHooks b.rest) ∧ Flagged b s features

end

omit [DecidableEq γ] [DecidableEq ρ] in
theorem Initial.invariant [Nonempty γ] (h : Initial b s) (hb : b.Sound value windows) : Invariant value windows b s := by
  have hr : recorded s = [] := by rw [recorded, h.marker]
  have hh : held s = [] := by rw [held, h.begun, getD_none, hr]
  have hen : enabled s = false := by rw [enabled, h.marker]
  refine ⟨⟨b.events, h.hooks, hb.arrays, fun event => ?_, fun _ _ => .inl rfl⟩, .inl h.marker, hr ▸ isOurs_nil,
    b.features, h.config, ⟨rfl, hb.table, .inl, fun hp => ⟨hp, hen⟩⟩⟩
  rw [hh, at_nil, append_nil]
  rfl

/-! ### Merging -/

omit [DecidableEq γ] [DecidableEq ρ] in
theorem Recoverable.mergeable (h : Recoverable s desired) (hhoo : HooksHold b (held s) s) :
    Mergeable b.foreign (held s) (recorded s) desired := by
  rcases h with h | ⟨hr, hd⟩ | ⟨hheld, hn⟩
  · exact .recorded h
  · exact .desired hr hd
  · refine .gone hheld fun e he => ?_
    obtain ⟨events, hrd, -, hh, -⟩ := hhoo
    have hl := hn e he
    simp only [listed, hrd, hh e.1, hheld, at_nil, append_nil] at hl
    exact hl

omit [DecidableEq ρ] in
/-- A merge in a recoverable state gives a hook file with the desired groups. -/
theorem Invariant.merge (h : Invariant value windows b s) (hb : b.Sound value windows)
    (hd : IsOurs (ours value windows) desired) (hreco : Recoverable s desired) :
    ∃ document, mergeGroups s.hooks (recorded s) desired = .ok document ∧
      (∀ s' : Files γ ρ, s'.hooks = some document → HooksHold b desired s') ∧
      (recorded s ≠ desired → ∀ events others, readHooks (some document) = .ok (events, others) →
        ∀ event, events.get? event ≠ some (.groups [])) := by
  obtain ⟨events, hrd, ha, hh, hu⟩ := h.hooks
  obtain ⟨document, events', hmg, hrd', ha', hh', hu', he⟩ :=
    mergeGroups_holds hrd ha hh hb.foreign h.markerOurs hd (hreco.mergeable h.hooks)
  refine ⟨document, hmg, fun s' hs' => ⟨events', hs' ▸ hrd', ha', hh', hu.trans hu'⟩, fun hne events1 others1 hrd1 => ?_⟩
  obtain ⟨rfl, -⟩ := Prod.mk.inj (Except.ok.inj (hrd'.symm.trans hrd1))
  exact he hne

/-! ### Writing -/

/-- After the hook file: the desired groups are in it, the other files are as before. -/
structure HooksWritten (b : Base γ ρ) (s₀ : Files γ ρ) (desired : Groups γ) (s : Files γ ρ) : Prop where
  hooks : HooksHold b desired s
  marker : s.marker = s₀.marker
  config : s.config = s₀.config
  begun : s.begun = some desired ∨ s = s₀

omit [DecidableEq γ] [DecidableEq ρ] in
theorem HooksWritten.invariant (h : HooksWritten b s₀ desired s) (h0 : Invariant value windows b s₀) : Invariant value windows b s := by
  rcases h.begun with hb | rfl
  · have hh : held s = desired := by rw [held, hb, getD_some]
    have hr : recorded s = recorded s₀ := by rw [recorded, recorded, h.marker]
    have hen : enabled s = enabled s₀ := by rw [enabled, enabled, h.marker]
    obtain ⟨features, hc, hfl⟩ := h0.config
    exact ⟨hh ▸ h.hooks, h.marker ▸ h0.marker, hr ▸ h0.markerOurs, features, h.config.trans hc,
      hfl.codexHooks, hfl.table, hen ▸ hfl.missing, hen ▸ hfl.present⟩
  · exact h0

omit [DecidableEq ρ] in
theorem writeHooks_spec {document : Document γ} (h0 : Invariant value windows b s₀)
    (hhd : ∀ s : Files γ ρ, s.hooks = some document → HooksHold b desired s) :
    Cut.Spec (fun s => s = s₀) (writeHooks document desired) (fun _ s => HooksWritten b s₀ desired s ∧ s.hooks = some document)
      (Invariant value windows b) := by
  refine .look_bind ?_
  rintro s rfl
  split
  · rename_i hsm
    refine .pure ?_
    rintro _ rfl
    exact ⟨⟨hhd _ hsm, rfl, rfl, .inr rfl⟩, hsm⟩
  · refine .bind (.write (Q := fun _ s' => HooksWritten b s desired s' ∧ s'.hooks = some document) ?_ ?_) fun _ => .pure fun _ => id
    · rintro _ rfl
      exact h0
    · rintro _ rfl
      exact ⟨⟨hhd _ rfl, rfl, rfl, .inl rfl⟩, rfl⟩

section
variable (value windows)

/-- After the marker: it records what the hook file holds. -/
structure MarkerWritten (b : Base γ ρ) (desired : Groups γ) (enabledFeature : Bool) (s : Files γ ρ) : Prop where
  invariant : Invariant value windows b s
  hooks : HooksHold b desired s
  marker : s.marker = some (.marker (some desired) (some enabledFeature))
  held : held s = desired

end

omit [DecidableEq γ] [DecidableEq ρ] in
theorem HooksHold.at_eq {groups groups' : Groups γ} (h : HooksHold b groups s) (h' : HooksHold b groups' s) (event : Text) :
    groups.at event = groups'.at event := by
  obtain ⟨events, hrd, -, hh, -⟩ := h
  obtain ⟨events', hrd', -, hh', -⟩ := h'
  obtain ⟨rfl, -⟩ := Prod.mk.inj (Except.ok.inj (hrd.symm.trans hrd'))
  exact append_cancel_left ((hh event).symm.trans (hh' event))

omit [DecidableEq γ] in
theorem eq_nil_of_at {set : Set γ} {groups : Groups γ} (h : IsOurs set groups) (hn : ∀ event, groups.at event = []) : groups = [] := by
  obtain ⟨g, names, -, -, -, rfl⟩ := h
  cases names with
  | nil => rfl
  | cons name names => exact nomatch (at_single.trans (if_pos mem_cons_self)).symm.trans (hn name)

omit [DecidableEq γ] [DecidableEq ρ] in
/-- What a recoverable state holds is what is recorded, if that is what is desired. -/
theorem Recoverable.held_eq (h : Recoverable s desired) (hi : Invariant value windows b s) (hh : HooksHold b desired s)
    (hd : IsOurs (ours value windows) desired) (hr : recorded s = desired) : held s = desired := by
  rcases h with hsm | ⟨-, hsm⟩ | ⟨hn, -⟩
  · exact hsm.symm.trans hr
  · exact hsm.symm
  · refine hn.trans (eq_nil_of_at hd fun event => ?_).symm
    rw [hh.at_eq hi.hooks, hn, at_nil]

omit [DecidableEq ρ] in
/-- The marker may say that the flag was introduced before the flag is. -/
theorem writeMarker_spec {enabledFeature : Bool} (hd : IsOurs (ours value windows) desired) (hne : desired ≠ [])
    (h0 : Invariant value windows b s₀)
    (hreco : Recoverable s₀ desired) (hmis : b.features.hooks = .missing → enabled s₀ = true → enabledFeature = true)
    (hpre : b.features.hooks = .bool true → enabledFeature = false) :
    Cut.Spec (HooksWritten b s₀ desired) (writeMarker desired enabledFeature)
      (fun _ => MarkerWritten value windows b desired enabledFeature) (Invariant value windows b) := by
  refine .look_bind fun s h => ?_
  have hi := h.invariant h0
  split
  · rename_i hsm
    refine .pure ?_
    rintro _ rfl
    refine ⟨hi, h.hooks, hsm, ?_⟩
    rcases h.begun with hb | rfl
    · rw [held, hb, getD_some]
    · exact hreco.held_eq h0 h.hooks hd (by rw [recorded, hsm])
  · refine .bind (.write (Q := fun _ => MarkerWritten value windows b desired enabledFeature) ?_ ?_) fun _ => .pure fun _ => id
    · rintro _ rfl
      exact hi
    · rintro _ rfl
      obtain ⟨features, hc, hfl⟩ := h0.config
      refine ⟨⟨h.hooks, .inr ⟨_, _, rfl, hne⟩, hd, features, h.config.trans hc, hfl.codexHooks, hfl.table,
        fun hm => ?_, fun hp => ⟨(hfl.present hp).1, hpre hp⟩⟩, h.hooks, rfl, rfl⟩
      rcases hfl.missing hm with hmiss | ⟨hon, hen⟩
      · exact .inl hmiss
      · exact .inr ⟨hon, fun hlone => hmis hm (hen hlone)⟩

/-- After the configuration: the flag is on. -/
structure Installed (b : Base γ ρ) (desired : Groups γ) (s : Files γ ρ) : Prop where
  hooks : HooksHold b desired s
  marker : ∃ enabledFeature, s.marker = some (.marker (some desired) (some enabledFeature))
  held : held s = desired
  config : ∃ features, s.config = some (.toml features b.inlineHooks b.rest) ∧ features.hooks = .bool true

omit [DecidableEq γ] in
theorem writeConfig_eq {config : Config ρ} {E : Files γ ρ → Prop} (h : E s) :
    Cut.Spec (fun s' => s' = s) (writeConfig config) (fun _ s' => s' = { s with config := some config }) E := by
  refine .look_bind ?_
  rintro s rfl
  split
  · rename_i hsm
    refine .pure ?_
    rintro ⟨hooks, marker, config, begun⟩ rfl
    obtain rfl := hsm
    rfl
  · refine .bind (.write (Q := fun _ s' => s' = { s with config := some config }) ?_ ?_) fun _ => .pure fun _ => id
    · rintro _ rfl
      exact h
    · rintro _ rfl
      rfl

omit [DecidableEq γ] in
theorem writeConfig_spec {enabledFeature : Bool} {features : Features} (hon : features.hooks = .bool true)
    (hfl : ∀ s, MarkerWritten value windows b desired enabledFeature s → Flagged b s features) :
    Cut.Spec (MarkerWritten value windows b desired enabledFeature) (writeConfig (.toml features b.inlineHooks b.rest))
      (fun _ s => Invariant value windows b s ∧ Installed b desired s) (Invariant value windows b) := by
  refine .of_forall fun s h => (writeConfig_eq h.invariant).conseq (fun _ => id) ?_ fun _ => id
  rintro _ _ rfl
  obtain ⟨hhoo, hmk, hr, -⟩ := h.invariant
  have hf := hfl s h
  exact ⟨⟨hhoo, hmk, hr, features, rfl, hf.codexHooks, hf.table, hf.missing, hf.present⟩,
    h.hooks, ⟨_, h.marker⟩, h.held, features, rfl, hon⟩

/-! ### Operations -/

omit [DecidableEq γ] [DecidableEq ρ] in
theorem Invariant.readMarker (h : Invariant value windows b s) : readMarker s.marker = .ok (recorded s, enabled s) := by
  rcases h.marker with hn | ⟨groups, enabledFeature, hs⟩
  · rw [recorded, enabled, hn]
    rfl
  · rw [recorded, enabled, hs.1]
    rfl

omit [DecidableEq γ] [DecidableEq ρ] in
/-- The flag can be enabled; whether it was missing. -/
theorem Flagged.enable {features : Features} (h : Flagged b s features) (hb : b.Sound value windows) :
    ∃ features', enableCodexFeature (.toml features b.inlineHooks b.rest) =
        .ok (some (.toml features' b.inlineHooks b.rest, decide (features.hooks = .missing))) ∧
      features'.hooks = .bool true ∧ features'.codexHooks = b.features.codexHooks ∧ features' ≠ .other := by
  have hfl : features.hooks = .missing ∨ features.hooks = .bool true := by
    rcases hb.hooks with hm | hp
    · exact (h.missing hm).imp id And.left
    · exact .inr (h.present hp).1
  have hc : features.codexHooks ≠ .bool false := h.codexHooks ▸ hb.codexHooks
  unfold enableCodexFeature
  rcases hfl with hfl | hfl
  · refine ⟨.table (.bool true) features.codexHooks, ?_, rfl, h.codexHooks, nofun⟩
    dsimp only
    rw [if_neg fun hor => hor.elim (fun hf => nomatch hfl.symm.trans hf) hc, hfl]
    cases features with
    | other => exact absurd rfl h.table
    | missing => rfl
    | table hooks codexHooks => rfl
  · refine ⟨features, ?_, hfl, h.codexHooks, h.table⟩
    dsimp only
    rw [if_neg fun hor => hor.elim (fun hf => nomatch hfl.symm.trans hf) hc, hfl]
    rfl

/-- An install in a recoverable state succeeds. -/
theorem install_spec (h : Invariant value windows b s₀) (hb : b.Sound value windows)
    (hreco : Recoverable s₀ (groups value windows helper mode)) :
    Cut.Spec (fun s => s = s₀) (install value windows helper mode)
      (fun reply s => (∃ changed, reply = .ok changed) ∧ Invariant value windows b s ∧ Installed b (groups value windows helper mode) s)
      (Invariant value windows b) := by
  obtain ⟨features, hc, hfl⟩ := h.config
  obtain ⟨features', hena, hon, hcod, htb⟩ := hfl.enable hb
  obtain ⟨document, hmg, hhd, -⟩ := h.merge hb isOurs_groups hreco
  refine .look_bind ?_
  rintro s rfl
  simp only [hc, hena, h.readMarker, hmg]
  have hmis (hm : b.features.hooks = .missing) (he : enabled s = true) : (enabled s || decide (features.hooks = .missing)) = true := by
    rw [he, Bool.true_or]
  have hpre (hp : b.features.hooks = .bool true) : (enabled s || decide (features.hooks = .missing)) = false := by
    obtain ⟨htrue, hf⟩ := hfl.present hp
    rw [hf, htrue]
    rfl
  refine .bind (writeHooks_spec h hhd) fun _ => .bind
    ((writeMarker_spec isOurs_groups groups_ne_nil h hreco hmis hpre).of_pre fun _ hs => hs.1)
    fun _ => .bind (writeConfig_spec hon ?_) fun _ => .pure fun s hs => ⟨⟨_, rfl⟩, hs⟩
  intro s' hs
  have hen : enabled s' = (enabled s || decide (features.hooks = .missing)) := by
    rw [enabled, hs.marker]
    rfl
  refine ⟨hcod, htb, fun hm => .inr ⟨hon, fun hlone => ?_⟩, fun hp => ⟨hon, hen.trans (hpre hp)⟩⟩
  rw [hen]
  rcases hfl.missing hm with hmiss | ⟨-, he⟩
  · rw [hmiss]
    exact Bool.or_true _
  · rw [he hlone, Bool.true_or]

omit [DecidableEq ρ] in
/-- A removal leaves no hook exactly if there are no foreign ones. -/
theorem noHooks_iff {document : Document γ} (hb : b.Sound value windows) (hmg : mergeGroups s.hooks (recorded s) [] = .ok document)
    (hne : recorded s ≠ []) (hhd : HooksHold b [] s') (hs' : s'.hooks = some document)
    (he : ∀ events others, readHooks (some document) = .ok (events, others) → ∀ event, events.get? event ≠ some (.groups [])) :
    noHooks document = true ↔ ∀ event, b.events.get? event = none ∨ b.events.get? event = some (.groups []) := by
  obtain ⟨events, others, rfl⟩ := mergeGroups_object hmg hne
  obtain ⟨events', hrd, ha, hh, hu⟩ := hhd
  rw [hs'] at hrd
  obtain ⟨rfl, -⟩ := Prod.mk.inj (Except.ok.inj hrd)
  have hg (event : Text) : events.get? event = none ↔ b.events.get? event = none ∨ b.events.get? event = some (.groups []) := by
    by_cases hev : event ∈ codexFullEvents
    · have hn : events.get? event = none ↔ listOf (events.get? event) = [] := by
        rw [(ha event hev).listOf_eq_nil, or_iff_left (he events others rfl event)]
      rw [hn, ← (hb.arrays event hev).listOf_eq_nil, hh, at_nil, append_nil]
      rfl
    · rcases hu event hev with hsm | ⟨hgrs, hn⟩
      · rw [← hsm, or_iff_left (he events others rfl event)]
      · rw [hn, hgrs]
        simp
  rw [noHooks, List.isEmpty_iff, Assoc.Map.entries_eq_nil_iff]
  exact forall_congr' hg

/-- What a removal leaves before it takes the marker away: none of our groups, and the flag as it was if no hook is left. -/
structure Cleared (b : Base γ ρ) (s₀ s : Files γ ρ) : Prop where
  hooks : HooksHold b [] s
  config : ∃ features, s.config = some (.toml features b.inlineHooks b.rest) ∧ Flagged b s features ∧
    (b.Lone → features.hooks = b.features.hooks) ∧ (¬b.Lone → s.config = s₀.config)

omit [DecidableEq γ] in
theorem removeFeature_spec {document : Document γ} {groups : Groups γ} {enabledFeature : Bool} (hb : b.Sound value windows)
    (h0 : Invariant value windows b s₀) (hmk : s₀.marker = some (.marker (some groups) (some enabledFeature)))
    (hlone : noHooks document = true ↔ ∀ event, b.events.get? event = none ∨ b.events.get? event = some (.groups [])) :
    Cut.Spec (HooksWritten b s₀ []) (removeFeature (some enabledFeature) document)
      (fun reply s => reply = .ok () ∧ Invariant value windows b s ∧ Cleared b s₀ s) (Invariant value windows b) := by
  obtain ⟨features, hc, hfl⟩ := h0.config
  have hen : enabled s₀ = enabledFeature := by
    rw [enabled, hmk]
    rfl
  have hfl' {s : Files γ ρ} (hs : HooksWritten b s₀ [] s) : Flagged b s features := by
    have hen : enabled s = enabled s₀ := by rw [enabled, enabled, hs.marker]
    exact ⟨hfl.codexHooks, hfl.table, hen ▸ hfl.missing, hen ▸ hfl.present⟩
  have hkeep {s : Files γ ρ} (hs : HooksWritten b s₀ [] s) (hl : b.Lone → features.hooks = b.features.hooks) :
      Invariant value windows b s ∧ Cleared b s₀ s :=
    ⟨hs.invariant h0, hs.hooks, features, hs.config.trans hc, hfl' hs, hl, fun _ => hs.config⟩
  rw [removeFeature]
  split
  · rename_i hrm
    have htrue : enabledFeature = true := some.inj hrm.1
    have hmiss : b.features.hooks = .missing := hb.hooks.resolve_right fun hp =>
      nomatch (hen.trans htrue).symm.trans (hfl.present hp).2
    refine .look_bind fun s hs => ?_
    simp only [hs.config.trans hc]
    split
    · rename_i hon
      have hl : b.Lone := ⟨hon.1, hlone.mp hrm.2⟩
      refine .bind (writeConfig_eq (hs.invariant h0)) fun _ => .pure ?_
      rintro _ rfl
      obtain ⟨hhoo, hmk, hr, -⟩ := hs.invariant h0
      have hf : Flagged b { s with config := some (.toml (.table .missing features.codexHooks) b.inlineHooks b.rest) }
          (.table .missing features.codexHooks) :=
        ⟨hfl.codexHooks, nofun, fun _ => .inl rfl, fun hp => nomatch hmiss.symm.trans hp⟩
      exact ⟨rfl, ⟨hhoo, hmk, hr, _, rfl, hf⟩, hs.hooks, _, rfl, hf, fun _ => hmiss.symm, fun hn => absurd hl hn⟩
    · rename_i ho
      refine .pure ?_
      rintro _ rfl
      refine ⟨rfl, hkeep hs fun hl => ?_⟩
      rw [hmiss]
      exact (hfl.missing hmiss).resolve_right fun hon => ho ⟨hl.1, hon.1⟩
  · rename_i hn
    refine .pure fun s hs => ⟨rfl, hkeep hs fun hl => ?_⟩
    rcases hb.hooks with hm | hp
    · rw [hm]
      exact (hfl.missing hm).resolve_right fun hon => hn ⟨congrArg some (hen.symm.trans (hon.2 hl)), hlone.mpr hl.2⟩
    · rw [hp]
      exact (hfl.present hp).1

omit [DecidableEq γ] [DecidableEq ρ] in
theorem Cleared.removed [Nonempty γ] (value : HookGroup → γ) (windows : Bool) (h : Cleared b s₀ s) :
    Invariant value windows b { s with marker := none, begun := none } ∧ Cleared b s₀ { s with marker := none, begun := none } := by
  obtain ⟨hh, features, hc, hfl, hlone, hk⟩ := h
  have hfl' : Flagged b { s with marker := none, begun := none } features :=
    ⟨hfl.codexHooks, hfl.table, fun hm => (hfl.missing hm).imp_right fun hon => ⟨hon.1, fun hl =>
      nomatch hon.1.symm.trans ((hlone hl).trans hm)⟩, fun hp => ⟨(hfl.present hp).1, rfl⟩⟩
  exact ⟨⟨hh, .inl rfl, isOurs_nil, features, hc, hfl'⟩, hh, features, hc, hfl', hlone, hk⟩

/-- A removal in a recoverable state succeeds. -/
theorem remove_spec [Nonempty γ] (h : Invariant value windows b s₀) (hb : b.Sound value windows)
    (hreco : s₀.marker = none ∨ Recoverable s₀ []) :
    Cut.Spec (fun s => s = s₀) (remove : Cut (Files γ ρ) _)
      (fun reply s => Invariant value windows b s ∧ (s₀.marker ≠ none → reply = .ok true ∧ s.marker = none ∧ Cleared b s₀ s))
      (Invariant value windows b) := by
  refine .look_bind ?_
  rintro s rfl
  rcases h.marker with hn | ⟨groups, enabledFeature, hsome, hne⟩
  · rw [hn]
    refine .pure ?_
    rintro _ rfl
    exact ⟨h, fun hmk => absurd rfl hmk⟩
  · have hrec : recorded s = groups := by rw [recorded, hsome]
    have hr : Recoverable s [] := hreco.resolve_left fun hn => nomatch hn.symm.trans hsome
    obtain ⟨document, hmg, hhd, he⟩ := h.merge hb isOurs_nil hr
    have hmg' : mergeGroups s.hooks groups [] = .ok document := hrec ▸ hmg
    simp only [hsome, hmg']
    have hlone := noHooks_iff hb hmg (hrec.symm ▸ hne) (hhd { s with hooks := some document } rfl) rfl (he (hrec.symm ▸ hne))
    refine .bind (writeHooks_spec h hhd) fun _ => .bind ((removeFeature_spec hb h hsome hlone).of_pre fun _ hs => hs.1) fun reply => ?_
    refine .of_forall fun t ⟨hrep, hi, hc⟩ => ?_
    subst hrep
    obtain ⟨hrm, hc⟩ := hc.removed value windows
    refine .bind (.write (Q := fun _ t' => t' = { t with marker := none, begun := none }) ?_ ?_) fun _ => .pure ?_
    · rintro _ rfl
      exact hi
    · rintro _ rfl
      rfl
    · rintro _ rfl
      exact ⟨hrm, fun _ => ⟨rfl, rfl, hc⟩⟩

/-! ### Runs -/

section
variable (value windows)

/-- The call can tell the groups of ours in the hook file. -/
def Tells (s : Files γ ρ) : Action → Prop
  | .install helper mode _ => Recoverable s (groups value windows helper mode)
  | .remove _ => s.marker = none ∨ Recoverable s []

instance (s : Files γ ρ) (a : Action) : Decidable (Tells value windows s a) := by
  cases a <;> exact inferInstanceAs (Decidable (_ ∨ _))

end

theorem Invariant.step [Nonempty γ] (h : Invariant value windows b s) (hb : b.Sound value windows) {a : Action}
    (ha : Tells value windows s a)
    (hst : Codex.step value windows s a = some s') : Invariant value windows b s' := by
  cases a with
  | install helper mode cut =>
    cases hst
    rcases (install_spec h hb ha).run rfl cut with ⟨_, -, -, hi, -⟩ | ⟨-, hi, -⟩
    · exact hi
    · exact hi
  | remove cut =>
    cases hst
    rcases (remove_spec h hb ha).run rfl cut with ⟨_, -, hi, -⟩ | ⟨-, hi, -⟩
    · exact hi
    · exact hi

end Pebrel.Hooks.Codex
