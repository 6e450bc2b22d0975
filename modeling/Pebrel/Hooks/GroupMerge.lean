import Pebrel.Hooks.Installation

/-!
# What merging groups leaves

Where a file holds foreign groups and some of ours under each event, merging takes away the
recorded ones and adds the desired ones (`mergeGroups_holds`). That needs the record to be the
groups held, or nothing to be recorded and the desired ones held already, or nothing of ours to
be held and no other group to be left under the events of the record.
-/

namespace Pebrel.Hooks

open Library List Option

variable {γ : Type} [DecidableEq γ]

/-! ### Lists of groups -/

/-- The groups of an entry. -/
def listOf : Option (Entry γ) → List γ
  | some (.groups list) => list
  | _ => []

/-- Nothing but groups is listed. -/
def IsArray (entry : Option (Entry γ)) : Prop := ∀ v, entry ≠ some (.other v)

/-- One group for each of some events. -/
def single (g : Text → γ) (names : List Text) : Groups γ := names.map fun event => (event, [g event])

def Groups.at (groups : Groups γ) (event : Text) : List γ := ((groups.find? fun e => e.1 = event).map Prod.snd).getD []

variable {events events' : Assoc.Map Text (Entry γ)} {entry : Option (Entry γ)} {event : Text} {g g₀ : Text → γ} {names names₀ : List Text}

section
omit [DecidableEq γ]

@[simp] theorem at_nil : Groups.at ([] : Groups γ) event = [] := rfl

theorem at_single : (single g names).at event = if event ∈ names then [g event] else [] := by
  induction names with
  | nil => rfl
  | cons name names ih =>
    rw [single, map_cons, Groups.at, find?_cons]
    by_cases h : name = event
    · rw [h]
      simp
    have hne : decide ((name, [g name]).1 = event) = false := decide_eq_false h
    have hm : event ∈ name :: names ↔ event ∈ names := by
      rw [mem_cons]
      exact or_iff_right (Ne.symm h)
    rw [hne]
    exact ih.trans (if_congr hm.symm rfl rfl)

theorem IsArray.cases (h : IsArray entry) : entry = none ∨ entry = some (.groups (listOf entry)) := by
  cases entry with
  | none => exact .inl rfl
  | some entry =>
    cases entry with
    | other v => exact absurd rfl (h v)
    | groups list => exact .inr rfl

theorem IsArray.listOf_eq_nil (h : IsArray entry) : listOf entry = [] ↔ entry = none ∨ entry = some (.groups []) := by
  constructor
  · intro hnil
    rcases h.cases with hn | hs
    · exact .inl hn
    · rw [hnil] at hs
      exact .inr hs
  · rintro (rfl | rfl) <;> rfl

end

/-! ### One event after another -/

omit [DecidableEq γ] in
/-- A change of one entry for each of some events, where each can be made. -/
theorem foldlM_entries (events : Assoc.Map Text (Entry γ))
    (f : Assoc.Map Text (Entry γ) → Text × List γ → Except MergeError (Assoc.Map Text (Entry γ)))
    (can : Text → Option (Entry γ) → Prop) (change : Text → Option (Entry γ) → Option (Entry γ))
    (hf : ∀ events event, can event (events.get? event) → ∃ events', f events (event, [g event]) = .ok events' ∧
      ∀ name, events'.get? name = if name = event then change event (events.get? event) else events.get? name)
    (hn : names.Nodup) (hc : ∀ name ∈ names, can name (events.get? name)) :
    ∃ events', (single g names).foldlM f events = .ok events' ∧
      ∀ name, events'.get? name = if name ∈ names then change name (events.get? name) else events.get? name := by
  induction names generalizing events with
  | nil => exact ⟨events, rfl, fun name => rfl⟩
  | cons event names ih =>
    obtain ⟨hnot, hnd⟩ := nodup_cons.mp hn
    obtain ⟨events1, hfst, hg⟩ := hf events event (hc event mem_cons_self)
    have hsm (name : Text) (hnm : name ∈ names) : events1.get? name = events.get? name := by
      rw [hg, if_neg fun heq : name = event => hnot (heq ▸ hnm)]
    obtain ⟨events', hfold, hg'⟩ := ih events1 hnd fun name hnm => hsm name hnm ▸ hc name (mem_cons_of_mem _ hnm)
    refine ⟨events', ?_, fun name => ?_⟩
    · rw [single, map_cons, foldlM_cons, hfst]
      exact hfold
    · rw [hg']
      by_cases hnm : name ∈ names
      · rw [if_pos hnm, if_pos (mem_cons_of_mem _ hnm), hsm name hnm]
      rw [if_neg hnm, hg]
      by_cases heq : name = event
      · subst heq
        rw [if_pos rfl, if_pos mem_cons_self]
      · rw [if_neg heq, if_neg fun hm => (mem_cons.mp hm).elim heq hnm]

/-- The groups of an entry without one. -/
def Entry.drop (g : γ) : Entry γ → Entry γ
  | .groups list => .groups (list.filter fun item => item ≠ g)
  | .other v => .other v

theorem dropGroup_eq {list : List γ} {group : γ} (h : group ∈ list ∨ list = []) :
    dropGroup event list group = .ok (list.filter fun item => item ≠ group) := by
  rw [dropGroup]
  split
  · rfl
  rename_i hn
  obtain rfl := h.resolve_left hn
  rw [if_pos rfl]
  rfl

/-- A recorded group is taken out where it is there, or no group at all. -/
theorem dropOwned_eq (ha : IsArray (events.get? event)) (h : g event ∈ listOf (events.get? event) ∨ listOf (events.get? event) = []) :
    ∃ events', dropOwned events (event, [g event]) = .ok events' ∧
      ∀ name, events'.get? name = if name = event then (events.get? event).map (.drop (g event)) else events.get? name := by
  rw [dropOwned]
  rcases ha.cases with hn | hs
  · refine ⟨events, by rw [hn], fun name => ?_⟩
    split
    · rename_i hnm
      rw [hnm, hn]
      rfl
    · rfl
  · generalize listOf (events.get? event) = list at h hs
    refine ⟨events.insert event (.groups (list.filter fun item => item ≠ g event)), ?_, fun name => ?_⟩
    · rw [hs]
      change (do
        let list ← [g event].foldlM (dropGroup event) list
        pure (events.insert event (.groups list)) : Except MergeError _) = _
      rw [foldlM_cons, dropGroup_eq h]
      rfl
    · rw [Assoc.Map.get?_insert, hs]
      rfl

/-- The list with the group, once. -/
def withGroup (g : γ) (list : List γ) : List γ := if g ∈ list then list else list ++ [g]

/-- A desired group is put in. -/
theorem addDesired_eq (ha : IsArray (events.get? event)) : ∃ events', addDesired events (event, [g event]) = .ok events' ∧
      ∀ name, events'.get? name = if name = event then some (.groups
        (withGroup (g event) (listOf (events.get? event)))) else events.get? name := by
  refine ⟨events.insert event (.groups (withGroup (g event) (listOf (events.get? event)))), ?_, fun name => Assoc.Map.get?_insert⟩
  rw [addDesired]
  rcases ha.cases with hn | hs
  · rw [hn]
    rfl
  · generalize listOf (events.get? event) = list at hs
    rw [hs]
    rfl

/-! ### Merging -/

/-- Groups of ours, at most one for an event. -/
def IsOurs (ours : Set γ) (groups : Groups γ) : Prop :=
  ∃ g names, names.Nodup ∧ names ⊆ codexFullEvents ∧ (∀ name ∈ names, g name ∈ ours) ∧ groups = single g names

/-- Under each event, the foreign groups and those of ours. -/
def Holds (foreign : Text → List γ) (groups : Groups γ) (events : Assoc.Map Text (Entry γ)) : Prop :=
  ∀ event, listOf (events.get? event) = foreign event ++ groups.at event

/-- The entry of an event that is none of ours stays, unless it is an empty list. -/
def Untouched (events events' : Assoc.Map Text (Entry γ)) : Prop :=
  ∀ event ∉ codexFullEvents, events'.get? event = events.get? event ∨ events.get? event = some (.groups []) ∧ events'.get? event = none

omit [DecidableEq γ] in
theorem Untouched.trans {events0 : Assoc.Map Text (Entry γ)} (h : Untouched events0 events) (h' : Untouched events events') :
    Untouched events0 events' := by
  intro event hev
  rcases h event hev with hsm | ⟨he, hn⟩
  · rw [← hsm]
    exact h' event hev
  refine .inr ⟨he, ?_⟩
  rcases h' event hev with hsm | ⟨he', -⟩
  · exact hsm.trans hn
  · exact nomatch hn.symm.trans he'

/-- Merging succeeds: what is held is recorded, or desired where nothing is recorded; or nothing
is held, and no other group stands under the events of the record. -/
inductive Mergeable (foreign : Text → List γ) (held previous desired : Groups γ) : Prop where
  | recorded (h : previous = held)
  | desired (hprevious : previous = []) (h : desired = held)
  | gone (hheld : held = []) (h : ∀ e ∈ previous, foreign e.1 = [])

variable {foreign : Text → List γ} {ours : Set γ} {held previous desired : Groups γ}

omit [DecidableEq γ] in
theorem isOurs_nil [Nonempty γ] : IsOurs ours ([] : Groups γ) := ⟨fun _ => Classical.arbitrary γ, [], nodup_nil, nil_subset _, nofun, rfl⟩

theorem listOf_drop {v : γ} : listOf (entry.map (.drop v)) = (listOf entry).filter fun item => item ≠ v := by
  match entry with
  | none => rfl
  | some (.other _) => rfl
  | some (.groups _) => rfl

omit [DecidableEq γ] in
theorem listOf_filter : listOf (entry.filter fun e => !e.isEmpty) = listOf entry := by
  match entry with
  | none => rfl
  | some (.other _) => rfl
  | some (.groups []) => rfl
  | some (.groups (_ :: _)) => rfl

omit [DecidableEq γ] in
theorem IsArray.filter (h : IsArray entry) (p : Entry γ → Bool) : IsArray (entry.filter p) := fun v hv => by
  obtain ⟨hs, -⟩ := filter_eq_some_iff.mp hv
  exact h v hs

theorem IsArray.drop {v : γ} (h : IsArray entry) : IsArray (entry.map (.drop v)) := fun w hw => by
  obtain ⟨e, rfl, he⟩ := map_eq_some_iff.mp hw
  cases e with
  | groups list => exact nomatch he
  | other u => exact h u rfl

/-- What is left of the lists after the recorded groups are taken out. -/
theorem Mergeable.dropped (h : Mergeable foreign held (single g₀ names₀) desired) (hh : Holds foreign held events)
    (hf : ∀ name ∈ names₀, ∀ event, g₀ name ∉ foreign event) :
    (∀ name ∈ names₀, g₀ name ∈ listOf (events.get? name) ∨ listOf (events.get? name) = []) ∧
      ∃ kept, (kept = [] ∨ kept = desired) ∧ ∀ event,
        (if event ∈ names₀ then (listOf (events.get? event)).filter (fun item => item ≠ g₀ event) else listOf (events.get? event)) =
          foreign event ++ Groups.at kept event := by
  have hkeep (name : Text) (hnm : name ∈ names₀) (event : Text) : (foreign event).filter (fun item => item ≠ g₀ name) = foreign event :=
    filter_eq_self.mpr fun v hv => decide_eq_true fun heq => hf name hnm event (heq ▸ hv)
  cases h with
  | recorded h =>
    subst h
    refine ⟨fun name hnm => .inl ?_, [], .inl rfl, fun event => ?_⟩
    · rw [hh, at_single, if_pos hnm]
      exact mem_append_right _ (mem_singleton_self _)
    · rw [hh, at_single]
      split
      · rename_i hnm
        rw [filter_append, hkeep event hnm event, at_nil]
        simp
      · rfl
  | desired hp h =>
    obtain rfl : names₀ = [] := map_eq_nil_iff.mp hp
    exact ⟨nofun, held, .inr h.symm, fun event => hh event⟩
  | gone hheld h =>
    subst hheld
    have hn (name : Text) (hnm : name ∈ names₀) : foreign name = [] := h (name, [g₀ name]) (List.mem_map.mpr ⟨name, hnm, rfl⟩)
    refine ⟨fun name hnm => .inr ?_, [], .inl rfl, fun event => ?_⟩
    · rw [hh, hn name hnm]
      rfl
    · rw [hh]
      split
      · rename_i hnm
        rw [at_nil, append_nil, hkeep event hnm event]
      · rfl

theorem previous_eq_desired (h : unchanged previous desired events = true) : previous = desired := by
  rw [unchanged, Bool.and_eq_true, decide_eq_true_eq] at h
  exact h.1

/-- Nothing has to be done if the desired groups are recorded, and each of them is there once. -/
theorem Mergeable.unchanged (h : Mergeable foreign held previous desired) (hh : Holds foreign held events)
    (hd : IsOurs ours desired) (hsm : Hooks.unchanged previous desired events = true) : held = desired := by
  rw [Hooks.unchanged, Bool.and_eq_true, decide_eq_true_eq, List.all_eq_true] at hsm
  obtain ⟨rfl, ha⟩ := hsm
  cases h with
  | recorded h => exact h.symm
  | desired _ h => exact h.symm
  | gone hheld h =>
    subst hheld
    obtain ⟨g, names, -, -, -, rfl⟩ := hd
    cases names with
    | nil => rfl
    | cons name names =>
      have hm : (name, [g name]) ∈ single g (name :: names) := List.mem_map.mpr ⟨name, mem_cons_self, rfl⟩
      have hn : listOf (events.get? name) = [] := by
        rw [hh, h _ hm]
        rfl
      have ho := ha _ hm
      split at ho
      · rename_i list hg
        rw [hg] at hn
        obtain rfl : list = [] := hn
        simp at ho
      · exact nomatch ho

/-- A merge that changes groups writes the events out. -/
theorem mergeGroups_object {raw : Option (Document γ)} {document : Document γ} (h : mergeGroups raw previous desired = .ok document)
    (hne : previous ≠ desired) : ∃ events others, document = .object (some (.events events)) others := by
  unfold mergeGroups at h
  split at h
  · exact nomatch h
  rename_i events others _
  have hn : (raw.filter fun _ => unchanged previous desired events) = none := by
    cases raw with
    | none => rfl
    | some document => exact filter_some_neg (Bool.eq_false_iff.mpr fun hsm => hne (previous_eq_desired hsm))
  rw [hn] at h
  dsimp only at h
  cases hmg : mergeEvents previous desired events with
  | error e => exact nomatch hmg ▸ h
  | ok events' =>
    rw [hmg] at h
    exact ⟨events', others, (Except.ok.inj h).symm⟩

/-- **Merging** leaves the desired groups under the events, and all foreign ones. -/
theorem mergeGroups_holds {raw : Option (Document γ)} {others : List (Text × γ)} (hrd : readHooks raw = .ok (events, others))
    (ha : ∀ event ∈ codexFullEvents, IsArray (events.get? event)) (hh : Holds foreign held events)
    (hf : ∀ event, ∀ v ∈ foreign event, v ∉ ours) (hp : IsOurs ours previous) (hd : IsOurs ours desired)
    (hmer : Mergeable foreign held previous desired) :
    ∃ document events', mergeGroups raw previous desired = .ok document ∧ readHooks (some document) = .ok (events', others) ∧
      (∀ event ∈ codexFullEvents, IsArray (events'.get? event)) ∧ Holds foreign desired events' ∧ Untouched events events' ∧
      (previous ≠ desired → ∀ event, events'.get? event ≠ some (.groups [])) := by
  obtain ⟨g₀, names₀, hnd0, hsub0, hours0, rfl⟩ := hp
  by_cases hsm : unchanged (single g₀ names₀) desired events = true ∧ raw.isSome
  · obtain ⟨hsm, hs⟩ := hsm
    obtain ⟨document, rfl⟩ := isSome_iff_exists.mp hs
    refine ⟨document, events, ?_, hrd, ha, hmer.unchanged hh hd hsm ▸ hh, fun event _ => .inl rfl,
      fun hne => absurd (previous_eq_desired hsm) hne⟩
    have hfil : ((some document).filter fun _ => unchanged (single g₀ names₀) desired events) = some document := filter_some_pos hsm
    simp only [mergeGroups, hrd, hfil]
  · obtain ⟨g, names, hnd, hsub, hours, rfl⟩ := hd
    obtain ⟨hc, kept, hk, hl⟩ := hmer.dropped hh fun name hnm event hm => hf event _ hm (hours0 name hnm)
    obtain ⟨events1, hdr, hg1⟩ := foldlM_entries (g := g₀) events dropOwned
      (fun name entry => IsArray entry ∧ (g₀ name ∈ listOf entry ∨ listOf entry = [])) (fun name entry => entry.map (.drop (g₀ name)))
      (fun events event h => dropOwned_eq h.1 h.2) hnd0 fun name hnm => ⟨ha name (hsub0 hnm), hc name hnm⟩
    have hl1 (event : Text) : listOf (events1.get? event) = foreign event ++ Groups.at kept event := by
      rw [← hl, hg1]
      split
      · exact listOf_drop
      · rfl
    have harra1 (event : Text) (hev : event ∈ codexFullEvents) : IsArray ((events1.retain fun entry => !entry.isEmpty).get? event) := by
      rw [Assoc.Map.get?_retain]
      refine .filter ?_ _
      rw [hg1]
      split
      · exact (ha event hev).drop
      · exact ha event hev
    obtain ⟨events2, hadd, hg2⟩ := foldlM_entries (g := g) (events1.retain fun entry => !entry.isEmpty) addDesired
      (fun name entry => IsArray entry) (fun name entry => some (.groups (withGroup (g name) (listOf entry))))
      (fun events event h => addDesired_eq h) hnd fun name hnm => harra1 name (hsub hnm)
    refine ⟨.object (some (.events events2)) others, events2, ?_, rfl, fun event hev => ?_, fun event => ?_, fun event hev => ?_,
      fun _ event he => ?_⟩
    · have hn : (raw.filter fun _ => unchanged (single g₀ names₀) (single g names) events) = none := by
        cases raw with
        | none => rfl
        | some document => exact filter_some_neg (Bool.eq_false_iff.mpr fun h => hsm ⟨h, rfl⟩)
      have hmg : mergeEvents (single g₀ names₀) (single g names) events = .ok events2 := by
        rw [mergeEvents, hdr]
        exact hadd
      simp only [mergeGroups, hrd, hn, hmg]
      rfl
    · rw [hg2]
      split
      · intro group hgroup
        cases hgroup
      · exact harra1 event hev
    · rw [hg2, at_single, Assoc.Map.get?_retain, listOf_filter, hl1]
      split
      · rename_i hnm
        change withGroup (g event) (foreign event ++ Groups.at kept event) = _
        rcases hk with rfl | rfl
        · have hnot : g event ∉ foreign event := fun hm => hf event _ hm (hours event hnm)
          rw [at_nil, append_nil, withGroup, if_neg hnot]
        · rw [at_single, if_pos hnm, withGroup, if_pos (mem_append_right _ (mem_singleton_self _))]
      · rename_i hnm
        rw [listOf_filter, hl1]
        rcases hk with rfl | rfl
        · rfl
        · rw [at_single, if_neg hnm]
    · rw [hg2, if_neg fun hnm => hev (hsub hnm), Assoc.Map.get?_retain, hg1, if_neg fun hnm => hev (hsub0 hnm)]
      cases hent : events.get? event with
      | none => exact .inl rfl
      | some entry =>
        cases entry with
        | other v => exact .inl rfl
        | groups list =>
          cases list with
          | nil => exact .inr ⟨rfl, rfl⟩
          | cons v list => exact .inl rfl
    · rw [hg2, Assoc.Map.get?_retain] at he
      split at he
      · have hnil := Entry.groups.inj (some.inj he)
        rw [withGroup] at hnil
        split at hnil
        · rename_i hm
          rw [hnil] at hm
          cases hm
        · exact append_ne_nil_of_right_ne_nil _ (cons_ne_nil _ _) hnil
      · cases (filter_eq_some_iff.mp he).2

end Pebrel.Hooks
