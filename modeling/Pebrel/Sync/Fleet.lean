import Pebrel.Library.Transition
import Pebrel.Sync.FileValue

/-!
# Devices that share a remote file

Several devices pull from and push to one remote file, in any interleaving, and
their files are edited in between. A push is taken apart into what happens at
one time: the snapshot, the fetch and the merge (`pushStart`); the upload, which
fails if the remote file has been changed since; and in that case the second
fetch and merge (`refetch`), after which the upload is tried once more.

The remote file keeps an entity tag, a number that every upload changes. Times
increase from one event to the next.

## Which value is newer

For one scalar setting an observer notes when each device last changed it, what
the change was when the device started its last push, and the newest change that
has been uploaded. What a user expects of a pull is `HoldsNewest`: the device
then has the uploaded change or its own, whichever was made later. The payloads
say less. They carry one stamp, and the snapshot that a merge starts from is
stamped with the time it is taken, so it counts as newer than whatever is
fetched. `newest_held` states what has to hold of each merge for the stamps to
choose the right side.
-/

namespace Pebrel.Sync

open Library Transition Option Function

/-! ### The machine -/

/-- Where a device is in a push. -/
inductive Phase where
  | idle
  /-- About to upload a packet over the file with the entity tag. -/
  | uploading (packet : SyncPayload) (etag : Option ℕ) (retried : Bool)
  /-- The remote file was changed since it was fetched. -/
  | conflict (packet : SyncPayload)

/-- The packet whose upload failed. -/
def Phase.rejected : Phase → Option SyncPayload
  | .conflict packet => some packet
  | _ => none

/-- The devices and the remote file. -/
structure Fleet (ι : Type) where
  devices : ι → Device
  names : ι → Text
  /-- The packet in the remote file and its entity tag. -/
  remote : Option (Json × ℕ)
  /-- The last entity tag given out. -/
  lastEtag : ℕ
  phase : ι → Phase
  clock : ℕ

/-- What happens in a run. -/
inductive FleetEvent (ι : Type) where
  /-- The files of a device are changed. -/
  | edit (i : ι) (now : ℕ) (files : Device)
  | pull (i : ι) (now : ℕ)
  | pushStart (i : ι) (now stamp : ℕ)
  | upload (i : ι)
  | refetch (i : ι)

section
variable [ToLowercase] [JsonText] {ι : Type} [DecidableEq ι]

/-- `fetch_remote`. -/
def Fleet.fetched (f : Fleet ι) : Option SyncPayload := f.remote.map fun file => payloadFromJson file.1

/-- The entity tag of the remote file. -/
def Fleet.etag (f : Fleet ι) : Option ℕ := f.remote.map Prod.snd

/-- `put_remote` and what follows: the upload succeeds if the entity tag is still that of the
remote file; if not, a push tries again once. -/
def Fleet.upload (f : Fleet ι) (i : ι) (packet : SyncPayload) (etag : Option ℕ) (retried : Bool) : Fleet ι :=
  if f.etag = etag then
    { f with
      remote := some (payloadToJson packet, f.lastEtag + 1)
      lastEtag := f.lastEtag + 1
      phase := update f.phase i .idle }
  else { f with phase := update f.phase i (if retried then .idle else .conflict packet) }

/-- The fleet after a merge into the files of a device. -/
def Fleet.write (f : Fleet ι) (i : ι) (files : Device) : Fleet ι := { f with devices := update f.devices i files }

/-- One event; nothing where it cannot happen. -/
def Fleet.step (f : Fleet ι) : FleetEvent ι → Option (Fleet ι)
  | .edit i now files => if f.clock < now ∧ now < stampBound then some { f.write i files with clock := now } else none
  | .pull i now =>
    if f.clock < now ∧ now < stampBound then
      some { f.write i (Sync.pull now (f.names i) f.fetched (f.devices i)) with clock := now }
    else none
  | .pushStart i now stamp =>
    match f.phase i with
    | .idle =>
      if f.clock < now ∧ now ≤ stamp ∧ stamp < stampBound then
        let (packet, files) := Sync.pushStart now stamp (f.names i) f.fetched (f.devices i)
        some { f.write i files with
          phase := update f.phase i (.uploading packet f.etag false)
          clock := stamp }
      else none
    | _ => none
  | .upload i =>
    match f.phase i with
    | .uploading packet etag retried => some (f.upload i packet etag retried)
    | _ => none
  | .refetch i =>
    match f.phase i with
    | .conflict packet =>
      let (packet, files) := mergeInto packet f.fetched (f.devices i)
      some { f.write i files with phase := update f.phase i (.uploading packet f.etag true) }
    | _ => none

/-- Devices with their files, before anything was uploaded. -/
def Fleet.start (devices : ι → Device) (names : ι → Text) : Fleet ι where
  devices
  names
  remote := none
  lastEtag := 0
  phase _ := .idle
  clock := 0

/-! ### The observer -/

/-- A change of a setting: the value it was changed to and the time. -/
abbrev Change := Text × ℕ

/-- What an observer knows about one setting. -/
structure Observed (ι : Type) where
  /-- The last change on a device. -/
  changed : ι → Option Change
  /-- The last change on a device when it started its last push. -/
  started : ι → Option Change
  /-- The newest change that was uploaded by the device it was made on. -/
  published : Option Change
  /-- The device that has just pulled. -/
  pulled : Option ι

/-- A change was made later than another one. -/
def Later : Option Change → Option Change → Prop
  | none, _ => False
  | some _, none => True
  | some c, some d => d.2 < c.2

instance : (c d : Option Change) → Decidable (Later c d)
  | none, _ => inferInstanceAs (Decidable False)
  | some _, none => inferInstanceAs (Decidable True)
  | some c, some d => inferInstanceAs (Decidable (d.2 < c.2))

/-- The value of a setting in the files of a device. -/
def Fleet.value (f : Fleet ι) (key : Text) (i : ι) : Option Text := fileValue (f.devices i).settings key

/-- What the observer sees of an event. -/
def observe (key : Text) (f : Fleet ι) (o : Observed ι) (f' : Fleet ι) : FleetEvent ι → Observed ι
  | .edit i now _ =>
    { o with
      changed := update o.changed i
        (if f'.value key i = f.value key i then o.changed i else (f'.value key i).map fun v => (v, now))
      pulled := none }
  | .pull i _ => { o with pulled := some i }
  | .pushStart i _ _ => { o with started := update o.started i (o.changed i), pulled := none }
  | .upload i =>
    { o with
      published := if f'.lastEtag ≠ f.lastEtag ∧ Later (o.started i) o.published then o.started i else o.published
      pulled := none }
  | .refetch _ => { o with pulled := none }

/-- An event and what is seen of it. -/
def observedStep (key : Text) (s : Fleet ι × Observed ι) (e : FleetEvent ι) : Option (Fleet ι × Observed ι) :=
  (s.1.step e).map fun f' => (f', observe key s.1 s.2 f' e)

/-- Nothing has been seen yet. -/
def Observed.nothing : Observed ι := ⟨fun _ => none, fun _ => none, none, none⟩

/-- A device that has just pulled has the newer of the change that was uploaded and its own. -/
def HoldsNewest (key : Text) (s : Fleet ι × Observed ι) : Prop :=
  ∀ i ∈ s.2.pulled,
    (∀ c ∈ s.2.published, ¬ Later (s.2.changed i) s.2.published → s.1.value key i = some c.1) ∧
    ∀ c ∈ s.2.changed i, Later (s.2.changed i) s.2.published → s.1.value key i = some c.1
deriving Decidable

/-- The stamps of a merge choose the right value: one side has none, both have the same, or the
side with the later stamp is the one that has the later change. -/
def ChoosesRight (hereWins hereLater : Prop) (mine theirs : Option Text) : Prop :=
  mine = none ∨ theirs = none ∨ mine = theirs ∨ (hereWins ↔ hereLater)

instance {hereWins hereLater : Prop} [Decidable hereWins] [Decidable hereLater] {mine theirs : Option Text} :
    Decidable (ChoosesRight hereWins hereLater mine theirs) :=
  inferInstanceAs (Decidable (mine = none ∨ theirs = none ∨ mine = theirs ∨ (hereWins ↔ hereLater)))

/-- The condition on an event: the stamps of its merge choose the right value, and while a push
is under way the setting is left alone on the device. -/
def MergesRight (key : Text) (s : Fleet ι × Observed ι) : FleetEvent ι → Prop
  | .edit _ _ _ => True
  | .pull i now => ∀ remote ∈ s.1.fetched,
      ChoosesRight (remote.modified < now) (Later (s.2.changed i) s.2.published) (s.1.value key i) (remote.value key)
  | .pushStart i now _ => ∀ remote ∈ s.1.fetched,
      ChoosesRight (remote.modified < now) (Later (s.2.changed i) s.2.published) (s.1.value key i) (remote.value key)
  | .upload _ => True
  | .refetch i => ∀ packet ∈ (s.1.phase i).rejected, ∀ remote ∈ s.1.fetched,
      ChoosesRight (remote.modified < packet.modified) (Later (s.2.started i) s.2.published) (packet.value key)
        (remote.value key) ∧
      packet.first key = packet.value key ∧ s.2.changed i = s.2.started i

instance (key : Text) (s : Fleet ι × Observed ι) : (e : FleetEvent ι) → Decidable (MergesRight key s e)
  | .edit _ _ _ | .upload _ => inferInstanceAs (Decidable True)
  | .pull i now | .pushStart i now _ => inferInstanceAs (Decidable (∀ remote ∈ s.1.fetched,
      ChoosesRight (remote.modified < now) (Later (s.2.changed i) s.2.published) (s.1.value key i) (remote.value key)))
  | .refetch i => inferInstanceAs (Decidable (∀ packet ∈ (s.1.phase i).rejected, ∀ remote ∈ s.1.fetched,
      ChoosesRight (remote.modified < packet.modified) (Later (s.2.started i) s.2.published) (packet.value key)
        (remote.value key) ∧
      packet.first key = packet.value key ∧ s.2.changed i = s.2.started i))

/-! ### Later changes -/

variable {key : Text} {here packet : SyncPayload} {s s' : Fleet ι × Observed ι} {i : ι} {now clock : ℕ} {published started : Option Change}

omit [ToLowercase] [JsonText] in
/-- What is later than the newer of two changes is later than the first of them. -/
theorem Later.of_newest {a b c : Option Change} (h : Later a (if Later b c then b else c)) : Later a c := by
  by_cases hbc : Later b c
  · rw [if_pos hbc] at h
    cases a with
    | none => exact h
    | some a =>
      cases c with
      | none => exact trivial
      | some c =>
        cases b with
        | none => exact absurd hbc id
        | some b => exact lt_trans (b := b.2) hbc h
  · rwa [if_neg hbc] at h

/-! ### One merge -/

omit [ToLowercase] in
/-- A merge whose stamps choose the right value keeps the change that is later. -/
theorem value_merge_of_choosesRight (hsc : key ∉ listKeys) {remote : SyncPayload} {hereL : Prop}
    (hr : ChoosesRight (remote.modified < here.modified) hereL (here.value key) (remote.value key))
    (hhere : remote.modified < here.modified ∨ here.first key = here.value key)
    (hrem : remote.first key = remote.value key) :
    (hereL → ∀ w, here.value key = some w → (merge here remote).value key = some w) ∧
      (¬ hereL → ∀ v, remote.value key = some v → (merge here remote).value key = some v) := by
  rw [value_merge hsc]
  unfold MergeTree.newer MergeTree.older
  by_cases hs : remote.modified < here.modified
  · rw [if_neg (not_le.mpr hs), if_neg (not_le.mpr hs), hrem]
    refine ⟨fun _ w hw => by rw [hw, some_or], fun hnot v hv => ?_⟩
    rcases hr with hn | hn | heq | hi
    · rw [hn, none_or, hv]
    · rw [hn] at hv
      cases hv
    · rw [heq, hv, some_or]
    · exact absurd (hi.mp hs) hnot
  · have hf := hhere.resolve_left hs
    rw [if_pos (not_lt.mp hs), if_pos (not_lt.mp hs), hf]
    refine ⟨fun hl w hw => ?_, fun _ v hv => by rw [hv, some_or]⟩
    rcases hr with hn | hn | heq | hi
    · rw [hn] at hw
      cases hw
    · rw [hn, none_or, hw]
    · rw [← heq, hw, some_or]
    · exact absurd (hi.mpr hl) hs

omit [ToLowercase] in
/-- What was merged is also in the files. -/
theorem fileValue_mergeInto (hk : key ∈ syncKeys) (hsc : key ∉ listKeys)
    {remote : Option SyncPayload} (hhere : here.Clean) (hr : ∀ p ∈ remote, p.Clean) {d : Device} {v : Text}
    (hm : (mergeInto here remote d).1.value key = some v) (hold : here.value key = some v → fileValue d.settings key = some v) :
    fileValue (mergeInto here remote d).2.settings key = some v := by
  cases remote with
  | none => exact hold hm
  | some remote =>
    have hc := clean_merge hhere (hr remote rfl)
    have hv := fileValue_apply hc hk hsc d.settings
    rw [show (merge here remote).value key = some v from hm, some_or] at hv
    change fileValue (if applyToSettingsText (merge here remote) d.settings ≠ d.settings then
      applyToSettingsText (merge here remote) d.settings else d.settings) key = some v
    split
    · exact hv
    · rename_i heq
      rwa [not_not.mp heq] at hv

/-! ### What holds throughout a run -/

/-- A payload that can be fetched has the change that was uploaded. -/
structure Shows (key : Text) (published : Option Change) (clock : ℕ) (p : SyncPayload) : Prop where
  clean : p.Clean
  clock : p.modified ≤ clock
  first : p.first key = p.value key
  value : ∀ c ∈ published, p.value key = some c.1

/-- A packet that is pushed has the change that the push started with. -/
structure Carries (key : Text) (published started : Option Change) (clock : ℕ) (packet : SyncPayload) : Prop where
  clean : packet.Clean
  bound : packet.modified < stampBound
  clock : packet.modified ≤ clock
  value : ∀ c ∈ started, Later started published → packet.value key = some c.1

/-- What holds of a device in each phase of a push: a packet that can still be uploaded has the
newer one of the change that was uploaded and the one that the push started with. -/
def PhaseTracked (key : Text) (s : Fleet ι × Observed ι) (started : Option Change) : Phase → Prop
  | .idle => True
  | .uploading packet etag _ =>
    Carries key s.2.published started s.1.clock packet ∧ (∀ e ∈ etag, e ≤ s.1.lastEtag) ∧
      (s.1.etag = etag → ∀ c ∈ s.2.published, ¬ Later started s.2.published → packet.value key = some c.1)
  | .conflict packet => Carries key s.2.published started s.1.clock packet

/-- The invariant of runs whose merges choose the right side. -/
structure Tracked (key : Text) (s : Fleet ι × Observed ι) : Prop where
  fetched : ∀ p ∈ s.1.fetched, Shows key s.2.published s.1.clock p
  published : s.2.published ≠ none → s.1.fetched ≠ none
  etag : ∀ e ∈ s.1.etag, e ≤ s.1.lastEtag
  changed : ∀ i, ∀ c ∈ s.2.changed i, Later (s.2.changed i) s.2.published → s.1.value key i = some c.1
  phase : ∀ i, PhaseTracked key s (s.2.started i) (s.1.phase i)
  bound : s.1.clock < stampBound

omit [DecidableEq ι] in
/-- A merge with what is fetched has the change that is later. -/
theorem Tracked.mergeInto (hsc : key ∉ listKeys) (h : Tracked key s) (hhere : here.Clean) (mine : Option Change)
    (hmine : ∀ c ∈ mine, Later mine s.2.published → here.value key = some c.1)
    (hr : ∀ remote ∈ s.1.fetched, ChoosesRight (remote.modified < here.modified) (Later mine s.2.published)
      (here.value key) (remote.value key))
    (hfst : ∀ remote ∈ s.1.fetched, remote.modified < here.modified ∨ here.first key = here.value key) (d : Device) :
    (Sync.mergeInto here s.1.fetched d).1.Clean ∧
      (∀ c ∈ mine, Later mine s.2.published → (Sync.mergeInto here s.1.fetched d).1.value key = some c.1) ∧
      (∀ c ∈ s.2.published, ¬ Later mine s.2.published → (Sync.mergeInto here s.1.fetched d).1.value key = some c.1) := by
  cases hf : s.1.fetched with
  | none =>
    refine ⟨hhere, hmine, fun c hc _ => ?_⟩
    have hne : s.2.published ≠ none := fun hn => by rw [hn] at hc; cases hc
    exact absurd hf (h.published hne)
  | some remote =>
    have hs := h.fetched remote hf
    obtain ⟨hlat, hnot⟩ := value_merge_of_choosesRight hsc (hr remote hf) (hfst remote hf) hs.first
    exact ⟨clean_merge hhere hs.clean, fun c hc hl => hlat hl c.1 (hmine c hc hl), fun c hc hl => hnot hl c.1 (hs.value c hc)⟩

omit [DecidableEq ι] in
/-- The same for the snapshot of a device, which is stamped with the current time, and the files
that the merge is written to. -/
theorem Tracked.mergeInto_localPayload (hk : key ∈ syncKeys) (hsc : key ∉ listKeys) (h : Tracked key s) (hnow : s.1.clock < now)
    (hrig : ∀ remote ∈ s.1.fetched, ChoosesRight (remote.modified < now) (Later (s.2.changed i) s.2.published)
      (s.1.value key i) (remote.value key)) :
    let merged := Sync.mergeInto (localPayload now (s.1.names i) (s.1.devices i)) s.1.fetched (s.1.devices i)
    merged.1.Clean ∧ (∀ c ∈ s.2.changed i, Later (s.2.changed i) s.2.published →
        merged.1.value key = some c.1 ∧ fileValue merged.2.settings key = some c.1) ∧
      (∀ c ∈ s.2.published, ¬ Later (s.2.changed i) s.2.published →
        merged.1.value key = some c.1 ∧ fileValue merged.2.settings key = some c.1) := by
  intro merged
  have hcln : (localPayload now (s.1.names i) (s.1.devices i)).Clean := clean_payloadFromSettingsText _ _ _ _
  have hval : (localPayload now (s.1.names i) (s.1.devices i)).value key = s.1.value key i := value_payloadFromSettingsText _ _ _ _ key
  have hf : ∀ v, merged.1.value key = some v → fileValue merged.2.settings key = some v := fun v hv =>
    fileValue_mergeInto hk hsc hcln (fun p hp => (h.fetched p hp).clean) hv fun hhere => by
      rwa [hval] at hhere
  obtain ⟨hm, hlat, hn⟩ := h.mergeInto hsc hcln (s.2.changed i)
    (fun c hc hl => by rw [hval]; exact h.changed i c hc hl) (fun remote hr => by rw [hval]; exact hrig remote hr)
    (fun remote hr => .inl (lt_of_le_of_lt (h.fetched remote hr).clock hnow)) (s.1.devices i)
  exact ⟨hm, fun c hc hl => ⟨hlat c hc hl, hf c.1 (hlat c hc hl)⟩, fun c hc hl => ⟨hn c hc hl, hf c.1 (hn c hc hl)⟩⟩

/-! ### Steps -/

section
omit [ToLowercase] [JsonText]

theorem Fleet.value_write (f : Fleet ι) (i : ι) (files : Device) (key : Text) (j : ι) :
    (f.write i files).value key j = if j = i then fileValue files.settings key else f.value key j := by
  unfold Fleet.value Fleet.write
  by_cases hij : j = i
  · rw [if_pos hij, hij]
    simp only [update_self]
  · rw [if_neg hij]
    simp only [update_of_ne hij]

theorem Carries.mono {clock' : ℕ} (h : Carries key published started clock packet) (hc : clock ≤ clock') :
    Carries key published started clock' packet :=
  ⟨h.clean, h.bound, h.clock.trans hc, h.value⟩

end

omit [JsonText] in
/-- Files of a device are written, and the last change on it is noted. -/
theorem Tracked.write (h : Tracked key s) (i : ι) (files : Device)
    (change : Option Change) (pulled : Option ι) (hn : s.1.clock ≤ now) (hb : now < stampBound)
    (hv : ∀ c ∈ change, Later change s.2.published → fileValue files.settings key = some c.1) :
    Tracked key ({ s.1.write i files with clock := now },
      { s.2 with changed := update s.2.changed i change, pulled }) := by
  refine ⟨fun p hp => ?_, h.published, h.etag, fun j c hc hl => ?_, fun j => ?_, hb⟩
  · have hs := h.fetched p hp
    exact ⟨hs.clean, hs.clock.trans hn, hs.first, hs.value⟩
  · have hwr : Fleet.value { s.1.write i files with clock := now } key j = _ := s.1.value_write i files key j
    rw [hwr]
    simp only [update_apply] at hc hl
    split at hc
    · rename_i hij
      rw [if_pos hij] at hl ⊢
      exact hv c hc hl
    · rename_i hij
      rw [if_neg hij] at hl ⊢
      exact h.changed j c hc hl
  · have hph := h.phase j
    change PhaseTracked key _ (s.2.started j) (s.1.phase j)
    revert hph
    cases s.1.phase j with
    | idle => exact id
    | uploading packet etag retried => exact fun ⟨hcar, hetag, hsm⟩ => ⟨hcar.mono hn, hetag, hsm⟩
    | conflict packet => exact fun hcar => hcar.mono hn

omit [JsonText] in
/-- A device enters the next phase of a push. -/
theorem Tracked.enter (h : Tracked key s) (i : ι) (phase : Phase) (started : Option Change) (hph : PhaseTracked key s started phase) :
    Tracked key ({ s.1 with phase := update s.1.phase i phase },
      { s.2 with started := update s.2.started i started }) := by
  refine ⟨h.fetched, h.published, h.etag, h.changed, fun j => ?_, h.bound⟩
  simp only [update_apply]
  by_cases hij : j = i
  · rw [if_pos hij, if_pos hij]
    revert hph
    cases phase <;> exact id
  rw [if_neg hij, if_neg hij]
  have hph := h.phase j
  revert hph
  cases s.1.phase j <;> exact id

omit [ToLowercase] [JsonText] in
theorem Carries.newest {newest : Option Change} (h : Carries key published started clock packet) :
    Carries key (if Later newest published then newest else published) started clock packet :=
  ⟨h.clean, h.bound, h.clock, fun c hc hl => h.value c hc hl.of_newest⟩

theorem Tracked.edit (h : Tracked key s) {files : Device} (hst : observedStep key s (.edit i now files) = some s') : Tracked key s' := by
  obtain ⟨f', hf', rfl⟩ := map_eq_some_iff.mp hst
  obtain ⟨⟨hn, hb⟩, hf'⟩ := ite_none_right_eq_some.mp hf'
  rw [← some.inj hf']
  have hval : Fleet.value { s.1.write i files with clock := now } key i = fileValue files.settings key :=
    (s.1.value_write i files key i).trans (if_pos rfl)
  refine h.write i files _ none hn.le hb fun c hc hl => ?_
  rw [hval] at hc hl
  split at hc
  · rename_i hsm
    rw [if_pos hsm] at hl
    rw [hsm]
    exact h.changed i c hc hl
  · obtain ⟨v, hv, rfl⟩ := map_eq_some_iff.mp hc
    exact hv

theorem Tracked.pull (hk : key ∈ syncKeys) (hsc : key ∉ listKeys) (h : Tracked key s) (hr : MergesRight key s (.pull i now))
    (hst : observedStep key s (.pull i now) = some s') : Tracked key s' ∧ HoldsNewest key s' := by
  obtain ⟨f', hf', rfl⟩ := map_eq_some_iff.mp hst
  obtain ⟨⟨hn, hb⟩, hf'⟩ := ite_none_right_eq_some.mp hf'
  rw [← some.inj hf']
  obtain ⟨-, hlat, hnot⟩ := h.mergeInto_localPayload hk hsc hn hr
  have ht := h.write i _ (s.2.changed i) (some i) hn.le hb fun c hc hl => (hlat c hc hl).2
  rw [update_eq_self] at ht
  refine ⟨ht, fun j hj => ?_⟩
  have hij : i = j := some.inj hj
  subst hij
  have hv : Fleet.value { s.1.write i (Sync.pull now (s.1.names i) s.1.fetched (s.1.devices i)) with clock := now } key i =
      fileValue (Sync.pull now (s.1.names i) s.1.fetched (s.1.devices i)).settings key :=
    (s.1.value_write i _ key i).trans (if_pos rfl)
  refine ⟨fun c hc hl => ?_, fun c hc hl => ?_⟩
  · exact hv.trans (hnot c hc hl).2
  · exact hv.trans (hlat c hc hl).2

theorem Tracked.pushStart (hk : key ∈ syncKeys) (hsc : key ∉ listKeys)
    (h : Tracked key s) {stamp : ℕ} (hr : MergesRight key s (.pushStart i now stamp))
    (hst : observedStep key s (.pushStart i now stamp) = some s') : Tracked key s' := by
  obtain ⟨f', hf', rfl⟩ := map_eq_some_iff.mp hst
  unfold Fleet.step at hf'
  simp only at hf'
  split at hf'
  · obtain ⟨⟨hn, hs, hb⟩, hf'⟩ := ite_none_right_eq_some.mp hf'
    rw [← some.inj hf']
    obtain ⟨hcln, hlat, hnot⟩ := h.mergeInto_localPayload hk hsc hn hr
    have hwr := h.write i _ (s.2.changed i) none (hn.le.trans hs) hb fun c hc hl =>
      (hlat c hc hl).2
    rw [update_eq_self] at hwr
    refine hwr.enter i _ _ ⟨⟨⟨hcln.allowed, hcln.settings, hcln.trimmed, hcln.keybinds⟩, hb, le_refl stamp,
      fun c hc hl => (hlat c hc hl).1⟩, h.etag, fun _ c hc hl => (hnot c hc hl).1⟩
  · cases hf'

theorem Tracked.upload (hk : key ∈ syncKeys) (h : Tracked key s) (hst : observedStep key s (.upload i) = some s') : Tracked key s' := by
  obtain ⟨f', hf', rfl⟩ := map_eq_some_iff.mp hst
  have hph := h.phase i
  unfold Fleet.step at hf'
  simp only at hf'
  split at hf'
  · rename_i packet etag retried hi
    rw [hi] at hph
    obtain ⟨hcar, hetag, hsm⟩ := hph
    rw [← some.inj hf']
    unfold Fleet.upload observe
    simp only
    by_cases heq : s.1.etag = etag
    · rw [if_pos heq]
      simp only [ne_eq, Nat.succ_ne_self, not_false_iff, true_and]
      have hpk : ∀ c ∈ (if Later (s.2.started i) s.2.published then s.2.started i else s.2.published), packet.value key = some c.1 := by
        intro c hc
        split at hc
        · exact hcar.value c hc ‹_›
        · exact hsm heq c hc ‹_›
      obtain ⟨hv, hfst⟩ := value_payloadFromJson packet hk
      refine ⟨fun p hp => ?_, fun _ => some_ne_none _, fun e he => ?_, fun j c hc hl => ?_, fun j => ?_, h.bound⟩
      · rw [← some.inj hp]
        refine ⟨clean_payloadFromJson hcar.clean, ?_, hfst.trans hv.symm, fun c hc => ?_⟩
        · exact (modified_payloadFromJson hcar.bound).le.trans hcar.clock
        · exact hv.trans (hpk c hc)
      · exact (some.inj he).ge
      · exact h.changed j c hc hl.of_newest
      · simp only [update_apply]
        by_cases hij : j = i
        · rw [if_pos hij]
          trivial
        rw [if_neg hij]
        have hph := h.phase j
        revert hph
        cases s.1.phase j with
        | idle => exact id
        | uploading packet' etag' retried' =>
          rintro ⟨hcar', hetag', -⟩
          refine ⟨hcar'.newest, fun e he => (hetag' e he).trans (Nat.le_succ _), fun hn => ?_⟩
          have hlast := hetag' (s.1.lastEtag + 1) hn.symm
          omega
        | conflict packet' => exact fun hcar' => hcar'.newest
    · rw [if_neg heq]
      simp only [ne_eq, not_true, false_and, if_false]
      have hent := h.enter i (if retried then .idle else .conflict packet) (s.2.started i)
        (by cases retried <;> [exact hcar; exact trivial])
      rw [update_eq_self] at hent
      exact ⟨hent.fetched, hent.published, hent.etag, hent.changed, hent.phase, hent.bound⟩
  · cases hf'

theorem Tracked.refetch (hk : key ∈ syncKeys) (hsc : key ∉ listKeys) (h : Tracked key s) (hrig : MergesRight key s (.refetch i))
    (hstep : observedStep key s (.refetch i) = some s') : Tracked key s' := by
  obtain ⟨f', hf', rfl⟩ := map_eq_some_iff.mp hstep
  have hph := h.phase i
  unfold Fleet.step at hf'
  simp only at hf'
  split at hf'
  · rename_i packet hi
    rw [hi] at hph
    have hcho := hrig packet (show packet ∈ (s.1.phase i).rejected by rw [hi]; rfl)
    rw [← some.inj hf']
    obtain ⟨hcln, hlat, hn⟩ := h.mergeInto hsc hph.clean _ hph.value (fun remote hr => (hcho remote hr).1)
      (fun remote hr => .inr (hcho remote hr).2.1) (s.1.devices i)
    have hm : (Sync.mergeInto packet s.1.fetched (s.1.devices i)).1.modified ≤ s.1.clock := by
      cases hfet : s.1.fetched with
      | none => exact hph.clock
      | some remote => exact (keepsStamp_merge packet remote).trans_le (max_le hph.clock (h.fetched remote hfet).clock)
    have hwr := h.write i (Sync.mergeInto packet s.1.fetched (s.1.devices i)).2 (s.2.changed i) none
      le_rfl h.bound fun c hc hl => by
        cases hfet : s.1.fetched with
        | none => exact h.changed i c hc hl
        | some remote =>
          have hst := (hcho remote hfet).2.2
          rw [← hfet]
          refine fileValue_mergeInto hk hsc hph.clean (fun p hp => (h.fetched p hp).clean) ?_ fun _ => h.changed i c hc hl
          rw [hst] at hc hl
          exact hlat c hc hl
    rw [update_eq_self] at hwr
    have he := hwr.enter i (.uploading (Sync.mergeInto packet s.1.fetched (s.1.devices i)).1 s.1.etag true) (s.2.started i)
      ⟨⟨hcln, hm.trans_lt h.bound, hm, hlat⟩, h.etag, fun _ => hn⟩
    rwa [update_eq_self] at he
  · cases hf'

omit [JsonText] [DecidableEq ι] in
theorem tracked_start (key : Text) (devices : ι → Device) (names : ι → Text) : Tracked key (.start devices names, .nothing) :=
  ⟨fun _ h => absurd h (not_mem_none _), fun h => absurd rfl h, fun _ h => absurd h (not_mem_none _),
    fun _ _ h => absurd h (not_mem_none _), fun _ => trivial,
    Nat.two_pow_pos 64⟩

omit [ToLowercase] [JsonText] [DecidableEq ι] in
/-- Only a pull is observed as one. -/
theorem holdsNewest_of_pulled_eq_none (h : s.2.pulled = none) : HoldsNewest key s := fun i hi => by
  rw [h] at hi
  cases hi

/-- One step keeps the invariant, and shows the newest value after a pull. -/
theorem Tracked.step (hk : key ∈ syncKeys) (hsc : key ∉ listKeys)
    {e : FleetEvent ι} (h : Tracked key s) (hr : MergesRight key s e) (hst : observedStep key s e = some s') :
    Tracked key s' ∧ HoldsNewest key s' := by
  have hp : s'.2 = observe key s.1 s.2 s'.1 e := by
    obtain ⟨f', -, rfl⟩ := map_eq_some_iff.mp hst
    rfl
  cases e with
  | edit i now files => exact ⟨h.edit hst, holdsNewest_of_pulled_eq_none (congrArg Observed.pulled hp)⟩
  | pull i now => exact h.pull hk hsc hr hst
  | pushStart i now stamp =>
    exact ⟨h.pushStart hk hsc hr hst, holdsNewest_of_pulled_eq_none (congrArg Observed.pulled hp)⟩
  | upload i => exact ⟨h.upload hk hst, holdsNewest_of_pulled_eq_none (congrArg Observed.pulled hp)⟩
  | refetch i =>
    exact ⟨h.refetch hk hsc hr hst, holdsNewest_of_pulled_eq_none (congrArg Observed.pulled hp)⟩

/-- **Newer settings win** in every run whose merges choose the right side: a device that has
just pulled has the newer of the change that was uploaded and its own. -/
theorem newest_held {key : Text} (hkey : key ∈ syncKeys) (hscalar : key ∉ listKeys) (devices : ι → Device)
    (names : ι → Text) (events : List (FleetEvent ι))
    (hmeets : Meets (observedStep key) (MergesRight key) (.start devices names, .nothing) events) :
    Along (observedStep key) (HoldsNewest key) (.start devices names, .nothing) events :=
  along_of_meets (observedStep key) (Q := fun s => Tracked key s ∧ HoldsNewest key s) (fun _ h => h.2)
    (fun _ _ _ h hr hst => h.1.step hkey hscalar hr hst)
    ⟨tracked_start key devices names, holdsNewest_of_pulled_eq_none rfl⟩ hmeets

end

/-! ### Two devices -/

section

local instance deviceCase : ToLowercase := .ascii

/-- No history is parsed here. -/
local instance deviceJson : JsonText := ⟨fun _ => none, plainJson.fromStr_nil⟩

/-- A device with this settings file. -/
def plainDevice (settings : Text) : Device := ⟨settings, fun _ => ⟨[], true⟩⟩

def themeKey : Text := "theme".toList

/-- One device sets a theme and pushes it, and the other one pulls. -/
def themePushed : List (FleetEvent Bool) :=
  [.edit true 1 (plainDevice "theme=nord\n".toList), .pushStart true 2 3, .upload true, .pull false 4]

/-- Two devices of which the second has these settings. -/
def twoDevices (settings : Text) : Fleet Bool × Observed Bool :=
  (.start (fun i => plainDevice (if i then [] else settings)) fun _ => [], .nothing)

theorem newest_held_nord :
    Along (observedStep themeKey) (HoldsNewest themeKey) (twoDevices "language=en\n".toList) themePushed :=
  newest_held (by decide) (by decide) _ _ themePushed (by decide)

/-- A theme that the second device has is not replaced by the newer one. -/
theorem newest_not_held :
    ¬ Along (observedStep themeKey) (HoldsNewest themeKey) (twoDevices "theme=dracula\n".toList) themePushed := by
  decide

end

end Pebrel.Sync
