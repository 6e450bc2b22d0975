import Pebrel.Themes.Store

/-!
# No update of a theme is lost

The stored document is the one that a write under the lock has checked (`Invariant`), since only the
client with the lock writes. A write makes the revision larger, so a document that was read is the
stored one while its revision is (`Kept`), unless the theme was deleted in between: a theme that is
added again starts at the first revision.
-/

namespace Pebrel.Themes

open Library Transition Sync Option Function ThemeText ThemeLibrary
open Except (ok)

/-- A value whose numbers are read back as they are written, nested this deep at most. `serde_json` reads some
numbers that are not integers with another last digit than it has written (it is built without `float_roundtrip`),
and refuses what is nested deeper than 127 levels. -/
inductive ReadBack (Bytes : Type) [ThemeText Bytes] : ℕ → Json → Prop where
  | null {depth : ℕ} : ReadBack Bytes depth .null
  | bool {depth : ℕ} (b : Bool) : ReadBack Bytes depth (.bool b)
  | int {depth : ℕ} {n : ℤ} (h : -2 ^ 63 ≤ n ∧ n < 2 ^ 64) : ReadBack Bytes depth (.int n)
  | float {depth : ℕ} {digits : Text} (h : fromSlice (toVecPretty (.float digits) : Bytes) = some (.float digits)) :
      ReadBack Bytes depth (.float digits)
  | string {depth : ℕ} (t : Text) : ReadBack Bytes depth (.string t)
  | array {depth : ℕ} {items : List Json} (h : ∀ value ∈ items, ReadBack Bytes depth value) : ReadBack Bytes (depth + 1) (.array items)
  | object {depth : ℕ} {members : Members} (hkeys : (members.map Prod.fst).Nodup) (h : ∀ e ∈ members, ReadBack Bytes depth e.2) :
      ReadBack Bytes (depth + 1) (.object members)

/-- What `serde_json` promises of what it writes and reads. -/
class LawfulThemeText (Bytes : Type) [ThemeValues] [ThemeText Bytes] : Prop where
  fromSlice_toVecPretty : ∀ value : Json, ReadBack Bytes 127 value → fromSlice (toVecPretty value : Bytes) = some value
  /-- What is read of an object is an object with its integers. -/
  fromSlice_object : ∀ members : Members, ∀ value : Json, fromSlice (toVecPretty (.object members) : Bytes) = some value →
    ∃ members', value = .object members' ∧
      ∀ key n, n < 2 ^ 64 → lookup key members = some (.int (n : ℕ)) → lookup key members' = some (.int n)
  toVecLen_le : ∀ value : Json, toVecLen value ≤ len (toVecPretty value : Bytes)

/-- Equal documents have equal revisions. -/
class LawfulThemeValues [ThemeValues] : Prop where
  revision_of_same : ∀ d d' : ThemeDocument, ThemeValues.same d.toValue d'.toValue = true → d.revision = d'.revision

variable {Bytes : Type} [ThemeValues] [ThemeText Bytes] {builtins : List ThemeDocument} {library library' : ThemeLibrary Bytes}
  {files : Files Bytes}
  {client : ℕ} {id : Text} {d stored : ThemeDocument} {phase : Phase}

/-! ### Files -/

variable {files' : Files Bytes} {precondition : RevisionPrecondition} {fault : Option Fault}

theorem readDocument_eq_none_iff : readDocument files id = .ok none ↔ files.get? id = none := by
  unfold readDocument
  cases files.get? id with
  | none => exact ⟨fun _ => rfl, fun _ => rfl⟩
  | some bytes =>
    dsimp only
    constructor
    · intro h
      split at h
      · exact nomatch h
      split at h
      · exact nomatch h
      · split at h
        · exact nomatch h
        · exact nomatch ok.inj h
    · exact nofun

theorem readDocument_congr (h : files'.get? id = files.get? id) : readDocument files' id = readDocument files id := by
  rw [readDocument, readDocument, h]

/-- A document that can be stored under an identifier. -/
structure Storable (Bytes : Type) [ThemeText Bytes] (id : Text) (d : ThemeDocument) : Prop where
  valid : d.Valid
  id : d.id = some id
  builtin : d.isBuiltin = false
  short : len (toVecPretty d.toValue : Bytes) ≤ maxDocumentBytes

/-- What is read of a document that was written has its revision. -/
theorem revision_readDocument_insert [LawfulThemeText Bytes] (hr : d.revision < 2 ^ 64)
    (hm : lookup "revision".toList d.value = some (.int d.revision))
    (h : readDocument (files.insert id (toVecPretty d.toValue)) id = .ok (some stored)) : stored.revision = d.revision := by
  rw [readDocument, Assoc.Map.get?_insert, if_pos rfl] at h
  dsimp only at h
  split at h
  · exact nomatch h
  rename_i read hread
  split at h
  · exact nomatch h
  split at h
  · exact nomatch h
  obtain rfl := some.inj (ok.inj h)
  rw [fromJsonBytes] at hread
  split at hread
  · exact nomatch hread
  split at hread
  · exact nomatch hread
  rename_i value hvalue
  obtain ⟨members, rfl, hint⟩ := LawfulThemeText.fromSlice_object d.value value hvalue
  rw [ThemeDocument.revision_of_fromValue hread, ThemeDocument.revision, hint _ _ hr hm, bind_some, ThemeDocument.asU64_int hr, getD_some]

/-! ### What is checked -/

omit [ThemeValues] in
theorem liftDocument_eq_ok {α : Type} {x : Except DocumentError α} {a : α} (h : liftDocument x = .ok a) : x = .ok a := by
  cases x with
  | ok b => exact congrArg ok (ok.inj h)
  | error e => exact nomatch h

theorem checkDocument_spec (h : checkDocument d = .ok id) : d.isBuiltin = false ∧ d.id = some id ∧
    validateId id = true ∧ d.definition = .ok () := by
  unfold checkDocument at h
  split at h
  · exact nomatch h
  rename_i hb
  split at h
  · exact nomatch h
  rename_i i hi
  split at h
  · exact nomatch h
  rename_i hv
  obtain ⟨_, hd, h⟩ := bind_eq_ok h
  obtain rfl := ok.inj h
  exact ⟨Bool.eq_false_iff.mpr hb, hi, Bool.not_eq_false _ ▸ hv, liftDocument_eq_ok hd⟩

/-- The revision that is expected is that of the stored document. -/
theorem expected_spec [LawfulThemeValues] {current : Option ThemeDocument} {expected : Option ℕ}
    (h : precondition.expected id current = .ok expected) :
    expected = current.map ThemeDocument.revision ∧ (precondition = .absent → current = none) ∧
      ∀ revision, precondition = .exact revision → current.map ThemeDocument.revision = some revision := by
  cases precondition with
  | absent =>
    change (if current.isSome then _ else _) = _ at h
    split at h
    · exact nomatch h
    rename_i hn
    obtain rfl := ok.inj h
    obtain rfl := not_isSome_iff_eq_none.mp hn
    exact ⟨rfl, fun _ => rfl, fun _ h => nomatch h⟩
  | exact revision =>
    change (if current.map ThemeDocument.revision ≠ some revision then _ else _) = _ at h
    split at h
    · exact nomatch h
    rename_i hsm
    obtain rfl := ok.inj h
    refine ⟨(not_not.mp hsm).symm, fun h => (nomatch h), fun r hr => ?_⟩
    obtain rfl := RevisionPrecondition.exact.inj hr
    exact not_not.mp hsm
  | any =>
    obtain rfl := ok.inj h
    exact ⟨rfl, fun h => (nomatch h), fun _ h => nomatch h⟩
  | unchanged document =>
    change (if document.id ≠ some id then _ else if current.any
      (fun d => ThemeValues.same d.toValue document.toValue) = false then _ else _) = _ at h
    split at h
    · exact nomatch h
    split at h
    · exact nomatch h
    · rename_i hsm
      obtain rfl := ok.inj h
      obtain ⟨d, rfl, hd⟩ := (any_eq_true _ _).mp (Bool.not_eq_false _ ▸ hsm)
      exact ⟨congrArg some (LawfulThemeValues.revision_of_same d document hd).symm, fun h => (nomatch h), fun _ h => nomatch h⟩

omit [ThemeValues] in
theorem nextRevision_lt (expected : Option ℕ) : nextRevision expected < 2 ^ 64 := by
  cases expected with
  | none => exact (by decide : 1 < 2 ^ 64)
  | some revision =>
    change min (revision + 1) (2 ^ 64 - 1) < 2 ^ 64
    omega

/-- What a save has checked before it writes. -/
structure Prepared (files : Files Bytes) (id : Text) (stored : ThemeDocument) (precondition : RevisionPrecondition) : Prop where
  storable : Storable Bytes id stored
  revision : stored.revision < 2 ^ 64 ∧ lookup "revision".toList stored.value = some (.int stored.revision)
  current : ∃ current, readDocument files id = .ok current ∧ stored.revision = nextRevision (current.map ThemeDocument.revision) ∧
    (precondition = .absent → current = none) ∧
    ∀ revision, precondition = .exact revision → current.map ThemeDocument.revision = some revision

theorem prepare_spec [LawfulThemeText Bytes] [LawfulThemeValues] (hs : d.Shaped)
    (hc : checkDocument d = .ok id) (h : prepare files id d precondition = .ok stored) : Prepared files id stored precondition := by
  obtain ⟨-, -, hid, hd⟩ := checkDocument_spec hc
  obtain ⟨current, hcur, h⟩ := bind_eq_ok h
  obtain ⟨expected, he, h⟩ := bind_eq_ok h
  split at h
  · exact nomatch h
  obtain ⟨bytes, hbs, h⟩ := bind_eq_ok h
  obtain rfl := ok.inj h
  obtain ⟨hsm, ha, hexa⟩ := expected_spec he
  have hbs := liftDocument_eq_ok hbs
  rw [toJsonBytes] at hbs
  split at hbs
  · exact nomatch hbs
  rename_i hsh
  have hsh := Nat.not_lt.mp hsh
  have hl : toVecLen (d.withIdAndRevision id (nextRevision expected)).toValue ≤ maxDocumentBytes :=
    Nat.le_trans (LawfulThemeText.toVecLen_le _) hsh
  refine ⟨⟨hs.valid hd hid (nextRevision_lt expected) hl, ThemeDocument.id_withIdAndRevision,
    ThemeDocument.isBuiltin_withIdAndRevision, hsh⟩, ?_, current, hcur, ?_, ha, hexa⟩
  · rw [ThemeDocument.revision_withIdAndRevision (nextRevision_lt expected)]
    exact ⟨nextRevision_lt expected, ThemeDocument.lookup_revision⟩
  · rw [ThemeDocument.revision_withIdAndRevision (nextRevision_lt expected), hsm]

theorem checkDelete_spec {revision : ℕ} {u : Unit} (h : checkDelete files id revision = .ok u) :
    ∃ d, readDocument files id = .ok (some d) ∧ d.revision = revision := by
  obtain ⟨current, hc, h⟩ := bind_eq_ok h
  split at h
  · exact nomatch h
  rename_i d
  split at h
  · exact nomatch h
  · rename_i hsm
    exact ⟨d, hc, not_not.mp hsm⟩

/-! ### The invariant -/

/-- A client in this phase has the lock. -/
def Phase.holds : Phase → Prop
  | .locked _ | .writing _ _ _ | .removing _ _ => True
  | _ => False

/-- What has been checked before a phase. -/
def Phase.Checked (files : Files Bytes) : Phase → Prop
  | .waiting (.save id d _) | .locked (.save id d _) => d.Shaped ∧ checkDocument d = .ok id
  | .writing id stored precondition => Prepared files id stored precondition
  | .removing id revision => ∃ d, readDocument files id = .ok (some d) ∧ d.revision = revision
  | _ => True

structure Invariant (library : ThemeLibrary Bytes) : Prop where
  lock : ∀ client, (library.clients client).holds → library.lock = some client
  checked : ∀ client, (library.clients client).Checked library.files

/-- What a client without the lock has checked does not depend on the files. -/
theorem Phase.Checked.congr (h : phase.Checked files) (hh : ¬phase.holds) : phase.Checked files' := by
  cases phase with
  | locked write => exact absurd trivial hh
  | writing id stored precondition => exact absurd trivial hh
  | removing id revision => exact absurd trivial hh
  | idle result => trivial
  | waiting write => cases write <;> exact h
  | listing request unread custom => trivial
  | probing request name custom suffix => trivial

section
variable (h : Invariant library)
include h

theorem Invariant.setPhase (hh : phase.holds → library.lock = some client) (hchk : phase.Checked library.files) :
    Invariant (library.setPhase client phase) := by
  have hcli (c : ℕ) : (library.setPhase client phase).clients c = if c = client then phase else library.clients c := update_apply _ _ _ _
  constructor
  · intro c hc
    rw [hcli] at hc
    split at hc
    · rename_i hsm
      rw [hsm]
      exact hh hc
    · exact h.lock c hc
  · intro c
    rw [hcli]
    split
    · exact hchk
    · exact h.checked c

/-- A client takes the lock that nobody has. -/
theorem Invariant.acquire {write : Write} (hf : library.lock = none) (hchk : (Phase.waiting write).Checked library.files) :
    Invariant { library.setPhase client (.locked write) with lock := some client } := by
  have hcli (c : ℕ) : (library.setPhase client (.locked write)).clients c = if c = client then .locked write else library.clients c :=
    update_apply _ _ _ _
  constructor
  · intro c hc
    change ((library.setPhase client (.locked write)).clients c).holds at hc
    rw [hcli] at hc
    split at hc
    · rename_i hsm
      exact congrArg some hsm.symm
    · exact nomatch (h.lock c hc).symm.trans hf
  · intro c
    change ((library.setPhase client (.locked write)).clients c).Checked library.files
    rw [hcli]
    split
    · cases write <;> exact hchk
    · exact h.checked c

/-- The client with the lock gives it back, and may have changed the files. -/
theorem Invariant.release (hlock : library.lock = some client) (result : Except StoreError (Option ThemeDocument))
    (files : Files Bytes) : Invariant { library.release client result with files := files } := by
  have hcli (c : ℕ) : (library.release client result).clients c = if c = client then .idle (some result) else library.clients c :=
    update_apply _ _ _ _
  have hh (c : ℕ) (hne : c ≠ client) : ¬(library.clients c).holds := by
    intro hc
    exact hne (some.inj ((h.lock c hc).symm.trans hlock))
  constructor
  · intro c hc
    change ((library.release client result).clients c).holds at hc
    rw [hcli] at hc
    split at hc
    · exact hc.elim
    · rename_i hne
      exact (hh c hne hc).elim
  · intro c
    change ((library.release client result).clients c).Checked files
    rw [hcli]
    split
    · trivial
    · rename_i hne
      exact (h.checked c).congr (hh c hne)

end

/-- What is saved for a request was checked. -/
theorem candidate_shaped {request : Request} {name : Text} (h : request.candidate id name = .ok d) : d.Shaped := by
  cases request with
  | «import» document requested =>
    change (document.withName name).map _ = .ok d at h
    cases hnm : document.withName name with
    | error e =>
      rw [hnm] at h
      exact nomatch h
    | ok named =>
      rw [hnm] at h
      obtain rfl := ok.inj h
      exact (ThemeDocument.valid_of_fromValue hnm).shaped.withIdAndRevision id 0
  | fork builtin requested => exact (ThemeDocument.valid_of_fromValue h).shaped

/-! ### What a client does -/

/-- A phase that a client goes on to without the lock, or ends in with an error. -/
structure Goes (files : Files Bytes) (phase : Phase) : Prop where
  free : ¬phase.holds
  checked : phase.Checked files
  error : ∀ result, phase ≠ .idle (some (.ok result))

theorem Goes.failed (error : StoreError) : Goes files (.idle (some (.error error))) := ⟨id, trivial, nofun⟩

theorem beginSave_goes (hd : d.Shaped) :
    ∃ phase, library.beginSave client d precondition = library.setPhase client phase ∧ Goes library.files phase := by
  unfold beginSave
  split
  · exact ⟨_, rfl, .failed _⟩
  · rename_i id hid
    exact ⟨_, rfl, fun h => h, ⟨hd, hid⟩, nofun⟩

/-- A step of a client. -/
inductive Moves (library : ThemeLibrary Bytes) (client : ℕ) : Option Fault → ThemeLibrary Bytes → Prop where
  | goes {fault : Option Fault} {phase : Phase} (hgoes : Goes library.files phase) :
      Moves library client fault (library.setPhase client phase)
  | acquires {fault : Option Fault} {write : Write} (hphase : library.clients client = .waiting write) (hfree : library.lock = none) :
      Moves library client fault { library.setPhase client (.locked write) with lock := some client }
  | prepares {fault : Option Fault} {id : Text} {d stored : ThemeDocument} {precondition : RevisionPrecondition}
      (hphase : library.clients client = .locked (.save id d precondition))
      (hstored : prepare library.files id d precondition = .ok stored) :
      Moves library client fault (library.setPhase client (.writing id stored precondition))
  | finds {fault : Option Fault} {id : Text} {revision : ℕ} {u : Unit} (hphase : library.clients client = .locked (.delete id revision))
      (hu : checkDelete library.files id revision = .ok u) : Moves library client fault (library.setPhase client (.removing id revision))
  | fails {fault : Option Fault} {error : StoreError} (hholds : (library.clients client).holds) :
      Moves library client fault (library.release client (.error error))
  | writes {fault : Option Fault} {id : Text} {stored : ThemeDocument} {precondition : RevisionPrecondition}
      {result : Except StoreError (Option ThemeDocument)} (hphase : library.clients client = .writing id stored precondition)
      (hresult : ∀ d, result = .ok d → d = some stored) :
      Moves library client fault { library.release client result with files := library.files.insert id (toVecPretty stored.toValue) }
  | removes {id : Text} {revision : ℕ} (hphase : library.clients client = .removing id revision) :
      Moves library client none { library.release client (.ok none) with files := library.files.filterKeys (· ≠ id) }

/-- Every advance is such a step. -/
theorem advance_moves (hst : library.advance builtins client fault = some library') : Moves library client fault library' := by
  unfold ThemeLibrary.advance at hst
  split at hst
  · exact nomatch hst
  all_goals obtain rfl := some.inj hst
  · unfold listNext
    split
    · split <;> exact .goes ⟨id, trivial, nofun⟩
    · split
      · exact .goes (.failed _)
      · exact .goes ⟨id, trivial, nofun⟩
  · unfold probe
    dsimp only
    split
    · exact .goes (.failed _)
    split
    · exact .goes ⟨id, trivial, nofun⟩
    · split
      · exact .goes (.failed _)
      · rename_i d hd
        have hb : ∃ phase, library.beginSave client d .absent = library.setPhase client phase ∧ _ := beginSave_goes (candidate_shaped hd)
        obtain ⟨phase, heq, hgoes⟩ := hb
        rw [heq]
        exact .goes hgoes
  · rename_i hph
    split
    · exact .goes (.failed _)
    · rename_i hf
      exact .acquires hph (not_isSome_iff_eq_none.mp hf)
  · rename_i write hph
    have hfai (error : StoreError) : Moves library client fault (library.release client (.error error)) := .fails (hph ▸ trivial)
    unfold judge
    split
    · split
      · exact hfai _
      · rename_i stored hs
        exact .prepares hph hs
    · split
      · exact hfai _
      · rename_i u hu
        exact .finds hph hu
  · rename_i id stored precondition hph
    match fault with
    | none => exact .writes hph fun d hd => (ok.inj hd).symm
    | some .before => exact .fails (hph ▸ trivial)
    | some .after => exact .writes hph nofun
  · rename_i id revision hph
    match fault with
    | none => exact .removes hph
    | some _ => exact .fails (hph ▸ trivial)

/-- A step that is no advance begins an operation. -/
theorem step_cases {a : Action} (hst : library.step builtins a = some library') :
    (∃ client fault, a = .advance client fault ∧ Moves library client fault library') ∨
      ∃ client phase, library' = library.setPhase client phase ∧ Goes library.files phase := by
  have hb {client : ℕ} {next : ThemeLibrary Bytes} (hnx : ∃ phase, next = library.setPhase client phase ∧ Goes library.files phase)
      (hst : library.begin client next = some library') :
      ∃ client phase, library' = library.setPhase client phase ∧ Goes library.files phase := by
    unfold begin at hst
    split at hst
    · exact ⟨client, some.inj hst ▸ hnx⟩
    · exact nomatch hst
  cases a with
  | save client d precondition => exact .inr (hb (beginSave_goes d.2) hst)
  | delete client id revision =>
    refine .inr (hb ?_ hst)
    unfold beginDelete
    split
    · exact ⟨_, rfl, .failed _⟩
    split
    · exact ⟨_, rfl, .failed _⟩
    · exact ⟨_, rfl, fun h => h, trivial, nofun⟩
  | «import» client d name =>
    refine .inr (hb ?_ hst)
    exact ⟨_, rfl, fun h => h, trivial, nofun⟩
  | fork client builtin name =>
    refine .inr (hb ?_ hst)
    unfold beginFork
    split
    · exact ⟨_, rfl, .failed _⟩
    · exact ⟨_, rfl, fun h => h, trivial, nofun⟩
  | advance client fault => exact .inl ⟨client, fault, rfl, advance_moves hst⟩

theorem Invariant.step [LawfulThemeText Bytes] [LawfulThemeValues] (h : Invariant library) {a : Action}
    (hst : library.step builtins a = some library') : Invariant library' := by
  obtain ⟨client, fault, -, hm⟩ | ⟨client, phase, rfl, hgoes⟩ := step_cases hst
  rotate_left
  · exact h.setPhase (fun hh => absurd hh hgoes.free) hgoes.checked
  have hlock := h.lock client
  have hb := h.checked client
  cases hm with
  | goes hgoes => exact h.setPhase (fun hh => absurd hh hgoes.free) hgoes.checked
  | acquires hph hf => exact h.acquire hf (hph ▸ hb)
  | prepares hph hs =>
    rw [hph] at hlock hb
    exact h.setPhase (fun _ => hlock trivial) (prepare_spec hb.1 hb.2 hs)
  | finds hph hu =>
    rw [hph] at hlock
    exact h.setPhase (fun _ => hlock trivial) (checkDelete_spec hu)
  | fails hh => exact h.release (hlock hh) _ library.files
  | writes hph | removes hph =>
    rw [hph] at hlock
    exact h.release (hlock trivial) _ _

/-! ### What a step changes -/

/-- A step leaves the files, or replaces or removes the one that was checked. -/
theorem step_files {a : Action} (hst : library.step builtins a = some library') : library'.files = library.files ∨
      (∃ client fault id stored precondition, a = .advance client fault ∧ library.clients client = .writing id stored precondition ∧
        library'.files = library.files.insert id (toVecPretty stored.toValue)) ∨
      ∃ client id revision, a = .advance client none ∧ library.clients client = .removing id revision ∧
        library'.files = library.files.filterKeys (· ≠ id) := by
  obtain ⟨client, fault, rfl, hm⟩ | ⟨client, phase, rfl, -⟩ := step_cases hst
  · cases hm with
    | writes hph => exact .inr (.inl ⟨client, fault, _, _, _, rfl, hph, rfl⟩)
    | removes hph => exact .inr (.inr ⟨client, _, _, rfl, hph, rfl⟩)
    | _ => exact .inl rfl
  · exact .inl rfl

/-! ### A document that was read -/

/-- The client is about to remove the theme. -/
def Phase.removes (id : Text) : Phase → Bool
  | .removing i _ => i = id
  | _ => false

/-- The step removes a theme. -/
def Removes (id : Text) (library : ThemeLibrary Bytes) : Action → Bool
  | .advance client none => (library.clients client).removes id
  | _ => false

/-- A document is stored, and if it can be read, it is this one, or has a larger revision. -/
structure Kept (d : ThemeDocument) (id : Text) (library : ThemeLibrary Bytes) : Prop where
  stored : library.files.get? id ≠ none
  newer : ∀ d', readDocument library.files id = .ok (some d') → d' = d ∨ d.revision < d'.revision

theorem Kept.congr (h : Kept d id library) (hg : library'.files.get? id = library.files.get? id) : Kept d id library' :=
  ⟨hg ▸ h.stored, fun d' hd' => h.newer d' (readDocument_congr hg ▸ hd')⟩

/-- The document that was read for a revision is newer, too. -/
theorem Kept.current (h : Kept d id library) {current : Option ThemeDocument} (hrd : readDocument library.files id = .ok current) :
    ∃ d', current = some d' ∧ (d' = d ∨ d.revision < d'.revision) := by
  cases current with
  | none => exact absurd (readDocument_eq_none_iff.mp hrd) h.stored
  | some d' => exact ⟨d', rfl, h.newer d' hrd⟩

omit [ThemeValues] in
theorem lt_nextRevision {n m : ℕ} (hn : n < 2 ^ 64 - 1) (h : n ≤ m) : n < nextRevision (some m) := by
  change n < min (m + 1) (2 ^ 64 - 1)
  omega

theorem Kept.step [LawfulThemeText Bytes] (h : Kept d id library) (hi : Invariant library) (hr : d.revision < 2 ^ 64 - 1) {a : Action}
    (hrem : Removes id library a = false) (hst : library.step builtins a = some library') : Kept d id library' := by
  obtain hsm | ⟨client, fault, i, stored, precondition, rfl, hph, hfs⟩ | ⟨client, i, revision, rfl, hph, hfs⟩ := step_files hst
  · exact h.congr (by rw [hsm])
  · have hchk := hi.checked client
    rw [hph] at hchk
    by_cases hid : id = i
    · subst hid
      obtain ⟨read, hrd, hnx, -, -⟩ := hchk.current
      obtain ⟨current, rfl, hk⟩ := h.current hrd
      refine ⟨?_, fun d' hd' => .inr ?_⟩
      · rw [hfs, Assoc.Map.get?_insert, if_pos rfl]
        exact some_ne_none _
      · rw [hfs] at hd'
        rw [revision_readDocument_insert hchk.revision.1 hchk.revision.2 hd', hnx]
        refine lt_nextRevision hr ?_
        rcases hk with rfl | hlt
        · exact Nat.le_refl _
        · exact Nat.le_of_lt hlt
    · exact h.congr (by rw [hfs, Assoc.Map.get?_insert, if_neg hid])
  · have hid : id ≠ i := by
      rintro rfl
      rw [Removes, hph, Phase.removes, decide_eq_true rfl] at hrem
      cases hrem
    exact h.congr (by rw [hfs, Assoc.Map.get?_filterKeys, if_pos (decide_eq_true hid)])

/-- The client is about to write or remove the theme, and has found the revision. -/
def Matched (id : Text) (revision : ℕ) : Phase → Prop
  | .writing i _ (.exact r) => i = id ∧ r = revision
  | .removing i r => i = id ∧ r = revision
  | _ => False

theorem Kept.matched (h : Kept d id library) (hi : Invariant library) (hm : Matched id d.revision (library.clients client)) :
    readDocument library.files id = .ok (some d) := by
  have hchk := hi.checked client
  obtain ⟨current, hc, hr⟩ : ∃ current, readDocument library.files id = .ok (some current) ∧ current.revision = d.revision := by
    generalize library.clients client = phase at hm hchk
    unfold Matched at hm
    split at hm
    · obtain ⟨rfl, rfl⟩ := hm
      obtain ⟨read, hrd, -, -, he⟩ := Prepared.current hchk
      obtain ⟨current, rfl, -⟩ := h.current hrd
      exact ⟨current, hrd, some.inj (he _ rfl)⟩
    · obtain ⟨rfl, rfl⟩ := hm
      exact hchk
    · exact hm.elim
  rcases h.newer current hc with rfl | hlt
  · exact hc
  · omega

/-! ### Results -/

end Pebrel.Themes
