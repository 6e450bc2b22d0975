import Pebrel.Settings.Migration
import Mathlib.Data.List.Infix
import Mathlib.Data.List.Nodup

/-!
# The steps of a migration

What a run is to leave of a destination (`planned`), and what each of its parts does on the
way: a part puts planned nodes where there was nothing, one after another, and temporary
files come and go (`Step`). Each has a rule for any property that such steps keep (`Closed`).
-/

namespace Pebrel.Settings.Migration

open Library List Option Nat Function Text Name

/-! ### Temporary names -/

/-- A name with something in place of what is not Unicode. -/
def Name.lossy (name : Name) : Text := name.map (Sum.elim id fun _ => '?')

def Name.isTemporary (name : Name) : Bool := isTemporaryText name.lossy

/-- The path is one of a temporary file. -/
def Temporary (q : Path) : Prop := ∃ p name, q = p ++ [name] ∧ isTemporary name = true

section
variable {sep t l rest after : Text} {c x : Char}

theorem splitOnceText_skip (h : sep.isPrefixOf (c :: t) = false) :
    Text.splitOnceText sep (c :: t) = (Text.splitOnceText sep t).map fun e => (c :: e.1, e.2) := by
  rw [splitOnceText, h]
  rfl

/-- What has not the first character of the separator is before it. -/
theorem splitOnceText_append (hl : x ∉ l) (h : Text.splitOnceText (x :: sep) t = some (rest, after)) :
    Text.splitOnceText (x :: sep) (l ++ t) = some (l ++ rest, after) := by
  induction l with
  | nil => exact h
  | cons c l ih =>
    rw [mem_cons, not_or] at hl
    have hskip : (x :: sep).isPrefixOf (c :: (l ++ t)) = false := by
      rw [isPrefixOf, beq_eq_false_iff_ne.mpr hl.1]
      rfl
    rw [cons_append, splitOnceText_skip hskip, ih hl.2]
    rfl

theorem splitOnceText_self (rest : Text) : Text.splitOnceText (x :: sep) (x :: sep ++ rest) = some ([], rest) := by
  rw [cons_append, splitOnceText, if_pos (List.isPrefixOf_iff_prefix.mpr ⟨rest, cons_append⟩), ← cons_append, drop_left]

theorem stripEnding_append (ending t : Text) : stripEnding ending (t ++ ending) = some t := by
  rw [stripEnding, if_pos (isSuffixOf_iff_suffix.mpr ⟨t, rfl⟩), length_append, Nat.add_sub_cancel, take_left]

end

variable {a b c t : Text} {name : Name}

/-- The separator is found where it is written, as what comes after it has none. -/
theorem rsplitOnceText_digits {sep ending : Text} (stem : Text) (ha : ∀ x ∈ a, x.isDigit = true) (hb : ∀ x ∈ b, x.isDigit = true)
    (hc : ∀ x ∈ c, x.isDigit = true) (hane : a ≠ []) (hbne : b ≠ []) (he : '-' ∉ ending) :
    rsplitOnceText (sep ++ ['e', '-']) (stem ++ (sep ++ 'e' :: '-' :: (a ++ '-' :: (b ++ '-' :: (c ++ ending))))) =
      some (stem, a ++ '-' :: (b ++ '-' :: (c ++ ending))) := by
  have hds {d : Text} (hd : ∀ x ∈ d, x.isDigit = true) : '-' ∉ d.reverse := fun h => absurd (hd _ (mem_reverse.mp h)) (by decide)
  have hdash {d t rest after : Text} (hd : ∀ x ∈ d, x.isDigit = true) (hne : d ≠ [])
      (h : splitOnceText ('-' :: 'e' :: sep.reverse) (d.reverse ++ t) = some (rest, after)) :
      splitOnceText ('-' :: 'e' :: sep.reverse) ('-' :: (d.reverse ++ t)) = some ('-' :: rest, after) := by
    obtain ⟨x, l, hx⟩ := exists_cons_of_ne_nil (reverse_ne_nil_iff.mpr hne)
    have hdig : x.isDigit = true := hd x (mem_reverse.mp (hx ▸ mem_cons_self))
    have hxe : ('e' == x) = false := beq_eq_false_iff_ne.mpr fun heq => absurd (heq ▸ hdig) (by decide)
    rw [splitOnceText_skip, h]
    · rfl
    · rw [hx, cons_append, isPrefixOf, isPrefixOf, hxe, Bool.false_and, Bool.and_false]
  have hr : (stem ++ (sep ++ 'e' :: '-' :: (a ++ '-' :: (b ++ '-' :: (c ++ ending))))).reverse =
      ending.reverse ++ (c.reverse ++ '-' :: (b.reverse ++ '-' :: (a.reverse ++ ('-' :: 'e' :: sep.reverse ++ stem.reverse)))) := by
    simp only [reverse_append, reverse_cons, append_assoc, cons_append, nil_append]
  have hp : (sep ++ ['e', '-']).reverse = '-' :: 'e' :: sep.reverse := reverse_append
  have hsp := splitOnceText_append (fun h => he (mem_reverse.mp h)) (splitOnceText_append (hds hc)
    (hdash hb hbne (splitOnceText_append (hds hb) (hdash ha hane (splitOnceText_append (hds ha) (splitOnceText_self stem.reverse))))))
  rw [rsplitOnceText, hp, hr, hsp]
  simp only [map_some, reverse_reverse, append_nil, reverse_append, reverse_cons, append_assoc, cons_append, nil_append]

theorem isTemporaryText_digits (stem : Text) (ha : ∀ x ∈ a, x.isDigit = true) (hb : ∀ x ∈ b, x.isDigit = true)
    (hc : ∀ x ∈ c, x.isDigit = true) (hane : a ≠ []) (hbne : b ≠ []) (hcne : c ≠ []) :
    isTemporaryText (stem ++ '.' :: ("pebrel-migrate-".toList ++ a ++ '-' :: b ++ '-' :: c ++ ".tmp".toList)) = true := by
  have hp : ".pebrel-migrate-".toList = ".pebrel-migrat".toList ++ ['e', '-'] := by decide
  have hw : '.' :: "pebrel-migrate-".toList = ".pebrel-migrat".toList ++ ['e', '-'] := by decide
  have hnm : stem ++ '.' :: ("pebrel-migrate-".toList ++ a ++ '-' :: b ++ '-' :: c ++ ".tmp".toList) =
      stem ++ (".pebrel-migrat".toList ++ 'e' :: '-' :: (a ++ '-' :: (b ++ '-' :: (c ++ ".tmp".toList)))) := by
    have hcons (t : Text) : '.' :: ("pebrel-migrate-".toList ++ t) = ".pebrel-migrat".toList ++ 'e' :: '-' :: t := by
      rw [← cons_append, hw, append_assoc]
      rfl
    simp only [append_assoc, cons_append, hcons]
  have hdash {d : Text} (hd : ∀ x ∈ d, x.isDigit = true) : '-' ∉ d := fun h => absurd (hd _ h) (by decide)
  have hpt {d : Text} (hd : ∀ x ∈ d, x.isDigit = true) (hne : d ≠ []) : (!d.isEmpty && d.all Char.isDigit) = true := by
    rw [List.all_eq_true.mpr hd, isEmpty_eq_false_iff.mpr hne]
    rfl
  have he : a ++ '-' :: (b ++ '-' :: (c ++ ".tmp".toList)) = (a ++ '-' :: (b ++ '-' :: c)) ++ ".tmp".toList := by
    simp only [append_assoc, cons_append]
  have hsp : (a ++ '-' :: (b ++ '-' :: c)).splitOn '-' = [a, b, c] := by
    rw [splitOn_append_cons_self, splitOn_append_cons_self, splitOn_of_not_mem (hdash ha), splitOn_of_not_mem (hdash hb),
      splitOn_of_not_mem (hdash hc)]
    rfl
  rw [isTemporaryText, hnm, hp, rsplitOnceText_digits stem ha hb hc hane hbne (by decide), bind_some]
  dsimp only
  rw [he, stripEnding_append, any_some, hsp]
  simp only [all_cons, all_nil, hpt ha hane, hpt hb hbne, hpt hc hcne]
  rfl

theorem isTemporaryText_temporary (stem : Text) (stamp : Stamp) : isTemporaryText (stem ++ '.' :: temporaryExtension stamp) = true := by
  have hds (n : ℕ) : ∀ x ∈ toDigits 10 n, x.isDigit = true := fun x hx => isDigit_of_mem_toDigits (by decide) (by decide) hx
  have hne (n : ℕ) : toDigits 10 n ≠ [] := toDigits_ne_nil
  exact isTemporaryText_digits stem (hds stamp.1) (hds stamp.2.1) (hds stamp.2.2) (hne _) (hne _) (hne _)

theorem lossy_append (name name' : Name) : lossy (name ++ name') = name.lossy ++ name'.lossy := map_append

theorem lossy_ofText (t : Text) : (ofText t).lossy = t := by
  rw [lossy, ofText, List.map_map]
  exact List.map_id t

theorem temporary_temporaryPath (path : Path) (stamp : Stamp) : Temporary (temporaryPath path stamp) := by
  refine ⟨_, _, rfl, ?_⟩
  rw [isTemporary, withExtension, lossy_append, lossy_ofText]
  exact isTemporaryText_temporary _ _

theorem toStr_ofText (t : Text) : (ofText t).toStr = some t := by
  induction t with
  | nil => rfl
  | cons c t ih =>
    rw [toStr, ofText] at ih ⊢
    rw [map_cons, mapM_cons, ih]
    rfl

theorem eq_ofText (h : name.toStr = some t) : name = .ofText t := by
  induction name generalizing t with
  | nil =>
    cases h
    rfl
  | cons x name ih =>
    rw [toStr, mapM_cons] at h
    cases x with
    | inl c =>
      obtain ⟨c', hc', h⟩ := bind_eq_some_iff.mp h
      obtain ⟨t', ht', heq⟩ := bind_eq_some_iff.mp h
      cases hc'
      cases heq
      rw [ih ht']
      rfl
    | inr n => exact nomatch h

theorem ofText_inj {s : Text} (h : ofText s = ofText t) : s = t :=
  some.inj ((toStr_ofText s).symm.trans ((congrArg _ h).trans (toStr_ofText t)))

/-! ### Names of the migration -/

theorem skipped_ofText (keepConfig : Bool) (t : Text) :
    skipped keepConfig (.ofText t) = (isMigrationArtifact t || keepConfig && configFiles.contains t) := by
  rw [skipped, toStr_ofText, any_some]

/-- A temporary name of Unicode is not copied. -/
theorem skipped_of_isTemporary {keepConfig : Bool} (h : name.isTemporary = true) (hnm : name.toStr.isSome = true) :
    skipped keepConfig name = true := by
  obtain ⟨t, ht⟩ := isSome_iff_exists.mp hnm
  rw [eq_ofText ht] at h ⊢
  rw [isTemporary, lossy_ofText] at h
  rw [skipped_ofText, isMigrationArtifact, h, Bool.or_true, Bool.true_or]

theorem not_temporary (h : isTemporaryText t = false) : ¬Temporary [.ofText t] := by
  rintro ⟨p, name, heq, hnm⟩
  obtain ⟨rfl, rfl⟩ : p = [] ∧ name = .ofText t := by
    cases p with
    | nil => exact ⟨rfl, (List.cons.inj heq).1.symm⟩
    | cons _ p => exact absurd (List.cons.inj heq).2.symm (append_ne_nil_of_right_ne_nil _ (cons_ne_nil _ _))
  rw [isTemporary, lossy_ofText, h] at hnm
  exact nomatch hnm

theorem not_temporary_nil : ¬Temporary [] := fun ⟨_, _, heq, _⟩ => append_ne_nil_of_right_ne_nil _ (cons_ne_nil _ _) heq.symm

theorem not_temporary_concat {p : Path} (h : name.isTemporary = false) : ¬Temporary (p ++ [name]) := by
  rintro ⟨p', name', heq, hnm⟩
  obtain ⟨-, hsing⟩ := append_inj' heq rfl
  rw [← (List.cons.inj hsing).1, h] at hnm
  exact nomatch hnm

/-- No name is an old and a new one, nor one of the migration's own. -/
theorem dataFiles_distinct : ∀ e ∈ dataFiles, e.1 ∉ completeFile :: lockFile :: dataFiles.map Prod.snd := by decide

theorem dataFiles_new : ∀ e ∈ dataFiles, e.2 ∉ [completeFile, lockFile] := by decide

theorem dataFiles_old_not_temporary : ∀ e ∈ dataFiles, isTemporaryText e.1 = false := by decide

theorem dataFiles_new_not_temporary : ∀ e ∈ dataFiles, isTemporaryText e.2 = false := by decide

theorem dataFiles_nodup : (dataFiles.map Prod.snd).Nodup := by decide

/-! ### What is planned -/

def Leaf.node : Leaf → Option Node
  | .file contents => some (.file contents)
  | .symlink target => some (.symlink target)
  | .other => none

namespace Listing

def names : Listing → List Name
  | nil => []
  | leaf name _ rest => name :: rest.names
  | dir name _ rest => name :: rest.names

/-- The names in a directory differ. -/
def Distinct : Listing → Prop
  | nil => True
  | leaf name _ rest => name ∉ rest.names ∧ rest.Distinct
  | dir name entries rest => name ∉ rest.names ∧ entries.Distinct ∧ rest.Distinct

/-- No name that is not Unicode looks like a temporary one. -/
def Plain : Listing → Prop
  | nil => True
  | leaf name _ rest => (name.isTemporary = true → name.toStr.isSome = true) ∧ rest.Plain
  | dir name entries rest => (name.isTemporary = true → name.toStr.isSome = true) ∧ entries.Plain ∧ rest.Plain

/-- What is copied to the path below the destination. -/
def view (keepConfig : Bool) : Listing → Path → Option Node
  | nil, _ => none
  | leaf name entry rest, q => if skipped keepConfig name = false ∧ q = [name] then entry.node else rest.view keepConfig q
  | dir name entries rest, q =>
    if skipped keepConfig name = false ∧ q.head? = some name then (if q.tail = [] then some .dir else entries.view false q.tail)
    else rest.view keepConfig q

end Listing

section
variable (env : Environment) (legacy : Legacy) (t₀ : Tree)

/-- There is a configuration file already. -/
def keeps (t : Tree) : Bool := configFiles.any fun name => (t [.ofText name]).isSome

def Legacy.view (keepConfig : Bool) : Legacy → Path → Option Node
  | .directory entries => entries.view keepConfig
  | _ => fun _ => none

/-- There are directories, or nothing, above the path. -/
def Clear (q : Path) : Prop := ∀ p ∈ q.inits, p ≠ q → t₀ p = none ∨ t₀ p = some .dir
deriving Decidable

/-- The destination with its directory and the lock. -/
def prepared : Tree := fun q =>
  (t₀ q).or (if q = [] then some .dir else if q = [.ofText lockFile] then some (.file ⟨[], env.permissions⟩) else none)

/-- With the legacy directory copied. -/
def copied : Tree := fun q => (prepared env t₀ q).or (if Clear t₀ q then legacy.view (keeps t₀) q else none)

/-- The file that is to have this path, from one of another name. -/
def renamed : Tree := fun q =>
  (dataFiles.find? fun e => decide (q = [.ofText e.2])).bind fun e =>
    if keeps t₀ && configFiles.contains e.2 then none else followed env (copied env legacy t₀) [.ofText e.1]

/-- **What a run that is not cut off leaves of a destination.** -/
def planned : Tree :=
  if (followed env (prepared env t₀) [.ofText completeFile]).isSome then prepared env t₀
  else fun q => ((copied env legacy t₀ q).or (renamed env legacy t₀ q)).or
    (if q = [.ofText completeFile] then some (.file ⟨completeText, env.permissions⟩) else none)

/-- The destination is between the one that was there and the planned one. -/
structure Between (t : Tree) : Prop where
  kept : ∀ q, t₀ q ≠ none → t q = t₀ q
  planned : ∀ q, ¬Temporary q → t q ≠ none → t q = planned env legacy t₀ q

/-- What is behind links does not change with what the migration makes. -/
structure Steady : Prop where
  lock : ∀ t target, (∀ q, t₀ q ≠ none → t q = t₀ q) → t₀ [.ofText lockFile] = some (.symlink target) →
    env.behindLinks t [.ofText lockFile] ≠ none
  complete : ∀ t target, Between env legacy t₀ t → t₀ [.ofText completeFile] = some (.symlink target) →
    (env.behindLinks t [.ofText completeFile]).isSome = (env.behindLinks (prepared env t₀) [.ofText completeFile]).isSome
  renamed : ∀ t target, Between env legacy t₀ t → (∀ q, ¬Temporary q → copied env legacy t₀ q ≠ none → t q ≠ none) →
    ∀ e ∈ dataFiles, copied env legacy t₀ [.ofText e.1] = some (.symlink target) →
      env.behindLinks t [.ofText e.1] = env.behindLinks (copied env legacy t₀) [.ofText e.1]

/-- The configuration files are those that were there, or none, or all that are planned. -/
def Ready (t : Tree) : Prop :=
  keeps t₀ = true ∨ keeps t = false ∨
    ∀ q, (∃ name ∈ configFiles, q.head? = some (.ofText name)) → ¬Temporary q → planned env legacy t₀ q ≠ none → t q ≠ none

end

/-! ### Steps -/

section
variable {env : Environment} {legacy : Legacy} {t₀ t t' : Tree} {q : Path} {e : Text × Text}

theorem single_inj {s u : Text} : ([.ofText s] : Path) = [.ofText u] ↔ s = u := ⟨fun h => ofText_inj (List.cons.inj h).1, fun h => h ▸ rfl⟩

theorem complete_ne_lock : ([.ofText completeFile] : Path) ≠ [.ofText lockFile] := fun h => absurd (single_inj.mp h) (by decide)

theorem prepared_of_ne_none (h : t₀ q ≠ none) : prepared env t₀ q = t₀ q := by
  obtain ⟨n, hn⟩ := ne_none_iff_exists'.mp h
  rw [prepared, hn, some_or]

theorem copied_of_ne_none (h : t₀ q ≠ none) : copied env legacy t₀ q = t₀ q := by
  obtain ⟨n, hn⟩ := ne_none_iff_exists'.mp h
  rw [copied, prepared_of_ne_none h, hn, some_or]

/-- What was there is planned to stay. -/
theorem planned_of_ne_none (h : t₀ q ≠ none) : planned env legacy t₀ q = t₀ q := by
  obtain ⟨n, hn⟩ := ne_none_iff_exists'.mp h
  rw [planned]
  split
  · exact prepared_of_ne_none h
  · dsimp only
    rw [copied_of_ne_none h, hn, some_or, some_or]

/-- Everything planned but the mark is there. -/
def Rest (env : Environment) (legacy : Legacy) (t₀ t : Tree) : Prop :=
  ∀ q, ¬Temporary q → q ≠ [.ofText completeFile] → planned env legacy t₀ q ≠ none → t q ≠ none

/-- Between the calls of a run, one planned node is put where there was nothing, and temporary files come and go. -/
def Step (env : Environment) (legacy : Legacy) (t₀ t t' : Tree) : Prop :=
  ∃ q, ¬Temporary q ∧ t q = none ∧ planned env legacy t₀ q ≠ none ∧
    (t' q = none ∨ t' q = planned env legacy t₀ q ∧ (q = [.ofText completeFile] → Rest env legacy t₀ t)) ∧
    ∀ r, r ≠ q → t r ≠ none ∨ ¬Temporary r → t' r = t r

theorem Step.kept (h : Step env legacy t₀ t t') {r : Path} (hr : t r ≠ none) : t' r = t r := by
  obtain ⟨q, -, hq, -, -, ho⟩ := h
  exact ho r (fun heq => hr (heq ▸ hq)) (.inl hr)

/-- What runs keep: the destination is between, and the mark is there only when the rest is. -/
structure Invariant (env : Environment) (legacy : Legacy) (t₀ t : Tree) : Prop extends Between env legacy t₀ t where
  mark : t₀ [.ofText completeFile] = none → t [.ofText completeFile] ≠ none → Rest env legacy t₀ t

theorem Rest.step (h : Rest env legacy t₀ t) (hst : Step env legacy t₀ t t') : Rest env legacy t₀ t' := by
  intro q hq hne hp
  have hth := h q hq hne hp
  rwa [hst.kept hth]

theorem Invariant.step (h : Invariant env legacy t₀ t) (hst : Step env legacy t₀ t t') : Invariant env legacy t₀ t' := by
  have hk (r : Path) (hr : t₀ r ≠ none) : t' r = t₀ r := by
    have hth : t r = t₀ r := h.kept r hr
    rw [hst.kept (hth ▸ hr), hth]
  refine ⟨⟨hk, fun r hr hth => ?_⟩, fun hn hmark => ?_⟩
  · obtain ⟨q, hq, hn, -, hput, ho⟩ := hst
    by_cases hrq : r = q
    · subst hrq
      rcases hput with hput | ⟨hput, -⟩
      · exact absurd hput hth
      · exact hput
    · rw [ho r hrq (.inr hr)] at hth ⊢
      exact h.planned r hr hth
  · by_cases hth : t [.ofText completeFile] = none
    · obtain ⟨q, hq, hqno, hp, hput, ho⟩ := id hst
      by_cases hrq : [.ofText completeFile] = q
      · subst hrq
        rcases hput with hput | ⟨-, hrest⟩
        · exact absurd hput hmark
        · exact (hrest rfl).step hst
      · rw [ho _ hrq (.inr (not_temporary (by decide)))] at hmark
        exact absurd hth hmark
    · exact (h.mark hn hth).step hst

theorem Invariant.refl : Invariant env legacy t₀ t₀ := ⟨⟨fun _ _ => rfl, fun _ _ h => (planned_of_ne_none h).symm⟩, fun hn h => absurd hn h⟩

/-- A property of destinations that steps keep. -/
structure Closed (env : Environment) (legacy : Legacy) (t₀ : Tree) (J : Tree → Prop) : Prop where
  step : ∀ t t', J t → Step env legacy t₀ t t' → J t'
  invariant : ∀ t, J t → Invariant env legacy t₀ t

/-- So is what holds on of all that has more. -/
theorem Closed.and {J S : Tree → Prop} (hJ : Closed env legacy t₀ J) (hS : ∀ t t', (∀ r, t r ≠ none → t' r = t r) → S t → S t') :
    Closed env legacy t₀ fun t => J t ∧ S t :=
  ⟨fun t t' h hst => ⟨hJ.step t t' h.1 hst, hS t t' (fun _ hr => hst.kept hr) h.2⟩, fun t h => hJ.invariant t h.1⟩

end

/-! ### Rules of the calls -/

/-- The destination has the property, and the legacy directory is as it was. -/
def At (legacy : Legacy) (J : Tree → Prop) (s : State) : Prop := s.disk.legacy = legacy ∧ J s.disk.destination

section
variable {env : Environment} {run : Run} {legacy : Legacy} {J J' : Tree → Prop} {t : Tree} {path : Path} {α : Type}
  {E : Failure → State → Prop}

theorem At.mono (h : ∀ t, J t → J' t) {s : State} (hs : At legacy J s) : At legacy J' s := ⟨hs.1, h _ hs.2⟩

theorem call_triple : Fallible.Triple (At legacy J) (call run) (fun _ => At legacy J) (fun _ => At legacy J) := by
  intro s hs
  cases hc : s.crashed with
  | true =>
    simp only [call, hc, if_true]
    exact hs
  | false =>
    cases hv : run.verdict s.calls <;> simp only [call, hc, hv, Bool.false_eq_true, if_false] <;> exact hs

theorem tree_bind {f : Tree → Program α} {R : α → State → Prop}
    (h : ∀ t, J t → Fallible.Triple (At legacy (· = t)) (f t) R E) : Fallible.Triple (At legacy J) (tree >>= f) R E :=
  fun s hs => h _ hs.2 s ⟨hs.1, rfl⟩

theorem change_triple {f : Tree → Tree} (h : ∀ t, J t → J' (f t)) : Fallible.Triple (At legacy J) (change f) (fun _ => At legacy J') E :=
  .modify fun _ hs => ⟨hs.1, h _ hs.2⟩

theorem put_triple {node : Node} (h : ∀ t, J t → J' (update t path (some node))) :
    Fallible.Triple (At legacy J) (put path node) (fun _ => At legacy J') E := change_triple h

/-- The destination may be named. -/
theorem at_triple {x : Program α} {Q : α → State → Prop}
    (h : ∀ t, J t → Fallible.Triple (At legacy (· = t)) x Q E) : Fallible.Triple (At legacy J) x Q E :=
  fun s hs => h _ hs.2 s ⟨hs.1, rfl⟩

theorem destinationExists_triple :
    Fallible.Triple (At legacy (· = t)) (destinationExists run path) (fun b s => b = (t path).isSome ∧ At legacy (· = t) s)
      (fun _ => At legacy (· = t)) :=
  call_triple.bind fun _ => tree_bind fun _ ht => .pure fun _ hs => ⟨ht ▸ rfl, ht ▸ hs⟩

theorem tryExists_triple :
    Fallible.Triple (At legacy (· = t)) (tryExists env run path) (fun b s => b = (followed env t path).isSome ∧ At legacy (· = t) s)
      (fun _ => At legacy (· = t)) :=
  call_triple.bind fun _ => tree_bind fun _ ht => .pure fun _ hs => ⟨ht ▸ rfl, ht ▸ hs⟩

theorem writeAll_triple {bytes : List UInt8} (h : ∀ t bytes, J t → J (update t path (some (.file ⟨bytes, env.permissions⟩))))
    (h' : ∀ t, J t → J' (update t path (some (.file ⟨bytes, env.permissions⟩)))) :
    Fallible.Triple (At legacy J) (writeAll env run path bytes) (fun _ => At legacy J') (fun _ => At legacy J) := by
  intro s hs
  cases hc : s.crashed with
  | true =>
    simp only [writeAll, hc, if_true]
    exact hs
  | false =>
    cases hv : run.verdict s.calls <;> simp only [writeAll, hc, hv, Bool.false_eq_true, if_false]
    · exact ⟨hs.1, h' _ hs.2⟩
    · exact ⟨hs.1, h _ _ hs.2⟩
    · exact ⟨hs.1, h _ _ hs.2⟩

end

/-! ### Writing where there is nothing -/

section
variable {env : Environment} {run : Run} {legacy : Legacy} {t₀ : Tree} {J : Tree → Prop} {t : Tree} {path : Path}

/-- While a file is written, there may be something at its temporary name. -/
def Writing (t : Tree) (temporary : Path) (t' : Tree) : Prop := ∀ r, r ≠ temporary → t' r = t r

variable {temporary : Path} {t' : Tree}

theorem Writing.update (h : Writing t temporary t') (n : Option Node) :
    Writing t temporary (update t' temporary n) := fun r hr => by rw [update_of_ne hr, h r hr]

section
variable (hJ : Closed env legacy t₀ J)
include hJ

/-- A file is written where nothing is: the planned one. What `write` leaves at the temporary name is linked. -/
theorem writeIfAbsent_triple {write : Path → Program Unit} (hp : ¬Temporary path)
    (hplan : ∀ t, J t → t path = none → planned env legacy t₀ path ≠ none)
    (hmark : ∀ t, J t → t path = none → path = [.ofText completeFile] → Rest env legacy t₀ t)
    (hwr : ∀ t temporary, J t → t path = none → Temporary temporary → t temporary = none →
      Fallible.Triple (At legacy (Writing t temporary)) (write temporary)
        (fun _ => At legacy fun t' => Writing t temporary t' ∧ t' temporary = planned env legacy t₀ path)
        (fun _ => At legacy (Writing t temporary))) :
    Fallible.Triple (At legacy J) (writeIfAbsent env run path write) (fun _ => At legacy fun t => J t ∧ t path ≠ none)
      (fun _ => At legacy J) := by
  refine at_triple fun t ht => ?_
  have hkeep : ∀ s, At legacy (· = t) s → At legacy J s := fun s => .mono fun t' heq => heq ▸ ht
  rw [writeIfAbsent]
  refine .bind_and (destinationExists_triple.error fun _ => hkeep) fun found hfd => ?_
  split
  · rename_i hsome
    refine .pure fun s => .mono fun t' heq => heq ▸ ⟨ht, ?_⟩
    rw [hfd] at hsome
    exact isSome_iff_ne_none.mp hsome
  · rename_i hn
    rw [hfd, Bool.not_eq_true, isSome_eq_false_iff, isNone_iff_eq_none] at hn
    have hdraw : Fallible.Triple (At legacy (· = t)) (drawTemporary run path)
        (fun temporary s => Temporary temporary ∧ At legacy (· = t) s) (fun _ => At legacy J) :=
      fun s hs => ⟨temporary_temporaryPath _ _, hs⟩
    refine .bind_and hdraw fun temporary htmp => ?_
    have hne : path ≠ temporary := fun heq => hp (heq ▸ htmp)
    -- All that can be left is a step from `t`.
    have hst {t' : Tree} (ho : ∀ r, r ≠ path → r ≠ temporary → t' r = t r)
        (hput : t' path = none ∨ t' path = planned env legacy t₀ path) (hth : t temporary = none) : Step env legacy t₀ t t' :=
      ⟨path, hp, hn, hplan t ht hn, hput.imp id fun h => ⟨h, hmark t ht hn⟩, fun r hr hk => ho r hr fun heq =>
        hk.elim (fun h => h (heq ▸ hth)) fun h => h (heq ▸ htmp)⟩
    have hw {t' : Tree} (h : Writing t temporary t') (hth : t temporary = none) : Step env legacy t₀ t t' :=
      hst (fun r _ hr => h r hr) (.inl ((h path hne).trans hn)) hth
    have hcr : Fallible.Triple (At legacy (· = t)) (createNew env run temporary)
        (fun _ s => t temporary = none ∧ At legacy (Writing t temporary) s) (fun _ => At legacy J) := by
      refine (call_triple.error fun _ => hkeep).bind fun _ => tree_bind fun t' ht' => ?_
      subst ht'
      split
      · exact .fail hkeep
      · rename_i hth
        refine (put_triple fun t' heq => ?_).post fun _ _ hs => ⟨hth, hs⟩
        exact heq ▸ fun r hr => update_of_ne hr _ _
    refine .bind_and hcr fun _ hth => ?_
    -- What the block that writes and links leaves, with its result.
    let After (result : Except Failure Unit) (t' : Tree) : Prop := (∀ r, r ≠ path → r ≠ temporary → t' r = t r) ∧
        match result with
        | .ok _ => t' path = planned env legacy t₀ path
        | .error _ => t' path = none
    have ha {t' : Tree} (e : Failure) (h : Writing t temporary t') : After (.error e) t' := ⟨fun r _ hr => h r hr, (h path hne).trans hn⟩
    have hb : Fallible.Triple (At legacy (Writing t temporary))
      (write temporary >>= fun _ => call run >>= fun _ => publishFile run temporary path)
        (fun a => At legacy (After (.ok a))) (fun e => At legacy (After (.error e))) := by
      refine ((hwr t temporary ht hn htmp hth).error fun e _ => .mono fun _ => ha e).bind
        fun _ => (call_triple.error fun e _ => .mono fun _ h => ha e h.1).bind fun _ =>
          (call_triple.error fun e _ => .mono fun _ h => ha e h.1).bind fun _ =>
            tree_bind fun t' ht' => ?_
      have hc : t' path = none := (ht'.1 path hne).trans hn
      rw [hc]
      dsimp only
      have hlink : After (.ok ()) (update t' path (t' temporary)) := by
        refine ⟨fun r hr hrt => ?_, ?_⟩
        · rw [update_of_ne hr, ht'.1 r hrt]
        · change update t' path (t' temporary) path = _
          rw [update_self, ht'.2]
      rintro s ⟨hl, heq⟩
      obtain rfl : s.disk.destination = t' := heq
      exact ⟨hl, hlink⟩
    refine (Fallible.Triple.attempt (R := fun result => At legacy (After result)) hb).bind fun result => ?_
    have hrm : Fallible.Triple (At legacy (After result)) (removeFile run temporary) (fun _ => At legacy (After result))
        (fun _ => At legacy (After result)) := by
      refine call_triple.bind fun _ => change_triple fun u hu => ⟨fun r hr hrt => ?_, ?_⟩
      · rw [update_of_ne hrt, hu.1 r hr hrt]
      · have h := hu.2
        cases result <;> exact (update_of_ne hne _ _).trans h
    refine (Fallible.Triple.attempt (R := fun _ => At legacy (After result)) hrm).bind fun cleanup => ?_
    have he : ∀ u, After result u → J u := by
      intro u hu
      refine hJ.step t u ht (hst hu.1 ?_ hth)
      cases result with
      | error e => exact .inl hu.2
      | ok a => exact .inr hu.2
    cases result with
    | error e => exact .fail fun s => .mono he
    | ok a =>
      cases cleanup with
      | error e => exact .fail fun s => .mono he
      | ok b => exact .pure fun s => .mono fun u hu => ⟨he u hu, hu.2 ▸ hplan t ht hn⟩

/-- While a planned file is written, the property holds on. -/
theorem Closed.writing (ht : J t) (hp : ¬Temporary path) (hn : t path = none)
    (hplan : planned env legacy t₀ path ≠ none) (htmp : Temporary temporary) (hth : t temporary = none)
    (h : Writing t temporary t') : J t' := by
  refine hJ.step t t' ht ⟨path, hp, hn, hplan, .inl ?_, fun r _ hk => h r fun heq => ?_⟩
  · rw [h path fun heq => hp (heq ▸ htmp), hn]
  · exact hk.elim (fun hr => hr (heq ▸ hth)) fun hr => hr (heq ▸ htmp)

/-- What is planned may be put. -/
theorem Closed.put {node : Node} (ht : J t) (hpath : ¬Temporary path) (hc : path ≠ [.ofText completeFile])
    (hn : t path = none) (hp : planned env legacy t₀ path = some node) : J (update t path (some node)) := by
  refine hJ.step t _ ht ⟨path, hpath, hn, hp ▸ some_ne_none _, .inr ⟨?_, fun h => absurd h hc⟩, fun r hr _ => ?_⟩
  · rw [update_self, hp]
  · exact update_of_ne hr _ _

theorem copyFile_triple {source : Tree → Option Node} (hp : ¬Temporary path)
    (hc : path ≠ [.ofText completeFile]) (hplan : ∀ t, J t → t path = none → planned env legacy t₀ path ≠ none)
    (hs : ∀ t contents, J t → t path = none → source t = some (.file contents) → planned env legacy t₀ path = some (.file contents)) :
    Fallible.Triple (At legacy J) (copyFile env run source path) (fun _ => At legacy fun t => J t ∧ t path ≠ none)
      (fun _ => At legacy J) := by
  refine writeIfAbsent_triple hJ hp hplan (fun _ _ _ h => absurd h hc) fun t temporary ht hn htmp hth => ?_
  have hne : path ≠ temporary := fun heq => hp (heq ▸ htmp)
  refine call_triple.bind fun _ => tree_bind fun t' ht' => ?_
  have hJ' : J t' := hJ.writing ht hp hn (hplan t ht hn) htmp hth ht'
  have hw : ∀ s, At legacy (· = t') s → At legacy (Writing t temporary) s := fun _ => .mono fun _ heq => heq ▸ ht'
  split
  · rename_i contents hcons
    have hf := hs t' contents hJ' ((ht' path hne).trans hn) hcons
    have hwr : Fallible.Triple (At legacy (Writing t temporary)) (writeAll env run temporary contents.bytes)
        (fun _ => At legacy (Writing t temporary)) (fun _ => At legacy (Writing t temporary)) :=
      writeAll_triple (fun _ _ h => h.update _) fun _ h => h.update _
    refine (hwr.of_pre hw).bind fun _ => call_triple.bind fun _ => put_triple fun u hu => ⟨hu.update _, ?_⟩
    rw [update_self, hf]
  · exact .fail hw

theorem copySymlink_triple {target : Name} (hp : ¬Temporary path) (hc : path ≠ [.ofText completeFile])
    (hplan : ∀ t, J t → t path = none → planned env legacy t₀ path = some (.symlink target)) :
    Fallible.Triple (At legacy J) (copySymlink run target path) (fun _ => At legacy fun t => J t ∧ t path ≠ none)
      (fun _ => At legacy J) := by
  refine at_triple fun t ht => ?_
  have hkeep : ∀ s, At legacy (· = t) s → At legacy J s := fun _ => .mono fun _ heq => heq ▸ ht
  rw [copySymlink]
  refine .bind_and (destinationExists_triple.error fun _ => hkeep) fun found hfd => ?_
  split
  · rename_i hs
    refine .pure fun s => .mono fun t' heq => heq ▸ ⟨ht, ?_⟩
    rw [hfd] at hs
    exact isSome_iff_ne_none.mp hs
  · rename_i hn
    rw [hfd, Bool.not_eq_true, isSome_eq_false_iff, isNone_iff_eq_none] at hn
    have hcall : Fallible.Triple (At legacy (· = t)) (call run) (fun _ => At legacy (· = t)) (fun _ => At legacy J) :=
      call_triple.error fun _ => hkeep
    refine hcall.bind fun _ => hcall.bind fun _ => put_triple fun t' heq => heq ▸ ⟨hJ.put ht hp hc hn (hplan t ht hn), ?_⟩
    rw [update_self]
    exact some_ne_none _

/-- Afterwards there is something; where it is said so, a directory. -/
theorem enterDirectory_triple (hp : ¬Temporary path) (hc : path ≠ [.ofText completeFile])
    (hplan : ∀ t, J t → t path = none → planned env legacy t₀ path = some .dir) :
    Fallible.Triple (At legacy J) (enterDirectory run path)
      (fun entered => At legacy fun t => J t ∧ ∃ n, t path = some n ∧ (entered = true ↔ n = .dir)) (fun _ => At legacy J) := by
  refine call_triple.bind fun _ => tree_bind fun t ht => ?_
  have hkeep : ∀ s, At legacy (· = t) s → At legacy J s := fun _ => .mono fun _ heq => heq ▸ ht
  split
  · rename_i hd
    exact .pure fun s => .mono fun t' heq => heq ▸ ⟨ht, _, hd, iff_of_true rfl rfl⟩
  · rename_i n hn hd
    exact .pure fun s => .mono fun t' heq => heq ▸ ⟨ht, n, hd, iff_of_false nofun hn⟩
  · rename_i hnone
    have hcall : Fallible.Triple (At legacy (· = t)) (call run) (fun _ => At legacy (· = t)) (fun _ => At legacy J) :=
      call_triple.error fun _ => hkeep
    have hput : Fallible.Triple (At legacy (· = t)) (put path .dir) (fun _ => At legacy (· = update t path (some .dir)))
        (fun _ => At legacy J) := put_triple fun t' heq => by rw [heq]
    refine hcall.bind fun _ => hput.bind fun _ => .pure fun s => .mono fun t' heq => heq ▸ ⟨?_, .dir, update_self _ _ _, iff_of_true rfl rfl⟩
    exact hJ.put ht hp hc hnone (hplan t ht hnone)

end

end

/-! ### Copying a directory -/

section
variable {keepConfig : Bool} {l rest entries : Listing} {name : Name} {entry : Leaf} {q : Path}

theorem view_nil : l.view keepConfig [] = none := by
  induction l with
  | nil => rfl
  | leaf name entry rest ih => exact (if_neg fun h => absurd h.2 (cons_ne_nil _ _).symm).trans ih
  | dir name entries rest _ ih => exact (if_neg fun h => nomatch h.2).trans ih

theorem head_mem_names (h : l.view keepConfig q ≠ none) : ∃ name ∈ l.names, q.head? = some name := by
  induction l with
  | nil => exact absurd rfl h
  | leaf name entry rest ih =>
    rw [Listing.view] at h
    split at h
    · rename_i hq
      exact ⟨name, mem_cons_self, hq.2 ▸ rfl⟩
    · obtain ⟨name', hm, hhd⟩ := ih h
      exact ⟨name', mem_cons_of_mem _ hm, hhd⟩
  | dir name entries rest _ ih =>
    rw [Listing.view] at h
    split at h
    · rename_i hq
      exact ⟨name, mem_cons_self, hq.2⟩
    · obtain ⟨name', hm, hhd⟩ := ih h
      exact ⟨name', mem_cons_of_mem _ hm, hhd⟩

/-- The entries after the first have other names. -/
theorem head_ne (hnm : name ∉ rest.names) (h : rest.view keepConfig q ≠ none) : q.head? ≠ some name := by
  obtain ⟨name', hm, hhd⟩ := head_mem_names h
  exact fun heq => hnm (some.inj (hhd.symm.trans heq) ▸ hm)

theorem view_leaf_rest (hnm : name ∉ rest.names) (h : rest.view keepConfig q ≠ none) :
    (Listing.leaf name entry rest).view keepConfig q = rest.view keepConfig q := by
  rw [Listing.view, if_neg]
  rintro ⟨-, rfl⟩
  exact head_ne hnm h rfl

theorem view_dir_rest (hnm : name ∉ rest.names) (h : rest.view keepConfig q ≠ none) :
    (Listing.dir name entries rest).view keepConfig q = rest.view keepConfig q :=
  if_neg fun hq => head_ne hnm h hq.2

theorem view_leaf_self (h : skipped keepConfig name = false) : (Listing.leaf name entry rest).view keepConfig [name] = entry.node :=
  if_pos ⟨h, rfl⟩

theorem view_dir_self (h : skipped keepConfig name = false) : (Listing.dir name entries rest).view keepConfig [name] = some .dir :=
  (if_pos ⟨h, rfl⟩).trans (if_pos rfl)

theorem view_dir_below (h : skipped keepConfig name = false) (hq : q ≠ []) :
    (Listing.dir name entries rest).view keepConfig (name :: q) = entries.view false q :=
  (if_pos ⟨h, rfl⟩).trans (if_neg hq)

theorem isTemporary_of_plain (hpl : name.isTemporary = true → name.toStr.isSome = true) (h : skipped keepConfig name = false) :
    name.isTemporary = false := by
  cases ht : name.isTemporary with
  | false => rfl
  | true => exact nomatch h.symm.trans (skipped_of_isTemporary ht (hpl ht))

theorem concat_ne_complete {p : Path} (h : skipped keepConfig name = false) : p ++ [name] ≠ [.ofText completeFile] := by
  intro heq
  have hl := congrArg getLast? heq
  rw [getLast?_concat] at hl
  have hnm : name = .ofText completeFile := some.inj hl
  rw [hnm, skipped_ofText] at h
  exact nomatch h

end

section
variable {env : Environment} {run : Run} {legacy : Legacy} {t₀ : Tree} {J : Tree → Prop} {t : Tree} {path : Path}

/-- There is something at these paths. -/
def Has (K : Path → Prop) (t : Tree) : Prop := ∀ q, K q → t q ≠ none

theorem Closed.has (hJ : Closed env legacy t₀ J) (K : Path → Prop) : Closed env legacy t₀ fun t => J t ∧ Has K t :=
  hJ.and fun t t' h hK q hq => by
    rw [h q (hK q hq)]
    exact hK q hq

/-- What a listing shows below a path. -/
def Shown (t₀ : Tree) (l : Listing) (keepConfig : Bool) (p q : Path) : Prop :=
  ∃ r, q = p ++ r ∧ l.view keepConfig r ≠ none ∧ Clear t₀ q

theorem clear_concat (hJ : Invariant env legacy t₀ t) {p : Path} (hdirs : ∀ a, a <+: p → t a = some .dir) (name : Name) :
    Clear t₀ (p ++ [name]) := by
  intro a ha hne
  have hle : a <+: p := by
    rcases prefix_concat_iff.mp ((mem_inits _ _).mp ha) with h | h
    · exact absurd h hne
    · exact h
  by_cases hn : t₀ a = none
  · exact .inl hn
  · exact .inr ((hJ.kept a hn).symm.trans (hdirs a hle))

theorem none_of_none (hJ : Invariant env legacy t₀ t) {q : Path} (h : t q = none) : t₀ q = none := by
  by_contra hne
  exact hne ((hJ.kept q hne).symm.trans h)

theorem copyLeaf_triple (hJ : Closed env legacy t₀ J) {entry : Leaf} (hpath : ¬Temporary path) (hc : path ≠ [.ofText completeFile])
    (hp : ∀ t n, J t → t path = none → entry.node = some n → planned env legacy t₀ path = some n) :
    Fallible.Triple (At legacy J) (copyLeaf env run entry path) (fun _ => At legacy fun t => J t ∧ t path ≠ none)
      (fun _ => At legacy J) := by
  cases entry with
  | file contents =>
    rw [copyLeaf]
    refine copyFile_triple hJ hpath hc (fun t ht hn => ?_) fun t c ht hn heq => ?_
    · rw [hp t _ ht hn rfl]
      exact some_ne_none _
    · cases heq
      exact hp t _ ht hn rfl
  | symlink target =>
    rw [copyLeaf]
    exact copySymlink_triple hJ hpath hc fun t ht hn => hp t _ ht hn rfl
  | other => exact .fail fun _ => id

/-- What is in a directory that could not be entered is not to be copied. -/
theorem not_shown_below (hJ : Invariant env legacy t₀ t) {entries : Listing} {n : Node} (hp : ¬Temporary path) (hth : t path = some n)
    (hn : n ≠ .dir) (hplan : t₀ path = none → planned env legacy t₀ path = some .dir) (q : Path) :
    ¬Shown t₀ entries false path q := by
  rintro ⟨r, rfl, hview, hc⟩
  have hr : r ≠ [] := fun h => hview (h ▸ view_nil)
  have hne : path ≠ path ++ r := fun h => hr (self_eq_append_right.mp h)
  rcases hc path ((mem_inits _ _).mpr (prefix_append _ _)) hne with hnone | hd
  · have hd := hJ.planned path hp (hth ▸ some_ne_none _)
    rw [hth, hplan hnone] at hd
    exact hn (some.inj hd)
  · have hk := hJ.kept path (hd ▸ some_ne_none _)
    rw [hth, hd] at hk
    exact hn (some.inj hk)

/-- **A listing is copied below a directory**, by induction on the listing: each entry is there then, or was kept out. -/
theorem copyTree_triple {l : Listing} {keepConfig : Bool} {p : Path} (hJ : Closed env legacy t₀ J) (hd : l.Distinct) (hpl : l.Plain)
    (hdirs : ∀ t, J t → ∀ a, a <+: p → t a = some .dir)
    (hview : ∀ r n, l.view keepConfig r = some n → Clear t₀ (p ++ r) → t₀ (p ++ r) = none → planned env legacy t₀ (p ++ r) = some n) :
    Fallible.Triple (At legacy J) (copyTree env run l p keepConfig) (fun _ => At legacy fun t => J t ∧ Has (Shown t₀ l keepConfig p) t)
      (fun _ => At legacy J) := by
  induction l generalizing p keepConfig J with
  | nil =>
    refine (call_triple).post fun _ _ => .mono fun t ht => ⟨ht, ?_⟩
    rintro q ⟨r, -, hr, -⟩
    exact absurd rfl hr
  | leaf name entry rest ih =>
    obtain ⟨hnm, hd⟩ := hd
    obtain ⟨hpla, hpl⟩ := hpl
    rw [copyTree]
    refine call_triple.bind fun _ => ?_
    have hfst : Fallible.Triple (At legacy J) (if skipped keepConfig name then pure () else copyLeaf env run entry (p ++ [name]))
        (fun _ => At legacy fun t => J t ∧ Has (fun q => skipped keepConfig name = false ∧ q = p ++ [name]) t) (fun _ => At legacy J) := by
      split
      · rename_i hskip
        exact .pure fun s => .mono fun t ht => ⟨ht, fun q hq => nomatch hskip.symm.trans hq.1⟩
      rename_i hskip
      rw [Bool.not_eq_true] at hskip
      refine (copyLeaf_triple hJ (not_temporary_concat (isTemporary_of_plain hpla hskip)) (concat_ne_complete hskip)
        fun t n ht hnone hn => ?_).post fun _ _ => .mono fun t ht => ⟨ht.1, fun q hq => hq.2 ▸ ht.2⟩
      have hi := hJ.invariant t ht
      exact hview [name] n ((view_leaf_self hskip).trans hn) (clear_concat hi (hdirs t ht) name) (none_of_none hi hnone)
    refine hfst.bind fun _ => ?_
    refine (ih (hJ.has _) hd hpl (fun t ht => hdirs t ht.1) fun r n hn => hview r n ?_).conseq (fun _ => id)
      (fun _ _ => .mono fun t ht => ⟨ht.1.1, ?_⟩) fun _ _ => .mono fun t ht => ht.1
    · rw [view_leaf_rest hnm (hn ▸ some_ne_none _), hn]
    rintro q ⟨r, rfl, hr, hc⟩
    rw [Listing.view] at hr
    split at hr
    · rename_i hq
      exact ht.1.2 _ ⟨hq.1, hq.2 ▸ rfl⟩
    · exact ht.2 _ ⟨r, rfl, hr, hc⟩
  | dir name entries rest ihentries ih =>
    obtain ⟨hnm, hdist, hd⟩ := hd
    obtain ⟨hpla, hplai, hpl⟩ := hpl
    rw [copyTree]
    refine call_triple.bind fun _ => ?_
    have hfst : Fallible.Triple (At legacy J) (if skipped keepConfig name then pure ()
          else enterDirectory run (p ++ [name]) >>= fun entered => if entered then copyTree env run entries (p ++ [name]) false else pure ())
        (fun _ => At legacy fun t => J t ∧
          Has (fun q => skipped keepConfig name = false ∧ (q = p ++ [name] ∨ Shown t₀ entries false (p ++ [name]) q)) t)
        (fun _ => At legacy J) := by
      split
      · rename_i hskip
        exact .pure fun s => At.mono fun t ht => ⟨ht, fun q hq => nomatch hskip.symm.trans hq.1⟩
      rename_i hskip
      rw [Bool.not_eq_true] at hskip
      have htmp := not_temporary_concat (p := p) (isTemporary_of_plain hpla hskip)
      have hp (t : Tree) (ht : J t) (hnone : t₀ (p ++ [name]) = none) : planned env legacy t₀ (p ++ [name]) = some .dir :=
        hview [name] .dir (view_dir_self hskip) (clear_concat (hJ.invariant t ht) (hdirs t ht) name) hnone
      refine (enterDirectory_triple hJ htmp (concat_ne_complete hskip) fun t ht hnone =>
        hp t ht (none_of_none (hJ.invariant t ht) hnone)).bind fun entered => ?_
      have he : Closed env legacy t₀ fun t => J t ∧ ∃ n, t (p ++ [name]) = some n ∧ (entered = true ↔ n = .dir) :=
        hJ.and fun t t' hk ⟨n, hn, hdir⟩ => ⟨n, (hk _ (hn ▸ some_ne_none _)).trans hn, hdir⟩
      split
      · rename_i htrue
        have hdirs' (t : Tree) (ht : J t ∧ ∃ n, t (p ++ [name]) = some n ∧ (entered = true ↔ n = .dir)) (a : Path) (ha : a <+: p ++ [name]) :
            t a = some .dir := by
          obtain ⟨ht, n, hn, hdir⟩ := ht
          rcases prefix_concat_iff.mp ha with rfl | ha
          · rw [hn, hdir.mp htrue]
          · exact hdirs t ht a ha
        refine (ihentries he hdist hplai hdirs' fun r n hn => ?_).conseq (fun _ => id)
          (fun _ _ => .mono fun t ht => ⟨ht.1.1, ?_⟩) fun _ _ => .mono fun t ht => ht.1
        · have hr : r ≠ [] := by
            rintro rfl
            rw [view_nil] at hn
            exact nomatch hn
          have h := hview (name :: r) n ((view_dir_below hskip hr).trans hn)
          rwa [append_cons] at h
        · rintro q ⟨-, rfl | hq⟩
          · obtain ⟨n, hn, -⟩ := ht.1.2
            exact hn ▸ some_ne_none _
          · exact ht.2 q hq
      · rename_i hf
        refine .pure fun s => .mono fun t ht => ⟨ht.1, ?_⟩
        obtain ⟨ht, n, hn, hdir⟩ := ht
        rintro q ⟨-, rfl | hq⟩
        · exact hn ▸ some_ne_none _
        · exact absurd hq (not_shown_below (hJ.invariant t ht) htmp hn (fun h => hf (hdir.mpr h)) (hp t ht) q)
    refine hfst.bind fun _ => ?_
    refine (ih (hJ.has _) hd hpl (fun t ht => hdirs t ht.1) fun r n hn => hview r n ?_).conseq (fun _ => id)
      (fun _ _ => .mono fun t ht => ⟨ht.1.1, ?_⟩) fun _ _ => .mono fun t ht => ht.1
    · rw [view_dir_rest hnm (hn ▸ some_ne_none _), hn]
    rintro q ⟨r, rfl, hr, hc⟩
    rw [Listing.view] at hr
    split at hr
    · rename_i hq
      obtain ⟨x, r, rfl⟩ := exists_cons_of_ne_nil (fun h => nomatch (h ▸ hq.2 : ([] : Path).head? = some name))
      obtain rfl : x = name := some.inj hq.2
      refine ht.1.2 _ ⟨hq.1, ?_⟩
      split at hr
      · rename_i htl
        rw [show r = [] from htl]
        exact .inl rfl
      · exact .inr ⟨r, append_cons _ _ _, hr, hc⟩
    · exact ht.2 _ ⟨r, rfl, hr, hc⟩

end

/-! ### Files of another name -/

section
variable {env : Environment} {run : Run} {legacy : Legacy} {t₀ : Tree} {J : Tree → Prop} {t : Tree} {e : Text × Text}

theorem find_new : ∀ e ∈ dataFiles, dataFiles.find? (fun e' => decide (([.ofText e.2] : Path) = [.ofText e'.2])) = some e := by
  intro e he
  have hs : (dataFiles.find? fun e' => decide (([.ofText e.2] : Path) = [.ofText e'.2])).isSome :=
    find?_isSome.mpr ⟨e, he, decide_eq_true rfl⟩
  obtain ⟨e', hfind⟩ := isSome_iff_exists.mp hs
  have hfd := find?_some hfind
  have hnm : ([.ofText e.2] : Path) = [.ofText e'.2] := of_decide_eq_true hfd
  have ht : e.2 = e'.2 := map_injective_iff.mpr Sum.inl_injective (singleton_injective hnm)
  rw [hfind, inj_on_of_nodup_map dataFiles_nodup he (mem_of_find?_eq_some hfind) ht]

theorem renamed_new (he : e ∈ dataFiles) : renamed env legacy t₀ [.ofText e.2] =
    if keeps t₀ && configFiles.contains e.2 then none else followed env (copied env legacy t₀) [.ofText e.1] := by
  rw [renamed, find_new e he, bind_some]

/-- Only the new names get files of another name. -/
theorem renamed_ne_none {q : Path} (h : renamed env legacy t₀ q ≠ none) :
    ∃ e ∈ dataFiles, q = [.ofText e.2] ∧ (keeps t₀ && configFiles.contains e.2) = false := by
  obtain ⟨n, hn⟩ := ne_none_iff_exists'.mp h
  obtain ⟨e, hfind, hn⟩ := bind_eq_some_iff.mp hn
  have hfd := find?_some hfind
  have hq : q = [.ofText e.2] := of_decide_eq_true hfd
  refine ⟨e, mem_of_find?_eq_some hfind, hq, ?_⟩
  split at hn
  · exact nomatch hn
  · rename_i hkeep
    rwa [Bool.not_eq_true] at hkeep

theorem planned_of_open (ho : followed env (prepared env t₀) [.ofText completeFile] = none) (q : Path) :
    planned env legacy t₀ q = ((copied env legacy t₀ q).or (renamed env legacy t₀ q)).or
      (if q = [.ofText completeFile] then some (.file ⟨completeText, env.permissions⟩) else none) := by
  rw [planned, ho]
  rfl

theorem planned_of_copied {q : Path} {n : Node} (ho : followed env (prepared env t₀) [.ofText completeFile] = none)
    (h : copied env legacy t₀ q = some n) : planned env legacy t₀ q = some n := by
  rw [planned_of_open ho, h, some_or, some_or]

theorem new_ne_complete (he : e ∈ dataFiles) : ([.ofText e.2] : Path) ≠ [.ofText completeFile] :=
  fun h => dataFiles_new e he (mem_cons.mpr (.inl (single_inj.mp h)))

theorem planned_new (ho : followed env (prepared env t₀) [.ofText completeFile] = none) (he : e ∈ dataFiles)
    (hcp : copied env legacy t₀ [.ofText e.2] = none) :
    planned env legacy t₀ [.ofText e.2] = renamed env legacy t₀ [.ofText e.2] := by
  rw [planned_of_open ho, hcp, if_neg (new_ne_complete he), none_or, or_none]

/-- Once the legacy directory is copied, an old name shows what it is to show. -/
theorem followed_old (ho : followed env (prepared env t₀) [.ofText completeFile] = none) (hs : Steady env legacy t₀)
    (hi : Invariant env legacy t₀ t) (hcp : ∀ q, ¬Temporary q → copied env legacy t₀ q ≠ none → t q ≠ none) (he : e ∈ dataFiles) :
    followed env t [.ofText e.1] = followed env (copied env legacy t₀) [.ofText e.1] := by
  have ht : ¬Temporary [.ofText e.1] := not_temporary (dataFiles_old_not_temporary e he)
  have hd := dataFiles_distinct e he
  have hr : renamed env legacy t₀ [.ofText e.1] = none := by
    by_contra h
    obtain ⟨e', he', heq, -⟩ := renamed_ne_none h
    exact hd (mem_cons_of_mem _ (mem_cons_of_mem _ (single_inj.mp heq ▸ List.mem_map_of_mem he')))
  have hp : planned env legacy t₀ [.ofText e.1] = copied env legacy t₀ [.ofText e.1] := by
    rw [planned_of_open ho, hr, if_neg fun h => hd (mem_cons.mpr (.inl (single_inj.mp h))), or_none, or_none]
  have heq : t [.ofText e.1] = copied env legacy t₀ [.ofText e.1] := by
    by_cases hn : t [.ofText e.1] = none
    · rw [hn]
      by_contra h
      exact hcp _ ht (.symm h) hn
    · rw [hi.planned _ ht hn, hp]
  rw [followed, followed, heq]
  split
  · rename_i target hlink
    exact hs.renamed t target hi.toBetween hcp e he hlink
  · rfl

/-- One file has its new name then, if it is to have one. -/
theorem renameFile_triple (hJ : Closed env legacy t₀ J) (ho : followed env (prepared env t₀) [.ofText completeFile] = none)
    (hstd : Steady env legacy t₀) (hcp : ∀ t, J t → ∀ q, ¬Temporary q → copied env legacy t₀ q ≠ none → t q ≠ none)
    (he : e ∈ dataFiles) (hkeep : (keeps t₀ && configFiles.contains e.2) = false) :
    Fallible.Triple (At legacy J) (renameFile env run e.1 e.2)
      (fun _ => At legacy fun t => J t ∧ (planned env legacy t₀ [.ofText e.2] ≠ none → t [.ofText e.2] ≠ none)) (fun _ => At legacy J) := by
  have htmp : ¬Temporary [.ofText e.2] := not_temporary (dataFiles_new_not_temporary e he)
  have hfol (t : Tree) (ht : J t) : followed env t [.ofText e.1] = renamed env legacy t₀ [.ofText e.2] := by
    rw [renamed_new he, hkeep, followed_old ho hstd (hJ.invariant t ht) (hcp t ht) he]
    rfl
  have hmiss (t : Tree) (ht : J t) (hn : t [.ofText e.2] = none) : copied env legacy t₀ [.ofText e.2] = none := by
    by_contra h
    exact hcp t ht _ htmp h hn
  refine at_triple fun t ht => ?_
  have hbk : ∀ s, At legacy (· = t) s → At legacy J s := fun _ => .mono fun _ heq => heq ▸ ht
  refine .bind_and (tryExists_triple.error fun _ => hbk) fun found hfd => ?_
  rw [hfol t ht] at hfd
  split
  · rename_i hs
    rw [hfd] at hs
    refine .conseq (copyFile_triple hJ htmp (new_ne_complete he) (fun u hu hn => ?_) fun u contents hu hn hf => ?_)
      hbk (fun _ _ => .mono fun u hu => ⟨hu.1, fun _ => hu.2⟩) fun _ _ => id
    · rw [planned_new ho he (hmiss u hu hn)]
      exact isSome_iff_ne_none.mp hs
    · rw [planned_new ho he (hmiss u hu hn), ← hfol u hu, hf]
  · rename_i hn
    rw [hfd, Bool.not_eq_true, isSome_eq_false_iff, isNone_iff_eq_none] at hn
    refine .pure fun s => .mono fun u heq => heq ▸ ⟨ht, fun hp ha => hp ?_⟩
    rw [planned_new ho he (hmiss t ht ha), hn]

theorem renameFiles_triple {keepConfig : Bool} {files : List (Text × Text)} (hJ : Closed env legacy t₀ J)
    (ho : followed env (prepared env t₀) [.ofText completeFile] = none) (hs : Steady env legacy t₀)
    (hcp : ∀ t, J t → ∀ q, ¬Temporary q → copied env legacy t₀ q ≠ none → t q ≠ none) (hfs : ∀ e ∈ files, e ∈ dataFiles)
    (hkeep : keeps t₀ = true → keepConfig = true) :
    Fallible.Triple (At legacy J) (renameFiles env run keepConfig files)
      (fun _ => At legacy fun t => J t ∧ Has (fun q => planned env legacy t₀ q ≠ none ∧
        ∃ e ∈ files, q = [.ofText e.2] ∧ (keepConfig && configFiles.contains e.2) = false) t) (fun _ => At legacy J) := by
  induction files generalizing J with
  | nil => exact .pure fun s => .mono fun t ht => ⟨ht, fun q ⟨_, _, he, _⟩ => nomatch he⟩
  | cons e files ih =>
    obtain ⟨he, hfs⟩ := forall_mem_cons.mp hfs
    rw [renameFiles]
    have hf : Fallible.Triple (At legacy J) (if keepConfig && configFiles.contains e.2 then pure () else renameFile env run e.1 e.2)
        (fun _ => At legacy fun t => J t ∧
          Has (fun q => planned env legacy t₀ q ≠ none ∧ q = [.ofText e.2] ∧ (keepConfig && configFiles.contains e.2) = false) t)
        (fun _ => At legacy J) := by
      split
      · rename_i hskip
        exact .pure fun s => .mono fun t ht => ⟨ht, fun q hq => nomatch hskip.symm.trans hq.2.2⟩
      rename_i hskip
      rw [Bool.not_eq_true] at hskip
      have hkeep0 : (keeps t₀ && configFiles.contains e.2) = false := by
        cases h : keeps t₀ with
        | false => rfl
        | true => rwa [← hkeep h]
      refine (renameFile_triple hJ ho hs hcp he hkeep0).post fun _ _ => .mono fun t ht => ⟨ht.1, ?_⟩
      rintro q ⟨hp, rfl, -⟩
      exact ht.2 hp
    refine hf.bind fun _ => ?_
    refine (ih (hJ.has _) (fun t ht => hcp t ht.1) hfs).conseq (fun _ => id) (fun _ _ => .mono fun t ht => ⟨ht.1.1, ?_⟩)
      fun _ _ => .mono fun t ht => ht.1
    rintro q ⟨hp, e', he', hq⟩
    rcases mem_cons.mp he' with rfl | he'
    · exact ht.1.2 q ⟨hp, hq⟩
    · exact ht.2 q ⟨hp, e', he', hq⟩

end

end Pebrel.Settings.Migration
