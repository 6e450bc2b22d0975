import Pebrel.Library.Components
import Pebrel.Suggestions.DirectoryHint

/-!
# Where a hint of a directory leads

A hint is what a recorded path has after the target that was made absolute and trimmed.
The target with the hint leads to the recorded directory if what follows goes on from
where the target ends (`Continues`): if separators were trimmed off, it has to start with
one, and so it has after `~`. A target of one byte that is followed by a colon becomes a
path of its own. Otherwise the line leads somewhere else, `misplaced`, and to a recorded
directory only if that is recorded too (`hint_completes_iff`).
-/

namespace Pebrel.Suggestions.Directories

open Library List
open Option (bind_some map_eq_some_iff map_some some)

/-! ### Paths -/

/-- The path that a target stands for. -/
def fullPath (home : Option Text) (cwd target : Text) : Option Text :=
  match stripTilde target with
  | some rest =>
    if rest ≠ [] ∧ startsSep isSeparator rest = false then none
    else home.map fun home => join home (rest.dropWhile isSeparator)
  | none =>
    if isAbsolute target || isDriveForm target then some target
    else if cwd = [] then none
    else some (join cwd target)

/-- The paths are the same, with separators of either style. -/
def SamePath (path other : Text) : Prop :=
  startsSep isSeparator path = startsSep isSeparator other ∧ components isSeparator path = components isSeparator other

variable {p q target base s : Text}

theorem SamePath.trans {r : Text} (hpq : SamePath p q) (hqr : SamePath q r) : SamePath p r := ⟨hpq.1.trans hqr.1, hpq.2.trans hqr.2⟩

theorem SamePath.symm (h : SamePath p q) : SamePath q p := ⟨h.1.symm, h.2.symm⟩

theorem startsSep_append (hp : p ≠ []) (s : Text) : startsSep isSeparator (p ++ s) = startsSep isSeparator p := by
  cases p with
  | nil => exact absurd rfl hp
  | cons c p => rfl

/-- Trimming takes off separators. -/
theorem trimReversed_spec (path : Text) : ∃ r, path = r ++ trimReversed path ∧ (∀ c ∈ r, isSeparator c = true) ∧
    trimReversed (trimReversed path) = trimReversed path := by
  induction path with
  | nil => exact ⟨[], rfl, nofun, rfl⟩
  | cons c path ih =>
    by_cases htrim : (rootLen (c :: path).reverse < Text.byteLen (c :: path).reverse && isSeparator c) = true
    · obtain ⟨r, hr, hs, hidem⟩ := ih
      have heq : trimReversed (c :: path) = trimReversed path := by rw [trimReversed, if_pos htrim]
      rw [heq]
      refine ⟨c :: r, congrArg _ hr, forall_mem_cons.mpr ⟨?_, hs⟩, hidem⟩
      exact (Bool.and_eq_true_iff.mp htrim).2
    · have heq : trimReversed (c :: path) = c :: path := by rw [trimReversed, if_neg htrim]
      exact ⟨[], heq.symm, nofun, by rw [heq, heq]⟩

theorem trimTrailingSeparators_spec (path : Text) : ∃ r, path = trimTrailingSeparators path ++ r ∧ ∀ c ∈ r, isSeparator c = true := by
  obtain ⟨r, hr, hs, -⟩ := trimReversed_spec path.reverse
  refine ⟨r.reverse, ?_, fun c hc => hs c (mem_reverse.mp hc)⟩
  rw [trimTrailingSeparators, ← reverse_append, ← hr, reverse_reverse]

theorem trimTrailingSeparators_idem (path : Text) : trimTrailingSeparators (trimTrailingSeparators path) = trimTrailingSeparators path := by
  rw [trimTrailingSeparators, trimTrailingSeparators, reverse_reverse, (trimReversed_spec path.reverse).choose_spec.2.2]

/-- What a request is resolved to is the path of its target, trimmed. -/
theorem resolveRequestPath_eq_some {home : Option Text} {cwd absolute : Text} (h : resolveRequestPath home target cwd = some absolute) :
    target ≠ [] ∧ ∃ full, fullPath home cwd target = some full ∧ absolute = trimTrailingSeparators full := by
  rw [resolveRequestPath] at h
  split at h
  · cases h
  rename_i hg
  refine ⟨fun hn => hg (.inl hn), ?_⟩
  rw [fullPath]
  cases ht : stripTilde target with
  | some rest =>
    simp only [ht] at h ⊢
    by_cases huser : rest ≠ [] ∧ startsSep isSeparator rest = false
    · rw [if_pos (show rest ≠ [] ∧ rest.head?.any isSeparator = false from huser)] at h
      cases h
    · rw [if_neg (show ¬ (rest ≠ [] ∧ rest.head?.any isSeparator = false) from huser)] at h
      obtain ⟨base, rfl, rfl⟩ := map_eq_some_iff.mp h
      exact ⟨_, if_neg huser, rfl⟩
  | none =>
    simp only [ht] at h ⊢
    split at h
    · rename_i ho
      obtain rfl := some.inj h
      exact ⟨target, if_pos ho, rfl⟩
    rename_i ho
    split at h
    · cases h
    · rename_i hc
      obtain rfl := some.inj h
      exact ⟨_, by rw [if_neg ho, if_neg hc], rfl⟩

/-! ### The target with more -/

theorem join_append {path : Text} (hp : path ≠ []) : join base (path ++ s) = join base path ++ s := by
  have ha : isAbsolute (path ++ s) = isAbsolute path := by
    cases path with
    | nil => exact absurd rfl hp
    | cons c path => rfl
  rw [join, join, ha]
  split
  · rfl
  · split
    · rw [append_assoc]
    · rw [append_assoc, cons_append]

/-- What is joined to a base is a component of its own. -/
theorem join_eq {u : Text} (hu : startsSep isSeparator u = false) : join base u = join base [] ++ u := by
  have ha : isAbsolute u = false := by
    cases u with
    | nil => rfl
    | cons c u =>
      have hc : isSeparator c = false := hu
      simp only [isSeparator, Bool.or_eq_false_iff, decide_eq_false_iff_not] at hc
      simp [isAbsolute, hc.1]
  have hn : isAbsolute [] = false := rfl
  rw [join, ha, if_neg Bool.false_ne_true, join, hn, if_neg Bool.false_ne_true]
  split
  · rw [append_nil]
  · rw [append_assoc]
    rfl

theorem endsSep_join_nil (hbase : join base [] ≠ []) : endsSep isSeparator (join base []) = true := by
  have hn : isAbsolute [] = false := rfl
  rw [join, hn, if_neg Bool.false_ne_true] at hbase ⊢
  split
  · rename_i h
    rw [if_pos h, append_nil] at hbase
    rw [append_nil, endsSep, h.resolve_left hbase]
    rfl
  · simp [endsSep, isSeparator]

/-- A target of one byte that a colon follows. -/
def Redrives (target s : Text) : Prop :=
  isAbsolute target = false ∧ stripTilde target = none ∧ isDriveForm target = false ∧ isDriveForm (target ++ s) = true

/-- What follows goes on from where the target ends. -/
def Continues (target full s : Text) : Prop :=
  (target = ['~'] → startsSep isSeparator s = true) ∧
    (endsSep isSeparator full = true → startsSep isSeparator s = true ∨ endsSep isSeparator (trimTrailingSeparators full) = true) ∧
    ¬ Redrives target s

section
variable {home : Option Text} {cwd target full s : Text} {rest : Text}

theorem dropWhile_append_of_ne (h : rest.dropWhile isSeparator ≠ []) (s : Text) :
    (rest ++ s).dropWhile isSeparator = rest.dropWhile isSeparator ++ s := by
  rw [dropWhile_append, if_neg (by simpa [List.isEmpty_iff] using h)]

theorem dropWhile_append_of_eq (h : rest.dropWhile isSeparator = []) (s : Text) :
    (rest ++ s).dropWhile isSeparator = s.dropWhile isSeparator := by
  rw [dropWhile_append, if_pos (by simpa [List.isEmpty_iff] using h)]

theorem startsSep_dropWhile (l : Text) : startsSep isSeparator (l.dropWhile isSeparator) = false := by
  induction l with
  | nil => rfl
  | cons c l ih =>
    by_cases hc : isSeparator c = true
    · rw [dropWhile_cons_of_pos hc]
      exact ih
    · rw [dropWhile_cons_of_neg hc]
      exact eq_false_of_ne_true hc

theorem stripTilde_append (htg : target ≠ []) : stripTilde (target ++ s) = (stripTilde target).map (· ++ s) := by
  cases target with
  | nil => exact absurd rfl htg
  | cons c rest =>
    rw [cons_append, stripTilde, stripTilde]
    split <;> rfl

theorem stripTilde_eq_some : stripTilde target = some rest ↔ target = '~' :: rest := by
  cases target with
  | nil => exact ⟨nofun, nofun⟩
  | cons c t =>
    rw [stripTilde]
    by_cases hc : c = '~' <;> simp [hc]

/-- The target of another user is no path. -/
theorem fullPath_user (hs : s ≠ []) (hst : startsSep isSeparator s = false) : fullPath home cwd (['~'] ++ s) = none := by
  rw [fullPath]
  exact if_pos ⟨hs, hst⟩

/-- A target that becomes a path of its own. -/
theorem fullPath_redrives (h : Redrives target s) (htg : target ≠ []) : fullPath home cwd (target ++ s) = some (target ++ s) := by
  obtain ⟨-, ht, -, hd⟩ := h
  rw [fullPath, stripTilde_append htg, ht]
  simp [hd]

/-- The path of a target that goes on. -/
theorem fullPath_append (htg : target ≠ []) (hfu : fullPath home cwd target = some full) (hne : full ≠ [])
    (hhome : target = ['~'] → startsSep isSeparator s = true) (hd : ¬ Redrives target s) :
    ∃ path, fullPath home cwd (target ++ s) = some path ∧ SamePath path (full ++ s) := by
  rw [fullPath] at hfu
  rw [fullPath, stripTilde_append htg]
  cases ht : stripTilde target with
  | some rest =>
    simp only [ht, map_some] at hfu ⊢
    split at hfu
    · cases hfu
    rename_i hg
    obtain ⟨base, rfl, rfl⟩ := map_eq_some_iff.mp hfu
    have hgoes : ¬ (rest ++ s ≠ [] ∧ startsSep isSeparator (rest ++ s) = false) := by
      rintro ⟨-, ho⟩
      by_cases hr : rest = []
      · rw [hr, nil_append, hhome (by rw [stripTilde_eq_some.mp ht, hr])] at ho
        cases ho
      · rw [startsSep_append hr] at ho
        exact hg ⟨hr, ho⟩
    refine ⟨_, if_neg hgoes, ?_⟩
    show SamePath (join base ((rest ++ s).dropWhile isSeparator)) _
    by_cases hi : rest.dropWhile isSeparator = []
    · rw [dropWhile_append_of_eq hi, hi, join_eq (startsSep_dropWhile s)]
      rw [hi] at hne
      have hends := endsSep_join_nil hne
      refine ⟨(startsSep_append hne _).trans (startsSep_append hne _).symm, ?_⟩
      rw [components_append_of_ends _ hends, components_append_of_ends _ hends, components_dropWhile]
    · rw [dropWhile_append_of_ne hi, join_append hi]
      exact ⟨rfl, rfl⟩
  | none =>
    simp only [ht, Option.map_none] at hfu ⊢
    have ha : isAbsolute (target ++ s) = isAbsolute target := by
      cases target with
      | nil => exact absurd rfl htg
      | cons c t => rfl
    rw [ha]
    by_cases hown : (isAbsolute target || isDriveForm target) = true
    · rw [if_pos hown] at hfu
      obtain rfl := some.inj hfu
      have hs : (isAbsolute target || isDriveForm (target ++ s)) = true := by
        rcases Bool.or_eq_true_iff.mp hown with h | h
        · rw [h, Bool.true_or]
        have hl : isDriveForm (target ++ s) = true := by
          rcases target with - | ⟨c, - | ⟨d, t⟩⟩
          · cases h
          · cases h
          · exact h
        rw [hl, Bool.or_true]
      exact ⟨_, if_pos hs, rfl, rfl⟩
    · rw [if_neg hown] at hfu
      obtain ⟨hrel, hno⟩ := Bool.or_eq_false_iff.mp (eq_false_of_ne_true hown)
      have hs : ¬ (isAbsolute target || isDriveForm (target ++ s)) = true := by
        rw [hrel, Bool.false_or]
        exact fun h => hd ⟨hrel, ht, hno, h⟩
      rw [if_neg hs]
      split at hfu
      · cases hfu
      · rename_i hc
        obtain rfl := some.inj hfu
        exact ⟨_, if_neg hc, join_append htg ▸ ⟨rfl, rfl⟩⟩

end

/-! ### Separators of one style -/

/-- A text with separators of one style. -/
def canonical (l : Text) : Text := l.map fun c => if isSeparator c then '/' else c

theorem components_canonical (l : Text) : components isSeparator (canonical l) = components isSeparator l := by
  refine components_map (fun c hc => ?_) (fun c hc => ?_) l
  · rw [if_pos hc]
    rfl
  · rw [hc, if_neg Bool.false_ne_true]

theorem startsSep_canonical (l : Text) : startsSep isSeparator (canonical l) = startsSep isSeparator l := by
  cases l with
  | nil => rfl
  | cons c l =>
    show isSeparator (if isSeparator c then '/' else c) = isSeparator c
    by_cases hc : isSeparator c = true
    · rw [if_pos hc, hc]
      rfl
    · rw [if_neg hc]

theorem samePath_of_canonical (h : canonical p = canonical q) : SamePath p q := by
  refine ⟨?_, ?_⟩
  · rw [← startsSep_canonical p, h, startsSep_canonical]
  · rw [← components_canonical p, h, components_canonical]

theorem isDriveForm_canonical (l : Text) : isDriveForm (canonical l) = isDriveForm l := by
  have hcol : ∀ d : Char, ((if isSeparator d then '/' else d) = ':') ↔ d = ':' := by
    intro d
    by_cases hd : isSeparator d = true
    · rw [if_pos hd]
      refine iff_of_false (by decide) ?_
      rintro rfl
      exact absurd hd (by decide)
    · rw [if_neg hd]
  have hsz : ∀ c : Char, (if isSeparator c then '/' else c).utf8Size = c.utf8Size := by
    intro c
    by_cases hc : isSeparator c = true
    · rw [if_pos hc]
      simp only [isSeparator, Bool.or_eq_true, decide_eq_true_eq] at hc
      rcases hc with rfl | rfl <;> rfl
    · rw [if_neg hc]
  rcases l with - | ⟨c, - | ⟨d, l⟩⟩
  · rfl
  · rfl
  · show (decide ((if isSeparator c then '/' else c).utf8Size = 1) && decide ((if isSeparator d then '/' else d) = ':')) = _
    rw [hsz c, decide_eq_decide.mpr (hcol d)]
    rfl

theorem canonical_append (p q : Text) : canonical (p ++ q) = canonical p ++ canonical q := map_append

/-- The separator of the target does not change what a hint names. -/
theorem canonical_style (s : Text) {separator : Option Char} (h : ∀ c, separator = some c → isSeparator c = true) :
    canonical (applySeparatorStyle s separator) = canonical s := by
  cases separator with
  | none => rfl
  | some separator =>
    rw [canonical, canonical, applySeparatorStyle, map_map]
    refine map_congr_left fun c _ => ?_
    by_cases hc : isSeparator c = true
    · simp [hc, h separator rfl]
    · simp [hc]

theorem redrives_congr {s' : Text} (h : canonical s' = canonical s) : Redrives target s' ↔ Redrives target s := by
  have hd : isDriveForm (target ++ s') = isDriveForm (target ++ s) := by
    rw [← isDriveForm_canonical, canonical_append, h, ← canonical_append, isDriveForm_canonical]
  rw [Redrives, Redrives, hd]

/-! ### Where a hint leads -/

/-- Where the target leads that does not go on from where it ends. -/
def misplaced (target full s : Text) : Option Text :=
  if target = ['~'] ∧ startsSep isSeparator s = false then none
  else if isAbsolute target = false ∧ stripTilde target = none ∧ isDriveForm target = false ∧ isDriveForm (target ++ s) = true then
    some (target ++ s)
  else some (trimTrailingSeparators full ++ '/' :: s)

section
variable {home : Option Text} {cwd target full s s' : Text}

theorem components_trim (full : Text) : components isSeparator (trimTrailingSeparators full) = components isSeparator full := by
  obtain ⟨r, hr, hs⟩ := trimTrailingSeparators_spec full
  rw [← components_append_of_all (trimTrailingSeparators full) hs, ← hr]

theorem startsSep_trim (htrim : trimTrailingSeparators full ≠ []) (t u : Text) :
    startsSep isSeparator (full ++ t) = startsSep isSeparator (trimTrailingSeparators full ++ u) := by
  obtain ⟨r, hr, -⟩ := trimTrailingSeparators_spec full
  rw [startsSep_append htrim]
  nth_rewrite 1 [hr]
  rw [append_assoc, startsSep_append htrim]

theorem ne_nil_of_trim (htrim : trimTrailingSeparators full ≠ []) : full ≠ [] := by
  rintro rfl
  exact htrim rfl

/-- What goes on leads to the path that it was taken from. -/
theorem leads_on (htg : target ≠ []) (hfu : fullPath home cwd target = some full) (htrim : trimTrailingSeparators full ≠ [])
    (hs : canonical s' = canonical s) (hct : Continues target full s) :
    ∃ path, fullPath home cwd (target ++ s') = some path ∧ SamePath path (trimTrailingSeparators full ++ s) := by
  obtain ⟨hhome, hends, hd⟩ := hct
  have hst : startsSep isSeparator s' = startsSep isSeparator s := (samePath_of_canonical hs).1
  obtain ⟨path, hp, hsm⟩ := fullPath_append htg hfu (ne_nil_of_trim htrim) (fun h => hst.trans (hhome h)) (mt (redrives_congr hs).mp hd)
  refine ⟨path, hp, hsm.trans ⟨startsSep_trim htrim _ _, ?_⟩⟩
  have hc : components isSeparator (full ++ s') = components isSeparator (full ++ s) :=
    (samePath_of_canonical (by rw [canonical_append, hs, ← canonical_append])).2
  rw [hc]
  by_cases hsep : endsSep isSeparator full = true
  · rcases hends hsep with h | h
    · rw [components_append_of_starts _ h, components_append_of_starts _ h, components_trim]
    · rw [components_append_of_ends _ hsep, components_append_of_ends _ h, components_trim]
  obtain ⟨r, hr, ha⟩ := trimTrailingSeparators_spec full
  rcases eq_nil_or_concat r with rfl | ⟨r, c, rfl⟩
  · rw [append_nil] at hr
    rw [← hr]
  · refine absurd ?_ hsep
    rw [hr, endsSep, concat_eq_append, ← append_assoc, getLast?_concat]
    exact ha c (by simp)

/-- What does not go on leads elsewhere. -/
theorem leads_elsewhere (htg : target ≠ []) (hfu : fullPath home cwd target = some full) (htrim : trimTrailingSeparators full ≠ [])
    (hs' : s' ≠ []) (hsty : canonical s' = canonical s) (hct : ¬ Continues target full s) (q : Text) :
    (∃ path, fullPath home cwd (target ++ s') = some path ∧ SamePath path q) ↔ ∃ other,
    misplaced target full s = some other ∧ SamePath other q := by
  have hst : startsSep isSeparator s' = startsSep isSeparator s := (samePath_of_canonical hsty).1
  have hi : ∀ p other : Text, SamePath p other → ((∃ path, some p = some path ∧ SamePath path q) ↔ ∃ o,
    some other = some o ∧ SamePath o q) := by
    intro p other hsm
    constructor
    · rintro ⟨path, heq, hq⟩
      obtain rfl := some.inj heq
      exact ⟨other, rfl, hsm.symm.trans hq⟩
    · rintro ⟨o, heq, hq⟩
      obtain rfl := some.inj heq
      exact ⟨p, rfl, hsm.trans hq⟩
  rw [misplaced]
  by_cases huser : target = ['~'] ∧ startsSep isSeparator s = false
  · rw [if_pos huser, huser.1, fullPath_user hs' (hst.trans huser.2)]
  rw [if_neg huser]
  by_cases hd : Redrives target s
  · rw [if_pos (show isAbsolute target = false ∧ _ from hd), fullPath_redrives ((redrives_congr hsty).mpr hd) htg]
    refine hi _ _ (samePath_of_canonical ?_)
    rw [canonical_append, hsty, canonical_append]
  have hhome : target = ['~'] → startsSep isSeparator s = true := fun h => by
    by_contra hno
    exact huser ⟨h, eq_false_of_ne_true hno⟩
  rw [if_neg (show ¬ (isAbsolute target = false ∧ _) from hd)]
  obtain ⟨path, hp, hsm⟩ := fullPath_append htg hfu (ne_nil_of_trim htrim) (fun h => hst.trans (hhome h)) (mt (redrives_congr hsty).mp hd)
  have hends : endsSep isSeparator full = true := by
    by_contra hno
    exact hct ⟨hhome, fun h => absurd h hno, hd⟩
  rw [hp]
  refine hi _ _ (hsm.trans ⟨startsSep_trim htrim _ _, ?_⟩)
  rw [components_append_of_ends _ hends, components_append_cons _ _ rfl, components_trim, (samePath_of_canonical hsty).2]

end

/-! ### Hints -/

/-- A line of a command that changes the directory, with a target at its end that is not quoted. -/
def TargetAtEnd (line target : Text) : Prop :=
  target ≠ [] ∧ (∀ c ∈ target, Text.isWhitespace c = false) ∧ (∀ c, target.head? = some c → c ≠ '\x22' ∧ c ≠ '\x27' ∧ c ≠ '\x60') ∧
    ∃ command rest, splitFirstToken (line.dropWhile Text.isWhitespace) = some (command, rest) ∧ isDirectoryCommand command = true ∧
      rest.dropWhile Text.isWhitespace = target

/-- The candidates that are looked at before the hint is cancelled. -/
def lookedAt (cancelled : ℕ → Bool) : ℕ → List Text → List Text
  | _, [] => []
  | call, path :: paths => if cancelled call then [] else path :: lookedAt cancelled (call + 1) paths

/-- The recorded directory that comes first for a line: of those that start with what the target is resolved to, the first that is a
directory. -/
def chosen (entries : List DirectoryEntry) (home : Option Text) (isDir : Text → Bool) (now : ℕ) (cancelled : ℕ → Bool) (line cwd : Text) :
    Option Text :=
  if cancelled 0 then none
  else
    (parseDirectoryRequest home line cwd).bind fun request =>
      (normalize request.absolute).bind fun requestKey => (lookedAt cancelled 1 (candidates entries now requestKey)).find? isDir

section
variable {entries : List DirectoryEntry} {home : Option Text} {isDir : Text → Bool} {now : ℕ} {cancelled : ℕ → Bool}
  {line cwd target : Text} {path : Text} {paths : List Text}

theorem splitFirstToken_target (hne : target ≠ []) (hpl : ∀ c ∈ target, Text.isWhitespace c = false)
    (hq : ∀ c, target.head? = some c → c ≠ '\x22' ∧ c ≠ '\x27' ∧ c ≠ '\x60') : splitFirstToken target = some (target, []) := by
  cases target with
  | nil => exact absurd rfl hne
  | cons c t =>
    obtain ⟨h1, h2, h3⟩ := hq c rfl
    have hk : (c :: t).dropWhile Text.isWhitespace = c :: t := by
      rw [dropWhile_cons_of_neg (by rw [hpl c mem_cons_self]; exact Bool.false_ne_true)]
    have ha : ∀ d ∈ c :: t, (!Text.isWhitespace d) = true := fun d hd => by rw [hpl d hd]; rfl
    rw [splitFirstToken, hk]
    simp only [h1, h2, h3, or_self, if_false]
    rw [takeWhile_eq_self_iff.mpr ha, dropWhile_eq_nil_iff.mpr ha]

/-- What is made of a line. -/
theorem parseDirectoryRequest_eq_some (hl : TargetAtEnd line target) {request : DirectoryRequest}
    (h : parseDirectoryRequest home line cwd = some request) :
    (∃ full, fullPath home cwd target = some full ∧ request.absolute = trimTrailingSeparators full) ∧
      ∀ c, request.separator = some c → isSeparator c = true := by
  obtain ⟨hne, hpl, hq, command, rest, hsp, hcmd, hr⟩ := hl
  rw [parseDirectoryRequest, hsp] at h
  simp only [hcmd, Bool.not_true, Bool.false_eq_true, ↓reduceIte, hr, splitFirstToken_target hne hpl hq] at h
  split at h
  · cases h
  · obtain ⟨absolute, ha, rfl⟩ := map_eq_some_iff.mp h
    exact ⟨(resolveRequestPath_eq_some ha).2, fun c hc => find?_some hc⟩

/-- A candidate is a recorded path that goes on after the request. -/
theorem mem_candidates {requestKey : Text} (h : path ∈ candidates entries now requestKey) :
    (∃ entry ∈ entries, entry.path = path) ∧ ∃ s, s ≠ [] ∧ path = requestKey ++ s := by
  rw [candidates] at h
  obtain ⟨entry, he, rfl⟩ := mem_map.mp h
  obtain ⟨hm, hk⟩ := mem_filter.mp ((mem_insertionSort _).mp (mem_of_mem_take he))
  refine ⟨⟨entry, hm, rfl⟩, ?_⟩
  rw [Option.any_eq_true] at hk
  obtain ⟨key, hnorm, hboth⟩ := hk
  rw [Bool.and_eq_true, decide_eq_true_eq, isPrefixOf_iff_prefix] at hboth
  obtain ⟨hl, x, rfl⟩ := hboth
  have ht : requestKey ++ x = trimTrailingSeparators entry.path := by
    rw [normalize] at hnorm
    split at hnorm
    · cases hnorm
    · exact (some.inj hnorm).symm
  obtain ⟨r, hr, -⟩ := trimTrailingSeparators_spec entry.path
  refine ⟨x ++ r, ?_, by rw [← append_assoc, ht, ← hr]⟩
  rintro hn
  rw [(append_eq_nil_iff.mp hn).1, append_nil] at hl
  exact Nat.lt_irrefl _ hl

/-- The hint is made from the first directory of the candidates. -/
theorem firstHint_eq (request : DirectoryRequest) (hps : ∀ path ∈ paths, ∃ s, s ≠ [] ∧ path = request.absolute ++ s)
    (call : ℕ) : firstHint cancelled isDir request call paths = ((lookedAt cancelled call paths).find? isDir).map fun path =>
      (path, applySeparatorStyle (path.drop request.absolute.length) request.separator) := by
  induction paths generalizing call with
  | nil => rfl
  | cons path paths ih =>
    obtain ⟨⟨s, hs, hp⟩, hr⟩ := forall_mem_cons.mp hps
    rw [firstHint, lookedAt]
    by_cases hc : cancelled call = true
    · rw [if_pos hc, if_pos hc]
      rfl
    rw [if_neg hc, if_neg hc]
    by_cases hd : isDir path = true
    · have hsuf : suffixAfterPrefix path request.absolute = some (path.drop request.absolute.length) := by
        rw [suffixAfterPrefix]
        refine if_neg ?_
        rw [hp, drop_left]
        exact hs
      rw [find?_cons_of_pos hd, map_some, hd, hsuf]
      rfl
    · rw [find?_cons_of_neg hd, if_pos (by rw [eq_false_of_ne_true hd]; rfl)]
      exact ih hr (call + 1)

theorem mem_of_lookedAt {call : ℕ} (h : path ∈ lookedAt cancelled call paths) : path ∈ paths := by
  induction paths generalizing call with
  | nil => exact h
  | cons first paths ih =>
    rw [lookedAt] at h
    split at h
    · cases h
    · rcases mem_cons.mp h with rfl | h
      · exact mem_cons_self
      · exact mem_cons_of_mem _ (ih h)

/-- **The hint of a line.** -/
theorem hint_spec (hl : TargetAtEnd line target) :
    chosen entries home isDir now cancelled line cwd = none ∧ hintWithCancel entries home isDir now cancelled line cwd = none ∨
    ∃ full s separator, fullPath home cwd target = some full ∧ trimTrailingSeparators full ≠ [] ∧ s ≠ [] ∧
      (∀ c, separator = some c → isSeparator c = true) ∧ (∃ entry ∈ entries, entry.path = trimTrailingSeparators full ++ s) ∧
      chosen entries home isDir now cancelled line cwd = some (trimTrailingSeparators full ++ s) ∧
      hintWithCancel entries home isDir now cancelled line cwd = some (applySeparatorStyle s separator) := by
  rw [chosen, hintWithCancel, hintFrom]
  by_cases hc : cancelled 0 = true
  · rw [if_pos hc, if_pos hc]
    exact .inl ⟨rfl, rfl⟩
  rw [if_neg hc, if_neg hc]
  cases hr : parseDirectoryRequest home line cwd with
  | none => exact .inl ⟨rfl, rfl⟩
  | some request =>
    obtain ⟨⟨full, hfu, ha⟩, hsep⟩ := parseDirectoryRequest_eq_some hl hr
    simp only [bind_some]
    cases hk : normalize request.absolute with
    | none => exact .inl ⟨rfl, rfl⟩
    | some requestKey =>
      have hsm : requestKey = request.absolute ∧ request.absolute ≠ [] := by
        rw [normalize] at hk
        split at hk
        · cases hk
        · rename_i hg
          obtain rfl := some.inj hk
          exact ⟨by rw [ha, trimTrailingSeparators_idem], fun hn => hg (.inl hn)⟩
      obtain ⟨rfl, hne⟩ := hsm
      simp only [bind_some]
      rw [firstHint_eq request (fun path hp => (mem_candidates hp).2) 1]
      cases hcho : (lookedAt cancelled 1 (candidates entries now request.absolute)).find? isDir with
      | none => exact .inl ⟨rfl, rfl⟩
      | some path =>
        have hm : path ∈ candidates entries now request.absolute := mem_of_lookedAt (mem_of_find?_eq_some hcho)
        obtain ⟨he, s, hs, rfl⟩ := mem_candidates hm
        rw [ha] at hne
        refine .inr ⟨full, s, request.separator, hfu, hne, hs, hsep, ha ▸ he, by rw [ha], ?_⟩
        rw [map_some, map_some, drop_left]

/-- **The target with its hint leads to a recorded directory exactly if the path that the hint is made from goes on from where the target
ends, or the directory is recorded that the line leads to instead.** -/
theorem hint_completes_iff (entries : List DirectoryEntry) (home : Option Text) (isDir : Text → Bool) (now : ℕ) (cancelled : ℕ → Bool)
    (cwd : Text) (hline : TargetAtEnd line target) :
    (∀ suffix, hintWithCancel entries home isDir now cancelled line cwd = some suffix →
      ∃ path, fullPath home cwd (target ++ suffix) = some path ∧ ∃ entry ∈ entries, SamePath path entry.path) ↔
    ∀ path full, chosen entries home isDir now cancelled line cwd = some path → fullPath home cwd target = some full →
      Continues target full (path.drop (trimTrailingSeparators full).length) ∨
        ∃ other, misplaced target full (path.drop (trimTrailingSeparators full).length) = some other ∧
          ∃ entry ∈ entries, SamePath other entry.path := by
  rcases @hint_spec entries home isDir now cancelled line cwd target hline with ⟨hcho, hhint⟩ |
    ⟨full, s, separator, hfu, htrim, hs, hsep, ⟨entry, hent, hp⟩, hcho, hhint⟩
  · rw [hcho, hhint]
    exact iff_of_true nofun nofun
  have hsty := canonical_style s hsep
  have hs' : applySeparatorStyle s separator ≠ [] := fun hnil => hs (by
    rw [hnil] at hsty
    exact map_eq_nil_iff.mp hsty.symm)
  have hone : (∃ path, fullPath home cwd (target ++ applySeparatorStyle s separator) = some path ∧ ∃ entry ∈ entries,
    SamePath path entry.path) ↔
      Continues target full s ∨ ∃ other, misplaced target full s = some other ∧ ∃ entry ∈ entries, SamePath other entry.path := by
    by_cases hct : Continues target full s
    · obtain ⟨path, hld, hsm⟩ := leads_on hline.1 hfu htrim hsty hct
      exact iff_of_true ⟨path, hld, entry, hent, hp ▸ hsm⟩ (.inl hct)
    rw [or_iff_right hct]
    constructor
    · rintro ⟨path, hld, e, he, hsm⟩
      obtain ⟨other, hoth, hq⟩ := (leads_elsewhere hline.1 hfu htrim hs' hsty hct e.path).mp ⟨path, hld, hsm⟩
      exact ⟨other, hoth, e, he, hq⟩
    · rintro ⟨other, hoth, e, he, hsm⟩
      obtain ⟨path, hld, hq⟩ := (leads_elsewhere hline.1 hfu htrim hs' hsty hct e.path).mpr ⟨other, hoth, hsm⟩
      exact ⟨path, hld, e, he, hq⟩
  rw [hcho, hhint, hfu]
  constructor
  · intro h path full' heq hfu'
    obtain rfl := some.inj heq
    obtain rfl := some.inj hfu'
    rw [drop_left]
    exact hone.mp (h _ rfl)
  · intro h suffix heq
    obtain rfl := some.inj heq
    have hcond := h _ _ rfl rfl
    rw [drop_left] at hcond
    exact hone.mpr hcond

end

/-- A directory that was visited. -/
def visited : List DirectoryEntry := [⟨"/w/foobar".toList, 1, 0⟩]

theorem targetAtEnd_cd (hne : target ≠ []) (hpl : ∀ c ∈ target, Text.isWhitespace c = false)
    (hq : ∀ c, target.head? = some c → c ≠ '\x22' ∧ c ≠ '\x27' ∧ c ≠ '\x60') : TargetAtEnd ("cd ".toList ++ target) target := by
  refine ⟨hne, hpl, hq, "cd".toList, ' ' :: target, ?_, rfl, ?_⟩
  · rfl
  · cases target with
    | nil => exact absurd rfl hne
    | cons c t =>
      rw [dropWhile_cons_of_pos rfl, dropWhile_cons_of_neg (by rw [hpl c mem_cons_self]; exact Bool.false_ne_true)]

/-- A part of a name. -/
theorem hint_completes_part : TargetAtEnd "cd fo".toList "fo".toList ∧
    ∃ suffix, hintWithCancel visited none (fun _ => true) 0 (fun _ => false) "cd fo".toList "/w".toList = some suffix ∧
      ∃ path, fullPath none "/w".toList ("fo".toList ++ suffix) = some path ∧ ∃ entry ∈ visited, SamePath path entry.path := by
  have hl : TargetAtEnd "cd fo".toList "fo".toList :=
    targetAtEnd_cd (by decide) (Text.forall_mem_of_all (by decide)) (by rintro c ⟨⟩; decide)
  refine ⟨hl, "obar".toList, by decide, ?_⟩
  refine (hint_completes_iff visited none (fun _ => true) 0 (fun _ => false) "/w".toList hl).mpr ?_ _ (by decide)
  intro path full hp hfu
  have hcho : chosen visited none (fun _ => true) 0 (fun _ => false) "cd fo".toList "/w".toList = some "/w/foobar".toList := by decide
  have hwh : fullPath none "/w".toList "fo".toList = some "/w/fo".toList := by decide
  obtain rfl := some.inj (hcho.symm.trans hp)
  obtain rfl := some.inj (hwh.symm.trans hfu)
  refine .inl ⟨by decide, by decide, ?_⟩
  rintro ⟨-, -, -, hdri⟩
  exact absurd hdri (by decide)

/-- **A target that ends in a separator.** -/
theorem hint_after_separator : TargetAtEnd "cd foo/".toList "foo/".toList ∧
    ∃ suffix, hintWithCancel visited none (fun _ => true) 0 (fun _ => false) "cd foo/".toList "/w".toList = some suffix ∧
      ¬ ∃ path, fullPath none "/w".toList ("foo/".toList ++ suffix) = some path ∧ ∃ entry ∈ visited, SamePath path entry.path := by
  have hl : TargetAtEnd "cd foo/".toList "foo/".toList := targetAtEnd_cd (by decide)
    (Text.forall_mem_of_all (by decide)) (by rintro c ⟨⟩; decide)
  refine ⟨hl, "bar".toList, by decide, ?_⟩
  rintro ⟨path, hp, entry, hent, -, hcom⟩
  have hld : fullPath none "/w".toList ("foo/".toList ++ "bar".toList) = some "/w/foo/bar".toList := by decide
  obtain rfl := some.inj (hld.symm.trans hp)
  obtain rfl := mem_singleton.mp hent
  exact absurd hcom (by decide)

end Pebrel.Suggestions.Directories
