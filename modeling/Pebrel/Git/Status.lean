import Pebrel.Library.Records
import Pebrel.Ssh.Address

/-!
# The status of a worktree

The status is read from what Git prints for a program (`git_worktree/status.rs`): records
that end with a NUL, with a number of fields that depends on the kind, and the path last.
A path may have spaces and line breaks and may look like another record. A renamed
file has its old path as a record of its own. Ignored files are not asked for, and are
read over.

## The model

`parseStatus` has no value where the source has its only error, `git_invalid_status`.
`Header.record` and `Entry.records` are what Git prints.
-/

namespace Pebrel.Git

open Library Records List Option Nat Bool Text
open Pebrel.Stream (stripPrefix parseDigits)
open Ssh (parseU32)

/-! ### Reading -/

structure GitEntry where
  path : Text
  original : Option Text
  index : Char
  worktree : Char
  conflict : Bool

structure GitStatus where
  branch : Text
  head : Text
  upstream : Option Text
  ahead : ℕ
  behind : ℕ
  entries : List GitEntry

/-- `GitStatus::default`. -/
def GitStatus.empty : GitStatus := ⟨[], [], none, 0, 0, []⟩

/-- A record that starts with `# `, without that. -/
def readHeader (header : Text) (s : GitStatus) : Option GitStatus :=
  match stripPrefix "branch.head ".toList header with
  | some value => some { s with branch := value }
  | none =>
  match stripPrefix "branch.oid ".toList header with
  | some value => some { s with head := value }
  | none =>
  match stripPrefix "branch.upstream ".toList header with
  | some value => some { s with upstream := some value }
  | none =>
  match stripPrefix "branch.ab ".toList header with
  | some value => do
    let (ahead, behind) ← Text.splitOnce ' ' value
    let ahead ← (stripPrefix ['+'] ahead).bind parseU32
    let behind ← (stripPrefix ['-'] behind).bind parseU32
    some { s with ahead := ahead, behind := behind }
  | none => some s

/-- The two states and the path of a record with so many fields. -/
def readFields (count : ℕ) (record : Text) : Option (Char × Char × Text) :=
  let fields := splitn ' ' count record
  if fields.length ≠ count then none
  else
    match fields[1]? with
    | some [x, y] => if x.toNat < 128 ∧ y.toNat < 128 then fields.getLast?.map fun path => (x, y, path) else none
    | _ => none

/-- An entry is added, unless a path is empty. -/
def pushEntry (s : GitStatus) (e : GitEntry) : Option GitStatus :=
  if e.path = [] ∨ e.original = some [] then none else some { s with entries := s.entries ++ [e] }

/-- The loop of `parse_status`. -/
def parseRecords : List Text → GitStatus → Option GitStatus
  | [], s => some s
  | record :: records, s =>
    match stripPrefix "# ".toList record with
    | some header => (readHeader header s).bind (parseRecords records)
    | none =>
      if (stripPrefix "! ".toList record).isSome then parseRecords records s
      else
        match record.head? with
        | some '?' => (stripPrefix "? ".toList record).bind fun path =>
            (pushEntry s ⟨path, none, '?', '?', false⟩).bind (parseRecords records)
        | some '1' => (readFields 9 record).bind fun (x, y, path) => (pushEntry s ⟨path, none, x, y, false⟩).bind (parseRecords records)
        | some '2' =>
          (readFields 10 record).bind fun (x, y, path) =>
            match records with
            | [] => none
            | original :: records => (pushEntry s ⟨path, some original, x, y, false⟩).bind (parseRecords records)
        | some 'u' => (readFields 11 record).bind fun (x, y, path) => (pushEntry s ⟨path, none, x, y, true⟩).bind (parseRecords records)
        | _ => none

def parseStatus (output : Text) : Option GitStatus := do
  let records ← splitTerminated '\x00' output
  let s ← parseRecords records .empty
  if s.branch = [] ∨ s.head = [] then none else some s

/-! ### Printing -/

inductive Header where
  | oid (value : Text)
  | head (value : Text)
  | upstream (value : Text)
  | ab (ahead behind : ℕ)
  | stash (count : ℕ)

namespace Header

def key : Header → String
  | oid _ => "branch.oid "
  | head _ => "branch.head "
  | upstream _ => "branch.upstream "
  | ab _ _ => "branch.ab "
  | stash _ => "stash "

def value : Header → Text
  | oid value | head value | upstream value => value
  | ab ahead behind => ('+' :: Nat.toDigits 10 ahead) ++ ' ' :: '-' :: Nat.toDigits 10 behind
  | stash n => Nat.toDigits 10 n

/-- What Git prints after `# `. -/
def text (h : Header) : Text := h.key.toList ++ h.value

def record (h : Header) : Text := "# ".toList ++ h.text

def apply (s : GitStatus) : Header → GitStatus
  | oid value => { s with head := value }
  | head value => { s with branch := value }
  | upstream value => { s with upstream := some value }
  | ab ahead behind => { s with ahead := ahead, behind := behind }
  | stash _ => s

/-- Values have no NUL, and the counts are numbers of 32 bits. -/
def Printable : Header → Prop
  | oid value | head value | upstream value => '\x00' ∉ value
  | ab ahead behind => ahead < 2 ^ 32 ∧ behind < 2 ^ 32
  | stash _ => True

end Header

inductive Entry where
  | ordinary (x y : Char) (sub modeHead modeIndex modeWorktree hashHead hashIndex path : Text)
  | renamed (x y : Char) (sub modeHead modeIndex modeWorktree hashHead hashIndex score path original : Text)
  | unmerged (x y : Char) (sub mode1 mode2 mode3 modeWorktree hash1 hash2 hash3 path : Text)
  | untracked (path : Text)
  | ignored (path : Text)

namespace Entry

/-- The fields before the path. -/
def fields : Entry → List Text
  | ordinary x y sub modeHead modeIndex modeWorktree hashHead hashIndex _ =>
    [['1'], [x, y], sub, modeHead, modeIndex, modeWorktree, hashHead, hashIndex]
  | renamed x y sub modeHead modeIndex modeWorktree hashHead hashIndex score _ _ =>
    [['2'], [x, y], sub, modeHead, modeIndex, modeWorktree, hashHead, hashIndex, score]
  | unmerged x y sub mode1 mode2 mode3 modeWorktree hash1 hash2 hash3 _ =>
    [['u'], [x, y], sub, mode1, mode2, mode3, modeWorktree, hash1, hash2, hash3]
  | untracked _ => [['?']]
  | ignored _ => [['!']]

def path : Entry → Text
  | ordinary _ _ _ _ _ _ _ _ path | renamed _ _ _ _ _ _ _ _ _ path _ | unmerged _ _ _ _ _ _ _ _ _ _ path => path
  | untracked path | ignored path => path

def original : Entry → Option Text
  | renamed _ _ _ _ _ _ _ _ _ _ original => some original
  | _ => none

/-- What Git prints for an entry. -/
def records (e : Entry) : List Text := joined ' ' e.fields e.path :: e.original.toList

/-- What is to be read of it. -/
def entry : Entry → Option GitEntry
  | ordinary x y _ _ _ _ _ _ path => some ⟨path, none, x, y, false⟩
  | renamed x y _ _ _ _ _ _ _ path original => some ⟨path, some original, x, y, false⟩
  | unmerged x y _ _ _ _ _ _ _ _ path => some ⟨path, none, x, y, true⟩
  | untracked path => some ⟨path, none, '?', '?', false⟩
  | ignored _ => none

/-- The fields are ASCII words, and the paths any texts without NUL. -/
structure Printable (e : Entry) : Prop where
  fields : ∀ field ∈ e.fields, ∀ c ∈ field, c.toNat < 128 ∧ c ≠ ' ' ∧ c ≠ '\x00'
  path : e.path ≠ [] ∧ '\x00' ∉ e.path
  original : ∀ original ∈ e.original, original ≠ [] ∧ '\x00' ∉ original

end Entry

/-- The records of a status. -/
def records (headers : List Header) (entries : List Entry) : List Text := headers.map Header.record ++ entries.flatMap Entry.records

/-- What Git prints with `-z`. -/
def output (headers : List Header) (entries : List Entry) : Text := terminated '\x00' (records headers entries)

/-- The status that is to be read. -/
def status (headers : List Header) (entries : List Entry) : GitStatus :=
  { headers.foldl Header.apply .empty with entries := entries.filterMap Entry.entry }

/-- Git prints a branch and a commit, and every header and entry is printable. -/
structure Printable (headers : List Header) (entries : List Entry) : Prop where
  header : ∀ h ∈ headers, h.Printable
  entry : ∀ e ∈ entries, e.Printable
  branch : (headers.foldl Header.apply .empty).branch ≠ []
  head : (headers.foldl Header.apply .empty).head ≠ []

/-! ### Numbers and prefixes -/

theorem stripPrefix_append (start rest : Text) : stripPrefix start (start ++ rest) = some rest := by
  simp [stripPrefix]

theorem stripPrefix_other {start other : Text} (h : ¬ start <+: other) (h' : ¬ other <+: start) (rest : Text) :
    stripPrefix start (other ++ rest) = none := by
  rw [stripPrefix, if_neg]
  intro hp
  rcases prefix_or_prefix_of_prefix (List.isPrefixOf_iff_prefix.mp hp) (prefix_append other rest) with h'' | h''
  · exact h h''
  · exact h' h''

theorem stripPrefix_of_ne {a b : Char} (h : a ≠ b) (start rest : Text) : stripPrefix (a :: start) (b :: rest) = none := by
  simp [stripPrefix, h]

theorem parseDigits_toDigits (n : ℕ) : parseDigits (Nat.toDigits 10 n) = some n := by
  have hds : (toDigits 10 n).all Char.isDigit = true := List.all_eq_true.mpr fun c hc => isDigit_of_mem_toDigits (by decide) (by decide) hc
  rw [parseDigits, if_pos ⟨toDigits_ne_nil, hds⟩]
  have hv := ofDigitChars_ten_toDigits (n := n)
  rw [ofDigitChars_eq_foldl] at hv
  simp only [Nat.mul_comm 10] at hv
  exact congrArg some hv

theorem parseU32_toDigits {n : ℕ} (h : n < 2 ^ 32) : parseU32 (Nat.toDigits 10 n) = some n := by
  have hplus : ∀ t, toDigits 10 n ≠ '+' :: t := fun t ht => not_mem_toDigits (by decide) n (ht ▸ mem_cons_self)
  have hps : parseU32 (toDigits 10 n) = Ssh.parseBelow (2 ^ 32) (toDigits 10 n) := by
    rw [parseU32, Ssh.parseUnsigned.eq_2 _ _ fun t ht => hplus t ht]
  rw [hps, Ssh.parseBelow, parseDigits_toDigits, bind_some, if_pos h]

/-! ### One record -/

theorem readHeader_text {h : Header} (hpr : h.Printable) (s : GitStatus) : readHeader h.text s = some (h.apply s) := by
  have hself := stripPrefix_append h.key.toList h.value
  rw [readHeader, Header.text]
  cases h with
  | head value =>
    simp only [Header.key] at hself ⊢
    simp only [hself]
    rfl
  | oid value =>
    have hhd := @stripPrefix_other "branch.head ".toList "branch.oid ".toList (by decide) (by decide) value
    simp only [Header.key, Header.value] at hself ⊢
    simp only [hhd, hself]
    rfl
  | upstream value =>
    have hhd := @stripPrefix_other "branch.head ".toList "branch.upstream ".toList (by decide) (by decide) value
    have ho := @stripPrefix_other "branch.oid ".toList "branch.upstream ".toList (by decide) (by decide) value
    simp only [Header.key, Header.value] at hself ⊢
    simp only [hhd, ho, hself]
    rfl
  | ab ahead behind =>
    have hhd := @stripPrefix_other "branch.head ".toList "branch.ab ".toList (by decide) (by decide)
    have ho := @stripPrefix_other "branch.oid ".toList "branch.ab ".toList (by decide) (by decide)
    have hu := @stripPrefix_other "branch.upstream ".toList "branch.ab ".toList (by decide) (by decide)
    have hsp : splitOnce ' ' (('+' :: toDigits 10 ahead) ++ ' ' :: '-' :: toDigits 10 behind) =
        some ('+' :: toDigits 10 ahead, '-' :: toDigits 10 behind) := by
      refine splitOnce_append fun hmem => ?_
      rcases mem_cons.mp hmem with h | h
      · exact absurd h (by decide)
      · exact not_mem_toDigits (by decide) ahead h
    have hplus := stripPrefix_append ['+'] (toDigits 10 ahead)
    have hm := stripPrefix_append ['-'] (toDigits 10 behind)
    rw [singleton_append] at hplus hm
    simp only [Header.key, Header.value] at hself ⊢
    simp only [hhd, ho, hu, hself, hsp, hplus, hm, parseU32_toDigits hpr.1, parseU32_toDigits hpr.2, bind_some, bind_eq_bind]
    rfl
  | stash n =>
    have hhd := @stripPrefix_other "branch.head ".toList "stash ".toList (by decide) (by decide)
    have ho := @stripPrefix_other "branch.oid ".toList "stash ".toList (by decide) (by decide)
    have hu := @stripPrefix_other "branch.upstream ".toList "stash ".toList (by decide) (by decide)
    have hab := @stripPrefix_other "branch.ab ".toList "stash ".toList (by decide) (by decide)
    simp only [Header.key]
    simp only [hhd, ho, hu, hab]
    rfl

theorem readFields_joined {x y : Char} {kind : Text} {fields : List Text} (path : Text)
    (h : ∀ field ∈ kind :: [x, y] :: fields, ∀ c ∈ field, c.toNat < 128 ∧ c ≠ ' ' ∧ c ≠ '\x00') :
    readFields (fields.length + 3) (joined ' ' (kind :: [x, y] :: fields) path) = some (x, y, path) := by
  have hsp := splitn_joined (fun field hf hc => (h field hf _ hc).2.1 rfl) path
  have hxy := h [x, y] (mem_cons_of_mem _ mem_cons_self)
  have hx := (hxy x mem_cons_self).1
  have hy := (hxy y (mem_cons_of_mem x mem_cons_self)).1
  rw [length_cons, length_cons] at hsp
  have hl : (kind :: [x, y] :: fields ++ [path]).getLast? = some path := getLast?_concat
  rw [readFields, hsp]
  simp only [hl]
  simp [hx, hy]

/-! ### All records -/

/-- One header is read. -/
theorem parseRecords_header {h : Header} (hpr : h.Printable) (rest : List Text) (s : GitStatus) :
    parseRecords (h.record :: rest) s = parseRecords rest (h.apply s) := by
  rw [Header.record, parseRecords, stripPrefix_append]
  dsimp only
  rw [readHeader_text hpr, bind_some]

theorem parseRecords_headers {headers : List Header} (hpr : ∀ h ∈ headers, h.Printable) (rest : List Text) (s : GitStatus) :
    parseRecords (headers.map Header.record ++ rest) s = parseRecords rest (headers.foldl Header.apply s) := by
  induction headers generalizing s with
  | nil => rfl
  | cons h headers ih =>
    rw [map_cons, cons_append, parseRecords_header (hpr h mem_cons_self), ih fun g hg => hpr g (mem_cons_of_mem h hg)]
    rfl

theorem pushEntry_of_ne {e : GitEntry} (hp : e.path ≠ []) (horig : e.original ≠ some []) (s : GitStatus) :
    pushEntry s e = some { s with entries := s.entries ++ [e] } := if_neg fun h => h.elim hp horig

/-- A record that starts with one character and a space is no header and not ignored. -/
theorem not_header {kind : Char} (hhash : kind ≠ '#') (hi : kind ≠ '!') (fields : List Text) (path : Text) :
    stripPrefix "# ".toList (joined ' ' ([kind] :: fields) path) = none ∧
      (stripPrefix "! ".toList (joined ' ' ([kind] :: fields) path)).isSome = false ∧
      (joined ' ' ([kind] :: fields) path).head? = some kind := by
  have hj : joined ' ' ([kind] :: fields) path = kind :: ' ' :: joined ' ' fields path := rfl
  rw [hj]
  refine ⟨stripPrefix_of_ne hhash.symm _ _, ?_, rfl⟩
  rw [show stripPrefix "! ".toList (kind :: ' ' :: joined ' ' fields path) = none from stripPrefix_of_ne hi.symm _ _]
  rfl

/-- The fields of a changed file. -/
theorem readFields_entry {x y : Char} {kind : Text} {fields : List Text} {count : ℕ} (path : Text) (hc : fields.length + 3 = count)
    (h : ∀ field ∈ kind :: [x, y] :: fields, ∀ c ∈ field, c.toNat < 128 ∧ c ≠ ' ' ∧ c ≠ '\x00') :
    readFields count (joined ' ' (kind :: [x, y] :: fields) path) = some (x, y, path) := hc ▸ readFields_joined path h

/-- One entry is read, and an ignored one is read over. -/
theorem parseRecords_entry {e : Entry} (hpr : e.Printable) (rest : List Text) (s : GitStatus) :
    parseRecords (e.records ++ rest) s = parseRecords rest { s with entries := s.entries ++ e.entry.toList } := by
  have hp := hpr.path.1
  cases e with
  | ordinary x y sub modeHead modeIndex modeWorktree hashH hashI path =>
    have hfs := @readFields_entry x y ['1'] _ 9 path rfl hpr.fields
    obtain ⟨hhd, hi, hk⟩ := @not_header '1' (by decide) (by decide) [[x, y], sub, modeHead, modeIndex, modeWorktree, hashH, hashI] path
    have hpush := pushEntry_of_ne (e := ⟨path, none, x, y, false⟩) hp (by simp) s
    simp only [Entry.records, Entry.fields, Entry.path, Entry.original, toList_none, singleton_append]
    rw [parseRecords, hhd]
    simp only [hi, hk, hfs, hpush, bind_some, false_eq_true, if_false]
    rfl
  | renamed x y sub modeHead modeIndex modeWorktree hashH hashI score path original =>
    have hfs := @readFields_entry x y ['2'] _ 10 path rfl hpr.fields
    obtain ⟨hhd, hi, hk⟩ := @not_header '2' (by decide) (by decide)
      [[x, y], sub, modeHead, modeIndex, modeWorktree, hashH, hashI, score] path
    have horig : some original ≠ some [] := fun h => (hpr.original original rfl).1 (some.inj h)
    have hpush := pushEntry_of_ne (e := ⟨path, some original, x, y, false⟩) hp horig s
    simp only [Entry.records, Entry.fields, Entry.path, Entry.original, toList_some, cons_append, nil_append]
    rw [parseRecords, hhd]
    simp only [hi, hk, hfs, hpush, bind_some, false_eq_true, if_false]
    rfl
  | unmerged x y sub mode1 mode2 mode3 modeWorktree hash1 hash2 hash3 path =>
    have hfs := @readFields_entry x y ['u'] _ 11 path rfl hpr.fields
    obtain ⟨hhd, hi, hk⟩ := @not_header 'u' (by decide) (by decide)
      [[x, y], sub, mode1, mode2, mode3, modeWorktree, hash1, hash2, hash3] path
    have hpush := pushEntry_of_ne (e := ⟨path, none, x, y, true⟩) hp (by simp) s
    simp only [Entry.records, Entry.fields, Entry.path, Entry.original, toList_none, singleton_append]
    rw [parseRecords, hhd]
    simp only [hi, hk, hfs, hpush, bind_some, false_eq_true, if_false]
    rfl
  | untracked path =>
    obtain ⟨hhd, hi, hk⟩ := @not_header '?' (by decide) (by decide) [] path
    have hself : stripPrefix "? ".toList (joined ' ' [['?']] path) = some path := stripPrefix_append "? ".toList path
    have hpush := pushEntry_of_ne (e := ⟨path, none, '?', '?', false⟩) hp (by simp) s
    simp only [Entry.records, Entry.fields, Entry.path, Entry.original, toList_none, singleton_append]
    rw [parseRecords, hhd]
    simp only [hi, hk, hself, hpush, bind_some, false_eq_true, if_false]
    rfl
  | ignored path =>
    have hhd : stripPrefix "# ".toList (joined ' ' [['!']] path) = none := stripPrefix_of_ne (by decide) _ _
    have hself : stripPrefix "! ".toList (joined ' ' [['!']] path) = some path := stripPrefix_append "! ".toList path
    simp only [Entry.records, Entry.fields, Entry.path, Entry.original, toList_none, singleton_append]
    rw [parseRecords, hhd]
    simp only [hself, isSome_some, if_true, Entry.entry, toList_none, append_nil]

theorem parseRecords_entries {entries : List Entry} (hpr : ∀ e ∈ entries, e.Printable) (rest : List Text) (s : GitStatus) :
    parseRecords (entries.flatMap Entry.records ++ rest) s = parseRecords rest
      { s with entries := s.entries ++ entries.filterMap Entry.entry } := by
  induction entries generalizing s with
  | nil => simp
  | cons e entries ih =>
    rw [flatMap_cons, append_assoc, parseRecords_entry (hpr e mem_cons_self), ih fun f hf => hpr f (mem_cons_of_mem e hf)]
    cases he : e.entry <;> simp [he]

theorem entries_foldl_apply (headers : List Header) (s : GitStatus) : (headers.foldl Header.apply s).entries = s.entries := by
  induction headers generalizing s with
  | nil => rfl
  | cons h headers ih =>
    rw [foldl_cons, ih]
    cases h <;> rfl

theorem parseRecords_records {headers : List Header} {entries : List Entry} (hpr : Printable headers entries) (rest : List Text) :
    parseRecords (records headers entries ++ rest) .empty = parseRecords rest (status headers entries) := by
  rw [records, append_assoc, parseRecords_headers hpr.header, parseRecords_entries hpr.entry, entries_foldl_apply]
  rfl

/-! ### Separators -/

theorem not_mem_joined {fields : List Text} {path : Text} (hfs : ∀ field ∈ fields, ∀ c ∈ field, c.toNat < 128 ∧ c ≠ ' ' ∧ c ≠ '\x00')
    (hp : '\x00' ∉ path) : '\x00' ∉ joined ' ' fields path := by
  induction fields with
  | nil => exact hp
  | cons field fields ih =>
    have hj : joined ' ' (field :: fields) path = field ++ ' ' :: joined ' ' fields path := rfl
    rw [hj, mem_append, mem_cons]
    rintro (h | h | h)
    · exact (hfs field mem_cons_self _ h).2.2 rfl
    · exact absurd h (by decide)
    · exact ih (fun f hf => hfs f (mem_cons_of_mem field hf)) h

theorem Entry.Printable.not_mem {e : Entry} (h : e.Printable) {record : Text} (hr : record ∈ e.records) : '\x00' ∉ record := by
  rcases mem_cons.mp hr with rfl | hr
  · exact not_mem_joined h.fields h.path.2
  · exact (h.original record (mem_toList.mp hr)).2

theorem Header.Printable.not_mem {h : Header} (hpr : h.Printable) : '\x00' ∉ h.record := by
  have hv : '\x00' ∉ h.value := by
    cases h with
    | oid value => exact hpr
    | head value => exact hpr
    | upstream value => exact hpr
    | ab ahead behind =>
      rw [Header.value, mem_append, mem_cons, mem_cons, mem_cons]
      rintro ((h | h) | h | h | h)
      · exact absurd h (by decide)
      · exact not_mem_toDigits (by decide) ahead h
      · exact absurd h (by decide)
      · exact absurd h (by decide)
      · exact not_mem_toDigits (by decide) behind h
    | stash n => exact not_mem_toDigits (by decide) n
  have hk : '\x00' ∉ h.key.toList := by
    cases h <;> simp only [Header.key] <;> decide
  rw [Header.record, Header.text, mem_append, mem_append]
  rintro (h' | h' | h')
  · exact absurd h' (by decide)
  · exact hk h'
  · exact hv h'

theorem Printable.not_mem {headers : List Header} {entries : List Entry} (h : Printable headers entries) :
    ∀ record ∈ records headers entries, '\x00' ∉ record := by
  intro record hr
  rcases mem_append.mp hr with hr | hr
  · obtain ⟨header, hhd, rfl⟩ := List.mem_map.mp hr
    exact (h.header header hhd).not_mem
  · obtain ⟨e, he, hr⟩ := mem_flatMap.mp hr
    exact (h.entry e he).not_mem hr

theorem Printable.records_ne_nil {headers : List Header} {entries : List Entry} (h : Printable headers entries) :
    records headers entries ≠ [] := by
  intro hn
  rw [records, append_eq_nil_iff, map_eq_nil_iff] at hn
  exact h.branch (by rw [hn.1]; rfl)

/-! ### What Git prints is read -/

theorem parseStatus_output {headers : List Header} {entries : List Entry} (h : Printable headers entries) :
    parseStatus (output headers entries) = some (status headers entries) := by
  have hr := parseRecords_records h []
  rw [append_nil] at hr
  rw [parseStatus, output, splitTerminated_terminated h.records_ne_nil h.not_mem]
  simp only [bind_eq_bind, bind_some, hr, parseRecords]
  exact if_neg fun he => he.elim h.branch h.head

theorem parseStatus_of_getLast? {text : Text} (h : text.getLast? ≠ some '\x00') : parseStatus text = none := by
  rw [parseStatus, splitTerminated, if_neg h]
  rfl

/-- Where two records are cut so that a NUL is left at the end. -/
theorem cut_eq {record original cut : Text} (hrec : '\x00' ∉ record) (horig : '\x00' ∉ original)
    (hc : cut <+: terminated '\x00' [record, original]) (hl : cut.getLast? = some '\x00')
    (hne : cut ≠ terminated '\x00' [record, original]) : cut = terminated '\x00' [record] := by
  obtain ⟨head, rfl⟩ : ∃ head, cut = head ++ ['\x00'] := ⟨cut.dropLast, (dropLast_append_getLast? _ hl).symm⟩
  have hwh : terminated '\x00' [record, original] = record ++ '\x00' :: (original ++ ['\x00']) := by simp [terminated]
  have htk := prefix_iff_eq_take.mp hc
  have hg : (terminated '\x00' [record, original])[head.length]? = some '\x00' := by
    obtain ⟨rest, hr⟩ := hc
    rw [← hr]
    simp
  have hlen := hc.length_le
  rw [length_append, length_singleton] at htk hlen
  rw [hwh] at htk hg hlen hne
  rcases lt_trichotomy head.length record.length with hlt | heq | hgt
  · rw [getElem?_append_left hlt] at hg
    exact absurd (mem_of_getElem? hg) hrec
  · rw [htk, heq, take_length_add_append]
    simp [terminated]
  · obtain ⟨i, hi⟩ : ∃ i, head.length = record.length + 1 + i := ⟨head.length - record.length - 1, by omega⟩
    rw [length_append, length_cons, length_append, length_singleton] at hlen
    have he : i = original.length := by
      by_contra hlt
      rw [getElem?_append_right (by omega), hi, show record.length + 1 + i - record.length = i + 1 by omega, getElem?_cons_succ,
        getElem?_append_left (by omega)] at hg
      exact horig (mem_of_getElem? hg)
    refine absurd (htk.trans (take_of_length_le ?_)) hne
    rw [length_append, length_cons, length_append, length_singleton]
    omega

/-- An entry that is cut within its two records. -/
theorem parseStatus_cut {headers : List Header} {entries : List Entry} (h : Printable headers entries) {e : Entry} (he : e.Printable)
    {original cut : Text} (horig : e.original = some original) (hc : cut <+: terminated '\x00' e.records) (hn : cut ≠ [])
    (hne : cut ≠ terminated '\x00' e.records) : parseStatus (output headers entries ++ cut) = none := by
  by_cases hl : cut.getLast? = some '\x00'
  · cases e with
    | renamed x y sub modeHead modeIndex modeWorktree hashH hashI score path original' =>
      have hrec : (Entry.renamed x y sub modeHead modeIndex modeWorktree hashH hashI score path original').records =
          [joined ' ' (Entry.renamed x y sub modeHead modeIndex modeWorktree hashH hashI score path original').fields path, original'] := rfl
      have hreco := he.not_mem (hrec ▸ mem_cons_self)
      rw [hrec] at hc hne
      rw [cut_eq hreco (he.original original' rfl).2 hc hl hne, output, ← terminated_append, parseStatus,
        splitTerminated_terminated (by simp)
        (fun record hr => (mem_append.mp hr).elim (h.not_mem record) fun hr => mem_singleton.mp hr ▸ hreco)]
      simp only [bind_eq_bind, bind_some, parseRecords_records h]
      obtain ⟨hhd, hi, hk⟩ := @not_header '2' (by decide) (by decide)
        [[x, y], sub, modeHead, modeIndex, modeWorktree, hashH, hashI, score] path
      have hfs := @readFields_entry x y ['2'] _ 10 path rfl he.fields
      simp only [Entry.fields]
      rw [parseRecords, hhd]
      simp only [hi, hk, hfs, bind_some, false_eq_true, if_false]
      rfl
    | _ => cases horig
  · refine parseStatus_of_getLast? ?_
    rwa [getLast?_append_of_ne_nil _ hn]

/-- **What Git prints is read back**, but for ignored files, and an output that has lost its last NUL or ends between the two
records of a renamed file is refused. -/
theorem parseStatus_printed (headers : List Header) (entries : List Entry) (h : Printable headers entries) :
    parseStatus (output headers entries) = some (status headers entries) ∧
      (∀ text : Text, text.getLast? ≠ some '\x00' → parseStatus text = none) ∧
      ∀ e : Entry, e.Printable → e.original ≠ none → ∀ cut, cut <+: terminated '\x00' e.records → cut ≠ [] →
        cut ≠ terminated '\x00' e.records → parseStatus (output headers entries ++ cut) = none := by
  refine ⟨parseStatus_output h, fun text ht => parseStatus_of_getLast? ht, fun e he horig cut hcut hnil hne => ?_⟩
  obtain ⟨original, horig⟩ := ne_none_iff_exists'.mp horig
  exact parseStatus_cut h he horig hcut hnil hne

/-- A branch with a commit. -/
def branchHeaders : List Header := [.oid "abc".toList, .head "main".toList]

/-- A renamed file whose new path looks like a header. -/
def renamedFile : Entry :=
  .renamed 'R' 'M' "N...".toList "100644".toList "100644".toList "100644".toList "abc".toList "def".toList
    "R100".toList "# branch.oid 1 ".toList
    "? old\nname".toList

theorem printable_branch {entries : List Entry} (h : ∀ e ∈ entries, e.Printable) : Printable branchHeaders entries := by
  refine ⟨fun header hhd => ?_, h, by decide, by decide⟩
  rcases mem_cons.mp hhd with rfl | hhd
  · exact show '\x00' ∉ "abc".toList by decide
  · obtain rfl := mem_singleton.mp hhd
    exact show '\x00' ∉ "main".toList by decide

theorem Entry.printable_of_all {e : Entry} (hfs : (e.fields.all fun field => field.all fun c =>
    decide (c.toNat < 128 ∧ c ≠ ' ' ∧ c ≠ '\x00')) = true)
    (hp : e.path ≠ [] ∧ '\x00' ∉ e.path) (horig : ∀ original ∈ e.original, original ≠ [] ∧ '\x00' ∉ original) : e.Printable :=
  ⟨fun field hf => forall_mem_of_all (List.all_eq_true.mp hfs field hf), hp, horig⟩

theorem printable_renamedFile : renamedFile.Printable := by
  refine Entry.printable_of_all (by decide) (by decide) ?_
  rintro original ⟨⟩
  decide

theorem parseStatus_renamed : parseStatus (output branchHeaders [renamedFile]) = some (status branchHeaders [renamedFile]) :=
  (parseStatus_printed branchHeaders [renamedFile] (printable_branch (by simpa using printable_renamedFile))).1

theorem printable_ignored : (Entry.ignored ['x']).Printable := Entry.printable_of_all (by decide) (by decide) (by rintro _ ⟨⟩)

theorem printable_untracked : (Entry.untracked ['x']).Printable := Entry.printable_of_all (by decide) (by decide) (by rintro _ ⟨⟩)

/-- An ignored file is no entry, and an output that ends after a record is one of fewer entries. -/
theorem entry_lost : (¬ ∀ headers entries, Printable headers entries →
      (parseStatus (output headers entries)).map (fun s => s.entries.length) = some entries.length) ∧
    ¬ ∀ headers entries, Printable headers entries → ∀ cut, cut <+: output headers entries →
      cut ≠ output headers entries → parseStatus cut = none := by
  constructor
  · intro h
    have hpr : Printable branchHeaders [.ignored ['x']] := printable_branch (by simpa using printable_ignored)
    have hrd := h _ _ hpr
    rw [parseStatus_output hpr] at hrd
    cases hrd
  · intro h
    have hpr : Printable branchHeaders [.untracked ['x']] := printable_branch (by simpa using printable_untracked)
    have hsh : Printable branchHeaders [] := printable_branch (by simp)
    have hout : output branchHeaders [.untracked ['x']] = output branchHeaders [] ++ terminated '\x00' (Entry.untracked ['x']).records := by
      rw [output, output, ← terminated_append]
      simp [records]
    have hrd := h _ _ hpr (output branchHeaders []) ⟨_, hout.symm⟩ fun heq => by
      have hlen := congrArg length (heq.trans hout)
      simp [terminated, Entry.records] at hlen
    rw [parseStatus_output hsh] at hrd
    cases hrd

end Pebrel.Git
