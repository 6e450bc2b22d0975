import Mathlib
import Pebrel.Ssh.Address

/-!
# The fields of a destination

The editor of a host splits a destination into a user, an address and a port, and joins
them again (`ssh_ui.rs`, `ssh_settings.rs`). What an accepted destination denotes is kept.
A port is joined to an IPv6 address without brackets as one more group of it, though, so
that fields may denote another machine: `destination_fields` says which.
-/

namespace Pebrel.Ssh

open Library List
open Text (isControl isHexDigit isWhitespace rsplitOnce rsplitOnce_eq_some trim trim_eq_self)
open Pebrel.Stream (stripPrefix stripPrefix_eq_some_iff stripPrefix_eq_none_iff)

def schemeText : Text := "ssh://".toList

/-- The host and the port of what follows the user, as they are edited. -/
def editedHostPort (hostPort : Text) : Text × Text :=
  match stripPrefix ['['] hostPort with
  | some after =>
    match Text.splitOnce ']' after with
    | some (host, suffix) => ('[' :: (host ++ [']']), (stripPrefix [':'] suffix).getD [])
    | none => (hostPort, [])
  | none =>
    match rsplitOnce ':' hostPort with
    | some (host, port) => if host.contains ':' then (hostPort, []) else (host, port)
    | none => (hostPort, [])

def splitDestinationPort (destination : Text) : Text × Text :=
  let trimmed := trim destination
  let (scheme, rest) := ((stripPrefix schemeText trimmed).map fun rest => (schemeText, rest)).getD ([], trimmed)
  let (user, hostPort) := ((rsplitOnce '@' rest).map fun e => (e.1 ++ ['@'], e.2)).getD ([], rest)
  let (host, port) := editedHostPort hostPort
  if port ≠ [] ∧ parseU16 port = none then (trimmed, [])
  else (scheme ++ user ++ host, if port = "22".toList then [] else port)

def splitDestinationUser (address : Text) : Text × Text :=
  let trimmed := trim address
  let rest := (stripPrefix schemeText trimmed).getD trimmed
  match rsplitOnce '@' rest with
  | some (user, host) => if user ≠ [] ∧ host ≠ [] then (user, host) else ([], rest)
  | none => ([], rest)

def joinDestinationUser (username address : Text) : Text :=
  let (embeddedUser, host) := splitDestinationUser address
  let user := trim username
  let user := if user = [] then embeddedUser else user
  if user = [] then host else user ++ '@' :: host

def joinDestinationPort (address port : Text) : Text :=
  let (base, embedded) := splitDestinationPort address
  let port := if embedded = [] then .trim port else embedded
  if port = [] ∨ port = "22".toList then base else base ++ ':' :: port

inductive SshValidationError where
  | invalidPort
  | missingDestination
  | unsafeDestination

def isUnsafe (c : Char) : Bool := isWhitespace c || isControl c || ";&|<>\"'`".toList.contains c

/-- `ssh_destination_from_draft`, of the fields of the editor. -/
def sshDestinationFromDraft (username address port : Text) : Except SshValidationError Text :=
  let address := trim address
  if (stripPrefix "serial:".toList address).isSome then .ok address
  else
    let port := trim port
    if port ≠ [] ∧ !((parseU16 port).any fun value => 0 < value) then .error .invalidPort
    else
      let username := .trim username
      if (splitDestinationUser address).2 = [] then .error .missingDestination
      else
        let destination := joinDestinationPort (joinDestinationUser username address) port
        if destination = [] then .error .missingDestination
        else if destination.any isUnsafe then .error .unsafeDestination
        else .ok destination

def parseHostPortOptional (hostPort : Text) : Option (Text × Option ℕ) := do
  let (host, port) ← match stripPrefix ['['] hostPort with
    | some rest =>
      match Text.splitOnce ']' rest with
      | none => none
      | some (host, suffix) =>
        match stripPrefix [':'] suffix with
        | none => some (host, none)
        | some port => (parseU16 port).map fun port => (host, some port)
    | none =>
      match rsplitOnce ':' hostPort with
      | some (host, port) => if host.contains ':' then some (hostPort, none) else (parseU16 port).map fun port => (host, some port)
      | none => some (hostPort, none)
  if host = [] then none else some (host, port)

/-- No accepted destination has such a character. -/
def isBad (c : Char) : Bool := isWhitespace c || isControl c || ",;&|<>\"'`\\?#".toList.contains c

/-- The user, the host and the port that a destination denotes, as `SshDestination::parse` reads them; the user is empty
where it is left to the configuration. -/
def denotes (destination : Text) : Option (Text × Text × ℕ) :=
  let original := trim destination
  let address := (stripPrefix schemeText original).getD original
  let (user, hostPort) := (rsplitOnce '@' address).getD ([], address)
  (parseHostPortOptional hostPort).map fun e => (user, e.1, e.2.getD 22)

/-- The address of a user, or of none. -/
def userAt (user rest : Text) : Text := if user = [] then rest else user ++ '@' :: rest

section
variable {text host user port rest scheme : Text} {c : Char} {n : ℕ}

/-- A user in the field of the user. -/
def UserField (user : Text) : Prop := user = [] ∨ validSshUsername user = true

/-! ### Users and schemes -/

theorem UserField.not_mem (h : UserField user) (hc : isWhitespace c = true ∨ c ∈ ":/[],;&|<>\"'`\\?#".toList) : c ∉ user := by
  intro hm
  rcases h with rfl | hv
  · exact not_mem_nil hm
  · rw [validSshUsername, Bool.and_eq_true, Bool.not_eq_true', any_eq_false] at hv
    have ha := hv.2 c hm
    simp only [Bool.or_eq_true, not_or, contains_iff_mem] at ha
    exact hc.elim (fun h => ha.1.1 h) ha.2

/-- What stands after the user, without blanks and without what tells a user or a scheme from it. -/
structure Plain (rest : Text) : Prop where
  ne_nil : rest ≠ []
  at_sign : '@' ∉ rest
  slash : '/' ∉ rest
  blanks : ∀ c ∈ rest, isWhitespace c = false

def Scheme (scheme : Text) : Prop := scheme = [] ∨ scheme = schemeText

theorem strip_scheme (hs : Scheme scheme) (hsla : '/' ∉ rest) :
    stripPrefix schemeText (scheme ++ rest) = if scheme = [] then none else some rest := by
  rcases hs with rfl | rfl
  · rw [if_pos rfl, stripPrefix_eq_none_iff]
    rintro ⟨t, rfl⟩
    exact hsla (mem_append_left _ (by decide))
  · rw [if_neg (by decide), stripPrefix_eq_some_iff]

section
variable (hu : UserField user) (hrest : Plain rest)
include hu hrest

theorem slash_userAt : '/' ∉ userAt user rest := by
  have hs := hu.not_mem (c := '/') (.inr (by decide))
  rw [userAt]
  split
  · exact hrest.slash
  · simp [hs, hrest.slash]

omit hu in
theorem rsplit_userAt : rsplitOnce '@' (userAt user rest) = if user = [] then none else some (user, rest) := by
  rw [userAt]
  split
  · exact Text.rsplitOnce_eq_none.mpr hrest.at_sign
  · exact rsplitOnce_eq_some.mpr ⟨rfl, hrest.at_sign⟩

theorem trim_userAt (hs : Scheme scheme) : .trim (scheme ++ userAt user rest) = scheme ++ userAt user rest := by
  refine trim_eq_self fun c hc => ?_
  have hs : ∀ c ∈ scheme, isWhitespace c = false := by
    rcases hs with rfl | rfl
    · exact nofun
    · exact Text.forall_mem_of_all (by decide)
  rcases mem_append.mp hc with hc | hc
  · exact hs c hc
  rw [userAt] at hc
  split at hc
  · exact hrest.blanks c hc
  · rcases mem_append.mp hc with hc | hc
    · exact eq_false_of_ne_true fun h => hu.not_mem (.inl h) hc
    · rcases mem_cons.mp hc with rfl | hc
      · rfl
      · exact hrest.blanks c hc

theorem splitDestinationPort_userAt (hsch : Scheme scheme) {base : Text} (hsp : editedHostPort rest = (base, port))
    (hport : port = [] ∨ (parseU16 port).isSome) :
    splitDestinationPort (scheme ++ userAt user rest) = (scheme ++ userAt user base, if port = "22".toList then [] else port) := by
  have hps : ¬(port ≠ [] ∧ parseU16 port = none) := by
    rintro ⟨hne, hn⟩
    exact hport.elim hne fun hs => by simp [hn] at hs
  rw [splitDestinationPort, trim_userAt hu hrest hsch]
  dsimp only
  rw [strip_scheme hsch (slash_userAt hu hrest)]
  have hat := @rsplit_userAt user _ hrest
  rcases hsch with rfl | rfl <;> by_cases huser : user = [] <;> simp only [userAt, huser, ↓reduceIte] at hat ⊢ <;>
    simp [hat, hsp, hps, schemeText]

theorem splitDestinationUser_userAt (hs : Scheme scheme) : splitDestinationUser (scheme ++ userAt user rest) = (user, rest) := by
  rw [splitDestinationUser, trim_userAt hu hrest hs, strip_scheme hs (slash_userAt hu hrest)]
  have hat := @rsplit_userAt user _ hrest
  have hne := hrest.ne_nil
  rcases hs with rfl | rfl <;> by_cases huser : user = [] <;> simp only [userAt, huser, ↓reduceIte] at hat ⊢ <;>
    simp [hat, huser, hne, schemeText]

theorem denotes_userAt (hs : Scheme scheme) :
    denotes (scheme ++ userAt user rest) = (parseHostPortOptional rest).map fun e => (user, e.1, e.2.getD 22) := by
  rw [denotes, trim_userAt hu hrest hs]
  dsimp only
  rw [strip_scheme hs (slash_userAt hu hrest)]
  have hat := @rsplit_userAt user _ hrest
  rcases hs with rfl | rfl <;> by_cases huser : user = [] <;> simp only [userAt, huser, ↓reduceIte] at hat ⊢ <;>
    simp [hat, schemeText]

end

/-! ### Hosts -/

theorem isAlphanum_of_isHexDigit (h : isHexDigit c = true) : c.isAlphanum = true := by
  simp only [isHexDigit, Char.isAlphanum, Char.isAlpha, Char.isUpper, Char.isLower, Bool.or_eq_true, Bool.and_eq_true, decide_eq_true_eq,
    Char.le_def] at h ⊢
  rcases h with (h | ⟨hge, hle⟩) | ⟨hge, hle⟩
  · exact .inr h
  · exact .inl (.inr ⟨hge, UInt32.le_trans hle (by decide)⟩)
  · exact .inl (.inl ⟨hge, UInt32.le_trans hle (by decide)⟩)

theorem isIpv6_char (h : isIpv6 host = true) (hc : c ∈ host) : isHexDigit c = true ∨ c = ':' ∨ c = '.' := by
  have ha := all_eq_true.mp (Bool.and_eq_true_iff.mp h).1 c hc
  simpa [or_assoc] using ha

/-- An IPv6 address has two colons. -/
theorem two_colons (h : isIpv6 host = true) : ∃ before after, rsplitOnce ':' host = some (before, after) ∧ ':' ∈ before := by
  have hf := (Bool.and_eq_true_iff.mp h).2
  by_contra hn
  have ho : ∃ before after : Text, ':' ∉ before ∧ ':' ∉ after ∧ (host = after ∨ host = before ++ ':' :: after) := by
    cases hsp : rsplitOnce ':' host with
    | none => exact ⟨[], host, not_mem_nil, Text.rsplitOnce_eq_none.mp hsp, .inl rfl⟩
    | some e =>
      obtain ⟨rfl, ha⟩ := rsplitOnce_eq_some.mp hsp
      exact ⟨e.1, e.2, fun hm => hn ⟨e.1, e.2, hsp, hm⟩, ha, .inr rfl⟩
  obtain ⟨before, after, hb, ha, hhost⟩ := ho
  have hc : host.count ':' ≤ 1 := by
    rcases hhost with rfl | rfl
    · rw [count_eq_zero.mpr ha]
      exact Nat.zero_le 1
    · rw [count_append, count_cons_self, count_eq_zero.mpr hb, count_eq_zero.mpr ha]
  have hps : (host.splitOn ':').length ≤ 2 := by
    rcases hhost with rfl | rfl
    · rw [splitOn_eq_singleton ha]
      exact Nat.le_succ 1
    · rw [splitOn_append_cons_self, splitOn_eq_singleton hb, splitOn_eq_singleton ha]
      exact le_rfl
  cases hd : Text.splitOnceText "::".toList host with
  | none =>
    rw [hd] at hf
    have hg : groupCount true host = some 8 := by simpa using hf
    simp only [groupCount] at hg
    split_ifs at hg with hnil hall hl
    · exact absurd hg (by decide)
    · have := Option.some.inj hg
      omega
    · have := Option.some.inj hg
      omega
  | some e =>
    have heq := @Text.splitOnceText_eq _ e.1 e.2 "::".toList hd
    rw [heq, count_append, count_append] at hc
    have ht : count ':' "::".toList = 2 := by decide
    omega

theorem stripPrefix_bracket (rest : Text) : stripPrefix ['['] ('[' :: rest) = some rest := stripPrefix_eq_some_iff.mpr rfl

variable [Alphanumeric]

/-- A host in the field of the address: a name or an address, or an IPv6 address in brackets. -/
structure HostField (text host : Text) : Prop where
  form : text = '[' :: (host ++ [']']) ∧ isIpv6 host = true ∨ text = host
  host : validateHost host = .ok ()
  blanks : ∀ c ∈ text, isWhitespace c = false

theorem validateHost_cases (h : validateHost host = .ok ()) : host ≠ [] ∧ host.head? ≠ some '-' ∧
    ((':' ∈ host ∧ isIpv6 host = true) ∨ (':' ∉ host ∧ ∀ c ∈ host, Alphanumeric.isAlphanumeric c = true ∨ c ∈ ['.', '-', '_'])) := by
  rw [validateHost] at h
  split at h
  · cases h
  rename_i hne
  rw [not_or, not_or] at hne
  refine ⟨hne.1, hne.2.1, ?_⟩
  split at h
  · rename_i hcol
    split at h
    · rename_i hi6
      exact .inl ⟨by simpa using hcol, hi6⟩
    · cases h
  · rename_i hcol
    split at h
    · cases h
    · rename_i ha
      refine .inr ⟨by simpa using hcol, fun c hc => ?_⟩
      have hchar := fun hn => ha (any_eq_true.mpr ⟨c, hc, hn⟩)
      by_contra hn
      rw [not_or] at hn
      exact hchar (by simp_all)

/-- Of the ASCII characters a host has letters, digits and these. -/
theorem not_mem_host (h : validateHost host = .ok ()) (hc : c.toNat < 128) (ha : c.isAlphanum = false)
    (ho : c ∉ ['.', '-', '_', ':']) : c ∉ host := by
  intro hm
  simp only [mem_cons, not_mem_nil, or_false, not_or] at ho
  rcases (validateHost_cases h).2.2 with ⟨-, hi6⟩ | ⟨-, hall⟩
  · rcases isIpv6_char hi6 hm with hh | rfl | rfl
    · exact nomatch ha.symm.trans (isAlphanum_of_isHexDigit hh)
    · exact ho.2.2.2 rfl
    · exact ho.1 rfl
  · rcases hall c hm with hl | hm
    · rw [Alphanumeric.ascii c hc, ha] at hl
      exact nomatch hl
    · simp only [mem_cons, not_mem_nil, or_false] at hm
      rcases hm with rfl | rfl | rfl <;> simp at ho

theorem HostField.cases (h : HostField text host) : (text = '[' :: (host ++ [']']) ∧ isIpv6 host = true) ∨
    (text = host ∧ ':' ∉ host) ∨ (text = host ∧ ':' ∈ host ∧ isIpv6 host = true) := by
  rcases h.form with hf | hf
  · exact .inl hf
  · rcases (validateHost_cases h.host).2.2 with ⟨hc, hi6⟩ | ⟨hc, -⟩
    · exact .inr (.inr ⟨hf, hc, hi6⟩)
    · exact .inr (.inl ⟨hf, hc⟩)

/-- What neither hosts nor brackets have is not in the field. -/
theorem HostField.not_mem (h : HostField text host) (hc : c.toNat < 128) (ha : c.isAlphanum = false)
    (ho : c ∉ ['.', '-', '_', ':', '[', ']']) : c ∉ text := by
  simp only [mem_cons, not_mem_nil, or_false, not_or] at ho
  have hhost := not_mem_host h.host hc ha (by simp [ho])
  rcases h.form with ⟨rfl, -⟩ | rfl
  · simp [ho, hhost]
  · exact hhost

theorem HostField.ne_nil (h : HostField text host) : text ≠ [] := by
  rcases h.form with ⟨rfl, -⟩ | rfl
  · exact cons_ne_nil _ _
  · exact (validateHost_cases h.host).1

/-- A host does not begin with a bracket. -/
theorem stripPrefix_host (h : validateHost host = .ok ()) (suffix : Text) : stripPrefix ['['] (host ++ suffix) = none := by
  have hnot := not_mem_host (c := '[') h (by decide) (by decide) (by decide)
  obtain ⟨c, host, rfl⟩ := exists_cons_of_ne_nil (validateHost_cases h).1
  rw [stripPrefix_eq_none_iff]
  rintro ⟨rest, heq⟩
  cases heq
  exact hnot mem_cons_self

/-! ### Hosts and ports -/

theorem reads_text (h : HostField text host) : editedHostPort text = (text, []) ∧ parseHostPortOptional text = some (host, none) := by
  have hb := not_mem_host (c := ']') h.host (by decide) (by decide) (by decide)
  have hne := (validateHost_cases h.host).1
  have hn := stripPrefix_host h.host []
  rw [append_nil] at hn
  rcases h.cases with ⟨rfl, -⟩ | ⟨rfl, hc⟩ | ⟨rfl, -, hi6⟩
  · have he : stripPrefix [':'] ([] : Text) = none := rfl
    simp [editedHostPort, parseHostPortOptional, stripPrefix_bracket, Text.splitOnce_append hb, he, hne]
  · simp [editedHostPort, parseHostPortOptional, hn, Text.rsplitOnce_eq_none.mpr hc, hne]
  · obtain ⟨before, after, hsp, hm⟩ := two_colons hi6
    simp [editedHostPort, parseHostPortOptional, hn, hsp, hm, hne]

/-- A port after a bracket, or after a host without a colon, is one. -/
theorem reads_port (h : HostField text host) (hf : text.head? = some '[' ∨ ':' ∉ text) (hport : ':' ∉ port) (hn : parseU16 port = some n) :
    editedHostPort (text ++ ':' :: port) = (text, port) ∧ parseHostPortOptional (text ++ ':' :: port) = some (host, some n) := by
  have hb := not_mem_host (c := ']') h.host (by decide) (by decide) (by decide)
  have hne := (validateHost_cases h.host).1
  have hnone := stripPrefix_host h.host (':' :: port)
  have hl : rsplitOnce ':' (text ++ ':' :: port) = some (text, port) := rsplitOnce_eq_some.mpr ⟨rfl, hport⟩
  have hs : stripPrefix [':'] (':' :: port) = some port := stripPrefix_eq_some_iff.mpr rfl
  rcases h.cases with ⟨rfl, -⟩ | ⟨rfl, hc⟩ | ⟨rfl, hc, -⟩
  · simp [editedHostPort, parseHostPortOptional, stripPrefix_bracket, Text.splitOnce_append hb, hs, hn, hne]
  · simp [editedHostPort, parseHostPortOptional, hnone, hl, hc, hn, hne]
  · rcases hf with hhd | hnot
    · have hnot := not_mem_host (c := '[') h.host (by decide) (by decide) (by decide)
      exact absurd (mem_of_mem_head? hhd) hnot
    · exact absurd hc hnot

/-- After an IPv6 address without brackets it is one more group. -/
theorem reads_group (h : HostField text host) (hform : text.head? ≠ some '[') (hcolon : ':' ∈ text) (hport : ':' ∉ port) :
    text = host ∧ editedHostPort (text ++ ':' :: port) = (text ++ ':' :: port, []) ∧
      parseHostPortOptional (text ++ ':' :: port) = some (text ++ ':' :: port, none) := by
  have hnone := stripPrefix_host h.host (':' :: port)
  have hlast : rsplitOnce ':' (text ++ ':' :: port) = some (text, port) := rsplitOnce_eq_some.mpr ⟨rfl, hport⟩
  rcases h.form with ⟨rfl, -⟩ | rfl
  · exact absurd rfl hform
  · simp [editedHostPort, parseHostPortOptional, hnone, hlast, hcolon]

/-! ### Fields that are joined -/

section
omit [Alphanumeric]

theorem parseU16_char (h : parseU16 port = some n) : port ≠ [] ∧ ∀ c ∈ port, c.isDigit = true ∨ c = '+' := by
  have hds (t : Text) (ht : (parseBelow (2 ^ 16) t).isSome) : t ≠ [] ∧ ∀ c ∈ t, c.isDigit = true := by
    rw [parseBelow, Option.isSome_bind, Stream.parseDigits] at ht
    split at ht
    · rename_i ha
      exact ⟨ha.1, all_eq_true.mp ha.2⟩
    · exact nomatch ht
  rw [parseU16, parseUnsigned.eq_def] at h
  split at h
  · obtain ⟨-, ha⟩ := hds _ (Option.isSome_iff_exists.mpr ⟨n, h⟩)
    exact ⟨cons_ne_nil _ _, fun c hc => (mem_cons.mp hc).elim .inr fun hc => .inl (ha c hc)⟩
  · obtain ⟨hne, ha⟩ := hds _ (Option.isSome_iff_exists.mpr ⟨n, h⟩)
    exact ⟨hne, fun c hc => .inl (ha c hc)⟩

theorem port_not_mem (h : parseU16 port = some n) (hc : c.isDigit = false) (hplus : c ≠ '+') : c ∉ port := by
  intro hm
  rcases (parseU16_char h).2 c hm with hd | heq
  · exact nomatch hc.symm.trans hd
  · exact hplus heq

theorem port_blanks (h : parseU16 port = some n) : ∀ c ∈ port, isWhitespace c = false := by
  intro c hm
  rcases (parseU16_char h).2 c hm with hd | rfl
  · simp only [Char.isDigit, Bool.and_eq_true, decide_eq_true_eq, ge_iff_le, UInt32.le_iff_toNat_le] at hd
    have hge : 48 ≤ c.toNat := hd.1
    have hle : c.toNat ≤ 57 := hd.2
    simp [isWhitespace]
    omega
  · rfl

end

theorem HostField.plain (h : HostField text host) : Plain text :=
  ⟨h.ne_nil, h.not_mem (by decide) (by decide) (by decide), h.not_mem (by decide) (by decide) (by decide), h.blanks⟩

theorem HostField.plain_port (h : HostField text host) (hport : parseU16 port = some n) : Plain (text ++ ':' :: port) := by
  obtain ⟨hne, hat, hs, hb⟩ := h.plain
  have hat' := port_not_mem (c := '@') hport (by decide) (by decide)
  have hs' := port_not_mem (c := '/') hport (by decide) (by decide)
  refine ⟨append_ne_nil_of_left_ne_nil hne _, by simp [hat, hat'], by simp [hs, hs'], fun c hc => ?_⟩
  rcases mem_append.mp hc with hc | hc
  · exact hb c hc
  · rcases mem_cons.mp hc with rfl | hc
    · rfl
    · exact port_blanks hport c hc

/-- The address has no scheme of a serial port. -/
theorem HostField.not_serial (h : HostField text host) : stripPrefix "serial:".toList text = none := by
  rw [stripPrefix_eq_none_iff]
  rintro ⟨rest, rfl⟩
  rcases h.cases with ⟨heq, -⟩ | ⟨rfl, hc⟩ | ⟨rfl, -, hi6⟩
  · exact absurd (cons.inj heq).1 (by decide)
  · exact hc (mem_append_left _ (by decide))
  · rcases isIpv6_char hi6 (c := 's') (mem_append_left _ (by decide)) with hh | heq | heq
    · exact absurd hh (by decide)
    · exact absurd heq (by decide)
    · exact absurd heq (by decide)

/-- There is no user in the address. -/
theorem HostField.split_user (h : HostField text host) : splitDestinationUser text = ([], text) :=
  @splitDestinationUser_userAt [] _ [] (.inl rfl) h.plain (.inl rfl)

/-- What the fields are joined to. -/
def joined (user text port : Text) : Text := userAt user (if port = [] ∨ port = "22".toList then text else text ++ ':' :: port)

section
variable (hu : UserField user) (h : HostField text host) (hport : port = [] ∨ ∃ n, parseU16 port = some n ∧ 0 < n)
include hu h hport

theorem join_fields : joinDestinationPort (joinDestinationUser user text) port = joined user text port := by
  have ht : trim user = user := trim_eq_self fun c hc => eq_false_of_ne_true fun hbl => hu.not_mem (.inl hbl) hc
  have htrim : .trim port = port := by
    rcases hport with rfl | ⟨n, hport, -⟩
    · rfl
    · exact trim_eq_self (port_blanks hport)
  have hsp := h.split_user
  have huser : joinDestinationUser user text = userAt user text := by
    rw [joinDestinationUser, hsp, ht]
    by_cases hn : user = [] <;> simp [userAt, hn]
  have hbase := @splitDestinationPort_userAt _ _ _ [] hu h.plain (.inl rfl) _ (reads_text h).1 (.inl rfl)
  rw [if_neg (by decide), nil_append] at hbase
  rw [huser, joinDestinationPort, hbase, htrim, joined]
  dsimp only
  rw [if_pos rfl]
  split
  · rfl
  · rw [userAt, userAt]
    split
    · rfl
    · exact append_assoc ..

theorem draft_eq : sshDestinationFromDraft user text port =
    if (joined user text port).any isUnsafe then .error .unsafeDestination else .ok (joined user text port) := by
  have htri : trim text = text := trim_eq_self h.blanks
  have htrim : trim user = user := trim_eq_self fun c hc => eq_false_of_ne_true fun hbl => hu.not_mem (.inl hbl) hc
  have htrimP : .trim port = port := by
    rcases hport with rfl | ⟨n, hport, -⟩
    · rfl
    · exact trim_eq_self (port_blanks hport)
  have hv : ¬(port ≠ [] ∧ !((parseU16 port).any fun value => 0 < value)) := by
    rintro ⟨hne, hn⟩
    rcases hport with rfl | ⟨n, hport, hp⟩
    · exact hne rfl
    · simp [hport, hp] at hn
  have hne : joined user text port ≠ [] := by
    have ht := h.ne_nil
    rw [joined, userAt]
    split_ifs <;> simp [ht]
  rw [sshDestinationFromDraft, htri, h.not_serial]
  dsimp only [Option.isSome_none]
  rw [if_neg Bool.false_ne_true, htrimP, if_neg hv, htrim, h.split_user]
  dsimp only
  rw [if_neg h.ne_nil, join_fields hu h hport, if_neg hne]

end

/-- What the joined fields denote, if a port stands where it is read as one. -/
theorem denotes_joined (hu : UserField user) (h : HostField text host) (hport : parseU16 port = some n)
    (hform : port = "22".toList ∨ text.head? = some '[' ∨ ':' ∉ text) : denotes (joined user text port) = some (user, host, n) := by
  have hne := (parseU16_char hport).1
  rw [joined]
  split
  · rename_i hdefault
    obtain rfl := hdefault.resolve_left hne
    have hn : parseU16 "22".toList = some 22 := by decide
    obtain rfl := Option.some.inj (hport.symm.trans hn)
    have hdenotes := @denotes_userAt _ _ [] hu h.plain (.inl rfl)
    rwa [(reads_text h).2] at hdenotes
  · rename_i hother
    rw [not_or] at hother
    have hcolon := port_not_mem (c := ':') hport (by decide) (by decide)
    have hdenotes := @denotes_userAt _ _ [] hu (h.plain_port hport) (.inl rfl)
    rwa [(reads_port h (hform.resolve_left hother.2) hcolon hport).2] at hdenotes

/-! ### Accepted destinations -/

/-- What is accepted after the user is a host and a port or none. -/
theorem of_hostAndPort {hostPort : Text} (hblanks : ∀ c ∈ hostPort, isWhitespace c = false)
    (h : (do
      let (host, port) ← hostAndPort hostPort
      validateHost host
      if port.any fun port => (parseU16 port).all fun port => port = 0 then throw .port : Except RouteError Unit) = .ok ()) :
    ∃ text host port, HostField text host ∧ hostPort = (if port = [] then text else text ++ ':' :: port) ∧
      (port = [] ∨ (text.head? = some '[' ∨ ':' ∉ text) ∧ ∃ n, parseU16 port = some n ∧ 0 < n) := by
  cases hsplit : hostAndPort hostPort with
  | error e =>
    rw [hsplit] at h
    exact nomatch h
  | ok e =>
    obtain ⟨host, port⟩ := e
    rw [hsplit] at h
    cases hhost : validateHost host with
    | error e =>
      change (validateHost host).bind _ = _ at h
      rw [hhost] at h
      exact nomatch h
    | ok =>
      change (validateHost host).bind _ = _ at h
      rw [hhost] at h
      change (if _ then _ else _) = Except.ok () at h
      split at h
      · exact nomatch h
      rename_i hport
      have hvalid (p : Text) (hp : port = some p) : ∃ n, parseU16 p = some n ∧ 0 < n := by
        subst hp
        cases hparse : parseU16 p with
        | none => simp [hparse] at hport
        | some n => exact ⟨n, rfl, Nat.pos_of_ne_zero (by simpa [hparse] using hport)⟩
      have hnonempty (p : Text) (hp : port = some p) : p ≠ [] := by
        obtain ⟨n, hn, -⟩ := hvalid p hp
        exact (parseU16_char hn).1
      rw [hostAndPort] at hsplit
      split at hsplit
      · rename_i rest hbracket
        obtain rfl := stripPrefix_eq_some_iff.mp hbracket
        split at hsplit
        · exact nomatch hsplit
        rename_i inner suffix hclose
        obtain ⟨rfl, -⟩ := Text.splitOnce_eq_some.mp hclose
        split_ifs at hsplit with hipv6 hsuffix
        · cases hsplit
          subst hsuffix
          exact ⟨_, host, [], ⟨.inl ⟨rfl, by simpa using hipv6⟩, hhost, hblanks⟩, rfl, .inl rfl⟩
        · split at hsplit
          · exact nomatch hsplit
          rename_i p hstrip
          cases hsplit
          obtain rfl := stripPrefix_eq_some_iff.mp hstrip
          refine ⟨'[' :: (host ++ [']']), host, p, ⟨.inl ⟨rfl, by simpa using hipv6⟩, hhost, fun c hc =>
            hblanks c ?_⟩, ?_, .inr ⟨.inl rfl, hvalid p rfl⟩⟩
          · simp only [mem_cons, mem_append, singleton_append] at hc ⊢
            simp only [not_mem_nil, or_false] at hc
            tauto
          · rw [if_neg (hnonempty p rfl)]
            simp
      · split at hsplit
        · rename_i before p hlast
          obtain ⟨rfl, -⟩ := rsplitOnce_eq_some.mp hlast
          split_ifs at hsplit with hcolon
          · cases hsplit
            exact ⟨_, _, [], ⟨.inr rfl, hhost, hblanks⟩, rfl, .inl rfl⟩
          · cases hsplit
            refine ⟨host, host, p, ⟨.inr rfl, hhost, fun c hc => hblanks c (mem_append_left _ hc)⟩, (if_neg (hnonempty p rfl)).symm,
              .inr ⟨.inr (by simpa using hcolon), hvalid p rfl⟩⟩
        · cases hsplit
          exact ⟨_, _, [], ⟨.inr rfl, hhost, hblanks⟩, rfl, .inl rfl⟩

/-- An accepted destination is a scheme or none, a user or none, a host and a port or none. -/
theorem of_accepted {value : Text} (h : validateSshDestination value = .ok ()) :
    ∃ scheme user text host port, Scheme scheme ∧ UserField user ∧
    HostField text host ∧ .trim value = scheme ++ userAt user (if port = [] then text else text ++ ':' :: port) ∧
    (port = [] ∨ (text.head? = some '[' ∨ ':' ∉ text) ∧ ∃ n, parseU16 port = some n ∧ 0 < n) ∧
    (trim value).any isBad = false := by
  rw [validateSshDestination] at h
  dsimp only at h
  split at h
  · exact nomatch h
  rename_i hchars
  rw [not_or, Bool.not_eq_true] at hchars
  have hblanks : ∀ c ∈ trim value, isWhitespace c = false := fun c hc => by
    have := any_eq_false.mp hchars.2 c hc
    simp only [Bool.or_eq_true, not_or, Bool.not_eq_true] at this
    exact this.1.1
  split at h
  · exact nomatch h
  obtain ⟨scheme, address, hscheme, haddress, htrim⟩ : ∃ scheme address, Scheme scheme ∧
      (stripPrefix "ssh://".toList (trim value)).getD (trim value) = address ∧ trim value = scheme ++ address := by
    cases hstrip : stripPrefix "ssh://".toList (trim value) with
    | none => exact ⟨[], _, .inl rfl, rfl, rfl⟩
    | some rest => exact ⟨schemeText, rest, .inr rfl, rfl, stripPrefix_eq_some_iff.mp hstrip⟩
  rw [haddress] at h
  have hblanks' : ∀ c ∈ address, isWhitespace c = false := fun c hc => hblanks c (htrim ▸ mem_append_right scheme hc)
  cases hat : rsplitOnce '@' address with
  | none =>
    rw [hat] at h
    obtain ⟨text, host, port, hfield, rfl, hport⟩ := of_hostAndPort hblanks' h
    exact ⟨scheme, [], text, host, port, hscheme, .inl rfl, hfield, htrim, hport, hchars.2⟩
  | some e =>
    obtain ⟨user, hostPort⟩ := e
    obtain ⟨rfl, -⟩ := rsplitOnce_eq_some.mp hat
    rw [hat] at h
    dsimp only at h
    split at h
    · rename_i hvalid
      obtain ⟨text, host, port, hfield, rfl, hport⟩ := of_hostAndPort (fun c hc => hblanks' c (mem_append_right _ (mem_cons_of_mem _ hc))) h
      have hne : user ≠ [] := by
        rintro rfl
        exact absurd hvalid (by decide)
      refine ⟨scheme, user, text, host, port, hscheme, .inr hvalid, hfield, ?_, hport, hchars.2⟩
      rw [htrim, userAt, if_neg hne]
    · exact nomatch h

section
omit [Alphanumeric]

theorem isUnsafe_of_not_bad (h : isBad c = false) : isUnsafe c = false := by
  have hs : ";&|<>\"'`".toList ⊆ ",;&|<>\"'`\\?#".toList := by decide
  simp only [isBad, isUnsafe, Bool.or_eq_false_iff] at h ⊢
  refine ⟨h.1, ?_⟩
  rw [contains_eq_mem, decide_eq_false_iff_not] at h ⊢
  exact fun hm => h.2 (hs hm)

/-- The fields of a destination have only characters of it. -/
theorem joined_subset {value : Text} (htrim : .trim value = scheme ++ userAt user (if port = [] then text else text ++ ':' :: port)) :
    joined user text port ⊆ .trim value := by
  intro c hc
  rw [htrim, mem_append]
  right
  rw [joined, userAt] at hc
  rw [userAt]
  split_ifs at hc ⊢ <;> (simp_all; try tauto)

theorem joined_default : joined user text (if port = "22".toList then [] else port) = joined user text port := by
  rw [joined, joined]
  by_cases h : port = "22".toList
  · rw [if_pos h, if_pos (.inl rfl), if_pos (.inr h)]
  · rw [if_neg h]

theorem isBad_of_isHexDigit (h : isHexDigit c = true) : isBad c = false := by
  have ha : ∀ n < 128, isHexDigit (Char.ofNat n) = true → isBad (Char.ofNat n) = false := by decide +kernel
  have hlt : c.toNat < 128 := by
    simp only [isHexDigit, Char.isDigit, Bool.or_eq_true, Bool.and_eq_true, decide_eq_true_eq, Char.le_def, UInt32.le_iff_toNat_le] at h
    have hv : c.toNat = c.val.toNat := rfl
    rcases h with (⟨-, h⟩ | ⟨-, h⟩) | ⟨-, h⟩ <;> exact lt_of_le_of_lt h (by decide)
  rw [← Char.ofNat_toNat c] at h ⊢
  exact ha c.toNat hlt h

theorem isBad_of_isIpv6 (h : isIpv6 host = true) (hc : c ∈ host) : isBad c = false := by
  rcases isIpv6_char h hc with hh | rfl | rfl
  · exact isBad_of_isHexDigit hh
  · decide
  · decide

theorem isBad_of_user (h : validSshUsername user = true) (hc : c ∈ user) : isBad c = false := by
  have hs : ",;&|<>\"'`\\?#".toList ⊆ ":/[],;&|<>\"'`\\?#".toList := by decide
  rw [validSshUsername, Bool.and_eq_true, Bool.not_eq_true', any_eq_false] at h
  have ha := h.2 c hc
  simp only [Bool.or_eq_true, not_or, contains_iff_mem, Bool.not_eq_true] at ha
  rw [isBad, ha.1.1, ha.1.2, contains_eq_mem, Bool.false_or, Bool.false_or, decide_eq_false_iff_not]
  exact fun hm => ha.2 (hs hm)

end

/-- What is checked of the address of a user. -/
theorem validate_userAt (hu : validSshUsername user = true) (hrest : Plain rest) (hsf : (userAt user rest).any isBad = false) :
    validateSshDestination (userAt user rest) = (do
      let (host, port) ← hostAndPort rest
      validateHost host
      if port.any fun port => (parseU16 port).all fun port => port = 0 then throw .port) := by
  have hf : UserField user := .inr hu
  have htrim := @trim_userAt _ _ [] hf hrest (.inl rfl)
  have hs := @strip_scheme _ [] (.inl rfl) (slash_userAt hf hrest)
  have hat := @rsplit_userAt user _ hrest
  have hne : user ≠ [] := by
    rintro rfl
    exact absurd hu (by decide)
  rw [if_neg hne] at hat
  rw [nil_append] at htrim hs
  have hhd : (userAt user rest).head? ≠ some '-' := by
    rw [userAt, if_neg hne, head?_append_of_ne_nil _ hne]
    rw [validSshUsername, Bool.and_eq_true, Bool.and_eq_true, decide_eq_true_eq] at hu
    exact hu.1.1
  rw [validateSshDestination, htrim]
  dsimp only
  rw [if_neg (by
    rw [not_or, Bool.not_eq_true]
    exact ⟨by simp [userAt, hne], hsf⟩)]
  rw [show stripPrefix "ssh://".toList (userAt user rest) = none from hs, Option.getD_none, if_neg hhd, hat]
  dsimp only
  rw [if_pos hu]
  rfl

/-- An IPv6 address without brackets is one whatever stands after its last colon. -/
theorem hostAndPort_group (h : HostField text host) (hform : text.head? ≠ some '[') (hcolon : ':' ∈ text) (hport : ':' ∉ port) :
    hostAndPort (text ++ ':' :: port) = .ok (text ++ ':' :: port, none) := by
  have hlast : rsplitOnce ':' (text ++ ':' :: port) = some (text, port) := rsplitOnce_eq_some.mpr ⟨rfl, hport⟩
  rcases h.form with ⟨rfl, -⟩ | rfl
  · exact absurd rfl hform
  · have hnone := stripPrefix_host h.host (':' :: port)
    simp [hostAndPort, hnone, hlast, hcolon]

/-- **A destination keeps its machine** when it is split into its fields and they are joined again. Fields that are joined to an accepted
destination denote its machine unless the address is an IPv6 address without brackets, a port other than the default one is given,
and the address is still one with the port as a group of it. -/
theorem destination_fields :
    (∀ value, validateSshDestination value = .ok () →
      ∃ destination, sshDestinationFromDraft (splitDestinationUser (splitDestinationPort value).1).1
          (splitDestinationUser (splitDestinationPort value).1).2 (splitDestinationPort value).2 = .ok destination ∧
        (denotes value).isSome ∧ denotes destination = denotes value) ∧
      ∀ user text host port n, validSshUsername user = true → HostField text host → parseU16 port = some n → 0 < n →
        ((∀ destination, sshDestinationFromDraft user text port = .ok destination → validateSshDestination destination = .ok () →
            denotes destination = some (user, host, n)) ↔
          text.head? = some '[' ∨ ':' ∉ text ∨ port = "22".toList ∨ validateHost (text ++ ':' :: port) ≠ .ok ()) := by
  refine ⟨fun value h => ?_, fun user text host port n hu h hport hpos => ?_⟩
  · obtain ⟨scheme, user, text, host, port, hscheme, hu, hfield, htrim, hport, hchars⟩ := of_accepted h
    have hport' : (if port = "22".toList then [] else port) = [] ∨
        ∃ n, parseU16 (if port = "22".toList then [] else port) = some n ∧ 0 < n := by
      split
      · exact .inl rfl
      · exact hport.imp_right (·.2)
    have hsafe : (joined user text port).any isUnsafe = false :=
      any_eq_false.mpr fun c hc => by
        rw [isUnsafe_of_not_bad (eq_false_of_ne_true (any_eq_false.mp hchars c (joined_subset htrim hc)))]
        exact Bool.false_ne_true
    have hsplit : splitDestinationPort value = (scheme ++ userAt user text, if port = "22".toList then [] else port) := by
      rw [splitDestinationPort, ← Text.trim_trim, ← splitDestinationPort, htrim]
      split
      · rename_i hnil
        subst hnil
        exact splitDestinationPort_userAt hu hfield.plain hscheme (reads_text hfield).1 (.inl rfl)
      · rename_i hne
        obtain ⟨hform, n, hn, -⟩ := hport.resolve_left hne
        have hcolon := port_not_mem (c := ':') hn (by decide) (by decide)
        exact splitDestinationPort_userAt hu (hfield.plain_port hn) hscheme (reads_port hfield hform hcolon hn).1 (.inr (by rw [hn]; rfl))
    have hdenotes : denotes value = denotes (.trim value) := by rw [denotes, denotes, Text.trim_trim]
    have huser := splitDestinationUser_userAt hu hfield.plain hscheme
    rw [hsplit]
    dsimp only
    rw [huser, hdenotes, htrim]
    refine ⟨joined user text port, ?_, ?_⟩
    · rw [draft_eq hu hfield hport', joined_default, hsafe]
      rfl
    · split
      · rename_i hnil
        subst hnil
        have heq := denotes_userAt hu hfield.plain hscheme
        have heq' := @denotes_userAt _ _ [] hu hfield.plain (.inl rfl)
        rw [(reads_text hfield).2] at heq heq'
        rw [heq]
        exact ⟨rfl, heq'⟩
      · rename_i hne
        obtain ⟨hform, n, hn, -⟩ := hport.resolve_left hne
        have hcolon := port_not_mem (c := ':') hn (by decide) (by decide)
        have heq := denotes_userAt hu (hfield.plain_port hn) hscheme
        rw [(reads_port hfield hform hcolon hn).2] at heq
        rw [heq, denotes_joined hu hfield hn (.inr hform)]
        exact ⟨rfl, rfl⟩
  · have hdraft := draft_eq (.inr hu) h (.inr ⟨n, hport, hpos⟩)
    have hcolon' := port_not_mem (c := ':') hport (by decide) (by decide)
    have hplain := h.plain_port hport
    by_cases hform : text.head? = some '[' ∨ ':' ∉ text ∨ port = "22".toList
    · refine iff_of_true (fun destination hdestination _ => ?_) (by tauto)
      rw [hdraft] at hdestination
      split at hdestination
      · exact nomatch hdestination
      cases hdestination
      exact denotes_joined (.inr hu) h hport (by tauto)
    · have hother := hform
      simp only [not_or, not_not] at hform
      obtain ⟨hhead, hcolon, hdefault⟩ := hform
      obtain ⟨rfl, -, hread⟩ := reads_group h hhead hcolon hcolon'
      have hgroup := hostAndPort_group h hhead hcolon hcolon'
      have hjoined : joined user text port = userAt user (text ++ ':' :: port) := by
        rw [joined, if_neg (not_or.mpr ⟨(parseU16_char hport).1, hdefault⟩)]
      have htrim := @trim_userAt _ _ [] (.inr hu) hplain (.inl rfl)
      rw [nil_append] at htrim
      have hcheck (hsafe : (userAt user (text ++ ':' :: port)).any isBad = false) :
          validateSshDestination (userAt user (text ++ ':' :: port)) = .ok () ↔ validateHost (text ++ ':' :: port) = .ok () := by
        rw [validate_userAt hu hplain hsafe, hgroup]
        change (validateHost (text ++ ':' :: port)).bind _ = _ ↔ _
        cases validateHost (text ++ ':' :: port) with
        | ok => exact iff_of_true rfl rfl
        | error e => exact iff_of_false nofun nofun
      rw [hdraft, hjoined]
      constructor
      · refine fun hall => .inr (.inr (.inr fun hhost => ?_))
        have hipv6 : isIpv6 (text ++ ':' :: port) = true := by
          rcases (validateHost_cases hhost).2.2 with ⟨-, hipv6⟩ | ⟨hnot, -⟩
          · exact hipv6
          · exact absurd (mem_append_right _ mem_cons_self) hnot
        have hsafe : (userAt user (text ++ ':' :: port)).any isBad = false := by
          refine any_eq_false.mpr fun c hc => Bool.not_eq_true _ ▸ ?_
          rw [userAt] at hc
          split at hc
          · exact isBad_of_isIpv6 hipv6 hc
          rcases mem_append.mp hc with hc | hc
          · exact isBad_of_user hu hc
          rcases mem_cons.mp hc with rfl | hc
          · decide
          · exact isBad_of_isIpv6 hipv6 hc
        have hsafe' : (userAt user (text ++ ':' :: port)).any isUnsafe = false :=
          any_eq_false.mpr fun c hc => by
            rw [isUnsafe_of_not_bad (eq_false_of_ne_true (any_eq_false.mp hsafe c hc))]
            exact Bool.false_ne_true
        rw [hsafe'] at hall
        have heq := hall _ rfl ((hcheck hsafe).mpr hhost)
        have heq' := @denotes_userAt _ _ [] (.inr hu) hplain (.inl rfl)
        rw [hread] at heq'
        have hsame := heq'.symm.trans heq
        simp at hsame
      · intro hnot destination hdestination hvalid
        split at hdestination
        · exact nomatch hdestination
        cases hdestination
        obtain ⟨-, -, -, -, -, -, -, -, -, -, hsafe⟩ := of_accepted hvalid
        rw [htrim] at hsafe
        have hhost := (hcheck hsafe).mp hvalid
        tauto

end

/-- A port after an IPv6 address without brackets is taken for a group of it: the fields denote another machine. -/
theorem fields_other_machine : ∃ alphanumeric : Alphanumeric, ∃ destination,
    sshDestinationFromDraft "root".toList "fe80::1".toList "2222".toList = .ok destination ∧
      @validateSshDestination alphanumeric destination = .ok () ∧ denotes destination = some ("root".toList, "fe80::1:2222".toList, 22) :=
  ⟨⟨Char.isAlphanum, fun _ _ => rfl⟩, "root@fe80::1:2222".toList, rfl, by decide, by decide⟩

end Pebrel.Ssh
