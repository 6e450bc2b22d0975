import Pebrel.Stream.Sniffer

/-!
# Controls that are too long

`CwdSniffer` keeps no more of a payload than its cap. `Reader` is the machine
that keeps all of it: its controls are those of the stream, and the events that
the sniffer is to publish are those of the controls within their caps.

The sniffer stops keeping a payload that has come to its cap, and clears
`interested`, but reads most payloads without a look at it. `Unreported` says when
nothing comes of the bytes that are left, and `events_iff` that the sniffer
publishes what it is to publish just if this is so for each payload over its cap.
-/

namespace Pebrel.Stream

open Library List Option Text
open Mealy (outputs run run_cons)
open CwdSniffer (cap)

theorem append_ne {p q : Bytes} (hp : ¬p <+: q) (hq : ¬q <+: p) (r r' : Bytes) : p ++ r ≠ q ++ r' := by
  intro h
  rcases prefix_or_prefix_of_prefix (h ▸ prefix_append p r) (prefix_append q r') with h | h
  · exact hp h
  · exact hq h

/-! ### The whole controls of a stream -/

/-- A control of the stream. -/
inductive Control where
  | osc (payload : Bytes) (terminatorLen : ℕ)
  | apc (payload : Bytes)
  | reset
  | cellSizeQuery

/-- A machine that reads the controls of a stream. -/
structure Reader where
  phase : Phase
  payload : Bytes

namespace Reader

def default : Reader := ⟨.ground, []⟩

/-- The reader after an escape character and one more byte. -/
def stepEscape (b : UInt8) : Reader × Option Control :=
  if b = 0x5b then (⟨.csi 0, []⟩, none)
  else if b = 0x5d then (⟨.osc, []⟩, none)
  else if b = 0x5f then (⟨.apc, []⟩, none)
  else if b = 0x63 then (default, some .reset)
  else if b ≤ 0x17 ∨ b = 0x19 ∨ 0x1b ≤ b ∧ b ≤ 0x1f ∨ b = 0x7f then (⟨.esc, []⟩, none)
  else (default, none)

/-- The reader after one more byte. -/
def step (r : Reader) (b : UInt8) : Reader × Option Control :=
  match r.phase with
  | .ground => (if b = 0x1b then ⟨.esc, []⟩ else r, none)
  | .esc => stepEscape b
  | .csi matched =>
    if b = 0x1b then (⟨.esc, []⟩, none)
    else if b = 0x18 ∨ b = 0x1a then (default, none)
    else if 0x40 ≤ b ∧ b ≤ 0x7e then (default, if matched = 2 ∧ b = 0x74 then some .cellSizeQuery else none)
    else (⟨.csi (if (ascii "16")[matched]? = some b then matched + 1 else 3), []⟩, none)
  | .osc =>
    if b = 0x07 then (default, some (.osc r.payload 1))
    else if b = 0x18 ∨ b = 0x1a then (default, none)
    else if b = 0x1b then ({ r with phase := .oscEsc }, none)
    else ({ r with payload := r.payload ++ [b] }, none)
  | .oscEsc => if b = 0x5c then (default, some (.osc r.payload 2)) else stepEscape b
  | .apc =>
    if b = 0x18 ∨ b = 0x1a then (default, none)
    else if b = 0x1b then ({ r with phase := .apcEsc }, none)
    else ({ r with payload := r.payload ++ [b] }, none)
  | .apcEsc => if b = 0x5c then (default, some (.apc r.payload)) else stepEscape b

/-- The controls of a stream, each with the offset just past its last byte. -/
def controls (bytes : Bytes) : List (ℕ × Control) := outputs step default bytes

end Reader

namespace CwdSniffer

/-! ### What is kept of a payload -/

/-- The sniffer after the payload of an OSC. -/
def pushed (payload : Bytes) : CwdSniffer := payload.foldl push ⟨.osc, [], true⟩

/-- The sniffer after the payload of an APC. -/
def pushedApc (payload : Bytes) : CwdSniffer := payload.foldl pushApc ⟨.apc, [], true⟩

variable {payload : Bytes}

theorem pushed_concat (payload : Bytes) (b : UInt8) : pushed (payload ++ [b]) = (pushed payload).push b := by simp [pushed]

theorem pushedApc_concat (payload : Bytes) (b : UInt8) : pushedApc (payload ++ [b]) = (pushedApc payload).pushApc b := by
  simp [pushedApc]

theorem cap_of_le (more : Bytes) (h : 16 ≤ payload.length) : cap (payload ++ more) = cap payload := by
  have hp : ∀ start : Bytes, start.length ≤ 16 → (start.isPrefixOf (payload ++ more) = start.isPrefixOf payload) := by
    intro start hst
    rw [Bool.eq_iff_iff, isPrefixOf_iff_prefix, isPrefixOf_iff_prefix]
    exact ⟨fun h' => prefix_of_prefix_length_le h' (prefix_append _ _) (by omega), fun h' => h'.trans (prefix_append _ _)⟩
  simp only [cap, hp (ascii "1337;") (by decide), hp (ascii "777;pebrel-view;") (by decide),
    hp (ascii "777;nebula-hook;") (by decide)]

theorem maxPayload_le_cap (payload : Bytes) : maxPayload ≤ cap payload := by
  simp only [cap]
  split_ifs <;> decide

theorem cap_concat (h : maxPayload ≤ payload.length) (b : UInt8) : cap (payload ++ [b]) = cap payload :=
  cap_of_le _ (Nat.le_trans (by decide) h)

/-- A payload is kept up to its cap, or as far as it could be of interest. -/
theorem pushed_eq (payload : Bytes) : pushed payload = ⟨.osc, payload.take (cap payload), decide (payload.length ≤ cap payload)⟩ ∨
      ∃ i ≤ 4, i ≤ payload.length ∧ pushed payload = ⟨.osc, payload.take i, false⟩ ∧ prefixCouldMatch (payload.take i) = false := by
  induction payload using reverseRecOn with
  | nil => exact .inl (by simp [pushed])
  | append_singleton payload b ih =>
    have hpush := pushed_concat payload b
    have hc := maxPayload_le_cap payload
    have hc' := maxPayload_le_cap (payload ++ [b])
    rcases ih with ih | ⟨i, hi, hl, ih, hm⟩
    · rcases Nat.lt_or_ge (cap payload) payload.length with hover | hle
      · refine .inl ?_
        have htk : (payload ++ [b]).take (cap payload) = payload.take (cap payload) := by
          rw [take_append_of_le_length (by omega)]
        rw [hpush, ih, cap_concat (by omega), htk, decide_eq_false (by omega : ¬payload.length ≤ cap payload),
          decide_eq_false (by rw [length_append]; simp only [length_singleton]; omega), push, if_pos rfl]
      · rw [take_of_length_le hle, decide_eq_true hle] at ih
        rw [hpush, ih]
        simp only [push, Bool.true_eq_false, if_false]
        rcases Nat.eq_or_lt_of_le hle with heq | hlt
        · refine .inl ?_
          rw [if_pos (by omega), cap_concat (by omega), take_append_of_le_length (by omega), take_of_length_le (by omega),
            decide_eq_false (by rw [length_append]; simp only [length_singleton]; omega)]
        rw [if_neg (by omega)]
        have hl : (payload ++ [b]).length ≤ cap (payload ++ [b]) := by
          rw [length_append, length_singleton]
          rcases Nat.lt_or_ge payload.length maxPayload with h | h
          · omega
          · rw [cap_concat h]
            omega
        cases hdr : (decide ((payload ++ [b]).length ≤ 4) && !prefixCouldMatch (payload ++ [b])) with
        | true =>
          simp only [Bool.and_eq_true, decide_eq_true_eq, Bool.not_eq_true'] at hdr
          refine .inr ⟨(payload ++ [b]).length, hdr.1, le_rfl, ?_⟩
          rw [take_length]
          exact ⟨by simp, hdr.2⟩
        | false =>
          refine .inl ?_
          rw [take_of_length_le hl, decide_eq_true hl]
          simp
    · refine .inr ⟨i, hi, by rw [length_append]; omega, ?_⟩
      rw [hpush, ih, push, if_pos rfl, take_append_of_le_length hl]
      exact ⟨rfl, hm⟩

/-- The payload of an APC is kept up to the cap if it is of interest. -/
theorem pushedApc_eq (payload : Bytes) : pushedApc payload = ⟨.apc, payload.take maxApcPayload, decide (payload.length ≤ maxApcPayload)⟩ ∨
      pushedApc payload = ⟨.apc, [], false⟩ ∧ ∃ b rest, payload = b :: rest ∧ b ≠ 0x47 := by
  have hp : 0 < maxApcPayload := by decide
  induction payload using reverseRecOn with
  | nil => exact .inl (by simp [pushedApc])
  | append_singleton payload b ih =>
    have hpush := pushedApc_concat payload b
    have hl : (payload ++ [b]).length = payload.length + 1 := by simp
    rcases ih with ih | ⟨ih, c, rest, rfl, hc⟩
    · rcases Nat.lt_or_ge maxApcPayload payload.length with hover | hle
      · refine .inl ?_
        rw [hpush, ih, decide_eq_false (by omega : ¬payload.length ≤ maxApcPayload), decide_eq_false (by omega), pushApc,
          if_pos rfl, take_append_of_le_length (by omega)]
      · rw [take_of_length_le hle, decide_eq_true hle] at ih
        rw [hpush, ih]
        simp only [pushApc, Bool.true_eq_false, if_false]
        by_cases ho : payload = [] ∧ b ≠ 0x47
        · rw [if_pos ho, ho.1]
          exact .inr ⟨rfl, b, [], rfl, ho.2⟩
        refine .inl ?_
        rw [if_neg ho]
        rcases Nat.eq_or_lt_of_le hle with heq | hlt
        · rw [if_pos (by omega), decide_eq_false (by omega), take_append_of_le_length (by omega), take_of_length_le hle]
        · rw [if_neg (by omega), decide_eq_true (by omega), take_of_length_le (by omega)]
    · refine .inr ⟨?_, c, rest ++ [b], rfl, hc⟩
      rw [hpush, ih, pushApc, if_pos rfl]

theorem pushed_phase (payload : Bytes) : (pushed payload).phase = .osc := by
  rcases pushed_eq payload with h | ⟨i, -, -, h, -⟩ <;> rw [h]

theorem pushedApc_phase (payload : Bytes) : (pushedApc payload).phase = .apc := by
  rcases pushedApc_eq payload with h | ⟨h, -⟩ <;> rw [h]

theorem pushed_eta (payload : Bytes) : (⟨.osc, (pushed payload).payload, (pushed payload).interested⟩ : CwdSniffer) = pushed payload := by
  rw [← pushed_phase payload]

theorem pushedApc_eta (payload : Bytes) :
    (⟨.apc, (pushedApc payload).payload, (pushedApc payload).interested⟩ : CwdSniffer) = pushedApc payload := by
  rw [← pushedApc_phase payload]

/-- A payload never comes to more than its cap. -/
theorem length_pushed_le (payload : Bytes) : (pushed payload).payload.length ≤ cap (pushed payload).payload := by
  rcases pushed_eq payload with h | ⟨i, hi, hl, h, -⟩
  · rw [h]
    rcases Nat.lt_or_ge (cap payload) payload.length with hover | hle
    · have hc := maxPayload_le_cap payload
      have hsp := cap_of_le (payload.drop (cap payload)) (show 16 ≤ (payload.take (cap payload)).length by
        rw [length_take]
        simp only [maxPayload] at hc
        omega)
      rw [take_append_drop] at hsp
      simp only [length_take, ← hsp]
      omega
    · simp only [take_of_length_le hle]
      exact hle
  · have hc := maxPayload_le_cap (payload.take i)
    rw [h]
    simp only [length_take, maxPayload] at hc ⊢
    omega

theorem length_pushedApc_le (payload : Bytes) : (pushedApc payload).payload.length ≤ maxApcPayload := by
  rcases pushedApc_eq payload with h | ⟨h, -⟩
  · rw [h]
    exact length_take_le _ _
  · rw [h]
    exact Nat.zero_le _

/-- What could not match is the start of nothing that is read. -/
theorem not_prefix_of_dropped {i : ℕ} (h : prefixCouldMatch (payload.take i) = false) :
    ∀ start ∈ ["7;", "9;", "133;", "1337;", "777;", "7501;"], ¬ascii start <+: payload := by
  intro start hst hp
  rw [prefixCouldMatch, List.any_eq_false] at h
  refine h start hst ?_
  rw [Bool.or_eq_true, isPrefixOf_iff_prefix, isPrefixOf_iff_prefix]
  exact prefix_or_prefix_of_prefix (List.take_prefix i payload) hp

/-! ### Following the controls -/

/-- The sniffer has kept of the payload what it keeps, and nothing outside of a control. -/
def Follows (s : CwdSniffer) (r : Reader) : Prop :=
  s.phase = r.phase ∧
    match r.phase with
    | .osc | .oscEsc => (s.payload, s.interested) = ((pushed r.payload).payload, (pushed r.payload).interested)
    | .apc | .apcEsc => (s.payload, s.interested) = ((pushedApc r.payload).payload, (pushedApc r.payload).interested)
    | _ => s.payload = []

/-- The buffer is within the cap of its payload. -/
def Bounded (s : CwdSniffer) : Prop :=
  match s.phase with
  | .apc | .apcEsc => s.payload.length ≤ maxApcPayload
  | _ => s.payload.length ≤ cap s.payload

theorem Follows.bounded {s : CwdSniffer} {r : Reader} (h : Follows s r) : s.Bounded := by
  obtain ⟨hph, hk⟩ := h
  obtain ⟨phase, payload, interested⟩ := s
  obtain ⟨phase', full⟩ := r
  obtain rfl : phase = phase' := hph
  cases phase with
  | osc | oscEsc =>
    obtain ⟨rfl, -⟩ := Prod.mk.inj hk
    exact length_pushed_le full
  | apc | apcEsc =>
    obtain ⟨rfl, -⟩ := Prod.mk.inj hk
    exact length_pushedApc_le full
  | ground | esc | csi =>
    obtain rfl : payload = [] := hk
    exact Nat.zero_le _

end CwdSniffer

section
variable [Decode]

/-- What the sniffer publishes at the end of a control. -/
def Control.published : Control → Option OscEvent
  | .osc payload terminatorLen => (CwdSniffer.pushed payload).parse terminatorLen
  | .apc payload => (CwdSniffer.pushedApc payload).parseApc
  | .reset => some .programStatusReset
  | .cellSizeQuery => some .cellSizeQuery

open Control (apc osc published)

/-- What is to be published at the end of a control: what all of a payload says that is within its cap. -/
def Control.event : Control → Option OscEvent
  | .osc payload terminatorLen =>
    if payload.length ≤ cap payload then CwdSniffer.parse ⟨.osc, payload, true⟩ terminatorLen else none
  | .apc payload => if payload.length ≤ maxApcPayload then CwdSniffer.parseApc ⟨.apc, payload, true⟩ else none
  | .reset => some .programStatusReset
  | .cellSizeQuery => some .cellSizeQuery

namespace CwdSniffer

variable {s : CwdSniffer} {rest kept : Bytes} {terminatorLen : ℕ}

theorem Follows.stepEscape (hs : s.payload = []) (b : UInt8) : Follows (s.stepEscape b).1 (Reader.stepEscape b).1 ∧
      (s.stepEscape b).2 = (Reader.stepEscape b).2.bind published := by
  simp only [CwdSniffer.stepEscape, Reader.stepEscape]
  split_ifs
  all_goals simp [Follows, Reader.default, resetToGround, pushed, pushedApc, published, hs]

/-- The sniffer follows the controls. -/
theorem Follows.step (s : CwdSniffer) (r : Reader) (b : UInt8) (h : Follows s r) :
    Follows (s.step b).1 (r.step b).1 ∧ (s.step b).2 = (r.step b).2.bind published := by
  obtain ⟨hph, hk⟩ := h
  obtain ⟨phase, payload, interested⟩ := s
  obtain ⟨phase', full⟩ := r
  obtain rfl : phase = phase' := hph
  cases phase with
  | ground =>
    simp only [CwdSniffer.step, Reader.step] at hk ⊢
    split_ifs <;> simp [Follows, hk]
  | esc => exact Follows.stepEscape hk b
  | csi matched =>
    simp only [CwdSniffer.step, Reader.step] at hk ⊢
    split_ifs <;> simp [Follows, Reader.default, published, hk]
  | osc =>
    obtain ⟨rfl, rfl⟩ := Prod.mk.inj hk
    simp only [CwdSniffer.step, Reader.step, CwdSniffer.stepOsc]
    split_ifs
    · exact ⟨⟨rfl, rfl⟩, rfl⟩
    · exact ⟨⟨rfl, rfl⟩, rfl⟩
    · exact ⟨⟨rfl, rfl⟩, rfl⟩
    rw [pushed_eta]
    refine ⟨⟨?_, ?_⟩, rfl⟩
    · rw [← pushed_concat]
      exact pushed_phase _
    · simp only [pushed_concat]
  | apc =>
    obtain ⟨rfl, rfl⟩ := Prod.mk.inj hk
    simp only [CwdSniffer.step, Reader.step, CwdSniffer.stepApc]
    split_ifs
    · exact ⟨⟨rfl, rfl⟩, rfl⟩
    · exact ⟨⟨rfl, rfl⟩, rfl⟩
    rw [pushedApc_eta]
    refine ⟨⟨?_, ?_⟩, rfl⟩
    · rw [← pushedApc_concat]
      exact pushedApc_phase _
    · simp only [pushedApc_concat]
  | oscEsc | apcEsc =>
    obtain ⟨rfl, rfl⟩ := Prod.mk.inj hk
    simp only [CwdSniffer.step, Reader.step]
    split_ifs
    · exact ⟨⟨rfl, rfl⟩, rfl⟩
    · exact Follows.stepEscape rfl b

/-! ### What is left of a payload over its cap -/

/-- Nothing is said by the bytes that are kept of a payload over its cap. -/
structure Unreported (kept : Bytes) : Prop where
  uri : ∀ rest, kept = ascii "7;" ++ rest → parseOsc7Uri rest = none
  directory : ∀ rest, kept = ascii "9;9;" ++ rest → ∀ c ∈ Text.trim (utf8Lossy rest), c = '/' ∨ c = '\\'
  userVar : ∀ rest, kept = ascii "1337;SetUserVar=" ++ rest → parseUserVar rest = none
  image : ∀ rest, kept = ascii "1337;" ++ rest → ¬ascii "SetUserVar=" <+: rest → Decode.osc1337Image rest = none
  hook : ∀ rest, kept = ascii "777;nebula-hook;" ++ rest → parseRemoteHook rest = none
  zone : ∀ rest, kept = ascii "133;" ++ rest → ∀ ch ∈ ascii "ABCD", rest ≠ [ch] ∧ ¬[ch, 0x3b] <+: rest
  progress : ∀ rest, kept = ascii "9;4;" ++ rest →
    ((rest.splitOn 0x3b)[0]?.bind utf8).bind (fun field => parseU8 (.trim field)) = none
  notification : ∀ rest, kept = ascii "9;" ++ rest → ¬ascii "9;" <+: rest → ¬ascii "4;" <+: rest →
    Text.trim (utf8Lossy rest) = []

theorem parseOsc99_eq_none_iff : parseOsc99 rest = none ↔ ∀ c ∈ Text.trim (utf8Lossy rest), c = '/' ∨ c = '\\' := by
  simp [parseOsc99, rdropWhile_eq_nil_iff, or_iff_not_imp_left]

theorem parseOsc1337_eq_none_iff : parseOsc1337 rest = none ↔ (∀ var, rest = ascii "SetUserVar=" ++ var → parseUserVar var = none) ∧
      (¬ascii "SetUserVar=" <+: rest → Decode.osc1337Image rest = none) := by
  simp only [parseOsc1337]
  cases h : stripPrefix (ascii "SetUserVar=") rest with
  | none =>
    rw [stripPrefix_eq_none_iff] at h
    simp only [map_eq_none_iff, h, not_false_iff, true_implies]
    exact ⟨fun hn => ⟨fun var heq => absurd (heq ▸ prefix_append _ _) h, hn⟩, fun hn => hn.2⟩
  | some var =>
    rw [stripPrefix_eq_some_iff] at h
    subst h
    simp

theorem parseOsc133_eq_none_iff : parseOsc133 rest = none ↔ ∀ ch ∈ ascii "ABCD", rest ≠ [ch] ∧ ¬[ch, 0x3b] <+: rest := by
  have hp : ∀ ch : UInt8, (rest ≠ [ch] ∧ ¬[ch, 0x3b] <+: rest) ↔
      (rest.head? == some ch && (rest.length == 1 || rest[1]? == some 0x3b)) = false := by
    intro ch
    rcases rest with _ | ⟨a, _ | ⟨b, rest⟩⟩
    · simp
    · simp
    · simp [cons_prefix_cons, eq_comm (a := ch), eq_comm (a := (0x3b : UInt8))]
  have habcd : ascii "ABCD" = [0x41, 0x42, 0x43, 0x44] := by decide
  simp only [habcd, forall_mem_cons, hp, parseOsc133]
  cases (rest.head? == some 0x41 && (rest.length == 1 || rest[1]? == some 0x3b)) <;>
    cases (rest.head? == some 0x42 && (rest.length == 1 || rest[1]? == some 0x3b)) <;>
    cases (rest.head? == some 0x43 && (rest.length == 1 || rest[1]? == some 0x3b)) <;>
    cases (rest.head? == some 0x44 && (rest.length == 1 || rest[1]? == some 0x3b)) <;> simp

theorem parseOsc9_eq_none_iff : parseOsc9 rest = none ↔ (∀ progress, rest = ascii "4;" ++ progress →
        ((progress.splitOn 0x3b)[0]?.bind utf8).bind (fun field => parseU8 (.trim field)) = none) ∧
      (¬ascii "4;" <+: rest → Text.trim (utf8Lossy rest) = []) := by
  simp only [parseOsc9]
  cases h : stripPrefix (ascii "4;") rest with
  | none =>
    rw [stripPrefix_eq_none_iff] at h
    simp only [ne_eq, ite_not, h, not_false_iff, true_implies]
    constructor
    · intro hn
      refine ⟨fun progress heq => absurd (heq ▸ prefix_append _ _) h, ?_⟩
      split at hn
      · assumption
      · cases hn
    · intro hn
      rw [if_pos hn.2]
  | some progress =>
    rw [stripPrefix_eq_some_iff] at h
    subst h
    simp only [bind_eq_bind, append_right_inj, forall_eq', prefix_append, not_true, false_implies, and_true]
    cases ((progress.splitOn 0x3b)[0]?.bind utf8).bind fun field => parseU8 (trim field) with
    | none => simp
    | some state => simp

/-- The starts of the payloads that are read without a look at their lengths. -/
def looseStarts : List Bytes := [ascii "7;", ascii "9;", ascii "1337;", ascii "777;nebula-hook;", ascii "133;"]

/-- A payload of another kind says nothing. -/
theorem Unreported.of_other (h : ∀ start ∈ looseStarts, ¬start <+: kept) : Unreported kept := by
  have hoth : ∀ start ∈ looseStarts, ∀ rest, kept ≠ start ++ rest := fun start hst rest heq => h start hst (heq ▸ prefix_append _ _)
  simp only [looseStarts, forall_mem_cons] at hoth
  obtain ⟨hu, ho9, h1337, hhook, hzone, -⟩ := hoth
  exact ⟨fun rest heq => absurd heq (hu rest), fun rest heq => absurd heq (ho9 (ascii "9;" ++ rest)),
    fun rest heq => absurd heq (h1337 (ascii "SetUserVar=" ++ rest)), fun rest heq => absurd heq (h1337 rest),
    fun rest heq => absurd heq (hhook rest), fun rest heq => absurd heq (hzone rest),
    fun rest heq => absurd heq (ho9 (ascii "4;" ++ rest)), fun rest heq => absurd heq (ho9 rest)⟩

theorem unreported_strict {start : Bytes} (h : ∀ loose ∈ looseStarts, ¬loose <+: start ∧ ¬start <+: loose) :
    Unreported (start ++ rest) := by
  refine Unreported.of_other fun loose hl hp => ?_
  rcases prefix_or_prefix_of_prefix hp (prefix_append start rest) with hle | hle
  · exact (h loose hl).1 hle
  · exact (h loose hl).2 hle

theorem unreported_uri : Unreported (ascii "7;" ++ rest) ↔ parseOsc7Uri rest = none := by
  refine ⟨fun h => h.uri rest rfl, fun h => ⟨fun r heq => ?_, ?_, ?_, ?_, ?_, ?_, ?_, ?_⟩⟩
  · rwa [← append_cancel_left heq]
  all_goals exact fun r heq => absurd heq (append_ne (by decide) (by decide) _ _)

theorem unreported_directory : Unreported (ascii "9;9;" ++ rest) ↔ parseOsc99 rest = none := by
  rw [parseOsc99_eq_none_iff]
  refine ⟨fun h => h.directory rest rfl, fun h => ⟨?_, fun r heq => ?_, ?_, ?_, ?_, ?_, ?_, fun r heq hn => ?_⟩⟩
  case refine_2 => rwa [← append_cancel_left heq]
  case refine_8 =>
    obtain rfl : ascii "9;" ++ rest = r := (append_right_inj (ascii "9;")).1 heq
    exact absurd (prefix_append _ _) hn
  all_goals exact fun r heq => absurd heq (append_ne (by decide) (by decide) _ _)

theorem unreported_osc1337 : Unreported (ascii "1337;" ++ rest) ↔ parseOsc1337 rest = none := by
  rw [parseOsc1337_eq_none_iff]
  refine ⟨fun h => ⟨fun var heq => h.userVar var (by rw [heq]; rfl), h.image rest rfl⟩,
    fun h => ⟨?_, ?_, fun r heq => ?_, fun r heq hn => ?_, ?_, ?_, ?_, ?_⟩⟩
  case refine_3 => exact h.1 r ((append_right_inj (ascii "1337;")).1 heq)
  case refine_4 =>
    obtain rfl : rest = r := append_cancel_left heq
    exact h.2 hn
  all_goals exact fun r heq => absurd heq (append_ne (by decide) (by decide) _ _)

theorem unreported_hook : Unreported (ascii "777;nebula-hook;" ++ rest) ↔ parseRemoteHook rest = none := by
  refine ⟨fun h => h.hook rest rfl, fun h => ⟨?_, ?_, ?_, ?_, fun r heq => ?_, ?_, ?_, ?_⟩⟩
  case refine_5 => rwa [← append_cancel_left heq]
  all_goals exact fun r heq => absurd heq (append_ne (by decide) (by decide) _ _)

theorem unreported_zone : Unreported (ascii "133;" ++ rest) ↔ parseOsc133 rest = none := by
  rw [parseOsc133_eq_none_iff]
  refine ⟨fun h => h.zone rest rfl, fun h => ⟨?_, ?_, ?_, ?_, ?_, fun r heq => ?_, ?_, ?_⟩⟩
  case refine_6 => rwa [← append_cancel_left heq]
  all_goals exact fun r heq => absurd heq (append_ne (by decide) (by decide) _ _)

theorem unreported_osc9 (hn : ¬ascii "9;" <+: rest) : Unreported (ascii "9;" ++ rest) ↔ parseOsc9 rest = none := by
  rw [parseOsc9_eq_none_iff]
  refine ⟨fun h => ⟨fun progress heq => h.progress progress (by rw [heq]; rfl), h.notification rest rfl hn⟩,
    fun h => ⟨?_, fun r heq => ?_, ?_, ?_, ?_, ?_, fun r heq => ?_, fun r heq _ hp => ?_⟩⟩
  case refine_2 =>
    obtain rfl : rest = ascii "9;" ++ r := (append_right_inj (ascii "9;")).1 heq
    exact absurd (prefix_append _ _) hn
  case refine_7 => exact h.1 r ((append_right_inj (ascii "9;")).1 heq)
  case refine_8 =>
    obtain rfl : rest = r := append_cancel_left heq
    exact h.2 hp
  all_goals exact fun r heq => absurd heq (append_ne (by decide) (by decide) _ _)

/-- **A payload over its cap is published just if the bytes that are kept say something.** -/
theorem parse_dropped_iff {phase : Phase} : parse ⟨phase, kept, false⟩ terminatorLen = none ↔ Unreported kept := by
  simp only [parse]
  by_cases hview : (ascii "777;pebrel-view;").isPrefixOf kept
  · rw [if_pos hview]
    obtain ⟨rest, rfl⟩ := isPrefixOf_iff_prefix.1 hview
    exact iff_of_true (by simp) (unreported_strict (by decide))
  rw [if_neg hview]
  cases h7501 : stripPrefix (ascii "7501;") kept with
  | some body =>
    rw [stripPrefix_eq_some_iff] at h7501
    subst h7501
    exact iff_of_true (by simp) (unreported_strict (by decide))
  | none =>
  cases hu : stripPrefix (ascii "7;") kept with
  | some rest =>
    rw [stripPrefix_eq_some_iff] at hu
    subst hu
    rw [unreported_uri]
    exact map_eq_none_iff
  | none =>
  cases hd : stripPrefix (ascii "9;9;") kept with
  | some rest =>
    rw [stripPrefix_eq_some_iff] at hd
    subst hd
    exact unreported_directory.symm
  | none =>
  cases h1337 : stripPrefix (ascii "1337;") kept with
  | some rest =>
    rw [stripPrefix_eq_some_iff] at h1337
    subst h1337
    exact unreported_osc1337.symm
  | none =>
  cases hhook : stripPrefix (ascii "777;nebula-hook;") kept with
  | some rest =>
    rw [stripPrefix_eq_some_iff] at hhook
    subst hhook
    exact unreported_hook.symm
  | none =>
  cases hzone : stripPrefix (ascii "133;") kept with
  | some rest =>
    rw [stripPrefix_eq_some_iff] at hzone
    subst hzone
    exact unreported_zone.symm
  | none =>
  cases ho9 : stripPrefix (ascii "9;") kept with
  | some rest =>
    rw [stripPrefix_eq_some_iff] at ho9
    subst ho9
    refine (unreported_osc9 fun hp => ?_).symm
    obtain ⟨more, rfl⟩ := hp
    exact stripPrefix_eq_none_iff.1 hd ⟨more, rfl⟩
  | none =>
    refine iff_of_true rfl (Unreported.of_other ?_)
    simp only [looseStarts, forall_mem_cons]
    rw [stripPrefix_eq_none_iff] at hu h1337 hhook hzone ho9
    exact ⟨hu, ho9, h1337, hhook, hzone, nofun⟩

theorem parse_other (h : ∀ start ∈ ["7;", "9;", "133;", "1337;", "777;", "7501;"], ¬ascii start <+: s.payload) :
    s.parse terminatorLen = none := by
  simp only [forall_mem_cons] at h
  obtain ⟨hu, ho9, hzone, h1337, h777, h7501, -⟩ := h
  have hview : ¬ascii "777;pebrel-view;" <+: s.payload := fun h => h777 (.trans ⟨ascii "pebrel-view;", rfl⟩ h)
  have hhook : ¬ascii "777;nebula-hook;" <+: s.payload := fun h => h777 (.trans ⟨ascii "nebula-hook;", rfl⟩ h)
  have hd : ¬ascii "9;9;" <+: s.payload := fun h => ho9 (.trans ⟨ascii "9;", rfl⟩ h)
  rw [← stripPrefix_eq_none_iff] at hu ho9 hzone h1337 h7501 hhook hd
  simp only [parse, hu, ho9, hzone, h1337, h7501, hhook, hd]
  rw [if_neg (by rwa [List.isPrefixOf_iff_prefix])]

end CwdSniffer

namespace Control

variable {payload : Bytes} {c : Control}

/-- What is published of an APC is what is to be published. -/
theorem published_apc (payload : Bytes) : (apc payload).published = (apc payload).event := by
  simp only [published, event]
  rcases CwdSniffer.pushedApc_eq payload with h | ⟨h, b, rest, rfl, hb⟩
  · rw [h]
    split_ifs with hle
    · rw [take_of_length_le hle, decide_eq_true hle]
    · simp [CwdSniffer.parseApc, hle]
  · have hst : stripPrefix (ascii "G") (b :: rest) = none := by
      rw [stripPrefix_eq_none_iff, show ascii "G" = [0x47] by decide, cons_prefix_cons]
      exact fun h => hb h.1.symm
    rw [h]
    simp [CwdSniffer.parseApc, hst]

/-- What is published of an OSC within its cap is what is to be published. -/
theorem published_osc_of_le (h : payload.length ≤ cap payload) (terminatorLen : ℕ) :
    (osc payload terminatorLen).published = (osc payload terminatorLen).event := by
  simp only [published, event, if_pos h]
  rcases CwdSniffer.pushed_eq payload with heq | ⟨i, -, -, heq, hm⟩
  · rw [heq, take_of_length_le h, decide_eq_true h]
  · have hn := CwdSniffer.not_prefix_of_dropped hm
    rw [heq, CwdSniffer.parse_other fun start hst hs => hn start hst (hs.trans (List.take_prefix i payload))]
    exact (CwdSniffer.parse_other (s := ⟨.osc, payload, true⟩) hn).symm

/-- Of an OSC over its cap something is published just if the bytes that are kept say something. -/
theorem published_osc_of_lt (h : cap payload < payload.length) (terminatorLen : ℕ) :
    (osc payload terminatorLen).published = none ↔ CwdSniffer.Unreported (payload.take (cap payload)) := by
  rw [published]
  rcases CwdSniffer.pushed_eq payload with heq | ⟨i, -, -, heq, hm⟩
  · rw [heq, decide_eq_false (by omega)]
    exact CwdSniffer.parse_dropped_iff
  have hn := CwdSniffer.not_prefix_of_dropped hm
  rw [heq]
  refine iff_of_true (CwdSniffer.parse_other fun start hst hs => ?_) (CwdSniffer.Unreported.of_other fun start hst hs => ?_)
  · exact hn start hst (hs.trans (List.take_prefix i payload))
  have hp := hs.trans (List.take_prefix (cap payload) payload)
  simp only [CwdSniffer.looseStarts, mem_cons, not_mem_nil, or_false] at hst
  rcases hst with rfl | rfl | rfl | rfl | rfl
  · exact hn "7;" (by simp) hp
  · exact hn "9;" (by simp) hp
  · exact hn "1337;" (by simp) hp
  · exact hn "777;" (by simp) (IsPrefix.trans ⟨ascii "nebula-hook;", rfl⟩ hp)
  · exact hn "133;" (by simp) hp

/-- What is to be published is published. -/
theorem published_of_event (h : c.event ≠ none) : c.published = c.event := by
  cases c with
  | osc payload terminatorLen =>
    refine published_osc_of_le ?_ terminatorLen
    by_contra hover
    exact h (if_neg hover)
  | apc payload => exact published_apc payload
  | reset => rfl
  | cellSizeQuery => rfl

/-- Nothing else is published of a control, just if nothing is said by what is kept of a payload over its cap. -/
theorem published_eq_event_iff : c.published = c.event ↔ ∀ payload terminatorLen, c = .osc payload terminatorLen →
      cap payload < payload.length → CwdSniffer.Unreported (payload.take (cap payload)) := by
  cases c with
  | osc payload terminatorLen =>
    rcases Nat.lt_or_ge (cap payload) payload.length with hover | hle
    · rw [event, if_neg (by omega), published_osc_of_lt hover]
      constructor
      · rintro h payload' _ ⟨⟩ _
        exact h
      · exact fun h => h payload terminatorLen rfl hover
    · refine iff_of_true (published_osc_of_le hle terminatorLen) ?_
      rintro payload' _ ⟨⟩ hover
      omega
  | apc payload => exact iff_of_true (published_apc payload) nofun
  | reset => exact iff_of_true rfl nofun
  | cellSizeQuery => exact iff_of_true rfl nofun

end Control

namespace CwdSniffer

/-! ### What the sniffer publishes -/

/-- The events that the sniffer finds in the chunks, each with its offset in the stream. -/
def found (s : CwdSniffer) : List Bytes → List (ℕ × OscEvent)
  | [] => []
  | chunk :: chunks =>
    (s.feed chunk).2 ++ ((s.feed chunk).1.found chunks).map fun o => (o.1 + chunk.length, o.2)

theorem found_eq (s : CwdSniffer) (chunks : List Bytes) : s.found chunks = outputs step s chunks.flatten := by
  induction chunks generalizing s with
  | nil => rfl
  | cons chunk chunks ih => rw [found, feed_eq, ih, flatten_cons, Mealy.outputs_append]

/-- The sniffer after a stream has followed the controls in it. -/
theorem follows_run (bytes : Bytes) : Follows (run step default bytes) (run Reader.step Reader.default bytes) ∧
      outputs step default bytes = (Reader.controls bytes).filterMap fun o => o.2.published.map fun event => (o.1, event) :=
  Mealy.run_related step Follows.step (s := default) (t := Reader.default) ⟨rfl, rfl⟩ bytes

/-- The sniffer publishes what it is to publish, just if nothing is said by what it keeps of the payloads over their
caps. -/
theorem found_eq_iff (chunks : List Bytes) :
    default.found chunks = (Reader.controls chunks.flatten).filterMap (fun o => o.2.event.map fun event => (o.1, event)) ↔
      ∀ o ∈ Reader.controls chunks.flatten, ∀ payload terminatorLen, o.2 = .osc payload terminatorLen →
        cap payload < payload.length → Unreported (payload.take (cap payload)) := by
  have hi : ∀ (position : ℕ) (event event' : Option OscEvent),
      event.map (fun e => (position, e)) = event'.map (fun e => (position, e)) ↔ event = event' :=
    fun position _ _ => (map_injective fun _ _ h => (Prod.mk.inj h).2).eq_iff
  rw [found_eq, (follows_run _).2, Mealy.filterMap_eq_iff_of_le]
  · refine forall₂_congr fun o _ => ?_
    rw [hi]
    exact Control.published_eq_event_iff
  intro o _ hev
  rw [Control.published_of_event]
  intro hn
  exact hev (by rw [hn]; rfl)

/-- **The sniffer publishes the events of the controls within their caps**, and none of those over their caps, just if
nothing is said by the bytes that it keeps of these; its buffer is always within the cap. -/
theorem events_iff (chunks : List Bytes) :
    (default.found chunks = (Reader.controls chunks.flatten).filterMap (fun o => o.2.event.map fun event => (o.1, event)) ∧
        ∀ bytes, bytes <+: chunks.flatten → (default.feed bytes).1.Bounded) ↔
      ∀ o ∈ Reader.controls chunks.flatten, ∀ payload terminatorLen, o.2 = .osc payload terminatorLen →
        cap payload < payload.length → Unreported (payload.take (cap payload)) := by
  have hb : ∀ bytes, bytes <+: chunks.flatten → (default.feed bytes).1.Bounded := by
    intro bytes _
    rw [feed_eq]
    exact (follows_run bytes).1.bounded
  rw [iff_true_intro hb, and_true]
  exact found_eq_iff chunks

end CwdSniffer

end

/-! ### A notification over its cap -/

namespace Reader

theorem run_payload (start payload : Bytes) (h : ∀ b ∈ payload, b ≠ 0x07 ∧ b ≠ 0x18 ∧ b ≠ 0x1a ∧ b ≠ 0x1b) :
    run step ⟨.osc, start⟩ payload = ⟨.osc, start ++ payload⟩ ∧ outputs step ⟨.osc, start⟩ payload = [] := by
  induction payload generalizing start with
  | nil => simp [run, outputs]
  | cons b payload ih =>
    obtain ⟨hb, hr⟩ := forall_mem_cons.1 h
    have hst : step ⟨.osc, start⟩ b = (⟨.osc, start ++ [b]⟩, none) := by simp [step, hb]
    obtain ⟨hrun, ho⟩ := ih (start ++ [b]) hr
    rw [run_cons, outputs, hst, hrun, ho]
    simp

/-- The control that a payload between its introducer and a bell is. -/
theorem controls_osc (payload : Bytes) (h : ∀ b ∈ payload, b ≠ 0x07 ∧ b ≠ 0x18 ∧ b ≠ 0x1a ∧ b ≠ 0x1b) :
    (payload.length + 3, .osc payload 1) ∈ controls (0x1b :: 0x5d :: (payload ++ [0x07])) := by
  rw [controls, Mealy.mem_outputs_iff]
  refine ⟨0x1b :: 0x5d :: payload, 0x07, [], rfl, rfl, ?_⟩
  rw [run_cons, run_cons]
  exact congrArg (fun r => (step r 0x07).2) (run_payload [] payload h).1

end Reader

/-- The text of a notification. -/
def longText : Bytes := .replicate 5000 0x61

theorem mem_utf8Lossy (rest : Bytes) : 'a' ∈ utf8Lossy (0x61 :: rest) := by
  have hlead : utf8Lead 0x61 = some (0, 0x61, 0x80, 0xbf) := by decide
  rw [utf8Lossy, length_cons, utf8Chars, hlead, map_cons]
  exact mem_cons_self

/-- A long notification is published as far as it is kept. -/
theorem truncated_notification : ¬ ∀ (_ : Decode) (chunks : List Bytes), CwdSniffer.default.found chunks =
    (Reader.controls chunks.flatten).filterMap fun o => o.2.event.map fun event => (o.1, event) := by
  intro h
  let decode : Decode := ⟨Empty, Empty, fun _ => none, fun _ => none, fun _ => none, fun _ => none⟩
  have hall := (CwdSniffer.found_eq_iff _).1 (h decode [0x1b :: 0x5d :: (ascii "9;" ++ longText ++ [0x07])])
  have hcap : cap (ascii "9;" ++ longText) = maxPayload := rfl
  have hlen : (ascii "9;" ++ longText).length = 5002 := by
    rw [length_append, longText, length_replicate]
    rfl
  have hmem := Reader.controls_osc (ascii "9;" ++ longText) (by
    intro b hb
    rw [mem_append] at hb
    rcases hb with hb | hb
    · rw [show ascii "9;" = [0x39, 0x3b] from rfl, mem_pair] at hb
      rcases hb with rfl | rfl <;> decide
    · rw [eq_of_mem_replicate hb]
      decide)
  have hk := hall _ (by simpa using hmem) _ _ rfl (by rw [hcap, hlen]; decide)
  have htk : (ascii "9;" ++ longText).take maxPayload = ascii "9;" ++ 0x61 :: replicate 4093 0x61 := by
    rw [show maxPayload = (ascii "9;").length + 4094 from rfl, take_length_add_append, longText, take_replicate]
    rfl
  rw [hcap, htk] at hk
  have hnil := hk.notification _ rfl (by decide) (by decide)
  have hc : 'a' ∈ trim (utf8Lossy (0x61 :: replicate 4093 0x61)) := mem_trim_of_mem (mem_utf8Lossy _) (by decide)
  rw [hnil] at hc
  cases hc

end Pebrel.Stream
