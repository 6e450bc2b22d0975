import Pebrel.Library.Mealy
import Pebrel.Stream.Payload

/-!
# The sniffers

Two machines that read every byte of the stream before the VT parser does.
`CwdSniffer` (`osc_cwd.rs`) finds the controls that the VT parser drops;
`ZmodemSniffer` (`zmodem.rs`) finds the headers that open a ZMODEM session. Both
keep what they have read of an unfinished sequence, so a sequence that is split
between chunks is found all the same: what they find in a chunk is what the
machine, started in the state left by the chunks before, outputs in it.
-/

namespace Pebrel.Stream

open Library List Option
open Mealy (outputs run run_cons)

/-! ### Terminal controls -/

inductive Phase where
  | ground
  | esc
  | csi (matched : ℕ)
  | osc
  | oscEsc
  | apc
  | apcEsc
  deriving DecidableEq

structure CwdSniffer where
  phase : Phase
  payload : Bytes
  interested : Bool

def maxPayload : ℕ := 4096

def maxImagePayload : ℕ := 12 * 1024 * 1024

def maxHookPayload : ℕ := 96 * 1024

def maxApcPayload : ℕ := 1024 * 1024

def maxFrameBytes : ℕ := 48 * 1024

def prefixCouldMatch (payload : Bytes) : Bool :=
  ["7;", "9;", "133;", "1337;", "777;", "7501;"].any fun target =>
    payload.isPrefixOf (ascii target) || (ascii target).isPrefixOf payload

namespace CwdSniffer

def default : CwdSniffer := ⟨.ground, [], false⟩

def resetToGround (_ : CwdSniffer) : CwdSniffer := ⟨.ground, [], false⟩

/-- The cap on the payload, by how it starts. -/
def cap (payload : Bytes) : ℕ :=
  if (ascii "1337;").isPrefixOf payload then maxImagePayload
  else if (ascii "777;pebrel-view;").isPrefixOf payload then maxFrameBytes
  else if (ascii "777;nebula-hook;").isPrefixOf payload then maxHookPayload
  else maxPayload

def push (s : CwdSniffer) (b : UInt8) : CwdSniffer :=
  if s.interested = false then s
  else if s.payload.length ≥ cap s.payload then { s with interested := false }
  else
    let payload := s.payload ++ [b]
    if payload.length ≤ 4 && !prefixCouldMatch payload then { s with payload, interested := false }
    else { s with payload }

def pushApc (s : CwdSniffer) (b : UInt8) : CwdSniffer :=
  if s.interested = false then s
  else if s.payload = [] ∧ b ≠ 0x47 then { s with interested := false }
  else if s.payload.length ≥ maxApcPayload then { s with interested := false }
  else { s with payload := s.payload ++ [b] }

section
variable [Decode]

/-- `parse`: the event of a finished payload. -/
def parse (s : CwdSniffer) (terminatorLen : ℕ) : Option OscEvent :=
  if (ascii "777;pebrel-view;").isPrefixOf s.payload then
    if s.interested then (Decode.inlineContent s.payload).map .inlineContent else none
  else if let some body := stripPrefix (ascii "7501;") s.payload then
    if s.interested = false ∨ s.payload.length + 2 + terminatorLen > 4096 then none
    else (Decode.programStatus body).map .programStatus
  else if let some rest := stripPrefix (ascii "7;") s.payload then (parseOsc7Uri rest).map .cwd
  else if let some rest := stripPrefix (ascii "9;9;") s.payload then parseOsc99 rest
  else if let some rest := stripPrefix (ascii "1337;") s.payload then parseOsc1337 rest
  else if let some rest := stripPrefix (ascii "777;nebula-hook;") s.payload then parseRemoteHook rest
  else if let some rest := stripPrefix (ascii "133;") s.payload then parseOsc133 rest
  else if let some rest := stripPrefix (ascii "9;") s.payload then parseOsc9 rest
  else none

def parseApc (s : CwdSniffer) : Option OscEvent :=
  if s.interested = false then none
  else
    (stripPrefix (ascii "G") s.payload).bind fun body =>
      let control := body.takeWhile (· != 0x3b)
      let payload := body.drop (control.length + 1)
      if payload ≠ [] ∧ payload.all (fun b => isAsciiAlphanumeric b || b ∈ ascii "+/=") = false then none
      else some (.kittyGraphic control payload)

def stepEscape (s : CwdSniffer) (b : UInt8) : CwdSniffer × Option OscEvent :=
  if b = 0x5b then ({ s with phase := .csi 0 }, none)
  else if b = 0x5d then (⟨.osc, [], true⟩, none)
  else if b = 0x5f then (⟨.apc, [], true⟩, none)
  else if b = 0x63 then (s.resetToGround, some .programStatusReset)
  else if b ≤ 0x17 ∨ b = 0x19 ∨ 0x1b ≤ b ∧ b ≤ 0x1f ∨ b = 0x7f then ({ s with phase := .esc }, none)
  else ({ s with phase := .ground }, none)

def stepOsc (s : CwdSniffer) (b : UInt8) : CwdSniffer × Option OscEvent :=
  if b = 0x07 then (s.resetToGround, s.parse 1)
  else if b = 0x18 ∨ b = 0x1a then (s.resetToGround, none)
  else if b = 0x1b then ({ s with phase := .oscEsc }, none)
  else (s.push b, none)

def stepApc (s : CwdSniffer) (b : UInt8) : CwdSniffer × Option OscEvent :=
  if b = 0x18 ∨ b = 0x1a then (s.resetToGround, none)
  else if b = 0x1b then ({ s with phase := .apcEsc }, none)
  else (s.pushApc b, none)

/-- What `feed` does with one byte. -/
def step (s : CwdSniffer) (b : UInt8) : CwdSniffer × Option OscEvent :=
  match s.phase with
  | .ground => (if b = 0x1b then { s with phase := .esc } else s, none)
  | .esc => s.stepEscape b
  | .csi matched =>
    if b = 0x1b then ({ s with phase := .esc }, none)
    else if b = 0x18 ∨ b = 0x1a then ({ s with phase := .ground }, none)
    else if 0x40 ≤ b ∧ b ≤ 0x7e then
      ({ s with phase := .ground }, if matched = 2 ∧ b = 0x74 then some .cellSizeQuery else none)
    else ({ s with phase := .csi (if (ascii "16")[matched]? = some b then matched + 1 else 3) }, none)
  | .osc => s.stepOsc b
  | .oscEsc => if b = 0x5c then (s.resetToGround, s.parse 2) else s.resetToGround.stepEscape b
  | .apc => s.stepApc b
  | .apcEsc => if b = 0x5c then (s.resetToGround, s.parseApc) else s.resetToGround.stepEscape b

/-- `feed`: the events of a chunk, each with the offset just past its last byte. Plain output in
the ground phase is passed over without a look at every byte. -/
def feed (s : CwdSniffer) (bytes : Bytes) : CwdSniffer × List (ℕ × OscEvent) :=
  if s.phase = .ground ∧ 0x1b ∉ bytes then (s, [])
  else (run step s bytes, outputs step s bytes)

theorem step_ground {s : CwdSniffer} {b : UInt8} (hs : s.phase = .ground) (hb : b ≠ 0x1b) : s.step b = (s, none) := by
  rw [step, hs]
  simp only
  rw [if_neg hb]

/-- Plain output changes nothing. -/
theorem plain {s : CwdSniffer} {bytes : Bytes} (hs : s.phase = .ground) (hbs : 0x1b ∉ bytes) :
    run step s bytes = s ∧ outputs step s bytes = [] := by
  induction bytes with
  | nil => exact ⟨rfl, rfl⟩
  | cons b bytes ih =>
    obtain ⟨hr, ho⟩ := ih fun h => hbs (mem_cons_of_mem b h)
    have hst := step_ground hs fun hb : b = 0x1b => hbs (hb ▸ mem_cons_self)
    rw [run_cons, outputs, hst]
    exact ⟨hr, by rw [ho]; rfl⟩

/-- What is found in a chunk is what the machine outputs in it. -/
theorem feed_eq (s : CwdSniffer) (bytes : Bytes) : s.feed bytes = (run step s bytes, outputs step s bytes) := by
  unfold feed
  split
  · rename_i h
    obtain ⟨hr, ho⟩ := plain h.1 h.2
    rw [hr, ho]
  · rfl

end

end CwdSniffer

/-! ### ZMODEM headers -/

inductive ZmodemOffer where
  | upload
  | download
  deriving DecidableEq

/-- `zmodem::State`. -/
inductive ZmodemState where
  | idle
  | pad
  | pads
  | zdle
  | hex (count : ℕ)
  deriving DecidableEq

def zpad : UInt8 := 0x2a

def zdle : UInt8 := 0x18

def zhex : UInt8 := 0x42

def hexDigits : ℕ := 14

def abortSequence : Bytes := .replicate 10 0x18 ++ .replicate 10 0x08

structure ZmodemSniffer where
  state : ZmodemState
  digits : Bytes

/-- `crc16`: CRC-16/XMODEM. -/
def crc16 (bytes : Bytes) : BitVec 16 :=
  bytes.foldl (fun crc byte =>
    (List.range 8).foldl (fun crc _ => if crc &&& 0x8000#16 = 0#16 then crc <<< 1 else (crc <<< 1) ^^^ 0x1021#16)
      (crc ^^^ (BitVec.ofNat 16 byte.toNat <<< 8))) 0#16

namespace ZmodemSniffer

def default : ZmodemSniffer := ⟨.idle, .replicate hexDigits 0⟩

/-- The bytes that pairs of hex digits stand for. -/
def decodePairs : Bytes → Option Bytes
  | high :: low :: rest => do
    let high ← hexVal high
    let low ← hexVal low
    let rest ← decodePairs rest
    some ((high <<< 4 ||| low) :: rest)
  | _ => some []

def header (s : ZmodemSniffer) : Option ZmodemOffer :=
  (decodePairs s.digits).bind fun decoded =>
    let frame := decoded.take 5
    let crc := decoded.drop 5
    if crc16 frame ≠ .ofNat 16 (crc.foldl (fun n b => n * 256 + b.toNat) 0) then none
    else if frame.head? = some 0x00 then some .download
    else if frame.head? = some 0x01 then some .upload
    else none

def step (s : ZmodemSniffer) (byte : UInt8) : ZmodemSniffer × Option ZmodemOffer :=
  let other : ZmodemSniffer × Option ZmodemOffer := ({ s with state := if byte = zpad then .pad else .idle }, none)
  match s.state with
  | .idle => other
  | .pad => if byte = zpad then ({ s with state := .pads }, none) else other
  | .pads =>
    if byte = zpad then ({ s with state := .pads }, none)
    else if byte = zdle then ({ s with state := .zdle }, none)
    else if byte = zhex then ({ s with state := .hex 0 }, none)
    else other
  | .zdle => if byte = zhex then ({ s with state := .hex 0 }, none) else other
  | .hex count =>
    if isAsciiHexdigit byte then
      let digits := s.digits.set count byte
      if count + 1 < hexDigits then (⟨.hex (count + 1), digits⟩, none)
      else (⟨.idle, digits⟩, header ⟨.idle, digits⟩)
    else other

/-- `find_pad`: whole blocks of 16 bytes are tested first. -/
def findPad (bytes : Bytes) : Option ℕ :=
  let blocks := (List.range (bytes.length / 16)).map fun k => (bytes.drop (k * 16)).take 16
  let skipped := (blocks.takeWhile fun block => !block.any (· == zpad)).length * 16
  ((bytes.drop skipped).findIdx? (· == zpad)).map (skipped + ·)

/-- The loop of `feed`: in the idle state it goes on at the next pad. -/
def feedLoop : ℕ → ZmodemSniffer → Bytes → Option ZmodemOffer → ZmodemSniffer × Option ZmodemOffer
  | 0, s, _, offer => (s, offer)
  | fuel + 1, s, rest, offer =>
    match if s.state = .idle then (findPad rest).map fun start => rest.drop start else some rest with
    | none => (s, offer)
    | some [] => (s, offer)
    | some (byte :: rest) => feedLoop fuel (s.step byte).1 rest ((s.step byte).2.or offer)

/-- `feed`: the last header that a chunk completes. -/
def feed (s : ZmodemSniffer) (bytes : Bytes) : ZmodemSniffer × Option ZmodemOffer :=
  feedLoop bytes.length s bytes none

/-- The blocks only save time. -/
theorem findPad_eq (bytes : Bytes) : findPad bytes = bytes.findIdx? (· == zpad) := by
  unfold findPad
  simp only
  generalize hbl : ((range (bytes.length / 16)).map fun k => (bytes.drop (k * 16)).take 16) = blocks
  have htk : blocks.takeWhile (fun block => !block.any (· == zpad)) =
      blocks.take (blocks.takeWhile fun block => !block.any (· == zpad)).length :=
    prefix_iff_eq_take.mp (List.takeWhile_prefix _)
  have hc : ∀ block ∈ blocks.takeWhile (fun block => !block.any (· == zpad)), zpad ∉ block := by
    intro block hblo hm
    have ha := mem_takeWhile_imp hblo
    rw [Bool.not_eq_true', List.any_eq_false] at ha
    exact ha zpad hm (beq_self_eq_true zpad)
  have hl : (blocks.takeWhile fun block => !block.any (· == zpad)).length ≤ bytes.length / 16 := by
    have hle := (List.takeWhile_prefix (fun block => !block.any (· == zpad)) (l := blocks)).length_le
    rw [← hbl, length_map, length_range] at hle
    rwa [← hbl]
  generalize (blocks.takeWhile fun block => !block.any (· == zpad)).length = skipped at htk hl ⊢
  have hskip : zpad ∉ bytes.take (skipped * 16) := by
    rw [← Mealy.flatten_range_pieces, mem_flatten]
    rintro ⟨block, hblo, hm⟩
    refine hc block ?_ hm
    rw [htk, ← hbl, ← map_take, take_range, Nat.min_eq_left hl]
    exact hblo
  have hn : (bytes.take (skipped * 16)).findIdx? (· == zpad) = none := by
    rw [findIdx?_eq_none_iff]
    intro b hb
    rw [beq_eq_false_iff_ne]
    exact fun heq => hskip (heq ▸ hb)
  have hleng : (bytes.take (skipped * 16)).length = skipped * 16 := by
    rw [length_take]
    omega
  conv => rhs; rw [← take_append_drop (skipped * 16) bytes, findIdx?_append, hn, none_or, hleng]
  congr 1
  funext i
  exact Nat.add_comm _ _

/-- Without a pad nothing happens in the idle state. -/
theorem run_idle {s : ZmodemSniffer} (hs : s.state = .idle) {bytes : Bytes} (hbs : zpad ∉ bytes) :
    run step s bytes = s ∧ outputs step s bytes = [] := by
  induction bytes with
  | nil => exact ⟨rfl, rfl⟩
  | cons b bytes ih =>
    obtain ⟨hr, ho⟩ := ih fun h => hbs (mem_cons_of_mem b h)
    have hb : b ≠ zpad := fun heq => hbs (heq ▸ mem_cons_self)
    have hst : s.step b = (s, none) := by
      obtain ⟨state, digits⟩ := s
      subst hs
      rw [step, if_neg hb]
    rw [run_cons, outputs, hst]
    exact ⟨hr, by rw [ho]; rfl⟩

theorem feedLoop_eq {fuel : ℕ} {bytes : Bytes} (h : bytes.length ≤ fuel) (s : ZmodemSniffer) (offer : Option ZmodemOffer) :
    feedLoop fuel s bytes offer = (run step s bytes, ((outputs step s bytes).getLast?.map Prod.snd).or offer) := by
  induction fuel generalizing bytes s offer with
  | zero =>
    rw [eq_nil_of_length_eq_zero (Nat.le_zero.mp h)]
    rfl
  | succ fuel ih =>
    have hnx : ∀ byte rest, (byte :: rest).length ≤ fuel + 1 → feedLoop fuel (s.step byte).1 rest ((s.step byte).2.or offer) =
          (run step s (byte :: rest), ((outputs step s (byte :: rest)).getLast?.map Prod.snd).or offer) := by
      intro byte rest hl
      rw [ih (Nat.le_of_succ_le_succ hl), Mealy.getLast?_outputs_cons, run_cons, Option.or_assoc]
    unfold feedLoop
    by_cases hidle : s.state = .idle
    · rw [if_pos hidle, findPad_eq]
      cases hp : bytes.findIdx? (· == zpad) with
      | none =>
        have hm : zpad ∉ bytes := fun hm => by
          have := findIdx?_eq_none_iff.mp hp zpad hm
          simp at this
        obtain ⟨hr, ho⟩ := run_idle hidle hm
        rw [hr, ho]
        rfl
      | some start =>
        obtain ⟨hlt, -, hb⟩ := findIdx?_eq_some_iff_getElem.mp hp
        have hm : zpad ∉ bytes.take start := by
          intro hm
          obtain ⟨i, hi, hg⟩ := mem_iff_getElem.mp hm
          rw [length_take] at hi
          rw [getElem_take] at hg
          have := hb i (by omega)
          rw [hg] at this
          simp at this
        obtain ⟨hr, ho⟩ := run_idle hidle hm
        have hsp := take_append_drop start bytes
        rw [drop_eq_getElem_cons hlt] at hsp
        rw [map_some, drop_eq_getElem_cons hlt]
        simp only
        rw [hnx _ _ (by rw [length_cons, length_drop]; omega)]
        conv => rhs; rw [← hsp, Mealy.run_append, Mealy.outputs_append, hr, ho, nil_append, getLast?_map, Option.map_map]
        rfl
    · rw [if_neg hidle]
      cases bytes with
      | nil => rfl
      | cons byte rest => exact hnx byte rest h

/-- What is announced after a chunk is the last header that the machine outputs in it. -/
theorem feed_eq (s : ZmodemSniffer) (bytes : Bytes) :
    s.feed bytes = (run step s bytes, (outputs step s bytes).getLast?.map Prod.snd) := by
  rw [feed, feedLoop_eq le_rfl, or_none]

end ZmodemSniffer

end Pebrel.Stream
