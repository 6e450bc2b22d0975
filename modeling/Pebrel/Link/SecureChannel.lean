import Mathlib.Algebra.Order.Ring.Nat
import Mathlib.Data.Fin.Basic
import Pebrel.Library.Service

/-!
# The secure channel

Messages over an encrypted link (`link/src/crypto.rs`). A message is cut into
chunks; each of them travels in a packet of its own, with the size of the message
and the chunk's offset in it before the chunk, encrypted as one message of the
Noise transport. The other side puts the chunks together.

## The model

Noise is a parameter. Where its transport is needed to work, `NoiseLaws` say
how far: what one end writes, the other reads next, sixteen bytes longer and
unchanged, and a transport writes as many packets as it has nonces left.
-/

namespace Pebrel.Link

open Library List Option Nat Except
open Service (replies run run_cons)

abbrev Bytes := List UInt8

def maxPacket : ℕ := 65535

def maxMessage : ℕ := 2 * 1024 * 1024

/-- `CHUNK`. -/
def chunkSize : ℕ := 60 * 1024

def header : ℕ := 8

inductive LinkError where
  | credential
  | random
  | state
  | frame
  | authentication

/-- The Noise protocol: handshakes `H` and the transports `S` they end in. -/
class Noise (H S : Type) where
  /-- `HandshakeState::write_message` of an empty payload into 128 bytes. -/
  writeHandshake : H → Option (H × Bytes)
  /-- `HandshakeState::read_message`. -/
  readHandshake : H → Bytes → Option H
  /-- `is_handshake_finished`. -/
  finished : H → Bool
  /-- `get_handshake_hash`. -/
  handshakeHash : H → Bytes
  /-- `into_transport_mode`. -/
  intoTransport : H → Option S
  /-- `TransportState::write_message`. -/
  writeMessage : S → Bytes → Option (S × Bytes)
  /-- `TransportState::read_message`. -/
  readMessage : S → Bytes → Option (S × Bytes)

/-! ### Numbers in four bytes -/

def toBeBytes (n : ℕ) : Bytes :=
  [.ofNat (n / 2 ^ 24), .ofNat (n / 2 ^ 16), .ofNat (n / 2 ^ 8), .ofNat n]

def fromBeBytes (bytes : Bytes) : ℕ := bytes.foldl (fun n b => n * 256 + b.toNat) 0

theorem fromBeBytes_toBeBytes {n : ℕ} (h : n < 2 ^ 32) : fromBeBytes (toBeBytes n) = n := by
  simp only [fromBeBytes, toBeBytes, foldl_cons, foldl_nil, UInt8.toNat_ofNat']
  omega

@[simp] theorem length_toBeBytes (n : ℕ) : (toBeBytes n).length = 4 := rfl

/-! ### The channel -/

section
variable {H S : Type}

/-- `State`. -/
inductive ChannelState (H S : Type) where
  | handshake (h : H)
  | transport (s : S)
  | closed

structure SecureChannel (H S : Type) where
  state : ChannelState H S
  /-- What has come in of a message. -/
  assembly : Bytes
  /-- The size of the message that is coming in. -/
  expectedSize : ℕ
  verification : Option String

/-- The chunks of `message`, at most `chunkSize` bytes each (`chunks(CHUNK)`). -/
def chunksOf : ℕ → Bytes → List Bytes
  | 0, _ => []
  | fuel + 1, message =>
    if message.isEmpty then [] else message.take chunkSize :: chunksOf fuel (message.drop chunkSize)

/-- `message.chunks(CHUNK)`. -/
def chunks (message : Bytes) : List Bytes := chunksOf message.length message

/-- The plain text of a packet. -/
def plainPacket (total offset : ℕ) (chunk : Bytes) : Bytes := toBeBytes total ++ toBeBytes offset ++ chunk

namespace SecureChannel

def handshake (h : H) : SecureChannel H S := ⟨.handshake h, [], 0, none⟩

def close (_ : SecureChannel H S) : SecureChannel H S := ⟨.closed, [], 0, none⟩

/-- Close the channel after an error. -/
def closeOnError {α : Type} (r : SecureChannel H S × Except LinkError α) : SecureChannel H S × Except LinkError α :=
  match r.2 with
  | .ok _ => r
  | .error _ => (r.1.close, r.2)

variable [Noise H S]

/-- The six digits that both ends show. -/
def verificationCode (hash : Bytes) : String :=
  String.ofList (leftpad 6 '0' (Nat.toDigits 10 (fromBeBytes (hash.take 4) % 1000000)))

def finishHandshake (c : SecureChannel H S) : SecureChannel H S × Except LinkError Unit :=
  match c.state with
  | .handshake h =>
    if Noise.finished S h then
      let c := { c with state := .closed, verification := some (verificationCode (Noise.handshakeHash S h)) }
      match Noise.intoTransport h with
      | some s => ({ c with state := .transport s }, .ok ())
      | none => (c, .error .authentication)
    else (c, .ok ())
  | _ => (c, .ok ())

def writeHandshake (c : SecureChannel H S) : SecureChannel H S × Except LinkError Bytes :=
  match c.state with
  | .handshake h =>
    match Noise.writeHandshake S h with
    | some (h, bytes) =>
      let (c, result) := { c with state := .handshake h }.finishHandshake
      (c, result.map fun _ => bytes)
    | none => (c.close, .error .authentication)
  | _ => (c.close, .error .state)

def readHandshake (c : SecureChannel H S) (bytes : Bytes) : SecureChannel H S × Except LinkError Unit :=
  match c.state with
  | .handshake h =>
    if bytes.length ≤ 128 then
      match Noise.readHandshake S h bytes with
      | some h => { c with state := .handshake h }.finishHandshake
      | none => (c.close, .error .authentication)
    else (c.close, .error .authentication)
  | _ => (c.close, .error .authentication)

/-- The loop of `seal_inner` over the chunks, each at its offset. -/
def sealChunks (H : Type) {S : Type} [Noise H S] (total : ℕ) : ℕ → S → List Bytes → Option (S × List Bytes)
  | _, s, [] => some (s, [])
  | index, s, chunk :: rest =>
    (Noise.writeMessage H s (plainPacket total (index * chunkSize) chunk)).bind fun (s, packet) =>
      (sealChunks H total (index + 1) s rest).map fun (s, packets) => (s, packet :: packets)

def sealInner (c : SecureChannel H S) (message : Bytes) : SecureChannel H S × Except LinkError (List Bytes) :=
  if message.isEmpty || decide (message.length > maxMessage) then (c, .error .frame)
  else
    match c.state with
    | .transport s =>
      match sealChunks H message.length 0 s (chunks message) with
      | some (s, packets) => ({ c with state := .transport s }, .ok packets)
      | none => (c, .error .authentication)
    | _ => (c, .error .state)

/-- `seal`. -/
def sealMessage (c : SecureChannel H S) (message : Bytes) : SecureChannel H S × Except LinkError (List Bytes) :=
  closeOnError (c.sealInner message)

/-- Put the plain text of a packet to what has come in. -/
def assemble (c : SecureChannel H S) (plain : Bytes) : SecureChannel H S × Except LinkError (Option Bytes) :=
  if plain.length ≤ header then (c, .error .frame)
  else
    let total := fromBeBytes (plain.take 4)
    let offset := fromBeBytes ((plain.drop 4).take 4)
    let payload := plain.drop header
    if total == 0 || decide (total > maxMessage) || offset != c.assembly.length || decide (payload.length > chunkSize) ||
        decide (offset + payload.length > total) || (decide (offset > 0) && total != c.expectedSize) then
      (c, .error .frame)
    else
      let c := if offset == 0 then { c with expectedSize := total } else c
      let c := { c with assembly := c.assembly ++ payload }
      if c.assembly.length == total then ({ c with expectedSize := 0, assembly := [] }, .ok (some c.assembly))
      else (c, .ok none)

def openInner (c : SecureChannel H S) (packet : Bytes) : SecureChannel H S × Except LinkError (Option Bytes) :=
  if packet.length < header + 17 ∨ packet.length > maxPacket then (c, .error .frame)
  else
    match c.state with
    | .transport s =>
      match Noise.readMessage H s packet with
      | some (s, plain) => { c with state := .transport s }.assemble plain
      | none => (c, .error .authentication)
    | _ => (c, .error .state)

/-- `open`. -/
def openPacket (c : SecureChannel H S) (packet : Bytes) : SecureChannel H S × Except LinkError (Option Bytes) :=
  closeOnError (c.openInner packet)

end SecureChannel

/-! ### A channel in use -/

/-- What is asked of a channel. -/
inductive ChannelOp where
  | sealMessage (message : Bytes)
  | openPacket (packet : Bytes)
  | writeHandshake
  | readHandshake (bytes : Bytes)
  | close

/-- What a channel returns. -/
inductive ChannelOutput where
  | packets (packets : List Bytes)
  | data (message : Option Bytes)
  | handshake (bytes : Bytes)
  | accepted
  | closed

namespace ChannelOp

variable [Noise H S]

/-- One call, with what it returns. -/
def step (c : SecureChannel H S) : ChannelOp → SecureChannel H S × Except LinkError ChannelOutput
  | sealMessage message => let (c, r) := c.sealMessage message; (c, r.map .packets)
  | openPacket packet => let (c, r) := c.openPacket packet; (c, r.map .data)
  | writeHandshake => let (c, r) := c.writeHandshake; (c, r.map .handshake)
  | readHandshake bytes => let (c, r) := c.readHandshake bytes; (c, r.map fun _ => .accepted)
  | close => (c.close, .ok .closed)

end ChannelOp

/-! ### Chunks -/

variable {fuel total index : ℕ} {message : Bytes} {c : SecureChannel H S} {s s' : S} {packets : List Bytes} {α : Type}

theorem length_chunksOf_pos (hm : message ≠ []) (hf : message.length ≤ fuel) : 0 < (chunksOf fuel message).length := by
  cases fuel with
  | zero => exact absurd (length_eq_zero_iff.mp (le_zero.mp hf)) hm
  | succ fuel =>
    rw [chunksOf, if_neg (by simpa using hm), length_cons]
    exact succ_pos _

/-! ### One packet -/

/-- A packet with the next chunk of the message that is coming in. -/
theorem SecureChannel.assemble_plainPacket [Noise H S] {chunk : Bytes}
    (hc : 0 < chunk.length) (hsz : chunk.length ≤ chunkSize) (ht : c.assembly.length + chunk.length ≤ total)
    (hm : total ≤ maxMessage) (he : 0 < c.assembly.length → c.expectedSize = total) :
    c.assemble (plainPacket total c.assembly.length chunk) =
      if c.assembly.length + chunk.length = total then
        ({ c with expectedSize := 0, assembly := [] }, .ok (some (c.assembly ++ chunk)))
      else ({ c with expectedSize := total, assembly := c.assembly ++ chunk }, .ok none) := by
  have hl : (plainPacket total c.assembly.length chunk).length = header + chunk.length := by
    simp [plainPacket, header]
    omega
  have htk : (plainPacket total c.assembly.length chunk).take 4 = toBeBytes total := rfl
  have hdr : ((plainPacket total c.assembly.length chunk).drop 4).take 4 = toBeBytes c.assembly.length := rfl
  have hpay : (plainPacket total c.assembly.length chunk).drop header = chunk := rfl
  have hb : maxMessage < 2 ^ 32 := by decide
  unfold assemble
  rw [htk, hdr, hpay, hl, fromBeBytes_toBeBytes (by omega), fromBeBytes_toBeBytes (by omega), if_neg (by omega)]
  have ha : (total == 0 || decide (total > maxMessage) || c.assembly.length != c.assembly.length ||
      decide (chunk.length > chunkSize) || decide (c.assembly.length + chunk.length > total) ||
      (decide (c.assembly.length > 0) && total != c.expectedSize)) = false := by
    simp only [Bool.or_eq_false_iff, beq_eq_false_iff_ne, decide_eq_false_iff_not, bne_self_eq_false, Bool.and_eq_false_iff,
      bne_eq_false_iff_eq]
    refine ⟨⟨⟨⟨⟨by omega, by omega⟩, trivial⟩, by omega⟩, by omega⟩, ?_⟩
    by_cases hp : c.assembly.length > 0
    · exact .inr (he hp).symm
    · exact .inl hp
  simp only [ha, Bool.false_eq_true, if_false, beq_iff_eq]
  by_cases hz : c.assembly.length = 0
  · simp only [hz, if_true, length_append, Nat.zero_add]
  · simp only [if_neg hz, length_append, he (Nat.pos_of_ne_zero hz)]

/-! ### Messages over a working transport -/

/-- What a working transport does. `Synced s r` says that `r` reads next what `s` writes next;
`remaining` is how many nonces a transport has left. -/
structure NoiseLaws (H S : Type) [Noise H S] (Synced : S → S → Prop) (remaining : S → ℕ) : Prop where
  write_read : ∀ {s r : S} {plain : Bytes}, Synced s r → plain.length + 16 ≤ maxPacket → 0 < remaining s →
    ∃ s' packet r', Noise.writeMessage H s plain = some (s', packet) ∧ packet.length = plain.length + 16 ∧
      Noise.readMessage H r packet = some (r', plain) ∧ Synced s' r' ∧ remaining s' + 1 = remaining s

variable [Noise H S] {Synced : S → S → Prop} {remaining : S → ℕ}

/-- A packet that the transport reads is assembled. -/
theorem SecureChannel.openPacket_of_read {r r' : S} {packet plain : Bytes}
    (hst : c.state = .transport r) (hl : header + 17 ≤ packet.length) (hm : packet.length ≤ maxPacket)
    (hrd : Noise.readMessage H r packet = some (r', plain)) :
    c.openPacket packet = closeOnError ({ c with state := .transport r' }.assemble plain) := by
  unfold openPacket openInner
  rw [if_neg (by omega), hst]
  simp only [hrd]

/-- What the packets of one message are opened as. -/
def openedAs (message : Bytes) : List (Option Bytes) :=
  replicate ((chunks message).length - 1) none ++ [some message]

/-- The packets with the rest of a message, and what they are opened as by a channel that has
assembled what was before. -/
theorem sealChunks_open (laws : NoiseLaws H S Synced remaining) (hmax : message.length ≤ maxMessage)
    {before rest : Bytes} (hm : message = before ++ rest) (hix : before.length = index * chunkSize)
    (hr : rest ≠ []) (hfuel : rest.length ≤ fuel) {r : S} (hsync : Synced s r)
    (hlf : (chunksOf fuel rest).length ≤ remaining s) (hst : c.state = .transport r)
    (ha : c.assembly = before) (he : 0 < before.length → c.expectedSize = message.length) :
    ∃ s' r' packets, SecureChannel.sealChunks H message.length index s (chunksOf fuel rest) = some (s', packets) ∧ Synced s' r' ∧
      remaining s' + (chunksOf fuel rest).length = remaining s ∧ (∀ p ∈ packets, p.length ≤ maxPacket) ∧
      replies SecureChannel.openPacket c packets =
        (replicate ((chunksOf fuel rest).length - 1) none ++ [some message]).map ok ∧
      (run SecureChannel.openPacket c packets).state = .transport r' ∧
      (run SecureChannel.openPacket c packets).assembly = [] := by
  induction fuel generalizing index before rest s r c with
  | zero => exact absurd (length_eq_zero_iff.mp (le_zero.mp hfuel)) hr
  | succ fuel ih =>
    subst ha
    rw [chunksOf, if_neg (by simpa using hr)] at hlf ⊢
    rw [length_cons] at hlf ⊢
    have hpos : 0 < rest.length := length_pos_iff.mpr hr
    have hc : 0 < (rest.take chunkSize).length ∧ (rest.take chunkSize).length ≤ chunkSize := by
      rw [length_take]
      exact ⟨by have : 0 < chunkSize := by decide
                omega, Nat.min_le_left _ _⟩
    have ht : c.assembly.length + (rest.take chunkSize).length ≤ message.length := by
      rw [hm, length_append, length_take]
      omega
    have hpl : (plainPacket message.length c.assembly.length (rest.take chunkSize)).length = header + (rest.take chunkSize).length := by
      simp [plainPacket, header]
      omega
    have hpk : header + chunkSize + 16 ≤ maxPacket := by decide
    have hfits : (plainPacket message.length c.assembly.length (rest.take chunkSize)).length + 16 ≤ maxPacket := by omega
    obtain ⟨s1, packet, r1, hwr, hlen, hrd, hsync1, hrem⟩ := laws.write_read hsync hfits (by omega)
    have ho := SecureChannel.openPacket_of_read hst (by omega) (by omega) hrd
    have hasse := SecureChannel.assemble_plainPacket (c := ({ c with state := .transport r1 } : SecureChannel H S)) hc.1 hc.2
      ht hmax he
    rw [hasse] at ho
    rw [SecureChannel.sealChunks, ← hix, hwr, bind_some]
    by_cases hl : rest.drop chunkSize = []
    · have htk : rest.take chunkSize = rest := take_of_length_le (drop_eq_nil_iff.mp hl)
      have hn : chunksOf fuel (rest.drop chunkSize) = [] := by
        rw [hl]
        cases fuel <;> rfl
      have hall : c.assembly.length + (rest.take chunkSize).length = message.length := by
        rw [htk, hm, length_append]
      rw [if_pos hall] at ho
      refine ⟨s1, r1, [packet], ?_, hsync1, ?_, ?_, ?_, ?_, ?_⟩
      · rw [hn]
        rfl
      · rw [hn]
        exact hrem
      · intro p hp
        rw [mem_singleton.mp hp]
        omega
      · rw [hn, replies, replies, ho, htk, ← hm]
        rfl
      · rw [run_cons, ho]
        rfl
      · rw [run_cons, ho]
        rfl
    · have hlg : chunkSize < rest.length := by
        rw [drop_eq_nil_iff] at hl
        omega
      have hlent : (rest.take chunkSize).length = chunkSize := by
        rw [length_take]
        omega
      have hnot : ¬ c.assembly.length + (rest.take chunkSize).length = message.length := by
        rw [hlent, hm, length_append]
        omega
      rw [if_neg hnot] at ho
      have hm' : message = c.assembly ++ rest.take chunkSize ++ rest.drop chunkSize := by
        rw [append_assoc, take_append_drop, hm]
      have hix' : (c.assembly ++ rest.take chunkSize).length = (index + 1) * chunkSize := by
        rw [length_append, hlent, hix, succ_mul]
      have hfuel' : (rest.drop chunkSize).length ≤ fuel := by
        rw [length_drop]
        omega
      have hmore := length_chunksOf_pos hl hfuel'
      let next : SecureChannel H S :=
        { c with state := .transport r1, expectedSize := message.length, assembly := c.assembly ++ rest.take chunkSize }
      obtain ⟨s', r', packets, hseal, hsync', hrem', hs, hrep, hend, hemp⟩ :=
        ih hm' hix' hl hfuel' hsync1 (by omega) (c := next) rfl rfl fun _ => rfl
      refine ⟨s', r', packet :: packets, ?_, hsync', by omega, ?_, ?_, ?_, ?_⟩
      · simp only [hseal, map_some]
      · intro p hp
        rcases mem_cons.mp hp with rfl | hp
        · omega
        · exact hs p hp
      · have hcnt : (chunksOf fuel (rest.drop chunkSize)).length + 1 - 1 = (chunksOf fuel (rest.drop chunkSize)).length - 1 + 1 := by omega
        rw [replies, ho, hcnt, replicate_succ, cons_append, map_cons]
        exact congrArg (ok none :: ·) hrep
      · rw [run_cons, ho]
        exact hend
      · rw [run_cons, ho]
        exact hemp

theorem SecureChannel.length_sealChunks {cs : List Bytes}
    (h : sealChunks H total index s cs = some (s', packets)) : packets.length = cs.length := by
  induction cs generalizing index s packets with
  | nil =>
    cases h
    rfl
  | cons chunk cs ih =>
    obtain ⟨⟨s1, packet⟩, -, h⟩ := bind_eq_some_iff.mp h
    obtain ⟨⟨s2, rest⟩, hr, heq⟩ := map_eq_some_iff.mp h
    cases heq
    rw [length_cons, length_cons, ih hr]

theorem SecureChannel.sealMessage_of_chunks (hst : c.state = .transport s) (hp : 0 < message.length) (hm : message.length ≤ maxMessage)
    (h : sealChunks H message.length 0 s (chunks message) = some (s', packets)) :
    c.sealMessage message = ({ c with state := .transport s' }, .ok packets) := by
  have hne : (message.isEmpty || decide (message.length > maxMessage)) = false := by
    rw [Bool.or_eq_false_iff, decide_eq_false_iff_not, isEmpty_eq_false_iff]
    exact ⟨length_pos_iff.mp hp, by omega⟩
  unfold sealMessage sealInner
  rw [hne, hst]
  simp only [Bool.false_eq_true, if_false, h, closeOnError]

/-- Messages sealed one after another are opened as they were, each with its last packet. -/
theorem seal_open (laws : NoiseLaws H S Synced remaining) {messages : List Bytes}
    (hsiz : ∀ m ∈ messages, 1 ≤ m.length ∧ m.length ≤ maxMessage) {r : S} (hsync : Synced s r)
    (hlf : (messages.map fun m => (chunks m).length).sum ≤ remaining s) {sender receiver : SecureChannel H S}
    (hs : sender.state = .transport s) (hrec : receiver.state = .transport r) (he : receiver.assembly = []) :
    ∃ packets : List (List Bytes), replies SecureChannel.sealMessage sender messages = packets.map ok ∧
      packets.map length = messages.map (fun m => (chunks m).length) ∧
      (∀ ps ∈ packets, ∀ p ∈ ps, p.length ≤ maxPacket) ∧
      replies SecureChannel.openPacket receiver packets.flatten = (messages.flatMap openedAs).map ok := by
  induction messages generalizing s r sender receiver with
  | nil => exact ⟨[], rfl, rfl, (fun ps hps => nomatch hps), rfl⟩
  | cons message messages ih =>
    obtain ⟨hp, hmax⟩ := hsiz message mem_cons_self
    rw [map_cons, sum_cons] at hlf
    obtain ⟨s', r', ps, hseal, hsync', hr, hps, hrep, hend, ha⟩ :=
      sealChunks_open laws hmax (nil_append message).symm (Nat.zero_mul chunkSize).symm (length_pos_iff.mp hp)
        le_rfl hsync (show (chunks message).length ≤ remaining s by omega) hrec he fun h => absurd h (lt_irrefl 0)
    have hsea := SecureChannel.sealMessage_of_chunks hs hp hmax hseal
    have hc : ps.length = (chunks message).length := SecureChannel.length_sealChunks hseal
    have hr : remaining s' + (chunks message).length = remaining s := hr
    have hs' : ({ sender with state := .transport s' } : SecureChannel H S).state = .transport s' := rfl
    obtain ⟨packets, hsea', hl, hpac, hop⟩ := ih (fun m hm => hsiz m (mem_cons_of_mem message hm)) hsync' (by omega) hs' hend ha
    refine ⟨ps :: packets, ?_, ?_, ?_, ?_⟩
    · rw [replies, hsea, map_cons]
      exact congrArg (ok ps :: ·) hsea'
    · rw [map_cons, map_cons, hl, hc]
    · intro qs hqs
      rcases mem_cons.mp hqs with rfl | hqs
      · exact hps
      · exact hpac qs hqs
    · rw [flatten_cons, Service.replies_append, flatMap_cons, map_append, hop, hrep]
      rfl

/-! ### Whatever comes in -/

omit [Noise H S] in
theorem SecureChannel.assemble_le (h : c.assembly.length ≤ maxMessage) (plain : Bytes) :
    (c.assemble plain).1.assembly.length ≤ maxMessage := by
  unfold assemble
  split
  · exact h
  simp only
  split
  · exact h
  rename_i ha
  simp only [Bool.or_eq_true, not_or, beq_iff_eq, decide_eq_true_eq, bne_iff_ne, ne_eq, not_not] at ha
  obtain ⟨⟨⟨⟨⟨-, hm⟩, ho⟩, -⟩, hfits⟩, -⟩ := ha
  rw [ho] at hfits
  have hle : (c.assembly ++ plain.drop header).length ≤ maxMessage := by
    rw [length_append]
    omega
  split_ifs
  · exact Nat.zero_le _
  · exact hle
  · exact Nat.zero_le _
  · exact hle

omit [Noise H S] in
theorem closeOnError_le {r : SecureChannel H S × Except LinkError α} (h : r.1.assembly.length ≤ maxMessage) :
    (SecureChannel.closeOnError r).1.assembly.length ≤ maxMessage := by
  unfold SecureChannel.closeOnError
  split
  · exact h
  · exact Nat.zero_le _

theorem SecureChannel.finishHandshake_assembly (c : SecureChannel H S) : c.finishHandshake.1.assembly = c.assembly := by
  unfold finishHandshake
  split
  · split
    · simp only
      split <;> rfl
    · rfl
  · rfl

/-- What has come in of a message stays within the size of a message. -/
theorem ChannelOp.step_le (h : c.assembly.length ≤ maxMessage) (op : ChannelOp) : (step c op).1.assembly.length ≤ maxMessage := by
  cases op with
  | sealMessage message =>
    refine closeOnError_le ?_
    unfold SecureChannel.sealInner
    split
    · exact h
    · split
      · split <;> exact h
      · exact h
  | openPacket packet =>
    refine closeOnError_le ?_
    unfold SecureChannel.openInner
    split
    · exact h
    split
    · split
      · rename_i s plain _
        exact SecureChannel.assemble_le (c := ({ c with state := .transport s } : SecureChannel H S)) h plain
      · exact h
    · exact h
  | writeHandshake =>
    show (c.writeHandshake).1.assembly.length ≤ maxMessage
    unfold SecureChannel.writeHandshake
    split
    · split
      · simp only [SecureChannel.finishHandshake_assembly]
        exact h
      · exact Nat.zero_le _
    · exact Nat.zero_le _
  | readHandshake bytes =>
    show (c.readHandshake bytes).1.assembly.length ≤ maxMessage
    unfold SecureChannel.readHandshake
    split
    · split
      · split
        · rw [SecureChannel.finishHandshake_assembly]
          exact h
        · exact Nat.zero_le _
      · exact Nat.zero_le _
    · exact Nat.zero_le _
  | close => exact Nat.zero_le _

open ChannelOp (step step_le)

/-- A closed channel stays closed, and all it does is to be closed again. -/
theorem ChannelOp.step_closed (h : c.state = .closed) (op : ChannelOp) :
    (step c op).1.state = .closed ∧ ∀ output, (step c op).2 = .ok output → output = .closed := by
  cases op with
  | sealMessage message =>
    have herr : ∃ e, c.sealInner message = (c, .error e) := by
      unfold SecureChannel.sealInner
      rw [h]
      split
      · exact ⟨_, rfl⟩
      · exact ⟨_, rfl⟩
    obtain ⟨e, he⟩ := herr
    simp only [step, SecureChannel.sealMessage, he, SecureChannel.closeOnError]
    exact ⟨rfl, fun output ho => nomatch ho⟩
  | openPacket packet =>
    have herr : ∃ e, c.openInner packet = (c, .error e) := by
      unfold SecureChannel.openInner
      rw [h]
      split
      · exact ⟨_, rfl⟩
      · exact ⟨_, rfl⟩
    obtain ⟨e, he⟩ := herr
    simp only [step, SecureChannel.openPacket, he, SecureChannel.closeOnError]
    exact ⟨rfl, fun output ho => nomatch ho⟩
  | writeHandshake =>
    simp only [step, SecureChannel.writeHandshake, h]
    exact ⟨rfl, fun output ho => nomatch ho⟩
  | readHandshake bytes =>
    simp only [step, SecureChannel.readHandshake, h]
    exact ⟨rfl, fun output ho => nomatch ho⟩
  | close => exact ⟨rfl, fun output ho => (ok.inj ho).symm⟩

omit [Noise H S] in
theorem closed_of_closeOnError {r : SecureChannel H S × Except LinkError α} {e : LinkError}
    (h : (SecureChannel.closeOnError r).2 = .error e) : (SecureChannel.closeOnError r).1.state = .closed := by
  unfold SecureChannel.closeOnError at *
  split at h
  · rename_i hr
    rw [hr] at h
    cases h
  · rename_i hr
    rw [hr]
    rfl

theorem SecureChannel.finishHandshake_error {e : LinkError} (h : c.finishHandshake.2 = .error e) : c.finishHandshake.1.state = .closed := by
  revert h
  unfold finishHandshake
  split
  · split
    · simp only
      split
      · intro h
        cases h
      · exact fun _ => rfl
    · intro h
      cases h
  · intro h
    cases h

theorem map_eq_error {ε β : Type} {f : α → β} {r : Except ε α} {e : ε} : r.map f = .error e ↔ r = .error e := by
  cases r <;> simp [Except.map]

/-- An error closes the channel. -/
theorem ChannelOp.closed_of_error {op : ChannelOp} {e : LinkError} (h : (step c op).2 = .error e) : (step c op).1.state = .closed := by
  cases op with
  | sealMessage message => exact closed_of_closeOnError (map_eq_error.mp h)
  | openPacket packet => exact closed_of_closeOnError (map_eq_error.mp h)
  | writeHandshake =>
    have h : c.writeHandshake.2 = .error e := map_eq_error.mp h
    show c.writeHandshake.1.state = .closed
    revert h
    unfold SecureChannel.writeHandshake
    split
    · split
      · exact fun h => SecureChannel.finishHandshake_error (map_eq_error.mp h)
      · exact fun _ => rfl
    · exact fun _ => rfl
  | readHandshake bytes =>
    have h : (c.readHandshake bytes).2 = .error e := map_eq_error.mp h
    show (c.readHandshake bytes).1.state = .closed
    revert h
    unfold SecureChannel.readHandshake
    split
    · split
      · split
        · exact fun h => SecureChannel.finishHandshake_error h
        · exact fun _ => rfl
      · exact fun _ => rfl
    · exact fun _ => rfl
  | close => cases h

/-! ### The whole channel -/

/-- **Secure framing**: over a working transport, messages are opened as they were sealed, each
with its last packet, and no packet is too long; whatever comes in, what is assembled stays
within the size of a message, and after an error a channel only closes. -/
theorem secure_framing (laws : NoiseLaws H S Synced remaining) :
    (∀ {messages : List Bytes} {s r : S} {sender receiver : SecureChannel H S},
      (∀ m ∈ messages, 1 ≤ m.length ∧ m.length ≤ maxMessage) → Synced s r →
      (messages.map fun m => (chunks m).length).sum ≤ remaining s →
      sender.state = .transport s → receiver.state = .transport r → receiver.assembly = [] →
      ∃ packets : List (List Bytes),
        replies SecureChannel.sealMessage sender messages = packets.map ok ∧
        packets.map length = messages.map (fun m => (chunks m).length) ∧
        (∀ ps ∈ packets, ∀ p ∈ ps, p.length ≤ maxPacket) ∧
        replies SecureChannel.openPacket receiver packets.flatten =
          (messages.flatMap openedAs).map ok) ∧
    (∀ (h : H) (ops : List ChannelOp),
      (run step (SecureChannel.handshake h : SecureChannel H S) ops).assembly.length ≤ maxMessage) ∧
    ∀ (h : H) (ops : List ChannelOp) (before after : List (Except LinkError ChannelOutput)) (e : LinkError),
      replies step (SecureChannel.handshake h : SecureChannel H S) ops = before ++ .error e :: after →
      ∀ reply ∈ after, ∀ output, reply = .ok output → output = .closed := by
  refine ⟨fun hsiz hsync hlf hs hr ha => seal_open laws hsiz hsync hlf hs hr ha, fun h ops => ?_, fun h ops before after e hrep => ?_⟩
  · have hst : ∀ (c : SecureChannel H S) (op : ChannelOp), c.assembly.length ≤ maxMessage →
        (step c op).1.assembly.length ≤ maxMessage := fun c op hc => step_le hc op
    exact Service.run_invariant hst (s := SecureChannel.handshake h) (Nat.zero_le maxMessage) ops
  · have hst : ∀ (c : SecureChannel H S) (op : ChannelOp), c.state = .closed →
        (step c op).1.state = .closed ∧ ∀ output, (step c op).2 = .ok output → output = .closed :=
      fun c op hc => ChannelOp.step_closed hc op
    have hlead : ∀ (c : SecureChannel H S) (op : ChannelOp), (∃ e, (step c op).2 = .error e) →
        (step c op).1.state = .closed := fun c op he => ChannelOp.closed_of_error he.choose_spec
    exact Service.replies_after (R := fun reply => ∃ e, reply = .error e) hst hlead hrep ⟨e, rfl⟩

/-- A transport that seals with its nonce: sixteen bytes after the plain text. -/
def CounterNoise.tag (n : ℕ) : Bytes := replicate 15 0 ++ [.ofNat n]

open CounterNoise (tag)

/-- Noise with a counter for a cipher. -/
instance CounterNoise : Noise Unit ℕ where
  writeHandshake h := some (h, [])
  readHandshake h _ := some h
  finished _ := true
  handshakeHash _ := [0, 1, 2, 3]
  intoTransport _ := some 0
  writeMessage n plain :=
    if plain.length + 16 ≤ maxPacket ∧ n < 2 ^ 64 - 1 then some (n + 1, plain ++ tag n) else none
  readMessage n packet :=
    if packet.drop (packet.length - 16) = tag n then some (n + 1, packet.take (packet.length - 16)) else none

theorem counterNoise_laws : NoiseLaws Unit ℕ Eq fun n => 2 ^ 64 - 1 - n where
  write_read := by
    rintro n _ plain rfl hl hlf
    have ht : (tag n).length = 16 := rfl
    refine ⟨n + 1, plain ++ tag n, n + 1, if_pos ⟨hl, by omega⟩, by rw [length_append, ht], ?_, rfl, by omega⟩
    have hc : (plain ++ tag n).length - 16 = plain.length := by
      rw [length_append, ht]
      omega
    show (if _ then _ else _) = _
    rw [hc, drop_left, take_left, if_pos rfl]

/-- A message of two chunks and one of a single chunk over the counting transport. -/
theorem secure_framing_counter :
    (chunks (replicate (chunkSize + 1) 7)).length = 2 ∧ ∃ packets : List (List Bytes),
      replies SecureChannel.sealMessage (⟨.transport 0, [], 0, none⟩ : SecureChannel Unit ℕ) [replicate (chunkSize + 1) 7, [3]] =
        packets.map ok ∧
      packets.map length = [replicate (chunkSize + 1) 7, [3]].map (fun m => (chunks m).length) ∧
      (∀ ps ∈ packets, ∀ p ∈ ps, p.length ≤ maxPacket) ∧
      replies SecureChannel.openPacket (⟨.transport 0, [], 0, none⟩ : SecureChannel Unit ℕ) packets.flatten =
        ([replicate (chunkSize + 1) 7, [3]].flatMap openedAs).map ok := by
  have hc : (chunks (replicate (chunkSize + 1) 7)).length = 2 := by
    rw [chunks, length_replicate, chunksOf, if_neg (by simp), length_cons, drop_replicate, Nat.add_sub_cancel_left]
    rfl
  refine ⟨hc, (secure_framing counterNoise_laws).1 ?_ rfl ?_ rfl rfl rfl⟩
  · intro m hm
    rcases mem_pair.mp hm with rfl | rfl
    · rw [length_replicate]
      decide
    · decide
  · rw [map_cons, sum_cons, hc]
    decide

end

end Pebrel.Link
