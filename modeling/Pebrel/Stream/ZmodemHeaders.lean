import Pebrel.Stream.Sniffer

/-!
# The headers that open a ZMODEM session

A hex header is two pads, a `ZDLE` that a renderer may have taken out, a `B` and
fourteen hex digits: five bytes of a frame and their checksum. `ZmodemSniffer`
matches it byte by byte and starts over where a candidate breaks off, which may
be in the middle of the next one.

The state is told from the end of the stream alone (`Reads`), and the two pads
lead to the same state from all others, so a header is found exactly where the
stream ends with one, whatever is before it and wherever the stream is cut.
-/

namespace Pebrel.Stream

open Library List Option
open ZmodemSniffer (decodePairs step)
open Mealy (run)

variable {s : ZmodemSniffer} {stream w : Bytes} {b : UInt8} {offer : ZmodemOffer}

/-! ### Headers -/

/-- The frame type that opens a session: `ZRQINIT` of a sender and `ZRINIT` of a receiver. -/
def ZmodemOffer.frameType : ZmodemOffer → UInt8
  | .download => 0x00
  | .upload => 0x01

/-- Fourteen hex digits that stand for a frame of a type with its checksum. -/
def IsHexHeader (digits : Bytes) (offer : ZmodemOffer) : Prop :=
  digits.length = hexDigits ∧ (∀ d ∈ digits, isAsciiHexdigit d = true) ∧
    ∃ frame high low, decodePairs digits = some (frame ++ [high, low]) ∧
      frame.head? = some offer.frameType ∧ crc16 frame = .ofNat 16 (high.toNat * 256 + low.toNat)

/-- The stream ends with a header. -/
def EndsWithHeader (stream : Bytes) (offer : ZmodemOffer) : Prop :=
  ∃ before zdles digits, stream = before ++ [zpad, zpad] ++ zdles ++ [zhex] ++ digits ∧ (zdles = [] ∨ zdles = [zdle]) ∧
    IsHexHeader digits offer

namespace ZmodemSniffer

theorem hexVal_isSome {d : UInt8} (h : isAsciiHexdigit d = true) : ∃ v, hexVal d = some v := by
  rw [isAsciiHexdigit, Bool.or_eq_true, Bool.or_eq_true] at h
  simp only [hexVal]
  split
  · exact ⟨_, rfl⟩
  split
  · exact ⟨_, rfl⟩
  · split
    · exact ⟨_, rfl⟩
    · simp_all

/-- Every pair of hex digits is a byte. -/
theorem decodePairs_of_hex {digits : Bytes} (h : ∀ d ∈ digits, isAsciiHexdigit d = true) :
    ∃ decoded, decodePairs digits = some decoded ∧ decoded.length = digits.length / 2 := by
  induction digits using decodePairs.induct with
  | case1 hi low rest ih =>
    obtain ⟨v, hv⟩ := hexVal_isSome (h hi (by simp))
    obtain ⟨v', hv'⟩ := hexVal_isSome (h low (by simp))
    obtain ⟨decoded, hdec, hl⟩ := ih fun d hd => h d (by simp [hd])
    refine ⟨(v <<< 4 ||| v') :: decoded, by simp [decodePairs, hv, hv', hdec], ?_⟩
    simp only [length_cons, hl]
    omega
  | case2 digits hn =>
    refine ⟨[], ?_, ?_⟩
    · rw [decodePairs]
      exact hn
    · match digits with
      | [] => rfl
      | [_] => simp
      | hi :: low :: rest => exact absurd rfl (hn hi low rest)

/-- The header of digits is accepted just if they are one. -/
theorem header_eq_some_iff (hlen : s.digits.length = hexDigits) (hh : ∀ d ∈ s.digits, isAsciiHexdigit d = true) :
    s.header = some offer ↔ IsHexHeader s.digits offer := by
  obtain ⟨decoded, hd, hsz⟩ := decodePairs_of_hex hh
  rw [hlen] at hsz
  obtain ⟨frame, hi, low, rfl, hf⟩ : ∃ frame hi low, decoded = frame ++ [hi, low] ∧ frame.length = 5 := by
    match decoded, hsz with
    | [a, b, c, d, e, hi, low], _ => exact ⟨[a, b, c, d, e], hi, low, rfl, rfl⟩
  have hs : (foldl (fun n (b : UInt8) => n * 256 + b.toNat) 0 [hi, low]) = hi.toNat * 256 + low.toNat := by simp
  have hhd : s.header = if crc16 frame ≠ .ofNat 16 (hi.toNat * 256 + low.toNat) then none
      else if frame.head? = some 0x00 then some .download else if frame.head? = some 0x01 then some .upload else none := by
    rw [header, hd, bind_some]
    simp only [take_left' hf, drop_left' hf, hs]
  have hu : IsHexHeader s.digits offer ↔
      frame.head? = some offer.frameType ∧ crc16 frame = .ofNat 16 (hi.toNat * 256 + low.toNat) := by
    constructor
    · rintro ⟨-, -, frame', hi', low', hd', htype, hc⟩
      rw [hd, some.injEq] at hd'
      obtain ⟨rfl, hl⟩ := append_inj' hd' rfl
      cases hl
      exact ⟨htype, hc⟩
    · exact fun h => ⟨hlen, hh, frame, hi, low, hd, h⟩
  rw [hhd, hu]
  by_cases hc : crc16 frame = .ofNat 16 (hi.toNat * 256 + low.toNat)
  · rw [if_neg (not_not.2 hc)]
    cases offer <;> simp only [ZmodemOffer.frameType, hc, and_true] <;> split <;> simp_all
  · rw [if_pos hc]
    simp [hc]

/-! ### What the state tells -/

/-- What the machine knows of the stream it has read. -/
def Reads (s : ZmodemSniffer) (w : Bytes) : Prop :=
  s.digits.length = hexDigits ∧
    match s.state with
    | .idle => True
    | .pad => ∃ u, w = u ++ [zpad]
    | .pads => ∃ u, w = u ++ [zpad, zpad]
    | .zdle => ∃ u, w = u ++ [zpad, zpad, zdle]
    | .hex count => count < hexDigits ∧ (∀ d ∈ s.digits.take count, isAsciiHexdigit d = true) ∧
        ∃ u zdles, (zdles = [] ∨ zdles = [zdle]) ∧ w = u ++ [zpad, zpad] ++ zdles ++ [zhex] ++ s.digits.take count

theorem take_set_succ {l : Bytes} {n : ℕ} (h : n < l.length) (b : UInt8) : (l.set n b).take (n + 1) = l.take n ++ [b] := by
  rw [take_succ_eq_append_getElem (by rwa [length_set]), getElem_set_self, take_set_of_le le_rfl]

/-- One byte keeps what is known, and a header is announced only at its end. -/
theorem Reads.step (h : Reads s w) (b : UInt8) :
    Reads (s.step b).1 (w ++ [b]) ∧ ∀ offer, (s.step b).2 = some offer → EndsWithHeader (w ++ [b]) offer := by
  obtain ⟨hlen, hst⟩ := h
  -- what follows a byte that breaks a candidate off
  have ho : Reads { s with state := if b = zpad then .pad else .idle } (w ++ [b]) := by
    by_cases hb : b = zpad
    · simp only [Reads, if_pos hb]
      exact ⟨hlen, w, by rw [hb]⟩
    · simp only [Reads, if_neg hb]
      exact ⟨hlen, trivial⟩
  obtain ⟨state, digits⟩ := s
  cases state with
  | idle => exact ⟨ho, by simp [step]⟩
  | pad =>
    obtain ⟨u, rfl⟩ := hst
    by_cases hb : b = zpad
    · simp only [step, if_pos hb]
      exact ⟨⟨hlen, u, by simp [hb]⟩, by simp⟩
    · simp only [step, if_neg hb]
      rw [if_neg hb] at ho
      exact ⟨ho, by simp⟩
  | pads =>
    obtain ⟨u, rfl⟩ := hst
    by_cases hp : b = zpad
    · simp only [step, if_pos hp]
      exact ⟨⟨hlen, u ++ [zpad], by simp [hp]⟩, by simp⟩
    by_cases hzdle : b = zdle
    · simp only [step, if_neg hp, if_pos hzdle]
      exact ⟨⟨hlen, u, by simp [hzdle]⟩, by simp⟩
    · by_cases hzhex : b = zhex
      · simp only [step, if_neg hp, if_neg hzdle, if_pos hzhex]
        exact ⟨⟨hlen, by decide, by simp, u, [], .inl rfl, by simp [hzhex]⟩, by simp⟩
      · simp only [step, if_neg hp, if_neg hzdle, if_neg hzhex]
        rw [if_neg hp] at ho
        exact ⟨ho, by simp⟩
  | zdle =>
    obtain ⟨u, rfl⟩ := hst
    by_cases hzhex : b = zhex
    · simp only [step, if_pos hzhex]
      exact ⟨⟨hlen, by decide, by simp, u, [zdle], .inr rfl, by simp [hzhex]⟩, by simp⟩
    · simp only [step, if_neg hzhex]
      exact ⟨ho, by simp⟩
  | hex count =>
    obtain ⟨hc, hh, u, zdles, hz, rfl⟩ := hst
    by_cases hdig : isAsciiHexdigit b = true
    · have htk : (digits.set count b).take (count + 1) = digits.take count ++ [b] := take_set_succ (by rw [hlen]; exact hc) b
      have hh' : ∀ d ∈ (digits.set count b).take (count + 1), isAsciiHexdigit d = true := by
        rw [htk]
        intro d hd
        rcases mem_append.1 hd with hd | hd
        · exact hh d hd
        · rw [mem_singleton.1 hd]
          exact hdig
      by_cases hl : count + 1 < hexDigits
      · simp only [step, if_pos hdig, if_pos hl]
        refine ⟨⟨by simpa using hlen, hl, hh', u, zdles, hz, ?_⟩, by simp⟩
        rw [htk]
        simp
      · have ha : (digits.set count b).take (count + 1) = digits.set count b := by
          refine take_of_length_le ?_
          rw [length_set, hlen]
          omega
        rw [ha] at htk hh'
        simp only [step, if_pos hdig, if_neg hl]
        refine ⟨⟨by simpa using hlen, trivial⟩, fun offer hhd => ⟨u, zdles, digits.set count b, ?_, hz, ?_⟩⟩
        · rw [htk]
          simp
        · exact (header_eq_some_iff (s := ⟨.idle, digits.set count b⟩) (by simpa using hlen) hh').1 hhd
    · simp only [step, if_neg hdig]
      exact ⟨ho, by simp⟩

/-- The machine knows the end of the stream at any time. -/
theorem reads_run (w : Bytes) : Reads (run step default w) w := by
  induction w using reverseRecOn with
  | nil => exact ⟨rfl, trivial⟩
  | append_singleton w b ih =>
    rw [Mealy.run_append]
    exact (ih.step b).1

/-! ### Headers are found -/

/-- Two pads lead to one state from all others. -/
theorem run_pads (s : ZmodemSniffer) : run step s [zpad, zpad] = { s with state := .pads } := by
  obtain ⟨state, digits⟩ := s
  have hn : isAsciiHexdigit zpad = false := by decide
  have hne : zpad ≠ zhex := by decide
  cases state <;> simp [run, step, hn, hne]

/-- From the pads to the first digit. -/
theorem run_begin {zdles : Bytes} (h : zdles = [] ∨ zdles = [zdle]) (s : ZmodemSniffer) :
    run step s ([zpad, zpad] ++ zdles ++ [zhex]) = { s with state := .hex 0 } := by
  rw [append_assoc, Mealy.run_append, run_pads]
  rcases h with rfl | rfl <;> simp [run, step, zpad, zdle, zhex]

/-- Digits are collected up to the last. -/
theorem run_digits {ds : Bytes} {count : ℕ} (hst : s.state = .hex count) (hl : s.digits.length = hexDigits)
    (hc : count + ds.length < hexDigits) (hh : ∀ d ∈ ds, isAsciiHexdigit d = true) :
    (run step s ds).state = .hex (count + ds.length) ∧ (run step s ds).digits.length = hexDigits ∧
      (run step s ds).digits.take (count + ds.length) = s.digits.take count ++ ds := by
  induction ds generalizing s count with
  | nil => exact ⟨hst, hl, by simp [run]⟩
  | cons d ds ih =>
    obtain ⟨hd, hds⟩ := forall_mem_cons.1 hh
    rw [length_cons] at hc
    have hstep : (s.step d).1 = ⟨.hex (count + 1), s.digits.set count d⟩ := by
      obtain ⟨state, digits⟩ := s
      subst hst
      simp only [step, if_pos hd, if_pos (show count + 1 < hexDigits by omega)]
    rw [Mealy.run_cons, hstep]
    obtain ⟨hst', hl', htk⟩ := ih (s := ⟨.hex (count + 1), s.digits.set count d⟩) rfl (by simpa using hl) (by omega) hds
    refine ⟨by rw [hst', length_cons]; congr 1; omega, hl', ?_⟩
    rw [length_cons, show count + (ds.length + 1) = count + 1 + ds.length by omega, htk, take_set_succ (by rw [hl]; omega)]
    simp

/-- The last digit of a header completes it. -/
theorem step_of_header (h : EndsWithHeader (w ++ [b]) offer) : ((run step default w).step b).2 = some offer := by
  obtain ⟨before, zdles, digits, heq, hz, hhd⟩ := h
  obtain ⟨hds, hh⟩ : digits.length = hexDigits ∧ ∀ d ∈ digits, isAsciiHexdigit d = true := ⟨hhd.1, hhd.2.1⟩
  obtain ⟨ds, d, rfl⟩ : ∃ ds d, digits = ds ++ [d] := by
    rcases eq_nil_or_concat digits with rfl | ⟨ds, d, rfl⟩
    · cases hds
    · exact ⟨ds, d, concat_eq_append⟩
  rw [← append_assoc] at heq
  obtain ⟨rfl, hl⟩ := append_inj' heq rfl
  cases hl
  have hsz : ds.length = 13 := by simpa [hexDigits] using hds
  have hd : isAsciiHexdigit b = true := hh b (by simp)
  rw [append_assoc before, append_assoc before, Mealy.run_append, Mealy.run_append, run_begin hz]
  obtain ⟨hst, hlen, htk⟩ := run_digits (s := { run step default before with state := .hex 0 }) rfl
    (reads_run before).1 (by rw [hsz]; decide) fun c hc => hh c (by simp [hc])
  generalize run step { run step default before with state := .hex 0 } ds = t at hst hlen htk
  obtain ⟨state, digits⟩ := t
  rw [hsz] at hst htk
  subst hst
  have ha : digits.set 13 b = ds ++ [b] := by
    rw [← take_of_length_le (l := digits.set 13 b) (i := 14) (by rw [length_set, hlen]; decide), take_set_succ (by rw [hlen]; decide), htk]
    simp
  simp only [step, if_pos hd, Nat.zero_add, if_neg (show ¬13 + 1 < hexDigits by decide), ha]
  exact (header_eq_some_iff (s := ⟨.idle, ds ++ [b]⟩) hds hh).2 hhd

/-- **A header is announced at a byte just if the stream up to it ends with one**. -/
theorem step_eq_some_iff (w : Bytes) (b : UInt8) (offer : ZmodemOffer) :
    ((run step default w).step b).2 = some offer ↔ EndsWithHeader (w ++ [b]) offer :=
  ⟨((reads_run w).step b).2 offer, step_of_header⟩

/-! ### Chunks -/

/-- The sniffer after chunks. -/
def feedAll (chunks : List Bytes) : ZmodemSniffer := chunks.foldl (fun s chunk => (s.feed chunk).1) default

theorem feedAll_eq (chunks : List Bytes) : feedAll chunks = run step default chunks.flatten := by
  induction chunks using reverseRecOn with
  | nil => rfl
  | append_singleton chunks chunk ih =>
    have hfeed : feedAll (chunks ++ [chunk]) = ((feedAll chunks).feed chunk).1 := by simp [feedAll]
    rw [hfeed, feed_eq, ih, flatten_append, Mealy.run_append]
    simp

/-- The headers that end in a chunk. -/
theorem mem_outputs_chunk {before chunk : Bytes} {n : ℕ} {offer : ZmodemOffer} :
    (n, offer) ∈ Mealy.outputs step (run step default before) chunk ↔
      0 < n ∧ n ≤ chunk.length ∧ EndsWithHeader (before ++ chunk.take n) offer := by
  rw [Mealy.mem_outputs_iff]
  constructor
  · rintro ⟨pre, b, post, rfl, rfl, hst⟩
    rw [← Mealy.run_append, step_eq_some_iff] at hst
    refine ⟨Nat.succ_pos _, by simp, ?_⟩
    rw [take_append, take_of_length_le (Nat.le_succ _)]
    simpa using hst
  · rintro ⟨hp, hle, hends⟩
    obtain ⟨n, rfl⟩ : ∃ k, n = k + 1 := ⟨n - 1, by omega⟩
    refine ⟨chunk.take n, chunk[n], chunk.drop (n + 1), ?_, ?_, ?_⟩
    · rw [← drop_eq_getElem_cons, take_append_drop]
    · rw [length_take]
      omega
    · rw [← Mealy.run_append, step_eq_some_iff]
      rwa [take_succ_eq_append_getElem hle, ← append_assoc] at hends

/-- **The sniffer accepts exactly the headers**: however the stream is cut, a chunk reports a start just if the stream
has a header that ends in it, and the last of them if there are more. -/
theorem feed_eq_some_iff (before : List Bytes) (chunk : Bytes) (offer : ZmodemOffer) :
    ((feedAll before).feed chunk).2 = some offer ↔
      ∃ n, 0 < n ∧ n ≤ chunk.length ∧ EndsWithHeader (before.flatten ++ chunk.take n) offer ∧
        ∀ m offer', n < m → m ≤ chunk.length → ¬EndsWithHeader (before.flatten ++ chunk.take m) offer' := by
  rw [feed_eq, feedAll_eq, map_eq_some_iff]
  constructor
  · rintro ⟨⟨n, offer⟩, hl, rfl⟩
    obtain ⟨hmem, hle⟩ := (Mealy.getLast?_outputs_iff step).1 hl
    obtain ⟨hpos, hlen, hends⟩ := mem_outputs_chunk.1 hmem
    refine ⟨n, hpos, hlen, hends, fun m offer' hnm hm hends' => ?_⟩
    exact absurd (hle (m, offer') (mem_outputs_chunk.2 ⟨by omega, hm, hends'⟩)) (not_le.2 hnm)
  · rintro ⟨n, hpos, hlen, hends, hn⟩
    refine ⟨(n, offer), (Mealy.getLast?_outputs_iff step).2 ⟨mem_outputs_chunk.2 ⟨hpos, hlen, hends⟩, ?_⟩, rfl⟩
    rintro ⟨m, offer'⟩ hmem
    obtain ⟨-, hm, hends'⟩ := mem_outputs_chunk.1 hmem
    exact not_lt.1 fun hlt => hn m offer' hlt hm hends'

/-- The first header only is reported, wherever the stream is cut. -/
def ReportsFirst : Prop :=
  ∀ (before : List Bytes) (b : UInt8) (offer : ZmodemOffer),
    ((feedAll before).feed [b]).2 = some offer ↔
      EndsWithHeader (before.flatten ++ [b]) offer ∧
        ∀ n offer', n ≤ before.flatten.length → ¬EndsWithHeader (before.flatten.take n) offer'

/-- The header of a receiver up to its last digit. -/
def receiverHeader : Bytes := "**".toList.map (fun c => .ofNat c.toNat) ++ [0x18] ++
  "B0100000023be5".toList.map fun c => .ofNat c.toNat

set_option maxRecDepth 4000 in
theorem endsWithHeader_receiverHeader : EndsWithHeader (receiverHeader ++ [0x30]) .upload :=
  ⟨[], [zdle], "0100000023be50".toList.map fun c => .ofNat c.toNat, by decide, .inr rfl, by decide, all_eq_true.mp (by decide),
    [1, 0, 0, 0, 0x23], 0xbe, 0x50, by decide, by decide, by decide⟩

set_option maxRecDepth 4000 in
/-- A second header is reported as the first is. -/
theorem not_reportsFirst : ¬ReportsFirst := by
  intro h
  have hsnd := (h [receiverHeader ++ [0x30], receiverHeader] 0x30 .upload).1 (by decide)
  have htk : [receiverHeader ++ [0x30], receiverHeader].flatten.take 18 = receiverHeader ++ [0x30] := by decide
  refine hsnd.2 18 .upload (by decide) ?_
  rw [htk]
  exact endsWithHeader_receiverHeader

end ZmodemSniffer

end Pebrel.Stream
