import Pebrel.Library.Assoc
import Pebrel.Library.Text

/-!
# Images that wait for their place

An image waits under a nonce until the title that names it is replayed (`term/inline_image.rs`).
Three counters go along with the table of those that wait, and limit it
(`accounting`). A nonce is the hash of a sequence number of 64 bits: the
counters go astray where the numbers come round, and not before.
-/

namespace Pebrel.Terminal.InlineImages

open Library List Bool Function UInt64

inductive Payload where
  | inline (data : List UInt8)
  | graphics (control data : List UInt8)
  | resetGraphics

/-- The bytes of a payload, and whether it is an inline image. -/
def Payload.size : Payload → ℕ × Bool
  | inline data => (data.length, true)
  | graphics control data => (control.length + data.length, false)
  | resetGraphics => (0, false)

/-- An image that waits, which its stream may have dropped. -/
structure Entry where
  image : ℕ
  bytes : ℕ
  inline : Bool

structure PendingImages where
  entries : Assoc.Map UInt64 Entry
  bytes : ℕ
  inlineCount : ℕ
  sequence : UInt64

def maxEntries : ℕ := 65536

def maxBytes : ℕ := 32 * 1024 * 1024

def maxInline : ℕ := 16

/-- `{id:016x}` in the title that names an image. -/
def title (id : UInt64) : Text := "pebrel-image-".toList ++ leftpad 16 '0' (Nat.toDigits 16 id.toNat)

def hexDigit (c : Char) : Option ℕ :=
  if c.isDigit then some (c.toNat - 48) else if 'a' ≤ c ∧ c ≤ 'f' then some (c.toNat - 87)
  else if 'A' ≤ c ∧ c ≤ 'F' then some (c.toNat - 55) else none

/-- `u64::from_str_radix` to the base 16. -/
def fromHex (t : Text) : Option UInt64 :=
  let digits := if t.head? = some '+' then t.tail else t
  if digits = [] then none
  else (digits.foldlM (fun n c => (hexDigit c).bind fun d => if n * 16 + d < 2 ^ 64 then some (n * 16 + d) else none) 0).map .ofNat

/-- The nonce that a title names. -/
def named (t : Text) : Option UInt64 := (t.dropPrefix? "pebrel-image-".toList).bind fromHex

namespace PendingImages

variable (hash : UInt64 → UInt64) (live : ℕ → Bool) (p : PendingImages)

/-- There is no room for so many bytes. -/
def isFull (bytes : ℕ) (inline : Bool) : Bool :=
  maxEntries ≤ p.entries.entries.length || maxBytes < p.bytes + bytes || (inline && maxInline ≤ p.inlineCount)

/-- Those go whose images have been dropped. -/
def sweep : PendingImages :=
  let dropped := p.entries.entries.filter fun e => !live e.2.image
  { p with
    entries := p.entries.retain fun e => live e.image
    bytes := p.bytes - (dropped.map fun e => e.2.bytes).sum
    inlineCount := p.inlineCount - (dropped.map fun e => e.2.inline.toNat).sum }

/-- `queue`, which makes `image` of the payload and gives it a title. -/
def queue (image : ℕ) (payload : Payload) : PendingImages × Except Payload (Text × ℕ) :=
  let (bytes, inline) := payload.size
  let p := if p.isFull bytes inline then p.sweep live else p
  if p.isFull bytes inline then (p, .error payload)
  else
    let sequence := p.sequence + 1
    let id := hash sequence
    ({ entries := p.entries.insert id ⟨image, bytes, inline⟩
       bytes := p.bytes + bytes
       inlineCount := p.inlineCount + inline.toNat
       sequence }, .ok ("\x1b]2;".toList ++ title id ++ ['\x07'], image))

/-- `nebula_dispatch_inline_image`: whether the title named an image, and the image, if it has not been dropped. -/
def dispatch (t : Text) : PendingImages × Bool × Option ℕ :=
  match named t with
  | none => (p, false, none)
  | some id =>
    match p.entries.get? id with
    | none => (p, false, none)
    | some e =>
      ({ p with
         entries := p.entries.filterKeys (· ≠ id)
         bytes := p.bytes - e.bytes
         inlineCount := p.inlineCount - e.inline.toNat }, true, if live e.image then some e.image else none)

/-- The counters count what waits, and there is not too much of it. -/
structure Sound : Prop where
  bytes : p.bytes = (p.entries.entries.map fun e => e.2.bytes).sum
  inlineCount : p.inlineCount = (p.entries.entries.map fun e => e.2.inline.toNat).sum
  entries_le : p.entries.entries.length ≤ maxEntries
  bytes_le : p.bytes ≤ maxBytes
  inline_le : p.inlineCount ≤ maxInline

end PendingImages

/-- The images that wait, those that a stream holds, and how many there have been. -/
structure World where
  pending : PendingImages
  held : List ℕ
  images : ℕ

def World.init : World := ⟨⟨.empty, 0, 0, 0⟩, [], 0⟩

inductive Action where
  | queue (payload : Payload)
  | dispatch (title : Text)
  | drop (image : ℕ)

def World.live (w : World) (image : ℕ) : Bool := image ∈ w.held

/-- One operation. A stream holds each image that it has queued until it drops it. -/
def World.step (hash : UInt64 → UInt64) (w : World) : Action → World
  | .queue payload =>
    match w.pending.queue hash w.live w.images payload with
    | (pending, .ok _) => ⟨pending, w.images :: w.held, w.images + 1⟩
    | (pending, .error _) => { w with pending }
  | .dispatch title => { w with pending := (w.pending.dispatch w.live title).1 }
  | .drop image => { w with held := w.held.filter (· ≠ image) }

def World.run (hash : UInt64 → UInt64) (w : World) (actions : List Action) : World := actions.foldl (.step hash) w

open World (init live run step)

namespace PendingImages

variable {hash : UInt64 → UInt64} {live : ℕ → Bool} {p : PendingImages} {bytes image : ℕ} {inline : Bool} {id : UInt64}

/-! ### One operation -/

/-- Where there is no room even after a sweep nothing waits that did not, and else the image does. -/
theorem queue_cases (hash : UInt64 → UInt64) (live : ℕ → Bool) (p : PendingImages) (image : ℕ) (payload : Payload) :
    ∃ q, (q = p ∨ q = p.sweep live) ∧
    (p.queue hash live image payload = (q, .error payload) ∨ q.isFull payload.size.1 payload.size.2 = false ∧ ∃ escape,
      p.queue hash live image payload = (⟨q.entries.insert (hash (q.sequence + 1)) ⟨image, payload.size.1, payload.size.2⟩,
        q.bytes + payload.size.1, q.inlineCount + payload.size.2.toNat, q.sequence + 1⟩, .ok escape)) := by
  refine ⟨if p.isFull payload.size.1 payload.size.2 then p.sweep live else p, ?_, ?_⟩
  · split
    · exact .inr rfl
    · exact .inl rfl
  · rw [queue]
    dsimp only
    generalize (if p.isFull payload.size.1 payload.size.2 then p.sweep live else p) = q
    split
    · exact .inl rfl
    · rename_i hrm
      exact .inr ⟨eq_false_of_ne_true hrm, _, rfl⟩

/-- What is swept and what is left add up. -/
theorem sum_retain (m : Assoc.Map UInt64 Entry) (f : Entry → ℕ) : ((m.retain fun e => live e.image).entries.map fun e => f e.2).sum +
    ((m.entries.filter fun e => !live e.2.image).map fun e => f e.2).sum = (m.entries.map fun e => f e.2).sum := by
  change ((m.entries.filter fun e => live e.2.image).map _).sum + _ = _
  induction m.entries with
  | nil => rfl
  | cons e es ih =>
    rw [filter_cons, filter_cons, map_cons, sum_cons]
    cases live e.2.image <;> simp only [Bool.not_true, Bool.not_false, false_eq_true, ↓reduceIte, map_cons, sum_cons] <;> omega

/-- Where some entries leave and the counters give up what these took. -/
theorem Sound.leave (h : p.Sound) {m : Assoc.Map UInt64 Entry} {bytes inline : ℕ}
    (hle : m.entries.length ≤ p.entries.entries.length)
    (hbs : (m.entries.map fun e => e.2.bytes).sum + bytes = (p.entries.entries.map fun e => e.2.bytes).sum)
    (hi : (m.entries.map fun e => e.2.inline.toNat).sum + inline = (p.entries.entries.map fun e => e.2.inline.toNat).sum) :
    Sound ⟨m, p.bytes - bytes, p.inlineCount - inline, p.sequence⟩ where
  bytes := Nat.sub_eq_of_eq_add (h.bytes.trans hbs.symm)
  inlineCount := Nat.sub_eq_of_eq_add (h.inlineCount.trans hi.symm)
  entries_le := hle.trans h.entries_le
  bytes_le := (Nat.sub_le _ _).trans h.bytes_le
  inline_le := (Nat.sub_le _ _).trans h.inline_le

theorem Sound.sweep (h : p.Sound) (live : ℕ → Bool) : (p.sweep live).Sound :=
  h.leave (length_filter_le _ _) (sum_retain p.entries Entry.bytes) (sum_retain p.entries fun e => e.inline.toNat)

theorem Sound.insert (h : p.Sound) (hrm : p.isFull bytes inline = false) (hid : id ∉ p.entries.entries.map Prod.fst) (sequence : UInt64) :
    Sound ⟨p.entries.insert id ⟨image, bytes, inline⟩, p.bytes + bytes, p.inlineCount + inline.toNat, sequence⟩ := by
  have hents : (p.entries.insert id ⟨image, bytes, inline⟩).entries = p.entries.entries ++ [(id, ⟨image, bytes, inline⟩)] :=
    Assoc.insert_of_not_mem hid
  simp only [isFull, or_eq_false_iff, decide_eq_false_iff_not, not_le, not_lt, and_eq_false_iff] at hrm
  obtain ⟨⟨hl, hbs⟩, hi⟩ := hrm
  refine ⟨?_, ?_, ?_, hbs, ?_⟩ <;> dsimp only
  · rw [hents, map_append, sum_append, ← h.bytes]
    rfl
  · rw [hents, map_append, sum_append, ← h.inlineCount]
    rfl
  · rw [hents, length_append]
    exact hl
  · rcases hi with hn | hlt
    · rw [hn]
      exact h.inline_le
    · cases inline
      · exact h.inline_le
      · exact hlt

theorem Sound.dispatch (h : p.Sound) (live : ℕ → Bool) (t : Text) : (p.dispatch live t).1.Sound := by
  rw [PendingImages.dispatch]
  split
  · exact h
  rename_i id _
  split
  · exact h
  rename_i e he
  have hbs := Assoc.Map.sum_filterKeys_ne p.entries id Entry.bytes
  have hi := Assoc.Map.sum_filterKeys_ne p.entries id fun e => e.inline.toNat
  rw [he, Option.map_some, Option.getD_some] at hbs hi
  exact h.leave (length_filter_le _ _) hbs hi

end PendingImages

/-! ### Runs -/

section
variable {hash : UInt64 → UInt64} {w : World} {a : Action}

/-- The counters are right, and each nonce is the hash of a sequence number that has been. -/
structure World.Kept (hash : UInt64 → UInt64) (w : World) : Prop where
  sound : w.pending.Sound
  sequence : w.pending.sequence = .ofNat w.images
  keys : ∀ e ∈ w.pending.entries.entries, ∃ n, 1 ≤ n ∧ n ≤ w.images ∧ e.1 = hash (.ofNat n)

theorem World.images_le_step (hash : UInt64 → UInt64) (w : World) (a : Action) : w.images ≤ (w.step hash a).images := by
  cases a with
  | queue payload =>
    rw [step]
    split
    · exact Nat.le_succ _
    · exact le_rfl
  | dispatch title => exact le_rfl
  | drop image => exact le_rfl

theorem World.images_le_run (hash : UInt64 → UInt64) (w : World) (actions : List Action) : w.images ≤ (w.run hash actions).images := by
  induction actions generalizing w with
  | nil => exact le_rfl
  | cons a actions ih => exact (w.images_le_step hash a).trans (ih _)

/-- The nonce of the next sequence number is new, as long as the numbers have not come round. -/
theorem World.Kept.fresh (hi : Injective hash) (h : w.Kept hash) (hf : w.images + 1 < 2 ^ 64) :
    hash (w.pending.sequence + 1) ∉ w.pending.entries.entries.map Prod.fst := by
  intro hm
  obtain ⟨e, he, heq⟩ := mem_map.mp hm
  obtain ⟨n, hn, hle, hk⟩ := h.keys e he
  have hsm := congrArg UInt64.toNat (hi (hk.symm.trans heq))
  rw [h.sequence, ← UInt64.ofNat_one, ← ofNat_add, toNat_ofNat_of_lt' hf,
    toNat_ofNat_of_lt' (hle.trans_lt (Nat.lt_of_succ_lt hf))] at hsm
  omega

/-- Fewer entries are no harm. -/
theorem World.Kept.of_subset {q : PendingImages} (h : w.Kept hash) (hq : q.Sound) (hs : q.sequence = w.pending.sequence)
    (hsub : q.entries.entries ⊆ w.pending.entries.entries) : World.Kept hash { w with pending := q } :=
  ⟨hq, hs.trans h.sequence, fun e he => h.keys e (hsub he)⟩

theorem World.Kept.step (hi : Injective hash) (h : w.Kept hash) (hf : (w.step hash a).images < 2 ^ 64) : (w.step hash a).Kept hash := by
  cases a with
  | queue payload =>
    obtain ⟨q, hq, hque⟩ := w.pending.queue_cases hash w.live w.images payload
    have hk : World.Kept hash { w with pending := q } := by
      rcases hq with rfl | rfl
      · exact h
      · exact h.of_subset (h.sound.sweep w.live) rfl filter_sublist.subset
    rw [step] at hf ⊢
    rcases hque with heq | ⟨hrm, escape, heq⟩
    · rw [heq]
      exact hk
    rw [heq] at hf ⊢
    have hfr := hk.fresh hi hf
    refine ⟨hk.sound.insert hrm hfr _, ?_, fun e he => ?_⟩
    · dsimp only
      rw [ofNat_add, hk.sequence]
      rfl
    · rcases Assoc.Map.mem_entries_insert.mp he with rfl | ⟨he, -⟩
      · exact ⟨w.images + 1, Nat.le_add_left 1 _, le_rfl, by dsimp only; rw [ofNat_add, hk.sequence]; rfl⟩
      · obtain ⟨n, hn, hle, hkey⟩ := hk.keys e he
        exact ⟨n, hn, Nat.le_succ_of_le hle, hkey⟩
  | dispatch title =>
    refine h.of_subset (h.sound.dispatch _ _) ?_ ?_ <;> rw [PendingImages.dispatch] <;> split <;> try split
    all_goals first | rfl | exact .refl _ | exact filter_sublist.subset
  | drop image => exact ⟨h.sound, h.sequence, h.keys⟩

theorem World.Kept.run (hi : Injective hash) (h : w.Kept hash) (actions : List Action) (hf : (w.run hash actions).images < 2 ^ 64) :
    (w.run hash actions).Kept hash := by
  induction actions generalizing w with
  | nil => exact h
  | cons a actions ih => exact ih (h.step hi ((World.images_le_run hash _ actions).trans_lt hf)) hf

theorem countP_eq_sum (es : List (UInt64 × Entry)) : es.countP (fun e => e.2.inline) = (es.map fun e => e.2.inline.toNat).sum := by
  induction es with
  | nil => rfl
  | cons e es ih =>
    rw [countP_cons, map_cons, sum_cons, ih]
    cases e.2.inline <;> simp [Nat.add_comm]

/-- **The counters count what waits**, and the limits hold, whatever is queued, dispatched and dropped, until so many images have been
queued that their numbers come round. -/
theorem accounting (hash : UInt64 → UInt64) (hinj : Injective hash) (actions : List Action) (w : World)
    (hw : init.run hash actions = w) (hfew : w.images < 2 ^ 64) :
    w.pending.bytes = (w.pending.entries.entries.map fun e => e.2.bytes).sum ∧
      w.pending.inlineCount = w.pending.entries.entries.countP (fun e => e.2.inline) ∧
      w.pending.entries.entries.length ≤ maxEntries ∧ w.pending.bytes ≤ maxBytes ∧ w.pending.inlineCount ≤ maxInline := by
  have hinit : init.Kept hash := ⟨⟨rfl, rfl, by decide, by decide, by decide⟩, rfl, nofun⟩
  obtain ⟨⟨hbs, hinl, hents, hle, hle'⟩, -, -⟩ := hinit.run hinj actions (hw ▸ hfew)
  rw [hw] at hbs hinl hents hle hle'
  exact ⟨hbs, hinl.trans (countP_eq_sum _).symm, hents, hle, hle'⟩

theorem accounting_three : (init.run id [.queue (.inline [1, 2, 3]), .queue .resetGraphics,
    .dispatch "pebrel-image-0000000000000001".toList]).pending.bytes = 0 := by
  obtain ⟨hbs, -⟩ := accounting id injective_id [.queue (.inline [1, 2, 3]), .queue .resetGraphics,
    .dispatch "pebrel-image-0000000000000001".toList] _ rfl (by decide)
  rw [hbs]
  decide

end

/-! ### The numbers come round -/

/-- So many bytes that there is no room for as many again. -/
def large : Payload := .graphics [] (replicate (20 * 1024 * 1024) 0)

/-- The first image waits, and the last one of the rounds, which has been dropped. -/
structure Waiting (n : ℕ) (w : World) : Prop where
  entries : w.pending.entries.entries = [(1, ⟨0, 1, true⟩), (.ofNat (n + 1), ⟨n, 20 * 1024 * 1024, false⟩)]
  bytes : w.pending.bytes = 1 + 20 * 1024 * 1024
  inlineCount : w.pending.inlineCount = 1
  sequence : w.pending.sequence = .ofNat (n + 1)
  held : w.held = [0]
  images : w.images = n + 1

theorem size_large : large.size = (20 * 1024 * 1024, false) := by
  rw [large, Payload.size, length_replicate]
  rfl

theorem ofNat_ne_one {n : ℕ} (hn : 1 < n) (hlt : n ≤ 2 ^ 64) : UInt64.ofNat n ≠ 1 := by
  intro h
  have ht := congrArg UInt64.toNat h
  rw [toNat_ofNat', toNat_one] at ht
  rcases hlt.lt_or_eq with hlt | rfl
  · rw [Nat.mod_eq_of_lt hlt] at ht
    omega
  · exact absurd ht (by decide)

/-- A large image is queued beside the first one, and dropped. -/
theorem waiting_of_room {n : ℕ} {w : World} {q : PendingImages}
    (hq : q = if w.pending.isFull (20 * 1024 * 1024) false then w.pending.sweep w.live else w.pending)
    (hents : q.entries.entries = [(1, ⟨0, 1, true⟩)]) (hbs : q.bytes = 1) (hinl : q.inlineCount = 1)
    (hs : q.sequence = .ofNat n) (hh : w.held = [0]) (hi : w.images = n) (hn : 0 < n) (hlt : n + 1 ≤ 2 ^ 64) :
    Waiting n ((w.step id (.queue large)).step id (.drop n)) := by
  have hrm : q.isFull (20 * 1024 * 1024) false = false := by simp [PendingImages.isFull, hents, hbs, maxEntries, maxBytes]
  have hid : q.sequence + 1 = .ofNat (n + 1) := by
    rw [hs, ofNat_add]
    rfl
  have hnew := ofNat_ne_one (n := n + 1) (by omega) hlt
  rw [step, PendingImages.queue, size_large]
  dsimp only
  rw [← hq, if_neg (by rw [hrm]; exact Bool.false_ne_true)]
  dsimp only [step, id]
  refine ⟨?_, ?_, ?_, hid, ?_, congrArg (· + 1) hi⟩ <;> dsimp only
  · rw [hid, hi]
    refine (Assoc.insert_of_not_mem ?_).trans ?_
    · rw [hents]
      simpa using hnew
    · rw [hents]
      rfl
  · rw [hbs]
  · rw [hinl]
    rfl
  · rw [hh, hi]
    simp [hn.ne]

theorem Waiting.round {n : ℕ} {w : World} (h : Waiting n w) (hn : 0 < n) (hlt : n + 2 ≤ 2 ^ 64) :
    Waiting (n + 1) ((w.step id (.queue large)).step id (.drop (n + 1))) := by
  have hfu : w.pending.isFull (20 * 1024 * 1024) false = true := by simp [PendingImages.isFull, h.bytes, maxBytes]
  have hdr : ¬n = 0 := hn.ne'
  refine waiting_of_room (if_pos hfu).symm ?_ ?_ ?_ h.sequence h.held h.images (Nat.succ_pos n) hlt <;>
    simp [PendingImages.sweep, live, Assoc.Map.retain, h.entries, h.bytes, h.inlineCount, h.held, hdr]

theorem World.run_concat (hash : UInt64 → UInt64) (w : World) (actions : List Action) (a : Action) :
    w.run hash (actions ++ [a]) = (w.run hash actions).step hash a := foldl_concat ..

/-- The images of the rounds, after the first one. -/
def rounds (n : ℕ) : List Action := .queue (.inline [0]) :: (range (n + 1)).flatMap fun k => [.queue large, .drop (k + 1)]

theorem waiting_rounds (n : ℕ) (hn : n + 2 ≤ 2 ^ 64) : Waiting (n + 1) (init.run id (rounds n)) := by
  induction n with
  | zero => exact waiting_of_room rfl rfl rfl rfl rfl rfl rfl (by decide) (by decide)
  | succ n ih =>
    have hr := (ih (by omega)).round (Nat.succ_pos n) hn
    rw [rounds, range_succ, flatMap_append, ← cons_append, run, foldl_append]
    exact hr

/-- When the sequence numbers have come round an image takes the place of one that waits, and the counters count both. -/
theorem counters_drift : ¬∀ (hash : UInt64 → UInt64), Injective hash → ∀ actions : List Action,
    (init.run hash actions).pending.bytes = ((init.run hash actions).pending.entries.entries.map fun e => e.2.bytes).sum := by
  intro h
  obtain ⟨n, hn⟩ : ∃ n, n + 2 = 2 ^ 64 := ⟨2 ^ 64 - 2, by decide⟩
  have hl := waiting_rounds n hn.le
  have hsum := h id injective_id (rounds n ++ [.queue .resetGraphics])
  rw [World.run_concat] at hsum
  generalize init.run id (rounds n) = w at hl hsum
  have hrm : w.pending.isFull 0 false = false := by simp [PendingImages.isFull, hl.entries, hl.bytes, maxEntries, maxBytes]
  have hid : w.pending.sequence + 1 = 1 := by
    rw [hl.sequence, hn]
    rfl
  have hents : (w.pending.entries.insert 1 ⟨w.images, 0, false⟩).entries =
      [(1, ⟨w.images, 0, false⟩), (.ofNat (n + 2), ⟨n + 1, 20 * 1024 * 1024, false⟩)] := by
    change Assoc.insert 1 _ w.pending.entries.entries = _
    rw [hl.entries]
    rfl
  rw [step, PendingImages.queue] at hsum
  simp only [Payload.size, hrm, false_eq_true, ↓reduceIte, id, hid, hents, hl.bytes, map_cons, map_nil, sum_cons, sum_nil] at hsum
  omega

end Pebrel.Terminal.InlineImages
