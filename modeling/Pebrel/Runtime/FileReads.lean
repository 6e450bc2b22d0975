import Pebrel.Library.ByteText
import Pebrel.Runtime.Orchestrate

/-!
# Reads of a document

A client reads the text of a tab in chunks (`runtime_tabs.rs`, `runtime_api/tabs.rs`).
No chunk cuts a character and each one goes on where the one before ended, so that the
chunks are the text when the last one has come (`reads_reassemble`). The text is that of
one revision: a read of another one is refused.
-/

namespace Pebrel.Runtime.Tabs

open Library Library.Text Orchestrate List Nat

def maxFileBytes : ℕ := 16 * 1024 * 1024

def maxChunkBytes : ℕ := 64 * 1024

structure ReadParams where
  windowId : ℕ
  tabId : Text
  offset : ℕ
  limit : ℕ
  revision : Option Text

/-- The answer to a read, with the text whose bytes are its data. -/
structure ReadResult where
  windowId : ℕ
  tabId : Text
  kind : Text
  revision : Text
  offset : ℕ
  nextOffset : ℕ
  totalBytes : ℕ
  eof : Bool
  data : Text

def validateTarget (windowId : ℕ) (tabId : Text) : Except ApiError Unit :=
  if windowId = 0 ∨ byteLen tabId ≠ 32 ∨ tabId.all isHexDigit = false then
    .error (.invalidParams "an explicit window_id and snapshot tab_id are required")
  else .ok ()

/-- `parse` of `tab.read`. -/
def parse (p : ReadParams) : Except ApiError ReadParams := do
  validateTarget p.windowId p.tabId
  if ¬(4 ≤ p.limit ∧ p.limit ≤ maxChunkBytes) ∨ maxFileBytes < p.offset ∨
      (∃ s ∈ p.revision, s = [] ∨ 128 < byteLen s) ∨ (0 < p.offset ∧ p.revision = none) then
    .error (.invalidParams "invalid chunk range or missing file revision")
  else .ok p

def checkRevision (expected : Option Text) (actual : Text) : Except ApiError Unit :=
  if ∃ revision ∈ expected, revision ≠ actual then .error (.new "file_changed" "the document changed while reading; refresh it") else .ok ()

def checkSize (total offset : ℕ) : Except ApiError Unit :=
  if maxFileBytes < total then .error (.new "file_too_large" "file exceeds the 16 MiB reader budget")
  else if total < offset then .error (.invalidParams "offset exceeds the file length")
  else .ok ()

/-- The name of a revision of a text. -/
def textRevision (revision : ℕ) : Text := "text:".toList ++ Nat.toDigits 10 revision

/-- The part of a text that ends at most three bytes before so many, where a character ends. -/
def part (text : Text) (offset stop : ℕ) : Option Text :=
  ([0, 1, 2, 3] : List ℕ).findSome? fun back => if back ≤ stop ∧ offset ≤ stop - back then sliceBytes text ⟨offset, stop - back⟩ else none

/-- `read_chunk` of a text, with the target that `dispatch_read` adds. -/
def readChunk (text : Text) (revision : ℕ) (p : ReadParams) : Except ApiError ReadResult := do
  checkRevision p.revision (textRevision revision)
  checkSize (byteLen text) p.offset
  match part text p.offset (min (min (p.offset + p.limit) (2 ^ 64 - 1)) (byteLen text)) with
  | none => .error (.invalidParams "offset is not a UTF-8 boundary")
  | some data =>
    let nextOffset := p.offset + byteLen data
    .ok ⟨p.windowId, p.tabId, "text".toList, textRevision revision, p.offset, nextOffset, byteLen text, nextOffset = byteLen text, data⟩

/-- A request to read, from its validation on. -/
def dispatchRead (text : Text) (revision : ℕ) (p : ReadParams) : Except ApiError ReadResult := do
  let p ← parse p
  readChunk text revision p

/-- A client that reads a tab: the chunks it has, and where it goes on. -/
structure Reader where
  windowId : ℕ
  tabId : Text
  chunks : List Text
  offset : ℕ
  revision : Option Text
  eof : Bool

/-- The request for the next chunk. -/
def Reader.request (c : Reader) (limit : ℕ) : ReadParams := ⟨c.windowId, c.tabId, c.offset, limit, c.revision⟩

/-- The client asks for the next chunk, unless it has the last one. -/
def Reader.read (text : Text) (revision : ℕ) (c : Reader) (limit : ℕ) : Except ApiError Reader :=
  if c.eof then .ok c
  else do
    let result ← dispatchRead text revision (c.request limit)
    .ok { c with chunks := c.chunks ++ [result.data], offset := result.nextOffset, revision := some result.revision, eof := result.eof }

/-- What is accepted as the limit of a chunk. -/
def Accepted (limit : ℕ) : Prop := 4 ≤ limit ∧ limit ≤ maxChunkBytes

/-- The client has read so much of the text, and the text goes on with the rest. -/
structure Reader.Follows (text : Text) (revision : ℕ) (c : Reader) (rest : Text) : Prop where
  target : validateTarget c.windowId c.tabId = .ok ()
  split : text = c.chunks.flatten ++ rest
  offset : c.offset = byteLen c.chunks.flatten
  revision : c.revision = some (textRevision revision) ∨ c.revision = none ∧ c.chunks = []
  eof : c.chunks ≠ [] → (c.eof = true ↔ rest = [])
  fresh : c.chunks = [] → c.eof = false
  progress : ∀ chunk ∈ c.chunks, chunk = [] → text = []

section
variable {a b rest text data : Text} {n limit offset revision : ℕ} {c : Reader}

/-! ### Parts of a text -/

/-- What is before so many bytes is what is before them in the part that they reach into. -/
theorem splitAtByte_add (a b : Text) (n : ℕ) : splitAtByte (byteLen a + n) (a ++ b) = (splitAtByte n b).map fun e => (a ++ e.1, e.2) := by
  induction a with
  | nil =>
    rw [show byteLen [] + n = n from Nat.zero_add n, nil_append]
    exact Option.map_id'.symm
  | cons x a ih =>
    obtain ⟨m, hm⟩ : ∃ m, byteLen (x :: a) + n = m + 1 := by
      have := x.utf8Size_pos
      exact ⟨byteLen (x :: a) + n - 1, by rw [byteLen_cons]; omega⟩
    have hr : m + 1 - x.utf8Size = byteLen a + n := by
      rw [byteLen_cons] at hm
      omega
    rw [hm, cons_append, splitAtByte, if_pos (by rw [byteLen_cons] at hm; omega), hr, ih, Option.map_map]
    rfl

theorem of_splitAtByte (h : splitAtByte n b = some (data, rest)) : b = data ++ rest ∧ byteLen data = n := by
  induction b generalizing n data with
  | nil =>
    cases n with
    | zero => cases h; exact ⟨rfl, rfl⟩
    | succ n => cases h
  | cons x b ih =>
    cases n with
    | zero => cases h; exact ⟨rfl, rfl⟩
    | succ n =>
      rw [splitAtByte, Option.ite_none_right_eq_some] at h
      obtain ⟨hsz, h⟩ := h
      obtain ⟨⟨data', rest'⟩, hsp, heq⟩ := Option.map_eq_some_iff.mp h
      cases heq
      obtain ⟨rfl, hl⟩ := ih hsp
      refine ⟨rfl, ?_⟩
      rw [byteLen_cons]
      dsimp only at hl ⊢
      omega

/-- A character begins at most three bytes before any place of a text. -/
theorem exists_boundary (h : n ≤ byteLen b) : ∃ back < 4, back ≤ n ∧ (splitAtByte (n - back) b).isSome := by
  induction b generalizing n with
  | nil =>
    obtain rfl := le_zero.mp h
    exact ⟨0, by decide, le_rfl, rfl⟩
  | cons x b ih =>
    have hsz := x.utf8Size_le_four
    rw [byteLen_cons] at h
    by_cases hn : x.utf8Size ≤ n
    · obtain ⟨back, hlt, hle, hs⟩ := ih (n := n - x.utf8Size) (by omega)
      have hp := x.utf8Size_pos
      obtain ⟨m, hm⟩ : ∃ m, n - back = m + 1 := ⟨n - back - 1, by omega⟩
      refine ⟨back, hlt, by omega, ?_⟩
      rw [hm, splitAtByte, if_pos (by omega), Option.isSome_map]
      rwa [show m + 1 - x.utf8Size = n - x.utf8Size - back by omega]
    · refine ⟨n, by omega, le_rfl, ?_⟩
      rw [Nat.sub_self]
      rfl

theorem sliceBytes_add (a b : Text) (n : ℕ) : sliceBytes (a ++ b) ⟨byteLen a, byteLen a + n⟩ = (splitAtByte n b).map Prod.fst := by
  rw [sliceBytes, if_pos (Nat.le_add_right _ _), splitAtByte_add]
  cases splitAtByte n b with
  | none => rfl
  | some e =>
    rw [Option.map_some, Option.bind_some, splitAtByte_append]
    rfl

/-- There is a part from where a character begins. It is whole characters, and not fewer bytes than asked for but three. -/
theorem part_spec (h : n ≤ byteLen b) : ∃ data rest, part (a ++ b) (byteLen a) (byteLen a + n) = some data ∧ b = data ++ rest ∧
    byteLen data ≤ n ∧ n ≤ byteLen data + 3 ∧ (n = byteLen b → rest = []) := by
  by_cases ha : n = byteLen b
  · subst ha
    refine ⟨b, [], ?_, (append_nil b).symm, le_rfl, Nat.le_add_right _ _, fun _ => rfl⟩
    have hsli : sliceBytes (a ++ b) ⟨byteLen a, byteLen a + byteLen b⟩ = some b := by
      rw [← append_nil (a ++ b), sliceBytes_append]
    rw [part, findSome?_cons, if_pos ⟨Nat.zero_le _, Nat.le_add_right _ _⟩, Nat.sub_zero, hsli]
  obtain ⟨back, hbk, hle, hs⟩ := exists_boundary h
  have hfd : (part (a ++ b) (byteLen a) (byteLen a + n)).isSome := by
    rw [part, findSome?_isSome_iff]
    refine ⟨back, by simp only [mem_cons, not_mem_nil]; omega, ?_⟩
    rw [if_pos (by omega), show byteLen a + n - back = byteLen a + (n - back) by omega, sliceBytes_add, Option.isSome_map]
    exact hs
  obtain ⟨data, hdata⟩ := Option.isSome_iff_exists.mp hfd
  obtain ⟨back, hbk, hsli⟩ := exists_of_findSome?_eq_some hdata
  obtain ⟨hle, hsli⟩ := Option.ite_none_right_eq_some.mp hsli
  rw [show byteLen a + n - back = byteLen a + (n - back) by omega, sliceBytes_add] at hsli
  obtain ⟨⟨data', rest⟩, hsp, rfl⟩ := Option.map_eq_some_iff.mp hsli
  obtain ⟨hb, hl⟩ := of_splitAtByte hsp
  simp only [mem_cons, not_mem_nil, or_false] at hbk
  exact ⟨data', rest, hdata, hb, by omega, by omega, fun heq => absurd heq ha⟩

/-! ### One read -/

theorem byteLen_le (t : Text) : byteLen t ≤ 4 * t.length := by
  induction t with
  | nil => exact le_rfl
  | cons x t ih =>
    have hsz := x.utf8Size_le_four
    rw [byteLen_cons, length_cons]
    omega

theorem textRevision_inj {r : ℕ} (h : textRevision r = textRevision revision) : r = revision := toDigits_inj (append_cancel_left h)

theorem parse_eq {p : ReadParams} (htg : validateTarget p.windowId p.tabId = .ok ()) (hl : Accepted p.limit) (ho : p.offset ≤ maxFileBytes)
    (hrev : p.revision = some (textRevision revision) ∨ p.revision = none ∧ p.offset = 0) (hr : revision < 2 ^ 64) : parse p = .ok p := by
  have hds : byteLen (textRevision revision) ≤ 128 := by
    have hlen := (length_toDigits_le_iff (b := 10) (by decide) (by decide : 0 < 20)).mpr (hr.trans (by decide))
    have hsz := byteLen_le (toDigits 10 revision)
    have ht : byteLen "text:".toList = 5 := by decide
    rw [textRevision, byteLen_append, ht]
    omega
  rw [parse, htg]
  refine if_neg ?_
  rintro (h | h | ⟨s, hs, h⟩ | ⟨hp, hn⟩)
  · exact h hl
  · omega
  · rcases hrev with hsome | ⟨hn, -⟩
    · obtain rfl := Option.some.inj (hsome.symm.trans hs)
      rcases h with h | h
      · exact absurd h (cons_ne_nil _ _)
      · omega
    · rw [hn] at hs
      cases hs
  · rcases hrev with hsome | ⟨-, hz⟩
    · exact absurd (hsome.symm.trans hn) nofun
    · omega

/-- A client that has not the last chunk gets the next one. -/
theorem Reader.Follows.read (h : c.Follows text revision rest) (hsz : byteLen text ≤ maxFileBytes) (hr : revision < 2 ^ 64)
    (hl : Accepted limit) (he : c.eof = false) :
    ∃ data rest' c', c.read text revision limit = .ok c' ∧ rest = data ++ rest' ∧ c'.chunks = c.chunks ++ [data] ∧
      c'.Follows text revision rest' := by
  have ht := congrArg byteLen h.split
  rw [byteLen_append, ← h.offset] at ht
  have hmin : min (min (c.offset + limit) (2 ^ 64 - 1)) (byteLen text) = byteLen c.chunks.flatten + min limit (byteLen rest) := by
    rw [maxFileBytes] at hsz
    rw [← h.offset]
    omega
  obtain ⟨data, rest', hpt, hrest, hle, hge, ha⟩ := part_spec (a := c.chunks.flatten) (min_le_right limit (byteLen rest))
  have hrest' : byteLen rest = byteLen data + byteLen rest' := by rw [hrest, byteLen_append]
  have hnil_iff (t : Text) : t = [] ↔ byteLen t = 0 :=
    ⟨fun h => h ▸ rfl, fun h => length_eq_zero_iff.mp (le_zero.mp (h ▸ length_le_byteLen t))⟩
  have hdata (hnil : data = []) : text = [] := by
    have hz : rest = [] := by
      by_cases hlt : limit < byteLen rest
      · have hfour := hl.1
        rw [(hnil_iff data).mp hnil] at hge
        omega
      · rw [hrest, ha (min_eq_right (not_lt.mp hlt)), hnil]
        rfl
    by_cases hchun : c.chunks = []
    · rw [h.split, hz, hchun]
      rfl
    · exact absurd ((h.eof hchun).mpr hz) (by rw [he]; exact Bool.false_ne_true)
  have hps : parse (c.request limit) = .ok (c.request limit) := by
    refine @parse_eq revision _ h.target hl (by dsimp only [request]; omega) ?_ hr
    rcases h.revision with hs | ⟨hn, hnil⟩
    · exact .inl hs
    · exact .inr ⟨hn, by dsimp only [request]; rw [h.offset, hnil]; rfl⟩
  have hchk : checkRevision c.revision (textRevision revision) = .ok () := by
    rw [checkRevision, if_neg]
    rintro ⟨expected, hm, hne⟩
    rcases h.revision with hs | ⟨hn, -⟩
    · exact hne (Option.some.inj (hm.symm.trans hs))
    · exact absurd (hm.symm.trans hn) nofun
  have hsiz : checkSize (byteLen text) c.offset = .ok () := by
    rw [checkSize, if_neg (by omega), if_neg (by omega)]
  have hrd : c.read text revision limit = .ok { c with
      chunks := c.chunks ++ [data], offset := c.offset + byteLen data, revision := some (textRevision revision),
      eof := decide (c.offset + byteLen data = byteLen text) } := by
    have hpt' : part text c.offset (min (min (c.offset + limit) (2 ^ 64 - 1)) (byteLen text)) = some data := by
      rw [hmin, h.offset]
      conv_lhs => arg 1; rw [h.split]
      exact hpt
    have hc : readChunk text revision (c.request limit) = .ok ⟨c.windowId, c.tabId, "text".toList, textRevision revision, c.offset,
        c.offset + byteLen data, byteLen text, c.offset + byteLen data = byteLen text, data⟩ := by
      rw [readChunk, show (c.request limit).revision = c.revision from rfl, hchk, show (c.request limit).offset = c.offset from rfl, hsiz,
        show (c.request limit).limit = limit from rfl, hpt']
      rfl
    rw [Reader.read, he, dispatchRead, hps]
    simp only [Bool.false_eq_true, ↓reduceIte]
    change (readChunk text revision (c.request limit)).bind _ = _
    rw [hc]
    rfl
  refine ⟨data, rest', _, hrd, hrest, rfl, h.target, ?_, ?_, .inl rfl, fun _ => ?_, fun hnil => ?_, fun chunk hc hnil => ?_⟩
  · rw [flatten_append, flatten_singleton, append_assoc, ← hrest]
    exact h.split
  · rw [flatten_append, flatten_singleton, byteLen_append, h.offset]
  · rw [decide_eq_true_iff, hnil_iff]
    omega
  · exact absurd hnil (append_ne_nil_of_right_ne_nil _ (cons_ne_nil _ _))
  · rcases mem_append.mp hc with hm | hm
    · exact h.progress chunk hm hnil
    · exact hdata (mem_singleton.mp hm ▸ hnil)

/-! ### Reads in a row -/

/-- The client asks for chunks with these limits. -/
def Reader.run (text : Text) (revision : ℕ) (limits : List ℕ) (c : Reader) :
    Except ApiError Reader := limits.foldlM (Reader.read text revision) c

theorem Reader.run_of_eof (h : c.eof = true) (limits : List ℕ) : c.run text revision limits = .ok c := by
  induction limits with
  | nil => rfl
  | cons limit limits ih =>
    rw [Reader.run, foldlM_cons, Reader.read, if_pos h]
    exact ih

/-- Chunk after chunk the client follows the text, until it has the last one. -/
theorem Reader.Follows.run (h : c.Follows text revision rest) (hsz : byteLen text ≤ maxFileBytes) (hr : revision < 2 ^ 64) (limits : List ℕ)
    (hl : ∀ limit ∈ limits, Accepted limit) : ∃ c' rest', c.run text revision limits = .ok c' ∧ c'.Follows text revision rest' ∧
      (c'.eof = false → c'.chunks.length = c.chunks.length + limits.length) := by
  induction limits generalizing c rest with
  | nil => exact ⟨c, rest, rfl, h, fun _ => rfl⟩
  | cons limit limits ih =>
    cases he : c.eof with
    | true => exact ⟨c, rest, run_of_eof he _, h, fun hn => absurd (he.symm.trans hn) (by decide)⟩
    | false =>
      obtain ⟨data, rest', c', hrd, -, hc, hf⟩ := h.read hsz hr (hl limit mem_cons_self) he
      obtain ⟨c'', rest'', hrun, hf, hlen⟩ := ih hf fun limit hm => hl limit (mem_cons_of_mem _ hm)
      refine ⟨c'', rest'', ?_, hf, fun he => ?_⟩
      · rw [Reader.run, foldlM_cons, hrd]
        exact hrun
      · rw [hlen he, hc, length_append, length_cons, length_cons, length_nil]
        omega

/-- A text has as many bytes as it has chunks, and more. -/
theorem length_le_byteLen_flatten (chunks : List Text) (h : ∀ chunk ∈ chunks, chunk ≠ []) : chunks.length ≤ byteLen chunks.flatten := by
  induction chunks with
  | nil => exact le_rfl
  | cons chunk chunks ih =>
    have hp := length_pos_iff.mpr (h chunk mem_cons_self)
    have hle := length_le_byteLen chunk
    have hr := ih fun other hm => h other (mem_cons_of_mem _ hm)
    rw [length_cons, flatten_cons, byteLen_append]
    omega

/-- **Reads reassemble the text**: whatever limits a client asks with, each chunk is a further part of the text, and when the last one
has come the chunks are the text. That is after as many reads as the text has bytes, and one. A read of another revision is refused. -/
theorem reads_reassemble (text : Text) (revision windowId : ℕ) (tabId : Text) (hsize : byteLen text ≤ maxFileBytes) (hr : revision < 2 ^ 64)
    (htarget : validateTarget windowId tabId = .ok ()) :
    (∀ first : Option Text, first = none ∨ first = some (textRevision revision) → ∀ limits : List ℕ, (∀ limit ∈ limits, Accepted limit) →
      ∃ c, Reader.run text revision limits ⟨windowId, tabId, [], 0, first, false⟩ = .ok c ∧ c.chunks.flatten <+: text ∧
        c.offset = byteLen c.chunks.flatten ∧ (∀ chunk ∈ c.chunks, chunk = [] → text = []) ∧ (c.eof = true → c.chunks.flatten = text) ∧
        (c.eof = false → c.chunks.length = limits.length) ∧ (byteLen text < limits.length → c.eof = true)) ∧
      (∀ p : ReadParams, parse p = .ok p → (∃ expected ∈ p.revision, expected ≠ textRevision revision) →
        dispatchRead text revision p = .error (.new "file_changed" "the document changed while reading; refresh it")) ∧
      ∀ other, textRevision other = textRevision revision → other = revision := by
  refine ⟨fun first hfst limits hlim => ?_, fun p hps hoth => ?_, fun _ => textRevision_inj⟩
  · have hst : Reader.Follows text revision ⟨windowId, tabId, [], 0, first, false⟩ text :=
      ⟨htarget, rfl, rfl, hfst.symm.imp_right fun h => ⟨h, rfl⟩, fun h => absurd rfl h, fun _ => rfl, nofun⟩
    obtain ⟨c, rest, hrun, hfol, hlen⟩ := hst.run hsize hr limits hlim
    have hlen (heof : c.eof = false) : c.chunks.length = limits.length := (hlen heof).trans (Nat.zero_add _)
    refine ⟨c, hrun, ⟨rest, hfol.split.symm⟩, hfol.offset, hfol.progress, fun heof => ?_, hlen, fun hlt => ?_⟩
    · have hchu : c.chunks ≠ [] := fun hnil => absurd (heof.symm.trans (hfol.fresh hnil)) (by decide)
      have hsp := hfol.split
      rwa [(hfol.eof hchu).mp heof, append_nil, eq_comm] at hsp
    · by_contra heof
      have heof := eq_false_of_ne_true heof
      have hchu : c.chunks ≠ [] := length_pos_iff.mp (by rw [hlen heof]; omega)
      have hne : text ≠ [] := fun hnil => by
        have hsp := hfol.split
        rw [hnil] at hsp
        exact absurd ((hfol.eof hchu).mpr (append_eq_nil_iff.mp hsp.symm).2) (by rw [heof]; exact Bool.false_ne_true)
      have hle := length_le_byteLen_flatten c.chunks fun chunk hmem hnil => hne (hfol.progress chunk hmem hnil)
      have ht := congrArg byteLen hfol.split
      rw [byteLen_append] at ht
      have := hlen heof
      omega
  · rw [dispatchRead, hps]
    change readChunk text revision p = _
    rw [readChunk, checkRevision, if_pos hoth]
    rfl

/-- The text of the reader's test, in chunks of at most four bytes. -/
theorem reads_reassemble_four : ∃ c, Reader.run "a中文😀z".toList 9 (replicate 13 4) ⟨1, replicate 32 'a', [], 0, none, false⟩ = .ok c ∧
    c.chunks.flatten = "a中文😀z".toList := by
  obtain ⟨c, hrun, -, -, -, heof, -, hl⟩ := (reads_reassemble "a中文😀z".toList 9 1 (replicate 32 'a') (by decide) (by decide) rfl).1
    none (.inl rfl) (replicate 13 4) fun _ h => eq_of_mem_replicate h ▸ ⟨by decide, by decide⟩
  exact ⟨c, hrun, heof (hl (by decide))⟩

end

end Pebrel.Runtime.Tabs
