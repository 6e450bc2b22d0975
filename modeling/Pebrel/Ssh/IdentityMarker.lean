import Mathlib.Data.List.Infix
import Pebrel.Ssh.Pump

/-!
# The marker of the shell

The shell of a pane tells the terminal that it runs in by a marker in its output
(`ssh_session/resume/identity.rs`), which the user is not to see. The filter holds
back what may be a part of the marker, lets it through when it is none, and takes the
marker out. It looks at the first text that starts as a marker only: when that has no
end, too long a value, or a value that is no identity, nothing is taken out any more.
-/

namespace Pebrel.Ssh

open Library List PtyIdentity
open Pebrel.Stream (Bytes)
open Pebrel.Stream (ascii)

namespace IdentityInput

/-! ### Chunks -/

/-- The chunks of the output, one after another. -/
def feedAll (f : IdentityInput) : List Bytes → IdentityInput × Bytes
  | [] => (f, [])
  | bytes :: chunks =>
    let (f, output) := f.feed bytes
    let (f, rest) := f.feedAll chunks
    (f, output ++ rest)

def finish (f : IdentityInput) : IdentityInput × Bytes := ({ f with candidate := [], done := true }, f.candidate)

/-- What the session lets through, to its end. -/
def session (token : Bytes) (chunks : List Bytes) : Bytes × Option PtyIdentity :=
  let (f, output) := (new token).feedAll chunks
  let (f, rest) := f.finish
  (output ++ rest, f.identity)

/-! ### Markers -/

/-- A complete marker of `total`. -/
structure Marker (start total before body after : Bytes) : Prop where
  split : total = before ++ start ++ body ++ 0x1f :: after
  ended : 0x1f ∉ body
  short : body.length ≤ 160
  early : before.length + start.length + body.length + 1 ≤ 8192

/-- Nothing starts as a marker earlier than after `before`. -/
def Foremost (start total before : Bytes) : Prop := ∀ pre, pre ++ start <+: total → before.length ≤ pre.length

/-- The complete marker that starts first. -/
def FirstMarker (start total before body after : Bytes) : Prop :=
  Marker start total before body after ∧ ∀ before' body' after', Marker start total before' body' after' → before.length ≤ before'.length

/-- What is let through of `total`: all but the first text that starts as a marker, if it is one. -/
def Filtered (start total out : Bytes) (identity : Option PtyIdentity) : Prop :=
  (∃ before body after i, Marker start total before body after ∧ Foremost start total before ∧ parse body = some i ∧
    out = before ++ after ∧ identity = some i) ∨
  (∀ before body after, Marker start total before body after → Foremost start total before → parse body = none) ∧
    out = total ∧ identity = none

section Markers

variable {start total before body after pre rest : Bytes}

/-- What comes before the first end of a value. -/
theorem value_unique {body' : Bytes} (hbody : 0x1f ∉ body) (hbody' : 0x1f ∉ body') (h : body ++ 0x1f :: rest = body' ++ 0x1f :: after) :
    body = body' := by
  rcases append_eq_append_iff.mp h with ⟨between, hb, hr⟩ | ⟨between, hb, hr⟩ <;> cases between with
  | nil => simp [hb]
  | cons b between =>
    obtain rfl := (List.cons.inj hr).1
    simp [hb] at hbody hbody'

theorem Marker.occurs (h : Marker start total before body after) : before ++ start <+: total :=
  ⟨body ++ 0x1f :: after, by rw [h.split]; simp⟩

theorem Foremost.append (h : Foremost start total before) (hb : before ++ start <+: total) (rest : Bytes) :
    Foremost start (total ++ rest) before := by
  intro pre hp
  by_contra hlt
  have hl := hb.length_le
  rw [length_append] at hl
  refine hlt (h pre (prefix_of_prefix_length_le hp (prefix_append total rest) ?_))
  rw [length_append]
  omega

theorem Foremost.unique (h : Foremost start total before) (hb : before ++ start <+: total) (hp : Foremost start total pre)
    (ho : pre ++ start <+: total) : pre = before := by
  have hl : pre.length = before.length := le_antisymm (hp before hb) (h pre ho)
  have hp : pre <+: total := (prefix_append pre start).trans ho
  have hb : before <+: total := (prefix_append before start).trans hb
  exact (prefix_of_prefix_length_le hp hb hl.le).eq_of_length hl

end Markers

/-! ### What is held back -/

/-- `candidate` is held back of `total`: the longest end that may start a marker, or a marker that has no end yet. -/
def Held (start total out candidate : Bytes) : Prop :=
  total = out ++ candidate ∧
    (candidate.length < start.length ∧ candidate <+: start ∧ (∀ q, q <+: start → q <:+ total → q.length ≤ candidate.length) ∧
        ¬ start <:+: total ∨
      ∃ body, candidate = start ++ body ∧ 0x1f ∉ body ∧ Foremost start total out)

section Held

variable {start total out candidate body rest : Bytes} {byte : UInt8}

/-- A marker that is all in what has been read ends in it. -/
theorem Held.not_marker (h : Held start total out candidate) {before body after : Bytes}
    (hmk : Marker start (total ++ rest) before body after) (hfore : Foremost start (total ++ rest) before)
    (hrd : before.length + start.length + body.length + 1 ≤ total.length) : False := by
  obtain ⟨rfl, hsh | ⟨body', rfl, hbody, hout⟩⟩ := h
  · refine hsh.2.2.2 (List.IsInfix.trans ⟨before, [], (append_nil _)⟩ (List.IsPrefix.isInfix ?_))
    refine prefix_of_prefix_length_le hmk.occurs (prefix_append _ rest) ?_
    rw [length_append]
    omega
  · have ho : out ++ start <+: out ++ (start ++ body') := ⟨body', by simp⟩
    obtain rfl := (hout.append ho rest).unique (ho.trans (prefix_append _ rest)) hfore hmk.occurs
    have hsp := hmk.split
    simp only [append_assoc, append_cancel_left_eq] at hsp
    have hl : body.length < body'.length := by
      simp only [length_append] at hrd
      omega
    have hg : (body' ++ rest)[body.length]? = some 0x1f := by rw [hsp]; simp
    rw [getElem?_append_left hl] at hg
    exact hbody (mem_of_getElem? hg)

theorem Held.filtered (h : Held start total out candidate) (hl : rest = [] ∨ 8192 ≤ total.length) :
    Filtered start (total ++ rest) (out ++ candidate ++ rest) none := by
  refine .inr ⟨fun before body after hmk hfore => (h.not_marker hmk hfore ?_).elim, by rw [h.1], rfl⟩
  rcases hl with rfl | hl
  · rw [append_nil] at hmk
    have hsp := congrArg length hmk.split
    simp only [length_append, length_cons] at hsp
    omega
  · exact hmk.early.trans hl

/-- A value that is too long. -/
theorem filtered_of_long (hbody : 0x1f ∉ body) (hlg : 160 < body.length) (hout : Foremost start (out ++ (start ++ body)) out) :
    Filtered start (out ++ (start ++ body) ++ rest) (out ++ (start ++ body) ++ rest) none := by
  refine .inr ⟨fun before body' after hmk hfore => ?_, rfl, rfl⟩
  have ho : out ++ start <+: out ++ (start ++ body) := ⟨body, by simp⟩
  obtain rfl := (hout.append ho rest).unique (ho.trans (prefix_append _ rest)) hfore hmk.occurs
  have hsp := hmk.split
  simp only [append_assoc, append_cancel_left_eq] at hsp
  have hg : (body ++ rest)[body'.length]? = some 0x1f := by rw [hsp]; simp
  rw [getElem?_append_left (hmk.short.trans_lt hlg)] at hg
  exact absurd (mem_of_getElem? hg) hbody

/-- The end of a value. -/
theorem filtered_of_end (hbody : 0x1f ∉ body) (hsh : body.length ≤ 160) (hout : Foremost start (out ++ (start ++ body)) out)
    (he : out.length + start.length + body.length + 1 ≤ 8192) :
    Filtered start (out ++ (start ++ body) ++ 0x1f :: rest)
      (if (parse body).isSome then out ++ rest else out ++ (start ++ body) ++ 0x1f :: rest) (parse body) := by
  have ho : out ++ start <+: out ++ (start ++ body) := ⟨body, by simp⟩
  have hfore := hout.append ho (0x1f :: rest)
  cases hps : parse body with
  | some i => exact .inl ⟨out, body, rest, i, ⟨by simp, hbody, hsh, he⟩, hfore, hps, rfl, rfl⟩
  | none =>
    refine .inr ⟨fun before body' after hmk hfore' => ?_, rfl, rfl⟩
    obtain rfl := hfore.unique (ho.trans (prefix_append _ _)) hfore' hmk.occurs
    have hsp := hmk.split
    simp only [append_assoc, append_cancel_left_eq] at hsp
    rw [← value_unique hbody hmk.ended hsp]
    exact hps

/-- The ends of what has been read that may start a marker, after one more byte. -/
theorem suffix_step {a : UInt8} {tail q : Bytes} (ha : a ∉ tail) (hc : candidate <+: a :: tail) (hs : candidate <:+ total)
    (hl : ∀ q, q <+: a :: tail → q <:+ total → q.length ≤ candidate.length) (hq : q <+: a :: tail)
    (hqs : q <:+ total ++ [byte]) : q = [] ∨ q = candidate ++ [byte] ∨ q = [byte] ∧ byte = a := by
  rcases suffix_concat_iff.mp hqs with rfl | ⟨p, rfl, hp⟩
  · exact .inl rfl
  refine .inr ?_
  have hpst : p <+: a :: tail := (prefix_append p [byte]).trans hq
  cases p with
  | nil =>
    obtain ⟨rest, hr⟩ := hq
    exact .inr ⟨rfl, (List.cons.inj hr).1⟩
  | cons b p =>
    obtain rfl : b = a := (cons_prefix_cons.mp hpst).1
    obtain ⟨dropped, rfl⟩ : b :: p <:+ candidate := suffix_of_suffix_length_le hp hs (hl _ hpst hp)
    cases dropped with
    | nil => exact .inl rfl
    | cons c dropped =>
      refine absurd ?_ ha
      rw [cons_append, cons_prefix_cons] at hc
      exact hc.2.subset (by simp)

theorem Held.candidate_suffix (h : Held start total out candidate) : candidate <:+ total := ⟨out, h.1.symm⟩

/-- While the start of a marker is looked for, a byte is held back or what was held back is let through. -/
theorem Held.short {tail candidate' passed : Bytes} (hst : start = 0x1e :: tail) (htl : 0x1e ∉ tail)
    (h : Held start total out candidate) (hsh : candidate.length < start.length)
    (hp : passed ++ candidate' = candidate ++ [byte]) (hsh' : candidate'.length < start.length) (hs : candidate' <+: start)
    (hn : candidate' = candidate ++ [byte] ∨ ¬ candidate ++ [byte] <+: start ∧ (byte = 0x1e → candidate' = [byte])) :
    Held start (total ++ [byte]) (out ++ passed) candidate' := by
  subst hst
  obtain ⟨ht, hold | ⟨body, rfl, -⟩⟩ := id h
  · have hends : ∀ q, q <+: 0x1e :: tail → q <:+ total ++ [byte] → q.length ≤ candidate'.length := by
      intro q hq hqs
      rcases suffix_step htl hold.2.1 h.candidate_suffix hold.2.2.1 hq hqs with rfl | rfl | ⟨rfl, hb⟩
      · exact Nat.zero_le _
      · rcases hn with hn | hn
        · rw [hn]
        · exact absurd hq hn.1
      · rcases hn with rfl | hn
        · rw [length_append]
          exact Nat.le_add_left 1 _
        · rw [hn.2 hb]
    refine ⟨?_, .inl ⟨hsh', hs, hends, fun hi => ?_⟩⟩
    · rw [ht, append_assoc, append_assoc, hp]
    · rcases infix_concat_iff.mp hi with hsuf | hi
      · exact absurd (hends _ prefix_rfl hsuf) (Nat.not_le.mpr hsh')
      · exact hold.2.2.2 hi
  · rw [length_append] at hsh
    omega

/-- The start of a marker is complete. -/
theorem Held.started (h : Held start total out candidate) (hsh : candidate.length < start.length)
    (hc : candidate ++ [byte] = start) : Held start (total ++ [byte]) out (candidate ++ [byte]) := by
  obtain ⟨ht, hold | ⟨body, rfl, -⟩⟩ := id h
  · refine ⟨by rw [ht, append_assoc], .inr ⟨[], by rw [append_nil, hc], not_mem_nil, fun pre hp => ?_⟩⟩
    by_contra hlt
    have hl := congrArg length hc
    rw [length_append, length_singleton] at hl
    have hp : pre ++ start <+: total := by
      refine prefix_of_prefix_length_le hp (prefix_append total [byte]) ?_
      rw [ht, length_append, length_append]
      omega
    exact hold.2.2.2 (.trans ⟨pre, [], append_nil _⟩ hp.isInfix)
  · rw [length_append] at hsh
    omega

/-- The value of a marker goes on. -/
theorem Held.longer (h : Held start total out candidate) (hlg : ¬ candidate.length < start.length) (hb : byte ≠ 0x1f) :
    Held start (total ++ [byte]) out (candidate ++ [byte]) := by
  obtain ⟨rfl, hold | ⟨body, rfl, hbody, ho⟩⟩ := h
  · exact absurd hold.1 hlg
  refine ⟨by rw [append_assoc], .inr ⟨body ++ [byte], by rw [append_assoc], ?_, ?_⟩⟩
  · rw [mem_append, mem_singleton]
    exact fun h => h.elim hbody fun h => hb h.symm
  · exact ho.append ⟨body, by simp⟩ [byte]

end Held

/-! ### Runs -/

/-- The filter has let through `out` of `total`. -/
structure Filtering (start total out : Bytes) (f : IdentityInput) : Prop where
  start_eq : f.start = start
  looking : f.done = false → f.scanned = total.length ∧ total.length < 8192 ∧ f.identity = none ∧ Held start total out f.candidate ∧
    f.candidate.length ≤ start.length + 160
  settled : f.done = true → f.candidate = [] ∧ ∀ rest, Filtered start (total ++ rest) (out ++ rest) f.identity

theorem scan_start (f : IdentityInput) (byte : UInt8) : (f.scan byte).1.start = f.start ∧ (f.scan byte).1.scanned = f.scanned := by
  rw [scan]
  repeat' split
  all_goals exact ⟨rfl, rfl⟩

section Filtering

variable {start tail total out : Bytes} {f : IdentityInput}

/-- One byte: something is still held back, or the marker has ended. -/
theorem Held.scan (h : Held start total out f.candidate) (hst : start = 0x1e :: tail) (htl : 0x1e ∉ tail) (hl : 1 < start.length)
    (hf : f.start = start) (hd : f.done = false) (hid : f.identity = none) (hh : f.candidate.length ≤ start.length + 160)
    (he : total.length < 8192) (byte : UInt8) :
    (f.scan byte).1.done = false ∧ (f.scan byte).1.identity = none ∧
        Held start (total ++ [byte]) (out ++ (f.scan byte).2) (f.scan byte).1.candidate ∨
      (f.scan byte).1.done = true ∧ (f.scan byte).1.candidate = [] ∧
        ∀ rest, Filtered start (total ++ [byte] ++ rest) (out ++ (f.scan byte).2 ++ rest) (f.scan byte).1.identity := by
  rw [IdentityInput.scan, hf]
  split
  · rename_i hsh
    have hold := h.2.resolve_right fun ⟨body, hbody, _⟩ => by
      rw [hbody, length_append] at hsh
      omega
    have hnx : f.candidate ++ [byte] <+: start ↔ start[f.candidate.length]? = some byte := by
      obtain ⟨rest, hr⟩ := hold.2.1
      rw [← hr, prefix_append_right_inj, getElem?_append_right le_rfl, Nat.sub_self]
      cases rest with
      | nil => simp
      | cons b rest => simp [eq_comm]
    split
    · rename_i hb
      have hs := hnx.mpr hb
      refine .inl ⟨hd, hid, ?_⟩
      rw [append_nil]
      rcases hs.length_le.lt_or_eq with hlt | heq
      · have hh : Held start (total ++ [byte]) (out ++ []) (f.candidate ++ [byte]) := h.short hst htl hsh rfl hlt hs (.inl rfl)
        rwa [append_nil] at hh
      · exact h.started hsh (hs.eq_of_length heq)
    · rename_i hb
      have hm := hnx.not.mpr hb
      split
      · rename_i hhd
        obtain rfl : byte = 0x1e := by
          rw [hst] at hhd
          exact (Option.some.inj hhd).symm
        exact .inl ⟨hd, hid, h.short hst htl hsh rfl hl (hst ▸ ⟨tail, rfl⟩) (.inr ⟨hm, fun _ => rfl⟩)⟩
      · rename_i hhd
        refine .inl ⟨hd, hid, h.short hst htl hsh (append_nil _) (Nat.zero_lt_of_lt hl) nil_prefix (.inr ⟨hm, fun hb => absurd ?_ hhd⟩)⟩
        rw [hst, hb]
        rfl
  · rename_i hlg
    split
    · rename_i hb
      obtain ⟨rfl, hold | ⟨body, hbody, hend, ho⟩⟩ := h
      · exact absurd hold.1 hlg
      rw [hbody] at ho hh he ⊢
      rw [drop_left]
      rw [length_append, length_append] at he
      rw [length_append] at hh
      have hfil := fun rest => @filtered_of_end _ _ _ rest hend (by omega) ho (by omega)
      subst hb
      split
      · rename_i i hps
        refine .inr ⟨rfl, rfl, fun rest => ?_⟩
        have h := hfil rest
        rw [hps] at h
        simpa using h
      · rename_i hps
        refine .inr ⟨rfl, rfl, fun rest => ?_⟩
        have h := hfil rest
        rw [hps] at h
        simpa [hid] using h
    · rename_i hb
      refine .inl ⟨hd, hid, ?_⟩
      rw [append_nil]
      exact h.longer hlg hb

/-- After a byte it is seen whether too much has been looked at or is held back. -/
theorem Filtering.limit {output : Bytes} (hst : f.start = start) (hs : f.scanned = total.length) (hear : total.length ≤ 8192)
    (hscan : f.done = false ∧ f.identity = none ∧ Held start total (out ++ output) f.candidate ∨
      f.done = true ∧ f.candidate = [] ∧ ∀ rest, Filtered start (total ++ rest) (out ++ output ++ rest) f.identity) :
    let r := if 8192 ≤ f.scanned ∨ f.start.length + 160 < f.candidate.length
      then ({ f with candidate := [], done := true }, output ++ f.candidate)
      else (f, output)
    Filtering start total (out ++ r.2) r.1 := by
  dsimp only
  rcases hscan with ⟨ho, hn, hh⟩ | ⟨hcl, he, hset⟩
  · split
    · rename_i hl
      rw [hst, hs] at hl
      refine ⟨hst, fun hd => (nomatch hd), fun _ => ⟨rfl, fun rest => ?_⟩⟩
      rw [hn, ← append_assoc]
      by_cases hrd : 8192 ≤ total.length
      · exact hh.filtered (.inr hrd)
      have hlen := hl.resolve_left hrd
      obtain ⟨ht, hsh | ⟨body, hbody, hend, hout⟩⟩ := hh
      · have := hsh.1
        omega
      · rw [hbody, length_append] at hlen
        rw [ht, hbody] at hout ⊢
        exact filtered_of_long hend (by omega) hout
    · rename_i hl
      rw [hst, hs] at hl
      dsimp only
      exact ⟨hst, fun _ => ⟨hs, by omega, hn, hh, by omega⟩, fun hd => absurd (ho.symm.trans hd) (by decide)⟩
  · split
    · refine ⟨hst, fun hd => (nomatch hd), fun _ => ⟨rfl, fun rest => ?_⟩⟩
      rw [he, append_nil]
      exact hset rest
    · exact ⟨hst, fun hd => absurd (hcl.symm.trans hd) (by decide), fun _ => ⟨he, hset⟩⟩

section
variable (h : Filtering start total out f)
include h

theorem Filtering.feedByte (hst : start = 0x1e :: tail) (htl : 0x1e ∉ tail) (hl : 1 < start.length) (byte : UInt8) :
    Filtering start (total ++ [byte]) (out ++ (f.feedByte byte).2) (f.feedByte byte).1 := by
  rw [IdentityInput.feedByte]
  split
  · rename_i hdone
    obtain ⟨hh, hset⟩ := h.settled hdone
    refine ⟨h.start_eq, fun hd => absurd (hdone.symm.trans hd) (by decide), fun _ => ⟨hh, fun rest => ?_⟩⟩
    have hr := hset (byte :: rest)
    rw [append_cons, append_cons out] at hr
    exact hr
  · rename_i hdone
    have hdone := eq_false_of_ne_true hdone
    obtain ⟨hs, he, hid, hh, hlg⟩ := h.looking hdone
    have hscan := Held.scan (f := { f with scanned := f.scanned + 1 }) hh hst htl hl h.start_eq hdone hid hlg he byte
    obtain ⟨hst', hs'⟩ := scan_start { f with scanned := f.scanned + 1 } byte
    have ht : (total ++ [byte]).length = total.length + 1 := length_append
    refine .limit (hst'.trans h.start_eq) (hs'.trans ?_) (by omega) hscan
    rw [ht, ← hs]

theorem Filtering.feed (hst : start = 0x1e :: tail) (htl : 0x1e ∉ tail)
    (hl : 1 < start.length) (bytes : Bytes) : Filtering start (total ++ bytes) (out ++ (f.feed bytes).2) (f.feed bytes).1 := by
  induction bytes generalizing f total out with
  | nil =>
    rw [IdentityInput.feed, append_nil, append_nil]
    exact h
  | cons byte bytes ih =>
    have hr := ih (h.feedByte hst htl hl byte)
    rw [append_assoc, append_assoc] at hr
    exact hr

theorem Filtering.feedAll (hst : start = 0x1e :: tail) (htl : 0x1e ∉ tail) (hl : 1 < start.length) (chunks : List Bytes) :
    Filtering start (total ++ chunks.flatten) (out ++ (f.feedAll chunks).2) (f.feedAll chunks).1 := by
  induction chunks generalizing f total out with
  | nil =>
    rw [IdentityInput.feedAll, flatten_nil, append_nil, append_nil]
    exact h
  | cons bytes chunks ih =>
    have hr := ih (h.feed hst htl hl bytes)
    rw [append_assoc, append_assoc] at hr
    exact hr

/-- At the end of the session what is held back is let through. -/
theorem Filtering.finish : Filtered start total (out ++ f.finish.2) f.identity := by
  cases hd : f.done with
  | true =>
    obtain ⟨hh, hs⟩ := h.settled hd
    have hr := hs []
    rw [append_nil] at hr
    rw [IdentityInput.finish, hh]
    exact hr
  | false =>
    obtain ⟨-, -, hid, hh, -⟩ := h.looking hd
    have hf := @Held.filtered _ _ _ _ [] hh (.inl rfl)
    rw [append_nil, append_nil] at hf
    rw [hid]
    exact hf

end

end Filtering

/-! ### Sessions -/

theorem start_new (token : Bytes) : (new token).start = 0x1e :: (ascii "PEBREL_PTY_" ++ token ++ ascii "=") := by
  simp [new]

theorem filtering_new (token : Bytes) : Filtering (new token).start [] [] (new token) := by
  refine ⟨rfl, fun _ => ⟨rfl, by decide, rfl, ⟨rfl, .inl ⟨?_, nil_prefix, fun q _ hq => ?_, fun h => ?_⟩⟩, Nat.zero_le _⟩,
    fun h => (nomatch h)⟩
  · rw [start_new]
    exact Nat.succ_pos _
  · rw [suffix_nil.mp hq]
    exact Nat.zero_le _
  · rw [start_new] at h
    exact absurd (infix_nil.mp h) (by simp)

theorem filtered_session {token : Bytes} (ht : 0x1e ∉ token) (chunks : List Bytes) :
    Filtered (new token).start chunks.flatten (session token chunks).1 (session token chunks).2 := by
  have htl : 0x1e ∉ ascii "PEBREL_PTY_" ++ token ++ ascii "=" := by
    rw [mem_append, mem_append]
    rintro ((h | h) | h)
    · exact absurd h (by decide)
    · exact ht h
    · exact absurd h (by decide)
  have hl : 1 < (new token).start.length := by
    rw [start_new, length_cons, length_append, length_append]
    have : 0 < (ascii "=").length := by decide
    omega
  exact ((filtering_new token).feedAll (start_new token) htl hl chunks).finish

theorem Filtered.identity_iff {start total out : Bytes} {identity : Option PtyIdentity} (h : Filtered start total out identity) :
    identity.isSome = true ↔ out ≠ total := by
  rcases h with ⟨before, body, after, i, hmk, -, -, rfl, rfl⟩ | ⟨-, rfl, rfl⟩
  · refine iff_of_true rfl fun h => ?_
    have hl := congrArg length (h.trans hmk.split)
    simp only [length_append, length_cons] at hl
    omega
  · exact iff_of_false (by decide) fun h => h rfl

/-- **At most one marker is taken out**, for all chunks alike, and the identity is known just when one is. -/
theorem session_filtered {token : Bytes} (htoken : 0x1e ∉ token ∧ 0x1f ∉ token) (chunks : List Bytes) :
    Filtered (new token).start chunks.flatten (session token chunks).1 (session token chunks).2 ∧
      ((session token chunks).2.isSome = true ↔ (session token chunks).1 ≠ chunks.flatten) :=
  ⟨filtered_session htoken.1 chunks, (filtered_session htoken.1 chunks).identity_iff⟩

theorem session_filtered_split : Filtered (new (ascii "7")).start [ascii "$ ", (new (ascii "7")).start, ascii "/dev/"].flatten
      (session (ascii "7") [ascii "$ ", (new (ascii "7")).start, ascii "/dev/"]).1
      (session (ascii "7") [ascii "$ ", (new (ascii "7")).start, ascii "/dev/"]).2 :=
  (@session_filtered (ascii "7") (by decide) [ascii "$ ", (new (ascii "7")).start, ascii "/dev/"]).1

/-- A start with too long a value, and then a marker. -/
def decoyed (start : Bytes) : Bytes := start ++ List.replicate 161 0x20 ++ start ++ ascii "/dev/pts/3:42"

theorem not_mem_decoyed {start : Bytes} (h : 0x1f ∉ start) : 0x1f ∉ decoyed start := by
  rw [decoyed, mem_append, mem_append, mem_append, mem_replicate]
  rintro (((h' | h') | h') | h')
  · exact h h'
  · exact absurd h'.2 (by decide)
  · exact h h'
  · exact absurd h' (by decide)

/-- A marker of it ends where it ends. -/
theorem Marker.length_decoyed {start before body after : Bytes} (hst : 0x1f ∉ start)
    (h : Marker start (decoyed start ++ [0x1f]) before body after) :
    before.length + body.length = start.length + 174 := by
  have hlen : (decoyed start).length = start.length + 161 + start.length + 13 := by
    rw [decoyed, length_append, length_append, length_append, length_replicate]
    rfl
  have he := congrArg length h.split
  have hg : (decoyed start ++ [0x1f])[(before ++ start ++ body).length]? = some 0x1f := by rw [h.split]; simp
  have hl : ¬ (before ++ start ++ body).length < (decoyed start).length := by
    intro hlt
    rw [getElem?_append_left hlt] at hg
    exact not_mem_decoyed hst (mem_of_getElem? hg)
  simp only [length_append, length_cons, length_nil] at he hl
  omega

/-- A marker of it does not start in the value that is too long. -/
theorem Marker.not_space {start tail before body after : Bytes} (hst : start = 0x1e :: tail)
    (h : Marker start (decoyed start ++ [0x1f]) before body after) :
    ¬ (start.length ≤ before.length ∧ before.length < start.length + 161) := by
  rintro ⟨hge, hlt⟩
  have hg : (decoyed start ++ [0x1f])[before.length]? = some 0x1e := by
    rw [h.split, hst]
    simp
  rw [decoyed, append_assoc, append_assoc, getElem?_append_left (by rwa [length_append, length_replicate]), getElem?_append_right hge,
    getElem?_replicate, if_pos (by omega)] at hg
  exact absurd hg (by decide)

theorem first_marker_kept : ¬ ∀ (token : Bytes) (chunks : List Bytes) (before body after : Bytes) (i : PtyIdentity),
    0x1e ∉ token → 0x1f ∉ token → FirstMarker (new token).start chunks.flatten before body after → parse body = some i →
      (session token chunks).1 = before ++ after := by
  intro h
  have hst : 0x1f ∉ (new (ascii "7")).start := by decide
  have hlen : (new (ascii "7")).start.length = 14 := by decide
  have hmk : Marker (new (ascii "7")).start (decoyed (new (ascii "7")).start ++ [0x1f])
      ((new (ascii "7")).start ++ replicate 161 0x20) (ascii "/dev/pts/3:42") [] := by
    refine ⟨rfl, by decide, by decide, ?_⟩
    rw [length_append, length_replicate, hlen]
    decide
  have hfst : FirstMarker (new (ascii "7")).start (decoyed (new (ascii "7")).start ++ [0x1f])
      ((new (ascii "7")).start ++ replicate 161 0x20) (ascii "/dev/pts/3:42") [] := by
    refine ⟨hmk, fun before body after hoth => ?_⟩
    have hends := hoth.length_decoyed hst
    have hsh := hoth.short
    have hspa := hoth.not_space (start_new _)
    rw [length_append, length_replicate]
    omega
  have hout := h (ascii "7") [decoyed (new (ascii "7")).start ++ [0x1f]] _ _ _ ⟨"/dev/pts/3".toList, 42⟩ (by decide) (by decide)
    (by rwa [flatten_singleton]) (by decide)
  have hfil := @filtered_session (ascii "7") (by decide) [decoyed (new (ascii "7")).start ++ [0x1f]]
  rw [flatten_singleton, hout] at hfil
  rcases hfil with ⟨before, body, after, i, hoth, hfore, -, -, -⟩ | ⟨-, htot, -⟩
  · have hends := hoth.length_decoyed hst
    have hsh := hoth.short
    have hpre := hfore [] ⟨replicate 161 0x20 ++ (new (ascii "7")).start ++ ascii "/dev/pts/3:42" ++ [0x1f],
      by simp only [decoyed, append_assoc, nil_append]⟩
    rw [length_nil] at hpre
    omega
  · have hsp := congrArg length (htot.trans hmk.split)
    simp only [length_append, length_cons] at hsp
    omega

end IdentityInput

end Pebrel.Ssh
