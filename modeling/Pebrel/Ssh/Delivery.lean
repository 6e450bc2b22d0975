import Pebrel.Ssh.Pump

/-!
# What the pump delivers

The bytes that the terminal is fed are the data that the server sent, each byte once
and in order, less the marker of the shell. What the pane sends is written in order,
each once. The first is not so where the pump ends too early: at an exit status or an
exit signal that comes before the last data. It is not so either where what the shell
writes on the side overtakes what is held back as a part of a marker.
-/

namespace Pebrel.Ssh

open Library Transition List
open Pebrel.Stream (Bytes)
open Pebrel.Stream (ascii)

/-! ### The marker -/

/-- `out` is `total`, but for one marker of the shell at most. -/
def LessMarker (token : Option Bytes) (total out : Bytes) : Prop :=
  out = total ∨ ∃ t, token = some t ∧ ∃ before body after, total = before ++ (IdentityInput.new t).start ++ body ++ 0x1f :: after ∧
    (PtyIdentity.parse body).isSome ∧ out = before ++ after

variable {token : Option Bytes} {total fed : Bytes} {f : Option IdentityInput} {messages script : List ChannelMsg}

theorem LessMarker.append {out : Bytes} (h : LessMarker token total out) (bytes : Bytes) :
    LessMarker token (total ++ bytes) (out ++ bytes) := by
  rcases h with rfl | ⟨t, ht, before, body, after, rfl, hbody, rfl⟩
  · exact .inl rfl
  · exact .inr ⟨t, ht, before, body, after ++ bytes, by simp, hbody, by simp⟩

namespace IdentityInput

/-- The filter has let through `out` of `total`. -/
structure Passed (t : Bytes) (f : IdentityInput) (total out : Bytes) : Prop where
  start : f.start = (new t).start
  open_ : f.done = false → total = out ++ f.candidate ∧ (f.candidate <+: f.start ∨ f.start <+: f.candidate)
  closed : f.done = true → f.candidate = [] ∧ LessMarker (some t) total out

variable {t total out start : Bytes} {f : IdentityInput} {byte : UInt8}

theorem passed_new (t : Bytes) : Passed t (new t) [] [] := ⟨rfl, fun _ => ⟨rfl, .inl nil_prefix⟩, fun h => nomatch h⟩

/-- What was held back is let through. -/
theorem Passed.flush (h : Passed t f total out) : LessMarker (some t) total (out ++ f.candidate) := by
  cases hd : f.done with
  | false => exact .inl (h.open_ hd).1.symm
  | true =>
    rw [(h.closed hd).1, append_nil]
    exact (h.closed hd).2

/-- Bytes that are not looked at pass while nothing is held back. -/
theorem Passed.aside (h : Passed t f total out) (hh : f.candidate = []) (bytes : Bytes) : Passed t f (total ++ bytes) (out ++ bytes) := by
  refine ⟨h.start, fun hd => ⟨?_, (h.open_ hd).2⟩, fun hd => ⟨hh, (h.closed hd).2.append bytes⟩⟩
  have ht := (h.open_ hd).1
  rw [hh, append_nil] at ht ⊢
  rw [ht]

theorem start_head (h : start.head? = some byte) : [byte] <+: start := by
  obtain ⟨rest, rfl⟩ := head?_eq_some_iff.mp h
  exact ⟨rest, rfl⟩

theorem candidate_append {candidate : Bytes} (h : candidate <+: start) (hb : start[candidate.length]? = some byte) :
    candidate ++ [byte] <+: start := by
  obtain ⟨rest, rfl⟩ := h
  rw [getElem?_append_right le_rfl, Nat.sub_self, ← head?_eq_getElem?] at hb
  obtain ⟨rest, rfl⟩ := head?_eq_some_iff.mp hb
  exact ⟨rest, by simp⟩

/-- One byte is let through, is held back, or ends a marker. -/
theorem Passed.scan (h : Passed t f total out) (hdone : f.done = false)
    (byte : UInt8) : Passed t (f.scan byte).1 (total ++ [byte]) (out ++ (f.scan byte).2) := by
  obtain ⟨rfl, hcand⟩ := h.open_ hdone
  rw [IdentityInput.scan]
  split
  · rename_i hsh
    have hcand : f.candidate <+: f.start := hcand.resolve_right fun hst => absurd hst.length_le (by omega)
    split
    · rename_i hb
      exact ⟨h.start, fun _ => ⟨by simp, .inl (candidate_append hcand hb)⟩, fun hd => absurd (hdone.symm.trans hd) (by decide)⟩
    split
    · rename_i hhd
      exact ⟨h.start, fun _ => ⟨rfl, .inl (start_head hhd)⟩, fun hd => absurd (hdone.symm.trans hd) (by decide)⟩
    · exact ⟨h.start, fun _ => ⟨by simp, .inl nil_prefix⟩, fun hd => absurd (hdone.symm.trans hd) (by decide)⟩
  · rename_i hlg
    obtain ⟨body, hbody⟩ : f.start <+: f.candidate := by
      rcases hcand with hcand | hcand
      · exact (hcand.eq_of_length (le_antisymm hcand.length_le (by omega))) ▸ prefix_rfl
      · exact hcand
    split
    · rename_i he
      rw [← hbody, drop_left]
      split
      · rename_i identity hps
        refine ⟨h.start, (nomatch ·), fun _ => ⟨rfl, .inr ⟨t, rfl, out, body, [], ?_, by rw [hps]; rfl, rfl⟩⟩⟩
        rw [he, ← h.start]
        simp
      · exact ⟨h.start, (nomatch ·), fun _ => ⟨rfl, .inl (by simp)⟩⟩
    · refine ⟨h.start, fun _ => ⟨by simp, .inr ⟨body ++ [byte], ?_⟩⟩, fun hd => absurd (hdone.symm.trans hd) (by decide)⟩
      rw [← hbody]
      simp

theorem Passed.feedByte (h : Passed t f total out) (byte : UInt8) :
    Passed t (f.feedByte byte).1 (total ++ [byte]) (out ++ (f.feedByte byte).2) := by
  rw [IdentityInput.feedByte]
  split
  · rename_i hdone
    exact ⟨h.start, fun hd => absurd (hdone.symm.trans hd) (by decide), fun _ => ⟨(h.closed hdone).1, (h.closed hdone).2.append [byte]⟩⟩
  rename_i hdone
  have hscan : Passed t ({ f with scanned := f.scanned + 1 }.scan byte).1 (total ++ [byte])
      (out ++ ({ f with scanned := f.scanned + 1 }.scan byte).2) :=
    .scan (f := { f with scanned := f.scanned + 1 }) ⟨h.start, h.open_, h.closed⟩ (eq_false_of_ne_true hdone) byte
  dsimp only
  split
  · refine ⟨hscan.start, (nomatch ·), fun _ => ⟨rfl, ?_⟩⟩
    rw [← append_assoc]
    exact hscan.flush
  · exact hscan

theorem Passed.feed (h : Passed t f total out) (bytes : Bytes) : Passed t (f.feed bytes).1 (total ++ bytes) (out ++ (f.feed bytes).2) := by
  induction bytes generalizing f total out with
  | nil =>
    rw [IdentityInput.feed, append_nil, append_nil]
    exact h
  | cons byte bytes ih =>
    have hr := ih (h.feedByte byte)
    rw [append_assoc, append_assoc] at hr
    exact hr

end IdentityInput

/-! ### What is fed -/

/-- What is held back. -/
def held : Option IdentityInput → Bytes
  | some f => f.candidate
  | none => []

/-- `fed` was let through of `total`. -/
def Shown (token : Option Bytes) (f : Option IdentityInput) (total fed : Bytes) : Prop :=
  match token, f with
  | some t, some f => f.Passed t total fed
  | none, none => fed = total
  | _, _ => False

theorem Shown.opened (token : Option Bytes) : Shown token (token.map .new) [] [] := by
  cases token with
  | none => rfl
  | some t => exact IdentityInput.passed_new t

theorem Shown.lessMarker (h : Shown token f total fed) : LessMarker token total (fed ++ held f) := by
  cases token <;> cases f
  · exact .inl (by rw [show fed = total from h, held, append_nil])
  · exact h.elim
  · exact h.elim
  · exact IdentityInput.Passed.flush h

/-- Nothing that is written on the side comes while something is held back. -/
def Unheld : Option IdentityInput → List ChannelMsg → Prop
  | _, [] => True
  | f, message :: messages =>
    (match message with
      | .extendedData _ => held f = []
      | _ => True) ∧ Unheld (feedMessage f message).1 messages

instance Unheld.decidable : (f : Option IdentityInput) → (messages : List ChannelMsg) → Decidable (Unheld f messages)
  | _, [] => inferInstanceAs (Decidable True)
  | f, message :: messages =>
    have : Decidable (Unheld (feedMessage f message).1 messages) := Unheld.decidable _ messages
    match message with
    | .extendedData _ => inferInstanceAs (Decidable (_ ∧ _))
    | .data _ | .success | .failure | .windowAdjusted | .exitStatus _ | .exitSignal | .eof | .close | .other =>
      inferInstanceAs (Decidable (True ∧ _))

theorem Shown.feedMessage (h : Shown token f total fed) {message : ChannelMsg} (hu : Unheld f (message :: messages)) :
    Shown token (feedMessage f message).1 (total ++ message.bytes) (fed ++ (feedMessage f message).2) := by
  cases message with
  | data bytes =>
    cases token <;> cases f
    · exact congrArg (· ++ bytes) h
    · exact h.elim
    · exact h.elim
    · exact .feed h bytes
  | extendedData bytes =>
    cases token <;> cases f
    · exact congrArg (· ++ bytes) h
    · exact h.elim
    · exact h.elim
    · exact .aside h hu.1 bytes
  | _ =>
    simp only [Ssh.feedMessage, ChannelMsg.bytes, append_nil]
    exact h

/-- The bytes of the messages. -/
def bytesOf (messages : List ChannelMsg) : Bytes := messages.flatMap ChannelMsg.bytes

@[simp] theorem bytesOf_cons (message : ChannelMsg) (messages : List ChannelMsg) :
    bytesOf (message :: messages) = message.bytes ++ bytesOf messages := rfl

@[simp] theorem bytesOf_append (messages messages' : List ChannelMsg) :
    bytesOf (messages ++ messages') = bytesOf messages ++ bytesOf messages' := flatMap_append

theorem bytesOf_eq_nil : bytesOf messages = [] ↔ ∀ message ∈ messages, message.bytes = [] := flatMap_eq_nil_iff

/-! ### The loop that feeds -/

namespace Pump

/-- What is still to come. -/
def rest (p : Pump) : List ChannelMsg := p.ready ++ p.script

/-- The pump `p'` differs from `p` in what it takes from the server only. -/
def SameDesk (p p' : Pump) : Prop :=
  p' = { p with pending := p'.pending, incoming := p'.incoming, identityInput := p'.identityInput, fed := p'.fed }

theorem feedLoop_sameDesk (bytes messages : ℕ) (p : Pump) (message : ChannelMsg) : SameDesk p (feedLoop bytes messages p message) := by
  induction hn : p.ready.length using Nat.strong_induction_on generalizing bytes messages p message with
  | _ n ih =>
    rw [feedLoop]
    split
    · dsimp only
      split
      · exact rfl
      split
      · rename_i next p' hnx
        obtain ⟨hrd, -, hsm⟩ := readyMessage_ready hnx
        have hl := congrArg length hrd
        rw [length_cons] at hl
        change p.ready.length = p'.ready.length + 1 at hl
        have hr := ih p'.ready.length (by omega) (bytes + message.bytes.length) (messages + 1) p' next rfl
        rw [SameDesk] at hr ⊢
        rw [hr, hsm]
        rfl
      · exact rfl
    · exact rfl

/-- The messages that the loop takes are fed, and the others stay. -/
theorem feedLoop_shown {token : Option Bytes} (bytes messages : ℕ) {p : Pump} {message : ChannelMsg} {total : Bytes}
    (h : Shown token p.identityInput total p.fed) (hu : Unheld p.identityInput (message :: p.ready)) :
    ∃ more, bytesOf (message :: p.ready) = more ++ bytesOf (feedLoop bytes messages p message).ready ∧
      (feedLoop bytes messages p message).ready.Sublist (message :: p.ready) ∧
      Shown token (feedLoop bytes messages p message).identityInput (total ++ more) (feedLoop bytes messages p message).fed := by
  induction hn : p.ready.length using Nat.strong_induction_on generalizing bytes messages p message total with
  | _ n ih =>
    rw [feedLoop]
    split
    · have hf := h.feedMessage hu
      dsimp only
      split
      · exact ⟨message.bytes, rfl, sublist_cons_self _ _, hf⟩
      split
      · rename_i next p' hnx
        obtain ⟨hrd, -, hsm⟩ := readyMessage_ready hnx
        change p.ready = next :: p'.ready at hrd
        have hin : p'.identityInput = (feedMessage p.identityInput message).1 := by rw [hsm]; rfl
        have ho : p'.fed = p.fed ++ (feedMessage p.identityInput message).2 := by rw [hsm]; rfl
        rw [← hin, ← ho] at hf
        have hr := hu.2
        rw [← hin, hrd] at hr
        obtain ⟨more, hmore, hs, hsh⟩ := ih p'.ready.length (by rw [← hn, hrd]; simp)
          (bytes + message.bytes.length) (messages + 1) hf hr rfl
        refine ⟨message.bytes ++ more, ?_, ?_, ?_⟩
        · rw [bytesOf_cons, hrd, hmore, append_assoc]
        · rw [hrd]
          exact hs.cons message
        · rw [← append_assoc]
          exact hsh
      · exact ⟨message.bytes, rfl, sublist_cons_self _ _, hf⟩
    · refine ⟨[], rfl, Sublist.refl _, ?_⟩
      rw [append_nil]
      exact h

end Pump

/-! ### The runs -/

namespace ChannelMsg

/-- The output or the channel ends. -/
def isEnd : ChannelMsg → Bool
  | eof | close => true
  | _ => false

/-- The shell ends. -/
def isExit : ChannelMsg → Bool
  | exitStatus _ | exitSignal => true
  | _ => false

end ChannelMsg

/-- After the end of the output, and after the end of the channel, there is no data. -/
def Protocol (messages : List ChannelMsg) : Prop := messages.Pairwise fun message later => message.isEnd → later.bytes = []
deriving Decidable

/-- What the pane has sent and is to be written, was written in order, each once, but for what is still to be. -/
def Written (p : Pump) : Prop := p.written ++ p.writing.toList ++ p.inputs.filterMap Msg.write = p.sent.filterMap Msg.write

/-- What the server has sent was shown, each byte once and in order, but for what is still to come. -/
structure Delivered (token : Option Bytes) (script : List ChannelMsg) (p : Pump) : Prop where
  shown : p.phase ≠ .rejected →
    ∃ taken, bytesOf script = taken ++ bytesOf p.rest ∧ LessMarker token taken (p.fed ++ held p.identityInput)
  rejected : p.phase = .rejected → p.fed = []
  ended : ∀ ok, p.phase = .ended ok → LessMarker token (bytesOf script) p.fed
  written : Written p

/-- The pump ends no earlier than the data, and what is written on the side does not overtake what is held back. -/
def Pump.Attends (p : Pump) : PumpStep → Prop
  | .message => Unheld p.identityInput p.ready ∧ ∀ message ∈ p.ready.head?, message.isExit → bytesOf p.rest = []
  | .drain => Unheld p.identityInput p.ready
  | .input => p.inputs.head? = some .shutdown → bytesOf p.rest = []
  | .complete ok => ok = true ∨ bytesOf p.rest = []
  | _ => True

instance (p : Pump) : (a : PumpStep) → Decidable (p.Attends a)
  | .message => inferInstanceAs (Decidable (_ ∧ _))
  | .drain => inferInstanceAs (Decidable (Unheld _ _))
  | .input => inferInstanceAs (Decidable (_ → _))
  | .complete _ => inferInstanceAs (Decidable (_ ∨ _))
  | .arrive | .hangUp | .request | .abandon | .send _ | .eofDeadline | .syncDeadline => inferInstanceAs (Decidable True)

/-- What holds throughout. -/
structure Delivering (token : Option Bytes) (script : List ChannelMsg) (p : Pump) : Prop where
  protocol : Protocol p.rest
  eof : p.eof = true → bytesOf p.rest = []
  shown : p.phase ≠ .rejected → ∃ taken, bytesOf script = taken ++ bytesOf p.rest ∧ Shown token p.identityInput taken p.fed
  quiet : ∀ left, p.phase = .requesting left ∨ p.phase = .rejected → p.fed = []
  ended : ∀ ok, p.phase = .ended ok → bytesOf p.rest = [] ∧ held p.identityInput = []
  written : Written p

theorem Delivering.delivered {p : Pump} (h : Delivering token script p) : Delivered token script p := by
  refine ⟨fun hph => ?_, fun hph => h.quiet 0 (.inr hph), fun ok hph => ?_, h.written⟩
  · obtain ⟨taken, htk, hsh⟩ := h.shown hph
    exact ⟨taken, htk, hsh.lessMarker⟩
  · obtain ⟨taken, htk, hsh⟩ := h.shown (by rw [hph]; exact nofun)
    obtain ⟨hr, hh⟩ := h.ended ok hph
    have hl := hsh.lessMarker
    rw [hh, append_nil] at hl
    rw [htk, hr, append_nil]
    exact hl

theorem Delivering.opened (h : Protocol script) : Delivering token script (.opened script (token.map .new)) :=
  ⟨h, nofun, fun _ => ⟨[], rfl, .opened token⟩, fun _ _ => rfl, nofun, rfl⟩

section
variable {token : Option Bytes} {script : List ChannelMsg} {p p' : Pump} {left : ℕ} {q : Pump}

section
variable (h : Delivering token script p)
include h

/-- Messages are taken from what is to come, and shown. -/
theorem Delivering.advance (hph : p.phase ≠ .rejected) (hsub : p'.rest.Sublist p.rest) (more : Bytes)
    (hmore : bytesOf p.rest = more ++ bytesOf p'.rest)
    (hsh : ∀ taken, Shown token p.identityInput taken p.fed → Shown token p'.identityInput (taken ++ more) p'.fed)
    (heof : p'.eof = true → p.eof = true ∨ bytesOf p'.rest = [])
    (hq : ∀ left, p'.phase = .requesting left ∨ p'.phase = .rejected → p'.fed = [])
    (hend : ∀ ok, p'.phase = .ended ok → bytesOf p'.rest = [] ∧ held p'.identityInput = [])
    (hwr : Written p') : Delivering token script p' := by
  refine ⟨h.protocol.sublist hsub, fun he => ?_, fun _ => ?_, hq, hend, hwr⟩
  · rcases heof he with he | he
    · have hn := h.eof he
      rw [hmore] at hn
      exact (append_eq_nil_iff.mp hn).2
    · exact he
  · obtain ⟨taken, htk, hs⟩ := h.shown hph
    exact ⟨taken ++ more, by rw [htk, hmore, append_assoc], hsh taken hs⟩

/-- Nothing is taken, and nothing is shown. -/
theorem Delivering.idle (hph : p.phase ≠ .rejected) (hr : p'.rest = p.rest)
    (hin : p'.identityInput = p.identityInput) (hf : p'.fed = p.fed) (heof : p'.eof = p.eof)
    (hq : ∀ left, p'.phase = .requesting left ∨ p'.phase = .rejected → p'.fed = [])
    (hend : ∀ ok, p'.phase ≠ .ended ok) (hwr : Written p') : Delivering token script p' := by
  refine h.advance hph (by rw [hr]) [] (by rw [hr]; rfl) (fun taken hs => ?_) (fun he => .inl (heof ▸ he)) hq
    (fun ok hok => absurd hok (hend ok)) hwr
  rw [hin, hf, append_nil]
  exact hs

/-- The pump ends when all the data have been taken. -/
theorem Delivering.finish (hph : p.phase ≠ .rejected) (hr : bytesOf p.rest = []) (ok : Bool) : Delivering token script (p.finish ok) := by
  rw [Pump.finish]
  split
  · rename_i f hf
    refine h.advance hph (.refl _) [] rfl (fun taken hs => ?_) .inl nofun (fun _ _ => ⟨hr, rfl⟩) h.written
    rw [hf] at hs
    cases token with
    | none => exact hs.elim
    | some t =>
      rw [append_nil]
      exact ⟨hs.start, nofun, fun _ => ⟨rfl, IdentityInput.Passed.flush hs⟩⟩
  · rename_i hf
    refine h.advance hph (.refl _) [] rfl (fun taken hs => ?_) .inl nofun (fun _ _ => ⟨hr, by rw [hf]; rfl⟩) h.written
    rw [append_nil]
    exact hs

theorem Delivering.arrive {message : ChannelMsg} {messages : List ChannelMsg} (hs : p.script = message :: messages) :
    Delivering token script { p with script := messages, incoming := p.incoming ++ [message] } := by
  have hr : ({ p with script := messages, incoming := p.incoming ++ [message] } : Pump).rest = p.rest := by
    simp [Pump.rest, Pump.ready, hs]
  exact ⟨hr ▸ h.protocol, fun he => hr ▸ h.eof he, fun hph => hr ▸ h.shown hph, h.quiet, fun ok hok => hr ▸ h.ended ok hok, h.written⟩

theorem Delivering.reject (hph : p.phase = .requesting left)
    (hs : p'.rest.Sublist p.rest) (hp : p'.phase = .rejected) (heof : p'.eof = p.eof) (hf : p'.fed = p.fed) (hwr : Written p') :
    Delivering token script p' := by
  refine ⟨h.protocol.sublist hs, fun he => ?_, fun hn => absurd hp hn, fun _ _ => ?_, fun ok hok => ?_, hwr⟩
  · exact bytesOf_eq_nil.mpr fun message hm => bytesOf_eq_nil.mp (h.eof (heof ▸ he)) message (hs.subset hm)
  · rw [hf]
    exact h.quiet left (.inl hph)
  · rw [hp] at hok
    exact nomatch hok

theorem Delivering.request (hph : p.phase = .requesting (left + 1)) {message : ChannelMsg}
    {incoming : List ChannelMsg} (hi : p.incoming = message :: incoming) :
    Delivering token script ({ p with incoming := incoming }.request left message) := by
  have hp : p.phase ≠ .rejected := by rw [hph]; rintro ⟨⟩
  have hq : p.fed = [] := h.quiet _ (.inl hph)
  have hsub : ({ p with incoming := incoming } : Pump).rest.Sublist p.rest := by
    simp only [Pump.rest, Pump.ready, hi]
    exact ((sublist_cons_self _ _).append_left p.pending).append_right p.script
  -- A message without data is taken.
  have htk : message.bytes = [] → ∀ phase : Phase, (∀ ok, phase ≠ .ended ok) →
      Delivering token script { p with incoming := incoming, phase := phase } := fun hbs phase he => by
    refine h.advance hp hsub [] ?_ (fun taken hs => ?_) .inl (fun _ _ => hq) (fun ok hok => absurd hok (he ok)) h.written
    · simp [Pump.rest, Pump.ready, hi, hbs]
    · rw [append_nil]
      exact hs
  have hkeep : ∀ n, Delivering token script { p with incoming := incoming, pending := p.pending ++ [message], pendingBytes := n } := fun n => by
    refine h.idle hp ?_ rfl rfl rfl (fun _ _ => hq) (fun ok hok => ?_) h.written
    · simp [Pump.rest, Pump.ready, hi]
    · rw [show p.phase = _ from hok] at hph
      cases hph
  have hr : ∀ n, Delivering token script { p with incoming := incoming, pendingBytes := n, phase := .rejected } :=
    fun n => h.reject hph hsub rfl rfl rfl h.written
  cases message with
  | success =>
    refine htk rfl _ fun ok hok => ?_
    split at hok <;> cases hok
  | windowAdjusted =>
    refine htk rfl p.phase fun ok hok => ?_
    rw [hok] at hph
    cases hph
  | data bytes | extendedData bytes =>
    rw [Pump.request]
    dsimp only
    split
    · exact hr _
    · exact hkeep _
  | _ => exact hr _

/-- Output is fed. -/
theorem Delivering.feedReadyOutput (hph : p.phase = .draining ∨ p.phase = .pumping)
    {message : ChannelMsg} (hrd : p.ready = message :: q.ready)
    (hsm : q = { p with pending := q.pending, incoming := q.incoming }) (hu : Unheld p.identityInput p.ready) :
    Delivering token script (q.feedReadyOutput message) := by
  have hp : p.phase ≠ .rejected := by rcases hph with hph | hph <;> rw [hph] <;> exact nofun
  have hin : q.identityInput = p.identityInput := by rw [hsm]
  have hfed : q.fed = p.fed := by rw [hsm]
  obtain ⟨taken, htk, hs⟩ := h.shown hp
  rw [← hin, ← hfed] at hs
  rw [← hin, hrd] at hu
  obtain ⟨more, hmore, hsub, hsh⟩ := Pump.feedLoop_shown 0 0 hs hu
  have hf : q.SameDesk (q.feedReadyOutput message) := Pump.feedLoop_sameDesk 0 0 q message
  change bytesOf (message :: q.ready) = more ++ bytesOf (q.feedReadyOutput message).ready at hmore
  change (q.feedReadyOutput message).ready.Sublist _ at hsub
  change Shown token (q.feedReadyOutput message).identityInput _ (q.feedReadyOutput message).fed at hsh
  rw [← hrd] at hmore hsub
  have hscr : (q.feedReadyOutput message).script = p.script := by rw [hf, hsm]
  have hr : bytesOf p.rest = more ++ bytesOf (q.feedReadyOutput message).rest := by
    rw [Pump.rest, Pump.rest, bytesOf_append, bytesOf_append, hmore, hscr, append_assoc]
  have hph' : (q.feedReadyOutput message).phase = p.phase := by rw [hf, hsm]
  have hsub' : (q.feedReadyOutput message).rest.Sublist p.rest := by
    rw [Pump.rest, Pump.rest, hscr]
    exact hsub.append_right p.script
  refine ⟨h.protocol.sublist hsub', fun he => ?_, fun _ => ⟨taken ++ more, ?_, hsh⟩, fun left hlf => ?_, fun ok hok => ?_, ?_⟩
  · have heof : (q.feedReadyOutput message).eof = p.eof := by rw [hf, hsm]
    have hn := h.eof (heof ▸ he)
    rw [hr] at hn
    exact (append_eq_nil_iff.mp hn).2
  · rw [htk, hr, append_assoc]
  · rw [hph'] at hlf
    rcases hph with hph | hph <;> rw [hph] at hlf <;> rcases hlf with hlf | hlf <;> exact nomatch hlf
  · rw [hph'] at hok
    rcases hph with hph | hph <;> rw [hph] at hok <;> exact nomatch hok
  · rw [Written, hf, hsm]
    exact h.written

/-- A message of the server is received. -/
theorem Delivering.receive (hph : p.phase = .pumping) {message : ChannelMsg}
    (hq : p.readyMessage = some (message, q)) (hu : Unheld p.identityInput p.ready)
    (hend : message.isExit → bytesOf p.rest = []) :
    Delivering token script (q.receive message) := by
  obtain ⟨hrd, -, hsm⟩ := Pump.readyMessage_ready hq
  have hp : p.phase ≠ .rejected := by rw [hph]; exact nofun
  have hr : p.rest = message :: q.rest := by
    rw [Pump.rest, Pump.rest, hrd, hsm]
    rfl
  have hqph : q.phase = .pumping := by rw [hsm]; exact hph
  have hlat : message.isEnd → bytesOf q.rest = [] := fun he => by
    have hpro := h.protocol
    rw [hr, Protocol, pairwise_cons] at hpro
    exact bytesOf_eq_nil.mpr fun later hl => hpro.1 later hl he
  -- A message without data is taken.
  have htk : message.bytes = [] → ∀ eof : Bool, (eof = true → q.eof = true ∨ bytesOf q.rest = []) →
      Delivering token script { q with eof := eof } := fun hbs eof heof => by
    refine h.advance hp ?_ [] ?_ (fun taken hs => ?_) (fun he => ?_) (fun left hlf => ?_) (fun ok hok => ?_) ?_
    · rw [hr]
      exact sublist_cons_self _ _
    · rw [hr, bytesOf_cons, hbs]
      rfl
    · rw [append_nil, hsm]
      exact hs
    · rcases heof he with he | he
      · rw [hsm] at he
        exact .inl he
      · exact .inr he
    · change q.phase = _ ∨ q.phase = _ at hlf
      rw [hqph] at hlf
      rcases hlf with hlf | hlf <;> exact nomatch hlf
    · change q.phase = _ at hok
      rw [hqph] at hok
      exact nomatch hok
    · rw [Written, hsm]
      exact h.written
  have hqp : q.phase ≠ .rejected := by rw [hqph]; exact nofun
  rw [hr, bytesOf_cons] at hend
  cases message with
  | data bytes | extendedData bytes => exact h.feedReadyOutput (.inr hph) hrd hsm hu
  | exitStatus status => exact (htk rfl q.eof .inl).finish hqp (hend rfl) true
  | exitSignal => exact (htk rfl q.eof .inl).finish hqp (hend rfl) false
  | close => exact (htk rfl q.eof .inl).finish hqp (hlat rfl) false
  | eof => exact htk rfl true fun _ => .inr (hlat rfl)
  | _ => exact htk rfl q.eof .inl

end

theorem filterMap_write (message : Msg) (inputs : List Msg) :
    (message :: inputs).filterMap Msg.write = message.write.toList ++ inputs.filterMap Msg.write := by
  rw [filterMap_cons]
  cases message.write <;> rfl

/-- A message of the pane is taken. -/
theorem Delivering.take (h : Delivering token script p) (hph : p.phase = .pumping) (hw : p.writing = none) {message : Msg}
    {inputs : List Msg} (hi : p.inputs = message :: inputs) (he : message = .shutdown → bytesOf p.rest = []) :
    Delivering token script ({ p with inputs := inputs }.take message) := by
  have hp : p.phase ≠ .rejected := by rw [hph]; exact nofun
  have hwr := h.written
  rw [Written, hw, hi] at hwr
  have hidle : ∀ write, message.write = write → Delivering token script
    { p with inputs := inputs, writing := write } := fun write hwrit => by
    refine h.idle hp rfl rfl rfl rfl (fun left hlf => ?_) (fun ok hok => ?_) ?_
    · rw [hph] at hlf
      rcases hlf with hlf | hlf <;> exact nomatch hlf
    · rw [show p.phase = _ from hok] at hph
      exact nomatch hph
    · rw [Written]
      change p.written ++ write.toList ++ inputs.filterMap Msg.write = p.sent.filterMap Msg.write
      rw [← hwr, ← hwrit, filterMap_write, Option.toList_none, append_nil, append_assoc]
  cases message with
  | shutdown =>
    have hq : ({ p with inputs := inputs } : Pump) = { p with inputs := inputs, writing := none } := by rw [← hw]
    rw [Pump.take, hq]
    exact (hidle none rfl).finish hp (he rfl) true
  | _ => exact hidle _ rfl

/-- **What one step keeps.** -/
theorem Delivering.step {a : PumpStep} (h : Delivering token script p) (ha : p.Attends a) (hst : p.step a = some p') :
    Delivering token script p' := by
  have hp : p.phase = .pumping → p.phase ≠ .rejected := fun hph => by rw [hph]; rintro ⟨⟩
  cases a with
  | arrive =>
    rw [Pump.step] at hst
    split at hst
    · rename_i message messages hs
      cases hst
      exact h.arrive hs
    · cases hst
  | hangUp =>
    rw [Pump.step] at hst
    split at hst
    · rename_i he
      have hr : bytesOf p.rest = [] := by rw [Pump.rest, he.1, he.2]; rfl
      split at hst
      · rename_i left hph
        cases hst
        exact h.reject hph (.refl _) rfl rfl rfl h.written
      · rename_i hph
        cases hst
        exact h.finish (hp hph) hr false
      · cases hst
    · cases hst
  | request =>
    rw [Pump.step] at hst
    split at hst
    · rename_i left message incoming hph hinc
      cases hst
      exact h.request hph hinc
    · cases hst
  | abandon =>
    rw [Pump.step] at hst
    split at hst
    · rename_i left hph
      cases hst
      exact h.reject hph (.refl _) rfl rfl rfl h.written
    · cases hst
  | drain =>
    have hd : p.phase = .draining → Delivering token script { p with phase := .pumping } := fun hph => by
      refine h.idle (by rw [hph]; rintro ⟨⟩) rfl rfl rfl rfl (fun left hlf => ?_) (by rintro _ ⟨⟩) h.written
      rcases hlf with hlf | hlf <;> cases hlf
    rw [Pump.step] at hst
    split at hst
    · rename_i message pending hph hpd
      split at hst
      · cases hst
        exact h.feedReadyOutput (.inl hph) (by rw [Pump.ready, hpd]; rfl) rfl ha
      · cases hst
        exact hd hph
    · rename_i hph hpd
      cases hst
      exact hd hph
    · cases hst
  | message =>
    rw [Pump.step] at hst
    split at hst
    · rename_i message q hph hq
      cases hst
      exact h.receive hph hq ha.1 (ha.2 message (by rw [(Pump.readyMessage_ready hq).1]; rfl))
    · cases hst
  | send message =>
    cases hst
    refine ⟨h.protocol, h.eof, h.shown, h.quiet, h.ended, ?_⟩
    have hwr := h.written
    rw [Written] at hwr ⊢
    change p.written ++ p.writing.toList ++ (p.inputs ++ [message]).filterMap Msg.write = (p.sent ++ [message]).filterMap Msg.write
    rw [filterMap_append, filterMap_append, ← hwr, append_assoc (p.written ++ p.writing.toList)]
  | input =>
    rw [Pump.step] at hst
    split at hst
    · rename_i message inputs hph hw hi
      cases hst
      refine h.take hph hw hi fun hshu => ha ?_
      rw [hi, hshu]
      rfl
    · cases hst
  | complete ok =>
    rw [Pump.step] at hst
    split at hst
    · rename_i write hph hw
      cases hst
      split
      · refine h.idle (hp hph) rfl rfl rfl rfl (fun left hlf => ?_) (fun ok hok => ?_) ?_
        · rw [hph] at hlf
          rcases hlf with hlf | hlf <;> cases hlf
        · rw [show p.phase = _ from hok] at hph
          cases hph
        · have hwr := h.written
          rw [Written, hw] at hwr
          rw [Written, ← hwr]
          exact congrArg (· ++ _) (append_nil _)
      · rename_i hok
        exact h.finish (hp hph) (ha.resolve_left hok) false
    · cases hst
  | eofDeadline =>
    rw [Pump.step] at hst
    split at hst
    · rename_i hph heof
      cases hst
      exact h.finish (hp hph) (h.eof heof) false
    · cases hst
  | syncDeadline =>
    rw [Pump.step] at hst
    split at hst
    · cases hst
      exact h
    · cases hst

end

/-- **The pump delivers** what the server sends and what the pane sends, in every run in which
it ends no earlier than the data and nothing overtakes what is held back. -/
theorem pump_delivers (token : Option Bytes) (script : List ChannelMsg) (steps : List PumpStep) (hscript : Protocol script)
    (h : Meets Pump.step Pump.Attends (Pump.opened script (token.map IdentityInput.new)) steps) :
    Along Pump.step (Delivered token script) (Pump.opened script (token.map IdentityInput.new)) steps :=
  along_of_meets Pump.step (fun _ => Delivering.delivered) (fun _ _ _ hp ha hst => hp.step ha hst) (Delivering.opened hscript) h

/-- A shell that writes its marker before it is confirmed, and then on the side. -/
def sampleScript : List ChannelMsg :=
  [.success, .data (ascii "hi" ++ 0x1e :: ascii "PEBREL_PTY_T=/dev/pts/3:42" ++ 0x1f :: ascii "$ "), .success,
    .extendedData (ascii "e"), .data (ascii "bye"), .eof, .exitStatus 0, .close]

def sampleSteps : List PumpStep :=
  replicate 8 PumpStep.arrive ++
  ([.request, .request, .request, .drain, .drain, .send (.input (ascii "ls")), .send (.resize ⟨24, 80, 8, 16⟩), .input,
    .complete true, .input, .complete true, .message, .message] : List PumpStep)

/-- It is shown what the shell writes, and ends with it. -/
theorem pump_delivers_sample :
    Along Pump.step (Delivered (some (ascii "T")) sampleScript)
      (Pump.opened sampleScript ((some (ascii "T")).map IdentityInput.new)) sampleSteps ∧
    (run Pump.step (Pump.opened sampleScript ((some (ascii "T")).map IdentityInput.new)) sampleSteps).map Pump.phase =
      some (.ended true) :=
  ⟨pump_delivers (some (ascii "T")) sampleScript sampleSteps (by decide +kernel) (by decide +kernel), by decide +kernel⟩

/-- A server that sends data after the exit status. -/
def lateScript : List ChannelMsg := [.success, .success, .data (ascii "a"), .exitStatus 0, .data (ascii "b"), .eof, .close]

/-- The data `b` are lost: the pump ends at the exit status, although they are there. -/
theorem pump_loss :
    Protocol lateScript ∧
      ∃ p, run Pump.step (Pump.opened lateScript none) (replicate 7 PumpStep.arrive ++
        [PumpStep.request, PumpStep.request, PumpStep.drain, PumpStep.message, PumpStep.message]) = some p ∧
        p.phase = .ended true ∧ p.fed = ascii "a" ∧ ¬ Delivered none lateScript p := by
  refine ⟨by decide, ⟨[], [.data (ascii "b"), .eof, .close], [], 0, none, ascii "a", [], [], none, [], false, .ended true⟩,
    by decide +kernel, rfl, rfl, fun h => ?_⟩
  rcases h.ended true rfl with h | ⟨t, ht, -⟩
  · exact absurd h (by decide)
  · exact nomatch ht

end Pebrel.Ssh
