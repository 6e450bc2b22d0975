import Pebrel.Stream.Processor

/-!
# Chunks of a stream

What of `feed` depends on how the stream is cut into chunks. All that `feed` does
is written down as a list of actions, its `plan`. Most of them are the stream's
own: bytes that are passed to the parser and events that are handled between
them. `SameStream.wire` says that these are the same, in the same order and at
the same places, for any chunks.

The other actions belong to the chunks: before a piece of at most 4096 bytes the
redraw anchor is cancelled if too much of a synchronized update waits; after it
the command capture looks at the terminal; at the end of a chunk images and
replies are sent, and a ZMODEM session is cancelled, for the last header that the
chunk completes (`SameStream.announced`). Whatever they leave alone is the same
at the end for any chunks (`SameStream.related`).
-/

namespace Pebrel.Stream

open Library List ZmodemSniffer

section
variable [Decode]

/-! ### Plans -/

/-- What `feed` does. -/
inductive Action where
  | checkSync
  | parse (bytes : Bytes)
  | observe
  | osc (event : OscEvent)
  | endChunk (offer : Option ZmodemOffer)

namespace Action

/-- The bytes and events of the stream in some actions. -/
def wire : List Action → List (UInt8 ⊕ OscEvent)
  | [] => []
  | .parse bytes :: as => bytes.map .inl ++ wire as
  | .osc event :: as => .inr event :: wire as
  | _ :: as => wire as

/-- What is announced at the ends of the chunks. -/
def announced : List Action → List (Option ZmodemOffer)
  | [] => []
  | .endChunk offer :: as => offer :: announced as
  | _ :: as => announced as

theorem wire_append (as bs : List Action) : wire (as ++ bs) = wire as ++ wire bs := by
  induction as with
  | nil => rfl
  | cons a as ih =>
    rw [cons_append]
    cases a <;> simp only [wire, ih, append_assoc, cons_append]

theorem announced_append (as bs : List Action) : announced (as ++ bs) = announced as ++ announced bs := by
  induction as with
  | nil => rfl
  | cons a as ih =>
    rw [cons_append]
    cases a <;> simp only [announced, ih, cons_append]

end Action

open Pebrel.Stream.Action (wire)

namespace StreamProcessor

def planPieces (pieces : List Bytes) : List Action := pieces.flatMap fun piece => [.checkSync, .parse piece, .observe]

/-- The actions of `advance`. -/
def planAdvance (bytes : Bytes) : List Action := planPieces (Mealy.pieces advanceChunk bytes)

/-- The actions of the loop over the events. -/
def planLoop (bytes : Bytes) : List (ℕ × OscEvent) → ℕ → List Action
  | [], advanced => planAdvance (bytes.drop advanced)
  | (offset, event) :: events, advanced =>
    planAdvance ((bytes.take offset).drop advanced) ++ .osc event :: planLoop bytes events offset

/-- The actions of `feed`. -/
def planChunk (p : StreamProcessor) (bytes : Bytes) : List Action :=
  planLoop bytes (p.cwdSniffer.feed bytes).2 0 ++ [.endChunk (p.zmodem.feed bytes).2]

/-- The processor after a chunk. -/
def after (p : StreamProcessor) (bytes : Bytes) : StreamProcessor :=
  { p with cwdSniffer := (p.cwdSniffer.feed bytes).1, zmodem := (p.zmodem.feed bytes).1 }

def plan (p : StreamProcessor) : List Bytes → List Action
  | [] => []
  | bytes :: chunks => p.planChunk bytes ++ (p.after bytes).plan chunks

/-! ### The stream in a plan -/

theorem wire_planPieces (pieces : List Bytes) : wire (planPieces pieces) = pieces.flatten.map Sum.inl := by
  induction pieces with
  | nil => rfl
  | cons piece pieces ih =>
    have hcons : planPieces (piece :: pieces) = [.checkSync, .parse piece, .observe] ++ planPieces pieces := rfl
    rw [hcons, Action.wire_append, ih, flatten_cons, map_append]
    simp only [wire, append_nil]

theorem announced_planPieces (pieces : List Bytes) : Action.announced (planPieces pieces) = [] := by
  induction pieces with
  | nil => rfl
  | cons piece pieces ih => exact ih

theorem wire_planAdvance (bytes : Bytes) : wire (planAdvance bytes) = bytes.map Sum.inl := by
  rw [planAdvance, wire_planPieces, Mealy.flatten_pieces (by decide)]

theorem wire_planLoop (bytes : Bytes) (events : List (ℕ × OscEvent)) (advanced : ℕ) :
    wire (planLoop bytes events advanced) = Mealy.interleave bytes events advanced := by
  induction events generalizing advanced with
  | nil => exact wire_planAdvance _
  | cons e events ih => rw [planLoop, Mealy.interleave, Action.wire_append, wire_planAdvance, wire, ih]

theorem announced_planLoop (bytes : Bytes) (events : List (ℕ × OscEvent)) (advanced : ℕ) :
    Action.announced (planLoop bytes events advanced) = [] := by
  induction events generalizing advanced with
  | nil => exact announced_planPieces _
  | cons e events ih =>
    rw [planLoop, Action.announced_append, planAdvance, announced_planPieces]
    exact ih e.1

/-- The stream in a chunk is that of the sniffer. -/
theorem wire_planChunk (p : StreamProcessor) (bytes : Bytes) :
    wire (p.planChunk bytes) = Mealy.wire CwdSniffer.step p.cwdSniffer bytes := by
  rw [planChunk, Action.wire_append, wire_planLoop, CwdSniffer.feed_eq, Mealy.interleave_outputs]
  exact append_nil _

theorem after_cwdSniffer (p : StreamProcessor) (bytes : Bytes) :
    (p.after bytes).cwdSniffer = Mealy.run CwdSniffer.step p.cwdSniffer bytes := by rw [after, CwdSniffer.feed_eq]

theorem after_zmodem (p : StreamProcessor) (bytes : Bytes) :
    (p.after bytes).zmodem = Mealy.run step p.zmodem bytes := by rw [after, ZmodemSniffer.feed_eq]

theorem wire_plan (p : StreamProcessor) (chunks : List Bytes) :
    wire (p.plan chunks) = Mealy.wire CwdSniffer.step p.cwdSniffer chunks.flatten := by
  induction chunks generalizing p with
  | nil => rfl
  | cons bytes chunks ih =>
    rw [plan, Action.wire_append, wire_planChunk, ih, after_cwdSniffer, flatten_cons, Mealy.wire_append]

/-- The headers that are completed in a stream, each with its position. -/
def headers (p : StreamProcessor) (bytes : Bytes) : List (ℕ × ZmodemOffer) :=
  Mealy.outputs step p.zmodem bytes

/-- The last header between two positions. -/
def lastHeader (headers : List (ℕ × ZmodemOffer)) (start stop : ℕ) : Option ZmodemOffer :=
  (headers.filter fun h => start < h.1 ∧ h.1 ≤ stop).getLast?.map Prod.snd

/-- The last header in each chunk, from a position on. -/
def lastHeaders (headers : List (ℕ × ZmodemOffer)) : ℕ → List Bytes → List (Option ZmodemOffer)
  | _, [] => []
  | start, bytes :: chunks =>
    lastHeader headers start (start + bytes.length) :: lastHeaders headers (start + bytes.length) chunks

theorem announced_plan_from (p q : StreamProcessor) (before : Bytes) (chunks : List Bytes)
    (hq : q.zmodem = Mealy.run step p.zmodem before) :
    Action.announced (q.plan chunks) = lastHeaders (p.headers (before ++ chunks.flatten)) before.length chunks := by
  induction chunks generalizing q before with
  | nil => rfl
  | cons bytes chunks ih =>
    have ha : Action.announced (q.planChunk bytes) = [(q.zmodem.feed bytes).2] := by
      rw [planChunk, Action.announced_append, announced_planLoop]
      rfl
    have hl : (q.zmodem.feed bytes).2 =
        lastHeader (p.headers (before ++ (bytes :: chunks).flatten)) before.length (before.length + bytes.length) := by
      rw [ZmodemSniffer.feed_eq, lastHeader, headers, flatten_cons, ← append_assoc, Mealy.outputs_piece, hq, getLast?_map, Option.map_map]
      rfl
    rw [plan, Action.announced_append, ha, ih (q.after bytes) (before ++ bytes), hl, lastHeaders,
      flatten_cons, append_assoc, length_append]
    · rfl
    · rw [after_zmodem, hq, Mealy.run_append]

/-- Each chunk announces the last header of the stream that is completed in it. -/
theorem announced_plan (p : StreamProcessor) (chunks : List Bytes) :
    Action.announced (p.plan chunks) = lastHeaders (p.headers chunks.flatten) 0 chunks :=
  announced_plan_from p p [] chunks rfl

end StreamProcessor

/-! ### Doing what is planned -/

variable [ProgramStatus] {τ : Type} [Host τ]

namespace StreamProcessor

/-- One action; the number is that of the bytes of markers. -/
def perform (p : StreamProcessor) (s : World τ × ℕ) : Action → World τ × ℕ
  | .checkSync => (s.1.onHost checkSync, s.2)
  | .parse bytes => (s.1.onHost (Host.parserAdvance bytes), s.2)
  | .observe => (s.1.onHost Host.captureObserve, s.2)
  | .osc event => ((p.handle event s.1).1, s.2 + (p.handle event s.1).2)
  | .endChunk offer => (p.endChunk offer s.1, s.2)

def performAll (p : StreamProcessor) (s : World τ × ℕ) (as : List Action) : World τ × ℕ := as.foldl p.perform s

section
variable (p : StreamProcessor)
include p

theorem performAll_append (s : World τ × ℕ) (as bs : List Action) :
    p.performAll s (as ++ bs) = p.performAll (p.performAll s as) bs := foldl_append

theorem performAll_cons (s : World τ × ℕ) (a : Action) (as : List Action) :
    p.performAll s (a :: as) = p.performAll (p.perform s a) as := rfl

theorem performAll_planPieces (s : World τ × ℕ) (pieces : List Bytes) : p.performAll s (planPieces pieces) =
      (s.1.onHost fun t => pieces.foldl (fun t chunk => Host.captureObserve (Host.parserAdvance chunk (checkSync t))) t, s.2) := by
  induction pieces generalizing s with
  | nil => rfl
  | cons piece pieces ih => exact ih _

theorem performAll_planLoop (bytes : Bytes) (events : List (ℕ × OscEvent)) (advanced : ℕ)
    (s : World τ × ℕ) : p.performAll s (planLoop bytes events advanced) = p.feedLoop bytes events advanced s := by
  induction events generalizing advanced s with
  | nil => exact performAll_planPieces p s _
  | cons e events ih =>
    rw [planLoop, performAll_append, planAdvance, performAll_planPieces, performAll_cons, ih]
    rfl

/-- The count of the markers only adds up. -/
theorem performAll_count (w : World τ) (n : ℕ) (as : List Action) :
    p.performAll (w, n) as = ((p.performAll (w, 0) as).1, n + (p.performAll (w, 0) as).2) := by
  induction as generalizing w n with
  | nil => rfl
  | cons a as ih =>
    have hp : p.perform (w, n) a = ((p.perform (w, 0) a).1, n + (p.perform (w, 0) a).2) := by
      cases a with
      | osc event => exact Prod.ext rfl (by rw [perform, perform, Nat.zero_add])
      | _ => rfl
    rw [performAll_cons, performAll_cons, hp, ih, ih (p.perform (w, 0) a).1 (p.perform (w, 0) a).2, Nat.add_assoc]

theorem feed_eq (w : World τ) (bytes : Bytes) : p.feed w bytes = (p.after bytes, (p.performAll (w, 0) (p.planChunk bytes)).1,
        bytes.length + (p.performAll (w, 0) (p.planChunk bytes)).2) := by
  rw [planChunk, performAll_append, performAll_planLoop]
  rfl

/-- What is fed chunk by chunk does what is planned. -/
theorem feedAll_eq (w : World τ) (chunks : List Bytes) : p.feedAll w chunks =
      (chunks.foldl after p, (p.performAll (w, 0) (p.plan chunks)).1, chunks.flatten.length + (p.performAll (w, 0) (p.plan chunks)).2) := by
  induction chunks generalizing p w with
  | nil => rfl
  | cons bytes chunks ih =>
    have hs : ∀ s as, (p.after bytes).performAll (τ := τ) s as = p.performAll s as := fun s as => by
      unfold performAll
      congr 1
    rw [feedAll, feed_eq]
    simp only
    rw [ih, plan, performAll_append, hs, performAll_count p (p.performAll (w, 0) (p.planChunk bytes)).1
      (p.performAll (w, 0) (p.planChunk bytes)).2, flatten_cons, length_append, foldl_cons]
    refine Prod.ext rfl (Prod.ext rfl ?_)
    simp only
    omega

end

/-! ### What is the same for any chunks -/

/-- An equivalence that the stream's own actions keep: what it tells apart, they do not mix up. -/
structure Kept (p : StreamProcessor) (R : World τ → World τ → Prop) : Prop where
  equivalence : Equivalence R
  parse : ∀ bytes w w', R w w' → R (w.onHost (Host.parserAdvance bytes)) (w'.onHost (Host.parserAdvance bytes))
  osc : ∀ event w w', R w w' → R (p.handle event w).1 (p.handle event w').1 ∧ (p.handle event w).2 = (p.handle event w').2

/-- The actions that belong to the chunks leave alone what `R` tells apart. -/
def Quiet (p : StreamProcessor) (R : World τ → World τ → Prop) : World τ × ℕ → List Action → Prop
  | _, [] => True
  | s, .parse bytes :: as => Quiet p R (p.perform s (.parse bytes)) as
  | s, .osc event :: as => Quiet p R (p.perform s (.osc event)) as
  | s, a :: as => R (p.perform s a).1 s.1 ∧ Quiet p R (p.perform s a) as

/-- The stream byte by byte, without the actions of the chunks. -/
def performWire (p : StreamProcessor) (s : World τ × ℕ) (wire : List (UInt8 ⊕ OscEvent)) : World τ × ℕ :=
  wire.foldl (fun s x => x.elim (fun b => p.perform s (.parse [b])) fun event => p.perform s (.osc event)) s

theorem performWire_bytes [LawfulParser τ] (p : StreamProcessor) (s : World τ × ℕ) (bytes : Bytes) (wire : List (UInt8 ⊕ OscEvent)) :
    p.performWire s (bytes.map .inl ++ wire) = p.performWire (p.perform s (.parse bytes)) wire := by
  induction bytes generalizing s with
  | nil =>
    have hn : p.perform s (.parse []) = s := Prod.ext (congrArg (World.mk s.1.statuses) (LawfulParser.advance_nil s.1.host)) rfl
    rw [hn]
    rfl
  | cons b bytes ih =>
    have ha : p.perform s (.parse (b :: bytes)) = p.perform (p.perform s (.parse [b])) (.parse bytes) :=
      Prod.ext (congrArg (World.mk s.1.statuses) (LawfulParser.advance_append [b] bytes s.1.host)) rfl
    rw [ha, ← ih]
    rfl

/-- Quiet actions come out as the stream alone. -/
theorem performAll_related [LawfulParser τ] {p : StreamProcessor} {R : World τ → World τ → Prop} (hR : Kept p R)
    {s t : World τ × ℕ} {as : List Action} (hq : Quiet p R s as) (hst : R s.1 t.1) (hc : s.2 = t.2) :
    R (p.performAll s as).1 (p.performWire t (wire as)).1 ∧ (p.performAll s as).2 = (p.performWire t (wire as)).2 := by
  induction as generalizing s t with
  | nil => exact ⟨hst, hc⟩
  | cons a as ih =>
    rw [performAll_cons]
    cases a with
    | checkSync => exact ih hq.2 (hR.equivalence.trans hq.1 hst) hc
    | observe => exact ih hq.2 (hR.equivalence.trans hq.1 hst) hc
    | endChunk offer => exact ih hq.2 (hR.equivalence.trans hq.1 hst) hc
    | parse bytes =>
      rw [wire, performWire_bytes]
      exact ih hq (hR.parse bytes _ _ hst) hc
    | osc event =>
      obtain ⟨hw, hm⟩ := hR.osc event _ _ hst
      exact ih hq hw (congrArg₂ (· + ·) hc hm)

/-- What feeding a stream in chunks has in common with feeding it at once. -/
structure SameStream (p : StreamProcessor) (w : World τ) (chunks : List Bytes) : Prop where
  /-- Either does what is planned. -/
  runs : (p.feedAll w chunks).2.1 = (p.performAll (w, 0) (p.plan chunks)).1 ∧
    (p.feed w chunks.flatten).2.1 = (p.performAll (w, 0) (p.plan [chunks.flatten])).1
  /-- The same bytes are parsed and the same events handled, in the same order. -/
  wire : wire (p.plan chunks) = wire (p.plan [chunks.flatten])
  /-- The sniffers end in the same state. -/
  sniffers : (p.feedAll w chunks).1 = (p.feed w chunks.flatten).1
  /-- Each chunk announces the last ZMODEM header of the stream that is completed in it. -/
  announced : Action.announced (p.plan chunks) = lastHeaders (p.headers chunks.flatten) 0 chunks
  /-- What the actions of the chunks leave alone in both runs is the same at the end. -/
  related : ∀ R, Kept p R → Quiet p R (w, 0) (p.plan chunks) → Quiet p R (w, 0) (p.plan [chunks.flatten]) →
    R (p.feedAll w chunks).2.1 (p.feed w chunks.flatten).2.1 ∧
      (p.feedAll w chunks).2.2 = (p.feed w chunks.flatten).2.2

omit [ProgramStatus] in
theorem foldl_after (p : StreamProcessor) (chunks : List Bytes) : chunks.foldl after p = p.after chunks.flatten := by
  have hs : ∀ (q : StreamProcessor) (chunks : List Bytes), chunks.foldl after q =
      { q with
        cwdSniffer := Mealy.run CwdSniffer.step q.cwdSniffer chunks.flatten
        zmodem := Mealy.run step q.zmodem chunks.flatten } := by
    intro q chunks
    induction chunks generalizing q with
    | nil => rfl
    | cons bytes chunks ih =>
      rw [foldl_cons, ih, after_cwdSniffer, after_zmodem, flatten_cons, Mealy.run_append, Mealy.run_append]
      rfl
  rw [hs, after, CwdSniffer.feed_eq, ZmodemSniffer.feed_eq]

/-- **Chunks make no difference** to what is parsed and handled, and where. -/
theorem feed_chunks [LawfulParser τ] (p : StreamProcessor) (w : World τ) (chunks : List Bytes) :
    p.SameStream w chunks := by
  have hwh : p.plan [chunks.flatten] = p.planChunk chunks.flatten := append_nil _
  have hwire : wire (p.plan chunks) = wire (p.plan [chunks.flatten]) := by
    rw [wire_plan, hwh, wire_planChunk]
  refine ⟨⟨by rw [feedAll_eq], by rw [feed_eq, hwh]⟩, hwire, by rw [feedAll_eq, feed_eq, foldl_after],
    announced_plan p chunks, fun R hR hchu hat => ?_⟩
  obtain ⟨hrel, hcnt⟩ := performAll_related hR hchu (hR.equivalence.refl w) rfl
  obtain ⟨hrel', hcnt'⟩ := performAll_related hR hat (hR.equivalence.refl w) rfl
  rw [feedAll_eq, feed_eq, ← hwh]
  rw [← hwire] at hrel' hcnt'
  exact ⟨hR.equivalence.trans hrel (hR.equivalence.symm hrel'), by simp only [hcnt, hcnt']⟩

end StreamProcessor

end

/-! ### A small terminal -/

section

/-- A terminal with the application keypad mode, whose output is captured for a command that
runs in it and marked when the command is done. -/
structure KeypadTerminal where
  escape : Bool
  control : Bool
  keypad : Bool
  capture : Bool
  marked : Bool
  sent : List Event

namespace KeypadTerminal

/-- What the parser does with a byte: `ESC =` and `ESC >` set the mode, an OSC is passed over. -/
def parse (t : KeypadTerminal) (b : UInt8) : KeypadTerminal :=
  if b = 0x1b then { t with escape := true, control := false }
  else if t.control then { t with control := b ≠ 0x07 }
  else if t.escape then
    { t with escape := false, control := b = 0x5d, keypad := if b = 0x3d then true else if b = 0x3e then false else t.keypad }
  else t

end KeypadTerminal

local instance noPayloads : Decode where
  Report := Empty
  ImageOptions := Empty
  base64 _ := none
  inlineContent _ := none
  programStatus _ := none
  osc1337Image _ := none

local instance noStatus : ProgramStatus where
  Records := Unit
  isQuery _ := false
  featureReply := []
  seen _ := false
  acknowledgeResults r := (r, false)
  commandEnded r := (r, false)
  reset r := (r, false)
  apply _ r := (r, false)

local instance keypadHost : Host KeypadTerminal where
  Surface := Empty
  PendingImage := Empty
  sendEvent event t := { t with sent := t.sent ++ [event] }
  parserAdvance bytes t := bytes.foldl .parse t
  parserStopSync t := t
  syncBytesCount _ := 0
  syncTimeout _ := false
  altScreenOrMouseMode _ := false
  cursorColumn _ := 0
  columns _ := 80
  screenLines _ := 24
  cancelRedrawAnchor t := t
  readingShellMarker _ _ _ t := t
  nebulaEndPrompt t := t
  nebulaAddPromptMark t := t
  nebulaMarkPromptInput t := t
  inlineContentGridMut t := t
  setInlineMarker _ _ t := t
  captureCancel t := { t with capture := false }
  captureStart _ t := t
  captureObserve t := { t with capture := t.capture && !t.keypad }
  captureFinish exitCode t :=
    { t with capture := false, marked := t.marked || (t.capture && exitCode == some 0 && !t.keypad) }
  captureReport _ _ t := t
  inlineContentApply _ t := (none, t)
  inlineContentFinishPending t := t
  tryQuery _ _ t := (false, t)
  nebulaQueueKitty _ _ t := (none, t)
  nebulaQueueKittyReset t := (none, t)
  nebulaQueueInlineImage _ _ _ _ _ t := (none, t)
  nebulaFlushKitty _ t := t
  requestCellSize t := t
  pushPendingImage _ t := t
  releaseReplayedImages t := t
  gfxFlush _ t := t
  answerCellSizeQueries _ t := t

local instance lawfulKeypad : LawfulParser KeypadTerminal := ⟨fun _ => rfl, fun _ _ _ => List.foldl_append⟩

/-- A processor that has read nothing. -/
def freshProcessor : StreamProcessor := ⟨.default, .default, none, none⟩

/-- A command runs and its output is captured. -/
def capturing : World KeypadTerminal := ⟨(), ⟨false, false, false, true, false, []⟩⟩

def keypadOn : Bytes := 0x1b :: ascii "="

def keypadOffAndDone : Bytes := 0x1b :: ascii ">" ++ 0x1b :: ascii "]133;D;0" ++ [0x07]

/-- The header that `rz` sends. -/
def uploadHeader : Bytes := ascii "**" ++ 0x18 :: ascii "B0100000023be50"

theorem feed_chunks_keypad : freshProcessor.SameStream capturing [keypadOn, keypadOffAndDone, uploadHeader] :=
  StreamProcessor.feed_chunks freshProcessor capturing _

/-- Chunks make a difference to what is captured, if the mode is on only between two chunks, and
to how often a ZMODEM session is cancelled. -/
theorem feed_chunks_differ :
    (freshProcessor.feedAll capturing [keypadOn, keypadOffAndDone]).2.1.host.marked = false ∧
      (freshProcessor.feed capturing (keypadOn ++ keypadOffAndDone)).2.1.host.marked = true ∧
      (freshProcessor.feedAll capturing [uploadHeader, uploadHeader]).2.1.host.sent ≠
        (freshProcessor.feed capturing (uploadHeader ++ uploadHeader)).2.1.host.sent := by
  decide +kernel

end

end Pebrel.Stream
