import Pebrel.Stream.Sniffer

/-!
# The stream processor

`StreamProcessor::feed` (`event_loop.rs`): a chunk of the byte stream goes to the
two sniffers, is cut at the events that they find and passed to the VT parser
piece by piece, and each event is handled when the parser has read what comes
before it.

What the processor works on is not looked into: `Host` has the operations of the
terminal, the parser, the command capture and the graphics that it calls. The
program status records stand apart, since they are taken out of the terminal
while the parser runs; whatever it does to records then finds none.
-/

namespace Pebrel.Stream

open Library

structure WindowSize where
  numLines : ℕ
  numCols : ℕ
  cellWidth : ℕ
  cellHeight : ℕ

/-- `Event`: what the processor tells its host. -/
inductive Event where
  | cwdReport (path : Text)
  | commandStart
  | commandDone (exitCode : Option ℤ)
  | userVar (name value : Text)
  | notify (text : Text)
  | progress (state : ℕ) (value : Option ℕ)
  | aiHookEnvelope (envelope : Bytes)
  | ptyWrite (bytes : Bytes)
  | zmodemCancelled (offer : ZmodemOffer)
  | programStatusChanged
  deriving DecidableEq

/-- `program_status::Records`. Operations that change them say if they did. -/
class ProgramStatus [Decode] where
  Records : Type
  isQuery : Decode.Report → Bool
  featureReply : Bytes
  seen : Records → Bool
  acknowledgeResults : Records → Records × Bool
  commandEnded : Records → Records × Bool
  reset : Records → Records × Bool
  apply : Decode.Report → Records → Records × Bool

/-- The operations of all else that the processor works on. -/
class Host [Decode] (τ : Type) where
  Surface : Type
  PendingImage : Type
  sendEvent : Event → τ → τ
  parserAdvance : Bytes → τ → τ
  parserStopSync : τ → τ
  syncBytesCount : τ → ℕ
  syncTimeout : τ → Bool
  /-- The alternate screen or a mouse mode is on. -/
  altScreenOrMouseMode : τ → Bool
  cursorColumn : τ → ℕ
  columns : τ → ℕ
  screenLines : τ → ℕ
  cancelRedrawAnchor : τ → τ
  readingShellMarker : UInt8 → Option ℤ → Bool → τ → τ
  nebulaEndPrompt : τ → τ
  nebulaAddPromptMark : τ → τ
  nebulaMarkPromptInput : τ → τ
  inlineContentGridMut : τ → τ
  /-- Reset the row of the cursor and set the marker in its cell. -/
  setInlineMarker : Surface → ℕ → τ → τ
  captureCancel : τ → τ
  captureStart : Bool → τ → τ
  captureObserve : τ → τ
  captureFinish : Option ℤ → τ → τ
  captureReport : Text → Text → τ → τ
  inlineContentApply : Packet → τ → Option Surface × τ
  inlineContentFinishPending : τ → τ
  tryQuery : Bytes → Bytes → τ → Bool × τ
  nebulaQueueKitty : Bytes → Bytes → τ → Option (Bytes × PendingImage) × τ
  nebulaQueueKittyReset : τ → Option (Bytes × PendingImage) × τ
  nebulaQueueInlineImage : Bytes → ℕ → ℕ → Decode.ImageOptions → WindowSize → τ → Option (Bytes × PendingImage) × τ
  nebulaFlushKitty : Option WindowSize → τ → τ
  requestCellSize : τ → τ
  pushPendingImage : PendingImage → τ → τ
  releaseReplayedImages : τ → τ
  gfxFlush : Option WindowSize → τ → τ
  answerCellSizeQueries : Option WindowSize → τ → τ

/-- The VT parser reads a stream in whatever pieces it is passed. -/
class LawfulParser [Decode] (τ : Type) [Host τ] : Prop where
  advance_nil : ∀ t : τ, Host.parserAdvance [] t = t
  advance_append : ∀ (a b : Bytes) (t : τ),
    Host.parserAdvance (a ++ b) t = Host.parserAdvance b (Host.parserAdvance a t)

/-- `StreamProcessor`: the sniffers and settings. -/
structure StreamProcessor where
  cwdSniffer : CwdSniffer
  zmodem : ZmodemSniffer
  windowSize : Option WindowSize
  remoteHookToken : Option Text

/-- The program status records and all else. -/
structure World [Decode] [ProgramStatus] (τ : Type) where
  statuses : ProgramStatus.Records
  host : τ

section
variable [Decode] [ProgramStatus] {τ : Type} [Host τ]

namespace World

def onHost (f : τ → τ) (w : World τ) : World τ := { w with host := f w.host }

def send (event : Event) : World τ → World τ := onHost (Host.sendEvent event)

/-- Change the records, and tell the host if they are changed. -/
def changeStatuses (f : ProgramStatus.Records → ProgramStatus.Records × Bool) (w : World τ) : World τ :=
  let w' : World τ := { w with statuses := (f w.statuses).1 }
  if (f w.statuses).2 then w'.send .programStatusChanged else w'

def reportProgramStatus (report : Decode.Report) (w : World τ) : World τ :=
  if ProgramStatus.isQuery report then w.send (.ptyWrite ProgramStatus.featureReply)
  else w.changeStatuses (ProgramStatus.apply report)

end World

namespace StreamProcessor

/-- The pieces that the parser is passed at once. -/
def advanceChunk : ℕ := 4096

/-- So many bytes of a synchronized update end the wait for its end. -/
def syncLimit : ℕ := 1024 * 1024

/-- What `advance` does before a piece. -/
def checkSync (t : τ) : τ := if Host.syncBytesCount t ≥ syncLimit then Host.cancelRedrawAnchor t else t

def advance (bytes : Bytes) (t : τ) : τ :=
  (Mealy.pieces advanceChunk bytes).foldl
    (fun t chunk => Host.captureObserve (Host.parserAdvance chunk (checkSync t))) t

def stopSync (p : StreamProcessor) (t : τ) : τ :=
  Host.nebulaFlushKitty p.windowSize (Host.releaseReplayedImages (Host.parserStopSync (Host.cancelRedrawAnchor t)))

/-- The parser has read all that it was passed. -/
def committed (t : τ) : Bool := Host.syncBytesCount t == 0

/-- A packet of inline content. -/
def handleInlineContent (p : StreamProcessor) (packet : Packet) (t : τ) : τ :=
  let t := Host.captureCancel t
  let t := if Host.syncTimeout t then p.stopSync t else t
  if Host.altScreenOrMouseMode t then t
  else
    let row := match packet with
      | .place _ row => row
      | _ => 0
    let startsRow := match packet with
      | .begin .. => true
      | .place .. => true
      | _ => false
    if startsRow && Host.cursorColumn t != 0 then t
    else
      match Host.inlineContentApply packet t with
      | (none, t) => t
      | (some surface, t) =>
        let t := Host.inlineContentGridMut t
        if Host.cursorColumn t = 0 then Host.setInlineMarker surface row t else t

/-- An image waits for its marker to be parsed; the count is that of the marker's bytes. -/
def queueMarker (queued : Option (Bytes × Host.PendingImage τ) × τ) : τ × ℕ :=
  match queued with
  | (none, t) => (t, 0)
  | (some (marker, image), t) => (advance marker (Host.pushPendingImage image t), marker.length)

/-- The branches of `feed` on an event, with the number of bytes of markers passed to the parser. -/
def handle (p : StreamProcessor) (event : OscEvent) (w : World τ) : World τ × ℕ :=
  match event with
  | .inlineContent packet => (w.onHost (p.handleInlineContent packet), 0)
  | .cwd path => (w.send (.cwdReport path), 0)
  | .commandStart =>
    let w := w.changeStatuses ProgramStatus.acknowledgeResults
    let w := w.onHost fun t => Host.captureStart (committed t) t
    let w := w.onHost fun t => Host.nebulaEndPrompt (Host.readingShellMarker 0x43 none (committed t) t)
    (w.send .commandStart, 0)
  | .commandDone exitCode =>
    let w := w.onHost fun t => Host.inlineContentFinishPending (Host.captureFinish exitCode t)
    let w := w.onHost fun t => Host.nebulaEndPrompt (Host.readingShellMarker 0x44 exitCode (committed t) t)
    (w.send (.commandDone exitCode), 0)
  | .userVar name value => ((w.onHost (Host.captureReport name value)).send (.userVar name value), 0)
  | .notify text => (w.send (.notify text), 0)
  | .progress state value =>
    (if ProgramStatus.seen w.statuses then w else w.send (.progress state value), 0)
  | .programStatus report => (w.reportProgramStatus report, 0)
  | .programStatusReset =>
    let w := w.changeStatuses ProgramStatus.reset
    let (t, n) := queueMarker (Host.nebulaQueueKittyReset w.host)
    ({ w with host := t }, n)
  | .remoteHook token envelope =>
    (if p.remoteHookToken = some token then w.send (.aiHookEnvelope envelope) else w, 0)
  | .promptMark =>
    let w := w.onHost Host.captureCancel
    let w := w.changeStatuses ProgramStatus.commandEnded
    (w.onHost fun t => Host.nebulaAddPromptMark (Host.readingShellMarker 0x41 none (committed t) t), 0)
  | .promptInput =>
    (w.onHost fun t => Host.nebulaMarkPromptInput (Host.readingShellMarker 0x42 none (committed t) t), 0)
  | .kittyGraphic control payload =>
    match Host.tryQuery control payload w.host with
    | (true, t) => ({ w with host := t }, 0)
    | (false, t) =>
      let (t, n) := queueMarker (Host.nebulaQueueKitty control payload t)
      ({ w with host := t }, n)
  | .cellSizeQuery => (w.onHost Host.requestCellSize, 0)
  | .inlineImage data width height options =>
    let viewport := p.windowSize.getD ⟨Host.screenLines w.host % 2 ^ 16, Host.columns w.host % 2 ^ 16, 9, 20⟩
    let (t, n) := queueMarker (Host.nebulaQueueInlineImage data width height options viewport w.host)
    ({ w with host := t }, n)

/-- The loop of `feed` over the events: from a position on, with the number of bytes of markers. -/
def feedLoop (p : StreamProcessor) (bytes : Bytes) : List (ℕ × OscEvent) → ℕ → World τ × ℕ → World τ × ℕ
  | [], advanced, s => (s.1.onHost (advance (bytes.drop advanced)), s.2)
  | (offset, event) :: events, advanced, s =>
    let (w, n) := p.handle event (s.1.onHost (advance ((bytes.take offset).drop advanced)))
    p.feedLoop bytes events offset (w, s.2 + n)

/-- What `feed` does at the end of a chunk. -/
def endChunk (p : StreamProcessor) (offer : Option ZmodemOffer) (w : World τ) : World τ :=
  let w := match offer with
    | some offer => (w.send (.ptyWrite abortSequence)).send (.zmodemCancelled offer)
    | none => w
  w.onHost fun t =>
    Host.answerCellSizeQueries p.windowSize (Host.gfxFlush p.windowSize (Host.releaseReplayedImages t))

/-- `feed`, with the number of bytes passed to the parser. -/
def feed (p : StreamProcessor) (w : World τ) (bytes : Bytes) : StreamProcessor × World τ × ℕ :=
  let (cwdSniffer, oscEvents) := p.cwdSniffer.feed bytes
  let (zmodem, offer) := p.zmodem.feed bytes
  let (w, markers) := p.feedLoop bytes oscEvents 0 (w, 0)
  ({ p with cwdSniffer, zmodem }, p.endChunk offer w, bytes.length + markers)

/-- One chunk after another. -/
def feedAll (p : StreamProcessor) (w : World τ) : List Bytes → StreamProcessor × World τ × ℕ
  | [] => (p, w, 0)
  | bytes :: chunks =>
    let (p, w, n) := p.feed w bytes
    let (p, w, m) := p.feedAll w chunks
    (p, w, n + m)

end StreamProcessor

end

end Pebrel.Stream
