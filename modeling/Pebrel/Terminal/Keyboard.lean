import Mathlib.Data.BitVec

/-!
# Keyboard modes

The flags of the kitty keyboard protocol (`term/keyboard.rs` and `term/mod.rs`):
five bits of the terminal's mode, and one stack of frames for each of the two
screens, the deepest frame of which falls out when it grows past its depth.

## The model

`TermMode` and `KeyboardModes` are the bit sets of the source, 32 and 8 bits
wide. The state has what the operations on keyboard modes read and write, and
the mode with all its bits, since the other modes are set in the same word.
-/

namespace Pebrel.Terminal.Keyboard

/-! ### Bit sets -/

/-- `TermMode`. -/
abbrev Modes := BitVec 32

abbrev KeyboardModes := BitVec 8

/-- `contains` of a bit set. -/
def contains {w : ℕ} (m flag : BitVec w) : Bool := m &&& flag == flag

/-- `insert` of a bit set. -/
def insert {w : ℕ} (m flag : BitVec w) : BitVec w := m ||| flag

/-- `remove` of a bit set. -/
def remove {w : ℕ} (m flag : BitVec w) : BitVec w := m &&& ~~~flag

/-- `set` of a bit set. -/
def set {w : ℕ} (m flag : BitVec w) (value : Bool) : BitVec w := if value then insert m flag else remove m flag

namespace Modes

def showCursor : Modes := .twoPow 32 0
def appCursor : Modes := .twoPow 32 1
def appKeypad : Modes := .twoPow 32 2
def mouseReportClick : Modes := .twoPow 32 3
def bracketedPaste : Modes := .twoPow 32 4
def sgrMouse : Modes := .twoPow 32 5
def mouseMotion : Modes := .twoPow 32 6
def lineWrap : Modes := .twoPow 32 7
def lineFeedNewLine : Modes := .twoPow 32 8
def origin : Modes := .twoPow 32 9
def insert : Modes := .twoPow 32 10
def focusInOut : Modes := .twoPow 32 11
def altScreen : Modes := .twoPow 32 12
def mouseDrag : Modes := .twoPow 32 13
def utf8Mouse : Modes := .twoPow 32 14
def alternateScroll : Modes := .twoPow 32 15
def vi : Modes := .twoPow 32 16
def urgencyHints : Modes := .twoPow 32 17
def disambiguateEscCodes : Modes := .twoPow 32 18
def reportEventTypes : Modes := .twoPow 32 19
def reportAlternateKeys : Modes := .twoPow 32 20
def reportAllKeysAsEsc : Modes := .twoPow 32 21
def reportAssociatedText : Modes := .twoPow 32 22
def win32InputMode : Modes := .twoPow 32 23
def colorSchemeUpdates : Modes := .twoPow 32 24
def mouseMode : Modes := mouseReportClick ||| mouseMotion ||| mouseDrag

/-- `KITTY_KEYBOARD_PROTOCOL`: the bits of the mode that hold keyboard flags. -/
def kittyKeyboardProtocol : Modes :=
  disambiguateEscCodes ||| reportEventTypes ||| reportAlternateKeys ||| reportAllKeysAsEsc ||| reportAssociatedText

def default : Modes := showCursor ||| lineWrap ||| alternateScroll ||| urgencyHints

end Modes

open Modes (kittyKeyboardProtocol altScreen)

def keyboardFlags : List (KeyboardModes × Modes) :=
  [(.twoPow 8 0, .disambiguateEscCodes),
   (.twoPow 8 1, .reportEventTypes),
   (.twoPow 8 2, .reportAlternateKeys),
   (.twoPow 8 3, .reportAllKeysAsEsc),
   (.twoPow 8 4, .reportAssociatedText)]

/-- `From<KeyboardModes> for TermMode`. -/
def toModes (value : KeyboardModes) : Modes :=
  keyboardFlags.foldl (fun mode flags => set mode flags.2 (contains value flags.1)) 0

/-- `From<TermMode> for KeyboardModes`. -/
def ofModes (value : Modes) : KeyboardModes :=
  keyboardFlags.foldl (fun mode flags => set mode flags.1 (contains value flags.2)) 0

/-- `KeyboardModesApplyBehavior`. -/
inductive ApplyBehavior where
  | replace
  | union
  | difference

def noMode : KeyboardModes := 0

/-! ### The terminal -/

/-- What of a terminal the keyboard modes live in. -/
structure State where
  mode : Modes := .default
  /-- Frames of the active screen, the deepest first. -/
  keyboardModeStack : List KeyboardModes := []
  inactiveKeyboardModeStack : List KeyboardModes := []
  /-- `config.kitty_keyboard`. -/
  kittyKeyboard : Bool := false

def keyboardModeStackMaxDepth : ℕ := 4096

/-- The mode of the last frame, `NO_MODE` without one. -/
def top (stack : List KeyboardModes) : KeyboardModes := stack.getLast?.getD noMode

namespace State

/-- The inner `set_keyboard_mode`, on the mode alone. -/
def setMode (k : State) (mode : Modes) (apply : ApplyBehavior) : State :=
  let activeMode := k.mode &&& kittyKeyboardProtocol
  let rest := k.mode &&& ~~~kittyKeyboardProtocol
  let newMode := match apply with
    | .replace => mode
    | .union => activeMode ||| mode
    | .difference => activeMode &&& ~~~mode
  { k with mode := rest ||| newMode }

def pushKeyboardMode (k : State) (mode : KeyboardModes) : State :=
  if !k.kittyKeyboard then k
  else
    let stack := if keyboardModeStackMaxDepth ≤ k.keyboardModeStack.length then k.keyboardModeStack.tail
      else k.keyboardModeStack
    { k with keyboardModeStack := stack ++ [mode] }.setMode (toModes mode) .replace

def popKeyboardModes (k : State) (toPop : ℕ) : State :=
  if !k.kittyKeyboard then k
  else
    let newLen := k.keyboardModeStack.length - toPop
    let stack := k.keyboardModeStack.take newLen
    { k with keyboardModeStack := stack }.setMode (toModes (top stack)) .replace

def setKeyboardMode (k : State) (mode : KeyboardModes) (apply : ApplyBehavior) : State :=
  if !k.kittyKeyboard then k
  else
    let k := k.setMode (toModes mode) apply
    let active := ofModes k.mode
    match k.keyboardModeStack.getLast? with
    | some _ => { k with keyboardModeStack := k.keyboardModeStack.dropLast ++ [active] }
    | none => { k with keyboardModeStack := k.keyboardModeStack ++ [active] }

def swapAlt (k : State) : State :=
  let k := { k with
    keyboardModeStack := k.inactiveKeyboardModeStack, inactiveKeyboardModeStack := k.keyboardModeStack }
  let k := k.setMode (toModes (top k.keyboardModeStack)) .replace
  { k with mode := k.mode ^^^ altScreen }

def resetState (k : State) : State :=
  { k with
    keyboardModeStack := []
    inactiveKeyboardModeStack := []
    mode := Keyboard.insert (k.mode &&& Modes.vi) Modes.default }

def setOptions (k : State) (kittyKeyboard : Bool) : State :=
  if kittyKeyboard != k.kittyKeyboard then
    { k with
      kittyKeyboard, keyboardModeStack := [], inactiveKeyboardModeStack := []
      mode := remove k.mode kittyKeyboardProtocol }
  else { k with kittyKeyboard }

end State

/-! ### Other modes -/

/-- `NamedPrivateMode`, with the two private modes the terminal knows by their number. -/
inductive PrivateMode where
  | win32InputMode
  | colorSchemeUpdates
  | urgencyHints
  | swapScreenAndSetRestoreCursor
  | showCursor
  | cursorKeys
  | reportMouseClicks
  | reportCellMouseMotion
  | reportAllMouseMotion
  | reportFocusInOut
  | bracketedPaste
  | sgrMouse
  | utf8Mouse
  | alternateScroll
  | lineWrap
  | origin
  | columnMode
  | blinkingCursor
  | syncUpdate
  /-- Any other number. -/
  | unknown

inductive NamedMode where
  | insert
  | lineFeedNewLine

namespace State

/-- `self.mode.insert(flag)`. -/
def insertMode (k : State) (flag : Modes) : State := { k with mode := Keyboard.insert k.mode flag }

/-- `self.mode.remove(flag)`. -/
def removeMode (k : State) (flag : Modes) : State := { k with mode := remove k.mode flag }

def setPrivateMode (k : State) : PrivateMode → State
  | .win32InputMode => k.insertMode .win32InputMode
  | .colorSchemeUpdates => k.insertMode .colorSchemeUpdates
  | .urgencyHints => k.insertMode .urgencyHints
  | .swapScreenAndSetRestoreCursor => if !contains k.mode altScreen then k.swapAlt else k
  | .showCursor => k.insertMode .showCursor
  | .cursorKeys => k.insertMode .appCursor
  | .reportMouseClicks => (k.removeMode .mouseMode).insertMode .mouseReportClick
  | .reportCellMouseMotion => (k.removeMode .mouseMode).insertMode .mouseDrag
  | .reportAllMouseMotion => (k.removeMode .mouseMode).insertMode .mouseMotion
  | .reportFocusInOut => k.insertMode .focusInOut
  | .bracketedPaste => k.insertMode .bracketedPaste
  | .sgrMouse => (k.removeMode .utf8Mouse).insertMode .sgrMouse
  | .utf8Mouse => (k.removeMode .sgrMouse).insertMode .utf8Mouse
  | .alternateScroll => k.insertMode .alternateScroll
  | .lineWrap => k.insertMode .lineWrap
  | .origin => k.insertMode .origin
  | .columnMode | .blinkingCursor | .syncUpdate | .unknown => k

def unsetPrivateMode (k : State) : PrivateMode → State
  | .win32InputMode => k.removeMode .win32InputMode
  | .colorSchemeUpdates => k.removeMode .colorSchemeUpdates
  | .urgencyHints => k.removeMode .urgencyHints
  | .swapScreenAndSetRestoreCursor => if contains k.mode altScreen then k.swapAlt else k
  | .showCursor => k.removeMode .showCursor
  | .cursorKeys => k.removeMode .appCursor
  | .reportMouseClicks => k.removeMode .mouseReportClick
  | .reportCellMouseMotion => k.removeMode .mouseDrag
  | .reportAllMouseMotion => k.removeMode .mouseMotion
  | .reportFocusInOut => k.removeMode .focusInOut
  | .bracketedPaste => k.removeMode .bracketedPaste
  | .sgrMouse => k.removeMode .sgrMouse
  | .utf8Mouse => k.removeMode .utf8Mouse
  | .alternateScroll => k.removeMode .alternateScroll
  | .lineWrap => k.removeMode .lineWrap
  | .origin => k.removeMode .origin
  | .columnMode | .blinkingCursor | .syncUpdate | .unknown => k

/-- `set_mode`. -/
def setNamedMode (k : State) : NamedMode → State
  | .insert => k.insertMode .insert
  | .lineFeedNewLine => k.insertMode .lineFeedNewLine

/-- `unset_mode`. -/
def unsetNamedMode (k : State) : NamedMode → State
  | .insert => k.removeMode .insert
  | .lineFeedNewLine => k.removeMode .lineFeedNewLine

end State

/-- What reaches the terminal's modes. -/
inductive Op where
  | push (mode : KeyboardModes)
  | pop (toPop : ℕ)
  | set (mode : KeyboardModes) (apply : ApplyBehavior)
  | swapAlt
  | resetState
  | setOptions (kittyKeyboard : Bool)
  | setPrivateMode (mode : PrivateMode)
  | unsetPrivateMode (mode : PrivateMode)
  | setMode (mode : NamedMode)
  | unsetMode (mode : NamedMode)
  | setKeypadApplicationMode
  | unsetKeypadApplicationMode
  | toggleViMode

namespace State

/-- One operation. -/
def step (k : State) : Op → State
  | .push mode => k.pushKeyboardMode mode
  | .pop n => k.popKeyboardModes n
  | .set mode apply => k.setKeyboardMode mode apply
  | .swapAlt => k.swapAlt
  | .resetState => k.resetState
  | .setOptions kittyKeyboard => k.setOptions kittyKeyboard
  | .setPrivateMode mode => k.setPrivateMode mode
  | .unsetPrivateMode mode => k.unsetPrivateMode mode
  | .setMode mode => k.setNamedMode mode
  | .unsetMode mode => k.unsetNamedMode mode
  | .setKeypadApplicationMode => k.insertMode .appKeypad
  | .unsetKeypadApplicationMode => k.removeMode .appKeypad
  | .toggleViMode => { k with mode := k.mode ^^^ .vi }

/-- A run of operations, in order. -/
def run (k : State) (ops : List Op) : State := ops.foldl step k

end State

end Pebrel.Terminal.Keyboard
