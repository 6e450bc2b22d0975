import Pebrel.Terminal.Keyboard
import Mathlib.Tactic

/-!
# The keyboard modes are two stacks

What the keyboard modes of a terminal are for: each screen has frames of its own,
which only what runs on that screen changes, and the flags in force are those of
the active screen's last frame.

## The model

`Frames.step` is one screen's frames with no terminal around them. `seen` is what
of a run one screen gets to see: the operations on frames made while it was the
active screen and the protocol was on, and the clearing of all frames.
-/

namespace Pebrel.Terminal.Keyboard

open List BitVec ApplyBehavior

open Modes (kittyKeyboardProtocol altScreen)

/-! ### Bits -/

variable {w i j : ℕ}

theorem contains_twoPow (m : BitVec w) (h : i < w) : contains m (.twoPow w i) = m.getLsbD i := by
  rw [contains, and_twoPow]
  cases hb : m.getLsbD i with
  | true => simp
  | false =>
    have hne : (0 : BitVec w) ≠ .twoPow w i := by
      intro e
      have := congrArg (·.getLsbD i) e
      simp [h] at this
    simpa using hne

theorem getLsbD_set (m : BitVec w) (b : Bool) (hj : j < w) : (set m (.twoPow w i) b).getLsbD j = if j = i then b else m.getLsbD j := by
  rcases eq_or_ne j i with rfl | hne
  · cases b <;> simp [set, insert, remove, hj]
  · cases b <;> simp [set, insert, remove, hj, hne]

theorem getLsbD_ofModes (m : Modes) (h : j < 8) : (ofModes m).getLsbD j = (decide (j < 5) && m.getLsbD (18 + j)) := by
  simp (disch := omega) only [ofModes, keyboardFlags, foldl_cons, foldl_nil, getLsbD_set, contains_twoPow,
    Modes.disambiguateEscCodes, Modes.reportEventTypes, Modes.reportAlternateKeys, Modes.reportAllKeysAsEsc, Modes.reportAssociatedText]
  interval_cases j <;> simp

theorem getLsbD_toModes (m : KeyboardModes) (h : j < 32) : (toModes m).getLsbD j = (decide (18 ≤ j ∧ j < 23) && m.getLsbD (j - 18)) := by
  simp (disch := omega) only [toModes, keyboardFlags, foldl_cons, foldl_nil, getLsbD_set, contains_twoPow,
    Modes.disambiguateEscCodes, Modes.reportEventTypes, Modes.reportAlternateKeys, Modes.reportAllKeysAsEsc, Modes.reportAssociatedText]
  interval_cases j <;> simp

theorem getLsbD_kitty (h : j < 32) : kittyKeyboardProtocol.getLsbD j = decide (18 ≤ j ∧ j < 23) := by
  revert j; decide

/-- The flags that have a bit in the mode. -/
def known : KeyboardModes := 0x1f

theorem getLsbD_known (h : j < 8) : known.getLsbD j = decide (j < 5) := by
  revert j; decide

theorem toModes_ofModes (m : Modes) : toModes (ofModes m) = m &&& kittyKeyboardProtocol := by
  apply eq_of_getLsbD_eq
  intro j hj
  rw [getLsbD_toModes _ hj, getLsbD_and, getLsbD_kitty hj]
  by_cases h : 18 ≤ j ∧ j < 23
  · rw [getLsbD_ofModes m (by omega), show 18 + (j - 18) = j by omega, Bool.and_comm]
    simp [h]
    omega
  · simp [h]

theorem ofModes_toModes (m : KeyboardModes) : ofModes (toModes m) = m &&& known := by
  apply eq_of_getLsbD_eq
  intro j hj
  rw [getLsbD_ofModes _ hj, getLsbD_and, getLsbD_known hj, getLsbD_toModes _ (by omega), Nat.add_sub_cancel_left, Bool.and_comm]
  by_cases h : j < 5 <;> simp [h]
  omega

/-- The flags are read from their own bits alone. -/
theorem ofModes_and (m : Modes) : ofModes (m &&& kittyKeyboardProtocol) = ofModes m := by
  apply eq_of_getLsbD_eq
  intro j hj
  rw [getLsbD_ofModes _ hj, getLsbD_ofModes _ hj, getLsbD_and]
  by_cases h : j < 5
  · rw [getLsbD_kitty (by omega), decide_eq_true (by omega : 18 ≤ 18 + j ∧ 18 + j < 23), Bool.and_true]
  · simp [h]

theorem toModes_and (m : KeyboardModes) : toModes m &&& kittyKeyboardProtocol = toModes m := by
  rw [← toModes_ofModes, ofModes_toModes]
  apply eq_of_getLsbD_eq
  intro j hj
  rw [getLsbD_toModes _ hj, getLsbD_toModes _ hj]
  by_cases h : 18 ≤ j ∧ j < 23
  · rw [getLsbD_and, getLsbD_known (by omega), decide_eq_true (by omega : j - 18 < 5), Bool.and_true]
  · simp [h]

/-- How a mode is applied to the active one. -/
def ApplyBehavior.on {w : ℕ} (apply : ApplyBehavior) (active mode : BitVec w) : BitVec w :=
  match apply with
  | .replace => mode
  | .union => active ||| mode
  | .difference => active &&& ~~~mode

/-- Applying the bits of the mode is applying the flags. -/
theorem ofModes_on (apply : ApplyBehavior) (m : Modes) (mode : KeyboardModes) :
    ofModes (apply.on m (toModes mode)) = apply.on (ofModes m) mode &&& known := by
  apply eq_of_getLsbD_eq
  intro j hj
  rw [getLsbD_ofModes _ hj, getLsbD_and, getLsbD_known hj]
  by_cases h : j < 5
  · have hm : (toModes mode).getLsbD (18 + j) = mode.getLsbD j := by
      rw [getLsbD_toModes _ (by omega), decide_eq_true (by omega : 18 ≤ 18 + j ∧ 18 + j < 23), Bool.true_and, Nat.add_sub_cancel_left]
    have ho : (ofModes m).getLsbD j = m.getLsbD (18 + j) := by
      rw [getLsbD_ofModes _ hj, decide_eq_true h, Bool.true_and]
    have h18 : 18 + j < 32 := by omega
    cases apply <;>
      simp only [on, getLsbD_or, getLsbD_and, getLsbD_not, hm, ho, h, h18, hj, decide_true, Bool.true_and, Bool.and_true]
  · simp [h]

/-! ### A screen's frames -/

/-- What is asked of a screen's frames. -/
inductive FrameOp where
  | push (mode : KeyboardModes)
  | pop (toPop : ℕ)
  | set (mode : KeyboardModes) (apply : ApplyBehavior)
  | clear

/-- One operation on a screen's frames, the base frame being the flags without any. -/
def Frames.step (frames : List KeyboardModes) : FrameOp → List KeyboardModes
  | .push mode => (if keyboardModeStackMaxDepth ≤ frames.length then frames.tail else frames) ++ [mode]
  | .pop n => frames.take (frames.length - n)
  | .set mode apply => frames.dropLast ++ [apply.on (top frames) mode &&& known]
  | .clear => []

/-- Which screen is active and whether the protocol is on. -/
structure Watch where
  alt : Bool
  kitty : Bool

/-- What an operation makes of it. -/
def Watch.step (w : Watch) : Op → Watch
  | .swapAlt => { w with alt := !w.alt }
  | .resetState => { w with alt := false }
  | .setOptions kitty => { w with kitty }
  | .setPrivateMode .swapScreenAndSetRestoreCursor => { w with alt := true }
  | .unsetPrivateMode .swapScreenAndSetRestoreCursor => { w with alt := false }
  | _ => w

/-- What an operation asks of the frames of `screen`, which is `true` for the alternate one. -/
def Watch.frameOp (w : Watch) (screen : Bool) : Op → Option FrameOp
  | .push mode => if w.kitty && w.alt == screen then some (.push mode) else none
  | .pop n => if w.kitty && w.alt == screen then some (.pop n) else none
  | .set mode apply => if w.kitty && w.alt == screen then some (.set mode apply) else none
  | .resetState => some .clear
  | .setOptions kitty => if kitty != w.kitty then some .clear else none
  | _ => none

open Watch (frameOp)

/-- What a run asks of the frames of `screen`. -/
def seen (screen : Bool) : Watch → List Op → List FrameOp
  | _, [] => []
  | w, op :: ops => (w.frameOp screen op).toList ++ seen screen (w.step op) ops

namespace State

/-- Which screen is active and whether the protocol is on. -/
def watch (k : State) : Watch := ⟨contains k.mode altScreen, k.kittyKeyboard⟩

/-- The frames of `screen`. -/
def frames (k : State) (screen : Bool) : List KeyboardModes :=
  if contains k.mode altScreen == screen then k.keyboardModeStack else k.inactiveKeyboardModeStack

open State (frames watch)

/-- The flags in the mode are those of the active screen's last frame. -/
def Held (k : State) : Prop := k.mode &&& kittyKeyboardProtocol = toModes (top k.keyboardModeStack)

/-! ### One step -/

/-- `k'` differs from `k` in modes that neither hold flags nor choose the screen. -/
structure Quiet (k k' : State) : Prop where
  flags : k'.mode &&& kittyKeyboardProtocol = k.mode &&& kittyKeyboardProtocol
  alt : contains k'.mode altScreen = contains k.mode altScreen
  active : k'.keyboardModeStack = k.keyboardModeStack
  inactive : k'.inactiveKeyboardModeStack = k.inactiveKeyboardModeStack
  kitty : k'.kittyKeyboard = k.kittyKeyboard

variable {flag : Modes} {k : State} {op : Op}

theorem Quiet.trans {a b c : State} (h1 : Quiet a b) (h2 : Quiet b c) : Quiet a c :=
  ⟨h2.flags.trans h1.flags, h2.alt.trans h1.alt, h2.active.trans h1.active, h2.inactive.trans h1.inactive, h2.kitty.trans h1.kitty⟩

/-- A flag that is none of the keyboard's, nor the one of the alternate screen. -/
def Aside (flag : Modes) : Prop := flag &&& (kittyKeyboardProtocol ||| altScreen) = 0
deriving Decidable

theorem Aside.getLsbD (h : Aside flag) {j : ℕ} (hj : 18 ≤ j ∧ j < 23 ∨ j = 12) : flag.getLsbD j = false := by
  have e := congrArg (·.getLsbD j) h
  have hk : (kittyKeyboardProtocol ||| altScreen).getLsbD j = true := by
    rw [getLsbD_or, getLsbD_kitty (by omega), altScreen, getLsbD_twoPow]
    simp
    omega
  simpa [hk] using e

theorem contains_altScreen (m : Modes) : contains m altScreen = m.getLsbD 12 := contains_twoPow m (by omega)

/-- A mode in which the bits of the keyboard and of the screen stay is a quiet change. -/
theorem quiet_of_bits (k : State) (m : Modes)
    (h : ∀ j, 18 ≤ j ∧ j < 23 ∨ j = 12 → m.getLsbD j = k.mode.getLsbD j) : Quiet k { k with mode := m } := by
  refine ⟨?_, ?_, rfl, rfl, rfl⟩
  · apply eq_of_getLsbD_eq
    intro j hj
    rw [getLsbD_and, getLsbD_and, getLsbD_kitty hj]
    by_cases hb : 18 ≤ j ∧ j < 23
    · rw [h j (.inl hb)]
    · simp [hb]
  · rw [contains_altScreen, contains_altScreen]
    exact h 12 (.inr rfl)

theorem quiet_insertMode (k : State) (h : Aside flag) : Quiet k (k.insertMode flag) := by
  refine quiet_of_bits k _ fun j hj => ?_
  rw [insert, getLsbD_or, h.getLsbD hj, Bool.or_false]

theorem quiet_removeMode (k : State) (h : Aside flag) : Quiet k (k.removeMode flag) := by
  refine quiet_of_bits k _ fun j hj => ?_
  have hj32 : j < 32 := by omega
  rw [remove, getLsbD_and, getLsbD_not, h.getLsbD hj]
  simp [hj32]

theorem quiet_xor (k : State) (h : Aside flag) : Quiet k { k with mode := k.mode ^^^ flag } := by
  refine quiet_of_bits k _ fun j hj => ?_
  rw [getLsbD_xor, h.getLsbD hj, Bool.xor_false]

/-- `k'` is `k` after `op`, as the two stacks see it. -/
structure Realises (k k' : State) (op : Op) : Prop where
  held : Held k'
  watch : k'.watch = k.watch.step op
  frames : ∀ screen, k'.frames screen = (k.watch.frameOp screen op).toList.foldl Frames.step (k.frames screen)

theorem Quiet.realises {k' : State} (h : Quiet k k') (hk : k.Held) (hw : k.watch.step op = k.watch)
    (hf : ∀ screen, k.watch.frameOp screen op = none) : Realises k k' op := by
  refine ⟨?_, ?_, fun screen => ?_⟩
  · rw [Held, h.flags, h.active]
    exact hk
  · rw [hw, watch, watch, h.alt, h.kitty]
  · rw [hf, frames, h.alt, h.active, h.inactive]
    rfl

@[simp] theorem setMode_inactive (k : State) (mode : Modes) (apply : ApplyBehavior) :
    (k.setMode mode apply).inactiveKeyboardModeStack = k.inactiveKeyboardModeStack := rfl

/-- What `set_keyboard_mode` leaves in the bits of the keyboard. -/
theorem setMode_flags (k : State) (mode : KeyboardModes) (apply : ApplyBehavior) :
    (k.setMode (toModes mode) apply).mode &&& kittyKeyboardProtocol
      = apply.on (k.mode &&& kittyKeyboardProtocol) (toModes mode) &&& kittyKeyboardProtocol := by
  apply eq_of_getLsbD_eq
  intro j hj
  cases apply <;> simp only [setMode, on, getLsbD_and, getLsbD_or, getLsbD_not, hj,
    decide_true, Bool.true_and] <;> cases kittyKeyboardProtocol.getLsbD j <;> simp

/-- The screen stays. -/
theorem setMode_alt (k : State) (mode : KeyboardModes) (apply : ApplyBehavior) :
    contains (k.setMode (toModes mode) apply).mode altScreen = contains k.mode altScreen := by
  rw [contains_altScreen, contains_altScreen]
  have hk : kittyKeyboardProtocol.getLsbD 12 = false := rfl
  have ht : (toModes mode).getLsbD 12 = false := by rw [getLsbD_toModes _ (by omega)]; rfl
  cases apply <;>
    simp only [setMode, getLsbD_or, getLsbD_and, getLsbD_not, hk, ht, Bool.and_false, Bool.or_false,
      Bool.not_false, Bool.and_true, Nat.reduceLT, decide_true]

theorem setMode_replace_held (k : State) : Held (k.setMode (toModes (top k.keyboardModeStack)) .replace) := by
  rw [Held, setMode_flags, on, toModes_and]
  rfl

/-- What changes the active stack alone, and then loads its last frame, does that to the active screen. -/
theorem load_realises {f : FrameOp} (hw : k.watch.step op = k.watch)
    (hf : ∀ screen, k.watch.frameOp screen op = if k.watch.alt == screen then some f else none) :
    Realises k ({ k with keyboardModeStack := Frames.step k.keyboardModeStack f }.setMode
        (toModes (top (Frames.step k.keyboardModeStack f))) .replace) op := by
  refine ⟨setMode_replace_held { k with keyboardModeStack := Frames.step k.keyboardModeStack f }, ?_, fun screen => ?_⟩
  · rw [hw, watch, setMode_alt]
    rfl
  · rw [hf, frames, setMode_alt, frames]
    by_cases h : contains k.mode altScreen == screen
    · simp [watch, h, setMode]
    · simp [watch, h, setMode]

@[simp] theorem top_concat (frames : List KeyboardModes) (mode : KeyboardModes) : top (frames ++ [mode]) = mode := by
  simp [top]

theorem pushKeyboardMode_realises (hk : k.Held) (mode : KeyboardModes) : Realises k (k.pushKeyboardMode mode) (.push mode) := by
  cases hc : k.kittyKeyboard with
  | false =>
    rw [pushKeyboardMode, hc]
    exact Quiet.realises ⟨rfl, rfl, rfl, rfl, rfl⟩ hk rfl fun screen => by simp [frameOp, watch, hc]
  | true =>
    have h : Realises k _ (.push mode) := load_realises (f := .push mode) rfl fun screen => by
      simp [frameOp, watch, hc]
    rw [Frames.step, top_concat] at h
    rw [pushKeyboardMode, if_neg (by simp [hc])]
    exact h

theorem popKeyboardModes_realises (hk : k.Held) (n : ℕ) : Realises k (k.popKeyboardModes n) (.pop n) := by
  cases hc : k.kittyKeyboard with
  | false =>
    rw [popKeyboardModes, hc]
    exact Quiet.realises ⟨rfl, rfl, rfl, rfl, rfl⟩ hk rfl fun screen => by simp [frameOp, watch, hc]
  | true =>
    rw [popKeyboardModes, if_neg (by simp [hc])]
    exact load_realises (f := .pop n) rfl fun screen => by
      simp [frameOp, watch, hc]

/-- The last frame is replaced, or the first one laid down. -/
theorem setKeyboardMode_eq (hc : k.kittyKeyboard = true) (mode : KeyboardModes) (apply : ApplyBehavior) :
    k.setKeyboardMode mode apply = { k.setMode (toModes mode) apply with
      keyboardModeStack := k.keyboardModeStack.dropLast ++ [ofModes (k.setMode (toModes mode) apply).mode] } := by
  have hs : (k.setMode (toModes mode) apply).keyboardModeStack = k.keyboardModeStack := rfl
  simp only [setKeyboardMode, hc, Bool.not_true, Bool.false_eq_true, if_false, hs]
  cases h : k.keyboardModeStack.getLast? with
  | some _ => rfl
  | none => rw [getLast?_eq_none_iff.mp h]; rfl

/-- Unknown flags of the active mode do not show in the result. -/
theorem on_known (apply : ApplyBehavior) (active mode : KeyboardModes) :
    apply.on (active &&& known) mode &&& known = apply.on active mode &&& known := by
  apply eq_of_getLsbD_eq
  intro j hj
  cases apply <;> simp only [on, getLsbD_and, getLsbD_or] <;>
    cases known.getLsbD j <;> simp

/-- The flags after `set_keyboard_mode` are the new ones applied to those of the last frame. -/
theorem ofModes_setMode (hk : k.Held) (mode : KeyboardModes) (apply : ApplyBehavior) :
    ofModes (k.setMode (toModes mode) apply).mode = apply.on (top k.keyboardModeStack) mode &&& known := by
  have hk' : k.mode &&& kittyKeyboardProtocol = toModes (top k.keyboardModeStack) := hk
  rw [← ofModes_and, setMode_flags, hk', ofModes_and, ofModes_on, ofModes_toModes, on_known]

theorem setKeyboardMode_realises (hk : k.Held) (mode : KeyboardModes) (apply : ApplyBehavior) :
    Realises k (k.setKeyboardMode mode apply) (.set mode apply) := by
  cases hc : k.kittyKeyboard with
  | false =>
    rw [setKeyboardMode, if_pos (by simp [hc])]
    exact Quiet.realises ⟨rfl, rfl, rfl, rfl, rfl⟩ hk rfl fun screen => by simp [frameOp, watch, hc]
  | true =>
    rw [setKeyboardMode_eq hc]
    refine ⟨?_, ?_, fun screen => ?_⟩
    · rw [Held, top_concat, toModes_ofModes]
    · show Watch.mk (contains (k.setMode (toModes mode) apply).mode altScreen) k.kittyKeyboard = k.watch
      rw [setMode_alt]
      rfl
    · rw [ofModes_setMode hk]
      by_cases h : contains k.mode altScreen == screen
      · simp [frames, setMode_alt, frameOp, watch, hc, h, Frames.step]
      · simp [frames, setMode_alt, frameOp, watch, hc, h]

theorem swapAlt_spec : Held k.swapAlt ∧ k.swapAlt.watch = ⟨!k.watch.alt, k.watch.kitty⟩ ∧
      ∀ screen, k.swapAlt.frames screen = k.frames screen := by
  set u : State := { k with
    keyboardModeStack := k.inactiveKeyboardModeStack, inactiveKeyboardModeStack := k.keyboardModeStack } with hu
  set v := u.setMode (toModes (top u.keyboardModeStack)) .replace with hv
  have heq : k.swapAlt = { v with mode := v.mode ^^^ altScreen } := rfl
  have halt : contains k.swapAlt.mode altScreen = !contains k.mode altScreen := by
    have ha : contains v.mode altScreen = contains k.mode altScreen := setMode_alt u _ _
    rw [contains_altScreen, contains_altScreen] at *
    rw [heq, getLsbD_xor, ha]
    simp [altScreen]
  refine ⟨?_, ?_, fun screen => ?_⟩
  · have hh : v.Held := setMode_replace_held u
    have hbits : k.swapAlt.mode &&& kittyKeyboardProtocol = v.mode &&& kittyKeyboardProtocol := by
      apply eq_of_getLsbD_eq
      intro j hj
      rw [heq, getLsbD_and, getLsbD_and, getLsbD_xor, getLsbD_kitty hj]
      by_cases hb : 18 ≤ j ∧ j < 23
      · simp [altScreen, getLsbD_twoPow, show 12 ≠ j by omega]
      · simp [hb]
    rw [Held, hbits]
    exact hh
  · rw [watch, halt]
    rfl
  · rw [frames, frames, halt]
    show (if _ then k.inactiveKeyboardModeStack else k.keyboardModeStack) = _
    cases contains k.mode altScreen <;> cases screen <;> rfl

theorem resetState_realises (k : State) : Realises k k.resetState .resetState := by
  have ha : contains k.resetState.mode altScreen = false := by
    rw [contains_altScreen]
    have hv : Modes.vi.getLsbD 12 = false := rfl
    have hd : Modes.default.getLsbD 12 = false := rfl
    rw [resetState, insert, getLsbD_or, getLsbD_and, hv, hd, Bool.and_false, Bool.or_false]
  refine ⟨?_, ?_, fun screen => ?_⟩
  · have hv : .vi &&& kittyKeyboardProtocol = 0 := rfl
    have hd : .default &&& kittyKeyboardProtocol = 0 := rfl
    have h0 : toModes (top []) = 0 := rfl
    show (k.mode &&& Modes.vi ||| .default) &&& kittyKeyboardProtocol = toModes (top [])
    apply eq_of_getLsbD_eq
    intro j hj
    have hvj := congrArg (·.getLsbD j) hv
    have hdj := congrArg (·.getLsbD j) hd
    simp only [getLsbD_and] at hvj hdj
    rw [h0, getLsbD_and, getLsbD_or, getLsbD_and, Bool.and_or_distrib_right, Bool.and_assoc, hvj, hdj]
    simp
  · rw [watch, ha]
    rfl
  · rw [frames]
    simp [resetState, frameOp, Frames.step]

theorem setOptions_realises (hk : k.Held) (kitty : Bool) : Realises k (k.setOptions kitty) (.setOptions kitty) := by
  by_cases hc : kitty = k.kittyKeyboard
  · have he : k.setOptions kitty = k := by simp [setOptions, hc]
    rw [he]
    refine ⟨hk, ?_, fun screen => ?_⟩
    · simp [Watch.step, watch, hc]
    · simp [frameOp, watch, hc]
  · have ha : contains (k.setOptions kitty).mode altScreen = contains k.mode altScreen := by
      rw [contains_altScreen, contains_altScreen]
      have hk12 : kittyKeyboardProtocol.getLsbD 12 = false := rfl
      simp only [setOptions, bne_iff_ne, ne_eq, hc, not_false_eq_true, if_true, remove, getLsbD_and, getLsbD_not, hk12]
      simp
    refine ⟨?_, ?_, fun screen => ?_⟩
    · have h0 : toModes (top []) = 0 := rfl
      simp only [Held, setOptions, bne_iff_ne, ne_eq, hc, not_false_eq_true, if_true, h0, remove]
      apply eq_of_getLsbD_eq
      intro j hj
      simp only [getLsbD_and, getLsbD_not]
      cases kittyKeyboardProtocol.getLsbD j <;> simp
    · rw [watch, ha]
      simp [setOptions, hc, Watch.step, watch]
    · simp [frames, setOptions, hc, frameOp, watch, Frames.step]

theorem swapAlt_realises (k : State) : Realises k k.swapAlt .swapAlt := by
  obtain ⟨hh, hw, hf⟩ := swapAlt_spec (k := k)
  exact ⟨hh, hw, fun screen => hf screen⟩

theorem setPrivateMode_realises (hk : k.Held) (mode : PrivateMode) : Realises k (k.setPrivateMode mode) (.setPrivateMode mode) := by
  cases mode with
  | swapScreenAndSetRestoreCursor =>
    cases h : contains k.mode altScreen with
    | true =>
      rw [setPrivateMode, h]
      exact Quiet.realises ⟨rfl, rfl, rfl, rfl, rfl⟩ hk (by simp [Watch.step, watch, h]) fun _ => rfl
    | false =>
      obtain ⟨hh, hw, hf⟩ := swapAlt_spec (k := k)
      rw [setPrivateMode, h]
      refine ⟨hh, ?_, hf⟩
      rw [if_pos (by rfl), hw]
      simp [Watch.step, watch, h]
  | columnMode | blinkingCursor | syncUpdate | unknown =>
    exact Quiet.realises ⟨rfl, rfl, rfl, rfl, rfl⟩ hk rfl fun _ => rfl
  | reportMouseClicks | reportCellMouseMotion | reportAllMouseMotion | sgrMouse | utf8Mouse =>
    exact ((quiet_removeMode k (by decide)).trans (quiet_insertMode _ (by decide))).realises hk rfl fun _ => rfl
  | _ => exact (quiet_insertMode k (by decide)).realises hk rfl fun _ => rfl

theorem unsetPrivateMode_realises (hk : k.Held) (mode : PrivateMode) : Realises k (k.unsetPrivateMode mode) (.unsetPrivateMode mode) := by
  cases mode with
  | swapScreenAndSetRestoreCursor =>
    cases h : contains k.mode altScreen with
    | false =>
      rw [unsetPrivateMode, h]
      exact Quiet.realises ⟨rfl, rfl, rfl, rfl, rfl⟩ hk (by simp [Watch.step, watch, h]) fun _ => rfl
    | true =>
      obtain ⟨hh, hw, hf⟩ := swapAlt_spec (k := k)
      rw [unsetPrivateMode, h]
      refine ⟨hh, ?_, hf⟩
      rw [if_pos rfl, hw]
      simp [Watch.step, watch, h]
  | columnMode | blinkingCursor | syncUpdate | unknown =>
    exact Quiet.realises ⟨rfl, rfl, rfl, rfl, rfl⟩ hk rfl fun _ => rfl
  | _ => exact (quiet_removeMode k (by decide)).realises hk rfl fun _ => rfl

/-- What one operation does is what the two stacks are asked for. -/
theorem step_realises (hk : k.Held) (op : Op) : Realises k (k.step op) op := by
  cases op with
  | push mode => exact pushKeyboardMode_realises hk mode
  | pop n => exact popKeyboardModes_realises hk n
  | set mode apply => exact setKeyboardMode_realises hk mode apply
  | swapAlt => exact swapAlt_realises k
  | resetState => exact resetState_realises k
  | setOptions kitty => exact setOptions_realises hk kitty
  | setPrivateMode mode => exact setPrivateMode_realises hk mode
  | unsetPrivateMode mode => exact unsetPrivateMode_realises hk mode
  | setMode mode => cases mode <;> exact (quiet_insertMode k (by decide)).realises hk rfl fun _ => rfl
  | unsetMode mode => cases mode <;> exact (quiet_removeMode k (by decide)).realises hk rfl fun _ => rfl
  | setKeypadApplicationMode => exact (quiet_insertMode k (by decide)).realises hk rfl fun _ => rfl
  | unsetKeypadApplicationMode => exact (quiet_removeMode k (by decide)).realises hk rfl fun _ => rfl
  | toggleViMode => exact (quiet_xor k (by decide)).realises hk rfl fun _ => rfl

/-! ### Runs -/

/-- A run leaves the flags of the last frame in the mode, and on each screen what that screen has seen. -/
theorem run_realises (hk : k.Held) (ops : List Op) :
    (k.run ops).Held ∧ ∀ screen, (k.run ops).frames screen = (seen screen k.watch ops).foldl Frames.step (k.frames screen) := by
  induction ops generalizing k with
  | nil => exact ⟨hk, fun _ => rfl⟩
  | cons op ops ih =>
    obtain ⟨hh, hw, hf⟩ := step_realises hk op
    obtain ⟨ih1, ih2⟩ := ih hh
    refine ⟨ih1, fun screen => ?_⟩
    have := ih2 screen
    rw [hw, hf screen] at this
    rw [seen, foldl_append]
    exact this

/-- Loading a last frame over another keeps nothing of the other. -/
theorem setMode_setMode (k : State) (a b : KeyboardModes) :
    ((k.setMode (toModes a) .replace).setMode (toModes b) .replace).mode = (k.setMode (toModes b) .replace).mode := by
  apply eq_of_getLsbD_eq
  intro j hj
  have ha := congrArg (·.getLsbD j) (toModes_and a)
  simp only [getLsbD_and] at ha
  simp only [setMode, getLsbD_or, getLsbD_and, getLsbD_not, hj, decide_true, Bool.true_and]
  rw [← ha]
  cases kittyKeyboardProtocol.getLsbD j <;> simp

/-- Loading the flags in force changes nothing. -/
theorem setMode_self (hk : k.Held) : (k.setMode (toModes (top k.keyboardModeStack)) .replace).mode = k.mode := by
  have hk' : k.mode &&& kittyKeyboardProtocol = toModes (top k.keyboardModeStack) := hk
  rw [← hk']
  apply eq_of_getLsbD_eq
  intro j hj
  simp only [setMode, getLsbD_or, getLsbD_and, getLsbD_not, hj, decide_true, Bool.true_and]
  cases kittyKeyboardProtocol.getLsbD j <;> simp

/-- The frame under a pushed one is the last one before, also when the deepest has fallen out. -/
theorem top_push_pop (frames : List KeyboardModes) (mode : KeyboardModes) :
    top (Frames.step (Frames.step frames (.push mode)) (.pop 1)) = top frames := by
  simp only [Frames.step, length_append, length_singleton, Nat.add_sub_cancel, take_left]
  split
  · next h =>
    match frames, h with
    | a :: b :: rest, _ => simp [top]
    | [a], h => simp [keyboardModeStackMaxDepth] at h
    | [], h => simp [keyboardModeStackMaxDepth] at h
  · rfl

theorem push_pop_mode (hk : k.Held) (mode : KeyboardModes) : ((k.pushKeyboardMode mode).popKeyboardModes 1).mode = k.mode := by
  cases hc : k.kittyKeyboard with
  | false => simp [pushKeyboardMode, popKeyboardModes, hc]
  | true =>
    have hpush : k.pushKeyboardMode mode
        = { k with keyboardModeStack := Frames.step k.keyboardModeStack (.push mode) }.setMode (toModes mode) .replace := by
      rw [pushKeyboardMode, if_neg (by simp [hc])]
      rfl
    have hp := top_push_pop k.keyboardModeStack mode
    rw [hpush, popKeyboardModes, if_neg (by simp [setMode, hc])]
    show ((k.setMode (toModes mode) .replace).setMode
      (toModes (top (Frames.step (Frames.step k.keyboardModeStack (.push mode)) (.pop 1)))) .replace).mode = k.mode
    rw [hp, setMode_setMode, setMode_self hk]

def new (kittyKeyboard : Bool) : State := { kittyKeyboard }

theorem new_held (kittyKeyboard : Bool) : (new kittyKeyboard).Held := by
  show .default &&& kittyKeyboardProtocol = toModes noMode
  decide

theorem new_watch (kittyKeyboard : Bool) : (new kittyKeyboard).watch = ⟨false, kittyKeyboard⟩ := by
  have h : contains Modes.default altScreen = false := by decide
  rw [watch, show (new kittyKeyboard).mode = Modes.default from rfl, h]
  rfl

theorem new_frames (kittyKeyboard screen : Bool) : (new kittyKeyboard).frames screen = [] := by
  simp [frames, new]

/-- **The flags of the mode are those of the active screen's last frame, popping what was pushed brings back
what was before, and each screen has the frames that it alone has seen.** -/
theorem keyboard_modes (kittyKeyboard : Bool) (ops : List Op) :
    ((new kittyKeyboard).run ops).mode &&& kittyKeyboardProtocol
        = toModes (top ((new kittyKeyboard).run ops).keyboardModeStack) ∧
      (∀ mode, ((((new kittyKeyboard).run ops).pushKeyboardMode mode).popKeyboardModes 1).mode
        = ((new kittyKeyboard).run ops).mode) ∧
      ∀ screen, ((new kittyKeyboard).run ops).frames screen
        = (seen screen ⟨false, kittyKeyboard⟩ ops).foldl Frames.step [] := by
  obtain ⟨hh, hf⟩ := run_realises (new_held kittyKeyboard) ops
  refine ⟨hh, fun mode => push_pop_mode hh mode, fun screen => ?_⟩
  rw [hf screen, new_frames, new_watch]

end State

end Pebrel.Terminal.Keyboard
