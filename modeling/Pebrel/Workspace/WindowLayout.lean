import Mathlib.Algebra.Order.Ring.Nat
import Mathlib.Algebra.BigOperators.Group.List.Basic

/-!
# Windows in a session

The windows are saved in one session: the tabs of all windows one after another, which
an older program can read, and beside them how many tabs each window has
(`session/window_layout.rs`). At a start after an update the session is taken apart
again, with the active window last. A session whose numbers do not add up to its tabs
is refused, as is one of more than 32 windows.

## The model

Tabs and window states are of any type, and the JSON of a session is left out: `upgraded`
is what the program makes of the version that it reads. Numbers do not overflow.
-/

namespace Pebrel.Workspace.Windows

open List Option

variable {τ ω : Type}

/-! ### Sessions -/

/-- `VERSION`. -/
def currentVersion : ℕ := 4

structure WindowLayout (ω : Type) where
  tabCount : ℕ
  activeTab : ℕ
  active : Bool
  window : Option ω

structure Session (τ ω : Type) where
  version : ℕ
  bootAttempts : ℕ
  activeTab : ℕ
  tabs : List τ
  window : Option ω
  windowLayout : List (WindowLayout ω)
  cleanExit : Bool

def Session.new (activeTab : ℕ) (tabs : List τ) : Session τ ω := ⟨currentVersion, 0, activeTab, tabs, none, [], false⟩

/-- The version check of `parse`. -/
def upgraded (session : Session τ ω) : Option (Session τ ω) :=
  let session := if 1 ≤ session.version ∧ session.version ≤ 3 then { session with version := currentVersion } else session
  if session.version = currentVersion then some session else none

/-- What is kept of the boundaries of a window. -/
def layoutOf (entry : Bool × Session τ ω) : WindowLayout ω := ⟨entry.2.tabs.length, entry.2.activeTab, entry.1, entry.2.window⟩

/-- The body of the loop of `combine_sessions`. -/
def combineStep (combined : Session τ ω) (entry : Bool × Session τ ω) : Session τ ω :=
  { combined with
    activeTab := if entry.1 then combined.tabs.length + entry.2.activeTab else combined.activeTab
    windowLayout := combined.windowLayout ++ [layoutOf entry]
    bootAttempts := max combined.bootAttempts entry.2.bootAttempts
    tabs := combined.tabs ++ entry.2.tabs }

def combineSessions (sessions : List (Bool × Session τ ω)) : Option (Session τ ω) :=
  if sessions = [] then none
  else
    let combined := sessions.foldl combineStep (.new 0 [])
    some { combined with activeTab := min combined.activeTab (combined.tabs.length - 1) }

/-- The loop of `into_update_windows`: each window takes its tabs from the front. -/
def takeWindows (session : Session τ ω) : List (WindowLayout ω) → List τ → List (Session τ ω) → Option (Session τ ω) → List (Session τ ω)
  | [], _, windows, active => windows ++ active.toList
  | layout :: layouts, tabs, windows, active =>
    let window := { (.new layout.activeTab (tabs.take layout.tabCount) : Session τ ω) with
      bootAttempts := session.bootAttempts
      cleanExit := session.cleanExit
      window := layout.window }
    if layout.active then takeWindows session layouts (tabs.drop layout.tabCount) windows (some window)
    else takeWindows session layouts (tabs.drop layout.tabCount) (windows ++ [window]) active

/-- The boundaries fit the tabs. -/
def ValidBoundaries (session : Session τ ω) : Prop :=
  (session.windowLayout.map WindowLayout.tabCount).sum = session.tabs.length ∧ session.windowLayout.length ≤ 32 ∧
    session.windowLayout.countP WindowLayout.active ≤ 1 ∧ ∀ layout ∈ session.windowLayout, layout.activeTab ≤ layout.tabCount - 1
deriving Decidable

/-- `into_update_windows`; the only error is of invalid boundaries. -/
def intoUpdateWindows (session : Session τ ω) : Option (List (Session τ ω)) :=
  if session.windowLayout = [] then some [session]
  else if ValidBoundaries session then some (takeWindows session session.windowLayout session.tabs [] none)
  else none

/-! ### Combining -/

section Combine

variable (sessions : List (Bool × Session τ ω)) (c : Session τ ω)

theorem tabs_foldl_combineStep : (sessions.foldl combineStep c).tabs = c.tabs ++ sessions.flatMap fun e => e.2.tabs := by
  induction sessions generalizing c with
  | nil => simp
  | cons e sessions ih =>
    rw [foldl_cons, ih, flatMap_cons, ← append_assoc]
    rfl

theorem windowLayout_foldl_combineStep : (sessions.foldl combineStep c).windowLayout = c.windowLayout ++ sessions.map layoutOf := by
  induction sessions generalizing c with
  | nil => simp
  | cons e sessions ih =>
    rw [foldl_cons, ih, map_cons, append_cons]
    rfl

theorem kept_foldl_combineStep : ((sessions.foldl combineStep c).version, (sessions.foldl combineStep c).cleanExit) =
    (c.version, c.cleanExit) := by
  induction sessions generalizing c with
  | nil => rfl
  | cons e sessions ih => exact ih _

end Combine

/-! ### Taking apart -/

/-- What a window is after it was saved with others. -/
def restored (session window : Session τ ω) : Session τ ω :=
  { Session.new window.activeTab window.tabs with
    bootAttempts := session.bootAttempts
    cleanExit := session.cleanExit
    window := window.window }

theorem takeWindows_combined (session : Session τ ω) (entries : List (Bool × Session τ ω)) (windows : List (Session τ ω))
    (active : Option (Session τ ω)) (h : entries.countP Prod.fst + active.toList.length ≤ 1) :
    takeWindows session (entries.map layoutOf) (entries.flatMap fun e => e.2.tabs) windows active =
      windows ++ (entries.filter fun e => !e.1).map (fun e => restored session e.2) ++
        (active.toList ++ (entries.filter Prod.fst).map fun e => restored session e.2) := by
  induction entries generalizing windows active with
  | nil => simp [takeWindows]
  | cons e entries ih =>
    obtain ⟨isActive, window⟩ := e
    rw [map_cons, flatMap_cons, takeWindows]
    simp only [layoutOf, take_left', drop_left']
    cases isActive with
    | true =>
      rw [countP_cons_of_pos rfl] at h
      obtain rfl : active = none := by
        cases active with
        | none => rfl
        | some a =>
          rw [toList_some, length_singleton] at h
          omega
      rw [if_pos rfl, ih windows _ (by rw [toList_some, length_singleton]; simpa using h)]
      simp [restored]
    | false =>
      rw [countP_cons_of_neg Bool.false_ne_true] at h
      rw [if_neg (by decide), ih _ active h]
      simp [restored]

/-- No tab is lost, and none is there twice. -/
theorem takeWindows_perm (session : Session τ ω) (layouts : List (WindowLayout ω)) (tabs : List τ) (windows : List (Session τ ω))
    (active : Option (Session τ ω)) (ha : layouts.countP WindowLayout.active + active.toList.length ≤ 1)
    (hc : (layouts.map WindowLayout.tabCount).sum = tabs.length) :
    ((takeWindows session layouts tabs windows active).flatMap Session.tabs).Perm
      (windows.flatMap Session.tabs ++ (active.toList.flatMap Session.tabs ++ tabs)) := by
  induction layouts generalizing tabs windows active with
  | nil =>
    rw [map_nil, sum_nil] at hc
    rw [takeWindows, length_eq_zero_iff.mp hc.symm, append_nil, flatMap_append]
  | cons layout layouts ih =>
    rw [map_cons, sum_cons] at hc
    have hr : (layouts.map WindowLayout.tabCount).sum = (tabs.drop layout.tabCount).length := by
      rw [length_drop]
      omega
    rw [takeWindows]
    cases hl : layout.active with
    | true =>
      rw [countP_cons_of_pos hl] at ha
      obtain rfl : active = none := by
        cases active with
        | none => rfl
        | some a =>
          rw [toList_some, length_singleton] at ha
          omega
      rw [if_pos rfl]
      refine (ih _ windows _ (by rw [toList_some, length_singleton]; simpa using ha) hr).trans (.of_eq ?_)
      simp [Session.new]
    | false =>
      rw [countP_cons_of_neg (by rw [hl]; decide)] at ha
      rw [if_neg (by decide)]
      refine (ih _ _ active ha hr).trans ?_
      rw [flatMap_append, append_assoc]
      refine .append_left _ ?_
      simp only [Session.new, flatMap_cons, flatMap_nil, append_nil]
      refine perm_append_comm_assoc _ _ _ |>.trans ?_
      rw [take_append_drop]

/-! ### The round trip -/

/-- Windows as they are open: the active tab of each is one of its tabs, and one window at most is active. -/
structure Open (sessions : List (Bool × Session τ ω)) : Prop where
  nonempty : sessions ≠ []
  active : sessions.countP Prod.fst ≤ 1
  activeTab : ∀ e ∈ sessions, e.2.activeTab ≤ e.2.tabs.length - 1

theorem combineSessions_eq_some {sessions : List (Bool × Session τ ω)} (h : sessions ≠ []) : ∃ combined,
    combineSessions sessions = some combined ∧ combined.tabs = (sessions.flatMap fun e => e.2.tabs) ∧
      combined.windowLayout = sessions.map layoutOf ∧ combined.version = currentVersion ∧ combined.cleanExit = false := by
  refine ⟨_, if_neg h, tabs_foldl_combineStep sessions _, windowLayout_foldl_combineStep sessions _, ?_, ?_⟩
  · exact congrArg Prod.fst (kept_foldl_combineStep sessions (.new 0 []))
  · exact congrArg Prod.snd (kept_foldl_combineStep sessions (.new 0 []))

theorem validBoundaries_iff {sessions : List (Bool × Session τ ω)} (ho : Open sessions) {combined : Session τ ω}
    (htabs : combined.tabs = sessions.flatMap fun e => e.2.tabs) (hl : combined.windowLayout = sessions.map layoutOf) :
    ValidBoundaries combined ↔ sessions.length ≤ 32 := by
  rw [ValidBoundaries, htabs, hl]
  constructor
  · rintro ⟨-, hlen, -⟩
    rwa [length_map] at hlen
  · intro hlen
    refine ⟨?_, by rwa [length_map], ?_, ?_⟩
    · rw [List.map_map, length_flatMap]
      rfl
    · rw [countP_map]
      exact ho.active
    · intro layout hl
      obtain ⟨e, he, rfl⟩ := List.mem_map.mp hl
      exact ho.activeTab e he

/-- **The windows of a session come back**, the active one last, as long as there are no more than 32; and a session whose
boundaries do not fit is refused, so that no tab is lost and none is there twice. -/
theorem windows_restored (sessions : List (Bool × Session τ ω)) (hopen : Open sessions) :
    (∃ combined, combineSessions sessions = some combined ∧ upgraded combined = some combined ∧
      intoUpdateWindows combined = if sessions.length ≤ 32 then
        some (((sessions.filter fun e => !e.1) ++ sessions.filter Prod.fst).map fun e => restored combined e.2) else none) ∧
    ∀ session : Session τ ω, (session.windowLayout ≠ [] → ¬ ValidBoundaries session → intoUpdateWindows session = none) ∧
      ∀ windows, intoUpdateWindows session = some windows → (windows.flatMap Session.tabs).Perm session.tabs := by
  constructor
  · obtain ⟨combined, hcom, htabs, hlay, hver, -⟩ := combineSessions_eq_some hopen.nonempty
    refine ⟨combined, hcom, ?_, ?_⟩
    · rw [upgraded, hver]
      simp [currentVersion, hver]
    · have hne : combined.windowLayout ≠ [] := by
        rw [hlay]
        exact fun h => hopen.nonempty (map_eq_nil_iff.mp h)
      rw [intoUpdateWindows, if_neg hne]
      refine if_congr (validBoundaries_iff hopen htabs hlay) (congrArg some ?_) rfl
      rw [htabs, hlay, takeWindows_combined combined sessions [] none (by simpa using hopen.active), map_append]
      rfl
  · intro session
    refine ⟨fun hne hval => by rw [intoUpdateWindows, if_neg hne, if_neg hval], fun windows h => ?_⟩
    rw [intoUpdateWindows] at h
    split at h
    · cases h
      simp
    split at h
    · rename_i hval
      cases h
      exact takeWindows_perm session _ _ [] none (by simpa using hval.2.2.1) hval.1
    · cases h

/-- A window without geometry. -/
def window (tabs : List ℕ) (activeTab : ℕ) : Session ℕ ℕ := .new activeTab tabs

theorem windows_restored_two : ∃ combined, combineSessions [(true, window [1, 2] 1), (false, window [3] 0)] = some combined ∧
    upgraded combined = some combined ∧
    intoUpdateWindows combined = if 2 ≤ 32 then some [restored combined (window [3] 0), restored combined (window [1, 2] 1)] else none :=
  (windows_restored [(true, window [1, 2] 1), (false, window [3] 0)] ⟨by simp, by decide, by simp [window, Session.new]⟩).1

/-- A window too many. -/
theorem windows_refused : ¬ ∀ sessions : List (Bool × Session ℕ ℕ), Open sessions →
    ∃ combined windows, combineSessions sessions = some combined ∧ intoUpdateWindows combined = some windows := by
  intro h
  have ho : Open (replicate 33 (false, window [] 0)) := ⟨by simp, by decide, by simp [window, Session.new]⟩
  obtain ⟨combined, windows, hcom, hwins⟩ := h _ ho
  obtain ⟨_, hs, htabs, hlay, -⟩ := combineSessions_eq_some ho.nonempty
  cases hcom.symm.trans hs
  have hval : ¬ ValidBoundaries combined := fun hval => absurd ((validBoundaries_iff ho htabs hlay).mp hval) (by decide)
  rw [intoUpdateWindows, if_neg (by rw [hlay]; decide), if_neg hval] at hwins
  cases hwins

end Pebrel.Workspace.Windows
