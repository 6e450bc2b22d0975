import Pebrel.Library.Assoc
import Pebrel.Library.Text

/-!
# Hook groups

An agent runs the commands of its hook groups, which a configuration file lists under each
event (`ai_hook/installation.rs`). The groups that the program installed are known from its
own record; they are taken out of the file and the desired ones put in, and all others stay.

## The model

A value of the configuration that the program does not look into is one of the type `γ`, with
the comparison of the values. Texts are taken up to their formatting.
-/

namespace Pebrel.Hooks

open Library

inductive CodexHookMode where
  | turns
  | full

def codexTurnEvents : List Text := ["SessionStart", "UserPromptSubmit", "Stop"].map String.toList

def codexFullEvents : List Text :=
  ["SessionStart", "UserPromptSubmit", "PermissionRequest", "PreToolUse", "PostToolUse", "Stop", "Interrupt", "SessionEnd"].map
    String.toList

namespace CodexHookMode

def argument : CodexHookMode → Text
  | turns => "--hooks=turns".toList
  | full => "--hooks=full".toList

def events : CodexHookMode → List Text
  | turns => codexTurnEvents
  | full => codexFullEvents

theorem nodup_events (mode : CodexHookMode) : mode.events.Nodup := by cases mode <;> decide

theorem events_subset (mode : CodexHookMode) : mode.events ⊆ codexFullEvents := by cases mode <;> decide

end CodexHookMode

/-- The group that is installed for an event. -/
structure HookGroup where
  command : Text
  commandWindows : Option Text
  timeout : ℕ
  matcher : Option Text
  deriving DecidableEq

/-- Groups of each event. -/
abbrev Groups (γ : Type) := List (Text × List γ)

/-- What is listed under an event. -/
inductive Entry (γ : Type) where
  | groups (list : List γ)
  | other (value : γ)
  deriving DecidableEq

inductive HooksValue (γ : Type) where
  | events (events : Assoc.Map Text (Entry γ))
  | other (value : γ)
  deriving DecidableEq

/-- A configuration file. -/
inductive Document (γ : Type) where
  | malformed
  | notObject
  | object (hooks : Option (HooksValue γ)) (others : List (Text × γ))
  deriving DecidableEq

inductive MergeError where
  | malformed
  | configNotObject
  | hooksNotObject
  | groupsNotArray
  /-- The hook of the event is edited, and preserved. -/
  | edited (event : Text)
  deriving DecidableEq

section
variable {γ : Type} (value : HookGroup → γ)

def codexGroups (command : Text) (windowsCommand : Option Text) (mode : CodexHookMode) : Groups γ :=
  mode.events.map fun event =>
    (event, [value ⟨command, windowsCommand, 3, if event = "PreToolUse".toList then some "^request_user_input$".toList else none⟩])

end

variable {γ : Type} [DecidableEq γ]

/-- The values under the events, and those beside them. -/
def readHooks : Option (Document γ) → Except MergeError (Assoc.Map Text (Entry γ) × List (Text × γ))
  | none => .ok (.empty, [])
  | some .malformed => .error .malformed
  | some .notObject => .error .configNotObject
  | some (.object none others) => .ok (.empty, others)
  | some (.object (some (.other _)) _) => .error .hooksNotObject
  | some (.object (some (.events events)) others) => .ok (events, others)

/-- Each group of these is there once. -/
def unchanged (previous desired : Groups γ) (events : Assoc.Map Text (Entry γ)) : Bool :=
  decide (previous = desired) && previous.all fun e =>
    match events.get? e.1 with
    | some (.groups list) => e.2.all fun group => list.count group = 1
    | _ => false

/-- A group of ours is taken out; where it is missing from a list that is not empty, it was edited. -/
def dropGroup (event : Text) (list : List γ) (group : γ) : Except MergeError (List γ) :=
  if group ∈ list then .ok (list.filter fun item => item ≠ group)
  else if list = [] then .ok list
  else .error (.edited event)

def dropOwned (events : Assoc.Map Text (Entry γ)) (owned : Text × List γ) : Except MergeError (Assoc.Map Text (Entry γ)) :=
  match events.get? owned.1 with
  | none => .ok events
  | some (.other _) => .error .groupsNotArray
  | some (.groups list) => do
    let list ← owned.2.foldlM (dropGroup owned.1) list
    pure (events.insert owned.1 (.groups list))

def Entry.isEmpty : Entry γ → Bool
  | .groups list => list.isEmpty
  | .other _ => false

def addDesired (events : Assoc.Map Text (Entry γ)) (desired : Text × List γ) : Except MergeError (Assoc.Map Text (Entry γ)) :=
  match (events.get? desired.1).getD (.groups []) with
  | .other _ => .error .groupsNotArray
  | .groups list =>
    .ok (events.insert desired.1 (.groups (desired.2.foldl (fun list group => if group ∈ list then list else list ++ [group]) list)))

def mergeEvents (previous desired : Groups γ) (events : Assoc.Map Text (Entry γ)) : Except MergeError (Assoc.Map Text (Entry γ)) := do
  let events ← previous.foldlM dropOwned events
  desired.foldlM addDesired (events.retain fun entry => !entry.isEmpty)

/-- `merge_groups`: the file itself, if nothing of ours is to be changed in it. -/
def mergeGroups (raw : Option (Document γ)) (previous desired : Groups γ) : Except MergeError (Document γ) :=
  match readHooks raw with
  | .error e => .error e
  | .ok (events, others) =>
    match raw.filter fun _ => unchanged previous desired events with
    | some document => .ok document
    | none => (mergeEvents previous desired events).map fun events => .object (some (.events events)) others

/-! ### The feature flag -/

/-- An item of a TOML table. -/
inductive Flag where
  | missing
  | bool (value : Bool)
  | other
  deriving DecidableEq

/-- The item `features`. -/
inductive Features where
  | missing
  | table (hooks codexHooks : Flag)
  | other
  deriving DecidableEq

/-- The configuration of Codex: whether it has an item `hooks` besides, and the rest of it. -/
inductive Config (ρ : Type) where
  | malformed
  | toml (features : Features) (inlineHooks : Bool) (rest : ρ)
  deriving DecidableEq

namespace Features

def hooks : Features → Flag
  | table hooks _ => hooks
  | _ => .missing

def codexHooks : Features → Flag
  | table _ codexHooks => codexHooks
  | _ => .missing

end Features

inductive FeatureError where
  | malformed
  | notBoolean
  | notTable
  deriving DecidableEq

/-- `enable_codex_feature`: nothing where the user has opted out; whether the key was introduced. -/
def enableCodexFeature {ρ : Type} : Config ρ → Except FeatureError (Option (Config ρ × Bool))
  | .malformed => .error .malformed
  | .toml features inlineHooks rest =>
    if features.hooks = .bool false ∨ features.codexHooks = .bool false then .ok none
    else
      match features.hooks, features with
      | .bool _, _ => .ok (some (.toml features inlineHooks rest, false))
      | .other, _ => .error .notBoolean
      | .missing, .other => .error .notTable
      | .missing, _ => .ok (some (.toml (.table (.bool true) features.codexHooks) inlineHooks rest, true))

end Pebrel.Hooks
