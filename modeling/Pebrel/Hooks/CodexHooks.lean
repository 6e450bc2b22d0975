import Pebrel.Hooks.Installation
import Pebrel.Hooks.ShellCommand
import Pebrel.Library.Crash
import Pebrel.Library.Transition

/-!
# The hooks of Codex

The groups go into the hook file, a marker records them, and a feature flag of the
configuration makes Codex run them (`ai_hook/local/codex_hooks.rs`). The three files are
written one after another, and the program may be cut off before each write.

## The model

The lock files are free, and the version that Codex reports is the mode of the call. `begun` is
a ghost: the groups that the hook file holds in place of those of the marker.
-/

namespace Pebrel.Hooks.Codex

open Library

inductive MarkerFile (γ : Type) where
  | malformed
  | marker (groups : Option (Groups γ)) (enabledFeature : Option Bool)
  deriving DecidableEq

structure Files (γ ρ : Type) where
  hooks : Option (Document γ)
  marker : Option (MarkerFile γ)
  config : Option (Config ρ)
  begun : Option (Groups γ)

inductive Error where
  | feature (e : FeatureError)
  | merge (e : MergeError)
  | malformedMarker
  | invalidMarker
  | malformedConfig
  deriving DecidableEq

variable {γ ρ : Type} [DecidableEq γ] [DecidableEq ρ]

/-- What the marker records; nothing where there is none. -/
def readMarker : Option (MarkerFile γ) → Except Error (Groups γ × Bool)
  | none => .ok ([], false)
  | some .malformed => .error .malformedMarker
  | some (.marker groups enabledFeature) => .ok (groups.getD [], enabledFeature.getD false)

/-- `groups`: the command is for the shell that runs it. -/
def groups (value : HookGroup → γ) (windows : Bool) (helper : Text) (mode : CodexHookMode) : Groups γ :=
  let command := if windows then powershellCall helper ++ " codex ".toList ++ mode.argument else quote helper ++
    " codex ".toList ++ mode.argument
  codexGroups value command (if windows then some command else none) mode

/-! ### Writes -/

def writeHooks (hooks : Document γ) (held : Groups γ) : Cut (Files γ ρ) Bool :=
  .look >>= fun s =>
    if s.hooks = some hooks then pure false
    else .write (fun s => { s with hooks := some hooks, begun := some held }) >>= fun _ => pure true

def writeMarker (groups : Groups γ) (enabledFeature : Bool) : Cut (Files γ ρ) Bool :=
  .look >>= fun s =>
    if s.marker = some (.marker (some groups) (some enabledFeature)) then pure false
    else
      .write (fun s => { s with marker := some (.marker (some groups) (some enabledFeature)), begun := none }) >>= fun _ => pure true

def writeConfig (config : Config ρ) : Cut (Files γ ρ) Bool :=
  .look >>= fun s =>
    if s.config = some config then pure false else .write (fun s => { s with config := some config }) >>= fun _ => pure true

/-! ### Operations -/

/-- `install`: whether a file changed. -/
def install (value : HookGroup → γ) (windows : Bool) (helper : Text) (mode : CodexHookMode) : Cut (Files γ ρ) (Except Error Bool) :=
  .look >>= fun s =>
    match s.config with
    | none => pure (.ok false)
    | some raw =>
      match enableCodexFeature raw with
      | .error e => pure (.error (.feature e))
      | .ok none => pure (.ok false)
      | .ok (some (config, introduced)) =>
        match readMarker s.marker with
        | .error e => pure (.error e)
        | .ok (previous, enabled) =>
          match mergeGroups s.hooks previous (groups value windows helper mode) with
          | .error e => pure (.error (.merge e))
          | .ok hooks => do
            let hooksChanged ← writeHooks hooks (groups value windows helper mode)
            let markerChanged ← writeMarker (groups value windows helper mode) (enabled || introduced)
            let configChanged ← writeConfig config
            pure (.ok (hooksChanged || markerChanged || configChanged))

/-- No hook is left in the file. -/
def noHooks : Document γ → Bool
  | .object (some (.events events)) _ => events.entries.isEmpty
  | _ => false

/-- The flag that was introduced is removed, unless hooks are left, in the file or in the configuration. -/
def removeFeature (enabledFeature : Option Bool) (hooks : Document γ) : Cut (Files γ ρ) (Except Error Unit) :=
  if enabledFeature = some true ∧ noHooks hooks = true then
    .look >>= fun s =>
      match s.config with
      | none => pure (.ok ())
      | some .malformed => pure (.error .malformedConfig)
      | some (.toml features inlineHooks rest) =>
        if inlineHooks = false ∧ features.hooks = .bool true then
          writeConfig (.toml (.table .missing features.codexHooks) inlineHooks rest) >>= fun _ => pure (.ok ())
        else pure (.ok ())
  else pure (.ok ())

def removeMarker : Cut (Files γ ρ) Unit := .write fun s => { s with marker := none, begun := none }

def remove : Cut (Files γ ρ) (Except Error Bool) :=
  .look >>= fun s =>
    match s.marker with
    | none => pure (.ok false)
    | some .malformed => pure (.error .malformedMarker)
    | some (.marker none _) => pure (.error .invalidMarker)
    | some (.marker (some previous) enabledFeature) =>
      match mergeGroups s.hooks previous [] with
      | .error e => pure (.error (.merge e))
      | .ok hooks =>
        writeHooks hooks [] >>= fun _ =>
          removeFeature enabledFeature hooks >>= fun result =>
            match result with
            | .error e => pure (.error e)
            | .ok _ => removeMarker >>= fun _ => pure (.ok true)

/-! ### Runs -/

inductive Action where
  | install (helper : Text) (mode : CodexHookMode) (cut : Option ℕ)
  | remove (cut : Option ℕ)

def step (value : HookGroup → γ) (windows : Bool) (s : Files γ ρ) : Action → Option (Files γ ρ)
  | .install helper mode cut => some ((install value windows helper mode).run cut s).1
  | .remove cut => some (remove.run cut s).1

end Pebrel.Hooks.Codex
