import Pebrel.Library.Text

/-!
# Commands for a shell

A hook runs the helper by a command of the shell, with the path of the helper quoted
(`ai_hook.rs`, `ai_hook/remote.rs`).
-/

namespace Pebrel.Hooks

open Library

/-- `quote`: a word of a POSIX shell. -/
def quote (value : Text) : Text := "'".toList ++ value.flatMap (fun c => if c = '\x27' then "'\\''".toList else [c]) ++ "'".toList

/-- The helper in single quotes, called by PowerShell. -/
def powershellCall (helper : Text) : Text :=
  "& '".toList ++ helper.flatMap (fun c => if c = '\x27' then "''".toList else [c]) ++ "'".toList

end Pebrel.Hooks
