import Pebrel.Library.Fallible
import Pebrel.Sync.Payload

/-!
# Requests of a paired phone

A phone may send a few requests to the runtime of the desktop (`relay/protocol.mjs`). A request
is checked before it is passed on: its shape, its identifier, its method, and the target of that.

## The model

A request is the JSON value that the connection delivers. The size of its text is a parameter.
-/

namespace Pebrel.Link

open Library Sync

namespace Policy

def read : List Text :=
  ["runtime.describe", "runtime.snapshot", "events.subscribe", "pane.read", "pane.screen.subscribe",
    "pane.screen.ack", "pane.screen.unsubscribe",
    "git.status", "git.diff", "git.history", "tab.read", "conversation.read"].map String.toList

def input : List Text :=
  ["pane.prompt", "pane.send_key", "pane.scroll", "git.stage", "git.unstage", "git.commit", "git.fetch", "git.pull",
    "git.push", "tab.new", "tab.open",
    "tab.close", "tab.focus", "conversation.send", "conversation.choose", "conversation.key"].map String.toList

def maxRequestBytes : ℕ := 40960
def maxFrameBytes : ℕ := 2097152
def maxPending : ℕ := 16

end Policy

/-- The codes of the failures. -/
inductive FailureCode where
  | invalidRequest
  | invalidId
  | invalidParams
  | methodNotFound
  | inputNotAuthorized
  | invalidTarget
  | requestTooLarge
  | duplicateRequest
  | tooManyRequests
  | alreadySubscribed
  | inputLimitReconnect
  deriving DecidableEq

/-- A request that was checked. -/
structure RuntimeRequest where
  id : Text
  method : Text
  params : List (Text × Json)

/-- A positive integer that a number of JavaScript has exactly. -/
def isTarget : Option Json → Bool
  | some (.int n) => decide (0 < n ∧ n < 2 ^ 53)
  | _ => false

/-- An identifier of 32 hexadecimal digits. -/
def isTabId : Option Json → Bool
  | some (.string id) => decide (id.length = 32) && id.all Text.isHexDigit
  | _ => false

def checkId : Option Json → Except FailureCode Text
  | some (.string id) => if id = [] ∨ 80 < Text.byteLen id ∨ id.any Text.isControl = true then .error .invalidId else .ok id
  | _ => .error .invalidId

def checkParams : Option Json → Except FailureCode (List (Text × Json))
  | none | some .null => .ok []
  | some (.object params) => .ok params
  | _ => .error .invalidParams

def checkMethod (allowInput : Bool) : Option Json → Except FailureCode Text
  | some (.string method) =>
    if method ∈ Policy.read then .ok method
    else if method ∈ Policy.input then (if allowInput then .ok method else .error .inputNotAuthorized)
    else .error .methodNotFound
  | _ => .error .methodNotFound

/-- The window, the pane or the tab that a method is about is named. -/
def checkTarget (method : Text) (params : Json) : Except FailureCode Unit :=
  if ("pane.".toList <+: method ∨ "git.".toList <+: method) ∧
    (isTarget (params.get? "window_id".toList) && isTarget (params.get? "pane_id".toList)) = false then
    .error .invalidTarget
  else if "tab.".toList <+: method ∧ ¬(method = "tab.new".toList ∧ (params.get? "window_id".toList).isNone) ∧
    isTarget (params.get? "window_id".toList) = false then
    .error .invalidTarget
  else if "tab.".toList <+: method ∧ method ≠ "tab.new".toList ∧ method ≠ "tab.open".toList ∧
    isTabId (params.get? "tab_id".toList) = false then
    .error .invalidTarget
  else .ok ()

def validateRequest (size : Json → ℕ) (allowInput : Bool) (request : Json) : Except FailureCode RuntimeRequest :=
  match request with
  | .object members =>
    if members.all (fun m => ["id", "method", "params"].contains (.ofList m.1)) = false then .error .invalidRequest
    else do
      let id ← checkId (request.get? "id".toList)
      let params ← checkParams (request.get? "params".toList)
      let method ← checkMethod allowInput (request.get? "method".toList)
      checkTarget method (.object params)
      if Policy.maxRequestBytes < size request then .error .requestTooLarge else pure ⟨id, method, params⟩
  | _ => .error .invalidRequest

variable {size : Json → ℕ} {allowInput : Bool} {raw : Json} {request : RuntimeRequest}

end Pebrel.Link
