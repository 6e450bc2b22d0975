import Pebrel.Link.Host
import Pebrel.Stream.Payload

/-!
# The addresses and options of an SSH host

What a host is checked for before it is connected to (`ssh_profiles/connection.rs`):
its address, its proxy, and the host that it is reached through. A name that is
accepted as that of a host has no `@` in it (`validateHost_at`), which is what
tells a user and a host apart.

Which characters are letters or digits is a table of Unicode, of which only the
ASCII part is spelled out.
-/

namespace Pebrel.Ssh

open Library
open Library.Text (isControl isHexDigit)
open Pebrel.Stream (Bytes stripPrefix utf8 utf8Lossy utf8Encode parseDigits)

/-- `char::is_alphanumeric`. -/
class Alphanumeric where
  isAlphanumeric : Char → Bool
  ascii : ∀ c : Char, c.toNat < 128 → isAlphanumeric c = c.isAlphanum

/-- What is wrong with a host, its proxy or the hosts that it is reached through. -/
inductive RouteError where
  | serial
  | serialOptions
  | address
  | addressOption
  | username
  | ipv6
  | port
  | host
  | hostCharacter
  | proxyAddress
  | proxyPort
  | proxyUsername
  | jumpAddress
  | jumpSelf
  | proxyScheme
  | proxyHost
  | proxyUnrecognized
  | jumpEmpty
  | jumpChain
  | commandEmpty
  | commandPlaceholders
  | proxyMissing
  | cycle
  | secret
  | password
  | tooDeep
  /-- The host that is jumped to is not found. -/
  | unresolved (message : Text)
  /-- The keychain does not answer. -/
  | keychain (message : Text)
  deriving DecidableEq

/-! ### Texts -/

def parseBelow (limit : ℕ) (t : Text) : Option ℕ := (parseDigits t).bind fun n => if n < limit then some n else none

/-- `str::parse` of an unsigned number. -/
def parseUnsigned (limit : ℕ) : Text → Option ℕ
  | '+' :: t => parseBelow limit t
  | t => parseBelow limit t

/-- `str::parse::<u16>`. -/
def parseU16 : Text → Option ℕ := parseUnsigned (2 ^ 16)

/-- `str::parse::<u32>`. -/
def parseU32 : Text → Option ℕ := parseUnsigned (2 ^ 32)

def stripSuffix (rest t : Text) : Option Text := (stripPrefix rest.reverse t.reverse).map .reverse

/-- Four numbers below 256, without zeros before them. -/
def isIpv4 (t : Text) : Bool :=
  let parts := t.splitOn '.'
  parts.length = 4 && parts.all fun part => part.length ≤ 3 && (parseBelow 256 part).isSome && (part = ['0'] || part.head? ≠ some '0')

def isGroup (t : Text) : Bool := 1 ≤ t.length && t.length ≤ 4 && t.all isHexDigit

/-- The number of groups, the last of which may be an IPv4 address. -/
def groupCount (ipv4 : Bool) (t : Text) : Option ℕ :=
  if t = [] then some 0
  else
    let parts := t.splitOn ':'
    if parts.all isGroup then some parts.length
    else if ipv4 && parts.dropLast.all isGroup && parts.getLast?.any isIpv4 then some (parts.length + 1)
    else none

/-- `str::parse::<Ipv6Addr>` accepts the text: there are eight groups, or `::` stands for some of them. Other
characters are in none of them. -/
def isIpv6 (t : Text) : Bool :=
  (t.all fun c => isHexDigit c || c == ':' || c == '.') &&
    match Text.splitOnceText "::".toList t with
    | none => (groupCount true t) = some 8
    | some (head, tail) =>
      match groupCount false head, groupCount true tail with
      | some n, some m => n + m ≤ 7
      | _, _ => false

/-! ### Addresses -/

section
variable [Alphanumeric]

def validateHost (host : Text) : Except RouteError Unit :=
  if host = [] ∨ host.head? = some '-' ∨ 253 < (utf8Encode host).length then .error .host
  else if host.contains ':' then if isIpv6 host then .ok () else .error .ipv6
  else if host.any fun c => !Alphanumeric.isAlphanumeric c && !(['.', '-', '_'].contains c) then .error .hostCharacter
  else .ok ()

def validSshUsername (username : Text) : Bool :=
  username.head? ≠ some '-' && !(username.splitOn '@').any List.isEmpty &&
    !username.any fun c => Text.isWhitespace c || isControl c || ":/[],;&|<>\"'`\\?#".toList.contains c

/-- The host and the port of an address, where it is to have this form. -/
def hostAndPort (hostPort : Text) : Except RouteError (Text × Option Text) :=
  match stripPrefix ['['] hostPort with
  | some rest =>
    match Text.splitOnce ']' rest with
    | none => .error .ipv6
    | some (host, suffix) =>
      if !isIpv6 host then .error .ipv6
      else if suffix = [] then .ok (host, none)
      else
        match stripPrefix [':'] suffix with
        | none => .error .port
        | some port => .ok (host, some port)
  | none =>
    match Text.rsplitOnce ':' hostPort with
    | some (host, port) => if host.contains ':' then .ok (hostPort, none) else .ok (host, some port)
    | none => .ok (hostPort, none)

def validateSshDestination (value : Text) : Except RouteError Unit := do
  let value := Text.trim value
  if value = [] ∨ (value.any fun c => Text.isWhitespace c || isControl c || ",;&|<>\"'`\\?#".toList.contains c) = true then
    throw .address
  let address := (stripPrefix "ssh://".toList value).getD value
  if address.head? = some '-' then throw .addressOption
  let hostPort ← match Text.rsplitOnce '@' address with
    | some (username, host) => if validSshUsername username then pure host else throw .username
    | none => pure address
  let (host, port) ← hostAndPort hostPort
  validateHost host
  if port.any fun port => (parseU16 port).all fun port => port = 0 then throw .port

/-- A name of a host has no `@`. -/
theorem validateHost_at {host : Text} (h : validateHost host = .ok ()) : '@' ∉ host := by
  intro hm
  rw [validateHost] at h
  split at h
  · exact nomatch h
  split at h
  · split at h
    · rename_i hi6
      have ha := List.all_eq_true.mp (Bool.and_eq_true_iff.mp hi6).1 '@' hm
      exact absurd ha (by decide)
    · exact nomatch h
  · split at h
    · exact nomatch h
    · rename_i hany
      refine hany (List.any_eq_true.mpr ⟨'@', hm, ?_⟩)
      rw [Alphanumeric.ascii '@' (by decide)]
      decide

/-! ### The options of a host -/

inductive SshHostProxyMode where
  | inherit
  | direct
  | socks5
  | http
  deriving DecidableEq

inductive SshHostJumpMode where
  | inherit
  | none
  | host
  deriving DecidableEq

structure SshConnectionOptions where
  proxyMode : SshHostProxyMode
  proxyHost : Text
  proxyPort : Option ℕ
  proxyUsername : Text
  jumpMode : SshHostJumpMode
  jumpHost : Text
  deriving DecidableEq

namespace SshConnectionOptions

def default : SshConnectionOptions := ⟨.inherit, [], .none, [], .inherit, []⟩

def effectiveProxyPort (o : SshConnectionOptions) : ℕ := o.proxyPort.getD (if o.proxyMode = .http then 8080 else 1080)

def hasCustomProxy (o : SshConnectionOptions) : Bool := o.proxyMode = .socks5 || o.proxyMode = .http

def normalizedProxyHost (o : SshConnectionOptions) : Text :=
  let host := Text.trim o.proxyHost
  .toAsciiLowercase (((stripPrefix ['['] host).bind (stripSuffix [']'])).getD host)

end SshConnectionOptions

def normalizedDestination (destination : Text) : Text :=
  let destination := (stripPrefix "ssh://".toList (Text.trim destination)).getD (Text.trim destination)
  let (username, host) := (Text.rsplitOnce '@' destination).getD ([], destination)
  username ++ '@' :: Text.toAsciiLowercase ((stripSuffix ":22".toList host).getD host)

/-- `SerialConfig::from_str` accepts what follows the scheme: a port, a rate and the form of a frame. -/
def validSerialConfig (rest : Text) : Bool :=
  match rest.splitOn ',' with
  | [] => false
  | port :: options =>
    port ≠ [] && !(port.any fun c => Text.isWhitespace c || isControl c || ";&|<>\"'`@".toList.contains c) &&
      (options[0]?.all fun baud => (parseU32 baud).any fun n => 0 < n) &&
      (options[1]?.all fun frame =>
        match frame with
        | [data, parity, stop] =>
          ['5', '6', '7', '8'].contains data && ['N', 'E', 'O'].contains parity.toUpper && ['1', '2'].contains stop
        | _ => false) && options.length ≤ 2

def SshConnectionOptions.validate (o : SshConnectionOptions) (destination : Text) : Except RouteError Unit := do
  match stripPrefix "serial:".toList destination with
  | some rest =>
    if !validSerialConfig rest then throw .serial
    if o ≠ .default then throw .serialOptions
  | none =>
    validateSshDestination destination
    if o.hasCustomProxy then
      match validateHost o.normalizedProxyHost with
      | .error _ => throw .proxyAddress
      | .ok () => pure ()
      if o.effectiveProxyPort = 0 then throw .proxyPort
      let username := .trim o.proxyUsername
      if username.any isControl then throw .proxyUsername
      if o.proxyMode = .socks5 ∧ 255 < (utf8Encode username).length then throw .proxyUsername
      if o.proxyMode = .http ∧ username.contains ':' = true then throw .proxyUsername
    if o.jumpMode = .host then
      match validateSshDestination o.jumpHost with
      | .error _ => throw .jumpAddress
      | .ok () => pure ()
      if normalizedDestination o.jumpHost = normalizedDestination destination then throw .jumpSelf

/-- A proxy of its own that a host has passes the check of a host. -/
theorem SshConnectionOptions.validate_proxy {o : SshConnectionOptions} {destination : Text} (h : o.validate destination = .ok ())
    (hp : o.hasCustomProxy = true) : validateHost o.normalizedProxyHost = .ok () := by
  cases hhost : validateHost o.normalizedProxyHost with
  | ok => rfl
  | error e =>
    cases hs : stripPrefix "serial:".toList destination with
    | some rest =>
      have hne : o ≠ default := by
        rintro rfl
        exact nomatch hp
      rw [validate, hs] at h
      simp only [ne_eq, hne, not_false_eq_true, if_true] at h
      split at h
      · exact nomatch h
      · exact nomatch h
    | none =>
      rw [validate, hs] at h
      cases hdest : validateSshDestination destination with
      | error e' =>
        rw [hdest] at h
        exact nomatch h
      | ok =>
        rw [hdest, if_pos hp, hhost] at h
        exact nomatch h

end

end Pebrel.Ssh
