import Pebrel.Ssh.Address

/-!
# Proxies

The proxy that the settings name for all hosts (`ssh_proxy.rs`): a server, a command,
or another host that is jumped to. A server is known by its scheme, its user and its
address (`ProxyServer.identity`). They are told apart in that text, as the name of a
server that is read from a URL has no `@` in it (`identity_inj`, `parseUrl_at`).
-/

namespace Pebrel.Ssh

open Pebrel.Library List Option Text
open Pebrel.Stream (Bytes stripPrefix utf8 utf8Lossy utf8Encode parseDigits)

inductive ProxyScheme where
  | socks5
  | httpConnect
  deriving DecidableEq

structure ProxyServer where
  scheme : ProxyScheme
  host : Text
  port : ℕ
  username : Option Text
  password : Option Text
  deriving DecidableEq

inductive ProxyLink where
  | server (server : ProxyServer)
  | jump (target : Text)
  | command (command : Text)

inductive ProxyMode where
  | off
  | system
  | custom
  deriving DecidableEq

structure SshProxyConfig where
  mode : ProxyMode
  url : Text

/-! ### Reading URLs -/

def hexValue (b : UInt8) : Option UInt8 :=
  if 0x30 ≤ b && b ≤ 0x39 then some (b - 0x30)
  else if 0x61 ≤ b && b ≤ 0x66 then some (b - 0x61 + 10)
  else if 0x41 ≤ b && b ≤ 0x46 then some (b - 0x41 + 10)
  else none

/-- `u8::from_str_radix` of two characters, the first of which may be a sign. -/
def hexByte (x y : UInt8) : Option UInt8 :=
  if x = 0x2b then hexValue y else (hexValue x).bind fun a => (hexValue y).map fun b => a * 16 + b

def percentDecodeBytes : Bytes → Bytes
  | b :: x :: y :: rest =>
    if b = 0x25 then
      match hexByte x y with
      | some v => v :: percentDecodeBytes rest
      | none => b :: percentDecodeBytes (x :: y :: rest)
    else b :: percentDecodeBytes (x :: y :: rest)
  | rest => rest

def percentDecode (value : Text) : Text := utf8Lossy (percentDecodeBytes (utf8Encode value))

def splitHostPort (hostPort : Text) (defaultPort : ℕ) : Except RouteError (Text × ℕ) :=
  match stripPrefix ['['] hostPort with
  | some rest =>
    match splitOnce ']' rest with
    | none => .error .ipv6
    | some (host, suffix) =>
      match stripPrefix [':'] suffix with
      | some port => ((parseU16 port).map fun port => (host, port)).elim (.error .port) .ok
      | none => .ok (host, defaultPort)
  | none =>
    match rsplitOnce ':' hostPort with
    | some (host, port) =>
      if host.contains ':' then .ok (hostPort, defaultPort)
      else ((parseU16 port).map fun port => (host, port)).elim (.error .port) .ok
    | none => .ok (hostPort, defaultPort)

/-- The scheme of a URL, and the port that it means where none is given. -/
def parseScheme (scheme : Text) : Except RouteError (ProxyScheme × ℕ) :=
  let scheme := toAsciiLowercase scheme
  if ["socks5".toList, "socks5h".toList, "socks".toList].contains scheme then .ok (.socks5, 1080)
  else if scheme = "http".toList then .ok (.httpConnect, 8080)
  else .error .proxyScheme

/-- The user, the password, and the rest of what follows the scheme. -/
def splitUserinfo (rest : Text) : Option Text × Option Text × Text :=
  match rsplitOnce '@' rest with
  | none => (none, none, rest)
  | some (userinfo, hostPort) =>
    match splitOnce ':' userinfo with
    | some (user, pass) => (some (percentDecode user), some (percentDecode pass), hostPort)
    | none => (some (percentDecode userinfo), none, hostPort)

namespace ProxyServer

def parseUrl (url : Text) : Except RouteError ProxyServer := do
  let (scheme, rest) ← (splitOnceText "://".toList (trim url)).elim (.error .proxyScheme) .ok
  let (scheme, defaultPort) ← parseScheme scheme
  let (username, password, hostPort) := splitUserinfo (rest.rdropWhile (· = '/'))
  let (host, port) ← splitHostPort hostPort defaultPort
  if host = [] then throw .proxyHost else pure ⟨scheme, host, port, username, password⟩

def schemeText : ProxyScheme → Text
  | .socks5 => "socks5".toList
  | .httpConnect => "http".toList

def identity (server : ProxyServer) : Text :=
  match server.username with
  | some user => schemeText server.scheme ++ "://".toList ++ user ++ '@' :: server.host ++ ':' :: Nat.toDigits 10 server.port
  | none => schemeText server.scheme ++ "://".toList ++ server.host ++ ':' :: Nat.toDigits 10 server.port

end ProxyServer

open ProxyServer (parseUrl)

def stripPrefixIgnoreCase (value start : Text) : Option Text :=
  if start.length ≤ value.length && eqIgnoreAsciiCase (value.take start.length) start then some (value.drop start.length) else none

def jumpTarget (value : Text) : Option Text := (stripPrefixIgnoreCase (trim value) "jump:".toList).map trim

def hasInfix (t s : Text) : Bool := (splitOnceText t s).isSome

def ProxyLink.parse (value : Text) : Except RouteError ProxyLink :=
  let value := trim value
  match stripPrefixIgnoreCase value "jump:".toList with
  | some rest =>
    let target := trim rest
    if target = [] then .error .jumpEmpty
    else if target.contains ',' then .error .jumpChain
    else .ok (.jump target)
  | none =>
    match stripPrefixIgnoreCase value "command:".toList with
    | some rest =>
      let command := trim rest
      if command = [] then .error .commandEmpty
      else if !hasInfix "%h".toList command || !hasInfix "%p".toList command then .error .commandPlaceholders
      else .ok (.command command)
    | none =>
      if hasInfix "://".toList value then (parseUrl value).map .server
      else
        match parseUrl ("socks5://".toList ++ value) with
        | .ok proxy => .ok (.server proxy)
        | .error _ => .error .proxyUnrecognized

def bypassed (targetHost : Text) (noProxy : List Text) : Bool :=
  let host := toAsciiLowercase targetHost
  noProxy.any fun entry =>
    if entry = ['*'] then true
    else if entry = "<local>".toList then !host.contains '.' && !host.contains ':'
    else
      match (stripSuffix ['*'] entry).filter (· ≠ []) with
      | some start => start.isPrefixOf host
      | none =>
        let suffix := ((stripPrefix "*.".toList entry).or (stripPrefix ['.'] entry)).getD entry
        host = suffix || ('.' :: suffix).isSuffixOf host

/-- `SshProxyConfig::resolve`, where the system has this proxy, with what is not reached through it. -/
def SshProxyConfig.resolve (config : SshProxyConfig) (systemProxy : Option (Text × List Text)) (configProxyJump : Option Text)
    (targetHost : Text) : Except RouteError (Option ProxyLink) :=
  match (configProxyJump.map trim).filter (· ≠ []) with
  | some jump => if jump.contains ',' then .error .jumpChain else .ok (some (.jump jump))
  | none =>
    match config.mode with
    | .off => .ok none
    | .custom => if trim config.url = [] then .error .proxyMissing else (ProxyLink.parse config.url).map some
    | .system =>
      match systemProxy with
      | none => .ok none
      | some (url, noProxy) =>
        if bypassed targetHost noProxy then .ok none else (parseUrl url).map fun server => some (.server server)

/-! ### Names of servers -/

theorem splitHostPort_subset {hostP host : Text} {defaultPort port : ℕ} (h : splitHostPort hostP defaultPort = .ok (host, port)) :
    host ⊆ hostP := by
  have hs {t : Text} {x : Text} {y : ℕ} (h : ((parseU16 t).map fun port => (x, port)).elim (.error .port) .ok =
      (.ok (host, y) : Except RouteError (Text × ℕ))) : x = host := by
    cases hps : parseU16 t with
    | none => cases hps ▸ h
    | some n =>
      rw [hps] at h
      exact (Prod.mk.inj (Except.ok.inj h)).1
  rw [splitHostPort] at h
  split at h
  · rename_i rest hr
    have hsub : rest ⊆ hostP := by
      rw [stripPrefix] at hr
      split at hr
      · rw [← some.inj hr]
        exact (drop_sublist _ _).subset
      · cases hr
    split at h
    · cases h
    rename_i host' suffix hsp
    have hhost : host' ⊆ rest := by
      rw [(splitOnce_eq_some.mp hsp).1]
      exact subset_append_left _ _
    split at h
    · obtain rfl := hs h
      exact List.Subset.trans hhost hsub
    · obtain rfl := (Prod.mk.inj (Except.ok.inj h)).1
      exact List.Subset.trans hhost hsub
  · split at h
    · rename_i host' port' hsp
      split at h
      · obtain rfl := (Prod.mk.inj (Except.ok.inj h)).1
        exact .refl _
      · obtain rfl := hs h
        rw [(rsplitOnce_eq_some.mp hsp).1]
        exact subset_append_left _ _
    · obtain rfl := (Prod.mk.inj (Except.ok.inj h)).1
      exact .refl _

theorem splitUserinfo_at (rest : Text) : '@' ∉ (splitUserinfo rest).2.2 := by
  rw [splitUserinfo]
  split
  · exact rsplitOnce_eq_none.mp ‹_›
  · rename_i hsp
    have hat := (rsplitOnce_eq_some.mp hsp).2
    split <;> exact hat

/-- The name of a server that is read from a URL has no `@`. -/
theorem parseUrl_at {url : Text} {server : ProxyServer} (h : parseUrl url = .ok server) : '@' ∉ server.host := by
  rw [parseUrl] at h
  cases hu : splitOnceText "://".toList (trim url) with
  | none =>
    rw [hu] at h
    exact nomatch h
  | some e =>
    rw [hu] at h
    cases hs : parseScheme e.1 with
    | error _ =>
      simp only [bind, Except.bind, elim_some, hs] at h
      exact nomatch h
    | ok scheme =>
      simp only [bind, Except.bind, elim_some, hs] at h
      split at h
      · exact nomatch h
      rename_i hostP hsp
      split at h
      · exact nomatch h
      · obtain rfl := Except.ok.inj h
        exact fun hm => splitUserinfo_at _ (splitHostPort_subset hsp hm)

theorem parse_server_at {value : Text} {server : ProxyServer} (h : ProxyLink.parse value = .ok (.server server)) : '@' ∉ server.host := by
  rw [ProxyLink.parse] at h
  split at h
  · dsimp only at h
    split at h
    · exact nomatch h
    · split at h
      · exact nomatch h
      · exact nomatch h
  · split at h
    · dsimp only at h
      split at h
      · exact nomatch h
      · split at h
        · exact nomatch h
        · exact nomatch h
    · split at h
      · cases hu : parseUrl (trim value) with
        | error _ =>
          rw [hu] at h
          exact nomatch h
        | ok proxy =>
          rw [hu] at h
          obtain rfl := ProxyLink.server.inj (Except.ok.inj h)
          exact parseUrl_at hu
      · split at h
        · rename_i hu
          obtain rfl := ProxyLink.server.inj (Except.ok.inj h)
          exact parseUrl_at hu
        · exact nomatch h

/-- The name of the server that the settings give has no `@`. -/
theorem resolve_server_at {config : SshProxyConfig} {systemProxy : Option (Text × List Text)} {targetHost : Text} {server : ProxyServer}
    (h : config.resolve systemProxy none targetHost = .ok (some (.server server))) : '@' ∉ server.host := by
  simp only [SshProxyConfig.resolve, map_none, filter_none] at h
  split at h
  · exact nomatch h
  · split at h
    · exact nomatch h
    · cases hps : ProxyLink.parse config.url with
      | error _ =>
        rw [hps] at h
        exact nomatch h
      | ok link =>
        rw [hps] at h
        obtain rfl := some.inj (Except.ok.inj h)
        exact parse_server_at hps
  · split at h
    · exact nomatch h
    · split at h
      · exact nomatch h
      · rename_i url noProxy _
        cases hu : parseUrl url with
        | error _ =>
          rw [hu] at h
          exact nomatch h
        | ok proxy =>
          rw [hu] at h
          obtain rfl := ProxyLink.server.inj (some.inj (Except.ok.inj h))
          exact parseUrl_at hu

/-! ### Identities -/

theorem schemeText_append_inj {scheme scheme' : ProxyScheme} {t t' : Text}
    (h : ProxyServer.schemeText scheme ++ "://".toList ++ t = ProxyServer.schemeText scheme' ++ "://".toList ++ t') :
    scheme = scheme' ∧ t = t' := by
  cases scheme with
  | socks5 =>
    cases scheme' with
    | socks5 => exact ⟨rfl, append_cancel_left h⟩
    | httpConnect =>
      have hhd : some 's' = some 'h' := congrArg head? h
      exact absurd hhd (by decide)
  | httpConnect =>
    cases scheme' with
    | socks5 =>
      have hhd : some 'h' = some 's' := congrArg head? h
      exact absurd hhd (by decide)
    | httpConnect => exact ⟨rfl, append_cancel_left h⟩

theorem at_not_mem_schemeText (scheme : ProxyScheme) : '@' ∉ ProxyServer.schemeText scheme ++ "://".toList := by
  cases scheme <;> decide

/-- Servers of one identity have the same scheme, address and user. -/
theorem identity_inj {s s' : ProxyServer} (h : s.identity = s'.identity) (hs : '@' ∉ s.host) (hs' : '@' ∉ s'.host) :
    s.scheme = s'.scheme ∧ s.host = s'.host ∧ s.port = s'.port ∧ s.username = s'.username := by
  have hn (r : ProxyServer) (hr : '@' ∉ r.host) : '@' ∉ ProxyServer.schemeText r.scheme ++ "://".toList ++ r.host := fun hm =>
    (mem_append.mp hm).elim (at_not_mem_schemeText r.scheme) hr
  have hsome (t u : Text) : '@' ∈ t ++ '@' :: u := mem_append_right _ mem_cons_self
  rw [ProxyServer.identity, ProxyServer.identity] at h
  cases hu : s.username with
  | none =>
    cases hu' : s'.username with
    | none =>
      simp only [hu, hu'] at h
      obtain ⟨haddr, hport⟩ := append_cons_inj h (not_mem_toDigits rfl _) (not_mem_toDigits rfl _)
      obtain ⟨hsch, hhost⟩ := schemeText_append_inj haddr
      exact ⟨hsch, hhost, toDigits_inj hport, rfl⟩
    | some user' =>
      simp only [hu, hu'] at h
      obtain ⟨haddr, -⟩ := append_cons_inj h (not_mem_toDigits rfl _) (not_mem_toDigits rfl _)
      exact absurd (haddr ▸ hsome _ _) (hn s hs)
  | some user =>
    cases hu' : s'.username with
    | none =>
      simp only [hu, hu'] at h
      obtain ⟨haddr, -⟩ := append_cons_inj h (not_mem_toDigits rfl _) (not_mem_toDigits rfl _)
      exact absurd (haddr ▸ hsome _ _) (hn s' hs')
    | some user' =>
      simp only [hu, hu'] at h
      obtain ⟨haddr, hport⟩ := append_cons_inj h (not_mem_toDigits rfl _) (not_mem_toDigits rfl _)
      obtain ⟨huser, hhost⟩ := append_cons_inj haddr hs hs'
      obtain ⟨hsch, huser⟩ := schemeText_append_inj huser
      exact ⟨hsch, hhost, toDigits_inj hport, congrArg some huser⟩

end Pebrel.Ssh
