import Pebrel.Library.Fallible
import Pebrel.Link.SecureChannel
import Pebrel.Ssh.Proxy
import Pebrel.Stream.Utf8
import Mathlib.Data.List.Nodup

/-!
# The route to an SSH host

A host is reached directly, through a proxy, or by way of another host, which has a
route of its own (`ssh_session/route.rs`). The hosts that are jumped to are named by
the user, so they may lead back to each other: a route is built to a depth of two
jumps, and no host is visited twice.

A connection that is open is used again where the route has the same key. The key is
the digest of what identifies each host and the way out of the last one. A user and a
host are joined by `@` in it, so the name of a host with an `@` of its own can be taken
for that of another user at another host.
-/

namespace Pebrel.Ssh

open Pebrel.Library Nat Option Text UInt8
open Except (ok)
open List (append_assoc append_cancel_left cons forall₂_cons mem_cons mem_cons_of_mem mem_cons_self mem_singleton)
open Pebrel.Stream (Bytes stripPrefix utf8 utf8Encode utf8Encode_inj)

inductive SshAuthMode where
  | auto
  | password
  | publicKey
  | keyboardInteractive
  deriving DecidableEq

structure SshDestination where
  original : Text
  user : Text
  host : Text
  port : ℕ
  identityFiles : List Text
  proxyJump : Option Text
  deriving DecidableEq

structure SshProfileAuth where
  auth : SshAuthMode
  privateKeys : List Text
  connection : SshConnectionOptions
  deriving DecidableEq

/-- `RouteTransport`; the route of a host that is jumped to stands in place. -/
inductive RouteTransport where
  | direct
  | server (server : ProxyServer)
  | command (command : Text)
  | jump (destination : SshDestination) (profile : SshProfileAuth) (transport : RouteTransport)
  deriving DecidableEq

structure ResolvedRoute where
  destination : SshDestination
  profile : SshProfileAuth
  transport : RouteTransport
  deriving DecidableEq

inductive NetworkOverride where
  | direct
  | server (server : ProxyServer)

/-- What a key holds of a host. -/
structure Metadata where
  original : Text
  poolKey : Text
  auth : SshAuthMode
  privateKeys : List Text
  identityFiles : List Text
  deriving DecidableEq

/-- SHA-256, and `serde_json::to_vec`. -/
class Digest where
  sha256 : Bytes → Bytes
  toVec : Metadata → Bytes

/-- What is asked of what is around: the proxy of the system, the table of hosts, and the keychain. -/
structure Environment where
  systemProxy : Option (Text × List Text)
  resolveHost : Text → Except Text (SshDestination × SshProfileAuth)
  loadSecret : Text → Except Text (Option Bytes)

/-! ### The key of a route -/

/-- `u64::to_be_bytes`. -/
def u64Bytes (n : ℕ) : Bytes :=
  [ofNat (n / 2 ^ 56), ofNat (n / 2 ^ 48), ofNat (n / 2 ^ 40), ofNat (n / 2 ^ 32), ofNat (n / 2 ^ 24),
    ofNat (n / 2 ^ 16), ofNat (n / 2 ^ 8), ofNat n]

/-- `{byte:02x}` of each byte. -/
def hexText (bytes : Bytes) : Text := bytes.flatMap fun b => [Nat.digitChar (b.toNat / 16), Nat.digitChar (b.toNat % 16)]

/-- The user and the host, as the key has them. -/
def SshDestination.userHost (d : SshDestination) : Text := d.user ++ '@' :: toAsciiLowercase d.host

def SshDestination.poolKey (d : SshDestination) : Text := d.userHost ++ ':' :: Nat.toDigits 10 d.port

def metadata (destination : SshDestination) (profile : SshProfileAuth) : Metadata :=
  ⟨destination.original, destination.poolKey, profile.auth, profile.privateKeys, destination.identityFiles⟩

section
variable [Digest]

def withLength (bytes : Bytes) : Bytes := u64Bytes bytes.length ++ bytes

/-- What the loop of `ResolvedRoute::pool_key` takes the digest of. -/
def digestInput (destination : SshDestination) (profile : SshProfileAuth) : RouteTransport → Bytes
  | .jump next nextProfile transport =>
    withLength (Digest.toVec (metadata destination profile)) ++ (utf8Encode "jump".toList ++ digestInput next nextProfile transport)
  | .direct => withLength (Digest.toVec (metadata destination profile)) ++ utf8Encode "direct".toList
  | .server server =>
    withLength (Digest.toVec (metadata destination profile)) ++ (utf8Encode "proxy".toList ++ utf8Encode server.identity)
  | .command command =>
    withLength (Digest.toVec (metadata destination profile)) ++ (utf8Encode "command".toList ++ utf8Encode command)

def ResolvedRoute.digestInput (r : ResolvedRoute) : Bytes := Ssh.digestInput r.destination r.profile r.transport

def ResolvedRoute.poolKey (r : ResolvedRoute) : Text :=
  r.destination.poolKey ++ '|' :: "route:".toList ++ hexText (Digest.sha256 r.digestInput)

/-! ### Building a route -/

def SshConnectionOptions.proxyCredentialTarget (o : SshConnectionOptions) (destination : Text) : Option Text :=
  if !o.hasCustomProxy || trim o.proxyUsername = [] then none
  else
    let mode := if o.proxyMode = .socks5 then "socks5".toList else "http".toList
    let fields := [trim destination, mode, o.normalizedProxyHost, Nat.toDigits 10 o.effectiveProxyPort, trim o.proxyUsername]
    some ("Pebrel/SSH/Proxy/".toList ++ hexText (Digest.sha256 (fields.flatMap fun field => withLength (utf8Encode field))))

/-- The password of a proxy: the one that is given, or the one that is stored. -/
def proxyPasswordOf (env : Environment) (proxyPassword : Option Text) (original : Text) (o : SshConnectionOptions) :
    Except RouteError (Option Text) :=
  if trim o.proxyUsername = [] then .ok none
  else
    match proxyPassword with
    | some password => .ok (some password)
    | none =>
      match o.proxyCredentialTarget original with
      | none => .ok none
      | some target =>
        match env.loadSecret target with
        | .error message => .error (.keychain message)
        | .ok none => .ok none
        | .ok (some secret) =>
          match utf8 secret with
          | some password => .ok (some password)
          | none => .error .secret

/-- The server that a host names as its proxy. -/
def ownServer (env : Environment) (proxyPassword : Option Text) (original : Text) (o : SshConnectionOptions) :
    Except RouteError ProxyServer :=
  match proxyPasswordOf env proxyPassword original o with
  | .error e => .error e
  | .ok password =>
    if o.proxyMode = .socks5 ∧ (password.any fun password => 255 < (utf8Encode password).length) = true then .error .password
    else
      let username := trim o.proxyUsername
      .ok ⟨if o.proxyMode = .socks5 then .socks5 else .httpConnect, o.normalizedProxyHost, o.effectiveProxyPort,
        if username = [] then none else some username, password⟩

/-- The proxy that a host has of its own. -/
def ownNetwork (env : Environment) (proxyPassword : Option Text) (original : Text) (o : SshConnectionOptions) :
    Except RouteError (Option NetworkOverride) :=
  match o.proxyMode with
  | .inherit => .ok none
  | .direct => .ok (some .direct)
  | .socks5 | .http => (ownServer env proxyPassword original o).map fun server => some (.server server)

/-- The host that the configuration of SSH jumps to. -/
def configJump (destination : SshDestination) : Option Text :=
  (destination.proxyJump.map trim).filter fun jump => jump ≠ [] && !eqIgnoreAsciiCase jump "none".toList

/-- The host that is jumped to, but for the one that is set for all hosts. -/
def hostJump (destination : SshDestination) (o : SshConnectionOptions) : Option Text :=
  match o.jumpMode with
  | .host => some (trim o.jumpHost)
  | .none => none
  | .inherit => configJump destination

def globalJump (global : SshProxyConfig) (depth : ℕ) : Option Text :=
  if depth = 0 ∧ global.mode = .custom then jumpTarget global.url else none

/-- The host that is jumped to. -/
def jumpOf (global : SshProxyConfig) (depth : ℕ) (destination : SshDestination) (o : SshConnectionOptions) : Option Text :=
  match o.jumpMode with
  | .host => some (trim o.jumpHost)
  | .none => none
  | .inherit => (configJump destination).or (globalJump global depth)

/-- The way out of the last host. -/
def exitOf (env : Environment) (global : SshProxyConfig) (network : Option NetworkOverride) (host : Text) :
    Except RouteError RouteTransport :=
  match network with
  | some .direct => .ok .direct
  | some (.server server) => .ok (.server server)
  | none =>
    match global.resolve env.systemProxy none host with
    | .error e => .error e
    | .ok (some (.server server)) => .ok (.server server)
    | .ok (some (.command command)) => .ok (.command command)
    | .ok (some (.jump _)) => .ok .direct
    | .ok none => .ok .direct

def endpoint (destination : SshDestination) : Text × ℕ := (toAsciiLowercase destination.host, destination.port)

variable [Alphanumeric]

/-- The proxy that was inherited, or the one that the host has of its own. -/
def networkOf (env : Environment) (proxyPassword : Option Text) (inheritedProxy : Option NetworkOverride) (original : Text)
    (o : SshConnectionOptions) : Except RouteError (Option NetworkOverride) :=
  match inheritedProxy with
  | some network => .ok (some network)
  | none => ownNetwork env proxyPassword original o

def buildRoute (env : Environment) (global : SshProxyConfig) (destination : SshDestination) (profile : SshProfileAuth) (depth : ℕ)
    (proxyPassword : Option Text) (inheritedProxy : Option NetworkOverride) (ancestors : List (Text × ℕ)) :
    Except RouteError ResolvedRoute := do
  profile.connection.validate destination.original
  if endpoint destination ∈ ancestors then throw .cycle
  else
    let network ← networkOf env proxyPassword inheritedProxy destination.original profile.connection
    match jumpOf global depth destination profile.connection with
    | some spec =>
      match validateSshDestination spec with
      | .error _ => throw .jumpAddress
      | .ok () =>
        if 2 ≤ depth then throw .tooDeep
        else
          match env.resolveHost spec with
          | .error message => throw (.unresolved message)
          | .ok (next, nextProfile) =>
            let jump ← buildRoute env global next nextProfile (depth + 1) none network (ancestors ++ [endpoint destination])
            pure ⟨destination, profile, .jump jump.destination jump.profile jump.transport⟩
    | none =>
      let transport ← exitOf env global network destination.host
      pure ⟨destination, profile, transport⟩
termination_by 2 - depth

def resolveRouteWith (env : Environment) (global : SshProxyConfig) (destination : SshDestination) (profile : SshProfileAuth) (depth : ℕ)
    (proxyPassword : Option Text) : Except RouteError ResolvedRoute :=
  buildRoute env global destination profile depth proxyPassword none []

end

/-! ### What a key says -/

abbrev Hop := SshDestination × SshProfileAuth

/-- The hosts that a transport goes through. -/
def RouteTransport.hops : RouteTransport → List Hop
  | .jump destination profile transport => (destination, profile) :: transport.hops
  | _ => []

/-- The way out of the last host. -/
def RouteTransport.exit : RouteTransport → RouteTransport
  | .jump _ _ transport => transport.exit
  | transport => transport

/-- The hosts of a route, from the destination on. -/
def ResolvedRoute.hops (r : ResolvedRoute) : List Hop := (r.destination, r.profile) :: r.transport.hops

open ResolvedRoute (poolKey)

/-- The hosts have the same text in the key. -/
structure SameText (h h' : Hop) : Prop where
  original : h.1.original = h'.1.original
  userHost : h.1.userHost = h'.1.userHost
  port : h.1.port = h'.1.port
  auth : h.2.auth = h'.2.auth
  privateKeys : h.2.privateKeys = h'.2.privateKeys
  identityFiles : h.1.identityFiles = h'.1.identityFiles

/-- The hosts are the same, and so is the login there. -/
structure SameHop (h h' : Hop) : Prop where
  original : h.1.original = h'.1.original
  user : h.1.user = h'.1.user
  endpoint : endpoint h.1 = endpoint h'.1
  auth : h.2.auth = h'.2.auth
  privateKeys : h.2.privateKeys = h'.2.privateKeys
  identityFiles : h.1.identityFiles = h'.1.identityFiles

/-- The same way out, but for the password of a proxy. -/
def SameExit : RouteTransport → RouteTransport → Prop
  | .direct, .direct => True
  | .server s, .server s' => s.scheme = s'.scheme ∧ s.host = s'.host ∧ s.port = s'.port ∧ s.username = s'.username
  | .command c, .command c' => c = c'
  | _, _ => False

def SameTexts (r r' : ResolvedRoute) : Prop := List.Forall₂ SameText r.hops r'.hops ∧ SameExit r.transport.exit r'.transport.exit

/-- The routes lead to the same machines, with the same logins, through the same proxy. -/
def SameRoute (r r' : ResolvedRoute) : Prop := List.Forall₂ SameHop r.hops r'.hops ∧ SameExit r.transport.exit r'.transport.exit

def SameUsers (r r' : ResolvedRoute) : Prop := List.Forall₂ (fun h h' : Hop => h.1.user = h'.1.user) r.hops r'.hops

theorem u64Bytes_inj {n m : ℕ} (hn : n < 2 ^ 64) (hm : m < 2 ^ 64) (h : u64Bytes n = u64Bytes m) : n = m := by
  have hrd {k : ℕ} (hk : k < 2 ^ 64) : Link.fromBeBytes (u64Bytes k) = k := by
    simp only [Link.fromBeBytes, u64Bytes, List.foldl_cons, List.foldl_nil, toNat_ofNat']
    omega
  rw [← hrd hn, h, hrd hm]

theorem withLength_append_inj {a b x y : Bytes} (ha : a.length < 2 ^ 64) (hb : b.length < 2 ^ 64)
    (h : withLength a ++ x = withLength b ++ y) : a = b ∧ x = y := by
  rw [withLength, withLength, append_assoc, append_assoc] at h
  obtain ⟨hl, h⟩ := List.append_inj h rfl
  exact List.append_inj h (u64Bytes_inj ha hb hl)

theorem hexText_inj {a b : Bytes} (h : hexText a = hexText b) : a = b := by
  have hd : ∀ n < 16, ∀ m < 16, digitChar n = digitChar m → n = m := by decide
  induction a generalizing b with
  | nil =>
    cases b with
    | nil => rfl
    | cons y b => exact nomatch h
  | cons x a ih =>
    cases b with
    | nil => exact nomatch h
    | cons y b =>
      simp only [hexText, List.flatMap_cons, List.cons_append, List.nil_append, cons.injEq] at h
      obtain ⟨hhigh, hl, h⟩ := h
      have hx := x.toNat_lt
      have hy := y.toNat_lt
      have hhigh := hd _ (by omega) _ (by omega) hhigh
      have hl := hd _ (mod_lt _ (by decide)) _ (mod_lt _ (by decide)) hl
      rw [ih h, UInt8.toNat_inj.mp (show x.toNat = y.toNat by omega)]

theorem bar_not_mem_hexText (bytes : Bytes) : '|' ∉ hexText bytes := by
  have hd : ∀ n < 16, digitChar n ≠ '|' := by decide
  intro hm
  obtain ⟨b, -, hb⟩ := List.mem_flatMap.mp hm
  have hlt := b.toNat_lt
  rw [mem_cons, mem_singleton] at hb
  rcases hb with hb | hb
  · exact hd _ (by omega) hb.symm
  · exact hd _ (mod_lt _ (by decide)) hb.symm

theorem poolKey_inj {d d' : SshDestination} : d.poolKey = d'.poolKey ↔ d.userHost = d'.userHost ∧ d.port = d'.port := by
  constructor
  · intro h
    obtain ⟨huser, hport⟩ := append_cons_inj h (not_mem_toDigits rfl _) (not_mem_toDigits rfl _)
    exact ⟨huser, toDigits_inj hport⟩
  · rintro ⟨huser, hport⟩
    rw [SshDestination.poolKey, huser, hport]
    rfl

theorem metadata_inj {h h' : Hop} : metadata h.1 h.2 = metadata h'.1 h'.2 ↔ SameText h h' := by
  simp only [metadata, Metadata.mk.injEq, poolKey_inj]
  exact ⟨fun ⟨h1, h2, h3, h4, h5⟩ => ⟨h1, h2.1, h2.2, h3, h4, h5⟩, fun ⟨h1, h2, h3, h4, h5, h6⟩ => ⟨h1, ⟨h2, h3⟩, h4, h5, h6⟩⟩

/-- What the digest is taken of after the metadata of a host. -/
def exitInput [Digest] : RouteTransport → Bytes
  | .jump next nextProfile transport => utf8Encode "jump".toList ++ digestInput next nextProfile transport
  | .direct => utf8Encode "direct".toList
  | .server server => utf8Encode "proxy".toList ++ utf8Encode server.identity
  | .command command => utf8Encode "command".toList ++ utf8Encode command

/-- The first letter of what stands for a transport. -/
def RouteTransport.letter : RouteTransport → UInt8
  | .jump .. => 0x6a
  | .direct => 0x64
  | .server _ => 0x70
  | .command _ => 0x63

open RouteTransport (exit hops letter server)

section
variable [Digest]

theorem digestInput_eq (d : SshDestination) (p : SshProfileAuth) (t : RouteTransport) :
    digestInput d p t = withLength (Digest.toVec (metadata d p)) ++ exitInput t := by
  cases t <;> rfl

theorem head?_exitInput (t : RouteTransport) : (exitInput t).head? = some t.letter := by
  cases t <;> rfl

/-- What is known of the encoding of some metadata: it can be read back, and it fits into the memory. -/
def Faithful (hops : List Hop) : Prop :=
  (∀ h ∈ hops, (Digest.toVec (metadata h.1 h.2)).length < 2 ^ 64) ∧
    ∀ h ∈ hops, ∀ h' ∈ hops, Digest.toVec (metadata h.1 h.2) = Digest.toVec (metadata h'.1 h'.2) → metadata h.1 h.2 = metadata h'.1 h'.2

theorem SameExit.digest {t t' : RouteTransport} (h : SameExit t t') (hl : t.letter ≠ 0x6a) : exitInput t = exitInput t' := by
  cases t with
  | direct => cases t' with
    | direct => rfl
    | server | command | jump => exact h.elim
  | server s => cases t' with
    | server s' =>
      obtain ⟨hs, hhost, hport, hu⟩ := h
      rw [exitInput, exitInput, ProxyServer.identity, ProxyServer.identity, hs, hhost, hport, hu]
    | direct | command | jump => exact h.elim
  | command c => cases t' with
    | command c' => rw [show c = c' from h]
    | direct | server | jump => exact h.elim
  | jump => exact absurd rfl hl

/-- Routes have the same input of the digest where their hosts have the same texts and the way out is the same. -/
theorem digestInput_inj (h h' : Hop) (t t' : RouteTransport) {hops : List Hop} (hf : Faithful hops)
    (hh : h ∈ hops) (hh' : h' ∈ hops) (ht : t.hops ⊆ hops) (ht' : t'.hops ⊆ hops)
    (hat : ∀ s, t.exit = .server s → '@' ∉ s.host) (hat' : ∀ s, t'.exit = .server s → '@' ∉ s.host) :
    digestInput h.1 h.2 t = digestInput h'.1 h'.2 t' ↔ List.Forall₂ SameText (h :: t.hops) (h' :: t'.hops) ∧ SameExit t.exit t'.exit := by
  have hmeta : digestInput h.1 h.2 t = digestInput h'.1 h'.2 t' ↔ SameText h h' ∧ exitInput t = exitInput t' := by
    rw [digestInput_eq, digestInput_eq]
    constructor
    · intro heq
      obtain ⟨hv, hexit⟩ := withLength_append_inj (hf.1 h hh) (hf.1 h' hh') heq
      exact ⟨metadata_inj.mp (hf.2 h hh h' hh' hv), hexit⟩
    · rintro ⟨hsm, hexit⟩
      rw [metadata_inj.mpr hsm, hexit]
  rw [hmeta, forall₂_cons, and_assoc, and_congr_right_iff]
  intro _
  have hl (heq : exitInput t = exitInput t') : t.letter = t'.letter := by
    have hhd := congrArg List.head? heq
    rw [head?_exitInput, head?_exitInput, some.injEq] at hhd
    exact hhd
  cases t with
  | jump d p t =>
    cases t' with
    | jump d' p' t' =>
      have ih := digestInput_inj (d, p) (d', p') t t' hf (ht mem_cons_self)
        (ht' mem_cons_self) (fun x hx => ht (mem_cons_of_mem _ hx)) (fun x hx => ht' (mem_cons_of_mem _ hx)) hat hat'
      rw [exitInput, exitInput, List.append_cancel_left_eq]
      exact ih
    | direct | server | command =>
      refine ⟨fun heq => absurd (hl heq) (by simp [letter]), fun hsm => ?_⟩
      exact nomatch hsm.1
  | direct =>
    cases t' with
    | direct => exact ⟨fun _ => ⟨.nil, trivial⟩, fun _ => rfl⟩
    | jump =>
      refine ⟨fun heq => absurd (hl heq) (by simp [letter]), fun hsm => ?_⟩
      exact nomatch hsm.1
    | server | command => exact ⟨fun heq => absurd (hl heq) (by simp [letter]), fun hsm => hsm.2.elim⟩
  | server s =>
    cases t' with
    | server s' =>
      refine ⟨fun heq => ⟨.nil, ?_⟩, fun hsm => hsm.2.digest (by simp [letter, exit])⟩
      exact identity_inj (utf8Encode_inj (append_cancel_left heq)) (hat s rfl) (hat' s' rfl)
    | jump =>
      refine ⟨fun heq => absurd (hl heq) (by simp [letter]), fun hsm => ?_⟩
      exact nomatch hsm.1
    | direct | command => exact ⟨fun heq => absurd (hl heq) (by simp [letter]), fun hsm => hsm.2.elim⟩
  | command c =>
    cases t' with
    | command c' =>
      exact ⟨fun heq => ⟨.nil, utf8Encode_inj (append_cancel_left heq)⟩, fun hsm => hsm.2.digest (by simp [letter, exit])⟩
    | jump =>
      refine ⟨fun heq => absurd (hl heq) (by simp [letter]), fun hsm => ?_⟩
      exact nomatch hsm.1
    | direct | server => exact ⟨fun heq => absurd (hl heq) (by simp [letter]), fun hsm => hsm.2.elim⟩

/-- Routes have the same key where their hosts have the same texts and the way out is the same. -/
theorem routeKey_inj {r r' : ResolvedRoute} (hf : Faithful (r.hops ++ r'.hops))
    (hs256 : Digest.sha256 r.digestInput = Digest.sha256 r'.digestInput → r.digestInput = r'.digestInput)
    (hat : ∀ s, r.transport.exit = .server s → '@' ∉ s.host) (hat' : ∀ s, r'.transport.exit = .server s → '@' ∉ s.host) :
    r.poolKey = r'.poolKey ↔ SameTexts r r' := by
  have hin : r.digestInput = r'.digestInput ↔ SameTexts r r' :=
    digestInput_inj (r.destination, r.profile) (r'.destination, r'.profile) _ _ hf
      (List.mem_append_left _ mem_cons_self) (List.mem_append_right _ mem_cons_self)
      (fun x hx => List.mem_append_left _ (mem_cons_of_mem _ hx)) (fun x hx => List.mem_append_right _ (mem_cons_of_mem _ hx)) hat hat'
  rw [← hin]
  constructor
  · intro h
    have hb (bytes : Bytes) : '|' ∉ "route:".toList ++ hexText bytes := fun hm =>
      (List.mem_append.mp hm).elim (by decide) (bar_not_mem_hexText bytes)
    rw [poolKey, poolKey, append_assoc, append_assoc] at h
    obtain ⟨-, hh⟩ := append_cons_inj h (hb _) (hb _)
    exact hs256 (hexText_inj (append_cancel_left hh))
  · intro h
    have hsm := (hin.mp h).1
    rw [poolKey, poolKey, h, poolKey_inj.mpr ⟨(forall₂_cons.mp hsm).1.userHost,
      (forall₂_cons.mp hsm).1.port⟩]

end

/-! ### Users and hosts -/

theorem forall₂_imp_of_mem {α : Type} {P Q : α → α → Prop} {l l' : List α} (h : List.Forall₂ P l l')
    (hi : ∀ a ∈ l, ∀ b ∈ l', P a b → Q a b) : List.Forall₂ Q l l' := by
  induction h with
  | nil => exact .nil
  | cons hab _ ih =>
    refine .cons (hi _ mem_cons_self _ mem_cons_self hab) (ih fun a ha b hb => ?_)
    exact hi a (mem_cons_of_mem _ ha) b (mem_cons_of_mem _ hb)

theorem forall₂_and {α : Type} {P Q : α → α → Prop} {l l' : List α} (h : List.Forall₂ P l l') (h' : List.Forall₂ Q l l') :
    List.Forall₂ (fun a b => P a b ∧ Q a b) l l' := by
  induction h with
  | nil => exact .nil
  | cons hab _ ih =>
    rw [forall₂_cons] at h'
    exact .cons ⟨hab, h'.1⟩ (ih h'.2)

/-- Hosts of one text are the same if the users are. -/
theorem sameHop_iff {h h' : Hop} : SameHop h h' ↔ SameText h h' ∧ h.1.user = h'.1.user := by
  constructor
  · rintro ⟨horig, huser, he, ha, hkeys, hfs⟩
    obtain ⟨hhost, hport⟩ := Prod.mk.inj he
    refine ⟨⟨horig, ?_, hport, ha, hkeys, hfs⟩, huser⟩
    rw [SshDestination.userHost, huser, hhost]
    rfl
  · rintro ⟨⟨horig, hu, hport, ha, hkeys, hfs⟩, huser⟩
    refine ⟨horig, huser, ?_, ha, hkeys, hfs⟩
    rw [SshDestination.userHost, SshDestination.userHost, huser] at hu
    rw [endpoint, endpoint, hport, (cons.inj (append_cancel_left hu)).2]

theorem sameRoute_iff {r r' : ResolvedRoute} : SameRoute r r' ↔ SameTexts r r' ∧ SameUsers r r' := by
  constructor
  · rintro ⟨hhops, hexit⟩
    exact ⟨⟨forall₂_imp_of_mem hhops fun _ _ _ _ h => (sameHop_iff.mp h).1, hexit⟩,
      forall₂_imp_of_mem hhops fun _ _ _ _ h => (sameHop_iff.mp h).2⟩
  · rintro ⟨⟨hts, hexit⟩, hu⟩
    exact ⟨forall₂_imp_of_mem (forall₂_and hts hu) fun _ _ _ _ h => sameHop_iff.mpr h, hexit⟩

/-- The users are the same where no name of a host has an `@`. -/
theorem sameUsers_of_at {r r' : ResolvedRoute} (hat : ∀ h ∈ r.hops, '@' ∉ h.1.host) (hat' : ∀ h ∈ r'.hops, '@' ∉ h.1.host)
    (h : SameTexts r r') : SameUsers r r' := by
  have hl {t : Text} (ht : '@' ∉ t) : '@' ∉ toAsciiLowercase t := fun hm => ht ((mem_toAsciiLowercase (by decide)).mp hm)
  refine forall₂_imp_of_mem h.1 fun a ha b hb hab => ?_
  exact (append_cons_inj hab.userHost (hl (hat a ha)) (hl (hat' b hb))).1

/-! ### What is built -/

section
variable [Digest]

/-- The proxy of the first host that has one of its own. -/
def firstOverride (env : Environment) : Option Text → List Hop → Except RouteError (Option NetworkOverride)
  | _, [] => .ok none
  | proxyPassword, h :: hops => do
    match ← ownNetwork env proxyPassword h.1.original h.2.connection with
    | some network => pure (some network)
    | none => firstOverride env none hops

/-- Each host is the one that the host before it jumps to, and the last one jumps to none. -/
def Linked (env : Environment) : Option Text → List Hop → Prop
  | jump, [] => jump = none
  | jump, h :: hops => (∃ spec, jump = some spec ∧ env.resolveHost spec = .ok h) ∧ Linked env (hostJump h.1 h.2.connection) hops

/-- The host that is reached first, the last one of the route. -/
def ResolvedRoute.lastHost (r : ResolvedRoute) : Text := ((r.transport.hops.getLast?.map Prod.fst).getD r.destination).host

/-- A route that was built. -/
structure Built (env : Environment) (global : SshProxyConfig) (destination : SshDestination) (profile : SshProfileAuth) (depth : ℕ)
    (proxyPassword : Option Text) (inheritedProxy : Option NetworkOverride) (ancestors : List (Text × ℕ)) (r : ResolvedRoute) : Prop where
  start : r.destination = destination ∧ r.profile = profile
  /-- There are two jumps at most. -/
  jumps : r.transport.hops.length ≤ 2 - depth
  /-- No host is visited twice. -/
  endpoints : (r.hops.map fun h => endpoint h.1).Nodup
  fresh : ∀ h ∈ r.hops, endpoint h.1 ∉ ancestors
  /-- The setting for all hosts is looked at for the destination only. -/
  linked : Linked env (jumpOf global depth destination profile.connection) r.transport.hops
  /-- The first host that has a proxy of its own decides on the way out of the last one, or else the settings do. -/
  exit : ∃ network, (if inheritedProxy.isSome then network = inheritedProxy else firstOverride env proxyPassword r.hops = .ok network) ∧
    exitOf env global network r.lastHost = .ok r.transport.exit
  server : (∀ s, inheritedProxy = some (.server s) → '@' ∉ s.host) → ∀ s, r.transport.exit = .server s → '@' ∉ s.host

omit [Digest] in
theorem jumpOf_succ (global : SshProxyConfig) (depth : ℕ) (destination : SshDestination) (o : SshConnectionOptions) :
    jumpOf global (depth + 1) destination o = hostJump destination o := by
  rw [jumpOf, hostJump]
  cases o.jumpMode with
  | inherit => simp [globalJump]
  | none => rfl
  | host => rfl

variable [Alphanumeric]

omit [Alphanumeric] in
theorem ownServer_host {env : Environment} {proxyPassword : Option Text} {original : Text} {o : SshConnectionOptions} {s : ProxyServer}
    (h : ownServer env proxyPassword original o = .ok s) : s.host = o.normalizedProxyHost := by
  rw [ownServer] at h
  split at h
  · exact nomatch h
  · split at h
    · exact nomatch h
    · rw [← ok.inj h]

/-- The name of a proxy that a host has of its own has no `@`. -/
theorem ownNetwork_at {env : Environment} {proxyPassword : Option Text} {original : Text} {o : SshConnectionOptions} {s : ProxyServer}
    (hv : o.validate original = .ok ()) (h : ownNetwork env proxyPassword original o = .ok (some (.server s))) : '@' ∉ s.host := by
  have hs (hc : o.hasCustomProxy = true)
      (h : (ownServer env proxyPassword original o).map (fun server => some (NetworkOverride.server server)) = .ok (some (.server s))) :
      '@' ∉ s.host := by
    cases ho : ownServer env proxyPassword original o with
    | error e => exact nomatch ho ▸ h
    | ok server =>
      rw [ho] at h
      obtain rfl := NetworkOverride.server.inj (some.inj (ok.inj h))
      rw [ownServer_host ho]
      exact validateHost_at (o.validate_proxy hv hc)
  rw [ownNetwork] at h
  split at h
  · exact nomatch h
  · exact nomatch h
  · rename_i hm
    exact hs (by simp [SshConnectionOptions.hasCustomProxy, hm]) h
  · rename_i hm
    exact hs (by simp [SshConnectionOptions.hasCustomProxy, hm]) h

omit [Digest] [Alphanumeric] in
theorem exitOf_at {env : Environment} {global : SshProxyConfig} {network : Option NetworkOverride} {host : Text} {s : ProxyServer}
    (hn : ∀ s, network = some (.server s) → '@' ∉ s.host) (h : exitOf env global network host = .ok (.server s)) : '@' ∉ s.host := by
  unfold exitOf at h
  split at h
  · exact nomatch h
  · obtain rfl := server.inj (ok.inj h)
    exact hn _ rfl
  · split at h
    · exact nomatch h
    · rename_i hr
      obtain rfl := server.inj (ok.inj h)
      exact resolve_server_at hr
    · exact nomatch h
    · exact nomatch h
    · exact nomatch h

omit [Digest] [Alphanumeric] in
theorem exitOf_exit {env : Environment} {global : SshProxyConfig} {network : Option NetworkOverride} {host : Text} {t : RouteTransport}
    (h : exitOf env global network host = .ok t) : t.exit = t ∧ t.hops = [] := by
  cases t with
  | jump =>
    unfold exitOf at h
    split at h
    · exact nomatch h
    · exact nomatch h
    · split at h <;> exact nomatch h
  | direct | server | command => exact ⟨rfl, rfl⟩

omit [Alphanumeric] in
theorem networkOf_spec {env : Environment} {proxyPassword : Option Text} {inheritedProxy network : Option NetworkOverride} {h : Hop}
    (hn : networkOf env proxyPassword inheritedProxy h.1.original h.2.connection = .ok network) (hops : List Hop) :
    if inheritedProxy.isSome then network = inheritedProxy
    else firstOverride env proxyPassword (h :: hops) = if network.isSome then .ok network else firstOverride env none hops := by
  cases inheritedProxy with
  | some n => exact (ok.inj hn).symm
  | none =>
    rw [networkOf] at hn
    simp only [isSome_none, Bool.false_eq_true, if_false, firstOverride, hn]
    cases network <;> rfl

theorem networkOf_at {env : Environment} {proxyPassword : Option Text} {inheritedProxy network : Option NetworkOverride} {original : Text}
    {o : SshConnectionOptions} (hv : o.validate original = .ok ())
    (hn : networkOf env proxyPassword inheritedProxy original o = .ok network)
    (hat : ∀ s, inheritedProxy = some (.server s) → '@' ∉ s.host) : ∀ s, network = some (.server s) → '@' ∉ s.host := by
  rintro s rfl
  cases inheritedProxy with
  | some n => exact hat s (ok.inj hn)
  | none => exact ownNetwork_at hv hn

/-- What is built, by recursion on the jumps that are left. -/
theorem buildRoute_built {env : Environment} {global : SshProxyConfig} {destination : SshDestination} {profile : SshProfileAuth} {depth : ℕ}
    {proxyPassword : Option Text} {inheritedProxy : Option NetworkOverride} {ancestors : List (Text × ℕ)} {r : ResolvedRoute}
    (h : buildRoute env global destination profile depth proxyPassword inheritedProxy ancestors = .ok r) :
    Built env global destination profile depth proxyPassword inheritedProxy ancestors r := by
  rw [buildRoute] at h
  obtain ⟨_, hv, h⟩ := bind_eq_ok h
  split at h
  · exact nomatch h
  rename_i hc
  obtain ⟨network, hnet, h⟩ := bind_eq_ok h
  have hspec := networkOf_spec (h := (destination, profile)) hnet
  split at h
  · rename_i spec hjump
    split at h
    · exact nomatch h
    split at h
    · exact nomatch h
    · rename_i hd
      split at h
      · exact nomatch h
      rename_i next nextProfile hr
      obtain ⟨jump, hb, h⟩ := bind_eq_ok h
      obtain rfl := ok.inj h
      obtain ⟨⟨rfl, rfl⟩, hj, he, hfr, hlk, ⟨network', hnet', hexit⟩, hsrv⟩ := buildRoute_built hb
      have hfr' (h : Hop) (hm : h ∈ jump.hops) : endpoint h.1 ∉ ancestors ∧ endpoint h.1 ≠ endpoint destination := by
        have hnot := hfr h hm
        rw [List.mem_append, mem_singleton, not_or] at hnot
        exact hnot
      refine ⟨⟨rfl, rfl⟩, ?_, ?_, ?_, ?_, ⟨network', ?_, ?_⟩, fun hat => hsrv (networkOf_at hv hnet hat)⟩
      · rw [hops, List.length_cons]
        omega
      · refine List.nodup_cons.mpr ⟨fun hm => ?_, he⟩
        obtain ⟨h, hh, heq⟩ := List.mem_map.mp hm
        exact (hfr' h hh).2 heq
      · intro h hh
        rcases mem_cons.mp hh with rfl | hh
        · exact hc
        · exact (hfr' h hh).1
      · rw [jumpOf_succ] at hlk
        exact ⟨⟨spec, hjump, hr⟩, hlk⟩
      · have hspec := hspec jump.hops
        split
        · rename_i hi
          rw [if_pos hi] at hspec
          rw [hspec, if_pos hi] at hnet'
          exact hnet'
        · rename_i hi
          rw [if_neg hi] at hspec
          refine hspec.trans ?_
          split
          · rename_i hsome
            rw [if_pos hsome] at hnet'
            rw [hnet']
          · rename_i hn
            rw [if_neg hn] at hnet'
            exact hnet'
      · have hl : (⟨destination, profile, .jump jump.destination jump.profile jump.transport⟩ : ResolvedRoute).lastHost =
            jump.lastHost := by
          rw [ResolvedRoute.lastHost, ResolvedRoute.lastHost, hops, List.getLast?_cons, map_some, getD_some]
          cases jump.transport.hops.getLast? <;> rfl
        rw [hl]
        exact hexit
  · rename_i hjump
    obtain ⟨transport, hexit, h⟩ := bind_eq_ok h
    obtain rfl := ok.inj h
    obtain ⟨ht, hhops⟩ := exitOf_exit hexit
    refine ⟨⟨rfl, rfl⟩, ?_, ?_, ?_, ?_, ⟨network, ?_, ?_⟩, fun hat s hs => ?_⟩
    · rw [hhops]
      exact Nat.zero_le _
    · rw [ResolvedRoute.hops, hhops]
      exact List.nodup_singleton _
    · intro h hh
      rw [ResolvedRoute.hops, hhops, mem_singleton] at hh
      rw [hh]
      exact hc
    · rw [hhops]
      exact hjump
    · have hspec := hspec []
      rw [ResolvedRoute.hops, hhops]
      split
      · rename_i hi
        rw [if_pos hi] at hspec
        exact hspec
      rename_i hi
      rw [if_neg hi] at hspec
      refine hspec.trans ?_
      cases network <;> rfl
    · rw [ht, ResolvedRoute.lastHost, hhops]
      exact hexit
    · rw [ht] at hs
      exact exitOf_at (networkOf_at hv hnet hat) (hs ▸ hexit)
termination_by 2 - depth

/-! ### Routes and their keys -/

/-- **A route is short, visits no host twice, and leaves by the proxy of the first host that has one**, or else
by the one of the settings, which jump for the destination only. **Routes of one key are the same** but where two
users and hosts are one text: in any other case, routes of one key have the same hosts, logins and proxy. That the
names of the hosts have no `@` is enough for it. -/
theorem route_resolved {env env' : Environment} {global global' : SshProxyConfig} {destination destination' : SshDestination}
    {profile profile' : SshProfileAuth} {depth depth' : ℕ} {proxyPassword proxyPassword' : Option Text} {r r' : ResolvedRoute}
    (h : resolveRouteWith env global destination profile depth proxyPassword = .ok r)
    (h' : resolveRouteWith env' global' destination' profile' depth' proxyPassword' = .ok r')
    (hfaithful : Faithful (r.hops ++ r'.hops))
    (hsha256 : Digest.sha256 r.digestInput = Digest.sha256 r'.digestInput → r.digestInput = r'.digestInput) :
    (r.hops.length ≤ 3 ∧ (r.hops.map fun h => endpoint h.1).Nodup ∧
      Linked env (jumpOf global depth destination profile.connection) r.transport.hops ∧
      ∃ network, firstOverride env proxyPassword r.hops = .ok network ∧ exitOf env global network r.lastHost = .ok r.transport.exit) ∧
    ((r.poolKey = r'.poolKey → SameRoute r r') ↔ (SameTexts r r' → SameUsers r r')) ∧
    ((∀ h ∈ r.hops, '@' ∉ h.1.host) → (∀ h ∈ r'.hops, '@' ∉ h.1.host) → r.poolKey = r'.poolKey → SameRoute r r') := by
  obtain ⟨-, hjum, hend, -, hlk, hexit, hsrv⟩ := buildRoute_built h
  have hsrv' := (buildRoute_built h').server
  have hkey := routeKey_inj hfaithful hsha256 (hsrv nofun) (hsrv' nofun)
  refine ⟨⟨?_, hend, hlk, hexit⟩, ?_, fun hat hat' hsm => ?_⟩
  · rw [ResolvedRoute.hops, List.length_cons]
    omega
  · rw [hkey, sameRoute_iff]
    exact ⟨fun h hts => (h hts).2, fun h hts => ⟨hts, h hts⟩⟩
  · have hts := hkey.mp hsm
    exact sameRoute_iff.mpr ⟨hts, sameUsers_of_at hat hat' hts⟩

end

/-! ### Two hosts of one text -/

theorem isAlphanum_ascii (c : Char) (_ : c.toNat < 128) : c.isAlphanum = c.isAlphanum := rfl

instance sampleAlphanumeric : Alphanumeric := ⟨Char.isAlphanum, isAlphanum_ascii⟩

def jsonText (t : Text) : Text := '"' :: t ++ ['"']

def jsonList (ts : List Text) : Text := '[' :: [','].intercalate (ts.map jsonText) ++ [']']

def SshAuthMode.name : SshAuthMode → Text
  | .auto => "auto".toList
  | .password => "password".toList
  | .publicKey => "public_key".toList
  | .keyboardInteractive => "keyboard_interactive".toList

/-- The JSON of metadata whose texts need no escapes, and the digests of the two inputs that are used here. -/
instance sampleDigest : Digest where
  sha256 bytes :=
    if bytes.length = 46 then
      [252, 116, 110, 245, 86, 48, 232, 177, 15, 96, 35, 77, 41, 241, 242, 191, 109, 87, 141, 41, 229, 122, 8, 165,
      24, 36, 27, 184, 27, 112, 38, 124]
    else
      [150, 246, 109, 109, 18, 115, 115, 180, 240, 147, 51, 14, 96, 73, 91, 5, 199, 9, 83, 248, 91, 40, 176, 221, 216,
      153, 115, 33, 12, 102, 45, 71]
  toVec m := utf8Encode ('[' :: [','].intercalate
    [jsonText m.original, jsonText m.poolKey, jsonText m.auth.name, jsonList m.privateKeys, jsonList m.identityFiles] ++ [']'])

def plainProfile : SshProfileAuth := ⟨.auto, [], .default⟩

/-- The host `work`, of which the configuration says this. -/
def workHost (user host : String) : SshDestination := ⟨"work".toList, user.toList, host.toList, 22, [], none⟩

def sampleTable : Environment where
  systemProxy := none
  resolveHost spec :=
    if spec = "bastion@hop".toList then
      .ok (⟨spec, "bastion".toList, "hop".toList, 22, [], none⟩,
        { plainProfile with auth := .publicKey, privateKeys := ["bastion-key".toList] })
    else .error "missing host".toList
  loadSecret _ := .ok none

def noProxy : SshProxyConfig := ⟨.off, []⟩

/-- The users `a` at `b@c` and `a@b` at `c` have the same key. -/
theorem route_collision :
    ∃ r r' : ResolvedRoute, resolveRouteWith sampleTable noProxy (workHost "a" "b@c") plainProfile 0 none = .ok r ∧
      resolveRouteWith sampleTable noProxy (workHost "a@b" "c") plainProfile 0 none = .ok r' ∧ r.poolKey = r'.poolKey ∧ ¬SameRoute r r' := by
  refine ⟨⟨workHost "a" "b@c", plainProfile, .direct⟩, ⟨workHost "a@b" "c", plainProfile, .direct⟩, ?_, ?_, ?_, fun h => ?_⟩
  · with_unfolding_all rfl
  · with_unfolding_all rfl
  · decide
  · exact absurd (forall₂_cons.mp h.1).1.user (by decide)

/-- The target, which is reached by way of another host and a proxy of its own. -/
def targetProfile : SshProfileAuth :=
  { plainProfile with connection := ⟨.socks5, "draft-proxy".toList, none, "proxy-user".toList, .host, "bastion@hop".toList⟩ }

def targetHost : SshDestination := ⟨"root@target".toList, "root".toList, "target".toList, 22, [], none⟩

def targetRoute (password : Option Text) : ResolvedRoute :=
  ⟨targetHost, targetProfile, .jump ⟨"bastion@hop".toList, "bastion".toList, "hop".toList, 22, [], none⟩
    { plainProfile with auth := .publicKey, privateKeys := ["bastion-key".toList] }
    (.server ⟨.socks5, "draft-proxy".toList, 1080, some "proxy-user".toList, password⟩)⟩

/-- Another password of the proxy gives another route of the same key, to the same machines. -/
theorem route_resolved_sample :
    (targetRoute none).poolKey = (targetRoute (some "draft-secret".toList)).poolKey ∧
      SameRoute (targetRoute none) (targetRoute (some "draft-secret".toList)) := by
  have h : resolveRouteWith sampleTable noProxy targetHost targetProfile 0 none = .ok (targetRoute none) := by with_unfolding_all rfl
  have h' : resolveRouteWith sampleTable noProxy targetHost targetProfile 0 (some "draft-secret".toList) =
      .ok (targetRoute (some "draft-secret".toList)) := by with_unfolding_all rfl
  have hkey : (targetRoute none).poolKey = (targetRoute (some "draft-secret".toList)).poolKey := by with_unfolding_all rfl
  have hfai : Faithful ((targetRoute none).hops ++ (targetRoute (some "draft-secret".toList)).hops) := by
    constructor <;> decide
  have hin : (targetRoute none).digestInput = (targetRoute (some "draft-secret".toList)).digestInput := by with_unfolding_all rfl
  exact ⟨hkey, (route_resolved h h' hfai fun _ => hin).2.2 (by decide) (by decide) hkey⟩

end Pebrel.Ssh
