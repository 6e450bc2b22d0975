import Pebrel.Library.Transition
import Pebrel.Link.RelayInvariant

/-!
# Isolation of links

The steps of the relay keep the invariants, and so every run in which no connection
that finds the other end ready fails to draw an epoch isolates its links
(`relay_isolated`). Where drawing the epoch fails, the connection has become active
all the same, and until its lease is dropped the other end can put packets in its
queue (`unpaired_packet`).
-/

namespace Pebrel.Link

open Library Transition List Option Nat

namespace Relay

variable {w : Relay} {room room' : Text} {role role' : Role} {i j : ℕ} {c d : Conn} {p q : Peer} {f : Conn → Conn}

/-! ### What an announcement does -/

theorem canSend_put_of_ne (m : Message) (h : i ≠ j) : (w.put i m).canSend j = w.canSend j := by
  unfold canSend put
  rw [conns_note, conn_modifyConn_of_ne h]

/-- The world after `own` has become active. -/
abbrev activated (w : Relay) (c : Conn) (own : Peer) : Relay :=
  w.setPeer c.room c.role (some { own with active := true })

/-- What comes of an announcement. -/
inductive Announced (w : Relay) (i : ℕ) (c : Conn) (drawn : Bool) : Relay × Bool → Prop
  | refused : Announced w i c drawn (w, false)
  /-- The other end is not ready. -/
  | waiting {own : Peer} (hown : w.peer c.room c.role = some own) (hother : w.ready c.room c.role.peer = false) :
      Announced w i c drawn ((w.activated c own).put i .waiting, true)
  | undrawn {own : Peer} (hown : w.peer c.room c.role = some own) (hready : w.ready c.room c.role.peer = true)
      (hdrawn : drawn = false) : Announced w i c drawn (w.activated c own, false)
  /-- Both ends are put the epoch. -/
  | paired {own q : Peer} {a b : ℕ} (hown : w.peer c.room c.role = some own) (hq : w.peer c.room c.role.peer = some q)
      (hready : w.ready c.room c.role.peer = true) (hab : a = i ∧ b = q.conn ∨ a = q.conn ∧ b = i) :
      Announced w i c drawn (((w.activated c own).draw.put a (.paired w.epochs)).put b (.paired w.epochs), true)
  /-- The other end cannot be sent to. -/
  | failed {own q : Peer} {w' : Relay} (hown : w.peer c.room c.role = some own) (hq : w.peer c.room c.role.peer = some q)
      (hready : w.ready c.room c.role.peer = true) (hfull : w.canSend q.conn = false)
      (hw' : w' = (w.activated c own).draw ∨ w' = (w.activated c own).draw.put i (.paired w.epochs)) :
      Announced w i c drawn (w', false)

theorem ready_iff : w.ready room role = true ↔ ∃ q, w.peer room role = some q ∧ q.active = true ∧ w.isCancelled q.conn = false := by
  unfold ready
  rw [Option.any_eq_true]
  simp only [Bool.and_eq_true, Bool.not_eq_true']

theorem announced (hs : Slots w) (hc : w.conns[i]? = some c) (hlv : c.phase ≠ .dropped)
    (hfr : c.queue = [] ∧ c.closed = false) (drawn : Bool) : Announced w i c drawn (w.announce c drawn) := by
  obtain ⟨own, ho, hi⟩ := hs.lease hc hlv
  have hpeer_ne : c.role.peer ≠ c.role := by cases c.role <;> rintro ⟨⟩
  have hrm := isSome_of_peer ho
  have hself : (w.activated c own).peer c.room c.role = some { own with active := true } := by
    rw [activated, peer_setPeer _ hrm, if_pos ⟨rfl, rfl⟩]
  have hoth : (w.activated c own).peer c.room c.role.peer = w.peer c.room c.role.peer := by
    rw [activated, peer_setPeer _ hrm, if_neg fun hsm => hpeer_ne hsm.2]
  have hsd : w.canSend i = true := by
    unfold canSend
    rw [hc, any_some, hfr.1, hfr.2]
    rfl
  unfold announce
  rw [ho]
  simp only
  split
  · exact .refused
  rename_i hchk
  rw [not_or, not_or] at hchk
  have hcanc : c.cancelled = false := Bool.not_eq_true _ ▸ hchk.2.2
  have hown_ready : (w.activated c own).ready c.room c.role = true :=
    ready_iff.mpr ⟨_, hself, rfl, by rw [← hcanc, ← isCancelled_of_conn hc, ← hi]; rfl⟩
  have hother_ready : (w.activated c own).ready c.room c.role.peer = w.ready c.room c.role.peer := by
    unfold ready
    rw [hoth]
    rfl
  have hboth : ((w.activated c own).ready c.room .desktop && (w.activated c own).ready c.room .mobile) = w.ready c.room c.role.peer := by
    rw [← hother_ready]
    revert hown_ready
    cases c.role with
    | desktop => intro h; simp only [Role.peer, h, Bool.true_and]
    | mobile => intro h; simp only [Role.peer, h, Bool.and_true]
  have hsend_self : ∀ (w' : Relay) (m : Message), w'.peer c.room c.role = some { own with active := true } →
      w'.canSend i = true → w'.sendTo c.room c.role m = some (w'.put i m) := by
    intro w' m hw' hcan
    unfold sendTo trySend
    rw [hw']
    simp only [hi, hcan, if_true]
  split
  · rename_i hrd
    have hrd : w.ready c.room c.role.peer = true := hboth ▸ hrd
    obtain ⟨q, hq, ha, hqli⟩ := ready_iff.mp hrd
    have hne : i ≠ q.conn := fun heq => hpeer_ne (hs.slot_unique ho hq (hi.trans heq)).2.symm
    split
    · rename_i hd
      exact .undrawn ho hrd (by simpa using hd)
    rw [show w.setPeer c.room c.role (some { own with active := true }) = w.activated c own from rfl,
      show (w.activated c own).epochs = w.epochs from rfl]
    have hsend_other : ∀ (w' : Relay) (m : Message), w'.peer c.room c.role.peer = w.peer c.room c.role.peer →
        w'.sendTo c.room c.role.peer m = w'.trySend q.conn m := by
      intro w' m hw'
      unfold sendTo
      rw [hw', hq]
    have hcan : (w.activated c own).draw.canSend q.conn = w.canSend q.conn := rfl
    cases hr : c.role with
    | desktop =>
      have hf := hsend_self (w.activated c own).draw (.paired w.epochs) hself hsd
      have hsnd := hsend_other ((w.activated c own).draw.put i (.paired w.epochs)) (.paired w.epochs) hoth
      have hpeer : c.role.peer = .mobile := by rw [hr]; rfl
      rw [hr] at hf
      rw [hpeer] at hsnd
      rw [hf]
      simp only
      rw [hsnd]
      unfold trySend
      rw [canSend_put_of_ne _ hne, hcan]
      cases hfu : w.canSend q.conn with
      | true => exact .paired ho hq hrd (.inl ⟨rfl, rfl⟩)
      | false => exact .failed ho hq hrd hfu (.inr rfl)
    | mobile =>
      have hf := hsend_other (w.activated c own).draw (.paired w.epochs) hoth
      have hsnd := hsend_self ((w.activated c own).draw.put q.conn (.paired w.epochs)) (.paired w.epochs) hself
        ((canSend_put_of_ne _ (.symm hne)).trans hsd)
      have hpeer : c.role.peer = .desktop := by rw [hr]; rfl
      rw [hpeer] at hf
      rw [hr] at hsnd
      rw [hf]
      unfold trySend
      rw [hcan]
      cases hfu : w.canSend q.conn with
      | true =>
        simp only [if_true]
        rw [hsnd]
        exact .paired ho hq hrd (.inr ⟨rfl, rfl⟩)
      | false => exact .failed ho hq hrd hfu (.inl rfl)
  · rename_i hrd
    rw [hsend_self _ _ hself hsd]
    exact .waiting ho (by rw [← hboth]; simpa using hrd)

/-- Nothing but messages to `targets` is what `u'` has more than `u`. -/
structure PutOnly (targets : List ℕ) (u u' : Relay) : Prop where
  peer : ∀ room role, u'.peer room role = u.peer room role
  conn : ∀ {k : ℕ} {d' : Conn}, u'.conns[k]? = some d' → ∃ d, u.conns[k]? = some d ∧ d'.room = d.room ∧ d'.role = d.role ∧
    d'.phase = d.phase ∧ d'.cancelled = d.cancelled ∧ (k ∉ targets → d'.queue = d.queue)
  cancelled : ∀ k, u'.isCancelled k = false → u.isCancelled k = false
  history : ∀ n ∈ u.history, n ∈ u'.history

namespace PutOnly

variable {targets : List ℕ} {u u' : Relay} {k : ℕ}

theorem refl : PutOnly targets u u := ⟨fun _ _ => rfl, fun hd => ⟨_, hd, rfl, rfl, rfl, rfl, fun _ => rfl⟩, fun _ => id, fun _ => id⟩

theorem draw : PutOnly targets u u.draw := ⟨fun _ _ => rfl, fun hd => ⟨_, hd, rfl, rfl, rfl, rfl, fun _ => rfl⟩, fun _ => id, fun _ => id⟩

theorem put (h : PutOnly targets u u') (hk : k ∈ targets) (m : Message) : PutOnly targets u (u'.put k m) where
  peer := h.peer
  conn {l d'} hd' := by
    obtain ⟨d, hd, rfl⟩ := conn_modifyConn hd'
    obtain ⟨e, he, hrm, hr, hph, hc, hq⟩ := h.conn hd
    refine ⟨e, he, ?_⟩
    split
    · rename_i hl
      exact ⟨hrm, hr, hph, hc, fun hnot => absurd (hl ▸ hk) hnot⟩
    · exact ⟨hrm, hr, hph, hc, hq⟩
  cancelled l hl := h.cancelled l (isCancelled_of_modifyConn (f := fun c => { c with queue := c.queue ++ [m] }) (fun _ => id) hl)
  history n hn := mem_cons_of_mem _ (h.history n hn)

end PutOnly

theorem Live.announced (h : Live w) (hs : Slots w) (hc : w.conns[i]? = some c) (hup : c.phase = .upgrading)
    {own : Peer} (ho : w.peer c.room c.role = some own) {targets : List ℕ} {u : Relay}
    (hu : PutOnly targets (w.activated c own) u)
    (ht : ∀ k ∈ targets, k = i ∨ ∃ q, w.peer c.room c.role.peer = some q ∧ k = q.conn) {phase : Phase}
    (hph : phase = .ending ∨ phase = .running ∧
      ((∃ q, w.peer c.room c.role.peer = some q ∧ q.active = true) ∨ ∀ d, u.conns[i]? = some d → d.queue.length ≤ 1) ∧
      ∀ q, w.peer c.room c.role.peer = some q → q.active = true → w.isCancelled q.conn = false → Linked u.history i q.conn)
    (hlink : ∀ (k : ℕ) (d : Conn), w.conns[k]? = some d → d.phase = .running → d.cancelled = false → d.room = c.room →
      d.role = c.role.peer → Linked u.history k i) : Live (u.setPhase i phase) := by
  refine h.announce hs hc hup ho (fun room role => ?_) hu.history (fun k hk => ?_) (fun d' hd' => ?_) (fun k d' hk hd' => ?_) hlink
  · exact (hu.peer room role).trans (peer_setPeer _ (isSome_of_peer ho))
  · exact hu.cancelled k (isCancelled_of_modifyConn (f := fun c => { c with phase }) (fun _ => id) hk)
  · obtain ⟨d, hd, rfl⟩ := conn_modifyConn hd'
    obtain ⟨e, he, hrm, hr, -⟩ := hu.conn hd
    rw [conns_setPeer, hc] at he
    cases he
    rw [if_pos rfl]
    refine ⟨hrm, hr, ?_⟩
    rcases hph with hend | ⟨hrun, hsh, hlk⟩
    · exact .inl hend
    · exact .inr ⟨hrun, hsh.imp_right fun hl => hl d hd, hlk⟩
  · obtain ⟨d, hd, rfl⟩ := conn_modifyConn hd'
    obtain ⟨e, he, hrm, hr, hsm, hcan, hque⟩ := hu.conn hd
    rw [if_neg (Ne.symm hk)]
    refine ⟨e, he, hrm, hr, hsm, hcan, ?_⟩
    by_cases hm : k ∈ targets
    · obtain ⟨q, hq, rfl⟩ := (ht k hm).resolve_left hk
      obtain ⟨x, hx, hxro, hxrol, -⟩ := hs.slot hq
      rw [conns_setPeer, hx] at he
      cases he
      exact .inr ⟨hxro, hxrol⟩
    · exact .inl (hque hm)

/-! ### The order of packets -/

/-- The packets of every sender are queued as they were forwarded. -/
def Ordered (w : Relay) : Prop := ∀ s r, w.queued s r = w.forwarded s r

namespace Ordered

theorem modifyConn (h : Ordered w)
    (hf : ∀ c, w.conns[i]? = some c → (f c).received ++ (f c).queue = c.received ++ c.queue ∧ (f c).accepted = c.accepted) :
    Ordered (w.modifyConn i f) := by
  have hsm : ∀ k : ℕ, (∀ s, (w.modifyConn i f).queued s k = w.queued s k) ∧ ∀ r, (w.modifyConn i f).forwarded k r = w.forwarded k r := by
    intro k
    unfold queued forwarded
    rw [conns_modifyConn]
    cases hc : w.conns[k]? with
    | none => exact ⟨fun _ => rfl, fun _ => rfl⟩
    | some c =>
      simp only [map_some]
      split
      · rename_i hk
        obtain ⟨hq, ha⟩ := hf c (hk ▸ hc)
        exact ⟨fun _ => by rw [hq], fun _ => by rw [ha]⟩
      · exact ⟨fun _ => rfl, fun _ => rfl⟩
  intro s r
  rw [(hsm r).1, (hsm s).2, h]

theorem setPhase (h : Ordered w) (phase : Phase) : Ordered (w.setPhase i phase) :=
  h.modifyConn (f := fun c => { c with phase }) fun _ _ => ⟨rfl, rfl⟩

theorem cancel (h : Ordered w) (i : ℕ) : Ordered (w.cancel i) :=
  h.modifyConn (f := fun c => { c with cancelled := true }) fun _ _ => ⟨rfl, rfl⟩

/-- A message that is no packet. -/
theorem put (h : Ordered w) {m : Message} (hm : ∀ s, m.packetFrom s = none) : Ordered (w.put i m) := by
  intro s r
  have hqd : (w.put i m).queued s r = w.queued s r := by
    unfold queued Relay.put
    rw [conns_note, conns_modifyConn]
    cases w.conns[r]? with
    | none => rfl
    | some c =>
      simp only [map_some]
      split
      · rw [← append_assoc, filterMap_append]
        simp only [filterMap_cons, hm, filterMap_nil, append_nil]
      · rfl
  have hf : (w.put i m).forwarded s r = w.forwarded s r := by
    unfold forwarded Relay.put
    rw [conns_note, conns_modifyConn]
    cases w.conns[s]? with
    | none => rfl
    | some c =>
      simp only [map_some]
      split <;> rfl
  rw [hqd, hf, h]

/-- A packet is forwarded. -/
theorem forward (h : Ordered w) (hc : w.conns[i]? = some c) (hd : w.conns[j]? = some d) (packet : Packet) :
    Ordered ((w.put j (.binary i packet)).modifyConn i fun c => { c with accepted := c.accepted ++ [(j, packet)] }) := by
  intro s r
  have hqd : ((w.put j (.binary i packet)).modifyConn i fun c => { c with accepted := c.accepted ++ [(j, packet)] }).queued s r =
      w.queued s r ++ if i = s ∧ j = r then [packet] else [] := by
    unfold queued Relay.put
    rw [conns_modifyConn, conns_note, conns_modifyConn]
    by_cases hr : j = r
    · subst hr
      rw [hd]
      simp only [map_some, if_true, and_true]
      split <;> simp only [← append_assoc, filterMap_append, filterMap_cons, filterMap_nil, Message.packetFrom]
        <;> split <;> simp_all
    · rw [if_neg fun hsm => hr hsm.2, append_nil]
      cases w.conns[r]? with
      | none => rfl
      | some x =>
        simp only [map_some, if_neg hr]
        split <;> rfl
  have hf : ((w.put j (.binary i packet)).modifyConn i fun c => { c with accepted := c.accepted ++ [(j, packet)] }).forwarded s r =
      w.forwarded s r ++ if i = s ∧ j = r then [packet] else [] := by
    unfold forwarded Relay.put
    rw [conns_modifyConn, conns_note, conns_modifyConn]
    by_cases hs : i = s
    · subst hs
      rw [hc]
      simp only [map_some, if_true, true_and]
      split <;> simp only [filterMap_append, filterMap_cons, filterMap_nil] <;> split <;> simp_all
    · rw [if_neg fun hsm => hs hsm.1, append_nil]
      cases w.conns[s]? with
      | none => rfl
      | some x =>
        simp only [map_some, if_neg hs]
        split <;> rfl
  rw [hqd, hf, h]

theorem grant (h : Ordered w) : Ordered (w.grant room role) := by
  have hsm : ∀ k : ℕ, (∀ s, (w.grant room role).queued s k = w.queued s k) ∧ ∀ r, (w.grant room role).forwarded k r = w.forwarded k r := by
    intro k
    unfold queued forwarded
    cases hold : w.conns[k]? with
    | some c =>
      rw [conns_grant hold]
      exact ⟨fun _ => rfl, fun _ => rfl⟩
    | none =>
      cases hn : (w.grant room role).conns[k]? with
      | none => exact ⟨fun _ => rfl, fun _ => rfl⟩
      | some d =>
        rcases conn_grant hn with hd | ⟨-, rfl⟩
        · rw [hold] at hd
          cases hd
        · exact ⟨fun _ => rfl, fun _ => rfl⟩
  intro s r
  rw [(hsm r).1, (hsm s).2, h]

end Ordered

/-! ### The steps -/

/-- What holds in every state, as long as epochs are drawn. -/
structure Inv (w : Relay) : Prop where
  core : Core w
  live : Live w
  ordered : Ordered w

theorem Inv.isolated (h : Inv w) : Isolated w where
  packets := h.core.packets
  lease _ _ _ _ hc hd hcl hdl hrm hr := h.core.slots.unique hc hd hcl hdl hrm hr
  ordered := h.ordered

theorem setPhase_put (m : Message) (phase : Phase) : (w.put j m).setPhase i phase = (w.setPhase i phase).put j m := by
  have hc : ((w.put j m).setPhase i phase).conns = ((w.setPhase i phase).put j m).conns := by
    refine ext_getElem? fun k => ?_
    unfold setPhase put
    rw [conns_modifyConn, conns_note, conns_modifyConn, conns_note, conns_modifyConn, conns_modifyConn]
    cases w.conns[k]? with
    | none => rfl
    | some c =>
      simp only [map_some]
      split <;> split <;> rfl
  exact congrArg (fun conns => { w with conns, history := .put j m :: w.history }) hc

namespace Inv

section
variable (h : Inv w)
include h

/-- A connection comes to its end. -/
theorem ending (hc : w.conns[i]? = some c) (hlv : c.phase ≠ .dropped) : Inv (w.setPhase i .ending) where
  core := h.core.setPhase hc hlv (.inl rfl)
  live := h.live.modifyConn (fun _ => ⟨rfl, rfl, id⟩) (fun _ _ => le_refl _) fun _ => .inr (.inl rfl)
  ordered := h.ordered.setPhase _

theorem cancel (hc : w.conns[i]? = some c) : Inv (w.cancel i) := ⟨h.core.cancel hc, h.live.cancel i, h.ordered.cancel i⟩

/-- A slot is reserved, or the request is refused. -/
theorem reserve (authorized : Text → Text → Bool) {token : Text} : Inv (w.reserve room role authorized token) := by
  unfold Relay.reserve
  split
  · exact h
  rename_i r hr
  split
  · exact h
  split
  · exact h
  · rename_i hf
    split
    · exact h
    have hrm : (w.rooms room).isSome := by rw [hr]; rfl
    have hn : w.peer room role = none := by
      unfold peer
      rw [hr, bind_some]
      exact not_isSome_iff_eq_none.mp hf
    exact ⟨h.core.grant hrm hn, h.live.grant h.core.slots hrm hn, h.ordered.grant⟩

/-- A connection announces itself; where both ends are ready, an epoch is drawn. -/
theorem announce (hc : w.conns[i]? = some c) (hup : c.phase = .upgrading) {drawn : Bool}
    (hdra : drawn = false → w.ready c.room c.role.peer = false) :
    Inv ((w.announce c drawn).1.setPhase i (if (w.announce c drawn).2 then .running else .ending)) := by
  have hlv : c.phase ≠ .dropped := by rw [hup]; nofun
  have hfr := h.core.fresh hc hup
  have hann := announced h.core.slots hc hlv hfr drawn
  generalize w.announce c drawn = result at hann
  cases hann with
  | refused => exact h.ending hc hlv
  | undrawn ho hrd hf =>
    rw [hdra hf] at hrd
    cases hrd
  | @waiting own ho hoth =>
    have hcore : Core ((w.activated c own).setPhase i .running) := (h.core.setActive ho).setPhase hc hlv (.inr ⟨rfl, hfr.2⟩)
    have hnot : ∀ q, w.peer c.room c.role.peer = some q → q.active = true → w.isCancelled q.conn = false → False := by
      intro q hq hact hqli
      rw [ready_iff.mpr ⟨q, hq, hact, hqli⟩] at hoth
      cases hoth
    refine ⟨?_, ?_, ?_⟩
    · simp only [if_true]
      rw [setPhase_put]
      refine hcore.put (fun d hd hph => ?_) nofun nofun nofun nofun
      obtain ⟨e, -, rfl⟩ := conn_modifyConn hd
      rw [if_pos rfl] at hph
      cases hph
    · have hput : PutOnly [i] (w.activated c own) ((w.activated c own).put i .waiting) := PutOnly.refl.put mem_cons_self _
      refine h.live.announced h.core.slots hc hup ho hput
        (fun k hk => .inl (mem_singleton.mp hk)) (.inr ⟨rfl, .inr fun d hd => ?_, fun q hq hact hqli => ?_⟩)
        fun k d hd hrun hcan hrm hr => ?_
      · obtain ⟨e, he, rfl⟩ := conn_modifyConn hd
        rw [conns_setPeer, hc] at he
        cases he
        rw [if_pos rfl]
        simp only [hfr.1, nil_append, length_singleton, le_refl]
      · exact (hnot q hq hact hqli).elim
      · obtain ⟨q, hq, rfl⟩ := h.core.slots.lease hd (by rw [hrun]; nofun)
        have hact := h.live.active hd hrun hq
        rw [hrm, hr] at hq
        exact (hnot q hq hact ((isCancelled_of_conn hd).trans hcan)).elim
    · exact (Ordered.put (w := w.activated c own) h.ordered fun _ => rfl).setPhase _
  | @paired own q a b ho hq hrd hab =>
    obtain ⟨x, hx, hxro, hxrol, -, hxli⟩ := h.core.slots.slot hq
    obtain ⟨q', hq', hact, -⟩ := ready_iff.mp hrd
    rw [hq] at hq'
    cases hq'
    have hxup : x.phase ≠ .upgrading := by
      intro hph
      rw [← hxro, ← hxrol] at hq
      rw [h.live.inactive hx hph hq] at hact
      cases hact
    have hne : i ≠ q.conn := by
      intro heq
      rw [heq, hx] at hc
      cases hc
      exact hxup hup
    have hcore : Core ((w.activated c own).draw.setPhase i .running) := (h.core.setActive ho).draw.setPhase hc hlv (.inr ⟨rfl, hfr.2⟩)
    have hself : ((w.activated c own).draw.setPhase i .running).conns[i]? = some { c with phase := .running } := conn_modifyConn_self hc
    have hoth : ((w.activated c own).draw.setPhase i .running).conns[q.conn]? = some x := (conn_modifyConn_of_ne hne).trans hx
    have hn : ∀ k, .put k (.paired w.epochs) ∉ w.history := fun k hk => absurd (h.core.epoch_lt hk) (Nat.lt_irrefl _)
    have ht : ∀ k ∈ [i, q.conn], k = i ∨ ∃ q, w.peer c.room c.role.peer = some q ∧ k = q.conn := by
      intro k hk
      rcases mem_cons.mp hk with rfl | hk
      · exact .inl rfl
      · exact .inr ⟨q, hq, mem_singleton.mp hk⟩
    have hlk : ∀ u : Relay, Linked ((u.put a (.paired w.epochs)).put b (.paired w.epochs)).history a b := fun u =>
      ⟨w.epochs, mem_cons_of_mem _ mem_cons_self, mem_cons_self⟩
    refine ⟨?_, ?_, ?_⟩
    · simp only [if_true]
      rw [setPhase_put, setPhase_put]
      rcases hab with ⟨rfl, rfl⟩ | ⟨rfl, rfl⟩
      · have hfst := hcore.put_epoch hself nofun nofun (lt_succ_self _) fun k hk => absurd hk (hn k)
        refine hfst.put_epoch ((conn_modifyConn_of_ne hne).trans hoth) hxup hxli (lt_succ_self _) fun k hk => ?_
        rcases mem_cons.mp hk with heq | hk
        · cases heq
          exact ⟨_, conn_modifyConn_self hself, nofun, fun _ => ⟨hxro, hxrol⟩⟩
        · exact absurd hk (hn k)
      · have hfst := hcore.put_epoch hoth hxup hxli (lt_succ_self _) fun k hk => absurd hk (hn k)
        refine hfst.put_epoch ((conn_modifyConn_of_ne (.symm hne)).trans hself) nofun nofun (lt_succ_self _) fun k hk => ?_
        rcases mem_cons.mp hk with heq | hk
        · cases heq
          exact ⟨_, conn_modifyConn_self hoth, hxli, fun _ => ⟨hxro.symm, by rw [hxrol, Role.peer_peer]⟩⟩
        · exact absurd hk (hn k)
    · have hm : a ∈ [i, q.conn] ∧ b ∈ [i, q.conn] := by
        rcases hab with ⟨rfl, rfl⟩ | ⟨rfl, rfl⟩
        · exact ⟨mem_cons_self, mem_cons_of_mem _ mem_cons_self⟩
        · exact ⟨mem_cons_of_mem _ mem_cons_self, mem_cons_self⟩
      have hboth : ∀ u : Relay, Linked ((u.put a (.paired w.epochs)).put b (.paired w.epochs)).history i q.conn ∧
          Linked ((u.put a (.paired w.epochs)).put b (.paired w.epochs)).history q.conn i := by
        intro u
        obtain ⟨epoch, ha, hb⟩ := hlk u
        rcases hab with ⟨rfl, rfl⟩ | ⟨rfl, rfl⟩
        · exact ⟨⟨epoch, ha, hb⟩, ⟨epoch, hb, ha⟩⟩
        · exact ⟨⟨epoch, hb, ha⟩, ⟨epoch, ha, hb⟩⟩
      refine h.live.announced h.core.slots hc hup ho ((PutOnly.draw.put hm.1 _).put hm.2 _) ht
        (.inr ⟨rfl, .inl ⟨q, hq, hact⟩, fun q' hq' _ _ => ?_⟩) fun k d hd hrun hcan hrm hr => ?_
      · rw [hq] at hq'
        cases hq'
        exact (hboth _).1
      have hk : k = q.conn := h.core.slots.unique hd hx (by rw [hrun]; nofun) hxli (hrm.trans hxro.symm) (hr.trans hxrol.symm)
      rw [hk]
      exact (hboth _).2
    · exact ((Ordered.put (w := (w.activated c own).draw) h.ordered fun _ => rfl).put fun _ => rfl).setPhase _
  | @failed own q w' ho hq hrd hfu hw' =>
    obtain ⟨x, hx, hxro, hxrol, -, hxli⟩ := h.core.slots.slot hq
    have hcore : Core ((w.activated c own).draw.setPhase i .ending) := (h.core.setActive ho).draw.setPhase hc hlv (.inl rfl)
    have hself : ((w.activated c own).draw.setPhase i .ending).conns[i]? = some { c with phase := .ending } := conn_modifyConn_self hc
    have hn : ∀ k, .put k (.paired w.epochs) ∉ w.history := fun k hk => absurd (h.core.epoch_lt hk) (Nat.lt_irrefl _)
    have hput : PutOnly [i] (w.activated c own) w' := by
      rcases hw' with rfl | rfl
      · exact .draw
      · exact PutOnly.draw.put mem_cons_self _
    -- an end that runs can be sent to, as it has got nothing but `relay.waiting`
    have hnotr : x.phase ≠ .running := by
      intro hrun
      obtain ⟨q', hq', -, hqli⟩ := ready_iff.mp hrd
      rw [hq] at hq'
      cases hq'
      have hsh : x.queue.length ≤ 1 := by
        refine h.live.short hx hrun ((isCancelled_of_conn hx).symm.trans hqli) fun p hp => ?_
        rw [hxro, hxrol, Role.peer_peer, ho] at hp
        cases hp
        exact h.live.inactive hc hup ho
      have hsd : w.canSend q.conn = true := by
        have hlt : x.queue.length < queuePackets := Nat.lt_of_le_of_lt hsh (by decide)
        unfold canSend
        rw [hx, any_some, h.core.opened hx hrun, decide_eq_true hlt]
        rfl
      rw [hfu] at hsd
      cases hsd
    refine ⟨?_, ?_, ?_⟩
    · rcases hw' with rfl | rfl
      · exact hcore
      · rw [setPhase_put]
        exact hcore.put_epoch hself nofun nofun (lt_succ_self _) fun k hk => absurd hk (hn k)
    · refine h.live.announced h.core.slots hc hup ho hput (fun k hk => .inl (mem_singleton.mp hk)) (.inl rfl)
        fun k d hd hrun hcan hrm hr => ?_
      have hk : k = q.conn := h.core.slots.unique hd hx (by rw [hrun]; nofun) hxli (hrm.trans hxro.symm) (hr.trans hxrol.symm)
      rw [hk, hx] at hd
      cases hd
      exact absurd hrun hnotr
    · rcases hw' with rfl | rfl
      · exact .setPhase (w := (w.activated c own).draw) h.ordered _
      · exact (Ordered.put (w := (w.activated c own).draw) h.ordered fun _ => rfl).setPhase _

/-- A running connection forwards a packet. -/
theorem forward (hc : w.conns[i]? = some c) (hr : c.phase = .running) (packet : Packet) :
    Inv (if (w.forward i c packet).2 then (w.forward i c packet).1 else (w.forward i c packet).1.setPhase i .ending) := by
  have hlv : c.phase ≠ .dropped := by rw [hr]; nofun
  have hend : Inv (w.setPhase i .ending) := h.ending hc hlv
  unfold Relay.forward
  split
  · exact hend
  rename_i hcan
  rw [Bool.not_eq_true] at hcan
  split
  · exact hend
  rename_i q hq
  split
  · exact hend
  rename_i hrd
  rw [Bool.or_eq_true, not_or, Bool.not_eq_true', Bool.not_eq_false, Bool.not_eq_true] at hrd
  obtain ⟨x, hx, hxroo, hxro, -, hxli⟩ := h.core.slots.slot hq
  have hne : i ≠ q.conn := by
    intro heq
    rw [heq, hx] at hc
    cases hc
    exact absurd hxro (by cases c.role <;> nofun)
  unfold trySend
  split
  · rename_i w' hsd
    split at hsd
    · cases hsd
      have hlk := h.live.linked hc hr hcan hq hrd.1 hrd.2
      have hnoc : ∀ {k : ℕ} {d : Conn}, w.conns[k]? = some d → d.cancelled = false → .cancel k ∉ w.history := by
        intro k d hd hf hn
        obtain ⟨e, he, htrue⟩ := h.core.cancelled hn
        rw [hd] at he
        cases he
        rw [hf] at htrue
        cases htrue
      have hxca : x.cancelled = false := (isCancelled_of_conn hx).symm.trans hrd.2
      have hxup : x.phase ≠ .upgrading := by
        intro hup
        have ha := hrd.1
        rw [← hxroo, ← hxro] at hq
        rw [h.live.inactive hx hup hq] at ha
        cases ha
      have hsur : ∀ a b earlier, (.drop a :: earlier) <:+ w.history → Linked earlier a b → i ≠ b ∧ q.conn ≠ b := by
        intro a b earlier hs hp
        have hm : ∀ n ∈ earlier, n ∈ w.history := fun n hn => hs.subset (mem_cons_of_mem _ hn)
        obtain ⟨d, hd, hg⟩ := h.core.survivor (hs.subset mem_cons_self) (hp.mono hm)
        refine ⟨fun heq => ?_, fun heq => ?_⟩
        · rw [← heq, hc] at hd
          cases hd
          rcases hg with hg | hg
          · rw [hcan] at hg
            cases hg
          · exact hlv hg
        · rw [← heq, hx] at hd
          cases hd
          rcases hg with hg | hg
          · rw [hxca] at hg
            cases hg
          · exact hxli hg
      have hput : Core (w.put q.conn (.binary i packet)) := by
        refine h.core.put (fun d hd hup => ?_) (fun s p heq => ?_) nofun nofun nofun
        · rw [hx] at hd
          cases hd
          exact hxup hup
        · cases heq
          exact ⟨hlk, hnoc hc hcan, hnoc hx hxca, hsur⟩
      have hlive_put : Live (w.put q.conn (.binary i packet)) := by
        refine h.live.put fun d hd => ?_
        rw [hx] at hd
        cases hd
        obtain ⟨own, ho, -⟩ := h.core.slots.lease hc hlv
        refine ⟨own, ?_, h.live.active hc hr ho⟩
        rw [hxroo, hxro, Role.peer_peer]
        exact ho
      refine ⟨?_, ?_, h.ordered.forward hc hx packet⟩
      · refine hput.modifyConn (hput.slots.modifyConn (fun _ => ⟨rfl, rfl, rfl⟩) fun _ _ => .rfl)
          (fun _ => ⟨rfl, rfl, id⟩) (fun _ _ => id) (fun d hd hph => ?_) fun d hd hph => ?_
        · have hfr : d.queue = [] ∧ d.closed = false := hput.fresh hd hph
          exact hfr
        · have hop : d.closed = false := hput.opened hd hph
          exact hop
      · exact hlive_put.modifyConn (fun _ => ⟨rfl, rfl, id⟩) (fun _ _ => le_refl _) fun _ => .inl rfl
    · cases hsd
  · have hcanc : Inv (w.cancel q.conn) := h.cancel hx
    exact hcanc.ending ((conn_modifyConn_of_ne (.symm hne)).trans hc) hlv

/-- The lease of a connection goes, and what is in the other slot is cancelled by then. -/
theorem free (hc : w.conns[i]? = some c) (hlv : c.phase ≠ .dropped)
    (ho : ∀ q, w.peer c.room c.role.peer = some q → ∃ d, w.conns[q.conn]? = some d ∧ d.cancelled = true) :
    Inv (((w.setPeer c.room c.role none).setPhase i .dropped).note (.drop i)) := by
  obtain ⟨own, hown, -⟩ := h.core.slots.lease hc hlv
  have hg : ∀ (k : ℕ) (d : Conn), w.conns[k]? = some d → d.phase = .running → d.room = c.room → d.role.peer = c.role →
      d.cancelled = true := by
    intro k d hd hrun hrm hr
    obtain ⟨q, hq, rfl⟩ := h.core.slots.lease hd (by rw [hrun]; nofun)
    have hr' : d.role = c.role.peer := by rw [← hr, Role.peer_peer]
    rw [hrm, hr'] at hq
    obtain ⟨d', hd', hcan⟩ := ho q hq
    rw [hd] at hd'
    cases hd'
    exact hcan
  have hlive_free : Live (w.setPeer c.room c.role none) := h.live.free hg (isSome_of_peer hown)
  have hlive_drop : Live ((w.setPeer c.room c.role none).setPhase i .dropped) :=
    hlive_free.modifyConn (fun _ => ⟨rfl, rfl, id⟩) (fun _ _ => le_refl _) fun _ => .inr (.inr rfl)
  exact ⟨h.core.free hc hlv ho, hlive_drop.note _, .setPhase (w := w.setPeer c.room c.role none) h.ordered .dropped⟩

/-- The lease of a connection is dropped. -/
theorem dropLease (hc : w.conns[i]? = some c) (hlv : c.phase ≠ .dropped) : Inv (((w.dropLease c).setPhase i .dropped).note (.drop i)) := by
  obtain ⟨own, ho, hi⟩ := h.core.slots.lease hc hlv
  have hpeer_ne : c.role.peer ≠ c.role := by cases c.role <;> nofun
  have hoth : (w.setPeer c.room c.role none).peer c.room c.role.peer = w.peer c.room c.role.peer := by
    rw [peer_setPeer _ (isSome_of_peer ho), if_neg fun hsm => hpeer_ne hsm.2]
  unfold Relay.dropLease
  rw [ho]
  simp only
  rw [if_pos (h.core.slots.generation hc ho hi), hoth]
  cases hq : w.peer c.room c.role.peer with
  | none => exact h.free hc hlv fun q hq' => by rw [hq] at hq'; cases hq'
  | some q =>
    obtain ⟨x, hx, -⟩ := h.core.slots.slot hq
    have hne : q.conn ≠ i := fun heq => hpeer_ne (h.core.slots.slot_unique ho hq (hi.trans heq.symm)).2.symm
    have hcan : Inv (w.cancel q.conn) := h.cancel hx
    refine hcan.free ((conn_modifyConn_of_ne hne).trans hc) hlv fun q' hq' => ?_
    have hq' : w.peer c.room c.role.peer = some q' := hq'
    rw [hq] at hq'
    cases hq'
    exact ⟨_, conn_modifyConn_self hx, rfl⟩

/-- A connection takes a message out of its queue. -/
theorem recv {m : Message} {rest : List Message} (hc : w.conns[i]? = some c) (hr : c.phase = .running) (hq : c.queue = m :: rest) :
    Inv (w.modifyConn i fun c => { c with queue := rest, received := c.received ++ [m] }) := by
  have hsm : ∀ d, w.conns[i]? = some d → d = c := fun d hd => some.inj (hd.symm.trans hc)
  refine ⟨?_, ?_, ?_⟩
  · refine h.core.modifyConn (h.core.slots.modifyConn (fun _ => ⟨rfl, rfl, rfl⟩) fun _ _ => .rfl) (fun _ => ⟨rfl, rfl, id⟩)
      (fun _ _ => id) (fun d hd hup => ?_) fun d hd _ => ?_
    · have hup : d.phase = .upgrading := hup
      rw [hsm d hd, hr] at hup
      cases hup
    · have hop : d.closed = false := hsm d hd ▸ h.core.opened hc hr
      exact hop
  · refine h.live.modifyConn (fun _ => ⟨rfl, rfl, id⟩) (fun d hd => ?_) fun _ => .inl rfl
    rw [hsm d hd, hq]
    exact le_succ _
  · refine h.ordered.modifyConn fun d hd => ?_
    rw [hsm d hd, hq]
    exact ⟨by rw [append_assoc, singleton_append], rfl⟩

/-- The receiver of a connection is dropped. -/
theorem close (hc : w.conns[i]? = some c) (hlv : c.phase ≠ .dropped) :
    Inv (w.modifyConn i fun c => { c with phase := .ending, closed := true }) := by
  have hsm : ∀ d, w.conns[i]? = some d → d = c := fun d hd => some.inj (hd.symm.trans hc)
  refine ⟨?_, ?_, ?_⟩
  · refine h.core.modifyConn (h.core.slots.modifyConn (fun _ => ⟨rfl, rfl, rfl⟩) fun d hd => ?_) (fun _ => ⟨rfl, rfl, id⟩)
      (fun d hd hdr => ?_) (fun _ _ => nofun) fun _ _ => nofun
    · exact ⟨nofun, fun hdr => absurd hdr (hsm d hd ▸ hlv)⟩
    · exact absurd hdr (hsm d hd ▸ hlv)
  · exact h.live.modifyConn (fun _ => ⟨rfl, rfl, id⟩) (fun _ _ => le_refl _) fun _ => .inr (.inl rfl)
  · exact h.ordered.modifyConn fun _ _ => ⟨rfl, rfl⟩

/-- The steps of the connections. -/
theorem step {authorized : Text → Text → Bool} {e : RelayEvent} {w' : Relay} (hd : w.EpochDrawn e)
    (hst : RelayEvent.step authorized w e = some w') : Inv w' := by
  cases e with
  | reserve room role token =>
    cases hst
    exact h.reserve authorized
  | announce i drawn =>
    simp only [RelayEvent.step] at hst
    split at hst
    · rename_i c hc
      split at hst
      · rename_i hup
        cases hst
        refine h.announce hc hup fun hf => ?_
        subst hf
        exact hd c hc
      · cases hst
    · cases hst
  | forward i packet =>
    simp only [RelayEvent.step] at hst
    split at hst
    · rename_i c hc
      split at hst
      · rename_i hr
        cases hst
        exact h.forward hc hr packet
      · cases hst
    · cases hst
  | recv i =>
    simp only [RelayEvent.step] at hst
    split at hst
    · rename_i c hc
      split at hst
      · rename_i m rest hr hq
        cases hst
        exact h.recv hc hr hq
      · cases hst
    · cases hst
  | close i =>
    simp only [RelayEvent.step] at hst
    split at hst
    · rename_i c hc
      split at hst
      · cases hst
      · rename_i hlv
        cases hst
        exact h.close hc hlv
    · cases hst
  | drop i =>
    simp only [RelayEvent.step] at hst
    split at hst
    · rename_i c hc
      split at hst
      · cases hst
      · rename_i hlv
        cases hst
        exact h.dropLease hc hlv
    · cases hst

end

end Inv

/-- No connection has come yet. -/
theorem inv_new (configs : List RoomConfig) : Inv (new configs) := by
  have hn : ∀ {room role p}, (new configs).peer room role ≠ some p := by
    intro room role p hp
    obtain ⟨r, hr, hp⟩ := bind_eq_some_iff.mp hp
    obtain ⟨config, -, rfl⟩ := map_eq_some_iff.mp hr
    cases hp
  exact
    { core :=
        { slots := ⟨fun hp => absurd hp hn, nofun⟩
          fresh := nofun
          opened := nofun
          cancelled := nofun
          dropped := nofun
          epoch_lt := nofun
          epoch_ends := nofun
          survivor := nofun
          packets := fun _ _ _ _ hs => nomatch suffix_nil.mp hs }
      live := ⟨nofun, nofun, nofun, nofun⟩
      ordered := fun _ _ => rfl }

instance : DecidableRel EpochDrawn := fun w e =>
  match e with
  | .announce i false => inferInstanceAs (Decidable (∀ c ∈ w.conns[i]?, w.ready c.room c.role.peer = false))
  | .announce _ true | .reserve _ _ _ | .forward _ _ | .recv _ | .close _ | .drop _ => isTrue trivial

end Relay

/-! ### Isolation of links -/

/-- **Isolation**: in a run in which no connection that finds the other end ready fails to draw
an epoch, packets go between the two ends of a link only, in order and while neither is
cancelled, no end gets any after the other end is gone, and no role of a room is leased
twice. -/
theorem relay_isolated (authorized : Text → Text → Bool) (configs : List RoomConfig) {events : List RelayEvent}
    (h : Meets (RelayEvent.step authorized) Relay.EpochDrawn (.new configs) events) :
    Along (RelayEvent.step authorized) Relay.Isolated (.new configs) events :=
  along_of_meets (RelayEvent.step authorized) (fun _ => Relay.Inv.isolated) (fun _ _ _ hinv hc hst => hinv.step hc hst)
    (Relay.inv_new configs) h

/-- A room with a desktop and a mobile; the desktop waits, and the mobile comes. -/
def oneRoom : RoomConfig := ⟨"host".toList, "d".toList, "m".toList⟩

def bothCome : List RelayEvent :=
  [.reserve "host".toList .desktop "d".toList, .announce 0 true, .reserve "host".toList .mobile "m".toList]

theorem relay_isolated_pair :
    Meets (RelayEvent.step fun token hash => token == hash) Relay.EpochDrawn (.new [oneRoom])
        (bothCome ++ [.announce 1 true, .forward 0 [1], .recv 1, .recv 1, .drop 0]) ∧
      Along (RelayEvent.step fun token hash => token == hash) Relay.Isolated (.new [oneRoom])
        (bothCome ++ [RelayEvent.announce 1 true, RelayEvent.forward 0 [1], RelayEvent.recv 1, RelayEvent.recv 1, RelayEvent.drop 0]) := by
  have hm : Meets (RelayEvent.step fun token hash => token == hash) Relay.EpochDrawn (.new [oneRoom])
      (bothCome ++ [.announce 1 true, .forward 0 [1], .recv 1, .recv 1, .drop 0]) := by decide
  exact ⟨hm, relay_isolated _ _ hm⟩

/-- The mobile draws no epoch, but has become active; the desktop's packet enters its queue. -/
theorem unpaired_packet :
    ¬ ∀ (authorized : Text → Text → Bool) (configs : List RoomConfig) (events : List RelayEvent),
      Along (RelayEvent.step authorized) Relay.Isolated (.new configs) events := by
  intro h
  have halo := h (fun token hash => token == hash) [oneRoom] (bothCome ++ [.announce 1 false, .forward 0 [1]])
  obtain ⟨w, hrun, hhist⟩ : ∃ w, run (RelayEvent.step fun token hash => token == hash) (.new [oneRoom])
      (bothCome ++ [RelayEvent.announce 1 false, .forward 0 [1]]) = some w ∧
      w.history = [.put 1 (.binary 0 [1]), .put 0 .waiting] := ⟨_, rfl, rfl⟩
  have hald := (halo.last hrun).packets 0 1 [1] [.put 0 .waiting] (hhist ▸ suffix_refl _)
  obtain ⟨epoch, hself, -⟩ := hald.linked
  cases mem_singleton.mp hself

end Pebrel.Link
