import Pebrel.Link.Relay

/-!
# What the relay keeps

Three layers of invariants of the relay. `Slots` is about the slots of the rooms:
each belongs to one live lease. `Core` is about the history: what it says of the
connections stays true. `Live` is about the two ends of a room: what an end has
got before and after the other one has announced itself. Each change that the
critical sections are made of has a lemma in each layer.
-/

namespace Pebrel.Link

open Library List Option

theorem Linked.mono {before after : List Note} {a b : ℕ} (h : Linked before a b) (hs : ∀ n ∈ before, n ∈ after) : Linked after a b := by
  obtain ⟨epoch, ha, hb⟩ := h
  exact ⟨epoch, hs _ ha, hs _ hb⟩

/-- A note that is about no epoch links nobody. -/
theorem Linked.of_cons {n : Note} {history : List Note} {a b : ℕ} (h : Linked (n :: history) a b)
    (hn : ∀ k epoch, n ≠ .put k (.paired epoch)) : Linked history a b := by
  obtain ⟨epoch, ha, hb⟩ := h
  refine ⟨epoch, ?_, ?_⟩
  · exact (mem_cons.mp ha).resolve_left fun heq => hn _ _ heq.symm
  · exact (mem_cons.mp hb).resolve_left fun heq => hn _ _ heq.symm

/-! ### Connections and slots -/

namespace Relay

variable {w : Relay} {room room' : Text} {role role' : Role} {i j : ℕ} {c d : Conn} {p q : Peer} {f : Conn → Conn}

@[simp] theorem conns_setPeer (o : Option Peer) : (w.setPeer room role o).conns = w.conns := rfl

@[simp] theorem conns_note (n : Note) : (w.note n).conns = w.conns := rfl

theorem peer_setPeer (o : Option Peer) (h : (w.rooms room).isSome) :
    (w.setPeer room role o).peer room' role' = if room' = room ∧ role' = role then o else w.peer room' role' := by
  obtain ⟨r, hr⟩ := isSome_iff_exists.mp h
  unfold setPeer peer
  simp only [Function.update_apply, hr, map_some]
  by_cases hrm : room' = room
  · subst hrm
    by_cases hrole : role' = role
    · simp [hrole]
    · simp [hrole, hr]
  · simp [hrm]

theorem isSome_of_peer (h : w.peer room role = some p) : (w.rooms room).isSome := by
  obtain ⟨r, hr, -⟩ := bind_eq_some_iff.mp h
  rw [hr]
  rfl

theorem conns_modifyConn : (w.modifyConn i f).conns[j]? = (w.conns[j]?).map fun c => if i = j then f c else c := by
  unfold modifyConn
  rw [getElem?_modify]
  rfl

/-- A connection after a change is one from before, changed where it is the one in question. -/
theorem conn_modifyConn (h : (w.modifyConn i f).conns[j]? = some d) : ∃ c, w.conns[j]? = some c ∧ d = if i = j then f c else c := by
  rw [conns_modifyConn] at h
  obtain ⟨c, hc, hd⟩ := map_eq_some_iff.mp h
  exact ⟨c, hc, hd.symm⟩

theorem conn_modifyConn_self (h : w.conns[i]? = some c) : (w.modifyConn i f).conns[i]? = some (f c) := by
  rw [conns_modifyConn, h, map_some, if_pos rfl]

theorem conn_modifyConn_of_ne (h : i ≠ j) : (w.modifyConn i f).conns[j]? = w.conns[j]? := by
  simp only [conns_modifyConn, if_neg h, Option.map_id']

theorem conns_grant (h : w.conns[j]? = some c) : (w.grant room role).conns[j]? = some c := by
  have hlt := (List.getElem?_eq_some_iff.mp h).1
  exact (getElem?_append_left hlt).trans h

theorem conn_grant (h : (w.grant room role).conns[j]? = some d) :
    w.conns[j]? = some d ∨ j = w.conns.length ∧ d = ⟨room, role, w.generation + 1, .upgrading, false, false, [], [], []⟩ := by
  unfold grant at h
  rw [conns_setPeer] at h
  rcases Nat.lt_trichotomy j w.conns.length with hlt | heq | hgt
  · rw [getElem?_append_left hlt] at h
    exact .inl h
  · rw [heq, getElem?_concat_length] at h
    exact .inr ⟨heq, (some.inj h).symm⟩
  · have hn : (w.conns ++ [(⟨room, role, w.generation + 1, .upgrading, false, false, [], [], []⟩ : Conn)])[j]? = none := by
      rw [List.getElem?_eq_none_iff, length_append, length_singleton]
      exact hgt
    rw [hn] at h
    cases h

theorem peer_grant (h : (w.rooms room).isSome) : (w.grant room role).peer room' role' =
      if room' = room ∧ role' = role then some ⟨w.generation + 1, w.conns.length, false⟩ else w.peer room' role' := by
  let conn : Conn := ⟨room, role, w.generation + 1, .upgrading, false, false, [], [], []⟩
  exact peer_setPeer (w := { w with generation := w.generation + 1, conns := w.conns ++ [conn] }) _ h

/-- Slots and live leases belong together. -/
structure Slots (w : Relay) : Prop where
  slot : ∀ {room role p}, w.peer room role = some p →
    ∃ c, w.conns[p.conn]? = some c ∧ c.room = room ∧ c.role = role ∧ c.generation = p.generation ∧ c.phase ≠ .dropped
  lease : ∀ {i : ℕ} {c : Conn}, w.conns[i]? = some c → c.phase ≠ .dropped → ∃ p, w.peer c.room c.role = some p ∧ p.conn = i

namespace Slots

section
variable (h : Slots w)
include h

theorem generation (hc : w.conns[i]? = some c) (hp : w.peer c.room c.role = some p) (hi : p.conn = i) : p.generation = c.generation := by
  obtain ⟨d, hd, -, -, hg, -⟩ := h.slot hp
  rw [hi, hc] at hd
  rw [some.inj hd, hg]

/-- A connection is in one slot at most. -/
theorem slot_unique (hp : w.peer room role = some p) (hq : w.peer room' role' = some q)
    (hconn : p.conn = q.conn) : room = room' ∧ role = role' := by
  obtain ⟨c, hc, rfl, rfl, -⟩ := h.slot hp
  obtain ⟨d, hd, rfl, rfl, -⟩ := h.slot hq
  rw [hconn, hd] at hc
  rw [some.inj hc]
  exact ⟨rfl, rfl⟩

theorem unique (hc : w.conns[i]? = some c) (hd : w.conns[j]? = some d) (hcl : c.phase ≠ .dropped)
    (hdl : d.phase ≠ .dropped) (hrm : c.room = d.room) (hr : c.role = d.role) : i = j := by
  obtain ⟨p, hp, hi⟩ := h.lease hc hcl
  obtain ⟨q, hq, hj⟩ := h.lease hd hdl
  rw [hrm, hr, hq] at hp
  rw [← hi, ← hj, some.inj hp]

/-- A change of a connection that leaves its room, its role and its generation, and does not
drop it. -/
theorem modifyConn (hf : ∀ c, (f c).room = c.room ∧ (f c).role = c.role ∧ (f c).generation = c.generation)
    (hlv : ∀ c, w.conns[i]? = some c → ((f c).phase = .dropped ↔ c.phase = .dropped)) : Slots (w.modifyConn i f) where
  slot {_ _ p} hp := by
    obtain ⟨c, hc, hrm, hr, hg, hph⟩ := h.slot hp
    by_cases hi : i = p.conn
    · rw [← hi] at hc ⊢
      refine ⟨f c, conn_modifyConn_self hc, (hf c).1.trans hrm, (hf c).2.1.trans hr, (hf c).2.2.trans hg, ?_⟩
      exact fun hdr => hph ((hlv c hc).mp hdr)
    · exact ⟨c, (conn_modifyConn_of_ne hi).trans hc, hrm, hr, hg, hph⟩
  lease {j d} hd hph := by
    obtain ⟨c, hc, rfl⟩ := conn_modifyConn hd
    by_cases hi : i = j
    · subst hi
      rw [if_pos rfl] at hph ⊢
      rw [(hf c).1, (hf c).2.1]
      exact h.lease hc fun hdr => hph ((hlv c hc).mpr hdr)
    · rw [if_neg hi] at hph ⊢
      exact h.lease hc hph

theorem setPhase {phase : Phase} (hlv : ∀ c, w.conns[i]? = some c → c.phase ≠ .dropped)
    (hph : phase ≠ .dropped) : Slots (w.setPhase i phase) :=
  h.modifyConn (fun _ => ⟨rfl, rfl, rfl⟩) fun c hc => ⟨fun hdr => absurd hdr hph, fun hdr => absurd hdr (hlv c hc)⟩

theorem note (n : Note) : Slots (w.note n) := ⟨h.slot, h.lease⟩

theorem setActive (hp : w.peer room role = some p) : Slots (w.setPeer room role (some { p with active := true })) where
  slot {room' role' q} hq := by
    rw [peer_setPeer _ (isSome_of_peer hp)] at hq
    split at hq
    · rename_i hsm
      cases hq
      rw [hsm.1, hsm.2]
      obtain ⟨c, hc⟩ := h.slot hp
      exact ⟨c, hc⟩
    · exact h.slot hq
  lease {i c} hc hlv := by
    obtain ⟨q, hq, hi⟩ := h.lease hc hlv
    rw [peer_setPeer _ (isSome_of_peer hp)]
    split
    · rename_i hsm
      rw [hsm.1, hsm.2, hp] at hq
      cases hq
      exact ⟨_, rfl, hi⟩
    · exact ⟨q, hq, hi⟩

/-- The lease of a connection is dropped, and its slot is free. -/
theorem free (hc : w.conns[i]? = some c) (hlv : c.phase ≠ .dropped) : Slots ((w.setPhase i .dropped).setPeer c.room c.role none) where
  slot {room' role' q} hq := by
    obtain ⟨p, hp, hi⟩ := h.lease hc hlv
    rw [peer_setPeer _ (isSome_of_peer (w := w.setPhase i .dropped) hp)] at hq
    split at hq
    · cases hq
    rename_i hne
    obtain ⟨d, hd, hrm, hr, hg, hph⟩ := h.slot hq
    have ho : i ≠ q.conn := by
      intro heq
      rw [← heq, hc] at hd
      cases hd
      exact hne ⟨hrm.symm, hr.symm⟩
    exact ⟨d, (conn_modifyConn_of_ne ho).trans hd, hrm, hr, hg, hph⟩
  lease {j d'} hd' hph := by
    obtain ⟨p, hp, hi⟩ := h.lease hc hlv
    obtain ⟨d, hd, rfl⟩ := conn_modifyConn hd'
    by_cases hij : i = j
    · rw [if_pos hij] at hph
      exact absurd rfl hph
    rw [if_neg hij] at hph ⊢
    obtain ⟨q, hq, hj⟩ := h.lease hd hph
    refine ⟨q, ?_, hj⟩
    rw [peer_setPeer _ (isSome_of_peer (w := w.setPhase i .dropped) hp), if_neg]
    · exact hq
    · rintro ⟨hrm, hr⟩
      exact hij (h.unique hc hd hlv hph hrm.symm hr.symm)

end

end Slots

/-! ### What happened -/

/-- What the history says of the connections. -/
structure Core (w : Relay) : Prop where
  slots : Slots w
  /-- A connection that has not announced itself has got nothing. -/
  fresh : ∀ {i : ℕ} {c : Conn}, w.conns[i]? = some c → c.phase = .upgrading → c.queue = [] ∧ c.closed = false
  opened : ∀ {i : ℕ} {c : Conn}, w.conns[i]? = some c → c.phase = .running → c.closed = false
  cancelled : ∀ {i}, .cancel i ∈ w.history → ∃ c, w.conns[i]? = some c ∧ c.cancelled = true
  dropped : ∀ {i}, .drop i ∈ w.history → ∃ c, w.conns[i]? = some c ∧ c.phase = .dropped
  epoch_lt : ∀ {i epoch}, .put i (.paired epoch) ∈ w.history → epoch < w.epochs
  /-- An epoch is that of two ends of a room. -/
  epoch_ends : ∀ {a b epoch}, .put a (.paired epoch) ∈ w.history → .put b (.paired epoch) ∈ w.history → a ≠ b →
    ∃ c d, w.conns[a]? = some c ∧ w.conns[b]? = some d ∧ d.room = c.room ∧ d.role = c.role.peer
  survivor : ∀ {a b}, .drop a ∈ w.history → Linked w.history a b →
    ∃ d, w.conns[b]? = some d ∧ (d.cancelled = true ∨ d.phase = .dropped)
  packets : ∀ s t packet before, (.put t (.binary s packet) :: before) <:+ w.history → Allowed before s t

namespace Core

variable {k a b : ℕ} {m : Message} {epoch : ℕ}

theorem exists_modifyConn {P : Conn → Prop} (hP : ∀ c, w.conns[i]? = some c → P c → P (f c))
    (h : ∃ c, w.conns[k]? = some c ∧ P c) : ∃ c, (w.modifyConn i f).conns[k]? = some c ∧ P c := by
  obtain ⟨c, hc, hp⟩ := h
  by_cases hi : i = k
  · subst hi
    exact ⟨f c, conn_modifyConn_self hc, hP c hc hp⟩
  · exact ⟨c, (conn_modifyConn_of_ne hi).trans hc, hp⟩

/-- A change of one connection that leaves its place and does not bring it back to life. -/
theorem modifyConn (h : Core w) (hs : Slots (w.modifyConn i f))
    (hf : ∀ c, (f c).room = c.room ∧ (f c).role = c.role ∧ (c.cancelled = true → (f c).cancelled = true))
    (hdr : ∀ c, w.conns[i]? = some c → c.phase = .dropped → (f c).phase = .dropped)
    (hfr : ∀ c, w.conns[i]? = some c → (f c).phase = .upgrading → (f c).queue = [] ∧ (f c).closed = false)
    (hop : ∀ c, w.conns[i]? = some c → (f c).phase = .running → (f c).closed = false) : Core (w.modifyConn i f) where
  slots := hs
  fresh {j d} hd hph := by
    obtain ⟨c, hc, rfl⟩ := conn_modifyConn hd
    split at hph
    · rename_i hi
      rw [if_pos hi]
      exact hfr c (hi ▸ hc) hph
    · rename_i hi
      rw [if_neg hi]
      exact h.fresh hc hph
  opened {j d} hd hph := by
    obtain ⟨c, hc, rfl⟩ := conn_modifyConn hd
    split at hph
    · rename_i hi
      rw [if_pos hi]
      exact hop c (hi ▸ hc) hph
    · rename_i hi
      rw [if_neg hi]
      exact h.opened hc hph
  cancelled hn := exists_modifyConn (fun c _ => (hf c).2.2) (h.cancelled hn)
  dropped hn := exists_modifyConn hdr (h.dropped hn)
  epoch_lt := h.epoch_lt
  epoch_ends {a b _} ha hb hne := by
    obtain ⟨c, d, hc, hd, hrm, hr⟩ := h.epoch_ends ha hb hne
    obtain ⟨c', hc', hcro, hcrol⟩ := exists_modifyConn (i := i) (f := f) (P := fun x => x.room = c.room ∧ x.role = c.role)
      (fun x _ hx => ⟨(hf x).1.trans hx.1, (hf x).2.1.trans hx.2⟩) ⟨c, hc, rfl, rfl⟩
    obtain ⟨d', hd', hdro, hdrol⟩ := exists_modifyConn (i := i) (f := f) (P := fun x => x.room = d.room ∧ x.role = d.role)
      (fun x _ hx => ⟨(hf x).1.trans hx.1, (hf x).2.1.trans hx.2⟩) ⟨d, hd, rfl, rfl⟩
    exact ⟨c', d', hc', hd', by rw [hdro, hcro, hrm], by rw [hdrol, hcrol, hr]⟩
  survivor ha hlk := by
    refine exists_modifyConn (fun c hc hg => ?_) (h.survivor ha hlk)
    rcases hg with hcan | hg
    · exact .inl ((hf c).2.2 hcan)
    · exact .inr (hdr c hc hg)
  packets := h.packets

theorem packets_cons {n : Note} (h : ∀ s t packet before, (.put t (.binary s packet) :: before) <:+ w.history → Allowed before s t)
    (hn : ∀ s t packet, n = .put t (.binary s packet) → Allowed w.history s t) :
    ∀ s t packet before, (.put t (.binary s packet) :: before) <:+ n :: w.history → Allowed before s t := by
  intro s t packet before hs
  rcases suffix_cons_iff.mp hs with heq | hs
  · obtain ⟨hnote, hb⟩ := List.cons.inj heq
    rw [hb]
    exact hn s t packet hnote.symm
  · exact h s t packet before hs

section
variable (h : Core w)
include h

/-- The token of a connection is cancelled. -/
theorem cancel (hc : w.conns[i]? = some c) : Core (w.cancel i) := by
  have hm : Core (w.modifyConn i fun c => { c with cancelled := true }) := by
    refine h.modifyConn (h.slots.modifyConn (fun _ => ⟨rfl, rfl, rfl⟩) fun _ _ => .rfl) (fun _ => ⟨rfl, rfl, fun _ => rfl⟩)
      (fun _ _ hdr => hdr) (fun d hd hph => ?_) fun d hd hph => ?_
    · have hfr : d.queue = [] ∧ d.closed = false := h.fresh hd hph
      exact hfr
    · have hop : d.closed = false := h.opened hd hph
      exact hop
  exact
    { slots := hm.slots.note _
      fresh := hm.fresh
      opened := hm.opened
      cancelled := fun {k} hn => by
        rcases mem_cons.mp hn with heq | hn
        · cases heq
          exact ⟨_, conn_modifyConn_self hc, rfl⟩
        · exact hm.cancelled hn
      dropped := fun hn => hm.dropped ((mem_cons.mp hn).resolve_left nofun)
      epoch_lt := fun hn => hm.epoch_lt ((mem_cons.mp hn).resolve_left nofun)
      epoch_ends := fun ha hb => hm.epoch_ends ((mem_cons.mp ha).resolve_left nofun) ((mem_cons.mp hb).resolve_left nofun)
      survivor := fun ha hlk => hm.survivor ((mem_cons.mp ha).resolve_left nofun) (.of_cons hlk nofun)
      packets := packets_cons hm.packets nofun }

/-- A message is put in the queue of a connection that has announced itself. -/
theorem put (hph : ∀ c, w.conns[i]? = some c → c.phase ≠ .upgrading) (hbin : ∀ s packet, m = .binary s packet → Allowed w.history s i)
    (hlt : ∀ epoch, m = .paired epoch → epoch < w.epochs)
    (hlv : ∀ epoch, m = .paired epoch → .drop i ∉ w.history)
    (hends : ∀ a epoch, m = .paired epoch → .put a (.paired epoch) ∈ w.history → .drop a ∉ w.history ∧
      (a ≠ i → ∃ c d, w.conns[a]? = some c ∧ w.conns[i]? = some d ∧ d.room = c.room ∧ d.role = c.role.peer)) :
    Core (w.put i m) := by
  have hmod : Core (w.modifyConn i fun c => { c with queue := c.queue ++ [m] }) := by
    refine h.modifyConn (h.slots.modifyConn (fun _ => ⟨rfl, rfl, rfl⟩) fun _ _ => .rfl) (fun _ => ⟨rfl, rfl, id⟩)
      (fun _ _ hdr => hdr) (fun d hd hup => ?_) fun d hd hrun => ?_
    · exact absurd hup (hph d hd)
    · have hop : d.closed = false := h.opened hd hrun
      exact hop
  have hold : ∀ {a epoch}, .put a (.paired epoch) ∈ .put i m :: w.history →
      a = i ∧ m = .paired epoch ∨ .put a (.paired epoch) ∈ w.history := by
    intro a epoch hmem
    rcases mem_cons.mp hmem with heq | hmem
    · cases heq
      exact .inl ⟨rfl, rfl⟩
    · exact .inr hmem
  have hrel : ∀ {a epoch}, m = .paired epoch → .put a (.paired epoch) ∈ w.history → a ≠ i →
      ∃ c d, (w.put i m).conns[a]? = some c ∧ (w.put i m).conns[i]? = some d ∧ d.room = c.room ∧ d.role = c.role.peer := by
    intro a epoch hm ha hne
    obtain ⟨c, d, hc, hd, hrm, hr⟩ := (hends a epoch hm ha).2 hne
    exact ⟨c, _, (conn_modifyConn_of_ne (.symm hne)).trans hc, conn_modifyConn_self hd, hrm, hr⟩
  exact
    { slots := hmod.slots.note _
      fresh := hmod.fresh
      opened := hmod.opened
      cancelled := fun hn => hmod.cancelled ((mem_cons.mp hn).resolve_left nofun)
      dropped := fun hn => hmod.dropped ((mem_cons.mp hn).resolve_left nofun)
      epoch_lt := fun hn => by
        rcases hold hn with ⟨-, hm⟩ | hn
        · exact hlt _ hm
        · exact h.epoch_lt hn
      epoch_ends := fun {a b epoch} ha hb hne => by
        rcases hold ha with ⟨hai, hm⟩ | haold
        · rcases hold hb with ⟨hbi, -⟩ | hbold
          · exact absurd (hai.trans hbi.symm) hne
          · rw [hai] at hne ⊢
            obtain ⟨c, d, hc, hd, hrm, hr⟩ := hrel hm hbold (.symm hne)
            exact ⟨d, c, hd, hc, hrm.symm, by rw [hr, Role.peer_peer]⟩
        · rcases hold hb with ⟨hbi, hm⟩ | hbold
          · rw [hbi] at hne ⊢
            exact hrel hm haold hne
          · exact hmod.epoch_ends haold hbold hne
      survivor := fun {a b} hdr hlk => by
        have hdr := (mem_cons.mp hdr).resolve_left nofun
        obtain ⟨epoch, ha, hb⟩ := hlk
        rcases hold ha with ⟨rfl, hm⟩ | ha
        · exact absurd hdr (hlv epoch hm)
        · rcases hold hb with ⟨-, hm⟩ | hb
          · exact absurd hdr (hends a epoch hm ha).1
          · exact hmod.survivor hdr ⟨epoch, ha, hb⟩
      packets := packets_cons hmod.packets fun s t packet heq => by
        cases heq
        exact hbin s packet rfl }

/-- An epoch is put in the queue of a live connection; who else has it is the other end. -/
theorem put_epoch (hd : w.conns[i]? = some d) (hup : d.phase ≠ .upgrading) (hlv : d.phase ≠ .dropped) (hlt : epoch < w.epochs)
    (hends : ∀ a, .put a (.paired epoch) ∈ w.history → ∃ c, w.conns[a]? = some c ∧ c.phase ≠ .dropped ∧
      (a ≠ i → d.room = c.room ∧ d.role = c.role.peer)) : Core (w.put i (.paired epoch)) := by
  have hn : ∀ {a : ℕ} {c : Conn}, w.conns[a]? = some c → c.phase ≠ .dropped → .drop a ∉ w.history := by
    intro a c hc hph hdr
    obtain ⟨c', hc', hg⟩ := h.dropped hdr
    rw [hc] at hc'
    cases hc'
    exact hph hg
  have hsm : ∀ e, w.conns[i]? = some e → e = d := fun e he => some.inj (he.symm.trans hd)
  refine h.put (fun e he => hsm e he ▸ hup) nofun (fun e he => ?_) (fun _ _ => hn hd hlv) fun a e he ha => ?_
  · cases he
    exact hlt
  · cases he
    obtain ⟨c, hc, hph, hr⟩ := hends a ha
    exact ⟨hn hc hph, fun hne => ⟨c, d, hc, hd, (hr hne).1, (hr hne).2⟩⟩

/-- An epoch is drawn. -/
theorem draw : Core w.draw :=
  { slots := ⟨h.slots.slot, h.slots.lease⟩
    fresh := h.fresh
    opened := h.opened
    cancelled := h.cancelled
    dropped := h.dropped
    epoch_lt := fun hn => Nat.lt_succ_of_lt (h.epoch_lt hn)
    epoch_ends := h.epoch_ends
    survivor := h.survivor
    packets := h.packets }

/-- A connection goes on to `phase`. -/
theorem setPhase {phase : Phase} (hc : w.conns[i]? = some c) (hlv : c.phase ≠ .dropped)
    (hph : phase = .ending ∨ phase = .running ∧ c.closed = false) : Core (w.setPhase i phase) := by
  have hsm : ∀ d, w.conns[i]? = some d → d = c := fun d hd => some.inj (hd.symm.trans hc)
  refine h.modifyConn (h.slots.setPhase (fun d hd => hsm d hd ▸ hlv) ?_) (fun _ => ⟨rfl, rfl, id⟩)
    (fun d hd hdr => absurd hdr (hsm d hd ▸ hlv)) (fun d hd hup => ?_) fun d hd hr => ?_
  · rcases hph with rfl | ⟨rfl, -⟩ <;> nofun
  · rcases hph with rfl | ⟨rfl, -⟩ <;> cases hup
  · rcases hph with rfl | ⟨-, ho⟩
    · cases hr
    · rw [hsm d hd]
      exact ho

/-- A connection comes to be active. -/
theorem setActive (hp : w.peer room role = some p) : Core (w.setPeer room role (some { p with active := true })) :=
  { slots := h.slots.setActive hp
    fresh := h.fresh
    opened := h.opened
    cancelled := h.cancelled
    dropped := h.dropped
    epoch_lt := h.epoch_lt
    epoch_ends := h.epoch_ends
    survivor := h.survivor
    packets := h.packets }

/-- The lease of a connection is dropped; the other end, where there is one, is cancelled. -/
theorem free (hc : w.conns[i]? = some c) (hlv : c.phase ≠ .dropped)
    (ho : ∀ q, w.peer c.room c.role.peer = some q → ∃ d, w.conns[q.conn]? = some d ∧ d.cancelled = true) :
    Core (((w.setPeer c.room c.role none).setPhase i .dropped).note (.drop i)) := by
  have hsm : ∀ d, w.conns[i]? = some d → d = c := fun d hd => some.inj (hd.symm.trans hc)
  have hm : Slots ((w.setPeer c.room c.role none).setPhase i .dropped) := h.slots.free hc hlv
  have hconn : ∀ {k : ℕ} {d : Conn}, ((w.setPeer c.room c.role none).setPhase i .dropped).conns[k]? = some d →
      d.phase ≠ .dropped → w.conns[k]? = some d := by
    intro k d hd hph
    obtain ⟨c', hc', rfl⟩ := conn_modifyConn hd
    split at hph
    · exact absurd rfl hph
    · rename_i hk
      rw [if_neg hk]
      exact hc'
  have hs : ∀ {P : Conn → Prop} {k : ℕ}, (∀ d : Conn, P d → P { d with phase := .dropped }) → (∃ d, w.conns[k]? = some d ∧ P d) →
      ∃ d, ((w.setPeer c.room c.role none).setPhase i .dropped).conns[k]? = some d ∧ P d := fun hP hex =>
    exists_modifyConn (w := w.setPeer c.room c.role none) (fun d _ => hP d) hex
  exact
    { slots := hm.note _
      fresh := fun hd hph => h.fresh (hconn hd (by rw [hph]; nofun)) hph
      opened := fun hd hph => h.opened (hconn hd (by rw [hph]; nofun)) hph
      cancelled := fun hn => hs (fun _ hd => hd) (h.cancelled ((mem_cons.mp hn).resolve_left nofun))
      dropped := fun {k} hn => by
        rcases mem_cons.mp hn with heq | hn
        · cases heq
          exact ⟨_, conn_modifyConn_self hc, rfl⟩
        · exact hs (fun _ _ => rfl) (h.dropped hn)
      epoch_lt := fun hn => h.epoch_lt ((mem_cons.mp hn).resolve_left nofun)
      epoch_ends := fun {a b _} ha hb hne => by
        obtain ⟨ca, cb, hca, hcb, hrm, hr⟩ := h.epoch_ends ((mem_cons.mp ha).resolve_left nofun) ((mem_cons.mp hb).resolve_left nofun) hne
        obtain ⟨da, hda, hdar, hdaro⟩ := hs (P := fun x => x.room = ca.room ∧ x.role = ca.role) (fun _ hx => hx) ⟨ca, hca, rfl, rfl⟩
        obtain ⟨db, hdb, hdbr, hdbro⟩ := hs (P := fun x => x.room = cb.room ∧ x.role = cb.role) (fun _ hx => hx) ⟨cb, hcb, rfl, rfl⟩
        exact ⟨da, db, hda, hdb, by rw [hdbr, hdar, hrm], by rw [hdbro, hdaro, hr]⟩
      survivor := fun {a b} hdr hlk => by
        have hlk : Linked w.history a b := .of_cons hlk nofun
        rcases mem_cons.mp hdr with heq | hdr
        · cases heq
          by_cases hb : b = i
          · rw [hb]
            exact ⟨_, conn_modifyConn_self hc, .inr rfl⟩
          obtain ⟨epoch, hi, hp⟩ := hlk
          obtain ⟨c', d, hc', hd, hrm, hr⟩ := h.epoch_ends hi hp (.symm hb)
          rw [hsm c' hc'] at hrm hr
          refine hs (fun x hx => hx.imp_right fun _ => rfl) ⟨d, hd, ?_⟩
          by_cases hph : d.phase = .dropped
          · exact .inr hph
          obtain ⟨q, hq, rfl⟩ := h.slots.lease hd hph
          rw [hrm, hr] at hq
          obtain ⟨d', hd', hcan⟩ := ho q hq
          rw [hd] at hd'
          cases hd'
          exact .inl hcan
        · exact hs (fun x hx => hx.imp_right fun _ => rfl) (h.survivor hdr hlk)
      packets := packets_cons h.packets nofun }

/-- A slot that was free goes to a new connection. -/
theorem grant (hrm : (w.rooms room).isSome) (hf : w.peer room role = none) : Core (w.grant room role) := by
  have hs : ∀ {P : Conn → Prop} {k : ℕ}, (∃ d, w.conns[k]? = some d ∧ P d) →
      ∃ d, (w.grant room role).conns[k]? = some d ∧ P d := fun ⟨d, hd, hp⟩ => ⟨d, conns_grant hd, hp⟩
  refine
    { slots := ⟨fun {room' role' p} hp => ?_, fun {k d} hd hlv => ?_⟩
      fresh := fun hd hph => ?_
      opened := fun hd hph => ?_
      cancelled := fun hn => hs (h.cancelled hn)
      dropped := fun hn => hs (h.dropped hn)
      epoch_lt := h.epoch_lt
      epoch_ends := fun ha hb hne => ?_
      survivor := fun ha hlk => hs (h.survivor ha hlk)
      packets := h.packets }
  · rw [peer_grant hrm] at hp
    split at hp
    · rename_i hsm
      cases hp
      exact ⟨_, getElem?_concat_length, hsm.1.symm, hsm.2.symm, rfl, nofun⟩
    · obtain ⟨d, hd, hr⟩ := h.slots.slot hp
      exact ⟨d, conns_grant hd, hr⟩
  · rw [peer_grant hrm]
    rcases conn_grant hd with hd | ⟨rfl, rfl⟩
    · obtain ⟨p, hp, hk⟩ := h.slots.lease hd hlv
      refine ⟨p, ?_, hk⟩
      rw [if_neg, hp]
      rintro ⟨hsm, hrole⟩
      rw [hsm, hrole, hf] at hp
      cases hp
    · exact ⟨_, if_pos ⟨rfl, rfl⟩, rfl⟩
  · rcases conn_grant hd with hd | ⟨-, rfl⟩
    · exact h.fresh hd hph
    · exact ⟨rfl, rfl⟩
  · rcases conn_grant hd with hd | ⟨-, rfl⟩
    · exact h.opened hd hph
    · rfl
  · obtain ⟨c, d, hc, hd, hr⟩ := h.epoch_ends ha hb hne
    exact ⟨c, d, conns_grant hc, conns_grant hd, hr⟩

end

end Core

/-! ### The two ends of a room -/

/-- What the slots say of the connections. -/
structure Live (w : Relay) : Prop where
  inactive : ∀ {i : ℕ} {c : Conn} {p : Peer}, w.conns[i]? = some c → c.phase = .upgrading → w.peer c.room c.role = some p →
    p.active = false
  active : ∀ {i : ℕ} {c : Conn} {p : Peer}, w.conns[i]? = some c → c.phase = .running → w.peer c.room c.role = some p →
    p.active = true
  /-- Before the other end has announced itself, nothing but `relay.waiting` is in the queue. -/
  short : ∀ {i : ℕ} {c : Conn}, w.conns[i]? = some c → c.phase = .running → c.cancelled = false →
    (∀ q, w.peer c.room c.role.peer = some q → q.active = false) → c.queue.length ≤ 1
  /-- After it, both were put the same epoch. -/
  linked : ∀ {i : ℕ} {c : Conn} {q : Peer}, w.conns[i]? = some c → c.phase = .running → c.cancelled = false →
    w.peer c.room c.role.peer = some q → q.active = true → w.isCancelled q.conn = false → Linked w.history i q.conn

theorem isCancelled_of_conn (hc : w.conns[i]? = some c) : w.isCancelled i = c.cancelled := by
  unfold isCancelled
  rw [hc, any_some]

theorem isCancelled_of_modifyConn (hf : ∀ c, (f c).cancelled = false → c.cancelled = false)
    (h : (w.modifyConn i f).isCancelled j = false) : w.isCancelled j = false := by
  unfold isCancelled at *
  rw [conns_modifyConn] at h
  cases hc : w.conns[j]? with
  | none => rfl
  | some c =>
    rw [hc, map_some, any_some] at h
    rw [any_some]
    split at h
    · exact hf c h
    · exact h

namespace Live

/-- A change of one connection that does not take it forward. -/
theorem modifyConn (h : Live w) (hf : ∀ c, (f c).room = c.room ∧ (f c).role = c.role ∧ ((f c).cancelled = false → c.cancelled = false))
    (hque : ∀ c, w.conns[i]? = some c → (f c).queue.length ≤ c.queue.length)
    (hph : ∀ c, (f c).phase = c.phase ∨ (f c).phase = .ending ∨ (f c).phase = .dropped) : Live (w.modifyConn i f) := by
  have hbk : ∀ {k : ℕ} {d : Conn}, (w.modifyConn i f).conns[k]? = some d → d.phase = .upgrading ∨ d.phase = .running →
      ∃ c, w.conns[k]? = some c ∧ d.room = c.room ∧ d.role = c.role ∧ d.phase = c.phase ∧
        (d.cancelled = false → c.cancelled = false) ∧ d.queue.length ≤ c.queue.length := by
    intro k d hd hup
    obtain ⟨c, hc, rfl⟩ := conn_modifyConn hd
    refine ⟨c, hc, ?_⟩
    split
    · rename_i hk
      rw [if_pos hk] at hup
      refine ⟨(hf c).1, (hf c).2.1, ?_, (hf c).2.2, hque c (hk ▸ hc)⟩
      rcases hph c with hsm | he | hdr
      · exact hsm
      · rw [he] at hup
        rcases hup with hup | hup <;> cases hup
      · rw [hdr] at hup
        rcases hup with hup | hup <;> cases hup
    · exact ⟨rfl, rfl, rfl, id, le_refl _⟩
  refine ⟨fun hd hup hp => ?_, fun hd hrun hp => ?_, fun hd hrun hcan ho => ?_, fun hd hrun hcan hq ha hlv => ?_⟩
  · obtain ⟨c, hc, hrm, hr, hsm, -⟩ := hbk hd (.inl hup)
    rw [hrm, hr] at hp
    exact h.inactive hc (hsm.symm.trans hup) hp
  · obtain ⟨c, hc, hrm, hr, hsm, -⟩ := hbk hd (.inr hrun)
    rw [hrm, hr] at hp
    exact h.active hc (hsm.symm.trans hrun) hp
  · obtain ⟨c, hc, hrm, hr, hsm, hbk, hl⟩ := hbk hd (.inr hrun)
    rw [hrm, hr] at ho
    exact hl.trans (h.short hc (hsm.symm.trans hrun) (hbk hcan) ho)
  · obtain ⟨c, hc, hrm, hr, hsm, hbk, -⟩ := hbk hd (.inr hrun)
    rw [hrm, hr] at hq
    exact h.linked hc (hsm.symm.trans hrun) (hbk hcan) hq ha (isCancelled_of_modifyConn (fun c => (hf c).2.2) hlv)

theorem note (h : Live w) (n : Note) : Live (w.note n) :=
  ⟨h.inactive, h.active, h.short, fun hd hr hc hq ha hlv =>
    (h.linked hd hr hc hq ha hlv).mono fun _ => mem_cons_of_mem n⟩

theorem cancel (h : Live w) (i : ℕ) : Live (w.cancel i) := by
  have hm : Live (w.modifyConn i fun c => { c with cancelled := true }) :=
    h.modifyConn (fun _ => ⟨rfl, rfl, nofun⟩) (fun _ _ => le_refl _) fun _ => .inl rfl
  exact hm.note _

/-- The lease of a connection is dropped, and what is in the other slot is cancelled. -/
theorem free (h : Live w) (ho : ∀ (k : ℕ) (d : Conn), w.conns[k]? = some d → d.phase = .running → d.room = room →
    d.role.peer = role → d.cancelled = true) (hrm : (w.rooms room).isSome) : Live (w.setPeer room role none) := by
  refine ⟨fun hd hup hp => ?_, fun hd hrun hp => ?_, fun hd hrun hc hi => ?_, fun hd hrun hc hq ha hlv => ?_⟩
  · rw [peer_setPeer _ hrm] at hp
    split at hp
    · cases hp
    · exact h.inactive hd hup hp
  · rw [peer_setPeer _ hrm] at hp
    split at hp
    · cases hp
    · exact h.active hd hrun hp
  · refine h.short hd hrun hc fun q hq => hi q ?_
    rw [peer_setPeer _ hrm, if_neg]
    · exact hq
    rintro ⟨hsm, hr⟩
    have hg := ho _ _ hd hrun hsm hr
    rw [hc] at hg
    cases hg
  · rw [peer_setPeer _ hrm] at hq
    split at hq
    · cases hq
    · exact h.linked hd hrun hc hq ha hlv

/-- A message is put in the queue of an end whose other end is active. -/
theorem put (h : Live w) {m : Message} (ho : ∀ d, w.conns[i]? = some d → ∃ q, w.peer d.room d.role.peer = some q ∧ q.active = true) :
    Live (w.put i m) := by
  have hbk : ∀ {k : ℕ} {d : Conn}, (w.put i m).conns[k]? = some d →
      ∃ c, w.conns[k]? = some c ∧ d.room = c.room ∧ d.role = c.role ∧ d.phase = c.phase ∧ d.cancelled = c.cancelled ∧
        (i ≠ k → d.queue = c.queue) := by
    intro k d hd
    obtain ⟨c, hc, rfl⟩ := conn_modifyConn hd
    refine ⟨c, hc, ?_⟩
    split
    · rename_i hk
      exact ⟨rfl, rfl, rfl, rfl, fun hne => absurd hk hne⟩
    · exact ⟨rfl, rfl, rfl, rfl, fun _ => rfl⟩
  refine ⟨fun hd hup hp => ?_, fun hd hrun hp => ?_, fun {k _} hd hrun hcan hi => ?_, fun hd hrun hcan hq ha hlv => ?_⟩
  · obtain ⟨c, hc, hrm, hr, hph, -⟩ := hbk hd
    rw [hrm, hr] at hp
    exact h.inactive hc (hph.symm.trans hup) hp
  · obtain ⟨c, hc, hrm, hr, hph, -⟩ := hbk hd
    rw [hrm, hr] at hp
    exact h.active hc (hph.symm.trans hrun) hp
  · obtain ⟨c, hc, hrm, hr, hph, hsm, hque⟩ := hbk hd
    rw [hrm, hr] at hi
    by_cases hk : i = k
    · subst hk
      obtain ⟨q, hq, ha⟩ := ho c hc
      rw [hi q hq] at ha
      cases ha
    · rw [hque hk]
      exact h.short hc (hph.symm.trans hrun) (hsm.symm.trans hcan) hi
  · obtain ⟨c, hc, hrm, hr, hph, hsm, -⟩ := hbk hd
    rw [hrm, hr] at hq
    have hlv : w.isCancelled _ = false := isCancelled_of_modifyConn (f := fun c => { c with queue := c.queue ++ [m] }) (fun _ hf => hf) hlv
    exact (h.linked hc (hph.symm.trans hrun) (hsm.symm.trans hcan) hq ha hlv).mono fun _ =>
      mem_cons_of_mem _

/-- A slot that was free goes to a new connection. -/
theorem grant (h : Live w) (hs : Slots w) (hrm : (w.rooms room).isSome) (hf : w.peer room role = none) : Live (w.grant room role) := by
  have hslot : ∀ {k : ℕ} {d : Conn}, w.conns[k]? = some d → d.phase ≠ .dropped → ¬ (d.room = room ∧ d.role = role) := by
    rintro k d hd hlv ⟨rfl, rfl⟩
    obtain ⟨p, hp, -⟩ := hs.lease hd hlv
    rw [hf] at hp
    cases hp
  have hrunn : ∀ {k : ℕ} {d : Conn}, (w.grant room role).conns[k]? = some d → d.phase = .running → w.conns[k]? = some d := by
    intro k d hd hrun
    rcases conn_grant hd with hd | ⟨-, rfl⟩
    · exact hd
    · cases hrun
  refine ⟨fun hd hup hp => ?_, fun hd hrun hp => ?_, fun hd hrun hcan hi => ?_, fun hd hrun hcan hq ha hlv => ?_⟩
  · rw [peer_grant hrm] at hp
    split at hp
    · cases hp
      rfl
    rename_i hne
    rcases conn_grant hd with hd | ⟨-, rfl⟩
    · exact h.inactive hd hup hp
    · exact absurd ⟨rfl, rfl⟩ hne
  · have hd := hrunn hd hrun
    rw [peer_grant hrm, if_neg (hslot hd (by rw [hrun]; nofun))] at hp
    exact h.active hd hrun hp
  · have hd := hrunn hd hrun
    refine h.short hd hrun hcan fun q hq => hi q ?_
    rw [peer_grant hrm, if_neg, hq]
    rintro ⟨rfl, hr⟩
    rw [hr, hf] at hq
    cases hq
  · have hd := hrunn hd hrun
    rw [peer_grant hrm] at hq
    split at hq
    · cases hq
      cases ha
    rename_i q _
    obtain ⟨c, hc, -⟩ := hs.slot hq
    rw [isCancelled_of_conn (conns_grant hc), ← isCancelled_of_conn hc] at hlv
    exact h.linked hd hrun hcan hq ha hlv

/-- A connection announces itself. -/
theorem announce {w' : Relay} (h : Live w) (hs : Slots w) (hc : w.conns[i]? = some c) (hup : c.phase = .upgrading)
    (ho : w.peer c.room c.role = some p)
    (hpeer : ∀ room role, w'.peer room role =
      if room = c.room ∧ role = c.role then some { p with active := true } else w.peer room role)
    (hm : ∀ n ∈ w.history, n ∈ w'.history) (hcanc : ∀ k, w'.isCancelled k = false → w.isCancelled k = false)
    (hself : ∀ d, w'.conns[i]? = some d → d.room = c.room ∧ d.role = c.role ∧ (d.phase = .ending ∨ d.phase = .running ∧
      ((∃ q, w.peer c.room c.role.peer = some q ∧ q.active = true) ∨ d.queue.length ≤ 1) ∧
      ∀ q, w.peer c.room c.role.peer = some q → q.active = true → w.isCancelled q.conn = false → Linked w'.history i q.conn))
    (hoth : ∀ (k : ℕ) (d' : Conn), k ≠ i → w'.conns[k]? = some d' → ∃ d, w.conns[k]? = some d ∧ d'.room = d.room ∧
      d'.role = d.role ∧ d'.phase = d.phase ∧ d'.cancelled = d.cancelled ∧
      (d'.queue = d.queue ∨ d.room = c.room ∧ d.role = c.role.peer))
    (hlink : ∀ (k : ℕ) (d : Conn), w.conns[k]? = some d → d.phase = .running → d.cancelled = false → d.room = c.room →
      d.role = c.role.peer → Linked w'.history k i) : Live w' := by
  have hlv : c.phase ≠ .dropped := by rw [hup]; nofun
  have hp : p.conn = i := by
    obtain ⟨q, hq, hi⟩ := hs.lease hc hlv
    rw [ho] at hq
    cases hq
    exact hi
  have hpeer_ne : ∀ role : Role, role.peer ≠ role := fun role => by cases role <;> nofun
  have hslot : ∀ {k : ℕ} {d : Conn}, k ≠ i → w.conns[k]? = some d → d.phase ≠ .dropped → ¬ (d.room = c.room ∧ d.role = c.role) := by
    rintro k d hk hd hdli ⟨hrm, hr⟩
    exact hk (hs.unique hd hc hdli hlv hrm hr)
  refine ⟨fun {k d' q} hd hph hq => ?_, fun {k d' q} hd hph hq => ?_, fun {k d'} hd hph hcan hina => ?_,
    fun {k d' q} hd hph hcan hq ha hqli => ?_⟩
  · by_cases hk : k = i
    · subst hk
      obtain ⟨-, -, he | ⟨hrun, -⟩⟩ := hself d' hd
      · rw [he] at hph
        cases hph
      · rw [hrun] at hph
        cases hph
    · obtain ⟨d, hd, hrm, hr, hsm, -⟩ := hoth k d' hk hd
      rw [hsm] at hph
      rw [hpeer, hrm, hr, if_neg (hslot hk hd (by rw [hph]; nofun))] at hq
      exact h.inactive hd hph hq
  · by_cases hk : k = i
    · subst hk
      obtain ⟨hrm, hr, -⟩ := hself d' hd
      rw [hpeer, if_pos ⟨hrm, hr⟩] at hq
      cases hq
      rfl
    · obtain ⟨d, hd, hrm, hr, hsm, -⟩ := hoth k d' hk hd
      rw [hsm] at hph
      rw [hpeer, hrm, hr, if_neg (hslot hk hd (by rw [hph]; nofun))] at hq
      exact h.active hd hph hq
  · by_cases hk : k = i
    · subst hk
      obtain ⟨hrm, hr, he | ⟨-, hsh, -⟩⟩ := hself d' hd
      · rw [he] at hph
        cases hph
      rcases hsh with ⟨q, hq, ha⟩ | hsh
      · have hf := hina q (by rw [hpeer, hrm, hr, if_neg fun hsm => hpeer_ne c.role hsm.2, hq])
        rw [hf] at ha
        cases ha
      · exact hsh
    · obtain ⟨d, hd, hrm, hr, hsm, hcsa, hque⟩ := hoth k d' hk hd
      rw [hrm, hr] at hina
      have hn : ¬ (d.room = c.room ∧ d.role.peer = c.role) := by
        intro hsm
        have hf := hina _ (by rw [hpeer, if_pos hsm])
        cases hf
      rcases hque with hque | ⟨hqro, hqrol⟩
      · rw [hque]
        refine h.short hd (hsm.symm.trans hph) (hcsa.symm.trans hcan) fun q hq => hina q ?_
        rw [hpeer, if_neg hn, hq]
      · exact absurd ⟨hqro, by rw [hqrol, Role.peer_peer]⟩ hn
  · by_cases hk : k = i
    · subst hk
      obtain ⟨hrm, hr, he | ⟨-, -, hlk⟩⟩ := hself d' hd
      · rw [he] at hph
        cases hph
      · rw [hpeer, hrm, hr, if_neg fun hsm => hpeer_ne c.role hsm.2] at hq
        exact hlk q hq ha (hcanc _ hqli)
    · obtain ⟨d, hd, hrm, hr, hsm, hcsa, -⟩ := hoth k d' hk hd
      rw [hpeer, hrm, hr] at hq
      split at hq
      · rename_i ho
        cases hq
        rw [hp]
        exact hlink k d hd (hsm.symm.trans hph) (hcsa.symm.trans hcan) ho.1 (by rw [← ho.2, Role.peer_peer])
      · exact (h.linked hd (hsm.symm.trans hph) (hcsa.symm.trans hcan) hq ha (hcanc _ hqli)).mono hm

end Live

end Relay

end Pebrel.Link
