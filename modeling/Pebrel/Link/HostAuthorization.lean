import Mathlib.Data.List.Nodup
import Pebrel.Link.Host

/-!
# Authorization of devices

Two invariants of the host. `Notes` is about the book, the requests and the
history: what was issued, requested, approved and created, and by what. `Sessions`
is about the authorizations that were given out: one that is not cancelled is the
active one of a device in the book, and has the device's permission. Every call
keeps both, and so in every run the host is as `Authorized` says
(`host_authorized`).
-/

namespace Pebrel.Link

open Library Transition List Option Nat Function HostEvent
open Sublist (refl)

/-! ### Invitations, requests and devices -/

namespace HostState

/-- What the history says of the book and the requests. -/
structure Notes (h : HostState) : Prop where
  pending_lt : ∀ p ∈ h.book.pending, p.id < h.names
  /-- An invitation that is pending was not used. -/
  pending_new : ∀ p ∈ h.book.pending, ∀ d t n, .created d p.id t n ∉ h.history
  device_lt : ∀ d ∈ h.book.devices, d.id < h.names
  created_lt : ∀ {d i t n}, .created d i t n ∈ h.history → d < h.names ∧ i < h.names
  created_unique : ∀ {d i i' t t' n n'}, .created d i t n ∈ h.history → .created d i' t' n' ∈ h.history →
    i' = i ∧ t' = t ∧ n' = n
  once : ∀ {d d' i t t' n n'}, .created d i t n ∈ h.history → .created d' i t' n' ∈ h.history → d = d'
  origin : ∀ d ∈ h.book.devices, ∃ i t, .created d.id i t d.name ∈ h.history
  requested : ∀ a ∈ h.approvals, .requested a.id a.invitation a.name a.expiresAt ∈ h.history
  allowed : ∀ a ∈ h.approvals, ∀ allowInput, a.allowedInput = some allowInput →
    ∃ now, .approved a.id now allowInput ∈ h.history ∧ now < a.expiresAt
  approved : ∀ d invitation ticket name before, (.created d invitation ticket name :: before) <:+ h.history →
    ∃ expiresAt now allowInput, .requested ticket invitation name expiresAt ∈ before ∧
      .approved ticket now allowInput ∈ before ∧ now < expiresAt
  /-- Devices and invitations together are no more than there may be devices. -/
  count : h.book.devices.length + h.book.pending.length ≤ maxDevices
  nodup : (h.book.devices.map DeviceGrant.id).Nodup
  request_lt : ∀ a ∈ h.approvals, a.id < h.names
  request_nodup : (h.approvals.map Approval.id).Nodup

/-- What the authorizations that were given out say of the devices. -/
structure Sessions (h : HostState) : Prop where
  session : ∀ {k : ℕ} {s : Authorization}, h.sessions[k]? = some s → s.cancelled = false →
    (∃ route, h.active s.device = some ⟨k, route⟩) ∧ ∃ d ∈ h.book.devices, d.id = s.device ∧ d.allowInput = s.input
  active : ∀ {id : ℕ} {a : Active}, h.active id = some a → ∃ s, h.sessions[a.session]? = some s ∧ s.device = id

variable {h h' : HostState}

/-! ### What the book and the requests do -/

variable {devices : List DeviceGrant} {pending : List Invitation} {g : DeviceGrant} {now : ℕ} {name : Text}

/-- A new device gets its permission. -/
theorem setInputPermission_new (allowInput : Bool) (hn : ∀ d ∈ devices, d.id ≠ g.id) :
    (PairingBook.setInputPermission ⟨pending, devices ++ [g]⟩ g.id allowInput).1 = ⟨pending, devices ++ [{ g with allowInput }]⟩ := by
  have hfd : (PairingBook.device ⟨pending, devices ++ [g]⟩ g.id).isSome := by
    unfold PairingBook.device
    rw [find?_isSome]
    exact ⟨g, mem_append_right _ mem_cons_self, decide_eq_true rfl⟩
  obtain ⟨d, hd⟩ := isSome_iff_exists.mp hfd
  have hold : devices.map (fun d => if d.id = g.id then { d with allowInput } else d) = devices := by
    calc devices.map (fun d => if d.id = g.id then { d with allowInput } else d)
        = devices.map fun d => d := map_congr_left fun d hd => if_neg (hn d hd)
      _ = devices := List.map_id' _
  unfold PairingBook.setInputPermission
  rw [hd]
  simp only [map_append, map_singleton, hold, if_true]

/-- A new device is gone again. -/
theorem revoke_new (hn : ∀ d ∈ devices, d.id ≠ g.id) : (PairingBook.revoke ⟨pending, devices ++ [g]⟩ g.id).1 = ⟨pending, devices⟩ := by
  unfold PairingBook.revoke
  simp only [filter_append, filter_singleton, ne_eq, not_true_eq_false, decide_false, Bool.cond_false, append_nil]
  rw [filter_eq_self.mpr fun d hd => decide_eq_true (hn d hd)]

theorem takeApproved_eq_some {approvals rest : List Approval} {ticket invitation : ℕ} {allowInput : Bool}
    (htk : Approvals.takeApproved approvals ticket invitation name now = some (allowInput, rest)) :
    (∃ a ∈ approvals, a.id = ticket ∧ a.invitation = invitation ∧ a.name = name ∧ a.allowedInput = some allowInput) ∧
      rest = approvals.filter fun a => a.id ≠ ticket := by
  unfold Approvals.takeApproved at htk
  split at htk
  · cases htk
  rename_i a hfd
  split at htk
  · cases htk
  rename_i hc
  rw [not_or, not_or, not_not, not_not] at hc
  obtain ⟨allow, ha, heq⟩ := map_eq_some_iff.mp htk
  cases heq
  have hid : a.id = ticket := of_decide_eq_true (find?_some (p := fun a : Approval => decide (a.id = ticket)) hfd)
  exact ⟨⟨a, mem_of_find?_eq_some hfd, hid, hc.1, hc.2.1, ha⟩, rfl⟩

theorem approveAuthenticated_eq_some {book book' : PairingBook} {invite id secret : ℕ} {drawn : Bool}
    (happr : book.approveAuthenticated invite name now drawn id secret = (book', some g)) :
    ∃ p ∈ book.pending, p.id = invite ∧ g.id = id ∧ g.name = name ∧
      book' = ⟨book.pending.filter fun q => q.id ≠ invite, book.devices ++ [g]⟩ := by
  unfold PairingBook.approveAuthenticated at happr
  split at happr
  · cases happr
  split at happr
  · cases happr
  · split at happr
    · cases happr
    · split at happr
      · cases happr
      · rename_i p hfd
        cases happr
        have hid : p.id = invite := of_decide_eq_true (find?_some (p := fun p : Invitation => decide (p.id = invite)) hfd)
        exact ⟨p, mem_of_find?_eq_some hfd, hid, rfl, rfl, rfl⟩

/-- What comes of `enroll` with an invitation: nothing but a request less, an invitation less, or
a device more and its session. -/
inductive Enrolled (h : HostState) (ticket : ℕ) (route : Route) : HostState → Prop
  | refused : Enrolled h ticket route h
  | unapproved : Enrolled h ticket route (h.cancelPairing ticket)
  | unwritten {p : Invitation} (hp : p ∈ h.book.pending) : Enrolled h ticket route
      { h.cancelPairing ticket with
        book := ⟨h.book.pending.filter fun q => q.id ≠ p.id, h.book.devices⟩
        names := h.names + 2 }
  | enrolled {p : Invitation} {g : DeviceGrant} {a : Approval} (hp : p ∈ h.book.pending) (hg : g.id = h.names)
      (ha : a ∈ h.approvals) (hticket : a.id = ticket) (hinvitation : a.invitation = p.id) (hname : a.name = g.name)
      (hallowed : a.allowedInput = some g.allowInput) : Enrolled h ticket route
      (openSession { h.cancelPairing ticket with
        book := ⟨h.book.pending.filter fun q => q.id ≠ p.id, h.book.devices ++ [g]⟩
        names := h.names + 2
        history := .created g.id p.id ticket g.name :: h.history } g.id g.allowInput route).1

theorem enrolled (hn : ∀ d ∈ h.book.devices, d.id < h.names) (grant : ℕ) (name : Text) (now : ℕ) (drawn persisted : Bool)
    (ticket : ℕ) (route : Route) : Enrolled h ticket route (h.enrollInvited grant name now drawn persisted ticket route).1 := by
  unfold enrollInvited
  split
  · exact .refused
  rename_i allowInput rest htk
  obtain ⟨⟨a, ha, ht, hi, hnm, hald⟩, rfl⟩ := takeApproved_eq_some htk
  simp only
  split
  · exact .unapproved
  rename_i book g happr
  obtain ⟨p, hp, hid, hg, hgna, rfl⟩ := approveAuthenticated_eq_some happr
  have hfr : ∀ d ∈ h.book.devices, d.id ≠ g.id := fun d hd heq =>
    absurd (hn d hd) (by rw [heq, hg]; exact Nat.lt_irrefl _)
  rw [setInputPermission_new allowInput hfr]
  split
  · have hgone : (PairingBook.revoke ⟨h.book.pending.filter fun q => q.id ≠ grant,
        h.book.devices ++ [{ g with allowInput }]⟩ g.id).1 = ⟨h.book.pending.filter fun q => q.id ≠ grant, h.book.devices⟩ :=
      revoke_new hfr
    rw [hgone, ← hid]
    exact .unwritten hp
  · rw [← hid, ← hgna]
    exact .enrolled (g := { g with allowInput }) hp hg ha ht (hi.trans hid.symm) (hnm.trans hgna.symm) hald

namespace Notes

section
variable (hn : Notes h)
include hn

/-- What is taken away from the book and the requests, and what changes of a device but its name,
makes no difference. -/
theorem shrink (hpd : h'.book.pending.Sublist h.book.pending)
    (hdevs : ∀ d ∈ h'.book.devices, ∃ d0 ∈ h.book.devices, d0.id = d.id ∧ d0.name = d.name)
    (hl : h'.book.devices.length ≤ h.book.devices.length) (hnd : (h'.book.devices.map DeviceGrant.id).Nodup)
    (happ : h'.approvals.Sublist h.approvals) (hnms : h.names ≤ h'.names) (hhist : h'.history = h.history) :
    Notes h' where
  pending_lt p hp := (hn.pending_lt p (hpd.subset hp)).trans_le hnms
  pending_new p hp := by
    rw [hhist]
    exact hn.pending_new p (hpd.subset hp)
  device_lt d hd := by
    obtain ⟨d0, hd0, hid, -⟩ := hdevs d hd
    rw [← hid]
    exact (hn.device_lt d0 hd0).trans_le hnms
  created_lt hc := by
    rw [hhist] at hc
    exact ⟨(hn.created_lt hc).1.trans_le hnms, (hn.created_lt hc).2.trans_le hnms⟩
  created_unique hc hc' := by
    rw [hhist] at hc hc'
    exact hn.created_unique hc hc'
  once hc hc' := by
    rw [hhist] at hc hc'
    exact hn.once hc hc'
  origin d hd := by
    obtain ⟨d0, hd0, hid, hnm⟩ := hdevs d hd
    rw [hhist, ← hid, ← hnm]
    exact hn.origin d0 hd0
  requested a ha := by
    rw [hhist]
    exact hn.requested a (happ.subset ha)
  allowed a ha := by
    rw [hhist]
    exact hn.allowed a (happ.subset ha)
  approved d i t n before hs := by
    rw [hhist] at hs
    exact hn.approved d i t n before hs
  count := (Nat.add_le_add hl hpd.length_le).trans hn.count
  nodup := hnd
  request_lt a ha := (hn.request_lt a (happ.subset ha)).trans_le hnms
  request_nodup := (happ.map Approval.id).nodup hn.request_nodup

/-- A note about a request or a decision. -/
theorem note {n : HostNote} (hnot : ∀ d i t name, n ≠ .created d i t name) : Notes { h with history := n :: h.history } := by
  have hold : ∀ {d i t name}, .created d i t name ∈ n :: h.history → .created d i t name ∈ h.history := fun hm =>
    (mem_cons.mp hm).resolve_left fun heq => hnot _ _ _ _ heq.symm
  exact
    { pending_lt := hn.pending_lt
      pending_new := fun p hp d t name hm => hn.pending_new p hp d t name (hold hm)
      device_lt := hn.device_lt
      created_lt := fun hc => hn.created_lt (hold hc)
      created_unique := fun hc hc' => hn.created_unique (hold hc) (hold hc')
      once := fun hc hc' => hn.once (hold hc) (hold hc')
      origin := fun d hd => by
        obtain ⟨i, t, hc⟩ := hn.origin d hd
        exact ⟨i, t, mem_cons_of_mem n hc⟩
      requested := fun a ha => mem_cons_of_mem n (hn.requested a ha)
      allowed := fun a ha allowInput hall => by
        obtain ⟨now, happ, hlt⟩ := hn.allowed a ha allowInput hall
        exact ⟨now, mem_cons_of_mem n happ, hlt⟩
      approved := fun d i t name before hs => by
        rcases suffix_cons_iff.mp hs with heq | hs
        · exact absurd (cons.inj heq).1.symm (hnot d i t name)
        · exact hn.approved d i t name before hs
      count := hn.count
      nodup := hn.nodup
      request_lt := hn.request_lt
      request_nodup := hn.request_nodup }

/-- Requests of which the history knows, with decisions of which it knows. -/
theorem setApprovals {approvals : List Approval} (happ : ∀ a ∈ approvals, .requested a.id a.invitation a.name a.expiresAt ∈ h.history ∧
      ∀ allowInput, a.allowedInput = some allowInput → ∃ now, .approved a.id now allowInput ∈ h.history ∧ now < a.expiresAt)
    (hlt : ∀ a ∈ approvals, a.id < h.names) (hnd : (approvals.map Approval.id).Nodup) : Notes { h with approvals } :=
  { hn with
    requested := fun a ha => (happ a ha).1
    allowed := fun a ha => (happ a ha).2
    request_lt := hlt
    request_nodup := hnd }

theorem issue (accessOk : Bool) (name : Text) (allowInput : Bool) (now : ℕ) (drawn : Bool) :
    Notes (h.issue accessOk name allowInput now drawn).1 := by
  have hpru : ∀ f : Invitation → Bool, ∀ names, h.names ≤ names →
      Notes { h with book := { h.book with pending := h.book.pending.filter f }, names } := fun f names hnms =>
    hn.shrink filter_sublist (fun d hd => ⟨d, hd, rfl, rfl⟩) (le_refl _) hn.nodup (refl _) hnms rfl
  have hold : ∀ {d i t n}, .created d i t n ∈ h.history → i < h.names := fun hc => (hn.created_lt hc).2
  unfold HostState.issue
  split
  · exact hn
  split
  · exact hn
  · unfold PairingBook.issue
    simp only
    split
    · exact hpru _ _ (Nat.le_add_right _ _)
    rename_i hcnt
    split
    · exact hpru _ _ (Nat.le_add_right _ _)
    split
    · exact hpru _ _ (Nat.le_add_right _ _)
    · have hn := hpru (fun p => decide (p.issuedAt ≤ now) && decide (now < p.expiresAt)) (h.names + 2) (Nat.le_add_right _ _)
      refine { hn with pending_lt := fun p hp => ?_, pending_new := fun p hp => ?_, count := ?_ }
      · rcases mem_append.mp hp with hp | hp
        · exact hn.pending_lt p hp
        · rw [mem_singleton.mp hp]
          exact Nat.lt_add_of_pos_right (by decide)
      · rcases mem_append.mp hp with hp | hp
        · exact hn.pending_new p hp
        · rw [mem_singleton.mp hp]
          exact fun d t n hc => absurd (hold hc) (Nat.lt_irrefl _)
      · rw [length_append, length_singleton]
        exact Nat.lt_of_not_le hcnt

theorem cancelInvitation (id : ℕ) : Notes (h.cancelInvitation id) :=
  hn.shrink filter_sublist (fun d hd => ⟨d, hd, rfl, rfl⟩) (le_refl _) hn.nodup filter_sublist (le_refl _) rfl

theorem cancelPairing (id : ℕ) : Notes (h.cancelPairing id) :=
  hn.shrink (refl _) (fun d hd => ⟨d, hd, rfl, rfl⟩) (le_refl _) hn.nodup filter_sublist (le_refl _) rfl

theorem requestPairing (grant : ℕ) (name : Text) (now : ℕ) (drawn : Bool) : Notes (h.requestPairing grant name now drawn).1 := by
  unfold HostState.requestPairing
  split
  · exact hn
  unfold Approvals.request
  split
  · exact hn
  split
  · exact hn
  · have hnot : Notes { h with history := .requested h.names grant name (min (now + 120) (2 ^ 64 - 1)) :: h.history } := hn.note nofun
    have hnms : Notes { h with
        names := h.names + 1
        history := .requested h.names grant name (min (now + 120) (2 ^ 64 - 1)) :: h.history } :=
      hnot.shrink (refl _) (fun d hd => ⟨d, hd, rfl, rfl⟩) (le_refl _) hn.nodup (refl _) (le_succ _) rfl
    refine hnms.setApprovals (fun a ha => ?_) (fun a ha => ?_) ?_
    · rcases mem_append.mp ha with ha | ha
      · exact ⟨hnms.requested a ha, hnms.allowed a ha⟩
      · rw [mem_singleton.mp ha]
        exact ⟨mem_cons_self, nofun⟩
    · rcases mem_append.mp ha with ha | ha
      · exact hnms.request_lt a ha
      · rw [mem_singleton.mp ha]
        exact lt_succ_self _
    · rw [map_append, map_singleton]
      refine Nodup.append hn.request_nodup (nodup_singleton _) fun k hk hnew => ?_
      obtain ⟨a, ha, rfl⟩ := List.mem_map.mp hk
      exact absurd (hn.request_lt a ha) (by rw [mem_singleton.mp hnew]; exact Nat.lt_irrefl _)

theorem decidePairing (id : ℕ) (allowInput : Option Bool) (now : ℕ) (listening : Bool) :
    Notes (h.decidePairing id allowInput now listening).1 := by
  unfold HostState.decidePairing Approvals.decide
  cases hfd : h.approvals.find? fun a => a.id = id with
  | none => exact hn
  | some pending =>
    simp only [map_some, any_some]
    by_cases he : pending.expiresAt ≤ now
    · simp only [if_pos he, Bool.not_false, if_true, decide_eq_false (Nat.not_lt.mpr he), Bool.false_and, Bool.false_eq_true, if_false]
      exact hn.cancelPairing id
    have hlt : now < pending.expiresAt := Nat.lt_of_not_le he
    simp only [if_neg he, decide_eq_true hlt, Bool.true_and]
    cases hu : pending.undecided with
    | false => exact hn
    | true =>
      simp only [Bool.not_true, Bool.false_eq_true, if_false, if_true]
      have hd : Notes { h with
          approvals := h.approvals.map fun a => if a.id = id then { a with undecided := false, allowedInput := allowInput } else a
          history := (allowInput.map (HostNote.approved id now)).toList ++ h.history } := by
        have hi : (h.approvals.map fun a => if a.id = id then { a with undecided := false, allowedInput := allowInput } else a).map
            Approval.id = h.approvals.map Approval.id := by
          rw [List.map_map]
          refine map_congr_left fun a _ => ?_
          rw [comp_apply]
          split <;> rfl
        have hnot : Notes { h with history := (allowInput.map (HostNote.approved id now)).toList ++ h.history } := by
          cases allowInput with
          | none => exact hn
          | some allowInput => exact hn.note nofun
        refine hnot.setApprovals (fun a' ha' => ?_) (fun a' ha' => ?_) (hi ▸ hn.request_nodup)
        · obtain ⟨a, ha, rfl⟩ := List.mem_map.mp ha'
          split
          · rename_i hid
            refine ⟨hnot.requested a ha, fun b hb => ?_⟩
            have hsm : a = pending := by
              have hpd : pending.id = id := of_decide_eq_true (find?_some (p := fun a : Approval => decide (a.id = id)) hfd)
              exact inj_on_of_nodup_map hn.request_nodup ha (mem_of_find?_eq_some hfd) (hid.trans hpd.symm)
            simp only at hb
            subst hb
            refine ⟨now, ?_, hsm ▸ hlt⟩
            rw [hid]
            exact mem_cons_self
          · exact ⟨hnot.requested a ha, hnot.allowed a ha⟩
        · obtain ⟨a, ha, rfl⟩ := List.mem_map.mp ha'
          split
          · exact hn.request_lt a ha
          · exact hn.request_lt a ha
      split
      · exact hd
      · split
        · exact hd.cancelInvitation _
        · exact hd

/-- A session more or less makes no difference. -/
theorem openSession (id : ℕ) (allowInput : Bool) (route : Route) : Notes (h.openSession id allowInput route).1 := by
  unfold HostState.openSession
  simp only
  split
  · exact hn
  · cases h.active id with
    | none => exact { hn with }
    | some a => exact { hn with }

/-- An invitation becomes a device. -/
theorem create {p : Invitation} {ticket : ℕ} {g : DeviceGrant} (hp : p ∈ h.book.pending) (hg : g.id = h.names)
    (hr : ∃ expiresAt now allowInput, .requested ticket p.id g.name expiresAt ∈ h.history ∧
      .approved ticket now allowInput ∈ h.history ∧ now < expiresAt) :
    Notes { h with
      book := ⟨h.book.pending.filter fun q => q.id ≠ p.id, h.book.devices ++ [g]⟩
      names := h.names + 2
      history := .created g.id p.id ticket g.name :: h.history } := by
  have hcrd : ∀ {d i t n}, .created d i t n ∈ HostNote.created g.id p.id ticket g.name :: h.history →
      d = g.id ∧ i = p.id ∧ t = ticket ∧ n = g.name ∨ .created d i t n ∈ h.history := by
    intro d i t n hc
    rcases mem_cons.mp hc with heq | hc
    · cases heq
      exact Or.inl ⟨rfl, rfl, rfl, rfl⟩
    · exact Or.inr hc
  have hdev : ∀ {i t n}, .created g.id i t n ∉ h.history := fun hc =>
    absurd (hn.created_lt hc).1 (by rw [hg]; exact Nat.lt_irrefl _)
  refine ⟨fun q hq => ?_, fun q hq d t n hc => ?_, fun d hd => ?_, fun hc => ?_, fun hc hc' => ?_, fun hc hc' => ?_,
    fun d hd => ?_, fun a ha => ?_, fun a ha allowInput hall => ?_, fun d i t n before hs => ?_, ?_, ?_, fun a ha => ?_,
    hn.request_nodup⟩
  · exact (hn.pending_lt q (mem_filter.mp hq).1).trans (Nat.lt_add_of_pos_right (by decide))
  · obtain ⟨hq, hne⟩ := mem_filter.mp hq
    rcases hcrd hc with ⟨-, hi, -⟩ | hc
    · exact of_decide_eq_true hne hi
    · exact hn.pending_new q hq d t n hc
  · rcases mem_append.mp hd with hd | hd
    · exact (hn.device_lt d hd).trans (Nat.lt_add_of_pos_right (by decide))
    · rw [mem_singleton.mp hd, hg]
      exact Nat.lt_add_of_pos_right (by decide)
  · rcases hcrd hc with ⟨rfl, rfl, -⟩ | hc
    · exact ⟨by rw [hg]; exact Nat.lt_add_of_pos_right (by decide), (hn.pending_lt p hp).trans (Nat.lt_add_of_pos_right (by decide))⟩
    · exact ⟨(hn.created_lt hc).1.trans (Nat.lt_add_of_pos_right (by decide)),
        (hn.created_lt hc).2.trans (Nat.lt_add_of_pos_right (by decide))⟩
  · rcases hcrd hc with ⟨rfl, rfl, rfl, rfl⟩ | hold
    · rcases hcrd hc' with ⟨-, hi, ht, hnm⟩ | hold'
      · exact ⟨hi, ht, hnm⟩
      · exact absurd hold' hdev
    · rcases hcrd hc' with ⟨rfl, -⟩ | hold'
      · exact absurd hold hdev
      · exact hn.created_unique hold hold'
  · rcases hcrd hc with ⟨hd, hi, -⟩ | hold
    · rcases hcrd hc' with ⟨hd', -⟩ | hold'
      · exact hd.trans hd'.symm
      · rw [hi] at hold'
        exact absurd hold' (hn.pending_new p hp _ _ _)
    · rcases hcrd hc' with ⟨-, hi, -⟩ | hold'
      · rw [hi] at hold
        exact absurd hold (hn.pending_new p hp _ _ _)
      · exact hn.once hold hold'
  · rcases mem_append.mp hd with hd | hd
    · obtain ⟨i, t, hc⟩ := hn.origin d hd
      exact ⟨i, t, mem_cons_of_mem _ hc⟩
    · rw [mem_singleton.mp hd]
      exact ⟨p.id, ticket, mem_cons_self⟩
  · exact mem_cons_of_mem _ (hn.requested a ha)
  · obtain ⟨now, happ, hlt⟩ := hn.allowed a ha allowInput hall
    exact ⟨now, mem_cons_of_mem _ happ, hlt⟩
  · rcases suffix_cons_iff.mp hs with heq | hs
    · obtain ⟨hnote, rfl⟩ := cons.inj heq
      cases hnote
      exact hr
    · exact hn.approved d i t n before hs
  · have hlt : (h.book.pending.filter fun q => q.id ≠ p.id).length < h.book.pending.length :=
      length_filter_lt_length_iff_exists.mpr ⟨p, hp, by simp⟩
    have hcnt := hn.count
    rw [length_append, length_singleton]
    change h.book.devices.length + 1 + (h.book.pending.filter fun q => q.id ≠ p.id).length ≤ maxDevices
    omega
  · rw [map_append, map_singleton]
    refine Nodup.append hn.nodup (nodup_singleton _) fun k hk hnew => ?_
    obtain ⟨d, hd, rfl⟩ := List.mem_map.mp hk
    exact absurd (hn.device_lt d hd) (by rw [mem_singleton.mp hnew, hg]; exact Nat.lt_irrefl _)
  · exact (hn.request_lt a ha).trans (Nat.lt_add_of_pos_right (by decide))

theorem setInputPermission (fits : List DeviceGrant → Bool) (id : ℕ) (allowInput persisted : Bool) :
    Notes (h.setInputPermission fits id allowInput persisted).1 := by
  have hc : ∀ sessions, Notes { h with book := (h.book.setInputPermission id allowInput).1, sessions } := by
    intro sessions
    have hi : (h.book.devices.map fun d => if d.id = id then { d with allowInput } else d).map DeviceGrant.id =
        h.book.devices.map DeviceGrant.id := by
      rw [List.map_map]
      refine map_congr_left fun d _ => ?_
      rw [comp_apply]
      split <;> rfl
    unfold PairingBook.setInputPermission
    split
    · exact { hn with }
    refine hn.shrink (refl _) (fun d' hd' => ?_) (length_map _).le (hi ▸ hn.nodup) (refl _) (le_refl _) rfl
    obtain ⟨d, hd, rfl⟩ := List.mem_map.mp hd'
    refine ⟨d, hd, ?_⟩
    split <;> exact ⟨rfl, rfl⟩
  unfold HostState.setInputPermission
  split
  · exact hn
  split
  · exact hn
  · split
    · exact hn
    · split
      · exact hc _
      · exact hc _

theorem enroll (grant : ℕ) (invitation : Bool) (name : Text) (now : ℕ) (drawn persisted : Bool)
    (approval : Option ℕ) (route : Route) : Notes (h.enroll grant invitation name now drawn persisted approval route).1 := by
  unfold HostState.enroll
  split
  · split
    · exact hn
    · rename_i ticket
      have he := enrolled hn.device_lt grant name now drawn persisted ticket route
      generalize (h.enrollInvited grant name now drawn persisted ticket route).1 = h' at he
      have hc := hn.cancelPairing ticket
      cases he with
      | refused => exact hn
      | unapproved => exact hc
      | unwritten hp =>
        exact hc.shrink filter_sublist (fun d hd => ⟨d, hd, rfl, rfl⟩) (le_refl _) hn.nodup (refl _)
          (Nat.le_add_right _ _) rfl
      | @enrolled p g a hp hg ha ht hi hnm hald =>
        refine (hc.create hp hg ?_).openSession _ _ _
        obtain ⟨now, happ, hlt⟩ := hn.allowed a ha _ hald
        have hr := hn.requested a ha
        rw [ht, hi, hnm] at hr
        rw [ht] at happ
        exact ⟨_, now, _, hr, happ, hlt⟩
  · split
    · exact hn
    · exact hn.openSession _ _ _

theorem revoke (fits : List DeviceGrant → Bool) (id : ℕ) (persisted : Bool) : Notes (h.revoke fits id persisted).1 := by
  have hr : ∀ active sessions, Notes { h with book := (h.book.revoke id).1, active, sessions } := by
    intro active sessions
    refine hn.shrink (refl _) (fun d hd => ⟨d, (mem_filter.mp hd).1, rfl, rfl⟩) (length_filter_le _ _) ?_
      (refl _) (le_refl _) rfl
    exact (filter_sublist.map DeviceGrant.id).nodup hn.nodup
  unfold HostState.revoke
  split
  · exact hn
  split
  · exact hn
  · split
    · exact hn
    · split
      · exact hr _ _
      · exact hr _ _

end

end Notes

/-! ### Sessions -/

namespace Sessions

variable {k l : ℕ} {f : Authorization → Authorization} {d : DeviceGrant}

/-- What leaves the devices, the sessions and who is active. -/
theorem keep (hs : Sessions h) (hdevs : h'.book.devices = h.book.devices) (hses : h'.sessions = h.sessions)
    (hact : h'.active = h.active) : Sessions h' where
  session hk hlv := by
    rw [hses] at hk
    rw [hdevs, hact]
    exact hs.session hk hlv
  active ha := by
    rw [hact] at ha
    rw [hses]
    exact hs.active ha

/-- A session after a change is one from before, changed where it is the one in question. -/
theorem session_modify {s' : Authorization}
    (hl : (h.modifySession k f).sessions[l]? = some s') : ∃ s, h.sessions[l]? = some s ∧ s' = if k = l then f s else s := by
  unfold modifySession at hl
  rw [getElem?_modify] at hl
  obtain ⟨s, hs, heq⟩ := map_eq_some_iff.mp hl
  exact ⟨s, hs, heq.symm⟩

theorem session_modify_device {device : ℕ} (hf : ∀ s, (f s).device = s.device) (hl : ∃ s, h.sessions[l]? = some s ∧ s.device = device) :
    ∃ s, (h.modifySession k f).sessions[l]? = some s ∧ s.device = device := by
  obtain ⟨s, hs, hd⟩ := hl
  refine ⟨if k = l then f s else s, ?_, ?_⟩
  · unfold modifySession
    rw [getElem?_modify, hs]
    rfl
  · split
    · exact (hf s).trans hd
    · exact hd

/-- A session is cancelled, or the connection of it is noted. -/
theorem modifySession (hs : Sessions h) (k : ℕ)
    (hf : ∀ s, (f s).device = s.device ∧ (f s).input = s.input ∧ ((f s).cancelled = false → s.cancelled = false)) :
    Sessions (h.modifySession k f) where
  session hl' hlv := by
    obtain ⟨s, hl, rfl⟩ := session_modify hl'
    split at hlv
    · rename_i hk
      rw [if_pos hk, (hf s).1, (hf s).2.1]
      exact hs.session hl ((hf s).2.2 hlv)
    · rename_i hk
      rw [if_neg hk]
      exact hs.session hl hlv
  active ha := session_modify_device (fun s => (hf s).1) (hs.active ha)

theorem cancelSession (hs : Sessions h) (k : ℕ) : Sessions (h.cancelSession k) := hs.modifySession k fun _ => ⟨rfl, rfl, nofun⟩

/-- What is cancelled before a session is opened for a device: every session of the device. -/
theorem previous (hs : Sessions h) (id : ℕ) {cancelled : HostState}
    (hc : cancelled = match h.active id with | some a => h.cancelSession a.session | none => h) :
    Sessions cancelled ∧ cancelled.book = h.book ∧ cancelled.active = h.active ∧ cancelled.sessions.length = h.sessions.length ∧
      ∀ (k : ℕ) (s : Authorization), cancelled.sessions[k]? = some s → s.cancelled = false → s.device ≠ id := by
  cases ha : h.active id with
  | none =>
    rw [ha] at hc
    subst hc
    refine ⟨hs, rfl, rfl, rfl, fun k s hk hlv hid => ?_⟩
    obtain ⟨⟨route, hrt⟩, -⟩ := hs.session hk hlv
    rw [hid, ha] at hrt
    cases hrt
  | some a =>
    rw [ha] at hc
    subst hc
    refine ⟨hs.cancelSession _, rfl, rfl, length_modify _ _ _, fun k s' hk' hlv hid => ?_⟩
    obtain ⟨s, hk, rfl⟩ := session_modify hk'
    split at hlv
    · cases hlv
    rename_i hne
    rw [if_neg hne] at hid
    obtain ⟨⟨route, hrt⟩, -⟩ := hs.session hk hlv
    rw [hid, ha] at hrt
    cases hrt
    exact hne rfl

/-- A session for a device of which no session is left. -/
theorem opened {c : HostState} (hs : Sessions c) (hd : d ∈ c.book.devices) (route : Route)
    (hg : ∀ (k : ℕ) (s : Authorization), c.sessions[k]? = some s → s.cancelled = false → s.device ≠ d.id) :
    Sessions { c with
      sessions := c.sessions ++ [⟨d.id, d.allowInput, false, false⟩]
      active := update c.active d.id (some ⟨c.sessions.length, route⟩) } := by
  refine ⟨fun {k s} hk hlv => ?_, fun {id a} ha => ?_⟩
  · rcases Nat.lt_or_ge k c.sessions.length with hlt | hge
    · rw [getElem?_append_left hlt] at hk
      obtain ⟨⟨via, hv⟩, hdev⟩ := hs.session hk hlv
      exact ⟨⟨via, (update_of_ne (hg k s hk hlv) _ _).trans hv⟩, hdev⟩
    · have hk' : k = c.sessions.length := by
        have hlt := (List.getElem?_eq_some_iff.mp hk).1
        rw [length_append, length_singleton] at hlt
        exact Nat.le_antisymm (le_of_lt_succ hlt) hge
      rw [hk', getElem?_concat_length] at hk
      cases hk
      rw [hk']
      exact ⟨⟨route, update_self _ _ _⟩, d, hd, rfl, rfl⟩
  · have ha : update c.active d.id (some ⟨c.sessions.length, route⟩) id = some a := ha
    by_cases hid : id = d.id
    · rw [hid, update_self] at ha
      cases ha
      exact ⟨_, getElem?_concat_length, hid.symm⟩
    · rw [update_of_ne hid] at ha
      obtain ⟨s, hk, hdev⟩ := hs.active ha
      exact ⟨s, (getElem?_append_left (List.getElem?_eq_some_iff.mp hk).1).trans hk, hdev⟩

/-- A session is opened for a device in the book. -/
theorem openSession (hs : Sessions h) (hd : d ∈ h.book.devices) (route : Route) : Sessions (h.openSession d.id d.allowInput route).1 := by
  unfold HostState.openSession
  simp only
  split
  · exact hs
  obtain ⟨hsc, hbook, ha, hl, hg⟩ := hs.previous d.id rfl
  have hop := hsc.opened (hbook.symm ▸ hd) route hg
  rw [ha, hl] at hop
  exact hop

theorem setInputPermission (hs : Sessions h) (fits : List DeviceGrant → Bool) (id : ℕ) (allowInput persisted : Bool) :
    Sessions (h.setInputPermission fits id allowInput persisted).1 := by
  unfold HostState.setInputPermission
  split
  · exact hs
  split
  · exact hs
  · split
    · exact hs
    · have hdev : ∀ d ∈ h.book.devices, ∃ d' ∈ (h.book.setInputPermission id allowInput).1.devices, d'.id = d.id ∧
          (d.id ≠ id → d'.allowInput = d.allowInput) ∧ (d.id = id → d'.allowInput = allowInput) := by
        intro d hd
        unfold PairingBook.setInputPermission
        split
        · rename_i hn
          have hne := find?_eq_none.mp hn d hd
          exact ⟨d, hd, rfl, fun _ => rfl, fun heq => absurd (decide_eq_true heq) hne⟩
        refine ⟨if d.id = id then { d with allowInput } else d, List.mem_map.mpr ⟨d, hd, rfl⟩, ?_⟩
        split
        · rename_i heq
          exact ⟨rfl, fun hne => absurd heq hne, fun _ => rfl⟩
        · rename_i hne
          exact ⟨rfl, fun _ => rfl, fun heq => absurd heq hne⟩
      split
      · rename_i a ha
        obtain ⟨s0, hs0, hs₀device⟩ := hs.active ha
        refine ⟨fun {k s'} hk' hlv => ?_, fun hact => session_modify_device (fun _ => rfl) (hs.active hact)⟩
        obtain ⟨s, hk, rfl⟩ := session_modify hk'
        have hk : h.sessions[k]? = some s := hk
        split at hlv
        · rename_i heq
          obtain ⟨hrt, d, hd, hid, -⟩ := hs.session hk hlv
          rw [heq, hk] at hs0
          cases hs0
          rw [if_pos heq]
          obtain ⟨d', hd', hid', -, hin⟩ := hdev d hd
          exact ⟨hrt, d', hd', hid'.trans hid, hin (hid.trans hs₀device)⟩
        · rename_i hne
          obtain ⟨⟨route, hrt⟩, d, hd, hid, hin⟩ := hs.session hk hlv
          rw [if_neg hne]
          have ho : d.id ≠ id := by
            intro heq
            rw [← hid, heq, ha] at hrt
            cases hrt
            exact hne rfl
          obtain ⟨d', hd', hid', hsm, -⟩ := hdev d hd
          exact ⟨⟨route, hrt⟩, d', hd', hid'.trans hid, (hsm ho).trans hin⟩
      · rename_i hn
        refine ⟨fun {k s} hk hlv => ?_, hs.active⟩
        obtain ⟨⟨route, hrt⟩, d, hd, hid, hin⟩ := hs.session hk hlv
        have ho : d.id ≠ id := by
          intro heq
          rw [← hid, heq, hn] at hrt
          cases hrt
        obtain ⟨d', hd', hid', hsm, -⟩ := hdev d hd
        exact ⟨⟨route, hrt⟩, d', hd', hid'.trans hid, (hsm ho).trans hin⟩

theorem revoke (hs : Sessions h) (fits : List DeviceGrant → Bool) (id : ℕ) (persisted : Bool) :
    Sessions (h.revoke fits id persisted).1 := by
  unfold HostState.revoke
  split
  · exact hs
  split
  · exact hs
  · split
    · exact hs
    · -- with the active session of the device, all of its sessions are cancelled
      have hr : ∀ c : HostState, Sessions c → c.book = h.book → c.active = h.active →
          (∀ (k : ℕ) (s : Authorization), c.sessions[k]? = some s → s.cancelled = false → s.device ≠ id) →
          Sessions { c with book := (h.book.revoke id).1, active := update h.active id none } := by
        intro c hc hbook hact hg
        refine ⟨fun {k s} hk hlv => ?_, fun {id' a} ha => ?_⟩
        · obtain ⟨⟨route, hrt⟩, d, hd, hid, hin⟩ := hc.session hk hlv
          have hne := hg k s hk hlv
          refine ⟨⟨route, ?_⟩, d, ?_, hid, hin⟩
          · rw [hact] at hrt
            exact (update_of_ne hne _ _).trans hrt
          · rw [hbook] at hd
            exact mem_filter.mpr ⟨hd, decide_eq_true (hid ▸ hne)⟩
        · have ha : update h.active id none id' = some a := ha
          by_cases hid : id' = id
          · rw [hid, update_self] at ha
            cases ha
          · rw [update_of_ne hid, ← hact] at ha
            exact hc.active ha
      obtain ⟨hc, hbook, hact, -, hg⟩ := hs.previous id rfl
      have hr := hr _ hc hbook hact hg
      split
      · rename_i a ha
        rw [ha] at hr
        exact hr
      · rename_i hn
        rw [hn] at hr
        exact hr

theorem enroll (hs : Sessions h) (hn : Notes h) (grant : ℕ) (invitation : Bool) (name : Text) (now : ℕ) (drawn persisted : Bool)
    (approval : Option ℕ) (route : Route) : Sessions (h.enroll grant invitation name now drawn persisted approval route).1 := by
  unfold HostState.enroll
  split
  · split
    · exact hs
    · rename_i ticket
      have he := enrolled hn.device_lt grant name now drawn persisted ticket route
      generalize (h.enrollInvited grant name now drawn persisted ticket route).1 = h' at he
      cases he with
      | refused => exact hs
      | unapproved => exact hs.keep rfl rfl rfl
      | unwritten hp => exact hs.keep rfl rfl rfl
      | @enrolled p g a hp hg ha ht hi hnm hald =>
        refine openSession ?_ (mem_append_right _ mem_cons_self) route
        refine ⟨fun hk hlv => ?_, hs.active⟩
        obtain ⟨hrt, d, hd, hr⟩ := hs.session hk hlv
        exact ⟨hrt, d, mem_append_left _ hd, hr⟩
  · split
    · exact hs
    · rename_i d hfd
      have hd : d ∈ h.book.devices := mem_of_find?_eq_some hfd
      exact hs.openSession hd route

end Sessions

/-! ### The calls -/

/-- What holds of every state of the host. -/
structure Inv (h : HostState) : Prop where
  notes : Notes h
  sessions : Sessions h

/-- A change that cannot be written changes nothing. -/
theorem unwritten (fits : List DeviceGrant → Bool) (h : HostState) (id : ℕ) (allowInput : Bool) :
    (h.revoke fits id false).1 = h ∧ (h.setInputPermission fits id allowInput false).1 = h := by
  unfold HostState.revoke HostState.setInputPermission
  cases h.book.reread fits with
  | none => exact ⟨rfl, rfl⟩
  | some replacement =>
    simp only [Bool.not_false, if_true]
    exact ⟨by split <;> rfl, by split <;> rfl⟩

theorem Inv.authorized (hi : Inv h) (fits : List DeviceGrant → Bool) : Authorized fits h where
  origin d hd := by
    obtain ⟨i, t, hc⟩ := hi.notes.origin d hd
    exact ⟨i, t, hc, fun i' t' n hc' => hi.notes.created_unique hc hc'⟩
  once _ _ _ _ _ _ _ hc hc' := hi.notes.once hc hc'
  approved := hi.notes.approved
  devices := (Nat.le_add_right _ _).trans hi.notes.count
  session k s hk hlv := (hi.sessions.session hk hlv).2
  only k l s t hk hl hks hlt hdev := by
    obtain ⟨⟨via, hv⟩, -⟩ := hi.sessions.session hk hks
    obtain ⟨⟨via', hv'⟩, -⟩ := hi.sessions.session hl hlt
    rw [hdev, hv'] at hv
    cases hv
    rfl
  failed := unwritten fits h

theorem Inv.generate : Inv generate where
  notes :=
    { pending_lt := nofun
      pending_new := nofun
      device_lt := nofun
      created_lt := nofun
      created_unique := nofun
      once := nofun
      origin := nofun
      requested := nofun
      allowed := nofun
      approved := fun _ _ _ _ _ hs => nomatch suffix_nil.mp hs
      count := Nat.zero_le _
      nodup := nodup_nil
      request_lt := nofun
      request_nodup := nodup_nil }
  sessions := ⟨nofun, nofun⟩

/-- Every call keeps the invariant. -/
theorem Inv.step (hi : Inv h) {fits : List DeviceGrant → Bool} {e : HostEvent} (hst : step fits h e = some h') : Inv h' := by
  obtain ⟨hn, hs⟩ := hi
  cases e with
  | issue accessOk name allowInput now drawn =>
    cases hst
    refine ⟨hn.issue accessOk name allowInput now drawn, ?_⟩
    unfold HostState.issue
    split
    · exact hs
    split
    · exact hs
    · refine hs.keep ?_ rfl rfl
      unfold PairingBook.issue
      simp only
      split
      · rfl
      · split
        · rfl
        · split <;> rfl
  | cancelInvitation id =>
    cases hst
    exact ⟨hn.cancelInvitation id, hs.keep rfl rfl rfl⟩
  | requestPairing grant name now drawn =>
    cases hst
    refine ⟨hn.requestPairing grant name now drawn, ?_⟩
    unfold HostState.requestPairing
    split
    · exact hs
    simp only
    split
    · exact hs
    · exact hs.keep rfl rfl rfl
  | cancelPairing id =>
    cases hst
    exact ⟨hn.cancelPairing id, hs.keep rfl rfl rfl⟩
  | decidePairing id allowInput now listening =>
    cases hst
    refine ⟨hn.decidePairing id allowInput now listening, ?_⟩
    unfold HostState.decidePairing
    simp only
    split
    · exact hs.keep rfl rfl rfl
    · split
      · exact hs.keep rfl rfl rfl
      · exact hs.keep rfl rfl rfl
  | enroll grant invitation name now drawn persisted approval route =>
    cases hst
    exact ⟨hn.enroll grant invitation name now drawn persisted approval route,
      hs.enroll hn grant invitation name now drawn persisted approval route⟩
  | markConnected k =>
    cases hst
    exact ⟨{ hn with }, hs.modifySession k fun _ => ⟨rfl, rfl, id⟩⟩
  | setInputPermission id allowInput persisted =>
    cases hst
    exact ⟨hn.setInputPermission fits id allowInput persisted, hs.setInputPermission fits id allowInput persisted⟩
  | revoke id persisted =>
    cases hst
    exact ⟨hn.revoke fits id persisted, hs.revoke fits id persisted⟩
  | dropSession k =>
    cases hst
    exact ⟨{ hn with }, hs.cancelSession k⟩

end HostState

/-- **Authorization**: in every state that calls in any order lead to, at whatever times and with
whatever outcomes of drawing secrets and of writing credentials, devices, requests and sessions
are as `Authorized` says. -/
theorem host_authorized (fits : List DeviceGrant → Bool) {events : List HostEvent} {h : HostState}
    (hrun : run (step fits) .generate events = some h) : Authorized fits h :=
  (run_invariant (step fits) (fun _ _ _ hi hst => HostState.Inv.step hi hst) HostState.Inv.generate hrun).authorized fits

/-- A phone is paired, and its permission is taken away. -/
def phoneEvents : List HostEvent :=
  [.issue true "pc".toList true 100 true, .requestPairing 0 "phone".toList 101 true, .decidePairing 2 (some true) 102 true,
    .enroll 0 true "phone".toList 103 true true (some 2) .lan, .setInputPermission 3 false false, .setInputPermission 3 false true]

theorem host_authorized_phone :
    ∃ h, run (step fun _ => true) .generate phoneEvents = some h ∧ h.sessions = [⟨3, false, false, false⟩] ∧
      Authorized (fun _ => true) h := by
  refine ⟨_, rfl, rfl, ?_⟩
  have hrun : run (step fun _ => true) .generate phoneEvents = some _ := rfl
  exact host_authorized (fun _ => true) hrun

end Pebrel.Link
