import Mathlib.Data.List.Perm.Subperm
import Pebrel.Library.Transition
import Pebrel.Link.RuntimeLink

/-!
# What the link to the runtime keeps

While no request is accepted under the identifier of a socket that is still there, the link knows
all its sockets (`Table`), and each of them is answered once (`Answers`). So in every run each
input is forwarded once at most, few sockets are open, and none when the link is closed
(`runtime_link_safe`).
-/

namespace Pebrel.Link.RuntimeLink

open Library Transition Sync List Option Policy
open Bool (eq_false_iff)

variable {link link' : RuntimeLink} {s t : RuntimeSocket} {i j : ℕ} {parse : List UInt8 → Option Json} {size : Json → ℕ} {allowInput : Bool}

/-! ### Invariants -/

/-- The link knows its sockets. -/
structure Table (link : RuntimeLink) : Prop where
  registered : link.closed = false → ∀ (i : ℕ) (s : RuntimeSocket), link.sockets[i]? = some s → s.state ≠ .closed →
    link.active.get? s.request.id = some i
  active : ∀ e ∈ link.active.entries, ∃ s, link.sockets[e.2]? = some s ∧ s.request.id = e.1 ∧ s.state ≠ .closed
  pending : link.active.entries.length ≤ maxPending
  destroyed : link.closed = true → ∀ (i : ℕ) (s : RuntimeSocket), link.sockets[i]? = some s → s.state ≠ .opened
  inputIds : link.closed = false → ∀ (i : ℕ) (s : RuntimeSocket), link.sockets[i]? = some s → s.isInput = true → s.request.id ∈ link.inputIds
  inputs : ∀ (i j : ℕ) (s t : RuntimeSocket), link.sockets[i]? = some s → link.sockets[j]? = some t → s.isInput = true → t.isInput = true →
    s.request.id = t.request.id → i = j

/-- Does this answer a socket? -/
def answersSocket (i : ℕ) : Emission → Bool
  | .response j _ => decide (j = i)
  | .deliveryUnknown j => decide (j = i)
  | _ => false

/-- The answers that were emitted for a socket. -/
def answers (link : RuntimeLink) (i : ℕ) : ℕ := (link.emitted.filter (answersSocket i)).length

/-- The answers that a socket has got. -/
def answered (s : RuntimeSocket) : ℕ := if (s.responded || s.ended) = true then 1 else 0

/-- A socket is answered once when it has responded, or is lost. -/
def Answers (link : RuntimeLink) : Prop := ∀ i, link.answers i = ((link.sockets[i]?).map answered).getD 0

structure Sound (link : RuntimeLink) : Prop where
  table : Table link
  answers : Answers link
  /-- A socket is lost only with the link. -/
  ended : ∀ (i : ℕ) (s : RuntimeSocket), link.sockets[i]? = some s → s.ended = true → link.closed = true
  /-- A socket that is gone has responded, or the link is closed. -/
  gone : ∀ (i : ℕ) (s : RuntimeSocket), link.sockets[i]? = some s → s.state ≠ .opened → s.responded = true ∨ link.closed = true

theorem new_sound : Sound .new :=
  ⟨⟨fun _ _ _ h => (nomatch h), fun _ h => (nomatch h), Nat.zero_le _, fun _ _ _ h => (nomatch h), fun _ _ _ h => (nomatch h),
    fun _ _ _ _ h => (nomatch h)⟩, fun _ => rfl, fun _ _ h => (nomatch h), fun _ _ h => (nomatch h)⟩

/-! ### Updates -/

theorem getElem?_update (f : RuntimeSocket → RuntimeSocket) (i j : ℕ) :
    (link.update i f).sockets[j]? = if i = j then (link.sockets[j]?).map f else link.sockets[j]? := by
  rw [update, getElem?_modify]
  split
  · rfl
  · cases link.sockets[j]? <;> rfl

/-- An update that leaves requests, and opens and closes no socket. -/
theorem Table.update (h : Table link) (f : RuntimeSocket → RuntimeSocket) (hrequ : ∀ s, (f s).request = s.request)
    (hc : ∀ s, (f s).state = .closed ↔ s.state = .closed) (hope : ∀ s, (f s).state = .opened → s.state = .opened) :
    Table (link.update i f) := by
  have hbk (j : ℕ) (t : RuntimeSocket) (ht : (link.update i f).sockets[j]? = some t) :
      ∃ s, link.sockets[j]? = some s ∧ t.request = s.request ∧ (t.state = .closed ↔ s.state = .closed) ∧
        (t.state = .opened → s.state = .opened) := by
    rw [getElem?_update] at ht
    split at ht
    · obtain ⟨s, hs, rfl⟩ := map_eq_some_iff.mp ht
      exact ⟨s, hs, hrequ s, hc s, hope s⟩
    · exact ⟨t, ht, rfl, .rfl, id⟩
  refine ⟨fun ho j t ht hstate => ?_, fun e he => ?_, h.pending, fun hclos j t ht hstate => ?_, fun ho j t ht hin => ?_,
    fun j k t u ht hu htin huin hid => ?_⟩
  · obtain ⟨s, hs, hr, hcl, -⟩ := hbk j t ht
    rw [hr]
    exact h.registered ho j s hs fun hcs => hstate (hcl.mpr hcs)
  · obtain ⟨s, hs, hid, hstate⟩ := h.active e he
    by_cases hi : i = e.2
    · refine ⟨f s, by rw [getElem?_update, if_pos hi, hs]; rfl, (congrArg RuntimeRequest.id (hrequ s)).trans hid,
        fun hcl => hstate ((hc s).mp hcl)⟩
    · exact ⟨s, by rw [getElem?_update, if_neg hi, hs], hid, hstate⟩
  · obtain ⟨s, hs, -, -, hop⟩ := hbk j t ht
    exact h.destroyed hclos j s hs (hop hstate)
  · obtain ⟨s, hs, hr, -, -⟩ := hbk j t ht
    rw [RuntimeSocket.isInput, hr] at hin
    rw [hr]
    exact h.inputIds ho j s hs hin
  · obtain ⟨s, hs, hr, -, -⟩ := hbk j t ht
    obtain ⟨s', hs', hr', -, -⟩ := hbk k u hu
    rw [RuntimeSocket.isInput, hr] at htin
    rw [RuntimeSocket.isInput, hr'] at huin
    rw [hr, hr'] at hid
    exact h.inputs j k s s' hs hs' htin huin hid

theorem answers_emit (e : Emission) (i : ℕ) : (link.emit e).answers i = link.answers i + if answersSocket i e = true then 1 else 0 := by
  rw [answers, answers, emit, filter_append, length_append, filter_cons]
  split <;> rfl

/-- Nothing but what is emitted changes. -/
theorem Table.emit (h : Table link) (e : Emission) : Table (link.emit e) :=
  ⟨h.registered, h.active, h.pending, h.destroyed, h.inputIds, h.inputs⟩

theorem Sound.refuse (h : Sound link) (id : Text) (code : FailureCode) : Sound (link.emit (.refusal id code)) :=
  ⟨h.table.emit _, fun i => (answers_emit _ i).trans (h.answers i), h.ended, h.gone⟩

theorem Answers.update (h : Answers link) (f : RuntimeSocket → RuntimeSocket)
    (hf : ∀ s, link.sockets[i]? = some s → ((f s).responded || (f s).ended) = (s.responded || s.ended)) : Answers (link.update i f) := by
  intro j
  rw [getElem?_update]
  refine (h j).trans ?_
  by_cases hi : i = j
  · subst hi
    rw [if_pos rfl]
    cases hs : link.sockets[i]? with
    | none => rfl
    | some s =>
      change answered s = answered (f s)
      rw [answered, answered, hf s hs]
  · rw [if_neg hi]

/-- A socket that is not answered yet is answered. -/
theorem Answers.answer (h : Answers link) (hs : link.sockets[i]? = some s) (hn : (s.responded || s.ended) = false)
    {f : RuntimeSocket → RuntimeSocket}
    (hf : ((f s).responded || (f s).ended) = true) {e : Emission} (he : ∀ j, answersSocket j e = decide (i = j)) :
    Answers ((link.update i f).emit e) := by
  intro j
  have hj := h j
  rw [answers_emit, he]
  change link.answers j + _ = (((link.update i f).sockets[j]?).map answered).getD 0
  rw [getElem?_update, hj]
  by_cases hi : i = j
  · subst hi
    rw [hs, if_pos rfl, if_pos (decide_eq_true rfl)]
    change answered s + 1 = answered (f s)
    rw [answered, answered, hf, hn]
    rfl
  · rw [if_neg hi, if_neg fun h => hi (of_decide_eq_true h)]
    rfl

/-! ### Closing -/

theorem sockets_close (h : Table link) (ho : link.closed = false) (i : ℕ) :
    link.close.sockets[i]? = (link.sockets[i]?).map .destroy := by
  rw [close, if_neg (eq_false_iff.mp ho), getElem?_mapIdx]
  cases hs : link.sockets[i]? with
  | none => rfl
  | some s =>
    change some (if link.active.entries.any (fun e => e.2 = i) = true then s.destroy else s) = some s.destroy
    split
    · rfl
    rename_i hn
    by_cases hstate : s.state = .opened
    · have hg := h.registered ho i s hs (by rw [hstate]; nofun)
      exact absurd (List.any_eq_true.mpr ⟨_, Assoc.Map.get?_eq_some_iff.mp hg, decide_eq_true rfl⟩) hn
    · rw [RuntimeSocket.destroy, if_neg hstate]

theorem close_closed : link.close.closed = true := by
  rw [close]
  split
  · assumption
  · rfl

theorem destroy_state (s : RuntimeSocket) : s.destroy.state ≠ .opened := by
  rw [RuntimeSocket.destroy]
  dsimp only
  split
  · exact nofun
  · assumption

theorem Table.close (h : Table link) : Table link.close := by
  cases ho : link.closed with
  | true =>
    have hsm : link.close = link := if_pos ho
    rw [hsm]
    exact h
  | false =>
    have hsockets := sockets_close h ho
    have ha : link.close.active = .empty := by rw [RuntimeLink.close, if_neg (eq_false_iff.mp ho)]
    have hcl : link.close.closed = true := close_closed
    refine ⟨fun h => (nomatch hcl.symm.trans h), fun e he => ?_, ?_, fun _ i s hs => ?_, fun h => (nomatch hcl.symm.trans h),
      fun i j s t hs ht hsin htin hid => ?_⟩
    · rw [ha] at he
      exact nomatch he
    · rw [ha]
      exact Nat.zero_le _
    · rw [hsockets] at hs
      obtain ⟨s, -, rfl⟩ := map_eq_some_iff.mp hs
      exact destroy_state s
    · rw [hsockets] at hs ht
      obtain ⟨s, hs', rfl⟩ := map_eq_some_iff.mp hs
      obtain ⟨t, ht', rfl⟩ := map_eq_some_iff.mp ht
      exact h.inputs i j s t hs' ht' hsin htin hid

theorem Answers.close (h : Answers link) (htb : Table link) : Answers link.close := by
  intro i
  cases ho : link.closed with
  | true =>
    have hsm : link.close = link := if_pos ho
    rw [hsm]
    exact h i
  | false =>
    have he : link.close.answers i = link.answers i := by rw [answers, RuntimeLink.close, if_neg (eq_false_iff.mp ho)]; rfl
    rw [sockets_close htb ho, he, h i]
    cases link.sockets[i]? <;> rfl

/-- A closed link is sound if its table and its answers are. -/
theorem Sound.of_closed (htb : Table link) (ha : Answers link) (hcl : link.closed = true) : Sound link :=
  ⟨htb, ha, fun _ _ _ _ => hcl, fun _ _ _ _ => .inr hcl⟩

/-- With a socket that is lost the link is closed. -/
theorem lost_sound (htb : Table link) (ha : Answers link) (hends : t.ended = true → link.closed = true) (ht : link.sockets[i]? = some t)
    (hresp : t.responded = s.responded) (he : t.ended = s.ended) : Sound (link.lost i s) ∧ (link.lost i s).closed = true := by
  unfold lost
  cases hd : s.ended || link.closed with
  | true =>
    have hcl : link.closed = true := (Bool.or_eq_true_iff.mp hd).elim (fun h => hends (he.trans h)) id
    exact ⟨.of_closed htb ha hcl, hcl⟩
  | false =>
    obtain ⟨hnot, ho⟩ := Bool.or_eq_false_iff.mp hd
    have htb' : Table (link.update i fun s => { s with ended := true }) := htb.update _ (fun _ => rfl) (fun _ => .rfl) fun _ => id
    dsimp only
    rw [if_neg Bool.false_ne_true]
    split
    · rename_i hs
      refine ⟨.of_closed htb'.close (.close (ha.update _ fun u hu => ?_) htb') close_closed, close_closed⟩
      obtain rfl := some.inj (ht.symm.trans hu)
      rw [hresp, hs, Bool.true_or, Bool.true_or]
    · rename_i hn
      refine ⟨.of_closed (htb'.emit _).close (Answers.close (ha.answer ht ?_ (Bool.or_true _) fun j => rfl) (htb'.emit _)) close_closed,
        close_closed⟩
      rw [hresp, he, hnot, eq_false_iff.mpr hn]
      rfl

theorem Table.destroy (h : Table link) : Table (link.update i .destroy) := by
  refine h.update _ (fun _ => rfl) (fun s => ?_) fun s hs => absurd hs (destroy_state s)
  rw [RuntimeSocket.destroy]
  dsimp only
  split
  · rename_i hop
    rw [hop]
    exact ⟨nofun, nofun⟩
  · exact .rfl

/-! ### Steps -/

/-- An update that leaves all but the bytes of a frame and whether the socket is connected. -/
theorem Sound.update (h : Sound link) (f : RuntimeSocket → RuntimeSocket) (hr : ∀ s, (f s).request = s.request)
    (hstate : ∀ s, (f s).state = s.state) (hresp : ∀ s, (f s).responded = s.responded) (he : ∀ s, (f s).ended = s.ended) :
    Sound (link.update i f) := by
  have hbk (j : ℕ) (t : RuntimeSocket) (ht : (link.update i f).sockets[j]? = some t) :
      ∃ s, link.sockets[j]? = some s ∧ t.state = s.state ∧ t.responded = s.responded ∧ t.ended = s.ended := by
    rw [getElem?_update] at ht
    split at ht
    · obtain ⟨s, hs, rfl⟩ := map_eq_some_iff.mp ht
      exact ⟨s, hs, hstate s, hresp s, he s⟩
    · exact ⟨t, ht, rfl, rfl, rfl⟩
  refine ⟨h.table.update f hr (fun s => hstate s ▸ .rfl) (fun s hs => hstate s ▸ hs),
    h.answers.update f fun s _ => by rw [hresp, he], fun j t ht hten => ?_, fun j t ht htst => ?_⟩
  · obtain ⟨s, hs, -, -, hsen⟩ := hbk j t ht
    exact h.ended j s hs (hsen ▸ hten)
  · obtain ⟨s, hs, hsst, hsre, -⟩ := hbk j t ht
    rw [hsre]
    exact h.gone j s hs (hsst ▸ htst)

/-- A socket is lost, and destroyed. -/
theorem Sound.drop (h : Sound link) (hs : link.sockets[i]? = some s) : Sound ((link.lost i s).update i .destroy) := by
  obtain ⟨hsou, hcl⟩ := lost_sound h.table h.answers (h.ended i s hs) hs rfl rfl
  exact .of_closed hsou.table.destroy (hsou.answers.update _ fun _ _ => rfl) hcl

/-- What a frame is to a socket that has responded, and to one that has not. -/
theorem answersSocket_frameOf {text : List UInt8} {e : Emission} (h : frameOf parse i s text = some e) (j : ℕ) :
    answersSocket j e = (!s.responded && decide (i = j)) := by
  unfold frameOf at h
  split at h
  · exact nomatch h
  split at h
  · rename_i hresp
    rw [hresp]
    split at h
    · split at h
      · obtain rfl := some.inj h
        rfl
      · exact nomatch h
    · exact nomatch h
  · rename_i hresp
    rw [eq_false_iff.mpr hresp]
    split at h
    · split at h
      · obtain rfl := some.inj h
        rfl
      · exact nomatch h
    · exact nomatch h

/-- A frame is passed on. -/
theorem Sound.frame (h : Sound link) (ho : link.closed = false) (hs : link.sockets[i]? = some s) {text : List UInt8} {e : Emission}
    (he : frameOf parse i s text = some e) :
    Sound ((link.update i fun s => { s with fragments := [], responded := true }).emit e) := by
  have hend : s.ended = false := eq_false_iff.mpr fun hend => nomatch ho.symm.trans (h.ended i s hs hend)
  have hbk (j : ℕ) (t : RuntimeSocket) (ht : (link.update i fun s => { s with fragments := [], responded := true }).sockets[j]? = some t) :
      t.responded = true ∨ link.sockets[j]? = some t := by
    rw [getElem?_update] at ht
    split at ht
    · obtain ⟨s, -, rfl⟩ := map_eq_some_iff.mp ht
      exact .inl rfl
    · exact .inr ht
  have hends (j : ℕ) (t : RuntimeSocket) (ht : (link.update i fun s => { s with fragments := [], responded := true }).sockets[j]? = some t)
      (hten : t.ended = true) : link.closed = true := by
    rw [getElem?_update] at ht
    split at ht
    · obtain ⟨s, hs, rfl⟩ := map_eq_some_iff.mp ht
      exact h.ended j s hs hten
    · exact h.ended j t ht hten
  refine ⟨(h.table.update (fun s => { s with fragments := [], responded := true }) (fun _ => rfl)
    (fun _ => .rfl) fun _ => id).emit e, ?_, hends,
    fun j t ht hstate => ?_⟩
  · have ha := answersSocket_frameOf he
    cases hresp : s.responded with
    | true =>
      intro j
      rw [answers_emit, ha, hresp]
      refine h.answers.update (fun s => { s with fragments := [], responded := true }) (fun u hu => ?_) j
      obtain rfl := some.inj (hs.symm.trans hu)
      rw [hresp]
    | false =>
      refine h.answers.answer hs ?_ rfl fun j => ?_
      · rw [hresp, hend]
        rfl
      · rw [ha, hresp]
        rfl
  · rcases hbk j t ht with hresp | ht
    · exact .inl hresp
    · exact h.gone j t ht hstate

theorem Sound.feedPiece (h : Sound link) (piece : List UInt8 × Bool) : Sound (link.feedPiece parse i piece) := by
  unfold RuntimeLink.feedPiece
  split
  · exact h
  rename_i ho
  split
  · exact h
  rename_i s hs
  dsimp only
  split
  · exact h.drop hs
  split
  · exact h.update _ (fun _ => rfl) (fun _ => rfl) (fun _ => rfl) fun _ => rfl
  · split
    · rename_i e he
      exact h.frame (eq_false_iff.mpr ho) hs he
    · exact h.drop hs

theorem Sound.feed (h : Sound link) (pieces : List (List UInt8 × Bool)) : Sound (pieces.foldl (.feedPiece parse i) link) := by
  induction pieces generalizing link with
  | nil => exact h
  | cons piece pieces ih => exact ih (h.feedPiece piece)

/-- A socket that fails is destroyed, and lost. -/
theorem Sound.fail (h : Sound link) (hs : link.sockets[i]? = some s) : Sound ((link.update i .destroy).lost i s) := by
  have ht : (link.update i .destroy).sockets[i]? = some s.destroy := by
    rw [getElem?_update, if_pos rfl, hs]
    rfl
  exact (lost_sound (t := s.destroy) h.table.destroy (h.answers.update _ fun _ _ => rfl) (h.ended i s hs) ht rfl rfl).1

/-- A socket that closes is forgotten. -/
theorem Table.forget (h : Table link) (hs : link.sockets[i]? = some s) (hstate : s.state ≠ .closed) :
    Table { link.update i fun s => { s with state := .closed } with active := link.active.filterKeys (· ≠ s.request.id) } := by
  have hbk (j : ℕ) (t : RuntimeSocket) (ht : (link.update i fun s => { s with state := .closed }).sockets[j]? = some t) :
      ∃ s, link.sockets[j]? = some s ∧ t.request = s.request ∧ (t.state ≠ .closed → i ≠ j ∧ t = s) ∧ (t.state = .opened → t = s) := by
    rw [getElem?_update] at ht
    split at ht
    · obtain ⟨u, hu, rfl⟩ := map_eq_some_iff.mp ht
      exact ⟨u, hu, rfl, fun hne => absurd rfl hne, nofun⟩
    · rename_i hne
      exact ⟨t, ht, rfl, fun _ => ⟨hne, rfl⟩, fun _ => rfl⟩
  refine ⟨fun ho j t ht htst => ?_, fun e he => ?_, ?_, fun hcl j t ht htst => ?_, fun ho j t ht hin => ?_,
    fun j k t u ht hu htin huin hid => ?_⟩
  · obtain ⟨u, hu, -, hsm, -⟩ := hbk j t ht
    obtain ⟨hne, rfl⟩ := hsm htst
    have hg := h.registered ho j t hu htst
    have hid : t.request.id ≠ s.request.id := by
      intro hid
      rw [hid, h.registered ho i s hs hstate] at hg
      exact hne (some.inj hg)
    change (link.active.filterKeys (· ≠ s.request.id)).get? t.request.id = some j
    rw [Assoc.Map.get?_filterKeys, if_pos (decide_eq_true hid), hg]
  · obtain ⟨he, hne⟩ := Assoc.Map.mem_entries_filterKeys.mp he
    obtain ⟨u, hu, hid, hust⟩ := h.active e he
    have hi : i ≠ e.2 := by
      rintro rfl
      obtain rfl := some.inj (hs.symm.trans hu)
      exact of_decide_eq_true hne hid.symm
    refine ⟨u, ?_, hid, hust⟩
    change (link.update i _).sockets[e.2]? = some u
    rw [getElem?_update, if_neg hi, hu]
  · exact Nat.le_trans (length_filter_le _ _) h.pending
  · obtain ⟨u, hu, -, -, hsm⟩ := hbk j t ht
    obtain rfl := hsm htst
    exact h.destroyed hcl j t hu htst
  · obtain ⟨u, hu, hr, -, -⟩ := hbk j t ht
    rw [RuntimeSocket.isInput, hr] at hin
    rw [hr]
    exact h.inputIds ho j u hu hin
  · obtain ⟨v, hv, hr, -, -⟩ := hbk j t ht
    obtain ⟨w, hw, hr', -, -⟩ := hbk k u hu
    rw [RuntimeSocket.isInput, hr] at htin
    rw [RuntimeSocket.isInput, hr'] at huin
    rw [hr, hr'] at hid
    exact h.inputs j k v w hv hw htin huin hid

theorem Sound.socketClosed (h : Sound link) (hs : link.sockets[i]? = some s) (hstate : s.state ≠ .closed) :
    Sound (link.socketClosed i s) := by
  have htb := h.table.forget hs hstate
  have ha : Answers { link.update i fun s => { s with state := .closed } with active := link.active.filterKeys (· ≠ s.request.id) } :=
    h.answers.update (fun s => { s with state := .closed }) fun _ _ => rfl
  have ht : (link.update i fun s => { s with state := .closed }).sockets[i]? = some { s with state := .closed } := by
    rw [getElem?_update, if_pos rfl, hs]
    rfl
  unfold RuntimeLink.socketClosed
  dsimp only
  split
  · exact (lost_sound (t := { s with state := .closed }) htb ha (h.ended i s hs) ht rfl rfl).1
  rename_i hd
  push Not at hd
  refine ⟨htb, ha, fun j t hj he => ?_, fun j t hj htst => ?_⟩
  · change (link.update i _).sockets[j]? = some t at hj
    rw [getElem?_update] at hj
    split at hj
    · obtain ⟨u, hu, rfl⟩ := map_eq_some_iff.mp hj
      exact h.ended j u hu he
    · exact h.ended j t hj he
  · change (link.update i _).sockets[j]? = some t at hj
    rw [getElem?_update] at hj
    split at hj
    · rename_i hi
      subst hi
      obtain ⟨u, hu, rfl⟩ := map_eq_some_iff.mp hj
      obtain rfl := some.inj (hs.symm.trans hu)
      exact .inl (Bool.not_eq_false _ ▸ hd.2.1)
    · exact h.gone j t hj htst

theorem Sound.close (h : Sound link) : Sound link.close := .of_closed h.table.close (h.answers.close h.table) close_closed

/-! ### Requests -/

/-- The sockets with a further one. -/
theorem getElem?_accept {request : RuntimeRequest} (h : (link.accept request).sockets[j]? = some t) :
    link.sockets[j]? = some t ∨ j = link.sockets.length ∧ t = ⟨request, .opened, false, [], false, false⟩ := by
  rw [accept, getElem?_append] at h
  split at h
  · exact .inl h
  rename_i hl
  rw [getElem?_singleton] at h
  split at h
  · rename_i hz
    exact .inr ⟨Nat.le_antisymm (Nat.sub_eq_zero_iff_le.mp hz) (Nat.not_lt.mp hl), (some.inj h).symm⟩
  · exact nomatch h

/-- A socket is opened under an identifier that no socket has, and no input had. -/
theorem Sound.accept (h : Sound link) {request : RuntimeRequest} (ho : link.closed = false) (ha : link.active.get? request.id = none)
    (hin : request.id ∉ link.inputIds) (hpd : link.active.entries.length < maxPending) : Sound (link.accept request) := by
  have hnew : (link.accept request).sockets[link.sockets.length]? = some
    ⟨request, .opened, false, [], false, false⟩ := getElem?_concat_length
  have hold (j : ℕ) (t : RuntimeSocket) (hj : link.sockets[j]? = some t) : (link.accept request).sockets[j]? = some t :=
    (getElem?_append_left (List.getElem?_eq_some_iff.mp hj).1).trans hj
  have hi (s : RuntimeSocket) (hid : s.request.id ∈ link.inputIds) : s.request.id ∈ (link.accept request).inputIds := by
    change s.request.id ∈ if request.method ∈ Policy.input then link.inputIds ++ [request.id] else link.inputIds
    split
    · exact mem_append_left _ hid
    · exact hid
  refine ⟨⟨fun _ j t ht hstate => ?_, fun e he => ?_, ?_, fun hcl => (nomatch ho.symm.trans hcl), fun _ j t ht htin => ?_,
    fun j k t u ht hu htin huin hid => ?_⟩, fun j => ?_, fun j t ht hend => ?_, fun j t ht hstate => ?_⟩
  · change (link.active.insert request.id link.sockets.length).get? t.request.id = some j
    rw [Assoc.Map.get?_insert]
    rcases getElem?_accept ht with ht | ⟨rfl, rfl⟩
    · have hg := h.table.registered ho j t ht hstate
      rw [if_neg fun hid => (nomatch (hid ▸ hg).symm.trans ha), hg]
    · exact if_pos rfl
  · rcases Assoc.Map.mem_entries_insert.mp he with rfl | ⟨he, -⟩
    · exact ⟨_, hnew, rfl, nofun⟩
    · obtain ⟨s, hs, hid, hstate⟩ := h.table.active e he
      exact ⟨s, hold _ s hs, hid, hstate⟩
  · refine Nat.le_trans (Nat.le_of_eq Assoc.Map.length_insert) ?_
    rw [Assoc.Map.containsKey_eq_isSome, ha, isSome_none, if_neg Bool.false_ne_true]
    exact hpd
  · rcases getElem?_accept ht with ht | ⟨rfl, rfl⟩
    · exact hi t (h.table.inputIds ho j t ht htin)
    · change request.id ∈ if request.method ∈ Policy.input then link.inputIds ++ [request.id] else link.inputIds
      rw [if_pos (of_decide_eq_true htin)]
      exact mem_append_right _ mem_cons_self
  · rcases getElem?_accept ht with ht | ⟨rfl, rfl⟩ <;> rcases getElem?_accept hu with hu | ⟨rfl, rfl⟩
    · exact h.table.inputs j k t u ht hu htin huin hid
    · exact absurd (hid ▸ h.table.inputIds ho j t ht htin) hin
    · exact absurd (hid.symm ▸ h.table.inputIds ho k u hu huin) hin
    · rfl
  · refine (h.answers j).trans ?_
    cases hj : (link.accept request).sockets[j]? with
    | none =>
      have hn : link.sockets[j]? = none := eq_none_iff_forall_ne_some.mpr fun t ht => nomatch hj.symm.trans (hold j t ht)
      rw [hn]
    | some t =>
      rcases getElem?_accept hj with ht | ⟨rfl, rfl⟩
      · rw [ht]
      · rw [getElem?_eq_none (Nat.le_refl _)]
        rfl
  · rcases getElem?_accept ht with ht | ⟨rfl, rfl⟩
    · exact h.ended j t ht hend
    · exact nomatch hend
  · rcases getElem?_accept ht with ht | ⟨rfl, rfl⟩
    · exact h.gone j t ht hstate
    · exact absurd rfl hstate

/-- A request that was checked is accepted. -/
structure Admits (link : RuntimeLink) (request : RuntimeRequest) : Prop where
  opened : link.closed = false
  seen : request.id ∉ link.seen
  input : request.id ∉ link.inputIds
  pending : link.active.entries.length < maxPending
  subscribed : request.method = "events.subscribe".toList → link.subscribed = false
  budget : request.method ∈ Policy.input → link.inputIds.length < 4096

/-- No request is accepted under the identifier of a socket that is still there. -/
def Fresh (size : Json → ℕ) (allowInput : Bool) (link : RuntimeLink) : Action → Prop
  | .request raw => ∀ request, validateRequest size allowInput raw = .ok request → link.Admits request → link.active.get? request.id = none
  | _ => True

/-- A request that is not accepted is refused, or the link is closed. -/
theorem request_cases (link : RuntimeLink) (size : Json → ℕ) (allowInput : Bool) (raw : Json) :
    link.request size allowInput raw = link ∨ (∃ id code, link.request size allowInput raw = link.emit (.refusal id code)) ∨
      ∃ request, validateRequest size allowInput raw = .ok request ∧ link.Admits request ∧
        link.request size allowInput raw = link.accept request := by
  unfold RuntimeLink.request
  split
  · exact .inl rfl
  rename_i ho
  split
  · exact .inr (.inl ⟨_, _, rfl⟩)
  rename_i request hr
  split
  · exact .inr (.inl ⟨_, _, rfl⟩)
  rename_i hseen
  push Not at hseen
  split
  · exact .inr (.inl ⟨_, _, rfl⟩)
  rename_i hpd
  split
  · exact .inr (.inl ⟨_, _, rfl⟩)
  rename_i hs
  split
  · exact .inr (.inl ⟨_, _, rfl⟩)
  rename_i hb
  exact .inr (.inr ⟨request, hr, ⟨eq_false_iff.mpr ho, hseen.1, hseen.2, Nat.lt_of_not_le hpd,
    fun hmeth => eq_false_iff.mpr fun h => hs ⟨hmeth, h⟩,
    fun hmeth => Nat.lt_of_not_le fun h => hb ⟨hmeth, h⟩⟩, rfl⟩)

theorem Sound.request (h : Sound link) {raw : Json} (hfr : link.Fresh size allowInput (.request raw)) :
    Sound (link.request size allowInput raw) := by
  obtain hsm | ⟨id, code, hr⟩ | ⟨request, hv, ha, hacc⟩ := link.request_cases size allowInput raw
  · rw [hsm]
    exact h
  · rw [hr]
    exact h.refuse id code
  · rw [hacc]
    exact h.accept ha.opened (hfr request hv ha) ha.input ha.pending

/-! ### Runs -/

theorem whenOpened_eq_some {f : RuntimeSocket → RuntimeLink} (h : link.whenOpened i f = some link') :
    ∃ s, link.sockets[i]? = some s ∧ s.state = .opened ∧ f s = link' := by
  unfold whenOpened at h
  split at h
  · split at h
    · rename_i s hs hstate
      exact ⟨s, hs, hstate, some.inj h⟩
    · exact nomatch h
  · exact nomatch h

theorem socketClose_eq_some (hst : step size allowInput parse link (.socketClose i) = some link') :
    ∃ s, link.sockets[i]? = some s ∧ s.state ≠ .closed ∧ link' = link.socketClosed i s := by
  rw [RuntimeLink.step] at hst
  cases hs : link.sockets[i]? with
  | none =>
    rw [hs] at hst
    cases hst
  | some s =>
    rw [hs] at hst
    dsimp only at hst
    by_cases hstate : s.state = .closed
    · rw [if_pos hstate] at hst
      cases hst
    · rw [if_neg hstate] at hst
      exact ⟨s, rfl, hstate, (some.inj hst).symm⟩

theorem Sound.step (h : Sound link) {a : Action} (hfr : link.Fresh size allowInput a)
    (hst : step size allowInput parse link a = some link') : Sound link' := by
  cases a with
  | request raw =>
    obtain rfl := some.inj hst
    exact h.request hfr
  | connect i =>
    change (if _ then none else _) = some link' at hst
    split at hst
    · exact nomatch hst
    · obtain ⟨s, -, -, rfl⟩ := whenOpened_eq_some hst
      exact h.update _ (fun _ => rfl) (fun _ => rfl) (fun _ => rfl) fun _ => rfl
  | data i bytes =>
    obtain ⟨s, -, -, rfl⟩ := whenOpened_eq_some hst
    exact h.feed _
  | timeout i =>
    obtain ⟨s, hs, -, rfl⟩ := whenOpened_eq_some hst
    exact h.drop hs
  | error i =>
    obtain ⟨s, hs, -, rfl⟩ := whenOpened_eq_some hst
    exact h.fail hs
  | socketClose i =>
    obtain ⟨s, hs, hstate, rfl⟩ := socketClose_eq_some hst
    exact h.socketClosed hs hstate
  | close =>
    obtain rfl := some.inj hst
    exact h.close

/-- A closed link emits nothing. -/
theorem emitted_of_closed {a : Action} (hcl : link.closed = true) (hst : step size allowInput parse link a = some link') :
    link'.closed = true ∧ link'.emitted = link.emitted := by
  have hlost (link : RuntimeLink) (i : ℕ) (s : RuntimeSocket) (hcl : link.closed = true) : link.lost i s = link := by
    rw [lost, hcl, Bool.or_true, if_pos rfl]
  cases a with
  | request raw =>
    obtain rfl := some.inj hst
    rw [RuntimeLink.request, if_pos hcl]
    exact ⟨hcl, rfl⟩
  | connect i =>
    change (if _ then none else _) = some link' at hst
    split at hst
    · exact nomatch hst
    · obtain ⟨s, -, -, rfl⟩ := whenOpened_eq_some hst
      exact ⟨hcl, rfl⟩
  | data i bytes =>
    obtain ⟨s, -, -, rfl⟩ := whenOpened_eq_some hst
    have hfeed (pieces : List (List UInt8 × Bool)) : pieces.foldl (.feedPiece parse i) link = link := by
      induction pieces with
      | nil => rfl
      | cons piece pieces ih => rwa [foldl_cons, RuntimeLink.feedPiece, if_pos hcl]
    rw [hfeed]
    exact ⟨hcl, rfl⟩
  | timeout i =>
    obtain ⟨s, -, -, rfl⟩ := whenOpened_eq_some hst
    rw [hlost link i s hcl]
    exact ⟨hcl, rfl⟩
  | error i =>
    obtain ⟨s, -, -, rfl⟩ := whenOpened_eq_some hst
    rw [hlost (link.update i RuntimeSocket.destroy) i s hcl]
    exact ⟨hcl, rfl⟩
  | socketClose i =>
    obtain ⟨s, -, -, rfl⟩ := socketClose_eq_some hst
    unfold RuntimeLink.socketClosed
    dsimp only
    split
    · rw [hlost]
      · exact ⟨hcl, rfl⟩
      · exact hcl
    · exact ⟨hcl, rfl⟩
  | close =>
    obtain rfl := some.inj hst
    rw [RuntimeLink.close, if_pos hcl]
    exact ⟨hcl, rfl⟩

/-- The sockets that are open. -/
def openSockets (link : RuntimeLink) : List ℕ :=
  (List.range link.sockets.length).filter fun i => (link.sockets[i]?).any fun s => decide (s.state = .opened)

/-- What the link promises in every state. -/
structure Safe (link : RuntimeLink) : Prop where
  /-- An input is forwarded by one socket at most. -/
  forwarded : ∀ (i j : ℕ) (s t : RuntimeSocket), link.sockets[i]? = some s → link.sockets[j]? = some t →
    s.connected = true → t.connected = true →
    s.isInput = true → t.isInput = true → s.request.id = t.request.id → i = j
  pending : link.openSockets.length ≤ maxPending
  once : ∀ i, link.answers i ≤ 1
  /-- A socket of an open link is answered before it is gone. -/
  answered : link.closed = false → ∀ (i : ℕ) (s : RuntimeSocket), link.sockets[i]? = some s → s.state ≠ .opened → link.answers i = 1
  destroyed : link.closed = true → ∀ (i : ℕ) (s : RuntimeSocket), link.sockets[i]? = some s → s.state ≠ .opened

theorem Table.openSockets_length (h : Table link) : link.openSockets.length ≤ maxPending := by
  refine Nat.le_trans ?_ h.pending
  have hnd : link.openSockets.Nodup := nodup_range.filter _
  have hsub : link.openSockets ⊆ link.active.entries.map Prod.snd := by
    intro i hi
    obtain ⟨-, hop⟩ := mem_filter.mp hi
    obtain ⟨s, hs, hstate⟩ := (Option.any_eq_true _ _).mp hop
    have ho : link.closed = false := eq_false_iff.mpr fun hcl => h.destroyed hcl i s hs (of_decide_eq_true hstate)
    have hg := h.registered ho i s hs (by rw [of_decide_eq_true hstate]; nofun)
    exact List.mem_map.mpr ⟨_, Assoc.Map.get?_eq_some_iff.mp hg, rfl⟩
  refine Nat.le_trans (hnd.subperm hsub).length_le ?_
  rw [length_map]

theorem Sound.safe (h : Sound link) : Safe link := by
  refine ⟨fun i j s t hs ht _ _ hsin htin hid => h.table.inputs i j s t hs ht hsin htin hid, h.table.openSockets_length, fun i => ?_,
    fun ho i s hs hstate => ?_, h.table.destroyed⟩
  · rw [h.answers i]
    cases link.sockets[i]? with
    | none => exact Nat.zero_le 1
    | some s =>
      change answered s ≤ 1
      rw [RuntimeLink.answered]
      split
      · exact Nat.le_refl 1
      · exact Nat.zero_le 1
  · have hresp : s.responded = true := (h.gone i s hs hstate).resolve_right fun hcl => nomatch ho.symm.trans hcl
    rw [h.answers i, hs]
    change RuntimeLink.answered s = 1
    rw [RuntimeLink.answered, hresp]
    rfl

/-- **Requests under new identifiers keep the link safe.** In a run where no request is accepted under the identifier of a socket that is still
there, each input is forwarded once at most, at most sixteen sockets are open, each socket is answered once before it is gone, and a link that is
closed has no socket open and emits nothing more. -/
theorem runtime_link_safe {as : List Action} (h : Meets (step size allowInput parse) (Fresh size allowInput) .new as) :
    Along (step size allowInput parse) Safe .new as ∧
      ∀ link, run (step size allowInput parse) .new as = some link → link.closed = true →
        ∀ bs link', run (step size allowInput parse) link bs = some link' → link'.emitted = link.emitted := by
  refine ⟨along_of_meets _ (fun _ => Sound.safe) (fun _ _ _ hs hfr hst => hs.step hfr hst) new_sound h, fun link _ hcl bs link' hrun => ?_⟩
  have hkp : link'.closed = true ∧ link'.emitted = link.emitted :=
    run_invariant _ (P := fun u => u.closed = true ∧ u.emitted = link.emitted)
      (fun u a u' hu hst => (emitted_of_closed hu.1 hst).imp id fun he => he.trans hu.2) ⟨hcl, rfl⟩ hrun
  exact hkp.2

/-! ### A long subscription

An answer is parsed as far as the run below needs it: the text of an object with an identifier of
two letters, and the value `true` of `ok`.
-/

def sampleId (a b : UInt8) : Text := [.ofNat a.toNat, .ofNat b.toNat]

def sampleFrame (a b : UInt8) : Json := .object [("id".toList, .string (sampleId a b)), ("ok".toList, .bool true)]

/-- The text of a frame without its newline. -/
def sampleText (a b : UInt8) : List UInt8 := [123, 34, 105, 100, 34, 58, 34] ++ [a, b] ++
    [34, 44, 34, 111, 107, 34, 58, 116, 114, 117, 101, 125]

def sampleParse : List UInt8 → Option Json
  | [123, 34, 105, 100, 34, 58, 34, a, b, 34, 44, 34, 111, 107, 34, 58, 116, 114, 117, 101, 125, 10] => some (sampleFrame a b)
  | _ => none

def sampleRequest (a b : UInt8) (method : String) : Json :=
  .object [("id".toList, .string (sampleId a b)), ("method".toList, .string method.toList)]

/-- A request for a snapshot that is answered. -/
def poll (i : ℕ) (a b : UInt8) : List Action :=
  [.request (sampleRequest a b "runtime.snapshot"), .connect i, .data i (sampleText a b ++ [10]), .socketClose i]

/-- An input that is answered. -/
def sampleInput : List Action :=
  [.request (sampleRequest 97 98 "conversation.send"), .connect 0, .data 0 (sampleText 97 98 ++ [10]), .socketClose 0, .close]

theorem runtime_link_safe_sample :
    ((run (step (fun _ => 39) true sampleParse) .new sampleInput).map fun link => (link.answers 0, link.emitted.length)) = some (1, 1) ∧
      Along (step (fun _ => 39) true sampleParse) Safe .new sampleInput := by
  have hm : Meets (step (fun _ => 39) true sampleParse) (Fresh (fun _ => 39) true) .new sampleInput :=
    ⟨fun _ _ _ => rfl, fun _ _ => ⟨trivial, fun _ _ => ⟨trivial, fun _ _ => ⟨trivial, fun _ _ => ⟨trivial, fun _ _ => trivial⟩⟩⟩⟩⟩
  exact ⟨by decide, (runtime_link_safe hm).1⟩

theorem pieces_line (piece : List UInt8) {text : List UInt8} (h : (10 : UInt8) ∉ text) :
    pieces piece (text ++ [10]) = [(piece ++ text ++ [10], true)] := by
  induction text generalizing piece with
  | nil => simp [pieces]
  | cons b text ih =>
    rw [mem_cons, not_or] at h
    obtain ⟨hb, ht⟩ := h
    rw [cons_append, pieces, if_neg (Ne.symm hb), ih _ ht]
    simp

theorem validateRequest_sample {a b : UInt8} (hid : checkId (some (.string (sampleId a b))) = .ok (sampleId a b)) (method : String)
    (hmeth : method = "runtime.snapshot" ∨ method = "events.subscribe") :
    validateRequest (fun _ => 39) true (sampleRequest a b method) = .ok ⟨sampleId a b, method.toList, []⟩ := by
  have hkeys : ([("id".toList, .string (sampleId a b)), ("method".toList, .string method.toList)] : List (Text × Json)).all
      (fun m => ["id", "method", "params"].contains (.ofList m.1)) = true := rfl
  have hg : (sampleRequest a b method).get? "id".toList = some (.string (sampleId a b)) := rfl
  rw [sampleRequest, validateRequest, hkeys, if_neg Bool.false_ne_true.symm, ← sampleRequest, hg, hid]
  rcases hmeth with rfl | rfl
  · rfl
  · rfl

theorem modify_concat {α : Type*} (f : α → α) (x : α) (xs : List α) : (xs ++ [x]).modify xs.length f = xs ++ [f x] := by
  induction xs with
  | nil => rfl
  | cons y xs ih => rw [cons_append, length_cons, modify_succ_cons, ih, cons_append]

/-- The socket that was opened last changes. -/
theorem update_concat (f : RuntimeSocket → RuntimeSocket) {sockets : List RuntimeSocket} (h : link.sockets = sockets ++ [s]) :
    link.update sockets.length f = { link with sockets := sockets ++ [f s] } := by
  rw [update, h, modify_concat]

theorem whenOpened_concat (f : RuntimeSocket → RuntimeLink) {sockets : List RuntimeSocket} (h : link.sockets = sockets ++ [s])
    (hstate : s.state = .opened) : link.whenOpened sockets.length f = some (f s) := by
  rw [whenOpened, h, getElem?_concat_length]
  exact if_pos hstate

theorem accept_sample {a b : UInt8} (hid : checkId (some (.string (sampleId a b))) = .ok (sampleId a b)) {method : String}
    (hmeth : method = "runtime.snapshot" ∨ method = "events.subscribe") (ha : link.Admits ⟨sampleId a b, method.toList, []⟩) :
    step (fun _ => 39) true sampleParse link (.request (sampleRequest a b method)) = some
      (link.accept ⟨sampleId a b, method.toList, []⟩) := by
  change some (link.request _ _ _) = _
  rw [RuntimeLink.request, if_neg (eq_false_iff.mp ha.opened), validateRequest_sample hid method hmeth]
  dsimp only
  have hin : method.toList ∉ Policy.input := by
    rcases hmeth with rfl | rfl
    · decide
    · decide
  rw [if_neg (not_or.mpr ⟨ha.seen, ha.input⟩), if_neg (Nat.not_le.mpr ha.pending),
    if_neg fun h => eq_false_iff.mp (ha.subscribed h.1) h.2, if_neg fun h => hin h.1]

section last
variable {sockets : List RuntimeSocket} (hsockets : link.sockets = sockets ++ [s]) (hstate : s.state = .opened)
include hsockets hstate

theorem connect_last (hc : s.connected = false) :
    step size allowInput parse link (.connect sockets.length) = some { link with sockets := sockets ++ [{ s with connected := true }] } := by
  have hg : link.sockets[sockets.length]? = some s := by rw [hsockets, getElem?_concat_length]
  change (if (link.sockets[sockets.length]?.any RuntimeSocket.connected) = true then none else _) = _
  rw [hg, any_some, hc, if_neg Bool.false_ne_true, whenOpened_concat _ hsockets hstate, update_concat _ hsockets]

theorem answer_last {a b : UInt8} (hnl : (10 : UInt8) ∉ sampleText a b) (ho : link.closed = false) (hid : s.request.id = sampleId a b)
    (hf : s.fragments = []) (hresp : s.responded = false) :
    step size allowInput sampleParse link (.data sockets.length (sampleText a b ++ [10])) =
      some { link with
        sockets := sockets ++ [{ s with fragments := [], responded := true }]
        emitted := link.emitted ++ [.response sockets.length (sampleFrame a b)] } := by
  have hg : link.sockets[sockets.length]? = some s := by rw [hsockets, getElem?_concat_length]
  have hps : sampleParse (sampleText a b ++ [10]) = some (sampleFrame a b) := rfl
  have hl : (sampleText a b ++ [10]).length ≤ maxFrameBytes := by
    change 22 ≤ 2097152
    decide
  have hfram : frameOf sampleParse sockets.length s (sampleText a b ++ [10]) = some (.response sockets.length (sampleFrame a b)) := by
    rw [frameOf, hps]
    dsimp only
    rw [if_neg (eq_false_iff.mp hresp)]
    exact if_pos hid.symm
  refine (whenOpened_concat _ hsockets hstate).trans (congrArg some ?_)
  rw [pieces_line [] hnl, nil_append, foldl_cons, foldl_nil, RuntimeLink.feedPiece, if_neg (eq_false_iff.mp ho), hg]
  dsimp only
  rw [hf, nil_append, if_neg (Nat.not_lt.mpr hl), if_neg (Bool.false_ne_true.symm), hfram]
  dsimp only
  rw [update_concat _ hsockets, emit]

theorem close_last (hf : s.fragments = []) (hresp : s.responded = true) (hmeth : s.isSubscription = false) :
    step size allowInput parse link (.socketClose sockets.length) =
      some { link with sockets := sockets ++ [{ s with state := .closed }], active := link.active.filterKeys (· ≠ s.request.id) } := by
  have hg : link.sockets[sockets.length]? = some s := by rw [hsockets, getElem?_concat_length]
  have hd : ¬(s.fragments.length ≠ 0 ∨ s.responded = false ∨ s.isSubscription = true) := by
    rw [hf, hresp, hmeth]
    decide
  rw [RuntimeLink.step, hg]
  dsimp only
  rw [if_neg fun h : s.state = .closed => (nomatch hstate.symm.trans h), RuntimeLink.socketClosed, update_concat _ hsockets]
  exact congrArg some (if_neg hd)

end last

/-- A poll leaves its identifier among those that are remembered. -/
theorem run_poll {a b : UInt8} (hid : checkId (some (.string (sampleId a b))) = .ok (sampleId a b)) (hnl : (10 : UInt8) ∉ sampleText a b)
    (ho : link.closed = false) (hseen : sampleId a b ∉ link.seen) (hin : link.inputIds = [])
    (hpd : link.active.entries.length < maxPending) (ha : link.active.get? (sampleId a b) = none) :
    ∃ link', run (step (fun _ => 39) true sampleParse) link (poll link.sockets.length a b) = some link' ∧ link'.closed = false ∧
      link'.active = link.active ∧ link'.seen = remember link.seen (sampleId a b) ∧ link'.inputIds = [] ∧
      ∃ s, link'.sockets = link.sockets ++ [s] := by
  have hadm : link.Admits ⟨sampleId a b, "runtime.snapshot".toList, []⟩ :=
    ⟨ho, hseen, by rw [hin]; exact not_mem_nil, hpd, fun h => (nomatch h), fun _ => by rw [hin]; decide⟩
  have hkeep : (link.active.insert (sampleId a b) link.sockets.length).filterKeys (· ≠ sampleId a b) = link.active :=
    Assoc.Map.filterKeys_insert ha
  have hr := accept_sample hid (.inl rfl) hadm
  refine ⟨_, (run_cons_eq_some _).mpr ⟨_, hr, (run_cons_eq_some _).mpr ⟨_, connect_last rfl rfl rfl, (run_cons_eq_some _).mpr ⟨_,
    answer_last rfl rfl hnl ho rfl rfl rfl, (run_cons_eq_some _).mpr ⟨_, close_last rfl rfl rfl rfl rfl, rfl⟩⟩⟩⟩, ho,
      hkeep, rfl, hin, _, rfl⟩

def letter (n : ℕ) : UInt8 := .ofNat (97 + n)

/-- The identifier of a poll. -/
def pollId (k : ℕ) : Text := sampleId (letter (k / 16)) (letter (k % 16))

def subscriptionId : Text := sampleId (letter 25) (letter 25)

/-- A subscription, and as many polls as identifiers are remembered. -/
def sampleRun : List Action :=
  [.request (sampleRequest (letter 25) (letter 25) "events.subscribe"), .connect 0, .data 0 (sampleText (letter 25) (letter 25) ++ [10])] ++
    (List.range 256).flatMap (fun k => poll (k + 1) (letter (k / 16)) (letter (k % 16))) ++
    [.request (sampleRequest (letter 25) (letter 25) "runtime.snapshot"), .close]

/-- The number of a poll. -/
def pollNumber : Text → ℕ
  | [c, d] => 16 * (c.toNat - 97) + (d.toNat - 97)
  | _ => 0

theorem pollNumber_pollId : ∀ k < 256, pollNumber (pollId k) = k := by decide +kernel

theorem checkId_pollId : ∀ k < 256, ¬(pollId k = [] ∨ 80 < Text.byteLen (pollId k) ∨
    (pollId k).any Text.isControl = true) := by decide +kernel

theorem newline_pollId : ∀ k < 256, (10 : UInt8) ∉ sampleText (letter (k / 16)) (letter (k % 16)) := by decide +kernel

theorem pollId_not_mem {k n : ℕ} (hk : k < 256) (hn : n ≤ k) : pollId k ∉ (List.range n).map pollId := by
  intro hm
  obtain ⟨j, hj, hid⟩ := List.mem_map.mp hm
  have hj := mem_range.mp hj
  have heq : j = k := by rw [← pollNumber_pollId j (by omega), hid, pollNumber_pollId k hk]
  omega

theorem subscriptionId_ne {k : ℕ} (hk : k < 256) : pollId k ≠ subscriptionId := by
  intro hid
  have hn : pollNumber subscriptionId = 425 := by decide
  have heq := pollNumber_pollId k hk
  rw [hid, hn] at heq
  omega

/-- A subscription was answered, and polls after it. -/
structure Polled (seen : List Text) (n : ℕ) (link : RuntimeLink) : Prop where
  opened : link.closed = false
  active : link.active = Assoc.Map.empty.insert subscriptionId 0
  seen : link.seen = seen
  inputIds : link.inputIds = []
  length : link.sockets.length = n
  socket : ∃ s, link.sockets[0]? = some s ∧ s.state = .opened

/-- The subscription is answered. -/
theorem subscribed_polled :
    ∃ link, run (step (fun _ => 39) true sampleParse) .new [.request (sampleRequest (letter 25) (letter 25) "events.subscribe"), .connect 0,
        .data 0 (sampleText (letter 25) (letter 25) ++ [10])] = some link ∧ Polled [subscriptionId] 1 link := by
  have hid : checkId (some (.string subscriptionId)) = .ok subscriptionId := by decide
  have ha : RuntimeLink.new.Admits ⟨subscriptionId, "events.subscribe".toList, []⟩ :=
    ⟨rfl, not_mem_nil, not_mem_nil, Nat.succ_pos 15, fun _ => rfl, fun h => absurd h (by decide)⟩
  refine ⟨_, (run_cons_eq_some _).mpr ⟨_, accept_sample hid (.inr rfl) ha,
    (run_cons_eq_some _).mpr ⟨_, connect_last (show _ = [] ++ [_] from rfl) rfl rfl,
    (run_cons_eq_some _).mpr ⟨_, answer_last (show _ = [] ++ [_] from rfl) rfl (by decide) rfl rfl rfl rfl, rfl⟩⟩⟩, ?_⟩
  exact ⟨rfl, rfl, rfl, rfl, rfl, _, rfl, rfl⟩

/-- A further poll. -/
theorem Polled.poll {seen : List Text} {k : ℕ} (h : Polled seen (k + 1) link) (hk : k < 256) (hseen : pollId k ∉ seen) :
    ∃ link', run (step (fun _ => 39) true sampleParse) link (RuntimeLink.poll (k + 1) (letter (k / 16)) (letter (k % 16))) = some link' ∧
      Polled (remember seen (pollId k)) (k + 2) link' := by
  have hid : checkId (some (.string (pollId k))) = .ok (pollId k) := if_neg (checkId_pollId k hk)
  have hg : link.active.get? (pollId k) = none := by
    rw [h.active, Assoc.Map.get?_insert, if_neg (subscriptionId_ne hk)]
    rfl
  have hl : link.active.entries.length < maxPending := by
    rw [h.active]
    decide
  obtain ⟨link', hr, ho, ha, hseen', hin, s, hsockets⟩ :=
    run_poll hid (newline_pollId k hk) h.opened (h.seen ▸ hseen) h.inputIds hl hg
  rw [h.length] at hr
  obtain ⟨t, ht, hstate⟩ := h.socket
  refine ⟨link', hr, ho, ha.trans h.active, hseen'.trans (h.seen ▸ rfl), hin, ?_, t, ?_, hstate⟩
  · rw [hsockets, length_append, h.length, length_singleton]
  · rw [hsockets, getElem?_append_left (by rw [h.length]; exact Nat.succ_pos k), ht]

/-- While few identifiers were seen, all of them are remembered. -/
theorem polled {n : ℕ} (hn : n ≤ 255) (h : Polled [subscriptionId] 1 link) : ∃ link', run (step (fun _ => 39) true sampleParse) link
        ((List.range n).flatMap fun k => RuntimeLink.poll (k + 1) (letter (k / 16)) (letter (k % 16))) = some link' ∧
      Polled (subscriptionId :: (List.range n).map pollId) (n + 1) link' := by
  induction n with
  | zero => exact ⟨link, rfl, h⟩
  | succ n ih =>
    obtain ⟨u, hu, hp⟩ := ih (by omega)
    have hnew : pollId n ∉ subscriptionId :: (range n).map pollId :=
      not_mem_cons_of_ne_of_not_mem (subscriptionId_ne (by omega)) (pollId_not_mem (by omega) (Nat.le_refl n))
    obtain ⟨link', hr, hp⟩ := hp.poll (by omega) hnew
    refine ⟨link', ?_, ?_⟩
    · rw [range_succ, flatMap_append, run_append, hu, flatMap_singleton]
      exact hr
    · rw [remember, if_neg (by simp; omega), cons_append] at hp
      rw [range_succ, map_append, map_singleton]
      exact hp

/-- The socket of a subscription stays open when its identifier is used again. -/
theorem close_leaves_subscription :
    ∃ link, run (step (fun _ => 39) true sampleParse) .new sampleRun = some link ∧ link.closed = true ∧
      ∃ s, link.sockets[0]? = some s ∧ s.state = .opened := by
  obtain ⟨link1, hrun1, hpol1⟩ := subscribed_polled
  obtain ⟨link2, hrun2, hpol2⟩ := polled (Nat.le_refl 255) hpol1
  have hnew : pollId 255 ∉ subscriptionId :: (range 255).map pollId :=
    not_mem_cons_of_ne_of_not_mem (subscriptionId_ne (by omega)) (pollId_not_mem (by omega) (Nat.le_refl 255))
  obtain ⟨link3, hrun3, hpol3⟩ := hpol2.poll (by omega) hnew
  have hseen : subscriptionId ∉ link3.seen := by
    rw [hpol3.seen, remember, if_pos (by simp)]
    intro hmem
    rcases mem_append.mp hmem with hmem | hmem
    · obtain ⟨k, hk, hid⟩ := List.mem_map.mp hmem
      exact subscriptionId_ne (Nat.lt_trans (mem_range.mp hk) (by omega)) hid
    · exact subscriptionId_ne (by omega) (mem_singleton.mp hmem).symm
  have hadm : link3.Admits ⟨subscriptionId, "runtime.snapshot".toList, []⟩ := by
    refine ⟨hpol3.opened, hseen, by rw [hpol3.inputIds]; exact not_mem_nil, ?_, fun h => (nomatch h), fun h => absurd h (by decide)⟩
    rw [hpol3.active]
    decide
  have hid : checkId (some (.string subscriptionId)) = .ok subscriptionId := by decide
  obtain ⟨s, hs, hstate⟩ := hpol3.socket
  refine ⟨(link3.accept ⟨subscriptionId, "runtime.snapshot".toList, []⟩).close, ?_, close_closed, s, ?_, hstate⟩
  · rw [sampleRun, run_append, run_append, hrun1, bind_some, range_succ (n := 255), flatMap_append, run_append, hrun2,
      flatMap_singleton, bind_some, hrun3, bind_some]
    exact (run_cons_eq_some _).mpr ⟨_, accept_sample hid (.inl rfl) hadm, rfl⟩
  · have hsoc : (link3.accept ⟨subscriptionId, "runtime.snapshot".toList, []⟩).sockets[0]? = some s :=
      (getElem?_append_left (by rw [hpol3.length]; omega)).trans hs
    have hact : (link3.accept ⟨subscriptionId, "runtime.snapshot".toList, []⟩).active.entries.any (fun e => e.2 = 0) = false := by
      change (link3.active.insert subscriptionId link3.sockets.length).entries.any (fun e => e.2 = 0) = false
      rw [hpol3.active, hpol3.length]
      decide
    have ho : (link3.accept ⟨subscriptionId, "runtime.snapshot".toList, []⟩).closed = false := hpol3.opened
    rw [RuntimeLink.close, if_neg (eq_false_iff.mp ho)]
    change ((link3.accept _).sockets.mapIdx _)[0]? = some s
    rw [getElem?_mapIdx, hsoc, hact]
    rfl

end Pebrel.Link.RuntimeLink
