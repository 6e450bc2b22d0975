import Pebrel.Terminal.KittyStore

/-!
# What belongs to a Kitty image

The identities that the store has for an image and its placements belong to its key
(`Owns`). Identities are drawn fresh, so in every run no two keys have one in common
(`separate_run`), and forgetting one image does not touch the placements of another. So
what is pruned once is settled: pruning again changes nothing (`pruneDead_pruneDead`).
-/

namespace Pebrel.Terminal.Kitty

open Library Transition List Option KittyGraphics Or

variable {screen : Screen} {g g' g'' : KittyGraphics} {key key' id : ℕ} {control : Control} {transfer : Transfer} {data : Bytes}
  {base64 : Bytes → Option Bytes} {geometry : Control → ℕ → ℕ → WindowSize → Bool}

/-! ### Owners -/

/-- An identity belongs to a key: it is that of its image, of one of its placements, or the one that the placement shows. -/
def Owns (g : KittyGraphics) (key id : ℕ) : Prop :=
  (key, id) ∈ g.identities.entries ∨ ∃ slot p, ((key, slot), p) ∈ g.placements.entries ∧ (p.id = id ∨ p.resource = id)

/-- No identity belongs to two keys. -/
def Separate (g : KittyGraphics) : Prop := ∀ key key' id, Owns g key id → Owns g key' id → key = key'

/-- What belongs to a key has belonged to it before. -/
def OwnsLess (g' g : KittyGraphics) : Prop := ∀ key id, Owns g' key id → Owns g key id

theorem OwnsLess.rfl : OwnsLess g g := fun _ _ h => h

theorem OwnsLess.trans (h : OwnsLess g'' g') (h' : OwnsLess g' g) : OwnsLess g'' g := fun key id hid => h' key id (h key id hid)

theorem Separate.of_less (h : Separate g) (hl : OwnsLess g' g) : Separate g' :=
  fun key key' id hk hk' => h key key' id (hl key id hk) (hl key' id hk')

theorem OwnsLess.of_entries (hi : ∀ e ∈ g'.identities.entries, e ∈ g.identities.entries)
    (hp : ∀ e ∈ g'.placements.entries, e ∈ g.placements.entries) : OwnsLess g' g := by
  rintro key id (h | ⟨slot, p, h, hid⟩)
  · exact inl (hi _ h)
  · exact inr ⟨slot, p, hp _ h, hid⟩

theorem mem_identities_forget {e : ℕ × ℕ} : e ∈ (g.forget screen key).identities.entries ↔ e ∈ g.identities.entries ∧ e.1 ≠ key := by
  simp [forget]

theorem mem_placements_forget {e : (ℕ × ℕ) × KittyPlacement} :
    e ∈ (g.forget screen key).placements.entries ↔ e ∈ g.placements.entries ∧ e.1.1 ≠ key := by
  simp [forget]

theorem ownsLess_forget : OwnsLess (g.forget screen key) g :=
  .of_entries (fun _ h => (mem_identities_forget.1 h).1) fun _ h => (mem_placements_forget.1 h).1

theorem ownsLess_foldl_forget (keys : List ℕ) : OwnsLess (keys.foldl (fun g key => g.forget screen key) g) g := by
  induction keys generalizing g with
  | nil => exact .rfl
  | cons first keys ih => exact ih.trans ownsLess_forget

/-- What pruning leaves of the identities, before it forgets images. -/
def withoutDead (screen : Screen) (g : KittyGraphics) : KittyGraphics :=
  let dead := (g.identities.entries.filter fun e => !g.identityAlive screen e.2).map Prod.fst
  { g with identities := g.identities.filterKeys (!dead.contains ·), published := g.published.filter (!dead.contains ·) }

/-- The images that pruning forgets. -/
def retired (screen : Screen) (g : KittyGraphics) : List ℕ :=
  (g.images.entries.filter fun e => e.2.deleteWhenUnplaced && !g.hasPlacements screen e.1).map Prod.fst

theorem pruneDead_eq : g.pruneDead screen = (retired screen g).foldl (fun g key => g.forget screen key) (withoutDead screen g) := rfl

theorem ownsLess_withoutDead : OwnsLess (withoutDead screen g) g :=
  .of_entries (fun _ h => (Assoc.Map.mem_entries_filterKeys.1 h).1) fun _ h => h

theorem ownsLess_pruneDead : OwnsLess (g.pruneDead screen) g := (ownsLess_foldl_forget _).trans ownsLess_withoutDead

/-! ### Forgetting leaves other keys -/

/-- An identity of another key is as valid as before. -/
theorem invalid_forget (h : Separate g) (hid : Owns g key id) (hne : key ≠ key') :
    (g.forget screen key').invalid.contains id = g.invalid.contains id := by
  have hrm : id ∉ ((g.identities.get? key').toList ++ (g.placements.entries.filter fun e => e.1.1 = key').map fun e =>
    e.2.id).filter screen.held := by
    intro hm
    refine hne (h key key' id hid ?_)
    rcases mem_append.1 (mem_filter.1 hm).1 with hm | hm
    · exact inl (Assoc.Map.get?_eq_some_iff.1 (mem_toList.1 hm))
    obtain ⟨⟨⟨key'', slot⟩, p⟩, he, rfl⟩ := mem_map.1 hm
    obtain ⟨hent, hk⟩ := mem_filter.1 he
    obtain rfl : key'' = key' := of_decide_eq_true hk
    exact inr ⟨slot, p, hent, inl rfl⟩
  rw [Bool.eq_iff_iff, contains_iff_mem, contains_iff_mem]
  change id ∈ _ ++ g.invalid ↔ _
  rw [mem_append]
  exact ⟨fun hm => hm.resolve_left hrm, inr⟩

/-- The placements of another key are as alive as before. -/
theorem hasPlacements_forget (h : Separate g) (hne : key ≠ key') :
    (g.forget screen key').hasPlacements screen key = g.hasPlacements screen key := by
  have ha : ∀ slot p, ((key, slot), p) ∈ g.placements.entries → (g.forget screen key').isAlive screen p = g.isAlive screen p := by
    intro slot p he
    simp only [isAlive, invalid_forget h (inr ⟨slot, p, he, inl rfl⟩) hne,
      invalid_forget h (inr ⟨slot, p, he, inr rfl⟩) hne]
  rw [Bool.eq_iff_iff]
  simp only [hasPlacements, List.any_eq_true, mem_placements_forget, Bool.and_eq_true, decide_eq_true_eq]
  constructor
  · rintro ⟨⟨⟨key'', slot⟩, p⟩, ⟨he, -⟩, rfl, hp⟩
    exact ⟨_, he, rfl, ha slot p he ▸ hp⟩
  · rintro ⟨⟨⟨key'', slot⟩, p⟩, he, rfl, hp⟩
    exact ⟨_, ⟨he, hne⟩, rfl, (ha slot p he).symm ▸ hp⟩

/-- What is left when images are forgotten is as alive as before. -/
theorem foldl_forget_spec (screen : Screen) (h : Separate g) (keys : List ℕ) :
    let r := keys.foldl (fun g key => g.forget screen key) g
    (∀ e ∈ r.identities.entries, e ∈ g.identities.entries) ∧ (∀ e ∈ r.images.entries, e ∈ g.images.entries ∧ e.1 ∉ keys) ∧
      (∀ key id, Owns r key id → r.invalid.contains id = g.invalid.contains id) ∧
      ∀ key ∉ keys, r.hasPlacements screen key = g.hasPlacements screen key := by
  induction keys generalizing g with
  | nil => exact ⟨fun _ he => he, fun _ he => ⟨he, nofun⟩, fun _ _ _ => rfl, fun _ _ => rfl⟩
  | cons first keys ih =>
    obtain ⟨hi, himg, hinv, hpl⟩ := ih (h.of_less (ownsLess_forget : OwnsLess (g.forget screen first) g))
    refine ⟨fun e he => (mem_identities_forget.1 (hi e he)).1, fun e he => ?_, fun key id hid => ?_, fun key hk => ?_⟩
    · obtain ⟨hm, hkeys⟩ := himg e he
      obtain ⟨hm, hne⟩ := Assoc.Map.mem_entries_filterKeys.1 hm
      exact ⟨hm, not_mem_cons_of_ne_of_not_mem (of_decide_eq_true hne) hkeys⟩
    · have hf := (ownsLess_foldl_forget keys) key id hid
      rw [foldl_cons, hinv key id hid]
      have hne : key ≠ first := by
        rcases hf with he | ⟨slot, p, he, -⟩
        · exact (mem_identities_forget.1 he).2
        · exact (mem_placements_forget.1 he).2
      exact invalid_forget h (ownsLess_forget key id hf) hne
    · obtain ⟨hne, hk⟩ := not_or.1 fun h => hk (mem_cons.2 h)
      rw [foldl_cons, hpl key hk]
      exact hasPlacements_forget h hne

/-! ### Pruning once -/

/-- All identities are alive, and no image waits to be forgotten. -/
def Settled (screen : Screen) (g : KittyGraphics) : Prop :=
  (∀ e ∈ g.identities.entries, g.identityAlive screen e.2 = true) ∧
    ∀ e ∈ g.images.entries, e.2.deleteWhenUnplaced = true → g.hasPlacements screen e.1 = true

theorem Settled.pruneDead (h : Settled screen g) : g.pruneDead screen = g := by
  have hdd : (g.identities.entries.filter fun e => !g.identityAlive screen e.2) = [] := by
    rw [filter_eq_nil_iff]
    intro e he
    simp [h.1 e he]
  have hr : retired screen g = [] := by
    rw [retired, map_eq_nil_iff, filter_eq_nil_iff]
    intro e he
    cases hd : e.2.deleteWhenUnplaced with
    | false => simp
    | true => simp [h.2 e he hd]
  have ha : ∀ m : Assoc.Map ℕ ℕ, m.filterKeys (fun _ => true) = m := fun m => Assoc.Map.ext (filter_eq_self.2 fun _ _ => rfl)
  have hp : g.published.filter (fun _ => true) = g.published := filter_eq_self.2 fun _ _ => rfl
  rw [pruneDead_eq, hr, foldl_nil, withoutDead, hdd]
  simp [ha, hp]

theorem settled_pruneDead (screen : Screen) (h : Separate g) : Settled screen (g.pruneDead screen) := by
  obtain ⟨hi, himg, hinv, hpl⟩ :=
    foldl_forget_spec screen (h.of_less (ownsLess_withoutDead : OwnsLess (withoutDead screen g) g)) (retired screen g)
  rw [← pruneDead_eq] at hi himg hinv hpl
  refine ⟨fun e he => ?_, fun e he hd => ?_⟩
  · have hent := Assoc.Map.mem_entries_filterKeys.1 (hi e he)
    have ha : g.identityAlive screen e.2 = true := by
      by_contra hdd
      have hm : e.1 ∈ (g.identities.entries.filter fun e => !g.identityAlive screen e.2).map Prod.fst :=
        mem_map_of_mem (mem_filter.2 ⟨hent.1, by simp [hdd]⟩)
      have hnot := hent.2
      rw [contains_iff_mem.2 hm] at hnot
      cases hnot
    rw [identityAlive] at ha ⊢
    rwa [hinv e.1 e.2 (inl he)]
  · obtain ⟨hm, hk⟩ := himg e he
    rw [hpl e.1 hk]
    by_contra hn
    refine hk (mem_map_of_mem (mem_filter.2 ⟨hm, ?_⟩))
    rw [hd, Bool.true_and, Bool.not_eq_true', ← Bool.not_eq_true]
    exact hn

/-- **Pruning again changes nothing.** -/
theorem pruneDead_pruneDead (h : Separate g) : (g.pruneDead screen).pruneDead screen = g.pruneDead screen :=
  (settled_pruneDead screen h).pruneDead

theorem foldl_forget_current (keys : List ℕ) : (keys.foldl (fun g key => g.forget screen key) g).current = g.current := by
  induction keys generalizing g with
  | nil => rfl
  | cons first keys ih => exact ih

theorem pruneDead_current (screen : Screen) (g : KittyGraphics) : (g.pruneDead screen).current = g.current := foldl_forget_current _

/-! ### Fresh identities -/

/-- One key gets the identities that are drawn, and nothing else belongs to a key that has not belonged to it before. -/
def Draws (screen : Screen) (g' g : KittyGraphics) : Prop :=
  ∃ drawn, ∀ key id, Owns g' key id → Owns g key id ∨ key = drawn ∧ (id = screen.fresh.1 ∨ id = screen.fresh.2)

theorem OwnsLess.draws (h : OwnsLess g' g) : Draws screen g' g := ⟨0, fun key id hid => inl (h key id hid)⟩

open OwnsLess (draws rfl)

theorem Draws.of_less (h : Draws screen g'' g') (hl : OwnsLess g' g) : Draws screen g'' g := by
  obtain ⟨drawn, h⟩ := h
  exact ⟨drawn, fun key id hid => (h key id hid).imp_left (hl key id)⟩

/-- The identities that a command draws are fresh. -/
def Fresh (g : KittyGraphics) : Action → Prop
  | .graphic screen _ _ => ∀ key, ¬Owns g key screen.fresh.1 ∧ ¬Owns g key screen.fresh.2
  | _ => True

theorem Separate.of_draws (h : Separate g) (hfr : ∀ key, ¬Owns g key screen.fresh.1 ∧ ¬Owns g key screen.fresh.2)
    (hd : Draws screen g' g) : Separate g' := by
  obtain ⟨drawn, hd⟩ := hd
  have hn : ∀ key id, Owns g key id → ¬(id = screen.fresh.1 ∨ id = screen.fresh.2) := by
    rintro key id hid (rfl | rfl)
    · exact (hfr key).1 hid
    · exact (hfr key).2 hid
  intro key key' id hk hk'
  rcases hd key id hk with hold | ⟨rfl, hid⟩
  · rcases hd key' id hk' with hold' | ⟨-, hid⟩
    · exact h key key' id hold hold'
    · exact absurd hid (hn key id hold)
  · rcases hd key' id hk' with hold' | ⟨rfl, -⟩
    · exact absurd hid (hn key' id hold')
    · rfl

theorem ownsLess_makeRoom (cost n : ℕ) : OwnsLess (g.makeRoom screen cost n) g := by
  induction n generalizing g with
  | zero => exact .rfl
  | succ n ih =>
    rw [makeRoom]
    split
    · split
      · exact .rfl
      · exact ih.trans ownsLess_forget
    · exact .rfl

theorem ownsLess_retain (p : KittyPlacement → Bool) : OwnsLess { g with placements := g.placements.retain p } g :=
  .of_entries (fun _ h => h) fun _ h => (mem_filter.1 h).1

/-- A placement belongs to its image, with an identity that is drawn. -/
theorem draws_insertPlacement {slot resource : ℕ} (hr : Owns g key resource ∨ resource = screen.fresh.1)
    (hi : g'.identities = g.identities.insert key resource)
    (hp : g'.placements = g.placements.insert (key, slot) ⟨screen.fresh.2, resource⟩) : Draws screen g' g := by
  have hd : ∀ id, id = resource → Owns g key id ∨ key = key ∧ (id = screen.fresh.1 ∨ id = screen.fresh.2) := by
    rintro id rfl
    exact hr.imp_right fun h => ⟨rfl, inl h⟩
  refine ⟨key, ?_⟩
  rintro key' id (he | ⟨slot', p, he, hid⟩)
  · rw [hi, Assoc.Map.mem_entries_insert] at he
    rcases he with heq | ⟨hm, -⟩
    · obtain ⟨rfl, rfl⟩ := Prod.mk.inj heq
      exact hd _ rfl
    · exact inl (inl hm)
  · rw [hp, Assoc.Map.mem_entries_insert] at he
    rcases he with heq | ⟨hm, -⟩
    · obtain ⟨hslot, rfl⟩ := Prod.mk.inj heq
      obtain ⟨rfl, -⟩ := Prod.mk.inj hslot
      rcases hid with rfl | rfl
      · exact inr ⟨rfl, inr rfl⟩
      · exact hd _ rfl
    · exact inl (inr ⟨slot', p, hm, hid⟩)

theorem draws_place : Draws screen (g.place screen geometry key control).1 g := by
  unfold place
  dsimp only
  generalize hg1 : (if maxImageCells ≤ g.placements.entries.length
    then { g with placements := g.placements.retain (g.isAlive screen) } else g) = g1
  have hk : OwnsLess g1 g := by
    rw [← hg1]
    split
    · exact ownsLess_retain _
    · exact .rfl
  split
  · exact hk.draws
  split
  · exact hk.draws
  · split
    · exact hk.draws
    · refine (draws_insertPlacement (g := g1) ?_ rfl rfl).of_less hk
      cases hget : (g1.identities.get? key).filter (g1.identityAlive screen) with
      | none => exact inr rfl
      | some resource => exact inl (inl (Assoc.Map.get?_eq_some_iff.1 (filter_eq_some_iff.1 hget).1))

theorem draws_receive : Draws screen (g.receive screen base64 geometry transfer data).1 g := by
  rcases receive_cases screen base64 geometry g transfer data with heq | ⟨t, heq⟩ | ⟨-, decoded, width, height, pixels, -, -, heq | heq⟩
  · rw [heq]
    exact rfl.draws
  · rw [heq]
    exact draws fun _ _ h => h
  · rw [heq]
    exact draws fun key id h => ownsLess_forget key id (ownsLess_makeRoom _ _ key id h)
  · rw [heq]
    exact draws_place.of_less fun key id h => ownsLess_forget key id (ownsLess_makeRoom _ _ key id h)

theorem ownsLess_free : OwnsLess (g.free screen key) g := by
  rw [free]
  split
  · exact .of_entries (fun _ h => h) fun _ h => h
  · exact ownsLess_forget

theorem ownsLess_removePlacements (selected : Option ℕ) : OwnsLess (g.removePlacements screen control selected) g := by
  have hf : ∀ (keys : List ℕ) (g : KittyGraphics), OwnsLess (keys.foldl (free screen) g) g := by
    intro keys
    induction keys with
    | nil => exact fun _ => .rfl
    | cons first keys ih => exact fun g => (ih _).trans ownsLess_free
  have hr : ∀ (ids : List ℕ) (p : KittyPlacement → Bool),
      OwnsLess { g.invalidate screen ids with placements := (g.invalidate screen ids).placements.retain p } g :=
    fun ids p => .of_entries (fun _ h => h) fun _ h => (mem_filter.1 h).1
  unfold removePlacements
  dsimp only
  split
  · exact (hf _ _).trans (hr _ _)
  · exact hr _ _

theorem ownsLess_delete : OwnsLess (g.delete screen control).1 g := by
  unfold delete
  split
  · exact ownsLess_removePlacements _
  split
  · split
    · exact ownsLess_removePlacements _
    · exact .rfl
  · exact .rfl

theorem draws_begin : Draws screen (g.begin screen base64 geometry control data).1 g := by
  unfold begin
  dsimp only
  split
  · exact draws fun _ _ h => h
  · split
    · exact draws_receive.of_less fun _ _ h => h
    · exact draws_receive.of_less fun _ _ h => h

theorem draws_execute : Draws screen (g.execute screen base64 geometry control data).1 g := by
  unfold execute
  split
  · exact draws_receive.of_less fun _ _ h => h
  dsimp only
  split
  · exact draws_begin
  split
  · split
    · exact rfl.draws
    · exact draws_place
  · split
    · exact draws (ownsLess_delete.trans fun _ _ h => h)
    · exact rfl.draws

theorem draws_graphic (bytes : Bytes) : Draws screen (g.graphic screen base64 geometry bytes data).1 g := by
  unfold KittyGraphics.graphic
  split
  · exact rfl.draws
  split
  · split
    · exact draws fun _ _ h => h
    · exact rfl.draws
  · exact draws_execute.of_less ownsLess_pruneDead

/-- A step whose identities are fresh keeps the keys apart. -/
theorem Separate.step (h : Separate g) {a : Action} (hfr : Fresh g a) (hst : Kitty.step base64 geometry g a = some g') : Separate g' := by
  cases a with
  | graphic screen bytes data =>
    cases hst
    exact h.of_draws hfr (draws_graphic bytes)
  | flush screen =>
    cases hst
    exact h.of_less ownsLess_pruneDead
  | resize size =>
    cases hst
    exact h
  | reset screen =>
    cases hst
    rintro key key' id (hk | ⟨slot, p, hk, -⟩) <;> cases hk

/-- **In every run the keys have no identity in common**, if those that are drawn are fresh. -/
theorem separate_run {viewport : Option WindowSize} {as : List Action} (hfr : Meets (step base64 geometry) Fresh (empty viewport []) as)
    (hr : run (step base64 geometry) (empty viewport []) as = some g) : Separate g := by
  have he : Separate (empty viewport []) := by
    rintro key key' id (hk | ⟨slot, p, hk, -⟩) <;> cases hk
  exact (along_of_meets (step base64 geometry) (fun _ h => h) (fun _ _ _ h hfr hst => h.step hfr hst) he hfr).last hr

end Pebrel.Terminal.Kitty
