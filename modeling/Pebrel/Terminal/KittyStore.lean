import Pebrel.Library.Transition
import Pebrel.Terminal.KittyGraphics

/-!
# What the store of Kitty images keeps

In every run of commands the bytes of the store are the costs of its images, within its budget;
the order has each image once, and no placement is left of an image that is forgotten
(`WellFormed`). A transfer that does not become an image changes nothing that is stored
(`kitty_store_sound`).
-/

namespace Pebrel.Terminal.Kitty

open Library Transition List Option Prod Control
open KittyGraphics (decode)

/-- The mirrors of the store agree, and are within their bounds. -/
structure WellFormed (g : KittyGraphics) : Prop where
  bytes : g.imageBytes = (g.images.entries.map fun e => e.2.cost).sum
  budget : g.imageBytes ≤ maxImageBytes
  count : g.images.entries.length ≤ maxImages
  order : g.imageOrder.Perm (g.images.entries.map Prod.fst)
  cells : g.placements.entries.length ≤ maxImageCells
  placed : ∀ e ∈ g.placements.entries, g.images.containsKey e.1.1

variable {screen : Screen} {g g' : KittyGraphics} {key : ℕ} {control : Control} {transfer : Transfer} {data : Bytes}
  {base64 : Bytes → Option Bytes}
  {geometry : Control → ℕ → ℕ → WindowSize → Bool}

theorem WellFormed.empty (viewport : Option WindowSize) (invalid : List ℕ) : WellFormed (Kitty.empty viewport invalid) :=
  ⟨rfl, Nat.zero_le _, Nat.zero_le _, .refl _, Nat.zero_le _, nofun⟩

/-! ### What is stored -/

/-- The same images and placements are stored. -/
structure SameStored (g' g : KittyGraphics) : Prop where
  images : g'.images = g.images
  placements : g'.placements = g.placements
  order : g'.imageOrder = g.imageOrder
  bytes : g'.imageBytes = g.imageBytes

theorem SameStored.rfl : SameStored g g := ⟨.refl _, .refl _, .refl _, .refl _⟩

theorem WellFormed.of_same (h : WellFormed g) (hsm : SameStored g' g) : WellFormed g' := by
  obtain ⟨hi, hp, ho, hbs⟩ := hsm
  obtain ⟨h1, h2, h3, h4, h5, h6⟩ := h
  rw [← hi, ← hp, ← ho, ← hbs] at *
  exact ⟨h1, h2, h3, h4, h5, h6⟩

/-! ### Forgetting -/

theorem WellFormed.forget (h : WellFormed g) (key : ℕ) : WellFormed (g.forget screen key) := by
  have hs := Assoc.Map.sum_filterKeys_ne g.images key Bitmap.cost
  refine ⟨?_, Nat.le_trans (Nat.sub_le _ _) h.budget, Nat.le_trans (length_filter_le _ _) h.count, ?_,
    Nat.le_trans (length_filter_le _ _) h.cells, ?_⟩
  · change g.imageBytes - ((g.images.get? key).map Bitmap.cost).getD 0 = ((g.images.filterKeys (· ≠ key)).entries.map fun e => e.2.cost).sum
    rw [h.bytes]
    omega
  · change (g.imageOrder.filter (· ≠ key)).Perm ((g.images.filterKeys (· ≠ key)).entries.map fst)
    have hperm := h.order.filter (· ≠ key)
    rw [List.filter_map] at hperm
    exact hperm
  · intro e he
    obtain ⟨hm, hne⟩ := Assoc.Map.mem_entries_filterKeys.mp he
    have hpl := h.placed e hm
    rw [Assoc.Map.containsKey_eq_isSome] at hpl ⊢
    change ((g.images.filterKeys (· ≠ key)).get? e.1.1).isSome
    rw [Assoc.Map.get?_filterKeys, if_pos hne]
    exact hpl

theorem forget_images : (g.forget screen key).images = g.images.filterKeys (· ≠ key) := rfl

theorem forget_order : (g.forget screen key).imageOrder = g.imageOrder.filter (· ≠ key) := rfl

theorem WellFormed.foldl_forget (h : WellFormed g) (keys : List ℕ) : WellFormed (keys.foldl (fun g key => g.forget screen key) g) := by
  induction keys generalizing g with
  | nil => exact h
  | cons key keys ih => exact ih (h.forget key)

theorem WellFormed.pruneDead (h : WellFormed g) : WellFormed (g.pruneDead screen) := by
  refine .foldl_forget ?_ _
  exact h.of_same ⟨rfl, rfl, rfl, rfl⟩

/-! ### Room for an image -/

/-- Rounds of forgetting keep the store in order, and an image stays forgotten. -/
theorem WellFormed.makeRoom (h : WellFormed g) (hk : g.images.containsKey key = false) (cost n : ℕ) :
    WellFormed (g.makeRoom screen cost n) ∧ (g.makeRoom screen cost n).images.containsKey key = false := by
  induction n generalizing g with
  | zero => exact ⟨h, hk⟩
  | succ n ih =>
    rw [KittyGraphics.makeRoom]
    split
    · split
      · exact ⟨h, hk⟩
      · rename_i oldest _
        refine ih (h.forget oldest) ?_
        rw [Assoc.Map.containsKey_eq_isSome] at hk ⊢
        rw [forget_images, Assoc.Map.get?_filterKeys]
        split
        · exact hk
        · rfl
    · exact ⟨h, hk⟩

theorem candidate_mem {oldest : ℕ} (h : g.candidate screen = some oldest) : oldest ∈ g.imageOrder := by
  rw [KittyGraphics.candidate, or_eq_some_iff] at h
  rcases h with hfd | ⟨-, hhd⟩
  · exact mem_of_find?_eq_some hfd
  · exact mem_of_head? hhd

theorem candidate_eq_none (h : g.candidate screen = none) : g.imageOrder = [] := by
  rw [KittyGraphics.candidate, or_eq_none_iff] at h
  exact head?_eq_none_iff.mp h.2

/-- With as many rounds as images there is room at the end, or nothing is stored. -/
theorem makeRoom_room {cost n : ℕ} (hn : g.imageOrder.length ≤ n) :
    ((g.makeRoom screen cost n).images.entries.length < maxImages ∧ (g.makeRoom screen cost n).imageBytes + cost ≤ maxImageBytes) ∨
      (g.makeRoom screen cost n).imageOrder = [] := by
  induction n generalizing g with
  | zero => exact .inr (length_eq_zero_iff.mp (Nat.le_zero.mp hn))
  | succ n ih =>
    rw [KittyGraphics.makeRoom]
    split
    · split
      · rename_i hnone
        exact .inr (candidate_eq_none hnone)
      · rename_i oldest hs
        refine ih ?_
        have hlt : (g.imageOrder.filter (· ≠ oldest)).length < g.imageOrder.length :=
          length_filter_lt_length_iff_exists.mpr ⟨oldest, candidate_mem hs, by simp⟩
        rw [forget_order]
        omega
    · rename_i hrm
      obtain ⟨hc, hbs⟩ := not_or.mp hrm
      exact .inl ⟨Nat.not_le.mp hc, Nat.not_lt.mp hbs⟩

/-- There is always room for an image of the greatest size. -/
theorem WellFormed.room (h : WellFormed g) (hk : g.images.containsKey key = false) {pixels : ℕ} (hp : pixels ≤ maxPixels) :
    WellFormed (g.makeRoom screen (pixels * 4) g.imageOrder.length) ∧
      (g.makeRoom screen (pixels * 4) g.imageOrder.length).images.containsKey key = false ∧
      (g.makeRoom screen (pixels * 4) g.imageOrder.length).images.entries.length < maxImages ∧
      (g.makeRoom screen (pixels * 4) g.imageOrder.length).imageBytes + pixels * 4 ≤ maxImageBytes := by
  obtain ⟨hw, hn⟩ := h.makeRoom hk (pixels * 4) g.imageOrder.length
  refine ⟨hw, hn, ?_⟩
  rcases makeRoom_room (Nat.le_refl g.imageOrder.length) with hrm | he
  · exact hrm
  have ho := hw.order
  rw [he] at ho
  have hnil := map_eq_nil_iff.mp (nil_perm.mp ho)
  have hbs := hw.bytes
  rw [hnil] at hbs ⊢
  rw [hbs]
  refine ⟨by decide, ?_⟩
  have : maxPixels * 4 ≤ maxImageBytes := by decide
  simp only [map_nil, sum_nil]
  omega

theorem WellFormed.store (h : WellFormed g) {bitmap : Bitmap} (hk : g.images.containsKey key = false)
    (hc : g.images.entries.length < maxImages) (hbs : g.imageBytes + bitmap.cost ≤ maxImageBytes) : WellFormed (g.store key bitmap) := by
  have hn : key ∉ g.images.entries.map fst := fun hm => by
    obtain ⟨e, he, rfl⟩ := List.mem_map.mp hm
    exact nomatch hk.symm.trans (Assoc.Map.containsKey_iff.mpr ⟨e.2, he⟩)
  have hents : (g.images.insert key bitmap).entries = g.images.entries ++ [(key, bitmap)] := Assoc.insert_of_not_mem hn
  refine ⟨?_, hbs, ?_, ?_, h.cells, fun e he => ?_⟩
  · change g.imageBytes + bitmap.cost = ((g.images.insert key bitmap).entries.map fun e => e.2.cost).sum
    rw [hents, h.bytes, map_append, sum_append]
    simp
  · change (g.images.insert key bitmap).entries.length ≤ maxImages
    rw [hents, length_append]
    exact hc
  · change (g.imageOrder ++ [key]).Perm ((g.images.insert key bitmap).entries.map fst)
    rw [hents, map_append]
    exact h.order.append_right _
  · have hpl := h.placed e he
    rw [Assoc.Map.containsKey_eq_isSome] at hpl ⊢
    change ((g.images.insert key bitmap).get? e.1.1).isSome
    rw [Assoc.Map.get?_insert]
    split
    · rfl
    · exact hpl

/-! ### Placements -/

theorem WellFormed.retain (h : WellFormed g) (p : KittyPlacement → Bool) : WellFormed { g with placements := g.placements.retain p } :=
  ⟨h.bytes, h.budget, h.count, h.order, Nat.le_trans (length_filter_le _ _) h.cells, fun e he => h.placed e (mem_filter.mp he).1⟩

/-- A placement is put into its slot, if there is room. -/
theorem WellFormed.insertPlacement (h : WellFormed g) {slot : ℕ} {p : KittyPlacement} (hk : g.images.containsKey key = true)
    (hrm : ¬(g.placements.containsKey (key, slot) = false ∧ maxImageCells ≤ g.placements.entries.length))
    (hsm : g'.images = g.images ∧ g'.imageOrder = g.imageOrder ∧ g'.imageBytes = g.imageBytes)
    (hp : g'.placements = g.placements.insert (key, slot) p) : WellFormed g' := by
  obtain ⟨hi, ho, hbs⟩ := hsm
  refine ⟨hbs.trans (hi ▸ h.bytes), hbs ▸ h.budget, hi ▸ h.count, ho ▸ hi ▸ h.order, ?_, fun e he => ?_⟩
  · rw [hp, Assoc.Map.length_insert]
    split
    · exact h.cells
    · rename_i hn
      have hlt : g.placements.entries.length < maxImageCells := Nat.lt_of_not_le fun hfu => hrm ⟨Bool.eq_false_iff.mpr hn, hfu⟩
      exact hlt
  · rw [hp] at he
    rw [hi]
    rcases Assoc.Map.mem_entries_insert.mp he with rfl | ⟨hm, -⟩
    · exact hk
    · exact h.placed e hm

theorem WellFormed.place (h : WellFormed g) : WellFormed (g.place screen geometry key control).1 := by
  unfold KittyGraphics.place
  dsimp only
  generalize hg1 : (if maxImageCells ≤ g.placements.entries.length
    then { g with placements := g.placements.retain (g.isAlive screen) } else g) = g1
  have hk : WellFormed g1 := by
    rw [← hg1]
    split
    · exact h.retain _
    · exact h
  split
  · exact hk
  rename_i bitmap hb
  split
  · exact hk
  split
  · exact hk
  · rename_i hrm
    refine hk.insertPlacement ?_ hrm ⟨rfl, rfl, rfl⟩ rfl
    rw [Assoc.Map.containsKey_eq_isSome, hb, isSome_some]

/-! ### Transfers -/

/-- A transfer that is whole and valid becomes an image; one that is not changes nothing that is stored. -/
theorem receive_cases (screen : Screen) (base64 : Bytes → Option Bytes) (geometry : Control → ℕ → ℕ → WindowSize → Bool) (g : KittyGraphics)
    (transfer : Transfer) (data : Bytes) : (g.receive screen base64 geometry transfer data).1 = g ∨
    (∃ t, (g.receive screen base64 geometry transfer data).1 = { g with current := t }) ∨
    transfer.control.more = false ∧ ∃ decoded width height pixels,
      decode base64 transfer.control (transfer.encoded ++ data) = .ok decoded ∧
      transfer.control.dimensions = .ok (width, height, pixels) ∧
      ((g.receive screen base64 geometry transfer data).1 =
          (((g.forget screen transfer.key).makeRoom screen (pixels * 4) (g.forget screen transfer.key).imageOrder.length).store transfer.key
            ⟨decoded, width, height, transfer.control.channels, pixels * 4, false⟩) ∨
        (g.receive screen base64 geometry transfer data).1 =
          ((((g.forget screen transfer.key).makeRoom screen (pixels * 4) (g.forget screen transfer.key).imageOrder.length).store transfer.key
            ⟨decoded, width, height, transfer.control.channels, pixels * 4, false⟩).place screen geometry transfer.key
              transfer.control).1) := by
  unfold KittyGraphics.receive
  dsimp only
  split
  · exact .inl rfl
  rename_i width height pixels hd
  split
  · exact .inl rfl
  split
  · exact .inr (.inl ⟨_, rfl⟩)
  · rename_i hmore
    split
    · exact .inl rfl
    rename_i decoded hdec
    split
    · exact .inl rfl
    refine .inr (.inr ⟨Bool.eq_false_iff.mpr hmore, decoded, width, height, pixels, hdec, hd, ?_⟩)
    split
    · exact .inr rfl
    · exact .inl rfl

theorem WellFormed.receive (h : WellFormed g) : WellFormed (g.receive screen base64 geometry transfer data).1 := by
  have hst {width height pixels : ℕ} {decoded : Bytes} (hd : transfer.control.dimensions = .ok (width, height, pixels)) :
      WellFormed (((g.forget screen transfer.key).makeRoom screen (pixels * 4)
        (g.forget screen transfer.key).imageOrder.length).store transfer.key
        ⟨decoded, width, height, transfer.control.channels, pixels * 4, false⟩) := by
    have hn : (g.forget screen transfer.key).images.containsKey transfer.key = false := by
      rw [Assoc.Map.containsKey_eq_isSome, forget_images, Assoc.Map.get?_filterKeys, if_neg (by simp)]
      rfl
    obtain ⟨hw, hk, hc, hbs⟩ := (h.forget transfer.key).room hn (pixels_le hd)
    exact hw.store hk hc hbs
  rcases receive_cases screen base64 geometry g transfer data with heq | ⟨t, heq⟩ | ⟨-, decoded, width, height, pixels, -, hd, heq | heq⟩
  · rw [heq]
    exact h
  · rw [heq]
    exact h.of_same ⟨rfl, rfl, rfl, rfl⟩
  · rw [heq]
    exact hst hd
  · rw [heq]
    exact (hst hd).place

/-! ### Deletion -/

theorem WellFormed.markImage (h : WellFormed g) {bitmap : Bitmap} (hg : g.images.get? key = some bitmap)
    {marked : Bitmap} (hcost : marked.cost = bitmap.cost) :
    WellFormed { g with images := g.images.insert key marked } := by
  have hct : g.images.containsKey key = true := by rw [Assoc.Map.containsKey_eq_isSome, hg, isSome_some]
  have hkeys : (g.images.insert key marked).entries.map fst = g.images.entries.map fst := Assoc.Map.keys_insert hct
  have hl := congrArg length hkeys
  rw [length_map, length_map] at hl
  refine ⟨h.bytes.trans (Assoc.Map.sum_insert hg hcost).symm, h.budget, hl ▸ h.count, hkeys ▸ h.order, h.cells, fun e he => ?_⟩
  have hpl := h.placed e he
  rw [Assoc.Map.containsKey_eq_isSome] at hpl ⊢
  change ((g.images.insert key marked).get? e.1.1).isSome
  rw [Assoc.Map.get?_insert]
  split
  · rfl
  · exact hpl

theorem WellFormed.free (h : WellFormed g) (key : ℕ) : WellFormed (g.free screen key) := by
  rw [KittyGraphics.free]
  split
  · cases hg : g.images.get? key with
    | none => exact h.of_same ⟨rfl, rfl, rfl, rfl⟩
    | some bitmap => exact h.markImage hg rfl
  · exact h.forget key

theorem WellFormed.foldl_free (h : WellFormed g) (keys : List ℕ) : WellFormed (keys.foldl (.free screen) g) := by
  induction keys generalizing g with
  | nil => exact h
  | cons key keys ih => exact ih (h.free key)

theorem WellFormed.removePlacements (h : WellFormed g) (control : Control) (selected : Option ℕ) :
    WellFormed (g.removePlacements screen control selected) := by
  unfold KittyGraphics.removePlacements
  dsimp only
  have hr (ids : List ℕ) (p : KittyPlacement → Bool) : WellFormed
    { g.invalidate screen ids with placements := (g.invalidate screen ids).placements.retain p } :=
    (h.of_same ⟨rfl, rfl, rfl, rfl⟩ : WellFormed (g.invalidate screen ids)).retain p
  split
  · exact (hr _ _).foldl_free _
  · exact hr _ _

theorem WellFormed.delete (h : WellFormed g) (control : Control) : WellFormed (g.delete screen control).1 := by
  unfold KittyGraphics.delete
  split
  · exact h.removePlacements _ _
  split
  · split
    · exact h.removePlacements _ _
    · exact h
  · exact h

/-! ### Commands -/

theorem WellFormed.begin (h : WellFormed g) : WellFormed (g.begin screen base64 geometry control data).1 := by
  unfold KittyGraphics.begin
  dsimp only
  split
  · exact h.of_same ⟨rfl, rfl, rfl, rfl⟩
  split
  · refine .receive ?_
    exact h.of_same ⟨rfl, rfl, rfl, rfl⟩
  · refine .receive ?_
    exact h.of_same ⟨rfl, rfl, rfl, rfl⟩

theorem WellFormed.execute (h : WellFormed g) : WellFormed (g.execute screen base64 geometry control data).1 := by
  unfold KittyGraphics.execute
  split
  · refine .receive ?_
    exact h.of_same ⟨rfl, rfl, rfl, rfl⟩
  dsimp only
  split
  · exact h.begin
  split
  · split
    · exact h
    · exact h.place
  · split
    · refine .delete ?_ control
      exact h.of_same ⟨rfl, rfl, rfl, rfl⟩
    · exact h

theorem WellFormed.graphic (h : WellFormed g) (bytes : Bytes) : WellFormed (g.graphic screen base64 geometry bytes data).1 := by
  unfold KittyGraphics.graphic
  split
  · exact h
  split
  · split
    · exact h.of_same ⟨rfl, rfl, rfl, rfl⟩
    · exact h
  · exact h.pruneDead.execute

/-- A step keeps the store in order. -/
theorem WellFormed.step (h : WellFormed g) {a : Action} (hst : Kitty.step base64 geometry g a = some g') : WellFormed g' := by
  cases a with
  | graphic screen bytes data =>
    cases hst
    exact h.graphic bytes
  | flush screen =>
    cases hst
    exact h.pruneDead.of_same ⟨rfl, rfl, rfl, rfl⟩
  | resize size =>
    cases hst
    exact h.of_same ⟨rfl, rfl, rfl, rfl⟩
  | reset screen =>
    cases hst
    exact .empty _ _

/-! ### Transfers that fail -/

/-- What a control and the bytes before it make of a transfer, if the control continues or begins one. -/
def pending (screen : Screen) (g : KittyGraphics) (control : Control) : Option (Control × Bytes) :=
  match g.current.filter (KittyGraphics.continues screen control) with
  | some transfer =>
    let reply := { transfer.control.reply with quiet := control.quiet.getD transfer.control.reply.quiet }
    some ({ transfer.control with reply := reply, more := control.more }, transfer.encoded)
  | none =>
    let action := control.action.getD (code 't')
    if action = code 't' ∨ action = code 'T' ∨ action = code 'q' then some (control, []) else none

/-- The control is malformed, or the bytes of the transfer are no image of its dimensions. -/
def FailsValidation (screen : Screen) (base64 : Bytes → Option Bytes) (g : KittyGraphics) (bytes data : Bytes) : Prop :=
  (∃ e, parse bytes = .error e) ∨ ∃ control, parse bytes = .ok control ∧
    ∃ c encoded, pending screen (g.pruneDead screen) control = some (c, encoded) ∧
      ∀ decoded, decode base64 c (encoded ++ data) ≠ .ok decoded

/-- The image was freed by a deletion, and no placement of it is left. -/
def Retired (screen : Screen) (g : KittyGraphics) (key : ℕ) : Prop :=
  ∃ bitmap, g.images.get? key = some bitmap ∧ bitmap.deleteWhenUnplaced = true ∧ g.hasPlacements screen key = false

/-- All is stored that was, but for images that are retired. -/
structure Undisturbed (screen : Screen) (g' g : KittyGraphics) : Prop where
  images : ∀ key, ¬Retired screen g key → g'.images.get? key = g.images.get? key
  placements : ∀ key slot, ¬Retired screen g key → g'.placements.get? (key, slot) = g.placements.get? (key, slot)
  all : (∀ key, ¬Retired screen g key) → SameStored g' g

theorem foldl_forget_get? {keys : List ℕ} (hk : key ∉ keys) :
    (keys.foldl (fun g key => g.forget screen key) g).images.get? key = g.images.get? key ∧
      ∀ slot, (keys.foldl (fun g key => g.forget screen key) g).placements.get? (key, slot) = g.placements.get? (key, slot) := by
  induction keys generalizing g with
  | nil => exact ⟨rfl, fun _ => rfl⟩
  | cons first keys ih =>
    obtain ⟨hne, hn⟩ := not_or.mp fun h => hk (mem_cons.mpr h)
    obtain ⟨hi, hp⟩ := ih (g := g.forget screen first) hn
    refine ⟨hi.trans ?_, fun slot => (hp slot).trans ?_⟩
    · rw [forget_images, Assoc.Map.get?_filterKeys, if_pos (decide_eq_true hne)]
    · change (g.placements.filterKeys (·.1 ≠ first)).get? (key, slot) = _
      rw [Assoc.Map.get?_filterKeys, if_pos (decide_eq_true hne)]

/-- Pruning drops the images that are retired. -/
theorem undisturbed_pruneDead : Undisturbed screen (g.pruneDead screen) g := by
  let retired := (g.images.entries.filter fun e => e.2.deleteWhenUnplaced && !g.hasPlacements screen e.1).map fst
  let dead := (g.identities.entries.filter fun e => !g.identityAlive screen e.2).map fst
  let pruned := { g with identities := g.identities.filterKeys (!dead.contains ·), published := g.published.filter (!dead.contains ·) }
  have heq : g.pruneDead screen = retired.foldl (fun g key => g.forget screen key) pruned := rfl
  have hm (key : ℕ) (h : key ∈ retired) : Retired screen g key := by
    obtain ⟨e, he, rfl⟩ := List.mem_map.mp h
    obtain ⟨hent, hboth⟩ := mem_filter.mp he
    obtain ⟨hd, hpl⟩ := Bool.and_eq_true_iff.mp hboth
    exact ⟨e.2, Assoc.Map.get?_eq_some_iff.mpr hent, hd, Bool.not_eq_true' _ ▸ hpl⟩
  rw [heq]
  refine ⟨fun key hnot => (foldl_forget_get? fun h => hnot (hm key h)).1, fun key slot hnot =>
    (foldl_forget_get? fun h => hnot (hm key h)).2 slot,
    fun hn => ?_⟩
  have hnil : retired = [] := eq_nil_iff_forall_not_mem.mpr fun key h => hn key (hm key h)
  rw [hnil]
  exact ⟨rfl, rfl, rfl, rfl⟩

theorem SameStored.trans {g'' : KittyGraphics} (h : SameStored g'' g') (h' : SameStored g' g) : SameStored g'' g :=
  ⟨h.images.trans h'.images, h.placements.trans h'.placements, h.order.trans h'.order, h.bytes.trans h'.bytes⟩

theorem Undisturbed.of_same {g'' : KittyGraphics} (h : Undisturbed screen g' g) (hsm : SameStored g'' g') : Undisturbed screen g'' g :=
  ⟨fun key hnot => hsm.images ▸ h.images key hnot, fun key slot hnot => hsm.placements ▸ h.placements key slot hnot,
    fun hn => hsm.trans (h.all hn)⟩

theorem receive_fails (hf : ∀ decoded, decode base64 transfer.control (transfer.encoded ++ data) ≠ .ok decoded) :
    SameStored (g.receive screen base64 geometry transfer data).1 g := by
  rcases receive_cases screen base64 geometry g transfer data with heq | ⟨t, heq⟩ | ⟨-, decoded, width, height, pixels, hd, -⟩
  · rw [heq]
    exact .rfl
  · rw [heq]
    exact ⟨rfl, rfl, rfl, rfl⟩
  · exact absurd hd (hf decoded)

theorem execute_fails {c : Control} {encoded : Bytes} (hpd : pending screen g control = some (c, encoded))
    (hf : ∀ decoded, decode base64 c (encoded ++ data) ≠ .ok decoded) :
    SameStored (g.execute screen base64 geometry control data).1 g := by
  unfold pending at hpd
  unfold KittyGraphics.execute
  cases ht : g.current.filter (KittyGraphics.continues screen control) with
  | some transfer =>
    rw [ht] at hpd
    obtain ⟨rfl, rfl⟩ := Prod.mk.inj (some.inj hpd)
    refine (receive_fails ?_).trans ⟨rfl, rfl, rfl, rfl⟩
    exact hf
  | none =>
    rw [ht] at hpd
    dsimp only at hpd ⊢
    split at hpd
    · rename_i ha
      obtain ⟨rfl, rfl⟩ := Prod.mk.inj (some.inj hpd)
      rw [if_pos ha]
      unfold KittyGraphics.begin
      dsimp only
      split
      · exact ⟨rfl, rfl, rfl, rfl⟩
      split
      · refine (receive_fails ?_).trans ⟨rfl, rfl, rfl, rfl⟩
        exact hf
      · refine (receive_fails ?_).trans ⟨rfl, rfl, rfl, rfl⟩
        exact hf
    · exact nomatch hpd

theorem graphic_fails {bytes : Bytes} (h : FailsValidation screen base64 g bytes data) :
    Undisturbed screen (g.graphic screen base64 geometry bytes data).1 g := by
  have hself : Undisturbed screen g g := ⟨fun _ _ => rfl, fun _ _ _ => rfl, fun _ => .rfl⟩
  unfold KittyGraphics.graphic
  split
  · exact hself
  rcases h with ⟨e, hps⟩ | ⟨control, hps, c, encoded, hpd, hf⟩
  · rw [hps]
    dsimp only
    split
    · exact hself.of_same ⟨rfl, rfl, rfl, rfl⟩
    · exact hself
  · rw [hps]
    exact undisturbed_pruneDead.of_same (execute_fails hpd hf)

/-- **The store of Kitty images is sound**: its mirrors agree within their bounds in every run, and
a transfer that fails validation leaves all that is stored, but for images that are retired. -/
theorem kitty_store_sound (base64 : Bytes → Option Bytes) (geometry : Control → ℕ → ℕ → WindowSize → Bool) :
    (∀ viewport as g, run (step base64 geometry) (empty viewport []) as = some g → WellFormed g ∧ g.imageOrder.Nodup) ∧
      ∀ screen g bytes data, FailsValidation screen base64 g bytes data →
        Undisturbed screen (g.graphic screen base64 geometry bytes data).1 g :=
  ⟨fun viewport _ g hrun =>
    have h : WellFormed g := run_invariant _ (P := WellFormed) (fun _ _ _ h hst => h.step hst) (.empty viewport []) hrun
    ⟨h, h.order.nodup_iff.mpr g.images.nodup⟩,
    fun _ _ _ _ => graphic_fails⟩

/-- The bytes of a text. -/
def bytesOf (t : String) : Bytes := t.toList.map code

/-- One pixel is decoded. -/
def sampleBase64 (encoded : Bytes) : Option Bytes := if encoded = bytesOf "AQIDBA==" then some [1, 2, 3, 4] else none

/-- A screen whose cells hold all placements, or none. -/
def sampleScreen (held : Bool) (fresh : ℕ) : Screen := ⟨false, 80, 24, fun _ => held, [], (fresh, fresh + 1)⟩

/-- The control `a=t,i=7,s=1,v=1`. -/
def sampleControl : Control :=
  ⟨some (code 't'), ⟨some 7, none, 0⟩, none, false, some 1, some 1, 4, code 'a', none, none, 0, 0, none, none, 0, 0, false⟩

/-- A half image fails, and the image of the same key that is stored stays. -/
theorem kitty_store_sound_sample :
    let g := (empty none []).graphic (sampleScreen true 1) sampleBase64 (fun _ _ _ _ => true)
      (bytesOf "a=t,i=7,s=1,v=1") (bytesOf "AQIDBA==")
    WellFormed g.1 ∧
      ((g.1.graphic (sampleScreen true 3) sampleBase64 (fun _ _ _ _ => true) (bytesOf "a=t,i=7,s=1,v=1") (bytesOf "AQID")).1.images.get? 7) =
        g.1.images.get? 7 := by
  refine ⟨((kitty_store_sound sampleBase64 fun _ _ _ _ => true).1 none
    [.graphic (sampleScreen true 1) (bytesOf "a=t,i=7,s=1,v=1") (bytesOf "AQIDBA==")] _ rfl).1, ?_⟩
  refine ((kitty_store_sound sampleBase64 fun _ _ _ _ => true).2 (sampleScreen true 3) _ _ _ ?_).images 7 ?_
  · have hdec : decode sampleBase64 sampleControl (bytesOf "AQID") = .error .einval := by decide
    exact .inr ⟨sampleControl, by decide, sampleControl, [], by decide, fun decoded h => nomatch hdec.symm.trans h⟩
  rintro ⟨bitmap, hget, hdel, -⟩
  have hk : (((empty none []).graphic (sampleScreen true 1) sampleBase64 (fun _ _ _ _ => true) (bytesOf "a=t,i=7,s=1,v=1")
      (bytesOf "AQIDBA==")).1.images.get? 7).any Bitmap.deleteWhenUnplaced = false := by decide
  rw [hget] at hk
  exact nomatch hk.symm.trans hdel

/-- Four commands: an image is placed twice, and freed with one of the placements; the other one
goes with its cells, and a transfer that fails drops the image. -/
theorem failed_transfer_drops_retired_image :
    let g := run (step sampleBase64 fun _ _ _ _ => true) (empty none [])
      [.graphic (sampleScreen true 1) (bytesOf "a=T,i=7,p=1,s=1,v=1") (bytesOf "AQIDBA=="),
      .graphic (sampleScreen true 3) (bytesOf "a=p,i=7,p=2") [],
        .graphic (sampleScreen true 5) (bytesOf "a=d,d=I,i=7,p=1") []]
    (g.map fun g => g.images.entries.length) = some 1 ∧
      (g.map fun g => (g.graphic (sampleScreen false 7) sampleBase64 (fun _ _ _ _ => true) (bytesOf "a=t,i=9,s=1,v=1") []).2) =
        some (some (9, none, some .einval)) ∧
      (g.map fun g => (g.graphic (sampleScreen false 7) sampleBase64 (fun _ _ _ _ => true) (bytesOf "a=t,i=9,s=1,v=1")
      []).1.images.entries.length) =
        some 0 := ⟨by decide, by decide, by decide⟩

end Pebrel.Terminal.Kitty
