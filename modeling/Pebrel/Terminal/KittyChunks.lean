import Pebrel.Library.Fallible
import Pebrel.Terminal.KittyOwners

/-!
# Images in chunks

The base64 text of an image may come in chunks: a first command with the keys of the
image and `m=1`, then commands with `m=1` and a last one with `m=0`, which may give `q`
again. `OneCommand` is the command that has all of the text at once, and `SameOutcome`
says that the chunks do what it does.

A first command that is rejected does not end the transfer that is under way, and the
commands after it go on with that one. `chunked_iff` says that the chunks do what the one
command does, just if the first command is accepted or no transfer is under way.
-/

namespace Pebrel.Terminal.Kitty

open List Nat Option KittyGraphics Control
open KittyGraphics (maximum)
open Library (bind_eq_ok)

variable {screen : Screen} {g : KittyGraphics} {control : Control} {transfer : Transfer} {bytes data : Bytes}
  {base64 : Bytes → Option Bytes} {geometry : Control → ℕ → ℕ → WindowSize → Bool}

/-! ### Controls that are accepted -/

variable {n width height pixels : ℕ} {more : Bool} {later : List (Bytes × Bytes)}

/-- What the parts of a control are read from. -/
theorem parse_spec (h : parse bytes = .ok control) :
    parseAction bytes = .ok control.action ∧ (∃ id, number bytes 'i' = .ok id ∧ control.reply.id = nonzero id) ∧
      ∃ more, number bytes 'm' = .ok more ∧ control.more = decide (more.getD 0 = 1) := by
  unfold parse at h
  split at h
  · cases h
  obtain ⟨_, -, h⟩ := bind_eq_ok h
  obtain ⟨action, ha, h⟩ := bind_eq_ok h
  obtain ⟨_, -, h⟩ := bind_eq_ok h
  obtain ⟨_, -, h⟩ := bind_eq_ok h
  obtain ⟨_, -, h⟩ := bind_eq_ok h
  obtain ⟨flags, hf, h⟩ := bind_eq_ok h
  obtain ⟨id, hid, h⟩ := bind_eq_ok h
  iterate 12 obtain ⟨_, -, h⟩ := bind_eq_ok h
  cases h
  obtain ⟨more, hmore, hf⟩ := bind_eq_ok hf
  obtain ⟨cursor, -, hf⟩ := bind_eq_ok hf
  split at hf
  · cases hf
  · cases hf
    exact ⟨ha, ⟨id, hid, rfl⟩, more, hmore, rfl⟩

theorem number_lt {key : Char} (h : number bytes key = .ok (some n)) : n < 2 ^ 32 := by
  unfold number at h
  split at h
  · cases h
  split at h
  · rename_i n' hps
    cases h
    have hlt : ∀ u : Bytes, (if u = [] then none else (digits 0 u).filter fun n => decide (n < 2 ^ 32)) = some n → n < 2 ^ 32 := by
      intro u hu
      split at hu
      · cases hu
      · exact of_decide_eq_true (filter_eq_some_iff.1 hu).2
    exact hlt _ hps
  · cases h

theorem id_lt (h : parse bytes = .ok control) {id : ℕ} (hid : control.reply.id = some id) : id < 2 ^ 32 := by
  obtain ⟨-, ⟨n, hn, heq⟩, -⟩ := parse_spec h
  rw [heq] at hid
  obtain ⟨rfl, -⟩ := filter_eq_some_iff.1 hid
  exact number_lt hn

/-- The key of a transfer tells its screen. -/
theorem screen_of_key (h : n < 2 ^ 63) : (screen.key ||| n) &&& altKey = screen.key := by
  have hn : n &&& altKey = 0 := by
    refine eq_of_testBit_eq fun i => ?_
    rw [altKey, testBit_and, testBit_two_pow, zero_testBit]
    by_cases hi : 63 = i
    · rw [← hi, testBit_lt_two_pow h, Bool.false_and]
    · simp [hi]
  have hk : screen.key &&& altKey = screen.key := by
    rw [Screen.key]
    split
    · exact Nat.and_self _
    · exact zero_and _
  rw [and_or_distrib_right, hn, hk, or_zero]

/-! ### Commands in a row -/

/-- What commands make of the store, and the replies to them. -/
def transmit (screen : Screen) (base64 : Bytes → Option Bytes) (geometry : Control → ℕ → ℕ → WindowSize → Bool) (g : KittyGraphics) :
    List (Bytes × Bytes) → KittyGraphics × List Message
  | [] => (g, [])
  | (bytes, data) :: commands =>
    let first := g.graphic screen base64 geometry bytes data
    let rest := transmit screen base64 geometry first.1 commands
    (rest.1, first.2.toList ++ rest.2)

/-- A control that goes on with a transfer: it gives `m`, and `q` perhaps. -/
def GoesOn (more : Bool) (bytes : Bytes) : Prop :=
  ∃ control, parse bytes = .ok control ∧ control.action = none ∧ control.width = none ∧ control.height = none ∧
    control.reply.id = none ∧ control.more = more

/-- The commands of a transfer after the first one: all but the last one have `m=1`. -/
inductive Later : List (Bytes × Bytes) → Prop
  | last {bytes data : Bytes} (h : GoesOn false bytes) : Later [(bytes, data)]
  | more {bytes data : Bytes} {later : List (Bytes × Bytes)} (h : GoesOn true bytes) (hlater : Later later) : Later ((bytes, data) :: later)

/-- The `q` that a control gives. -/
def givenQuiet (bytes : Bytes) : Option ℕ :=
  match parse bytes with
  | .ok control => control.quiet
  | .error _ => none

/-- The last `q` that is given before the bytes go over the limit, or to the end. -/
def quietWithin (limit : ℕ) : ℕ → ℕ → List (Bytes × Bytes) → ℕ
  | quiet, _, [] => quiet
  | quiet, size, (bytes, data) :: later =>
    let quiet := (givenQuiet bytes).getD quiet
    if limit < size + data.length then quiet else quietWithin limit quiet (size + data.length) later

/-- The `q` that counts for the reply: the last one that is given before the outcome is known. -/
def quietInForce (control : Control) (data : Bytes) (later : List (Bytes × Bytes)) : ℕ :=
  match control.dimensions with
  | .error _ => control.reply.quiet
  | .ok (_, _, pixels) =>
    let limit := maximum control pixels
    if limit < data.length then control.reply.quiet else quietWithin limit control.reply.quiet data.length later

/-- The control with another `m` and `q`. -/
def Control.going (c : Control) (more : Bool) (given : Option ℕ) (quiet : ℕ) : Control :=
  { c with more := more, quiet := given, reply := { c.reply with quiet := quiet } }

/-- A transfer with another `m` and `q`. -/
def Transfer.going (t : Transfer) (more : Bool) (quiet : ℕ) : Transfer :=
  { t with control := t.control.going more t.control.quiet quiet }

/-- The geometry reads neither `m` nor `q`. -/
def Placing (geometry : Control → ℕ → ℕ → WindowSize → Bool) : Prop :=
  ∀ (c : Control) more given quiet, geometry (c.going more given quiet) = geometry c

/-! ### Data in parts -/

section
variable {width height pixels : ℕ}

theorem receive_over (transfer : Transfer) (hdims : transfer.control.dimensions = .ok (width, height, pixels))
    (hover : maximum transfer.control pixels - transfer.encoded.length < data.length) :
    g.receive screen base64 geometry transfer data = (g, transfer.control.reply.message (.error .e2big)) := by
  simp only [receive, hdims, if_pos hover]

theorem receive_more (transfer : Transfer) (hdims : transfer.control.dimensions = .ok (width, height, pixels))
    (hover : ¬maximum transfer.control pixels - transfer.encoded.length < data.length)
    (hmore : transfer.control.more = true) :
    g.receive screen base64 geometry transfer data =
      ({ g with current := some { transfer with encoded := transfer.encoded ++ data } }, none) := by
  simp only [receive, hdims, if_neg hover, hmore, if_true]

/-- The data may be received in two parts, if the first one is within the limit. -/
theorem receive_append (transfer : Transfer) {more : Bytes} (hdims : transfer.control.dimensions = .ok (width, height, pixels))
    (hle : transfer.encoded.length + data.length ≤ maximum transfer.control pixels) :
    g.receive screen base64 geometry transfer (data ++ more) =
      g.receive screen base64 geometry { transfer with encoded := transfer.encoded ++ data } more := by
  have hover : (maximum transfer.control pixels - transfer.encoded.length < (data ++ more).length) ↔
      (maximum transfer.control pixels - (transfer.encoded ++ data).length < more.length) := by
    rw [length_append, length_append]
    omega
  simp only [receive, hdims, hover, append_assoc]

end

theorem receive_going {key : ℕ} {encoded : Bytes} {given : Option ℕ} {quiet : ℕ} (hp : Placing geometry) (given' : Option ℕ) :
    g.receive screen base64 geometry ⟨key, control.going false given quiet, encoded⟩ data =
      g.receive screen base64 geometry ⟨key, control.going false given' quiet, encoded⟩ data := by
  have hpl : ∀ (g : KittyGraphics) given, g.place screen geometry key (control.going false given quiet) =
      g.place screen geometry key (control.going false none quiet) := by
    intro g given
    simp only [place, placement, hp control]
    rfl
  simp only [receive, hpl _ given, hpl _ given']
  rfl

/-! ### Commands that go on with a transfer -/

theorem action_of_parse (h : parse bytes = .ok control) : control.action = none ↔ value bytes 'a' = none := by
  obtain ⟨ha, -, -⟩ := parse_spec h
  unfold parseAction at ha
  split at ha
  · rename_i hn
    exact iff_of_true (Except.ok.inj ha).symm hn
  · rename_i action hs
    split at ha
    · rw [← Except.ok.inj ha]
      exact iff_of_false (by simp) (by simp [hs])
    · cases ha
  · cases ha

theorem GoesOn.not_query (h : GoesOn more bytes) : singleQuery bytes = false := by
  obtain ⟨control, hps, ha, -⟩ := h
  have hv := (action_of_parse hps).1 ha
  simp [singleQuery, hv]

/-- Without a transfer, nothing comes of a control that goes on with one. -/
theorem GoesOn.graphic_none (h : GoesOn more bytes) (hs : Settled screen g) (hc : g.current = none) :
    g.graphic screen base64 geometry bytes data = (g, none) := by
  have hq := h.not_query
  obtain ⟨control, hps, ha, hw, -, hid, -⟩ := h
  have hdims : control.dimensions = .error .einval := by simp [dimensions, hw]
  have hg : { g with current := none } = g := by
    rw [← hc]
  have hm : control.reply.message (.error .einval) = none := by simp [Reply.message, hid]
  simp only [graphic, hq, hps, hs.pruneDead, execute, hc, ha, begin, hdims, hg, hm]
  simp

/-- A control that goes on with the transfer that is under way. -/
theorem GoesOn.graphic_some (h : GoesOn more bytes) (hs : Settled screen g) (hc : g.current = some transfer)
    (hk : transfer.key &&& altKey = screen.key) :
    g.graphic screen base64 geometry bytes data = receive screen base64 geometry { g with current := none }
      (transfer.going more ((givenQuiet bytes).getD transfer.control.reply.quiet)) data := by
  have hq := h.not_query
  obtain ⟨control, hps, ha, hw, hh, hid, rfl⟩ := h
  have hct : continues screen control transfer = true := by
    simp [continues, ha, hw, hh, hid, hk]
  have hf : (some transfer).filter (continues screen control) = some transfer := by simp [hct]
  have hg : givenQuiet bytes = control.quiet := by simp [givenQuiet, hps]
  simp only [graphic, hq, hps, hs.pruneDead, execute, hc, hf, hg]
  rfl

theorem Later.transmit_none (h : Later later) (hs : Settled screen g) (hc : g.current = none) :
    transmit screen base64 geometry g later = (g, []) := by
  induction h with
  | last h =>
    simp only [transmit, h.graphic_none hs hc]
    rfl
  | more h hl ih =>
    simp only [transmit, h.graphic_none hs hc, ih]
    rfl

/-- **The rest of the data may come in chunks.** -/
theorem Later.transmit_some (base64 : Bytes → Option Bytes) (geometry : Control → ℕ → ℕ → WindowSize → Bool)
    (h : Later later) (transfer : Transfer) (hs : Settled screen g) (hc : g.current = some transfer)
    (hk : transfer.key &&& altKey = screen.key) (hdims : transfer.control.dimensions = .ok (width, height, pixels))
    (hle : transfer.encoded.length ≤ maximum transfer.control pixels) :
    let quiet := quietWithin (maximum transfer.control pixels) transfer.control.reply.quiet transfer.encoded.length later
    let once := receive screen base64 geometry { g with current := none } (transfer.going false quiet) (later.flatMap Prod.snd)
    transmit screen base64 geometry g later = (once.1, once.2.toList) := by
  induction h generalizing g transfer with
  | last h =>
    simp only [transmit, h.graphic_some hs hc hk, quietWithin, ite_self, flatMap_cons, flatMap_nil, append_nil]
  | @more bytes data later h hl ih =>
    simp only [transmit, h.graphic_some hs hc hk, quietWithin, flatMap_cons]
    generalize (givenQuiet bytes).getD transfer.control.reply.quiet = quiet
    have hm : ∀ more quiet, maximum (transfer.going more quiet).control pixels = maximum transfer.control pixels :=
      fun _ _ => rfl
    have hdims' : ∀ more quiet, (transfer.going more quiet).control.dimensions = .ok (width, height, pixels) := fun _ _ => hdims
    by_cases hover : maximum transfer.control pixels < transfer.encoded.length + data.length
    · have hs' : Settled screen { g with current := none } := hs
      rw [if_pos hover, receive_over _ (hdims' true quiet) (by rw [hm]; change _ - transfer.encoded.length < _; omega),
        receive_over _ (hdims' false quiet) (by rw [hm, length_append]; change _ - transfer.encoded.length < _; omega),
        hl.transmit_none hs' rfl, append_nil]
      rfl
    · rw [if_neg hover, receive_more _ (hdims' true quiet) (by rw [hm]; change ¬_ - transfer.encoded.length < _; omega) rfl,
        receive_append _ (hdims' false _) (by rw [hm]; change transfer.encoded.length + _ ≤ _; omega)]
      have hr := ih (g := { g with current := some { transfer.going true quiet with encoded := transfer.encoded ++ data } })
        { transfer.going true quiet with encoded := transfer.encoded ++ data } hs rfl hk hdims (by
          rw [length_append]
          change _ ≤ maximum transfer.control pixels
          omega)
      rw [length_append] at hr
      exact hr

/-! ### First commands -/

/-- The first of the commands of an image: it transmits, with `m=1`, and does not go on with a transfer. -/
structure Opens (screen : Screen) (g : KittyGraphics) (head : Bytes) : Prop where
  action : value head 'a' ∈ [none, some [code 't'], some [code 'T']]
  more : number head 'm' = .ok (some 1)
  begins : ∀ control transfer, parse head = .ok control → g.current = some transfer →
    continues screen control transfer = false

/-- The one command for an image in chunks: the first one with `m=0`, and with the `q` that counts. -/
structure OneCommand (head data : Bytes) (later : List (Bytes × Bytes)) (single : Bytes) : Prop where
  action : value single 'a' = value head 'a'
  accepted : ∀ control, parse head = .ok control →
    ∃ given, parse single = .ok (control.going false given (quietInForce control data later))
  rejected : ∀ e, parse head = .error e → parse single = .error e ∧ Reply.read single = Reply.read head

theorem not_query_of_action (h : value bytes 'a' ∈ [none, some [code 't'], some [code 'T']]) : singleQuery bytes = false := by
  simp only [mem_cons, not_mem_nil, or_false] at h
  rcases h with h | h | h <;> rw [singleQuery, h] <;> simp [code]

theorem not_delete_of_action (h : value bytes 'a' ∈ [none, some [code 't'], some [code 'T']]) : isDelete bytes = false := by
  simp only [mem_cons, not_mem_nil, or_false] at h
  rcases h with h | h | h <;> rw [isDelete, h] <;> simp [code]

theorem transmits_of_action (h : value bytes 'a' ∈ [none, some [code 't'], some [code 'T']]) (hps : parse bytes = .ok control) :
    control.action.getD (code 't') = code 't' ∨ control.action.getD (code 't') = code 'T' := by
  obtain ⟨ha, -, -⟩ := parse_spec hps
  simp only [mem_cons, not_mem_nil, or_false] at h
  rcases h with h | h | h
  · simp [(action_of_parse hps).2 h]
  · rw [parseAction, h] at ha
    rw [← Except.ok.inj ha]
    exact .inl rfl
  · rw [parseAction, h] at ha
    rw [← Except.ok.inj ha]
    exact .inr rfl

/-- A first command that is accepted begins a transfer. -/
theorem graphic_begin (h : value bytes 'a' ∈ [none, some [code 't'], some [code 'T']]) (hps : parse bytes = .ok control)
    (hb : ∀ transfer, g.current = some transfer → continues screen control transfer = false) :
    g.graphic screen base64 geometry bytes data = (g.pruneDead screen).begin screen base64 geometry control data := by
  have hf : (g.pruneDead screen).current.filter (continues screen control) = none := by
    rw [pruneDead_current, filter_eq_none_iff]
    exact fun transfer ht => by simp [hb transfer ht]
  have htran : control.action.getD (code 't') = code 't' ∨ control.action.getD (code 't') = code 'T' ∨
      control.action.getD (code 't') = code 'q' := (transmits_of_action h hps).imp_right .inl
  simp only [graphic, not_query_of_action h, hps, execute, hf, if_pos htran]
  rfl

/-- A transfer that begins has a key of its screen. -/
theorem begin_eq (screen : Screen) (base64 : Bytes → Option Bytes) (geometry : Control → ℕ → ℕ → WindowSize → Bool) (g : KittyGraphics)
    (hid : ∀ id, control.reply.id = some id → id < 2 ^ 32)
    (hdims : control.dimensions = .ok (width, height, pixels)) :
    ∃ key anonymous, key &&& altKey = screen.key ∧ ∀ more given quiet data,
      g.begin screen base64 geometry (control.going more given quiet) data =
        receive screen base64 geometry { g with current := none, anonymous := anonymous }
          ⟨key, control.going more given quiet, []⟩ data := by
  have hdims' : ∀ more given quiet, (control.going more given quiet).dimensions = .ok (width, height, pixels) := fun _ _ _ => hdims
  have hid' : ∀ more given quiet, (control.going more given quiet).reply.id = control.reply.id := fun _ _ _ => rfl
  cases hs : control.reply.id with
  | some id =>
    refine ⟨screen.key ||| id, g.anonymous, screen_of_key (Nat.lt_trans (hid id hs) (by decide)), fun more given quiet data => ?_⟩
    simp only [begin, hdims', hid', hs]
  | none =>
    refine ⟨screen.key ||| (anonymousKey ||| (g.anonymous + 1) % anonymousKey), (g.anonymous + 1) % anonymousKey,
      screen_of_key (or_lt_two_pow (show anonymousKey < 2 ^ 63 by decide) ?_), fun more given quiet data => ?_⟩
    · exact Nat.lt_trans (mod_lt _ (show 0 < anonymousKey by decide)) (by decide)
    · simp only [begin, hdims', hid', hs]

/-! ### Chunks and the one command -/

/-- Chunks have done what one command does: the replies are the same, and the store is that after the one command, but for
what is dead; and no transfer is under way. -/
structure SameOutcome (screen : Screen) (chunked : KittyGraphics × List Message) (once : KittyGraphics × Option Message) : Prop where
  replies : chunked.2 = once.2.toList
  store : chunked.1 = once.1 ∨ chunked.1 = once.1.pruneDead screen
  done : chunked.1.current = none

theorem makeRoom_current (cost n : ℕ) : (g.makeRoom screen cost n).current = g.current := by
  induction n generalizing g with
  | zero => rfl
  | succ n ih =>
    rw [makeRoom]
    split
    · split
      · rfl
      · exact ih
    · rfl

theorem place_current {key : ℕ} : (g.place screen geometry key control).1.current = g.current := by
  unfold place
  dsimp only
  generalize hg1 : (if maxImageCells ≤ g.placements.entries.length
    then { g with placements := g.placements.retain (g.isAlive screen) } else g) = g1
  have hk : g1.current = g.current := by
    rw [← hg1]
    split <;> rfl
  split
  · exact hk
  · split
    · exact hk
    · split <;> exact hk

theorem receive_done (hc : g.current = none) (hmore : transfer.control.more = false) :
    (g.receive screen base64 geometry transfer data).1.current = none := by
  unfold receive
  dsimp only
  split
  · exact hc
  split
  · exact hc
  · rw [hmore, if_neg Bool.false_ne_true]
    split
    · exact hc
    split
    · exact hc
    · have hrm : ∀ cost n, ((g.forget screen transfer.key).makeRoom screen cost n).current = none :=
        fun cost n => (makeRoom_current cost n).trans hc
      split
      · exact place_current.trans (hrm _ _)
      · exact hrm _ _

/-- **An image that is accepted may come in chunks**: they do what the one command does. -/
theorem transmit_eq (base64 : Bytes → Option Bytes) {head single : Bytes} (hsep : Separate g) (hp : Placing geometry)
    (ho : Opens screen g head) (hl : Later later) (hone : OneCommand head data later single) (hps : parse head = .ok control) :
    let once := g.graphic screen base64 geometry single (data ++ later.flatMap Prod.snd)
    transmit screen base64 geometry g ((head, data) :: later) = (once.1, once.2.toList) ∧ once.1.current = none := by
  obtain ⟨given, hsing⟩ := hone.accepted control hps
  have hs := settled_pruneDead screen hsep
  have hhd : g.graphic screen base64 geometry head data = (g.pruneDead screen).begin screen base64 geometry control data :=
    graphic_begin ho.action hps fun transfer => ho.begins control transfer hps
  have honce : ∀ data, g.graphic screen base64 geometry single data =
      (g.pruneDead screen).begin screen base64 geometry (control.going false given (quietInForce control _ later)) data :=
    fun _ => graphic_begin (hone.action ▸ ho.action) hsing fun transfer => ho.begins control transfer hps
  have hd : Settled screen { g.pruneDead screen with current := none } := hs
  simp only [transmit, hhd, honce]
  cases hdims : control.dimensions with
  | error e =>
    have hf : ∀ (c : Control) data, c.dimensions = .error e → (g.pruneDead screen).begin screen base64 geometry c data =
        ({ g.pruneDead screen with current := none }, c.reply.message (.error e)) := by
      intro c data hc
      simp only [begin, hc]
    have hq : quietInForce control data later = control.reply.quiet := by simp only [quietInForce, hdims]
    rw [hf control data hdims, hf (control.going false given _) _ hdims, hl.transmit_none hd rfl, append_nil, hq]
    exact ⟨rfl, rfl⟩
  | ok size =>
    obtain ⟨width, height, pixels⟩ := size
    obtain ⟨key, anonymous, hk, hb⟩ := begin_eq screen base64 geometry (g.pruneDead screen) (fun id => id_lt hps) hdims
    have hmore : control.more = true := by
      obtain ⟨-, -, more, hmore, heq⟩ := parse_spec hps
      rw [ho.more] at hmore
      rw [heq, ← Except.ok.inj hmore]
      rfl
    have hfst := hb control.more control.quiet control.reply.quiet data
    rw [show control.going control.more control.quiet control.reply.quiet = control from rfl] at hfst
    rw [hfst, hb]
    refine ⟨?_, receive_done rfl rfl⟩
    rw [receive_going hp control.quiet]
    have hdims' : ∀ more quiet, (Transfer.going ⟨key, control, []⟩ more quiet).control.dimensions = .ok (width, height, pixels) :=
      fun _ _ => hdims
    generalize hst : ({ g.pruneDead screen with current := none, anonymous := anonymous } : KittyGraphics) = start
    have hst' : Settled screen start ∧ start.current = none := by
      rw [← hst]
      exact ⟨hs, rfl⟩
    by_cases hover : maximum control pixels < data.length
    · have hq : quietInForce control data later = control.reply.quiet := by simp only [quietInForce, hdims, if_pos hover]
      rw [receive_over ⟨key, control, []⟩ hdims (by simpa using hover), hl.transmit_none hst'.1 hst'.2, hq,
        receive_over ⟨key, control.going false control.quiet control.reply.quiet, []⟩ hdims (by
          rw [length_append]
          change maximum control pixels - 0 < _
          omega), append_nil]
      rfl
    · have hq : quietInForce control data later = quietWithin (maximum control pixels) control.reply.quiet data.length later := by
        simp only [quietInForce, hdims, if_neg hover]
      have hst'' : { start with current := none } = start := by rw [← hst'.2]
      rw [receive_more ⟨key, control, []⟩ hdims (by simpa using hover) hmore, hq,
        receive_append ⟨key, control.going false control.quiet _, []⟩ hdims (by
          change 0 + data.length ≤ maximum control pixels
          omega)]
      have hr := hl.transmit_some base64 geometry (g := { start with current := some ⟨key, control, data⟩ }) ⟨key, control, data⟩
        hst'.1 rfl hk hdims (Nat.not_lt.1 hover)
      simp only [nil_append] at hr ⊢
      rw [hr]
      change _ = ((receive screen base64 geometry start _ _).1, _)
      rw [← hst'']
      rfl

/-- A first command that is rejected leaves the store. -/
theorem graphic_rejected {e : KittyError} (h : value bytes 'a' ∈ [none, some [code 't'], some [code 'T']])
    (hps : parse bytes = .error e) :
    g.graphic screen base64 geometry bytes data = (g, (Reply.read bytes).message (.error e)) := by
  simp only [graphic, not_query_of_action h, hps, not_delete_of_action h]
  rfl

/-- Commands that go on with a transfer prune first. -/
theorem Later.transmit_pruneDead (h : Later later) (hs : Separate g) :
    transmit screen base64 geometry g later = transmit screen base64 geometry (g.pruneDead screen) later := by
  have hg : ∀ {more : Bool} {bytes data : Bytes}, GoesOn more bytes →
      g.graphic screen base64 geometry bytes data = (g.pruneDead screen).graphic screen base64 geometry bytes data := by
    intro more bytes data hgoes
    have hq := hgoes.not_query
    obtain ⟨control, hps, -⟩ := hgoes
    simp only [graphic, hq, hps, pruneDead_pruneDead hs]
    rfl
  cases h with
  | last h => simp only [transmit, hg h]
  | more h hl => simp only [transmit, hg h]

/-- **Chunks do what the one command does**, just if the first of them is accepted or no transfer is under way. -/
theorem chunked_iff (screen : Screen) (base64 : Bytes → Option Bytes) (geometry : Control → ℕ → ℕ → WindowSize → Bool) (g : KittyGraphics)
    (head data : Bytes) (later : List (Bytes × Bytes)) (single : Bytes) (hsep : Separate g) (hplacing : Placing geometry)
    (hopens : Opens screen g head) (hlater : Later later) (hone : OneCommand head data later single) :
    SameOutcome screen (transmit screen base64 geometry g ((head, data) :: later))
        (g.graphic screen base64 geometry single (data ++ later.flatMap Prod.snd)) ↔
      (∃ control, parse head = .ok control) ∨ g.current = none := by
  cases hps : parse head with
  | ok control =>
    obtain ⟨heq, hd⟩ := transmit_eq base64 hsep hplacing hopens hlater hone hps
    refine iff_of_true ?_ (.inl ⟨control, rfl⟩)
    rw [heq]
    exact ⟨rfl, Or.inl rfl, hd⟩
  | error e =>
    obtain ⟨hsing, hrep⟩ := hone.rejected e hps
    have ha : value single 'a' ∈ [none, some [code 't'], some [code 'T']] := hone.action ▸ hopens.action
    have hcur := pruneDead_current screen g
    simp only [transmit, graphic_rejected hopens.action hps, graphic_rejected ha hsing, hrep, hlater.transmit_pruneDead hsep]
    constructor
    · rintro ⟨-, hst, hd⟩
      rcases hst with hst | hst
      · rw [hst] at hd
        exact .inr hd
      · rw [hst, hcur] at hd
        exact .inr hd
    · rintro (⟨control, hctl⟩ | hn)
      · cases hctl
      · rw [hlater.transmit_none (settled_pruneDead screen hsep) (hcur.trans hn)]
        exact ⟨append_nil _, .inr rfl, hcur.trans hn⟩

/-! ### A rejected first command -/

theorem separate_empty : Separate (empty none []) := by
  rintro key key' id (h | ⟨slot, p, h, -⟩) <;> cases h

/-- The control `a=t,i=7,s=1,v=1,m=1`. -/
def sampleOpening : Control := sampleControl.going true none 0

theorem goesOn_last : GoesOn false (bytesOf "m=0") :=
  ⟨⟨none, ⟨none, none, 0⟩, none, false, none, none, 4, code 'a', none, none, 0, 0, none, none, 0, 0,
    false⟩, by decide, rfl, rfl, rfl, rfl, rfl⟩

theorem chunked_iff_sample :
    SameOutcome (sampleScreen true 1)
        (transmit (sampleScreen true 1) sampleBase64 (fun _ _ _ _ => true) (empty none [])
          [(bytesOf "a=t,i=7,s=1,v=1,m=1", bytesOf "AQID"), (bytesOf "m=0", bytesOf "BA==")])
        ((empty none []).graphic (sampleScreen true 1) sampleBase64 (fun _ _ _ _ => true) (bytesOf "a=t,i=7,s=1,v=1,m=0")
          (bytesOf "AQID" ++ [(bytesOf "m=0", bytesOf "BA==")].flatMap Prod.snd)) ↔
      (∃ control, parse (bytesOf "a=t,i=7,s=1,v=1,m=1") = .ok control) ∨ (empty none []).current = none := by
  have hhd : parse (bytesOf "a=t,i=7,s=1,v=1,m=1") = .ok sampleOpening := by decide
  refine chunked_iff (sampleScreen true 1) sampleBase64 (fun _ _ _ _ => true) (empty none [])
    (bytesOf "a=t,i=7,s=1,v=1,m=1") (bytesOf "AQID")
    [(bytesOf "m=0", bytesOf "BA==")] (bytesOf "a=t,i=7,s=1,v=1,m=0") separate_empty (fun _ _ _ _ => rfl)
    ⟨by decide, by decide, fun _ transfer _ hcur => nomatch (hcur : none = some transfer)⟩ (.last goesOn_last)
      ⟨by decide, fun control hctl => ?_, fun e he => ?_⟩
  · obtain rfl : sampleOpening = control := Except.ok.inj (hhd.symm.trans hctl)
    exact ⟨none, by decide⟩
  · rw [hhd] at he
    cases he

/-- The store with a half image. -/
def halfImage : KittyGraphics :=
  ((empty none []).graphic (sampleScreen true 1) sampleBase64 (fun _ _ _ _ => true) (bytesOf "a=t,i=7,s=1,v=1,m=1") (bytesOf "AQID")).1

/-- The chunks of an image that is rejected complete another one. -/
theorem rejected_chunks_complete_another : ¬ ∀ (screen : Screen) (base64 : Bytes → Option Bytes)
    (geometry : Control → ℕ → ℕ → WindowSize → Bool) (g : KittyGraphics) (head data : Bytes) (later : List (Bytes × Bytes)) (single : Bytes),
    Separate g → Placing geometry → Opens screen g head → Later later → OneCommand head data later single →
      (transmit screen base64 geometry g ((head, data) :: later)).1.images.get? 7 =
        (g.graphic screen base64 geometry single (data ++ later.flatMap Prod.snd)).1.images.get? 7 := by
  intro h
  have hhd : parse (bytesOf "a=t,i=8,f=100,s=1,v=1,m=1") = .error .enotsup := by decide
  have hsep : Separate halfImage := by
    have hids : halfImage.identities.entries = [] := by decide
    have hpls : halfImage.placements.entries = [] := by decide
    rintro key key' id (hkey | ⟨slot, p, hkey, -⟩)
    · rw [hids] at hkey
      cases hkey
    · rw [hpls] at hkey
      cases hkey
  have hope : Opens (sampleScreen true 3) halfImage (bytesOf "a=t,i=8,f=100,s=1,v=1,m=1") := by
    refine ⟨by decide, by decide, fun control _ hctl _ => ?_⟩
    rw [hhd] at hctl
    cases hctl
  have hone : OneCommand (bytesOf "a=t,i=8,f=100,s=1,v=1,m=1") (bytesOf "AAAA") [(bytesOf "m=0", bytesOf "BA==")]
      (bytesOf "a=t,i=8,f=100,s=1,v=1,m=0") := by
    refine ⟨by decide, fun control hctl => ?_, fun e he => ?_⟩
    · rw [hhd] at hctl
      cases hctl
    · rw [hhd] at he
      obtain rfl : KittyError.enotsup = e := Except.error.inj he
      exact ⟨by decide +kernel, by decide +kernel⟩
  have himg := h (sampleScreen true 3) sampleBase64 (fun _ _ _ _ => true) halfImage _ _ _ _ hsep (fun _ _ _ _ => rfl) hope
    (.last goesOn_last) hone
  revert himg
  decide

end Pebrel.Terminal.Kitty
