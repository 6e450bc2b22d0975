import Mathlib
import Pebrel.Link.HostCredentials

/-!
# Stored credentials are read back

In every state of a host the credentials that it writes are short enough to be
read again, and are read as the same key and the same devices; so a device can
always be revoked and its permission changed.

`Sound` is what holds of the devices in every state: there are few, their ids are
all different, and ids and names are as they are checked for when they are read.
A device takes at most 477 bytes of JSON, and the list of devices, as a string in
JSON again, at most twice its own bytes, as JSON has no control characters.
-/

namespace Pebrel.Link.Credentials

open Library Library.FlatJson Library.Transition List Option Text Char
open Library.Text (byteLen)

variable {x : Crates}

/-! ### Secrets and ids -/

theorem plain_of_isSafe {c : Char} (h : Base64.isSafe c = true) : c ≠ '\x22' ∧ c ≠ '\x5c' ∧ 32 ≤ c.toNat := by
  refine ⟨?_, ?_, ?_⟩
  · rintro rfl
    cases h
  · rintro rfl
    cases h
  · by_contra hlt
    have ha : ∀ n < 32, Base64.isSafe (Char.ofNat n) = false := by decide
    have hc := ha c.toNat (by omega)
    rw [ofNat_toNat, h] at hc
    cases hc

theorem size_of_isSafe {c : Char} (h : Base64.isSafe c = true) : c.utf8Size = 1 := by
  rw [utf8Size_eq_one_iff, UInt32.le_iff_toNat_le]
  simp only [Base64.isSafe, isAlphanum, isAlpha, isUpper, isLower, isDigit, Bool.or_eq_true, Bool.and_eq_true,
    decide_eq_true_eq, beq_iff_eq, ge_iff_le, UInt32.le_iff_toNat_le] at h
  rcases h with (((h | h) | h) | rfl) | rfl
  · exact h.2.trans (by decide)
  · exact h.2.trans (by decide)
  · exact h.2.trans (by decide)
  · decide
  · decide

theorem byteLen_of_safe {t : Text} (h : ∀ c ∈ t, Base64.isSafe c = true) : byteLen t = t.length := by
  induction t with
  | nil => rfl
  | cons c t ih =>
    rw [byteLen_cons, size_of_isSafe (h c (by simp)), ih fun d hd => h d (by simp [hd]), length_cons, Nat.add_comm]

theorem byteLen_encode (b : Bytes32) : byteLen (x.encode b) = 43 := by
  rw [byteLen_of_safe (x.safe b), x.length_encode]

/-- A secret is read back. -/
theorem decodeSecret_encode (b : Bytes32) : decodeSecret x (x.encode b) = some b := by
  rw [decodeSecret, if_neg (by rw [byteLen_encode]; simp), x.decode_encode]
  simp [b.property]

theorem validId_hash (secret : Bytes32) : validId (hash x secret) = true := by
  have hl := x.length_encode (x.digest secret)
  have hne : hash x secret ≠ [] := by
    intro h
    rw [hash] at h
    rw [h] at hl
    cases hl
  have hbs : byteLen (hash x secret) = 43 := byteLen_encode _
  simp only [validId, hbs, Bool.and_eq_true, decide_eq_true_eq, List.all_eq_true]
  exact ⟨⟨by simpa using hne, by decide⟩, x.safe _⟩

/-! ### Devices -/

/-- What holds of a device in the book. -/
structure ValidGrant (d : DeviceGrant) : Prop where
  id : validId d.id = true
  name : validName d.name = true

/-- What holds of the book of a host at any time. -/
structure Sound (book : PairingBook) : Prop where
  distinct : (book.devices.map DeviceGrant.id).Nodup
  valid : ∀ d ∈ book.devices, ValidGrant d
  room : book.devices.length + book.pending.length ≤ maxDevices

theorem entryOf_entry (d : DeviceGrant) : entryOf (entry x d) = some ⟨d.id, d.name, d.allowInput, x.encode d.secret⟩ := by
  have hs : strict ["id", "name", "allowInput", "secret"] (entry x d) = true := rfl
  rw [entryOf, hs]
  rfl

theorem mapM_entryOf (values : List DeviceGrant) :
    (values.map (entry x)).mapM entryOf = some (values.map fun d => ⟨d.id, d.name, d.allowInput, x.encode d.secret⟩) := by
  induction values with
  | nil => rfl
  | cons d values ih =>
    rw [map_cons, mapM_cons, entryOf_entry, ih]
    rfl

/-- Valid devices of different ids are all inserted. -/
theorem insertEntries_entries {values devices : List DeviceGrant} (hv : ∀ d ∈ values, ValidGrant d)
    (hdis : ((devices ++ values).map DeviceGrant.id).Nodup) :
    insertEntries x (values.map fun d => ⟨d.id, d.name, d.allowInput, x.encode d.secret⟩) devices = some (devices ++ values) := by
  induction values generalizing devices with
  | nil => simp [insertEntries]
  | cons d values ih =>
    have hd := hv d (by simp)
    have hn : devices.any (fun e => decide (e.id = d.id)) = false := by
      rw [List.any_eq_false]
      intro e he
      rw [map_append, nodup_append] at hdis
      simpa using hdis.2.2 e.id (mem_map_of_mem he) d.id (by simp)
    rw [map_cons, insertEntries, hd.id, hd.name, hn]
    simp only [Bool.not_true, Bool.or_self, Bool.false_eq_true, if_false, decodeSecret_encode]
    rw [ih (fun e he => hv e (by simp [he])) (by rw [append_assoc]; exact hdis), append_assoc]
    rfl

/-! ### Sizes -/

theorem byteLen_writeMember (key : String) (s : Scalar) :
    byteLen (writeMember (key.toList, s)) = byteLen (writeString key.toList) + 1 + byteLen (writeScalar s) := by
  have h : ':'.utf8Size = 1 := by decide
  rw [writeMember, byteLen_append, byteLen_cons, h]
  exact (Nat.add_assoc _ _ _).symm

/-- An object with four members has two braces and three commas. -/
theorem byteLen_writeObject (a b c d : Text × Scalar) : byteLen (writeObject [a, b, c, d]) =
    byteLen (writeMember a) + byteLen (writeMember b) + byteLen (writeMember c) + byteLen (writeMember d) + 5 := by
  have hcom : ','.utf8Size = 1 := by decide
  have hn : byteLen [] = 0 := rfl
  have ho : '\x7b'.utf8Size = 1 := by decide
  have hcl : '\x7d'.utf8Size = 1 := by decide
  simp only [writeObject, map_cons, map_nil, separated, intersperse_cons_cons, intersperse_singleton, flatten_cons,
    flatten_nil, append_nil, cons_append, byteLen_cons, byteLen_append, ho, hcl, hcom, hn]
  omega

theorem byteLen_writeSecret (b : Bytes32) : byteLen (writeScalar (.string (x.encode b))) = 45 := by
  rw [writeScalar, byteLen_writeString, escape_of_plain fun c hc => plain_of_isSafe (x.safe b c hc), byteLen_encode]

theorem byteLen_writeBool_le (b : Bool) : byteLen (writeScalar (.bool b)) ≤ 5 := by
  cases b <;> decide

/-- A device takes 477 bytes at most. -/
theorem byteLen_entry_le {d : DeviceGrant} (hd : ValidGrant d) : byteLen (writeObject (entry x d)) ≤ 477 := by
  have hid := hd.id
  have hnm := hd.name
  simp only [validId, validName, Bool.and_eq_true, decide_eq_true_eq, List.all_eq_true, Bool.not_eq_true', List.any_eq_false] at hid hnm
  have hid' : byteLen (writeScalar (.string d.id)) ≤ 66 := by
    rw [writeScalar, byteLen_writeString, escape_of_plain fun c hc => plain_of_isSafe (hid.2 c hc)]
    have := hid.1.2
    omega
  have hnm' : byteLen (writeScalar (.string d.name)) ≤ 322 := by
    have hpl : ∀ c ∈ d.name, 32 ≤ c.toNat := by
      intro c hc
      have := hnm.2 c hc
      simp only [isControl, Bool.or_eq_true, decide_eq_true_eq, not_or, not_lt] at this
      exact this.1
    have he := byteLen_escape_le hpl
    have hl : byteLen d.name ≤ 160 := hnm.1.2
    rw [writeScalar, byteLen_writeString]
    omega
  have ha := byteLen_writeBool_le d.allowInput
  have h1 : byteLen (writeString "id".toList) = 4 := by decide
  have h2 : byteLen (writeString "name".toList) = 6 := by decide
  have h3 : byteLen (writeString "allowInput".toList) = 12 := by decide
  have h4 : byteLen (writeString "secret".toList) = 8 := by decide
  simp only [entry, byteLen_writeObject, byteLen_writeMember, byteLen_writeSecret]
  omega

/-- The devices fit the limit of the inner text. -/
theorem byteLen_exportDevices_le {values : List DeviceGrant} (hv : ∀ d ∈ values, ValidGrant d) (hl : values.length ≤ maxDevices) :
    byteLen (exportDevices x values) ≤ 15298 := by
  have hpie : ∀ p ∈ (values.map (entry x)).map writeObject, byteLen p ≤ 477 := by
    intro p hp
    obtain ⟨m, hm, rfl⟩ := mem_map.mp hp
    obtain ⟨d, hd, rfl⟩ := mem_map.mp hm
    exact byteLen_entry_le (hv d hd)
  have hpiec := byteLen_separated_le hpie
  have ho : '['.utf8Size = 1 := by decide
  have hcl : byteLen [']'] = 1 := by decide
  rw [length_map, length_map] at hpiec
  rw [maxDevices] at hl
  rw [exportDevices, writeObjects, cons_append, byteLen_cons, byteLen_append, ho, hcl]
  omega

/-- The whole text fits its limit, with the list of devices escaped once more. -/
theorem byteLen_encode_le {h : HostState} (order : Order) (hdevs : byteLen (exportDevices x (order.values h.book.devices)) ≤ 15298) :
    byteLen (h.encode x order) ≤ 48 * 1024 := by
  have he : byteLen (escape (exportDevices x (order.values h.book.devices))) ≤ 2 * byteLen (exportDevices x (order.values h.book.devices)) :=
    byteLen_escape_le fun c hc => ge_of_mem_writeObjects hc
  have hi : byteLen (writeScalar (.string (exportDevices x (order.values h.book.devices)))) ≤ 30598 := by
    rw [writeScalar, byteLen_writeString]
    omega
  have h1 : byteLen (writeString "version".toList) = 9 := by decide
  have h2 : byteLen (writeString "privateKey".toList) = 12 := by decide
  have h3 : byteLen (writeString "publicKey".toList) = 11 := by decide
  have h4 : byteLen (writeString "devices".toList) = 9 := by decide
  have h5 : byteLen (writeScalar (.number 2)) = 1 := by decide
  simp only [HostState.encode, byteLen_writeObject, byteLen_writeMember, byteLen_writeSecret]
  omega

/-! ### Reading back -/

theorem Sound.values_valid {book : PairingBook} (hs : Sound book) (order : Order) : ∀ d ∈ order.values book.devices, ValidGrant d :=
  fun d hd => hs.valid d ((order.perm _).mem_iff.mp hd)

theorem Sound.devices_le {book : PairingBook} (hs : Sound book) : book.devices.length ≤ maxDevices := (Nat.le_add_right _ _).trans hs.room

/-- The devices are read back, in the order in which they are written. -/
theorem restoreDevices_export {book : PairingBook} (hs : Sound book) (order : Order) :
    restoreDevices x (exportDevices x (order.values book.devices)) = some ⟨[], order.values book.devices⟩ := by
  have hl : (order.values book.devices).length ≤ maxDevices := by
    rw [(order.perm _).length_eq]
    exact hs.devices_le
  have hsz := byteLen_exportDevices_le (x := x) (hs.values_valid order) hl
  have hd : ((order.values book.devices).map DeviceGrant.id).Nodup := ((order.perm _).map _).nodup_iff.mpr hs.distinct
  rw [restoreDevices, if_neg (by omega), exportDevices, x.readObjects_write, bind_some, mapM_entryOf]
  simp only [length_map]
  rw [if_neg (by omega), insertEntries_entries (hs.values_valid order) (by simpa using hd)]
  rfl

/-- **What a host writes is read back**: the same key and the same devices. -/
theorem restore_encode {h : HostState} (hs : Sound h.book) (order : Order) :
    HostState.restore x (h.encode x order) = some { h with book := ⟨[], order.values h.book.devices⟩ } := by
  have hl : (order.values h.book.devices).length ≤ maxDevices := by
    rw [(order.perm _).length_eq]
    exact hs.devices_le
  have hsz := byteLen_encode_le order (byteLen_exportDevices_le (x := x) (hs.values_valid order) hl)
  have hrd := x.readObject_write [("version".toList, .number 2), ("privateKey".toList, .string (x.encode h.privateKey)),
    ("publicKey".toList, .string (x.encode h.publicKey)),
    ("devices".toList, .string (exportDevices x (order.values h.book.devices)))]
  have hstr : ∀ a b c, strict ["version", "privateKey", "publicKey", "devices"] [("version".toList, .number 2),
      ("privateKey".toList, .string a), ("publicKey".toList, .string b), ("devices".toList, .string c)] = true := by
    intro a b c
    rfl
  rw [HostState.restore, if_neg (by omega), HostState.encode, hrd]
  simp only [hstr, Bool.not_true, Bool.false_eq_true, if_false]
  have hfs : ∀ a b c, let m : Members := [("version".toList, .number 2), ("privateKey".toList, .string a),
      ("publicKey".toList, .string b), ("devices".toList, .string c)]
      field m "version" = some (.number 2) ∧ field m "privateKey" = some (.string a) ∧ field m "publicKey" = some (.string b) ∧
        field m "devices" = some (.string c) := by
    intro a b c
    exact ⟨rfl, rfl, rfl, rfl⟩
  obtain ⟨hv, hp, hpub, hdevs⟩ := hfs (x.encode h.privateKey) (x.encode h.publicKey) (exportDevices x (order.values h.book.devices))
  rw [hv, hp, hpub, hdevs]
  simp only [ne_eq, not_true_eq_false, if_false, x.decode_encode, decodeSecret_encode, restoreDevices_export hs,
    h.publicKey.property, dite_true]

/-! ### Every state -/

theorem insertEntries_sound {values : List Entry} {devices devices' : List DeviceGrant}
    (h : insertEntries x values devices = some devices') (hdis : (devices.map DeviceGrant.id).Nodup)
    (hv : ∀ d ∈ devices, ValidGrant d) :
    (devices'.map DeviceGrant.id).Nodup ∧ (∀ d ∈ devices', ValidGrant d) ∧ devices'.length = devices.length + values.length := by
  induction values generalizing devices with
  | nil =>
    rw [insertEntries, some.injEq] at h
    rw [← h]
    exact ⟨hdis, hv, rfl⟩
  | cons v values ih =>
    rw [insertEntries] at h
    split at h
    · cases h
    next hc =>
      simp only [Bool.or_eq_true, Bool.not_eq_true', not_or, Bool.not_eq_false, Bool.not_eq_true, List.any_eq_false,
        decide_eq_true_eq] at hc
      obtain ⟨⟨hid, hnm⟩, hn⟩ := hc
      split at h
      · cases h
      next secret _ =>
        obtain ⟨h1, h2, h3⟩ := ih h (by
          rw [map_append, nodup_append]
          refine ⟨hdis, by simp, ?_⟩
          intro a ha b hb
          obtain ⟨d, hd, rfl⟩ := mem_map.mp ha
          rw [map_singleton, mem_singleton] at hb
          rw [hb]
          exact hn d hd) (by
          intro d hd
          rcases mem_append.mp hd with hd | hd
          · exact hv d hd
          · rw [mem_singleton.mp hd]
            exact ⟨hid, hnm⟩)
        refine ⟨h1, h2, ?_⟩
        simp only [h3, length_append, length_cons, length_nil]
        omega

/-- A book that is read is sound, whatever it is read from. -/
theorem restoreDevices_sound {bytes : Text} {book : PairingBook} (h : restoreDevices x bytes = some book) : Sound book := by
  rw [restoreDevices] at h
  split at h
  · cases h
  split at h
  · cases h
  next values _ =>
    split at h
    · cases h
    next hl =>
      obtain ⟨devices, hi, rfl⟩ := map_eq_some_iff.mp h
      obtain ⟨hd, hv, hleng⟩ := insertEntries_sound hi (by simp) (by simp)
      refine ⟨hd, hv, ?_⟩
      rw [hleng]
      simp only [length_nil]
      omega

theorem restore_sound {bytes : Text} {h : HostState} (hr : HostState.restore x bytes = some h) : Sound h.book := by
  rw [HostState.restore] at hr
  split at hr
  · cases hr
  split at hr
  · cases hr
  split at hr
  · cases hr
  split at hr
  · split at hr
    · cases hr
    split at hr
    next hbook =>
      split at hr
      · cases hr
        exact restoreDevices_sound hbook
      · cases hr
    · cases hr
  · cases hr

variable {book : PairingBook}

theorem Sound.empty : Sound {} where
  distinct := nodup_nil
  valid := by simp
  room := Nat.zero_le _

section
variable (hs : Sound book)
include hs

theorem Sound.fewer {pending : List Pending} (hp : pending.length ≤ book.pending.length) : Sound { book with pending } where
  distinct := hs.distinct
  valid := hs.valid
  room := (Nat.add_le_add_left hp _).trans hs.room

theorem Sound.cancelInvitation (id : Text) : Sound (book.cancelInvitation id) := hs.fewer (length_filter_le _ _)

theorem Sound.issue (now : ℕ) (allowInput : Bool) (secret idSecret : Option Bytes32) :
    Sound (book.issue x now allowInput secret idSecret) := by
  have hr : Sound { book with pending := book.pending.filter fun p => decide (p.issuedAt ≤ now) && decide (now < p.expiresAt) } :=
    hs.fewer (length_filter_le _ _)
  unfold PairingBook.issue
  by_cases hrm : maxDevices ≤ book.devices.length +
      (book.pending.filter fun p => decide (p.issuedAt ≤ now) && decide (now < p.expiresAt)).length
  · rw [if_pos hrm]
    exact hr
  rw [if_neg hrm]
  by_cases hc : 2 ^ 64 ≤ now + invitationTtl
  · rw [if_pos hc]
    exact hr
  rw [if_neg hc]
  cases secret with
  | none => exact hr
  | some secret =>
    cases idSecret with
    | none => exact hr
    | some idSecret =>
      refine ⟨hr.distinct, hr.valid, ?_⟩
      have hle := length_filter_le (fun p : Pending => decide (p.id ≠ hash x idSecret))
        (book.pending.filter fun p => decide (p.issuedAt ≤ now) && decide (now < p.expiresAt))
      simp only [length_append, length_singleton] at hrm ⊢
      clear hc
      omega

theorem Sound.setInputPermission (id : Text) (allowInput : Bool) : Sound (book.setInputPermission id allowInput).1 := by
  simp only [PairingBook.setInputPermission]
  split
  · exact hs
  refine ⟨?_, ?_, ?_⟩
  · have hi : (book.devices.map fun d => if d.id = id then { d with allowInput } else d).map DeviceGrant.id =
        book.devices.map DeviceGrant.id := by
      rw [List.map_map]
      refine map_congr_left fun d _ => ?_
      simp only [Function.comp]
      split <;> rfl
    rw [hi]
    exact hs.distinct
  · intro d hd
    obtain ⟨d', hd', rfl⟩ := mem_map.mp hd
    split
    · exact ⟨(hs.valid d' hd').id, (hs.valid d' hd').name⟩
    · exact hs.valid d' hd'
  · simpa using hs.room

theorem Sound.revoke (id : Text) : Sound (book.revoke id).1 where
  distinct := hs.distinct.sublist (filter_sublist.map _)
  valid d hd := hs.valid d (mem_filter.mp hd).1
  room := (Nat.add_le_add_right (length_filter_le _ _) _).trans hs.room

theorem Sound.approveAuthenticated {invite name id : Text} {now : ℕ} {secret idSecret : Option Bytes32}
    {book' : PairingBook} (h : book.approveAuthenticated x invite name now secret idSecret = some (book', id)) : Sound book' := by
  unfold PairingBook.approveAuthenticated at h
  split at h
  · cases h
  split at h
  · cases h
  next hnm =>
    cases secret with
    | none => simp at h
    | some secret =>
      cases idSecret with
      | none => simp at h
      | some idSecret =>
        cases hp : book.pending.find? fun p => decide (p.id = invite) with
        | none => simp [hp] at h
        | some pending =>
          simp only [hp, some.injEq, Prod.mk.injEq] at h
          obtain ⟨rfl, rfl⟩ := h
          have hdevs := length_filter_le (fun d : DeviceGrant => decide (d.id ≠ hash x idSecret)) book.devices
          have hpd : (book.pending.filter fun p => decide (p.id ≠ invite)).length < book.pending.length := by
            refine length_filter_lt_length_iff_exists.mpr ⟨pending, mem_of_find?_eq_some hp, ?_⟩
            simpa using find?_some hp
          have hrm := hs.room
          refine ⟨?_, ?_, ?_⟩
          · rw [map_append, nodup_append]
            refine ⟨hs.distinct.sublist (filter_sublist.map _), by simp, ?_⟩
            intro a ha b hb
            obtain ⟨d, hd, rfl⟩ := mem_map.mp ha
            rw [map_singleton, mem_singleton] at hb
            rw [hb]
            simpa using (mem_filter.mp hd).2
          · intro d hd
            rcases mem_append.mp hd with hd | hd
            · exact hs.valid d (mem_filter.mp hd).1
            · rw [mem_singleton.mp hd]
              exact ⟨validId_hash idSecret, by simpa using hnm⟩
          · simp only [length_append, length_singleton]
            omega

end

theorem Sound.enroll {h : HostState} (hs : Sound h.book) (approved : Option Bool) (grant name : Text) (now : ℕ)
    (secret idSecret : Option Bytes32) (persisted : Bool) :
    Sound (h.enroll x approved grant name now secret idSecret persisted).book := by
  cases approved with
  | none => exact hs
  | some allowInput =>
    cases happr : h.book.approveAuthenticated x grant name now secret idSecret with
    | none =>
      simp only [HostState.enroll, happr]
      exact hs
    | some read =>
      have hset := (hs.approveAuthenticated happr).setInputPermission read.2 allowInput
      simp only [HostState.enroll, happr]
      cases persisted with
      | false => exact hset.revoke read.2
      | true => exact hset

/-- One call keeps the book sound. -/
theorem Sound.step {h h' : HostState} {op : Op} (hs : Sound h.book) (hst : op.step x h = some h') : Sound h'.book := by
  cases op with
  | issue accessOk name allowInput now secret idSecret =>
    obtain rfl := some.inj hst
    simp only [HostState.issue]
    split
    · exact hs
    · exact hs.issue now allowInput secret idSecret
  | cancelInvitation id =>
    obtain rfl := some.inj hst
    exact hs.cancelInvitation id
  | enroll approved grant name now secret idSecret persisted =>
    obtain rfl := some.inj hst
    exact hs.enroll approved grant name now secret idSecret persisted
  | setInputPermission order id allowInput persisted =>
    obtain rfl := some.inj hst
    simp only [HostState.setInputPermission, restore_encode hs]
    split
    · exact hs
    split
    · exact hs
    · exact hs.setInputPermission id allowInput
  | revoke order id persisted =>
    obtain rfl := some.inj hst
    simp only [HostState.revoke, restore_encode hs]
    split
    · exact hs
    split
    · exact hs
    · exact hs.revoke id
  | restart order => exact restore_sound hst

/-- A host starts with a new key or with what it reads. -/
def Starts (x : Crates) (h : HostState) : Prop := h.book = {} ∨ ∃ bytes, HostState.restore x bytes = some h

theorem Starts.sound {h : HostState} (hs : Starts x h) : Sound h.book := by
  rcases hs with hs | ⟨bytes, hs⟩
  · rw [hs]
    exact Sound.empty
  · exact restore_sound hs

/-- What is read back has the same devices. -/
theorem device_values (book : PairingBook) (order : Order) (id : Text) :
    ((⟨[], order.values book.devices⟩ : PairingBook).device id).isSome = (book.device id).isSome := by
  rw [Bool.eq_iff_iff]
  simp only [PairingBook.device, find?_isSome, (order.perm book.devices).mem_iff]

theorem setInputPermission_found (book : PairingBook) (id : Text) (allowInput : Bool) :
    (book.setInputPermission id allowInput).2 = (book.device id).isSome := by
  cases hd : book.device id <;> simp [PairingBook.setInputPermission, hd]

/-- **Stored credentials are read back** in every state of a host: neither limit is exceeded, the key and the
devices are the same, and a device can be revoked and its permission changed. -/
theorem credentials_read_back {h₀ h : HostState} {ops : List Op} (hstart : Starts x h₀)
    (hrun : run (fun h op => op.step x h) h₀ ops = some h)
    (order : Order) :
    byteLen (exportDevices x (order.values h.book.devices)) ≤ 32 * 1024 ∧ byteLen (h.encode x order) ≤ 48 * 1024 ∧
    (∃ h', HostState.restore x (h.encode x order) = some h' ∧ h'.privateKey = h.privateKey ∧ h'.publicKey = h.publicKey ∧
      h'.book.devices.Perm h.book.devices) ∧
    ∀ id allowInput, (h.setInputPermission x order id allowInput true).2 = some (h.book.device id).isSome ∧
      (h.revoke x order id true).2 = some (h.book.device id).isSome := by
  have hs : Sound h.book := run_invariant (P := fun h => Sound h.book) _ (fun h op h' hs hst => Sound.step hs hst) hstart.sound hrun
  have hlen : (order.values h.book.devices).length ≤ maxDevices := by
    rw [(order.perm _).length_eq]
    exact hs.devices_le
  have hsz := byteLen_exportDevices_le (x := x) (hs.values_valid order) hlen
  refine ⟨by omega, byteLen_encode_le order hsz, ⟨_, restore_encode hs order, rfl, rfl, order.perm _⟩, fun id allowInput => ?_⟩
  have hdev := device_values h.book order id
  simp only [HostState.setInputPermission, HostState.revoke, restore_encode hs, setInputPermission_found, PairingBook.revoke, hdev]
  cases (h.book.device id).isSome with
  | false => exact ⟨rfl, rfl⟩
  | true => exact ⟨rfl, rfl⟩

/-- 32 equal bytes. -/
def secretOf (b : UInt8) : Bytes32 := ⟨.replicate 32 b, by simp⟩

/-- The hash of 32 fours. -/
def hashOfFours : Bytes32 :=
  ⟨[159, 79, 182, 143, 62, 29, 172, 130, 32, 47, 154, 165, 129, 206, 11, 191, 31, 118, 93, 240, 233, 172, 60, 140, 87,
    226, 15, 104, 90, 186, 184, 237], rfl⟩

/-- The hash of 32 sixes. -/
def hashOfSixes : Bytes32 :=
  ⟨[232, 2, 8, 106, 214, 161, 225, 107, 120, 53, 42, 215, 41, 109, 42, 171, 216, 53, 177, 177, 109, 190, 149, 30, 17,
    53, 185, 124, 104, 226, 157, 129], rfl⟩

/-- Base64 and flat JSON as they are, with the hashes of two secrets. -/
def sampleCrates : Crates where
  encode := Base64.encode
  decode := Base64.decode
  decode_encode := Base64.decode_encode
  length_encode b := by rw [Base64.length_encode, b.property]; rfl
  safe b c hc := Base64.isSafe_of_mem_encode hc
  digest b := if b = secretOf 4 then hashOfFours else if b = secretOf 6 then hashOfSixes else b
  readObject := readObject
  readObject_write := readObject_write
  readObjects := readObjects
  readObjects_write := readObjects_write

/-- The values in the order of the list. -/
def listOrder : Order := ⟨fun devices => devices, fun _ => .refl _⟩

/-- A host with a new key, of which nothing was paired yet. -/
def sampleHost : HostState := ⟨secretOf 1, secretOf 2, {}⟩

/-- A phone whose name is one quote is invited and enrolled. -/
def samplePairing : List Op :=
  [.issue true ['P'] false 100 (some (secretOf 3)) (some (secretOf 4)),
    .enroll (some true) (hash sampleCrates (secretOf 4)) ['\x22'] 101 (some (secretOf 5)) (some (secretOf 6)) true]

/-- The host with the phone. -/
def pairedHost : HostState := ⟨secretOf 1, secretOf 2, ⟨[], [⟨hash sampleCrates (secretOf 6), ['\x22'], true, secretOf 5⟩]⟩⟩

theorem credentials_read_back_phone :
    Starts sampleCrates sampleHost ∧ run (fun h op => op.step sampleCrates h) sampleHost samplePairing = some pairedHost ∧
    byteLen (exportDevices sampleCrates (listOrder.values pairedHost.book.devices)) ≤ 32 * 1024 ∧
    byteLen (pairedHost.encode sampleCrates listOrder) ≤ 48 * 1024 ∧
    (∃ h', HostState.restore sampleCrates (pairedHost.encode sampleCrates listOrder) = some h' ∧
      h'.privateKey = pairedHost.privateKey ∧ h'.publicKey = pairedHost.publicKey ∧
      h'.book.devices.Perm pairedHost.book.devices) ∧
    ∀ id allowInput, (pairedHost.setInputPermission sampleCrates listOrder id allowInput true).2 = some (pairedHost.book.device id).isSome ∧
      (pairedHost.revoke sampleCrates listOrder id true).2 = some (pairedHost.book.device id).isSome :=
  have hrun : run (fun h op => op.step sampleCrates h) sampleHost samplePairing = some pairedHost := by decide
  ⟨.inl rfl, hrun, credentials_read_back (.inl rfl) hrun listOrder⟩

end Pebrel.Link.Credentials
