import Mathlib.Data.List.Dedup
import Pebrel.Commands.SavedCommands
import Pebrel.Library.Transition

/-!
# Transactions of saved commands

`Valid` is what the checks on reading demand of a store. Every operation keeps
it, so that the checks on writing refuse nothing that an operation makes, but a
group whose id was drawn before (`perform_accepts`). A valid store is read back
from the file it is written to (`fromBytes_toJson`). With that, in every run of the
windows in which no write fails after its file was renamed, the file and the
windows are as `Sound` says (`windows_sound`); where a write fails there, it has
changed the file (`unsynced_write`).
-/

namespace Pebrel.Commands

open Library Transition List Option Function Text SavedCommands Call
open Sync (Json)

/-! ### Names, commands and ids -/

section
variable {name command name' command' : Text}

/-- What is checked and trimmed passes the check again, as it is. -/
theorem normalizeFields_again (h : normalizeFields name command = .ok (name', command')) :
    normalizeFields name' command' = .ok (name', command') := by
  have htrim : name' = trim name ∧ command' = trim command := by
    simp only [normalizeFields] at h
    split_ifs at h
    cases h
    exact ⟨rfl, rfl⟩
  obtain ⟨rfl, rfl⟩ := htrim
  simp only [normalizeFields, trim_trim] at h ⊢
  exact h

/-- The name of a group passes the check again. -/
theorem normalizeFields_group (h : normalizeFields name "group".toList = .ok (name', command')) :
    normalizeFields name' "group".toList = .ok (name', "group".toList) := by
  have hc : command' = "group".toList := by
    simp only [normalizeFields] at h
    split_ifs at h
    cases h
    rfl
  rw [hc] at h
  exact normalizeFields_again h

end

variable {commands : List SavedCommand} {seen : List Text} {α : Type} {next : SavedCommands} {operation : Operation} {reply : Reply}

theorem length_newId (digest : Digest) : (newId digest).length = 24 := by
  have hbs : (digest.toList.take 10).length = 10 := by simp
  have hh : ∀ bytes : List UInt8, (bytes.flatMap hexByte).length = 2 * bytes.length := by
    intro bytes
    induction bytes with
    | nil => rfl
    | cons byte bytes ih => simp [flatMap_cons, ih, hexByte]; omega
  simp only [newId, length_append, hh, hbs]
  rfl

theorem utf8Size_digitChar {n : ℕ} (h : n < 16) : (Nat.digitChar n).utf8Size = 1 := by
  revert n
  decide

theorem byteLen_newId (digest : Digest) : byteLen (newId digest) = 24 := by
  have hbs : (digest.toList.take 10).length = 10 := by simp
  have hh : ∀ bytes : List UInt8, byteLen (bytes.flatMap hexByte) = 2 * bytes.length := by
    intro bytes
    induction bytes with
    | nil => rfl
    | cons byte bytes ih =>
      have hlt : byte.toNat < 256 := byte.toNat_lt
      have hhigh : (Nat.digitChar (byte.toNat / 16)).utf8Size = 1 := utf8Size_digitChar (by omega)
      have hl : (Nat.digitChar (byte.toNat % 16)).utf8Size = 1 := utf8Size_digitChar (by omega)
      simp only [byteLen, flatMap_cons, hexByte, map_append, sum_append] at ih ⊢
      simp only [map_cons, map_nil, sum_cons, sum_nil, hhigh, hl, ih, length_cons]
      omega
  simp only [byteLen, newId, map_append, sum_append] at hh ⊢
  rw [hh, hbs]
  rfl

theorem trim_newId (digest : Digest) : Text.trim (newId digest) ≠ [] := by
  have hc : 'c' ∈ trim (newId digest) := mem_trim_of_mem (by simp [newId]) (by decide)
  exact ne_nil_of_mem hc

theorem newId_ne_builtin (digest : Digest) : newId digest ≠ builtinGroupId := by
  intro h
  have hl := congrArg length h
  rw [length_newId] at hl
  exact absurd hl (by decide)

theorem freshId_eq_some {digests : List Digest} {id : Text} (h : freshId commands digests = some id) :
    (∃ digest, id = newId digest) ∧ id ∉ commands.map SavedCommand.id := by
  induction digests with
  | nil => cases h
  | cons digest digests ih =>
    simp only [freshId] at h
    split at h
    · exact ih h
    · rename_i hfr
      cases h
      exact ⟨⟨digest, rfl⟩, by simpa using hfr⟩

/-! ### Valid stores -/

structure SavedCommand.Valid (saved : SavedCommand) : Prop where
  id : Text.trim saved.id ≠ []
  short : saved.id.length ≤ maxIdChars
  fields : ∃ fields, normalizeFields saved.name saved.command = .ok fields

structure CommandGroup.Valid (group : CommandGroup) : Prop where
  id : group.id ≠ []
  short : byteLen group.id ≤ maxIdChars
  custom : group.id ≠ builtinGroupId
  fields : ∃ fields, normalizeFields group.name "group".toList = .ok fields

/-- What is checked on reading. -/
structure SavedCommands.Valid (store : SavedCommands) : Prop where
  commandCount : store.commands.length ≤ maxCommands
  commands : ∀ saved ∈ store.commands, saved.Valid
  commandIds : (store.commands.map SavedCommand.id).Nodup
  groupCount : store.organization.groups.length ≤ maxGroups
  groups : ∀ group ∈ store.organization.groups, group.Valid
  groupIds : (store.organization.groups.map CommandGroup.id).Nodup
  members : ∀ e ∈ store.organization.membership.entries, store.hasCommand e.1 = true ∧ store.hasGroup e.2 = true
  deleted : ∀ e ∈ store.deletedBuiltins.entries, isBuiltinId e.1 = true

theorem validateIds_eq_ok : validateIds seen commands = .ok () ↔
      (∀ saved ∈ commands, saved.Valid ∧ saved.id ∉ seen) ∧ (commands.map SavedCommand.id).Nodup := by
  induction commands generalizing seen with
  | nil => simp [validateIds]
  | cons saved rest ih =>
    rw [Assoc.distinct_cons_iff, ← ih]
    simp only [validateIds]
    split
    · rename_i hb
      refine ⟨nofun, ?_⟩
      rintro ⟨⟨hv, hseen⟩, -⟩
      rcases hb with hid | hlg | hm
      · exact absurd hid hv.id
      · exact absurd hv.short (Nat.not_le_of_lt hlg)
      · exact absurd hm hseen
    · rename_i hgood
      rw [not_or, not_or, Nat.not_lt] at hgood
      split
      · rename_i e he
        refine ⟨nofun, ?_⟩
        rintro ⟨⟨⟨-, -, fields, hfs⟩, -⟩, -⟩
        rw [he] at hfs
        cases hfs
      · rename_i fields hfs
        exact ⟨fun h => ⟨⟨⟨hgood.1, hgood.2.1, fields, hfs⟩, hgood.2.2⟩, h⟩, And.right⟩

theorem groupsValid_iff {groups : List CommandGroup} : groupsValid seen groups = true ↔
      (∀ group ∈ groups, group.Valid ∧ group.id ∉ seen) ∧ (groups.map CommandGroup.id).Nodup := by
  induction groups generalizing seen with
  | nil => simp [groupsValid]
  | cons group rest ih =>
    rw [Assoc.distinct_cons_iff, ← ih]
    simp only [groupsValid]
    split
    · rename_i hb
      refine ⟨nofun, ?_⟩
      rintro ⟨⟨hv, hseen⟩, -⟩
      rcases hb with hid | hlg | hbui | hm
      · exact absurd hid hv.id
      · exact absurd hv.short (Nat.not_le_of_lt hlg)
      · exact absurd hbui hv.custom
      · exact absurd hm hseen
    · rename_i hgood
      rw [not_or, not_or, not_or, Nat.not_lt] at hgood
      split
      · rename_i e he
        refine ⟨nofun, ?_⟩
        rintro ⟨⟨⟨-, -, -, fields, hfs⟩, -⟩, -⟩
        rw [he] at hfs
        cases hfs
      · rename_i fields hfs
        exact ⟨fun h => ⟨⟨⟨hgood.1, hgood.2.1, hgood.2.2.1, fields, hfs⟩, hgood.2.2.2⟩, h⟩, And.right⟩

theorem validateStore_eq_ok : validateStore commands = .ok () ↔
      commands.length ≤ maxCommands ∧ (∀ saved ∈ commands, saved.Valid) ∧ (commands.map SavedCommand.id).Nodup := by
  simp only [validateStore]
  split
  · rename_i hlg
    exact ⟨nofun, fun h => absurd h.1 (Nat.not_le_of_lt hlg)⟩
  · rename_i hsh
    simp [validateIds_eq_ok, Nat.not_lt.mp hsh]

theorem validateGroups_eq_ok {store : SavedCommands} : store.validateGroups = .ok () ↔ store.organization.groups.length ≤ maxGroups ∧
      ((∀ group ∈ store.organization.groups, group.Valid) ∧ (store.organization.groups.map CommandGroup.id).Nodup) ∧
      ∀ e ∈ store.organization.membership.entries, store.hasCommand e.1 = true ∧ store.hasGroup e.2 = true := by
  have hg : groupsValid [] store.organization.groups = true ↔
      (∀ group ∈ store.organization.groups, group.Valid) ∧ (store.organization.groups.map CommandGroup.id).Nodup := by
    simp [groupsValid_iff]
  have hmemb : (store.organization.membership.entries.any fun e => !store.hasCommand e.1 || !store.hasGroup e.2) = false ↔
      ∀ e ∈ store.organization.membership.entries, store.hasCommand e.1 = true ∧ store.hasGroup e.2 = true := by
    simp
  simp only [validateGroups]
  split
  · rename_i hlg
    exact ⟨nofun, fun h => absurd h.1 (Nat.not_le_of_lt hlg)⟩
  rename_i hsh
  split
  · rename_i hb
    exact ⟨nofun, fun h => absurd (hg.mpr h.2.1) (by simpa using hb)⟩
  rename_i hgood
  split
  · rename_i hb
    exact ⟨nofun, fun h => absurd hb (Bool.not_eq_true _ ▸ hmemb.mpr h.2.2)⟩
  · rename_i hm
    exact ⟨fun _ => ⟨Nat.not_lt.mp hsh, hg.mp (by simpa using hgood), hmemb.mp (Bool.not_eq_true _ ▸ hm)⟩, fun _ => rfl⟩

/-- The checks on writing, with what they leave out, are those on reading. -/
theorem valid_iff {store : SavedCommands} : store.Valid ↔ validateStore store.commands = .ok () ∧ store.validateGroups = .ok () ∧
      ∀ e ∈ store.deletedBuiltins.entries, isBuiltinId e.1 = true := by
  rw [validateStore_eq_ok, validateGroups_eq_ok]
  constructor
  · rintro ⟨h1, h2, h3, h4, h5, h6, h7, h8⟩
    exact ⟨⟨h1, h2, h3⟩, ⟨h4, ⟨h5, h6⟩, h7⟩, h8⟩
  · rintro ⟨⟨h1, h2, h3⟩, ⟨h4, ⟨h5, h6⟩, h7⟩, h8⟩
    exact ⟨h1, h2, h3, h4, h5, h6, h7, h8⟩

/-! ### Reading what was written -/

theorem mapM_eq_some {β : Type} {f : α → β} {item : β → Option α} (h : ∀ x, item (f x) = some x) (xs : List α) :
    (xs.map f).mapM item = some xs := by
  induction xs with
  | nil => rfl
  | cons x xs ih => simp [h, ih]

theorem listFromJson_array {f : α → Json} {item : Json → Option α} (h : ∀ x, item (f x) = some x) (xs : List α) :
    listFromJson item (some (.array (xs.map f))) = some xs :=
  mapM_eq_some h xs

theorem listFromJson_none (item : Json → Option α) : listFromJson item none = some [] := rfl

theorem SavedCommand.fromJson_toJson (saved : SavedCommand) : fromJson saved.toJson = some saved := rfl

theorem CommandGroup.fromJson_toJson (group : CommandGroup) : fromJson group.toJson = some group := rfl

theorem membershipFromJson_object (membership : Assoc.Map Text (Option Text)) :
    membershipFromJson (some (.object (membership.entries.map fun e => (e.1, textToJson e.2)))) = some membership := by
  have he : ∀ e : Text × Option Text, (textFromJson (textToJson e.2)).map (fun group => (e.1, group)) = some e := by
    rintro ⟨id, group⟩
    cases group <;> rfl
  simp only [membershipFromJson]
  rw [mapM_eq_some he, map_some, Assoc.Map.ofEntries_entries]

theorem Organization.fromJson_toJson (organization : Organization) : fromJson (some organization.toJson) = some organization := by
  have hfs : structFields fieldNames organization.toJson = some [some (.array (organization.groups.map CommandGroup.toJson)),
        some (.object (organization.membership.entries.map fun e => (e.1, textToJson e.2)))] := rfl
  simp only [fromJson, hfs, listFromJson_array CommandGroup.fromJson_toJson, membershipFromJson_object]
  rfl

/-- **What is written of a store is read back as the store.** -/
theorem CommandStore.fromJson_toJson (store : CommandStore) (hv : store.version < 2 ^ 32) : fromJson store.toJson = some store := by
  have hd : ∀ deleted : Assoc.Map Text Unit,
      .ofEntries (deleted.entries.map fun e => (e.1, ())) = deleted := fun deleted => by simp
  have hnat : (0 : ℤ) ≤ store.version ∧ (store.version : ℤ) < 2 ^ 32 := by omega
  by_cases hn : store.deletedBuiltins.entries = []
  · have hfs : structFields fieldNames store.toJson =
        some [some (.int store.version), some (.array (store.commands.map SavedCommand.toJson)), some store.organization.toJson, none] := by
      simp only [toJson, hn, if_true]
      rfl
    have he : .ofEntries ([] : List (Text × Unit)) = store.deletedBuiltins := by
      rw [← hn, Assoc.Map.ofEntries_entries]
    simp only [fromJson, hfs, if_pos hnat, listFromJson_array SavedCommand.fromJson_toJson, Organization.fromJson_toJson, listFromJson_none]
    simp [he]
  · have hfs : structFields fieldNames store.toJson =
        some [some (.int store.version), some (.array (store.commands.map SavedCommand.toJson)),
          some store.organization.toJson, some (.array (store.deletedBuiltins.entries.map fun e => .string e.1))] := by
      simp only [toJson, hn, if_false]
      rfl
    have hi : listFromJson Json.asStr (some (.array (store.deletedBuiltins.entries.map fun e => .string e.1))) =
        some (store.deletedBuiltins.entries.map Prod.fst) := by
      have hrd : ∀ id, Json.asStr (Json.string id) = some id := fun _ => rfl
      have h := listFromJson_array hrd (store.deletedBuiltins.entries.map Prod.fst)
      rwa [List.map_map] at h
    simp only [fromJson, hfs, if_pos hnat, listFromJson_array SavedCommand.fromJson_toJson, Organization.fromJson_toJson, hi]
    simp [comp_def]

section
variable {Bytes : Type} [JsonText Bytes] {store : SavedCommands}

/-- A valid store is read back from the text that it is written to. -/
theorem fromBytes_toJson [LawfulJsonText Bytes] (h : store.Valid) : fromBytes (JsonText.toVecPretty
      (CommandStore.toJson ⟨storeVersion, store.commands, store.organization, store.deletedBuiltins⟩) : Bytes) = .ok store := by
  obtain ⟨hst, hg, hd⟩ := valid_iff.mp h
  have ha : (store.deletedBuiltins.entries.any fun e => !isBuiltinId e.1) = false := by simpa using hd
  simp only [fromBytes, LawfulJsonText.fromSlice_toVecPretty, bind_some]
  rw [CommandStore.fromJson_toJson _ (by decide : storeVersion < 2 ^ 32)]
  simp only [ne_eq, not_true_eq_false, if_false, hst, ha, Bool.false_eq_true, hg]

/-- What is read is valid. -/
theorem valid_of_fromBytes {bytes : Bytes} (h : fromBytes bytes = .ok store) : store.Valid := by
  simp only [fromBytes] at h
  split at h
  · cases h
  split at h
  · cases h
  · split at h
    · cases h
    · rename_i hst
      split at h
      · cases h
      rename_i ha
      split at h
      · cases h
      · rename_i hg
        cases h
        exact valid_iff.mpr ⟨hst, hg, by simpa using ha⟩

theorem valid_default : SavedCommands.default.Valid where
  commandCount := Nat.zero_le _
  commands := nofun
  commandIds := nodup_nil
  groupCount := Nat.zero_le _
  groups := nofun
  groupIds := nodup_nil
  members := nofun
  deleted := nofun

theorem valid_of_loadFrom {readFails : Bool} {file : Option Bytes} (h : loadFrom readFails file = .ok store) :
    store.Valid ∧ loadFrom false file = .ok store := by
  simp only [loadFrom] at h ⊢
  split at h
  · cases h
  refine ⟨?_, h⟩
  split at h
  · cases h
    exact valid_default
  · exact valid_of_fromBytes h

end

/-! ### What the operations keep -/

namespace SavedCommands

variable {store store' : SavedCommands}

theorem hasCommand_iff {id : Text} : store.hasCommand id = true ↔
      isBuiltinId id = true ∧ store.deletedBuiltins.containsKey id = false ∨ id ∈ store.commands.map SavedCommand.id := by
  simp [hasCommand]

theorem hasGroup_iff {group : Option Text} : store.hasGroup group = true ↔
      ∀ id, group = some id → id = builtinGroupId ∨ id ∈ store.organization.groups.map CommandGroup.id := by
  cases group <;> simp [hasGroup]

namespace Valid

variable {group : Option Text} {name command : Text} {appendEnter : Bool}

theorem assignGroup (h : store.Valid) {commandId : Text} (hok : store.assignGroup commandId group = .ok store') : store'.Valid := by
  simp only [SavedCommands.assignGroup] at hok
  split at hok
  · cases hok
  rename_i hc
  cases hok
  refine { h with members := fun e he => ?_ }
  rcases Assoc.Map.mem_entries_insert.mp he with rfl | ⟨he, -⟩
  · have hboth : store.hasCommand commandId = true ∧ store.hasGroup group = true := by simpa using hc
    exact hboth
  · exact h.members e he

theorem deleteGroup (h : store.Valid) {groupId : Text} (hok : store.deleteGroup groupId = .ok store') : store'.Valid := by
  simp only [SavedCommands.deleteGroup] at hok
  split at hok
  · cases hok
  rename_i index hix
  cases hok
  have hs := eraseIdx_sublist store.organization.groups index
  obtain ⟨hlt, hg, -⟩ := findIdx?_eq_some_iff_getElem.mp hix
  refine
    { h with
      groupCount := hs.length_le.trans h.groupCount
      groups := fun group hgr => h.groups group (hs.subset hgr)
      groupIds := (hs.map CommandGroup.id).nodup h.groupIds
      members := fun e he => ?_ }
  obtain ⟨old, hold, heq⟩ := Assoc.Map.mem_entries_mapValues.mp he
  obtain ⟨hc, hgr⟩ := h.members _ hold
  refine ⟨hc, hasGroup_iff.mpr fun id hid => ?_⟩
  split at heq
  · rw [← heq] at hid
    cases hid
  rename_i ho
  rw [← heq] at hid
  rcases hasGroup_iff.mp hgr id hid with hb | hm
  · exact .inl hb
  obtain ⟨group, hgrs, rfl⟩ := List.mem_map.mp hm
  obtain ⟨i, hi, rfl⟩ := getElem_of_mem hgrs
  refine .inr (List.mem_map.mpr ⟨_, mem_eraseIdx_iff_getElem?.mpr ⟨i, ?_, getElem?_eq_getElem hi⟩, rfl⟩)
  rintro rfl
  exact ho (hid.trans (congrArg some (of_decide_eq_true hg)))

theorem addGroup (h : store.Valid) {digest : Digest} (hok : store.addGroup name digest = .ok store')
    (hn : newId digest ∉ store.organization.groups.map CommandGroup.id) : store'.Valid := by
  simp only [SavedCommands.addGroup] at hok
  split at hok
  · cases hok
  rename_i trimmed _ hfs
  split at hok
  · cases hok
  rename_i hl
  cases hok
  rw [not_or, Nat.not_le] at hl
  refine
    { h with
      groupCount := ?_
      groups := fun group hgr => ?_
      groupIds := ?_
      members := fun e he => ?_ }
  · simpa using Nat.succ_le_of_lt hl.1
  · rcases mem_append.mp hgr with hgr | hgr
    · exact h.groups group hgr
    · rw [mem_singleton.mp hgr]
      exact
        { id := fun hnil => trim_newId digest (congrArg trim hnil)
          short := by simp only [byteLen_newId]; decide
          custom := newId_ne_builtin digest
          fields := ⟨_, normalizeFields_group hfs⟩ }
  · rw [map_append, map_singleton]
    exact .append h.groupIds (nodup_cons.mpr ⟨not_mem_nil, nodup_nil⟩) (disjoint_singleton.mpr hn)
  · obtain ⟨hc, hgr⟩ := h.members e he
    refine ⟨hc, hasGroup_iff.mpr fun id hid => ?_⟩
    refine (hasGroup_iff.mp hgr id hid).imp_right fun hm => ?_
    rw [map_append]
    exact mem_append_left _ hm

theorem mem_foldl_insert {ids : List Text} {deleted : Assoc.Map Text Unit} {e : Text × Unit} :
    e ∈ (ids.foldl (fun deleted id => deleted.insert id ()) deleted).entries ↔ e ∈ deleted.entries ∨ e.1 ∈ ids := by
  induction ids generalizing deleted with
  | nil => simp
  | cons id ids ih =>
    rw [foldl_cons, ih, Assoc.Map.mem_entries_insert, mem_cons]
    constructor
    · rintro ((rfl | ⟨he, -⟩) | he)
      · exact .inr (.inl rfl)
      · exact .inl he
      · exact .inr (.inr he)
    · by_cases hid : e.1 = id
      · exact fun _ => .inl (.inl (Prod.ext hid rfl))
      · rintro (he | heq | he)
        · exact .inl (.inr ⟨he, hid⟩)
        · exact absurd heq hid
        · exact .inr he

theorem removeIds (h : store.Valid) (ids : List Text) : (store.removeIds ids).1.Valid := by
  have hs : (store.removeIds ids).1.commands.Sublist store.commands := filter_sublist
  refine
    { h with
      commandCount := hs.length_le.trans h.commandCount
      commands := fun saved hsv => h.commands saved (hs.subset hsv)
      commandIds := (hs.map SavedCommand.id).nodup h.commandIds
      members := fun e he => ?_
      deleted := fun e he => ?_ }
  · obtain ⟨he, hk⟩ := Assoc.Map.mem_entries_filterKeys.mp he
    have hk := of_decide_eq_true hk
    obtain ⟨hc, hgr⟩ := h.members e he
    refine ⟨hasCommand_iff.mpr ?_, hgr⟩
    refine (hasCommand_iff.mp hc).imp ?_ ?_
    · rintro ⟨hb, hu⟩
      refine ⟨hb, Bool.eq_false_iff.mpr fun hd => ?_⟩
      obtain ⟨v, hv⟩ := Assoc.Map.containsKey_iff.mp hd
      rcases mem_foldl_insert.mp hv with hv | hv
      · exact Bool.eq_false_iff.mp hu (Assoc.Map.containsKey_iff.mpr ⟨v, hv⟩)
      · exact hk (mem_dedup.mp (mem_filter.mp hv).1)
    · intro hm
      obtain ⟨saved, hsv, hid⟩ := List.mem_map.mp hm
      exact List.mem_map.mpr ⟨saved, mem_filter.mpr ⟨hsv, decide_eq_true (hid ▸ hk)⟩, hid⟩
  · rcases mem_foldl_insert.mp he with he | he
    · exact h.deleted e he
    · have hn := (mem_filter.mp he).2
      rw [Bool.and_eq_true] at hn
      exact hn.1

theorem restoreBuiltinCommands (h : store.Valid) : store.restoreBuiltinCommands.1.Valid := by
  refine { h with members := fun e he => ?_, deleted := nofun }
  obtain ⟨hc, hgr⟩ := h.members e he
  exact ⟨hasCommand_iff.mpr ((hasCommand_iff.mp hc).imp_left fun hb => ⟨hb.1, rfl⟩), hgr⟩

theorem update (h : store.Valid) {id : Text} (hok : store.update id name command appendEnter = .ok store') : store'.Valid := by
  simp only [SavedCommands.update] at hok
  split at hok
  · cases hok
  rename_i name' command' hfs
  split at hok
  · cases hok
  rename_i index hix
  cases hok
  have hids : (store.commands.modify index fun saved =>
      { saved with name := name', command := command', appendEnter }).map SavedCommand.id = store.commands.map SavedCommand.id := by
    refine ext_getElem? fun i => ?_
    rw [getElem?_map, getElem?_map, getElem?_modify, Option.map_eq_map, Option.map_map]
    congr 1
    funext saved
    simp only [comp_apply]
    split <;> rfl
  refine
    { h with
      commandCount := by simpa using h.commandCount
      commands := fun saved hsv => ?_
      commandIds := hids ▸ h.commandIds
      members := fun e he => ?_ }
  · obtain ⟨i, hi⟩ := mem_iff_getElem?.mp hsv
    rw [getElem?_modify] at hi
    obtain ⟨old, hold, heq⟩ := map_eq_some_iff.mp hi
    have hv := h.commands old (mem_iff_getElem?.mpr ⟨i, hold⟩)
    split at heq
    · rw [← heq]
      exact { hv with fields := ⟨_, normalizeFields_again hfs⟩ }
    · rw [← heq]
      exact hv
  · obtain ⟨hc, hgr⟩ := h.members e he
    refine ⟨hasCommand_iff.mpr ((hasCommand_iff.mp hc).imp_right fun hm => ?_), hgr⟩
    rw [hids]
    exact hm

theorem insertInGroup (h : store.Valid) {digests : List Digest} {saved : SavedCommand}
    (hok : store.insertInGroup name command appendEnter group digests = some (.ok (store', saved))) : store'.Valid := by
  simp only [SavedCommands.insertInGroup] at hok
  split at hok
  · cases hok
  rename_i hl
  split at hok
  · cases hok
  rename_i name' command' hfs
  split at hok
  · cases hok
  rename_i id hid
  obtain ⟨⟨digest, rfl⟩, hn⟩ := freshId_eq_some hid
  have ha : SavedCommands.Valid
      { store with commands := store.commands ++ [⟨newId digest, name', command', appendEnter⟩] } := by
    refine
      { h with
        commandCount := by simpa using Nat.succ_le_of_lt (Nat.not_le.mp hl)
        commands := fun saved hsv => ?_
        commandIds := ?_
        members := fun e he => ?_ }
    · rcases mem_append.mp hsv with hsv | hsv
      · exact h.commands saved hsv
      · rw [mem_singleton.mp hsv]
        exact ⟨trim_newId digest, by simp only [length_newId]; decide, _, normalizeFields_again hfs⟩
    · rw [map_append, map_singleton]
      exact List.Nodup.append h.commandIds (nodup_cons.mpr ⟨not_mem_nil, nodup_nil⟩) (disjoint_singleton.mpr hn)
    · obtain ⟨hc, hgr⟩ := h.members e he
      refine ⟨hasCommand_iff.mpr ((hasCommand_iff.mp hc).imp_right fun hm => ?_), hgr⟩
      rw [map_append]
      exact mem_append_left _ hm
  split at hok
  · split at hok
    · cases hok
    · rename_i hass
      cases hok
      exact ha.assignGroup hass
  · cases hok
    exact ha

end Valid

end SavedCommands

/-- **Every operation keeps a store valid**, unless a new group gets an id that a group has. -/
theorem Operation.mutate_valid {store : SavedCommands} (h : store.Valid) (hok : operation.mutate store = some (.ok (next, reply)))
    (hn : ∀ name digest, operation = .createGroup name digest →
      newId digest ∉ store.organization.groups.map CommandGroup.id) : next.Valid := by
  have hpl : ∀ {r : Except Error SavedCommands}, some (r.map (·, Reply.done)) = some (.ok (next, reply)) → r = .ok next := by
    intro r hr
    cases r with
    | error e => cases hr
    | ok store => cases hr; rfl
  cases operation with
  | insertInGroup name command appendEnter group digests =>
    obtain ⟨r, hr, hm⟩ := map_eq_some_iff.mp hok
    cases r with
    | error e => cases hm
    | ok p =>
      cases hm
      exact h.insertInGroup hr
  | update id name command appendEnter => exact h.update (hpl hok)
  | remove id =>
    have hrm := hpl hok
    simp only [SavedCommands.remove] at hrm
    split at hrm
    · cases hrm
    · cases hrm
      exact h.removeIds [id]
  | removeMany ids =>
    cases hok
    exact h.removeIds ids
  | clearCommands =>
    cases hok
    exact h.removeIds _
  | clearBuiltinCommands =>
    cases hok
    exact h.removeIds _
  | restoreBuiltinCommands =>
    cases hok
    exact h.restoreBuiltinCommands
  | createGroup name digest => exact h.addGroup (hpl hok) (hn name digest rfl)
  | moveToGroup commandId group => exact h.assignGroup (hpl hok)
  | removeGroup groupId => exact h.deleteGroup (hpl hok)

/-- The deleted builtins, which are not checked on writing, stay builtins. -/
theorem Operation.mutate_deleted {store : SavedCommands} (h : store.Valid)
    (hok : operation.mutate store = some (.ok (next, reply))) : ∀ e ∈ next.deletedBuiltins.entries, isBuiltinId e.1 = true := by
  cases operation with
  | createGroup name digest =>
    simp only [mutate, SavedCommands.addGroup] at hok
    split at hok
    · cases hok
    split at hok
    · cases hok
    · cases hok
      exact h.deleted
  | _ => exact (mutate_valid h hok nofun).deleted

/-! ### Transactions -/

section
variable {Bytes : Type} [JsonText Bytes]

/-- What a transaction can lead to. -/
inductive Transacted {T : Type} (storage : Storage) (file : Option Bytes)
    (mutate : SavedCommands → Option (Except Error (SavedCommands × T))) :
    Option Bytes → Except Error (SavedCommands × T) → Prop where
  | refused (e : Error) : Transacted storage file mutate file (.error e)
  | unsynced (contents : Bytes) (e : Error) : storage.write = some .syncDirectory →
      Transacted storage file mutate (some contents) (.error e)
  | written {store next : SavedCommands} {result : T} : loadFrom storage.readFails file = .ok store →
      mutate store = some (.ok (next, result)) → validateStore next.commands = .ok () → next.validateGroups = .ok () →
      Transacted storage file mutate
        (some (JsonText.toVecPretty
          (CommandStore.toJson ⟨storeVersion, next.commands, next.organization, next.deletedBuiltins⟩)))
        (.ok (next, result))

variable {s : Windows Bytes} {call : Call}

theorem transacted {T : Type} {storage : Storage} {file file' : Option Bytes}
    {mutate : SavedCommands → Option (Except Error (SavedCommands × T))} {r : Except Error (SavedCommands × T)}
    (h : mutateStore storage file mutate = some (file', r)) : Transacted storage file mutate file' r := by
  simp only [mutateStore] at h
  split at h
  · cases h
    exact .refused _
  · cases h
    exact .refused _
  · split at h
    · cases h
      exact .refused _
    · rename_i store hload
      split at h
      · cases h
      · cases h
        exact .refused _
      · rename_i next result hm
        split at h
        · cases h
          exact .refused _
        · cases h
          exact .refused _
        · rename_i hst hg
          split at h
          · rename_i hwr
            cases h
            simp only [atomicWrite] at hwr
            split at hwr
            · cases hwr
            · rename_i hf
              cases hwr
              exact .unsynced _ _ hf
            · cases hwr
              exact .refused _
          · rename_i hwr
            cases h
            simp only [atomicWrite] at hwr
            split at hwr
            · cases hwr
              exact .written hload hm hst hg
            · cases hwr
            · cases hwr

/-! ### Runs of the windows -/

/-- What holds of the file and the windows, and of the next call. -/
structure Sound (s : Windows Bytes) : Prop where
  /-- The file parses back to what it was written from. -/
  parses : ∀ store, s.produced = some store → loadFrom false s.file = .ok store
  /-- Ids of commands are unique. -/
  ids : ∀ store, loadFrom false s.file = .ok store → (store.commands.map SavedCommand.id).Nodup
  /-- A command with an entry is a builtin that is not deleted, or a command of the store. -/
  commands : ∀ store, loadFrom false s.file = .ok store → ∀ e ∈ store.organization.membership.entries,
    isBuiltinId e.1 = true ∧ store.deletedBuiltins.containsKey e.1 = false ∨ e.1 ∈ store.commands.map SavedCommand.id
  /-- The group of an entry is the group of the builtins, or a group of the store. -/
  groups : ∀ store, loadFrom false s.file = .ok store → ∀ e ∈ store.organization.membership.entries,
    ∀ group, e.2 = some group → group = builtinGroupId ∨ group ∈ store.organization.groups.map CommandGroup.id
  /-- A call that succeeds changes what is in the file then, and its window has what is in the file
  afterwards. -/
  succeeds : ∀ call s' reply, call.storage.write ≠ some .syncDirectory → perform s call = some (s', .ok reply) →
    ∃ store next, loadFrom false s.file = .ok store ∧
      call.operation.mutate store = some (.ok (next, reply)) ∧ loadFrom false s'.file = .ok next ∧
      s'.memory = Function.update s.memory call.window next
  /-- A call that fails changes nothing. -/
  fails : ∀ call s' e, call.storage.write ≠ some .syncDirectory → perform s call = some (s', .error e) →
    s'.file = s.file ∧ s'.memory = s.memory

/-- What a call leads to: either it fails, or its operation is applied to what the file has. -/
theorem perform_cases [LawfulJsonText Bytes] {s' : Windows Bytes} {r : Except Error Reply}
    (hsync : call.storage.write ≠ some .syncDirectory) (h : call.perform s = some (s', r)) :
    (∃ e, r = .error e ∧ s' = s) ∨ ∃ store next reply, r = .ok reply ∧ loadFrom false s.file = .ok store ∧
        call.operation.mutate store = some (.ok (next, reply)) ∧ loadFrom false s'.file = .ok next ∧
        s'.memory = Function.update s.memory call.window next ∧ s'.produced = some next := by
  simp only [perform] at h
  split at h
  · cases h
  · rename_i file e hm
    cases h
    cases transacted hm with
    | refused => exact .inl ⟨e, rfl, rfl⟩
    | unsynced contents e hf => exact absurd hf hsync
  · rename_i file next reply hm
    cases h
    cases transacted hm with
    | written hload hnx hst hg =>
      obtain ⟨hv, hload⟩ := valid_of_loadFrom hload
      have hn : next.Valid := valid_iff.mpr ⟨hst, hg, Operation.mutate_deleted hv hnx⟩
      exact .inr ⟨_, next, reply, rfl, hload, hnx, fromBytes_toJson hn, rfl, rfl⟩

theorem sound_of_parses [LawfulJsonText Bytes]
    (h : ∀ store, s.produced = some store → loadFrom false s.file = .ok store) : Sound s where
  parses := h
  ids store hload := (valid_of_loadFrom hload).1.commandIds
  commands store hload e he := SavedCommands.hasCommand_iff.mp ((valid_of_loadFrom hload).1.members e he).1
  groups store hload e he := SavedCommands.hasGroup_iff.mp ((valid_of_loadFrom hload).1.members e he).2
  succeeds call s' reply hsync hp := by
    rcases perform_cases hsync hp with ⟨e, he, -⟩ | ⟨store, next, reply', hr, hload, hm, hf, hmem, -⟩
    · cases he
    · cases hr
      exact ⟨store, next, hload, hm, hf, hmem⟩
  fails call s' e hsync hp := by
    rcases perform_cases hsync hp with ⟨e, -, rfl⟩ | ⟨_, _, _, hr, -⟩
    · exact ⟨rfl, rfl⟩
    · cases hr

/-- **Saved commands**: whatever is in the file and in the windows at first, in every run of the
windows in which no write fails between the renaming of its file and the end of the sync of the
directory, the file and the windows are as `Sound` says. -/
theorem windows_sound [LawfulJsonText Bytes] {s : Windows Bytes} {calls : List Call} (hstart : s.produced = none)
    (hsync : Meets step (fun _ call => call.storage.write ≠ some .syncDirectory) s calls) :
    Along step Sound s calls := by
  refine along_of_meets step (fun _ => sound_of_parses) (fun s call s' hs hcall hstep => ?_) ?_ hsync
  · obtain ⟨⟨s'', r⟩, hper, rfl⟩ := map_eq_some_iff.mp hstep
    rcases perform_cases hcall hper with ⟨-, -, rfl⟩ | ⟨store, next, reply, -, -, -, hf, -, hpro⟩
    · exact hs
    intro made hmade
    rw [hpro] at hmade
    cases hmade
    exact hf
  · intro store hst
    rw [hstart] at hst
    cases hst

/-- **The checks on writing refuse nothing that an operation makes of a valid store**: where the file
is read and written, an operation that can be carried out is, unless a new group gets an id that a
group has. -/
theorem perform_accepts {store next : SavedCommands} {reply : Reply}
    (hlock : call.storage.lock = .acquired) (hload : loadFrom call.storage.readFails s.file = .ok store)
    (hwr : call.storage.write = none) (hm : call.operation.mutate store = some (.ok (next, reply)))
    (hn : ∀ name digest, call.operation = .createGroup name digest → newId digest ∉ store.organization.groups.map CommandGroup.id) :
    ∃ s', call.perform s = some (s', .ok reply) ∧ s'.produced = some next := by
  have hv := Operation.mutate_valid (valid_of_loadFrom hload).1 hm hn
  obtain ⟨hst, hg, -⟩ := valid_iff.mp hv
  simp only [perform, mutateStore, hlock, hload, hm, hst, hg, atomicWrite, hwr]
  exact ⟨_, rfl, rfl⟩

end

/-! ### Two windows -/

/-- The text of a JSON value, taken as the value. -/
instance JsonText.values : JsonText Json := ⟨id, some⟩

instance JsonText.lawful_values : LawfulJsonText Json := ⟨fun _ => rfl⟩

/-- A digest. -/
def digestOf (n : UInt8) : Digest := .replicate 32 n

/-- No file, and nothing in the windows. -/
def noFile : Windows Json := ⟨none, fun _ => .default, none⟩

/-- One window makes a group, and another one puts a command into it and deletes a builtin. -/
def twoWindows : List Call :=
  [⟨0, ⟨.acquired, false, none⟩, .createGroup "Work".toList (digestOf 7)⟩,
    ⟨1, ⟨.acquired, false, none⟩,
      .insertInGroup "Build".toList " cargo build ".toList true (some (newId (digestOf 7))) [digestOf 8]⟩,
    ⟨1, ⟨.acquired, false, none⟩, .remove "builtin:docker_logs".toList⟩]

theorem windows_sound_two :
    ∃ s', run step noFile twoWindows = some s' ∧
      (s'.memory 1).commands.map SavedCommand.command = ["cargo build".toList] ∧ Sound s' := by
  have hs : Along step Sound noFile twoWindows := windows_sound rfl ⟨nofun, fun _ _ => ⟨nofun, fun _ _ => ⟨nofun, fun _ _ => trivial⟩⟩⟩
  obtain ⟨s', hrun, hcmds⟩ : ∃ s', run step noFile twoWindows = some s' ∧
      (s'.memory 1).commands.map SavedCommand.command = ["cargo build".toList] := ⟨_, rfl, by decide⟩
  exact ⟨s', hrun, hcmds, hs.last hrun⟩

/-- The file is renamed and the sync of its directory fails: the call fails, and has changed the file. -/
theorem unsynced_write :
    ∃ s', perform noFile ⟨0, ⟨.acquired, false, some .syncDirectory⟩, .createGroup "Work".toList (digestOf 7)⟩ =
        some (s', .error ⟨.other, none⟩) ∧
      (s'.file ≠ noFile.file ∧ s'.memory = noFile.memory) := by
  refine ⟨_, rfl, nofun, rfl⟩

end Pebrel.Commands
