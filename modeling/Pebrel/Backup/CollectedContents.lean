import Mathlib.Data.List.Perm.Subperm
import Pebrel.Backup.Collection

/-!
# Collected contents

What is taken out of the settings and of the SSH profiles when they are collected is
not found when the archive is validated: filtered settings are filtered to themselves
(`filterSettings_filterSettings`), and profiles that are written without their keys and
their proxy are read without them (`sshIsSanitized_written`). For the profiles this rests
on objects having no key twice, as `remove` takes out one member.
-/

namespace Pebrel.Backup

open Library List Option Prod
open Sync (Json)
open Commands (JsonText)

/-! ### Settings -/

variable {bytes : Bytes} {key : Text} {ms : List (Text × Json)} {m : Text × Json} {value w : Json}

/-- The lines are put together again. -/
theorem foldl_lines (lines : List Bytes) (hne : ∀ line ∈ lines, line ≠ []) :
    lines.foldl (fun output line => if output = [] then output ++ line else output ++ [10] ++ line) [] = [10].intercalate lines := by
  have hr : ∀ (lines : List Bytes) (output : Bytes), output ≠ [] →
      lines.foldl (fun output line => if output = [] then output ++ line else output ++ [10] ++ line) output =
        output ++ lines.flatMap fun line => 10 :: line := by
    intro lines
    induction lines with
    | nil =>
      intro output _
      simp
    | cons line lines ih =>
      intro output ho
      rw [foldl_cons, if_neg ho, ih _ (by simp [ho])]
      simp [append_assoc]
  have hjoin : ∀ (line : Bytes) (lines : List Bytes), [10].intercalate (line :: lines) = line ++ lines.flatMap fun line => 10 :: line := by
    intro line lines
    induction lines generalizing line with
    | nil => simp
    | cons line' lines ih =>
      rw [intercalate_cons_cons, ih line']
      simp [append_assoc]
  cases lines with
  | nil => rfl
  | cons line lines =>
    rw [foldl_cons, if_pos rfl, nil_append, hr lines line (hne line mem_cons_self), hjoin]

/-- The lines that are kept. -/
def keptLines (bytes : Bytes) : List Bytes := (bytes.splitOn 10).filter settingsLineKept

theorem keptLines_ne_nil {line : Bytes} (h : line ∈ keptLines bytes) : line ≠ [] := by
  rintro rfl
  have hk := (mem_filter.mp h).2
  simp [settingsLineKept] at hk

theorem filterSettings_eq (bytes : Bytes) : filterSettings bytes = [10].intercalate (keptLines bytes) :=
  foldl_lines _ fun _ => keptLines_ne_nil

/-- **Filtered settings are filtered to themselves.** -/
theorem filterSettings_filterSettings (bytes : Bytes) : filterSettings (filterSettings bytes) = filterSettings bytes := by
  by_cases hn : keptLines bytes = []
  · have he : filterSettings bytes = [] := by rw [filterSettings_eq, hn, intercalate_nil]
    rw [he]
    decide
  have hls : (filterSettings bytes).splitOn 10 = keptLines bytes := by
    rw [filterSettings_eq]
    exact splitOn_intercalate 10 (fun line hl => Text.not_mem_of_mem_splitOn (mem_filter.mp hl).1) hn
  have hk : keptLines (filterSettings bytes) = keptLines bytes := by
    rw [keptLines, hls, keptLines, List.filter_filter]
    simp
  rw [filterSettings_eq (filterSettings bytes), hk, filterSettings_eq]

/-! ### Objects -/

theorem removeMember_subperm (key : Text) (ms : List (Text × Json)) : (removeMember key ms).Subperm ms := by
  induction ms with
  | nil => exact .refl _
  | cons m ms ih =>
    simp only [removeMember]
    split
    · refine Subperm.trans (Perm.subperm ?_) (sublist_cons_self m ms).subperm
      cases ms using reverseRecOn with
      | nil => simp
      | append_singleton ms last _ =>
        rw [getLast?_concat, dropLast_concat]
        exact perm_append_comm
    · exact subperm_cons m |>.mpr ih

theorem mem_of_mem_removeMember (h : m ∈ removeMember key ms) : m ∈ ms := (removeMember_subperm key ms).subset h

/-- Of an object that has no key twice, the member is gone. -/
theorem not_mem_removeMember (hms : (ms.map Prod.fst).Nodup) (h : m ∈ removeMember key ms) : m.1 ≠ key := by
  induction ms with
  | nil => cases h
  | cons m' ms ih =>
    rw [map_cons, nodup_cons] at hms
    simp only [removeMember] at h
    split at h
    · rename_i hk
      have hm : m ∈ ms := by
        cases ms using reverseRecOn with
        | nil => simp at h
        | append_singleton ms last _ =>
          rw [getLast?_concat, dropLast_concat] at h
          exact perm_append_comm.subset h
      intro heq
      exact hms.1 (List.mem_map.mpr ⟨m, hm, heq.trans hk.symm⟩)
    · rename_i hk
      rcases mem_cons.mp h with rfl | h
      · exact hk
      · exact ih hms.2 h

/-! ### Profiles -/

theorem less_object_of_subperm {a b : List (Text × Json)} (h : a.Subperm b) : Less (.object a) (.object b) :=
  .object h rfl (forall₂_same.mpr fun v _ => .refl v)

theorem less_sanitizeProfile (profile : Json) : Less (sanitizeProfile profile) profile := by
  cases profile with
  | object members =>
    exact less_object_of_subperm ((removeMember_subperm "proxy".toList _).trans (removeMember_subperm "private_keys".toList members))
  | _ => exact .refl _

theorem less_sanitizeMember (m : Text × Json) : (sanitizeMember m).1 = m.1 ∧ Less (sanitizeMember m).2 m.2 := by
  obtain ⟨key, value⟩ := m
  simp only [sanitizeMember]
  split
  · cases value with
    | array profiles =>
      refine ⟨rfl, .array ?_⟩
      rw [forall₂_map_left_iff, forall₂_same]
      exact fun profile _ => less_sanitizeProfile profile
    | _ => exact ⟨rfl, .refl _⟩
  · exact ⟨rfl, .refl _⟩

/-- What is written is what was read, with members taken out. -/
theorem less_sanitize (value : Json) : Less (sanitize value) value := by
  cases value with
  | object members =>
    refine .object (.refl members) ?_ ?_
    · rw [List.map_map]
      exact map_congr_left fun m _ => (less_sanitizeMember m).1
    · rw [List.map_map, forall₂_map_left_iff, forall₂_map_right_iff, forall₂_same]
      exact fun m _ => (less_sanitizeMember m).2
  | _ => exact .refl _

/-- A profile has neither keys nor a proxy. -/
def CleanProfile (profile : Json) : Prop :=
  ∀ members, profile = .object members → ∀ m ∈ members, m.1 ≠ "private_keys".toList ∧ m.1 ≠ "proxy".toList

theorem cleanProfile_iff (profile : Json) : CleanProfile profile ↔ (profile.asObject.all fun object =>
    !object.any fun member => member.1 = "private_keys".toList ∨ member.1 = "proxy".toList) = true := by
  cases profile with
  | object members =>
    simp only [Json.asObject, all_some, Bool.not_eq_true', List.any_eq_false, decide_eq_true_eq, not_or]
    exact ⟨fun h => h members rfl, fun h members' heq => by cases heq; exact h⟩
  | _ => exact ⟨fun _ => rfl, fun _ _ => nofun⟩

theorem sshIsSanitized_of_clean [JsonText Bytes] (hval : JsonText.fromSlice bytes = some value)
    (h : ∀ profiles, value.get? "profiles".toList = some (.array profiles) → ∀ profile ∈ profiles, CleanProfile profile) :
    sshIsSanitized bytes = true := by
  simp only [sshIsSanitized, hval]
  split
  · rfl
  rename_i profiles hs
  obtain ⟨v, hv, ha⟩ := bind_eq_some_iff.mp hs
  cases v with
  | array items =>
    obtain rfl := some.inj ha
    rw [List.all_eq_true]
    exact fun profile hp => (cleanProfile_iff profile).mp (h items hv profile hp)
  | _ => cases ha

theorem exists_left {R : Json → Json → Prop} {as bs : List Json} (h : Forall₂ R as bs) {b : Json} (hb : b ∈ bs) : ∃ a ∈ as, R a b := by
  induction h with
  | nil => cases hb
  | cons hhd _ ih =>
    rcases mem_cons.mp hb with rfl | hb
    · exact ⟨_, mem_cons_self, hhd⟩
    · obtain ⟨a, ha, hab⟩ := ih hb
      exact ⟨a, mem_cons_of_mem _ ha, hab⟩

/-- Values that are alike have the same keys. -/
theorem Alike.clean {a b : Json} (h : Alike a b) (ha : CleanProfile a) : CleanProfile b := by
  rintro members rfl m hm
  cases h with
  | refl => exact ha members rfl m hm
  | object hkeys _ =>
    rename_i members' _
    obtain ⟨m', hm', heq⟩ : ∃ m' ∈ members', m'.1 = m.1 := by
      have hk : m.1 ∈ members'.map fst := hkeys ▸ List.mem_map.mpr ⟨m, hm, rfl⟩
      exact List.mem_map.mp hk
    rw [← heq]
    exact ha members' rfl m' hm'

/-- Values that are alike have values that are alike under a key. -/
theorem Alike.get? {a b : Json} (h : Alike a b) (key : Text) (hw : b.get? key = some w) : ∃ v, a.get? key = some v ∧ Alike v w := by
  cases h with
  | refl => exact ⟨w, hw, .refl w⟩
  | float => cases hw
  | array => cases hw
  | object hkeys hvs =>
    rename_i as bs
    simp only [Json.get?] at hw ⊢
    induction as generalizing bs with
    | nil =>
      cases bs with
      | nil => cases hw
      | cons => cases hkeys
    | cons m ms ih =>
      cases bs with
      | nil => cases hkeys
      | cons m' ms' =>
        obtain ⟨hk, hkeys⟩ := List.cons.inj hkeys
        obtain ⟨hhd, htl⟩ := forall₂_cons.mp hvs
        rw [find?_cons] at hw ⊢
        rw [hk]
        by_cases hm : m'.1 = key
        · simp only [hm, decide_true, map_some, some.injEq, exists_eq_left'] at hw ⊢
          exact hw ▸ hhd
        · simp only [hm, decide_false] at hw ⊢
          exact ih hkeys htl hw

/-- The profiles that are written are those that were read, sanitized. -/
theorem get?_sanitize {profiles : List Json} (h : (sanitize value).get? "profiles".toList = some (.array profiles)) :
    ∃ before, value.get? "profiles".toList = some (.array before) ∧ profiles = before.map sanitizeProfile := by
  cases value with
  | object members =>
    simp only [sanitize, Json.get?] at h ⊢
    have hfind : (members.map sanitizeMember).find? (fun m => m.1 = "profiles".toList) =
        (members.find? fun m => m.1 = "profiles".toList).map sanitizeMember := by
      rw [find?_map]
      congr 2
      funext m
      rw [Function.comp_apply, (less_sanitizeMember m).1]
    rw [hfind] at h
    cases hm : members.find? fun m => m.1 = "profiles".toList with
    | none =>
      rw [hm] at h
      cases h
    | some m =>
      have hk : m.1 = "profiles".toList := by
        have hfd := find?_some hm
        exact of_decide_eq_true hfd
      obtain ⟨key, v⟩ := m
      simp only [hm, map_some, some.injEq, sanitizeMember, if_pos hk] at h ⊢
      cases v with
      | array before => exact ⟨before, rfl, (Json.array.inj h).symm⟩
      | _ => cases h
  | _ => cases h

theorem part_of_get? {v : Json} (h : value.get? key = some v) (hw : Part w v) : Part w value := by
  cases value with
  | object members =>
    obtain ⟨m, hm, rfl⟩ := map_eq_some_iff.mp h
    exact .member (mem_of_find?_eq_some hm) hw
  | _ => cases h

theorem cleanProfile_sanitizeProfile {profile : Json}
    (h : ∀ members, profile = .object members → (members.map Prod.fst).Nodup) : CleanProfile (sanitizeProfile profile) := by
  cases profile with
  | object members =>
    rintro members' heq m hm
    obtain rfl := Json.object.inj heq
    have hnd := h members rfl
    have hnd' : ((removeMember "private_keys".toList members).map fst).Nodup := by
      obtain ⟨kept, hperm, hs⟩ := removeMember_subperm "private_keys".toList members
      exact (hperm.map fst).nodup_iff.mp ((hs.map fst).nodup hnd)
    exact ⟨not_mem_removeMember hnd (mem_of_mem_removeMember hm), not_mem_removeMember hnd' hm⟩
  | _ => exact fun _ => nofun

/-- **Profiles that are written without their keys and their proxy are read without them.** -/
theorem sshIsSanitized_written [JsonText Bytes] [JsonWriter]
    (hval : JsonText.fromSlice bytes = some value) : sshIsSanitized (JsonWriter.toVec (sanitize value)) = true := by
  obtain ⟨written, hwr, ha⟩ := JsonWriter.read_written hval (less_sanitize value)
  refine sshIsSanitized_of_clean hwr fun profiles hpro profile hprof => ?_
  obtain ⟨v, hv, hpro⟩ := ha.get? _ hpro
  obtain ⟨sanitized, rfl, hs⟩ : ∃ sanitized, v = .array sanitized ∧ Forall₂ Alike sanitized profiles := by
    cases hpro with
    | refl => exact ⟨profiles, rfl, forall₂_same.mpr fun v _ => .refl v⟩
    | array hs => exact ⟨_, rfl, hs⟩
  obtain ⟨before, hb, rfl⟩ := get?_sanitize hv
  obtain ⟨p, hp, hpa⟩ := exists_left hs hprof
  obtain ⟨q, hq, rfl⟩ := List.mem_map.mp hp
  refine hpa.clean (cleanProfile_sanitizeProfile ?_)
  rintro members rfl
  exact JsonWriter.distinct hval (part_of_get? hb (.item hq (.self _)))

end Pebrel.Backup
