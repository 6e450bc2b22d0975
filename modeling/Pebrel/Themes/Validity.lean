import Pebrel.Themes.Document

/-!
# Valid documents

A document that was made of a value is made again of what it holds (`valid_of_fromValue`): its
colours are already in their one form. It stays valid under another identifier, revision or name.
-/

namespace Pebrel.Themes

open Library Sync List Option
open Except (ok)

variable {v w : Json} {members members' root : Members} {d d' : ThemeDocument}

/-! ### Stable rules -/

/-- A step that leaves what it has written, on every item of a list. -/
theorem mapM_stable {α β : Type} {f : α → Except DocumentError α} {g : α → β}
    (hf : ∀ a b, f a = .ok b → f b = .ok b ∧ g b = g a) {xs ys : List α}
    (h : xs.mapM f = .ok ys) : ys.mapM f = .ok ys ∧ ys.map g = xs.map g := by
  induction xs generalizing ys with
  | nil =>
    obtain rfl := ok.inj h
    exact ⟨rfl, rfl⟩
  | cons x xs ih =>
    rw [mapM_cons] at h
    obtain ⟨y, hy, h⟩ := bind_eq_ok h
    obtain ⟨zs, hzs, h⟩ := bind_eq_ok h
    obtain rfl := ok.inj h
    obtain ⟨hstab, hk⟩ := hf x y hy
    obtain ⟨hr, hkeys⟩ := ih hzs
    rw [mapM_cons, hstab, hr, map_cons, map_cons, hk, hkeys]
    exact ⟨rfl, rfl⟩

theorem normalizeOptionalColor_stable (path : Text) (alpha : Bool) (h : normalizeOptionalColor path alpha v = .ok w) :
    normalizeOptionalColor path alpha w = .ok w := by
  rw [normalizeOptionalColor] at h ⊢
  split at h
  · rename_i hn
    obtain rfl := ok.inj h
    exact if_pos hn
  · split
    · rfl
    · exact normalizeColorValue_stable h

theorem normalizeRequiredColor_stable (missing path : Text) (h : normalizeRequiredColor missing path v = .ok w) :
    normalizeRequiredColor missing path w = .ok w := by
  rw [normalizeRequiredColor] at h ⊢
  split at h
  · exact nomatch h
  have hw : normalizeColorValue path false w = .ok w := normalizeColorValue_stable h
  split
  · rename_i hn
    cases w with
    | null => exact nomatch hw
    | _ => exact nomatch hn
  · exact hw

theorem normalizePalette_stable (h : normalizePalette v = .ok w) : normalizePalette w = .ok w := by
  unfold normalizePalette at h
  split at h
  · rename_i items
    split at h
    · rename_i hl
      obtain ⟨items', hi, h⟩ := bind_eq_ok h
      obtain rfl := ok.inj h
      obtain ⟨hstab, hkeys⟩ := mapM_stable (g := fun _ => ()) (fun a b hab => ⟨normalizeColorValue_stable hab, rfl⟩) hi
      have hl' := congrArg length hkeys
      rw [length_map, length_map] at hl'
      rw [normalizePalette, if_pos (hl'.trans hl), hstab]
      rfl
    · exact nomatch h
  · exact nomatch h

theorem normalizeIndexedEntry_stable {e e' : Text × Json} (h : normalizeIndexedEntry e = .ok e') :
    normalizeIndexedEntry e' = .ok e' ∧ e'.1 = e.1 := by
  unfold normalizeIndexedEntry at h
  split at h
  · rename_i n hn
    split at h
    · rename_i hb
      obtain ⟨value, hv, h⟩ := bind_eq_ok h
      obtain rfl := ok.inj h
      rw [normalizeIndexedEntry, hn]
      dsimp only
      rw [if_pos hb, normalizeColorValue_stable hv]
      exact ⟨rfl, rfl⟩
    · exact nomatch h
  · exact nomatch h

theorem normalizeIndexed_stable (h : normalizeIndexed v = .ok w) : normalizeIndexed w = .ok w := by
  unfold normalizeIndexed at h
  split at h
  · rename_i entries
    split at h
    · exact nomatch h
    rename_i hr
    obtain ⟨entries', hents, h⟩ := bind_eq_ok h
    obtain rfl := ok.inj h
    obtain ⟨hstab, hkeys⟩ := mapM_stable (fun a b hab => normalizeIndexedEntry_stable hab) hents
    rw [hasReservedKey_eq, ← hkeys, ← hasReservedKey_eq] at hr
    rw [normalizeIndexed, if_neg hr, hstab]
    rfl
  · exact nomatch h

theorem normalizeObject_stable {path : Text} {rules : List Rule} {required : List Text} (hkeys : (rules.map Rule.key).Nodup)
    (hstab : ∀ r ∈ rules, r.Stable) (h : normalizeObject path rules required v = .ok w) : normalizeObject path rules required w = .ok w := by
  unfold normalizeObject at h
  split at h
  · rename_i members
    split at h
    · exact nomatch h
    rename_i hr
    obtain ⟨members', hm, h⟩ := bind_eq_ok h
    obtain ⟨_, hreq, h⟩ := bind_eq_ok h
    obtain rfl := ok.inj h
    obtain ⟨hh, -, hsm⟩ := applyRules_spec hkeys hstab hm
    rw [normalizeObject, hsm, if_neg hr, applyRules_of_holds hh]
    exact congrArg (fun u : Except DocumentError Unit => u >>= fun _ => ok (Json.object members')) hreq
  · exact nomatch h

theorem terminalRules_stable : ∀ r ∈ terminalRules, r.Stable := by
  intro r hr
  rcases mem_append.mp hr with hr | hr
  · rcases mem_append.mp hr with hr | hr
    · obtain ⟨key, -, rfl⟩ := mem_map.mp hr
      exact fun v w h => normalizeRequiredColor_stable _ _ h
    · obtain ⟨key, -, rfl⟩ := mem_map.mp hr
      exact fun v w h => normalizeOptionalColor_stable _ _ h
  · obtain rfl | hr := mem_cons.mp hr
    · exact fun v w h => normalizePalette_stable h
    · obtain rfl := mem_singleton.mp hr
      exact fun v w h => normalizeIndexed_stable h

theorem uiRules_stable : ∀ r ∈ uiRules, r.Stable := by
  intro r hr
  obtain rfl | hr := mem_cons.mp hr
  · exact checked_stable _ _ _ _
  · obtain ⟨key, -, rfl⟩ := mem_map.mp hr
    exact fun v w h => normalizeOptionalColor_stable _ _ h

theorem checked_of_ok {check : Json → Except DocumentError Unit} (h : check v = .ok ()) : checked check v = .ok v := by
  rw [checked, h]
  rfl

section
variable [ThemeValues]

theorem rootRules_stable : ∀ r ∈ rootRules, r.Stable := by
  have ht : (terminalRules.map Rule.key).Nodup := by decide
  have hui : (uiRules.map Rule.key).Nodup := by decide
  refine forall_mem_cons.mpr ⟨fun v w h => normalizeObject_stable ht terminalRules_stable h,
    forall_mem_cons.mpr ⟨fun v w h => normalizeObject_stable hui uiRules_stable h, ?_⟩⟩
  intro r hr
  simp only [mem_cons, not_mem_nil, or_false] at hr
  obtain rfl | rfl | rfl | rfl | rfl := hr
  all_goals exact checked_stable _ _ _ _

theorem rootRules_nodup : (rootRules.map Rule.key).Nodup := by
  change (["terminal", "ui", "typography", "layout", "effects", "metadata", "extensions"].map String.toList).Nodup
  decide

theorem mem_rootRules_metadata :
    ⟨"metadata".toList, "metadata".toList, false, checked fun value => ensure (isObject value) "metadata".toList⟩ ∈ rootRules :=
  mem_cons_of_mem _ (mem_cons_of_mem _ (mem_cons_of_mem _ (mem_cons_of_mem _ (mem_cons_of_mem _ mem_cons_self))))

theorem rewrite_metadata {r : Rule} (hr : r ∈ rootRules) (hk : r.key = "metadata".toList) :
    r.rewrite = checked fun value => ensure (isObject value) "metadata".toList := by
  have hne : ∀ key ∈ ["terminal", "ui", "typography", "layout", "effects", "extensions"], String.toList key ≠ "metadata".toList := by decide
  simp only [rootRules, mem_cons, not_mem_nil, or_false] at hr
  obtain rfl | rfl | rfl | rfl | rfl | rfl | rfl := hr
  · exact absurd hk (hne "terminal" (by decide))
  · exact absurd hk (hne "ui" (by decide))
  · exact absurd hk (hne "typography" (by decide))
  · exact absurd hk (hne "layout" (by decide))
  · exact absurd hk (hne "effects" (by decide))
  · rfl
  · exact absurd hk (hne "extensions" (by decide))

/-! ### Normal roots -/

/-- A root that is checked, and in its one form. -/
structure Normal (root : Members) : Prop where
  reserved : hasReservedKey root = false
  envelope : validateEnvelope root = .ok ()
  rules : ∀ r ∈ rootRules, r.Holds root

theorem validateAndNormalize_of_normal (h : Normal root) : validateAndNormalize (.object root) = .ok root := by
  rw [validateAndNormalize, h.reserved, if_neg Bool.false_ne_true, h.envelope]
  exact applyRules_of_holds h.rules

end

theorem ensure_eq_ok {condition : Bool} {path : Text} {u : Unit} (h : ensure condition path = .ok u) : condition = true := by
  rw [ensure] at h
  split at h
  · assumption
  · exact nomatch h

/-- The members that are checked before the sections. -/
structure Envelope (root : Members) : Prop where
  schema : (lookup "schema_version".toList root).bind Json.asU64 = some schemaVersion
  name : ((lookup "name".toList root).bind Json.asStr).any validateName = true
  appearance : (((lookup "appearance".toList root).bind Json.asStr).any fun t => t = "light".toList ∨ t = "dark".toList) = true
  id : ((lookup "id".toList root).all fun value => value.asStr.any validateId) = true
  revision : ((lookup "revision".toList root).all fun value => value.asU64.isSome) = true

theorem validateEnvelope_iff : validateEnvelope root = .ok () ↔ Envelope root := by
  constructor
  · intro h
    obtain ⟨_, hs, h⟩ := bind_eq_ok h
    obtain ⟨_, hnm, h⟩ := bind_eq_ok h
    obtain ⟨_, ha, h⟩ := bind_eq_ok h
    obtain ⟨_, hid, h⟩ := bind_eq_ok h
    exact ⟨of_decide_eq_true (ensure_eq_ok hs), ensure_eq_ok hnm, ensure_eq_ok ha, ensure_eq_ok hid, ensure_eq_ok h⟩
  · intro h
    rw [validateEnvelope, h.schema, h.name, h.appearance, h.id, h.revision]
    rfl

theorem Envelope.congr (h : Envelope root) (hsm : ∀ key ∈ ["schema_version", "name", "appearance", "id", "revision"],
    lookup key.toList members = lookup key.toList root) : Envelope members := by
  constructor
  · rw [hsm "schema_version" (by decide)]
    exact h.schema
  · rw [hsm "name" (by decide)]
    exact h.name
  · rw [hsm "appearance" (by decide)]
    exact h.appearance
  · rw [hsm "id" (by decide)]
    exact h.id
  · rw [hsm "revision" (by decide)]
    exact h.revision

section
variable [ThemeValues]

theorem normal_of_validateAndNormalize (h : validateAndNormalize v = .ok root) : Normal root := by
  unfold validateAndNormalize at h
  split at h
  · split at h
    · exact nomatch h
    · rename_i hr
      obtain ⟨_, he, h⟩ := bind_eq_ok h
      obtain ⟨hh, hsm, hr'⟩ := applyRules_spec rootRules_nodup rootRules_stable h
      refine ⟨hr'.trans (Bool.eq_false_iff.mpr hr), ?_, hh⟩
      refine validateEnvelope_iff.mpr ((validateEnvelope_iff.mp he).congr fun key hk => hsm _ ?_)
      change key.toList ∉ ["terminal", "ui", "typography", "layout", "effects", "metadata", "extensions"].map String.toList
      revert key
      decide
  · exact nomatch h

namespace ThemeDocument

variable {id key name : Text}

theorem fromValue_eq_ok (h : fromValue v = .ok d) :
    validateAndNormalize v = .ok d.value ∧ toVecLen d.toValue ≤ maxDocumentBytes ∧ d.definition = .ok () := by
  obtain ⟨root, hroot, h⟩ := bind_eq_ok h
  split at h
  · exact nomatch h
  rename_i hl
  obtain ⟨_, hd, h⟩ := bind_eq_ok h
  obtain rfl := ok.inj h
  exact ⟨hroot, Nat.not_lt.mp hl, hd⟩

/-- What a valid document satisfies. -/
theorem valid_iff : d.Valid ↔ Normal d.value ∧ toVecLen d.toValue ≤ maxDocumentBytes ∧ d.definition = .ok () := by
  constructor
  · intro h
    exact ⟨normal_of_validateAndNormalize (fromValue_eq_ok h).1, (fromValue_eq_ok h).2⟩
  · rintro ⟨hnorm, hl, hd⟩
    rw [Valid, fromValue, toValue, validateAndNormalize_of_normal hnorm]
    change (if maxDocumentBytes < toVecLen d.toValue then _ else _) = _
    rw [if_neg (Nat.not_lt.mpr hl)]
    change (d.definition >>= fun _ => _) = _
    rw [hd]
    rfl

theorem valid_of_fromValue (h : fromValue v = .ok d) : d.Valid :=
  valid_iff.mpr ⟨normal_of_validateAndNormalize (fromValue_eq_ok h).1, (fromValue_eq_ok h).2⟩

/-- The revision of a document is that of the value that it is made of. -/
theorem revision_of_fromValue (h : fromValue (.object members) = .ok d) : d.revision = revision ⟨members⟩ := by
  have hroot := (fromValue_eq_ok h).1
  rw [validateAndNormalize] at hroot
  split at hroot
  · exact nomatch hroot
  obtain ⟨_, -, hroot⟩ := bind_eq_ok hroot
  rw [revision, revision, (applyRules_spec rootRules_nodup rootRules_stable hroot).2.1 _ ?_]
  change _ ∉ ["terminal", "ui", "typography", "layout", "effects", "metadata", "extensions"].map String.toList
  decide

/-! ### Other identifiers and names -/

theorem definition_congr (hsm : ∀ key ∈ ["name", "appearance", "terminal", "ui", "typography", "layout", "effects"],
    lookup key.toList d'.value = lookup key.toList d.value) : d'.definition = d.definition := by
  have hnm : d'.name = d.name := by rw [name, name, hsm "name" (by decide)]
  rw [definition, definition, hnm]
  dsimp only
  rw [hsm "appearance" (by decide), hsm "terminal" (by decide), hsm "ui" (by decide), hsm "typography" (by decide),
    hsm "layout" (by decide), hsm "effects" (by decide)]

omit [ThemeValues] in
theorem asU64_int {n : ℕ} (h : n < 2 ^ 64) : Json.asU64 (.int n) = some n := by
  rw [Json.asU64, if_pos ⟨Int.natCast_nonneg n, by exact_mod_cast h⟩, Int.toNat_natCast]

variable {revision : ℕ}

section
omit [ThemeValues]

theorem lookup_withIdAndRevision
    (hk : key ∉ ["id", "revision", "builtin"].map String.toList) :
    lookup key (d.withIdAndRevision id revision).value = lookup key d.value := by
  simp only [map_cons, map_nil, mem_cons, not_mem_nil, or_false, not_or] at hk
  rw [withIdAndRevision, lookup_insertMember, if_neg hk.2.2, lookup_insertMember, if_neg hk.2.1, lookup_insertMember, if_neg hk.1]

theorem lookup_id : lookup "id".toList (d.withIdAndRevision id revision).value = some (.string id) := by
  rw [withIdAndRevision, lookup_insertMember, if_neg (by decide), lookup_insertMember, if_neg (by decide), lookup_insertMember, if_pos rfl]

@[simp] theorem id_withIdAndRevision : (d.withIdAndRevision id revision).id = some id := by
  rw [ThemeDocument.id, lookup_id]
  rfl

theorem lookup_revision : lookup "revision".toList (d.withIdAndRevision id revision).value = some (.int revision) := by
  rw [withIdAndRevision, lookup_insertMember, if_neg (by decide), lookup_insertMember, if_pos rfl]

@[simp] theorem revision_withIdAndRevision (h : revision < 2 ^ 64) : (d.withIdAndRevision id revision).revision = revision := by
  rw [ThemeDocument.revision, lookup_revision, bind_some, asU64_int h]
  rfl

@[simp] theorem isBuiltin_withIdAndRevision : (d.withIdAndRevision id revision).isBuiltin = false := by
  rw [isBuiltin, withIdAndRevision, lookup_insertMember, if_pos rfl]

end

/-- The keys of the rules. -/
theorem exists_key (hr : r ∈ rootRules) :
    ∃ key ∈ ["terminal", "ui", "typography", "layout", "effects", "metadata", "extensions"], key.toList = r.key :=
  mem_map.mp (show r.key ∈ rootRules.map Rule.key from mem_map.mpr ⟨r, hr, rfl⟩)

theorem Normal.congr (h : Normal root) (hrsv : hasReservedKey members = false) (he : Envelope members)
    (hsm : ∀ key ∈ ["terminal", "ui", "typography", "layout", "effects", "metadata", "extensions"],
    lookup key.toList members = lookup key.toList root) :
    Normal members := by
  refine ⟨hrsv, validateEnvelope_iff.mpr he, fun r hr => (h.rules r hr).congr ?_⟩
  obtain ⟨key, hm, hk⟩ := exists_key hr
  rw [← hk]
  exact hsm key hm

/-- A document that is valid up to its identifier, its revision and its length. -/
structure Shaped (d : ThemeDocument) : Prop where
  reserved : hasReservedKey d.value = false
  schema : (lookup "schema_version".toList d.value).bind Json.asU64 = some schemaVersion
  name : ((lookup "name".toList d.value).bind Json.asStr).any validateName = true
  appearance : (((lookup "appearance".toList d.value).bind Json.asStr).any fun t => t = "light".toList ∨ t = "dark".toList) = true
  rules : ∀ r ∈ rootRules, r.Holds d.value

theorem Valid.shaped (h : d.Valid) : d.Shaped := by
  obtain ⟨hnorm, -, -⟩ := valid_iff.mp h
  have he := validateEnvelope_iff.mp hnorm.envelope
  exact ⟨hnorm.reserved, he.schema, he.name, he.appearance, hnorm.rules⟩

theorem Shaped.withIdAndRevision (h : d.Shaped) (id : Text) (revision : ℕ) : (d.withIdAndRevision id revision).Shaped := by
  refine ⟨?_, ?_, ?_, ?_, fun r hr => (h.rules r hr).congr (lookup_withIdAndRevision ?_)⟩
  · exact hasReservedKey_insertMember (hasReservedKey_insertMember
      (hasReservedKey_insertMember h.reserved (by decide)) (by decide)) (by decide)
  · rw [lookup_withIdAndRevision (by decide)]
    exact h.schema
  · rw [lookup_withIdAndRevision (by decide)]
    exact h.name
  · rw [lookup_withIdAndRevision (by decide)]
    exact h.appearance
  · obtain ⟨key, hm, hk⟩ := exists_key hr
    rw [← hk]
    clear hk
    revert key
    decide

/-- A document is valid under any identifier and revision, if it is not too long. -/
theorem Shaped.valid (h : d.Shaped) (hd : d.definition = .ok ()) (hid : validateId id = true)
    (hr : revision < 2 ^ 64) (hl : toVecLen (d.withIdAndRevision id revision).toValue ≤ maxDocumentBytes) :
    (d.withIdAndRevision id revision).Valid := by
  have hs := h.withIdAndRevision id revision
  refine valid_iff.mpr ⟨⟨hs.reserved, validateEnvelope_iff.mpr ⟨hs.schema, hs.name, hs.appearance, ?_, ?_⟩, hs.rules⟩, hl, ?_⟩
  · rw [lookup_id]
    exact hid
  · rw [lookup_revision, all_some, asU64_int hr]
    rfl
  · rw [definition_congr fun key hk => lookup_withIdAndRevision ?_]
    · exact hd
    · revert key
      decide

/-- A name that a definition takes. -/
def isThemeName (name : Text) : Bool := validateName name && decide (Text.trim name ≠ [])

omit [ThemeValues] in
theorem lookup_insertName (hk : key ≠ "name".toList) :
    lookup key (insertMember "name".toList (.string name) d.value) = lookup key d.value := by rw [lookup_insertMember, if_neg hk]

theorem definition_eq_ok_iff : d.definition = .ok () ↔
    resolves ((lookup "appearance".toList d.value).getD .null) ((lookup "terminal".toList d.value).getD .null)
      ((lookup "ui".toList d.value).getD .null) ((lookup "typography".toList d.value).getD .null)
      ((lookup "layout".toList d.value).getD .null) ((lookup "effects".toList d.value).getD .null) = true ∧
    (Text.trim d.name ≠ [] && decide (Text.byteLen (Text.trim d.name) ≤ 128) && !d.name.any Text.isControl) = true := by
  constructor
  · intro h
    obtain ⟨_, hr, h⟩ := bind_eq_ok h
    exact ⟨ensure_eq_ok hr, ensure_eq_ok h⟩
  · rintro ⟨hr, hnm⟩
    rw [definition, hr, hnm]
    rfl

omit [ThemeValues] in
/-- What a definition checks of a name. -/
theorem isThemeName_trim (h : isThemeName name = true) :
    (Text.trim name ≠ [] && decide (Text.byteLen (Text.trim name) ≤ 128) && !name.any Text.isControl) = true := by
  obtain ⟨hv, htrim⟩ := Bool.and_eq_true_iff.mp h
  obtain ⟨hr, hc⟩ := Bool.and_eq_true_iff.mp hv
  obtain ⟨-, hbs⟩ := Bool.and_eq_true_iff.mp hr
  rw [htrim, Bool.true_and, Bool.and_eq_true, decide_eq_true_iff]
  exact ⟨Nat.le_trans (Text.byteLen_le_of_sublist (Text.trim_sublist name)) (of_decide_eq_true hbs), hc⟩

/-- A document takes any name of a definition, if it is not too long. -/
theorem Valid.withName (h : d.Valid) (hnm : isThemeName name = true)
    (hl : toVecLen (.object (insertMember "name".toList (.string name) d.value)) ≤ maxDocumentBytes) :
    d.withName name = .ok ⟨insertMember "name".toList (.string name) d.value⟩ := by
  obtain ⟨hnorm, -, hd⟩ := valid_iff.mp h
  obtain ⟨hval, -⟩ := Bool.and_eq_true_iff.mp hnm
  have he := validateEnvelope_iff.mp hnorm.envelope
  have hsm : ∀ key ∈ ["schema_version", "appearance", "id", "revision", "terminal", "ui", "typography", "layout",
    "effects", "metadata", "extensions"],
      lookup key.toList (insertMember "name".toList (.string name) d.value) = lookup key.toList d.value :=
    fun key hk => lookup_insertName (by revert key; decide)
  have hv : ThemeDocument.Valid ⟨insertMember "name".toList (.string name) d.value⟩ := by
    refine valid_iff.mpr ⟨Normal.congr hnorm (hasReservedKey_insertMember hnorm.reserved (by decide)) ⟨?_, ?_, ?_, ?_, ?_⟩
      fun key hk => hsm key ?_, hl, definition_eq_ok_iff.mpr ⟨?_, ?_⟩⟩
    · exact (congrArg (fun o : Option Json => o.bind Json.asU64) (hsm "schema_version" (by decide))).trans he.schema
    · rw [lookup_insertMember, if_pos rfl]
      exact hval
    · rw [hsm "appearance" (by decide)]
      exact he.appearance
    · rw [hsm "id" (by decide)]
      exact he.id
    · rw [hsm "revision" (by decide)]
      exact he.revision
    · revert key
      decide
    · dsimp only
      rw [hsm "appearance" (by decide), hsm "terminal" (by decide), hsm "ui" (by decide), hsm "typography" (by decide),
        hsm "layout" (by decide), hsm "effects" (by decide)]
      exact (definition_eq_ok_iff.mp hd).1
    · have hnm' : ThemeDocument.name ⟨insertMember "name".toList (.string name) d.value⟩ = name := by
        rw [ThemeDocument.name, lookup_insertMember, if_pos rfl]
        rfl
      rw [hnm']
      exact isThemeName_trim hnm
  exact hv

section
omit [ThemeValues]

theorem lookup_forkValue_own (hk : key ∉ ["name", "metadata"].map String.toList) :
    lookup key (d.forkValue id name) = lookup key (d.withIdAndRevision id 0).value := by
  simp only [map_cons, map_nil, mem_cons, not_mem_nil, or_false, not_or] at hk
  rw [forkValue, lookup_insertMember, if_neg hk.2, lookup_insertMember, if_neg hk.1]

theorem lookup_forkValue (hk : key ∉ ["id", "revision", "builtin", "name", "metadata"].map String.toList) :
    lookup key (d.forkValue id name) = lookup key d.value :=
  (lookup_forkValue_own fun h => hk (mem_append_right (["id", "revision", "builtin"].map String.toList) h)).trans
    (lookup_withIdAndRevision fun h => hk (mem_append_left (["name", "metadata"].map String.toList) h))

theorem name_forkValue : lookup "name".toList (d.forkValue id name) = some (.string name) := by
  rw [forkValue, lookup_insertMember, if_neg (by decide), lookup_insertMember, if_pos rfl]

end

/-- The metadata of a valid document are an object. -/
theorem Valid.metadata (h : d.Valid) : isObject ((lookup "metadata".toList d.value).getD (.object [])) = true := by
  have hrule : Rule.Holds ⟨"metadata".toList, "metadata".toList, false, checked fun value =>
    ensure (isObject value) "metadata".toList⟩ d.value :=
    h.shaped.rules _ mem_rootRules_metadata
  rw [Rule.Holds] at hrule
  cases hv : lookup "metadata".toList d.value with
  | none => rfl
  | some value =>
    rw [hv] at hrule
    obtain ⟨_, ho, -⟩ := bind_eq_ok hrule
    exact ensure_eq_ok ho

omit [ThemeValues] in
theorem isObject_basedOn (h : isObject v = true) : isObject (basedOn name v) = true := by
  cases v with
  | object members => rfl
  | _ => exact h

/-- A document is forked under any name of a definition, if it is not too long. -/
theorem Valid.fork (h : d.Valid) (hid : validateId id = true) (hname : isThemeName name = true)
    (hl : toVecLen (.object (d.forkValue id name)) ≤ maxDocumentBytes) : d.fork id name = .ok ⟨d.forkValue id name⟩ := by
  have hs := h.shaped
  obtain ⟨-, -, hd⟩ := valid_iff.mp h
  obtain ⟨hval, -⟩ := Bool.and_eq_true_iff.mp hname
  have hnm : ThemeDocument.name ⟨d.forkValue id name⟩ = name := by
    rw [ThemeDocument.name, name_forkValue]
    rfl
  have hv : ThemeDocument.Valid ⟨d.forkValue id name⟩ := by
    refine valid_iff.mpr ⟨⟨?_, validateEnvelope_iff.mpr ⟨?_, ?_, ?_, ?_, ?_⟩, fun r hr => ?_⟩, hl, definition_eq_ok_iff.mpr ⟨?_, ?_⟩⟩
    · refine hasReservedKey_insertMember (hasReservedKey_insertMember ?_ (by decide)) (by decide)
      exact (hs.withIdAndRevision id 0).reserved
    · rw [lookup_forkValue (by decide)]
      exact hs.schema
    · rw [name_forkValue]
      exact hval
    · rw [lookup_forkValue (by decide)]
      exact hs.appearance
    · rw [lookup_forkValue_own (by decide), lookup_id]
      exact hid
    · rw [lookup_forkValue_own (by decide), lookup_revision]
      rfl
    · by_cases hmeta : r.key = "metadata".toList
      · have hloo : lookup r.key (d.forkValue id name) = some (basedOn d.name ((lookup "metadata".toList d.value).getD (.object []))) := by
          rw [hmeta, forkValue, lookup_insertMember, if_pos rfl, lookup_insertMember, if_neg (by decide),
            lookup_withIdAndRevision (by decide)]
        rw [Rule.Holds, hloo, rewrite_metadata hr hmeta]
        exact checked_of_ok (if_pos (isObject_basedOn h.metadata))
      · refine (hs.rules r hr).congr (lookup_forkValue ?_)
        obtain ⟨key, hm, hk⟩ := exists_key hr
        rw [← hk] at hmeta ⊢
        clear hk
        revert hmeta
        revert key
        decide
    · dsimp only
      rw [lookup_forkValue (by decide), lookup_forkValue (by decide), lookup_forkValue (by decide), lookup_forkValue (by decide),
        lookup_forkValue (by decide), lookup_forkValue (by decide)]
      exact (definition_eq_ok_iff.mp hd).1
    · rw [hnm]
      exact isThemeName_trim hname
  exact hv

end ThemeDocument

end

end Pebrel.Themes
