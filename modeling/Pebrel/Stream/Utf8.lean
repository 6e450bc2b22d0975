import Pebrel.Stream.Payload

/-!
# Text that was read from bytes

Bytes that are UTF-8 are those of the text that is read from them (`utf8Encode_of_utf8`).
A first byte and the bytes that continue it are taken apart and put together again for
each number of bytes that a character has.
-/

namespace Pebrel.Stream

open Library List Option String

theorem toNat_ofNat {n : ℕ} (h : n.isValidChar) : (Char.ofNat n).val.toNat = n := by
  rw [Char.ofNat, dif_pos h]
  rfl

/-- The next byte that continues a character. -/
theorem utf8Continue_succ {n value v : ℕ} {low hi : UInt8} {rest rest' : Bytes}
    (h : utf8Continue (n + 1) value low hi rest = (some v, rest')) :
    ∃ b r, rest = b :: r ∧ low.toNat ≤ b.toNat ∧ b.toNat ≤ hi.toNat ∧
      utf8Continue n (value * 0x40 + b.toNat % 0x40) 0x80 0xbf r = (some v, rest') := by
  cases rest with
  | nil => cases h
  | cons b r =>
    rw [utf8Continue] at h
    split at h
    · rename_i hrg
      rw [Bool.and_eq_true, decide_eq_true_eq, decide_eq_true_eq] at hrg
      exact ⟨b, r, rfl, UInt8.le_iff_toNat_le.mp hrg.1, UInt8.le_iff_toNat_le.mp hrg.2, h⟩
    · cases h

theorem utf8Continue_zero {value v : ℕ} {low hi : UInt8} {rest rest' : Bytes}
    (h : utf8Continue 0 value low hi rest = (some v, rest')) : v = value ∧ rest' = rest := by
  rw [utf8Continue] at h
  obtain ⟨hv, hr⟩ := Prod.mk.inj h
  exact ⟨(some.inj hv).symm, hr.symm⟩

theorem ofNat_eq {b : UInt8} {n : ℕ} (h : n = b.toNat) : .ofNat n = b := by
  rw [h, UInt8.ofNat_toNat]

/-- What a first byte says. -/
theorem utf8Lead_eq_some {b : UInt8} {n value : ℕ} {low hi : UInt8} (h : utf8Lead b = some (n, value, low, hi)) :
    n = 0 ∧ value = b.toNat ∧ b.toNat < 0x80 ∨
    n = 1 ∧ value + 0xc0 = b.toNat ∧ 2 ≤ value ∧ value < 0x20 ∧ low.toNat = 0x80 ∧ hi.toNat = 0xbf ∨
    n = 2 ∧ value + 0xe0 = b.toNat ∧ value < 0x10 ∧ low.toNat = (if value = 0 then 0xa0 else 0x80) ∧
      hi.toNat = (if value = 0xd then 0x9f else 0xbf) ∨
    n = 3 ∧ value + 0xf0 = b.toNat ∧ value < 5 ∧ low.toNat = (if value = 0 then 0x90 else 0x80) ∧
      hi.toNat = if value = 4 then 0x8f else 0xbf := by
  have hif : ∀ (c : UInt8) (m k : UInt8), (if b = c then m else k).toNat = if b.toNat = c.toNat then m.toNat else k.toNat := by
    intro c m k
    simp only [← UInt8.toNat_inj]
    split <;> rfl
  simp only [utf8Lead, UInt8.lt_iff_toNat_lt, UInt8.reduceToNat] at h
  split at h
  · cases h
    exact .inl ⟨rfl, rfl, by assumption⟩
  split at h
  · cases h
  · split at h
    · cases h
      refine .inr (.inl ⟨rfl, ?_, ?_, ?_, rfl, rfl⟩) <;> omega
    · split at h
      · cases h
        refine .inr (.inr (.inl ⟨rfl, ?_, ?_, ?_, ?_⟩))
        · omega
        · omega
        · rw [hif]
          exact if_congr (by simp only [UInt8.reduceToNat]; omega) rfl rfl
        · rw [hif]
          exact if_congr (by simp only [UInt8.reduceToNat]; omega) rfl rfl
      · split at h
        · cases h
          refine .inr (.inr (.inr ⟨rfl, ?_, ?_, ?_, ?_⟩))
          · omega
          · omega
          · rw [hif]
            exact if_congr (by simp only [UInt8.reduceToNat]; omega) rfl rfl
          · rw [hif]
            exact if_congr (by simp only [UInt8.reduceToNat]; omega) rfl rfl
        · cases h

/-- A character that is read has the bytes that it was read from. -/
theorem utf8EncodeChar_of_utf8Lead {b : UInt8} {n value v : ℕ} {low hi : UInt8} {rest rest' : Bytes}
    (hlead : utf8Lead b = some (n, value, low, hi))
    (h : utf8Continue n value low hi rest = (some v, rest')) : utf8EncodeChar (.ofNat v) ++ rest' = b :: rest := by
  rcases utf8Lead_eq_some hlead with ⟨rfl, hv, hlt⟩ | ⟨rfl, hv, hmin, hm, hl, hhigh⟩ | ⟨rfl, hv, hm, hl, hhigh⟩ |
    ⟨rfl, hv, hm, hl, hhigh⟩
  · obtain ⟨rfl, rfl⟩ := utf8Continue_zero h
    have hval : v.isValidChar := .inl (by omega)
    rw [utf8EncodeChar, toNat_ofNat hval, if_pos (by omega), ofNat_eq hv]
    rfl
  · obtain ⟨b1, r, rfl, hle, hge, h⟩ := utf8Continue_succ h
    obtain ⟨rfl, rfl⟩ := utf8Continue_zero h
    have hval : (value * 0x40 + b1.toNat % 0x40).isValidChar := .inl (by omega)
    rw [utf8EncodeChar, toNat_ofNat hval, if_neg (by omega), if_pos (by omega), @ofNat_eq b _ (by omega), @ofNat_eq b1 _ (by omega)]
    rfl
  · obtain ⟨b1, r, rfl, hle1, hge1, h⟩ := utf8Continue_succ h
    obtain ⟨b2, r, rfl, hle2, hge2, h⟩ := utf8Continue_succ h
    obtain ⟨rfl, rfl⟩ := utf8Continue_zero h
    simp only [UInt8.reduceToNat] at hle2 hge2
    rw [hl] at hle1
    rw [hhigh] at hge1
    have hb1 : 0x80 ≤ b1.toNat ∧ b1.toNat ≤ 0xbf := by split at hle1 <;> split at hge1 <;> omega
    have hmin : 0x800 ≤ (value * 0x40 + b1.toNat % 0x40) * 0x40 + b2.toNat % 0x40 := by split at hle1 <;> omega
    have hval : ((value * 0x40 + b1.toNat % 0x40) * 0x40 + b2.toNat % 0x40).isValidChar := by
      rw [Nat.isValidChar]
      split at hge1 <;> omega
    rw [utf8EncodeChar, toNat_ofNat hval, if_neg (by omega), if_neg (by omega), if_pos (by omega),
      @ofNat_eq b _ (by omega), @ofNat_eq b1 _ (by omega), @ofNat_eq b2 _ (by omega)]
    rfl
  · obtain ⟨b1, r, rfl, hle1, hge1, h⟩ := utf8Continue_succ h
    obtain ⟨b2, r, rfl, hle2, hge2, h⟩ := utf8Continue_succ h
    obtain ⟨b3, r, rfl, hle3, hge3, h⟩ := utf8Continue_succ h
    obtain ⟨rfl, rfl⟩ := utf8Continue_zero h
    simp only [UInt8.reduceToNat] at hle2 hge2 hle3 hge3
    rw [hl] at hle1
    rw [hhigh] at hge1
    have hb1 : 0x80 ≤ b1.toNat ∧ b1.toNat ≤ 0xbf := by split at hle1 <;> split at hge1 <;> omega
    have hmin : 0x10000 ≤ ((value * 0x40 + b1.toNat % 0x40) * 0x40 + b2.toNat % 0x40) * 0x40 + b3.toNat % 0x40 := by
      split at hle1 <;> omega
    have hm' : ((value * 0x40 + b1.toNat % 0x40) * 0x40 + b2.toNat % 0x40) * 0x40 + b3.toNat % 0x40 < 0x110000 := by
      split at hge1 <;> omega
    rw [utf8EncodeChar, toNat_ofNat (.inr ⟨by omega, hm'⟩), if_neg (by omega), if_neg (by omega), if_neg (by omega),
      @ofNat_eq b _ (by omega), @ofNat_eq b1 _ (by omega), @ofNat_eq b2 _ (by omega), @ofNat_eq b3 _ (by omega)]
    rfl

/-- What is left after a character. -/
theorem length_utf8Continue (n value : ℕ) (low hi : UInt8) (rest : Bytes) : (utf8Continue n value low hi rest).2.length ≤ rest.length := by
  induction n generalizing value low hi rest with
  | zero => exact le_rfl
  | succ n ih =>
    cases rest with
    | nil => exact le_rfl
    | cons b rest =>
      rw [utf8Continue]
      split
      · exact (ih _ _ _ rest).trans (Nat.le_succ _)
      · exact le_rfl

theorem utf8Chars_text {fuel : ℕ} {bytes : Bytes} {t : Text} (hfuel : bytes.length ≤ fuel) (h : utf8Chars fuel bytes = t.map some) :
    utf8Encode t = bytes := by
  induction fuel generalizing bytes t with
  | zero =>
    obtain rfl := length_eq_zero_iff.mp (Nat.le_zero.mp hfuel)
    obtain rfl := map_eq_nil_iff.mp h.symm
    rfl
  | succ fuel ih =>
    cases bytes with
    | nil =>
      obtain rfl := map_eq_nil_iff.mp h.symm
      rfl
    | cons b rest =>
      rw [length_cons, Nat.add_le_add_iff_right] at hfuel
      rw [utf8Chars] at h
      cases hlead : utf8Lead b with
      | none =>
        rw [hlead] at h
        cases t <;> cases h
      | some lead =>
        obtain ⟨n, value, low, hi⟩ := lead
        rw [hlead] at h
        cases hcon : utf8Continue n value low hi rest with
        | mk v rest' =>
          have hl := length_utf8Continue n value low hi rest
          rw [hcon] at hl
          simp only [hcon] at h
          cases t with
          | nil => cases h
          | cons c t =>
            obtain ⟨hc, hr⟩ := List.cons.inj h
            cases v with
            | none => cases hc
            | some v =>
              obtain rfl := some.inj hc
              rw [utf8Encode, flatMap_cons, show t.flatMap utf8EncodeChar = rest' from ih (hl.trans hfuel) hr]
              exact utf8EncodeChar_of_utf8Lead hlead hcon

theorem eq_map_some_of_mapM {α : Type*} {l : List (Option α)} {t : List α} (h : l.mapM id = some t) : l = t.map some := by
  induction l generalizing t with
  | nil =>
    obtain rfl := some.inj h
    rfl
  | cons o l ih =>
    rw [mapM_cons] at h
    obtain ⟨a, ha, h⟩ := bind_eq_some_iff.mp h
    obtain ⟨t', ht', h⟩ := bind_eq_some_iff.mp h
    obtain rfl := some.inj h
    rw [map_cons, ← ih ht', ← ha]
    rfl

/-- **The bytes of what is read as text.** -/
theorem utf8Encode_of_utf8 {bytes : Bytes} {t : Text} (h : utf8 bytes = some t) : utf8Encode t = bytes :=
  utf8Chars_text le_rfl (eq_map_some_of_mapM h)

theorem utf8Lossy_of_utf8 {bytes : Bytes} {t : Text} (h : utf8 bytes = some t) : utf8Lossy bytes = t := by
  rw [utf8Lossy, eq_map_some_of_mapM h, List.map_map]
  exact map_id'' (fun _ => rfl) t

theorem utf8Encode_inj {t t' : Text} (h : utf8Encode t = utf8Encode t') : t = t' := by
  have hbs : t.utf8Encode = t'.utf8Encode := toByteArray_inj.mpr h
  rw [← toByteArray_ofList, ← toByteArray_ofList] at hbs
  exact ofList_injective (String.toByteArray_inj.mp hbs)

theorem length_utf8Encode (t : Text) : (utf8Encode t).length = Text.byteLen t := by
  rw [utf8Encode, length_flatMap, Text.byteLen]
  simp only [length_utf8EncodeChar]

end Pebrel.Stream
