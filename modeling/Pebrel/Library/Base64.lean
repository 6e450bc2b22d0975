import Mathlib.Tactic.Ring
import Pebrel.Library.Text

/-!
# Base64

The unpadded base64 of a list of bytes, over the alphabet that is safe in URLs.

The bytes are one number in base 256. Its base-64 digits are taken after it is
shifted left, until its bits fill them; a text is only read back where the bits
it was shifted by are zero. `decode_encode` is the round trip, and `length_encode`
and `isSafe_of_mem_encode` say how long a text is and which characters it has.
-/

namespace Pebrel.Library.Base64

open List

/-! ### Digits -/

/-- The last `w` digits of `n` in base `b`, the highest first. -/
def digits (b : ℕ) : ℕ → ℕ → List ℕ
  | 0, _ => []
  | w + 1, n => digits b w (n / b) ++ [n % b]

/-- The number that has these digits. -/
def value (b : ℕ) (ds : List ℕ) : ℕ := ds.foldl (fun n d => n * b + d) 0

variable {b w n : ℕ} {ds : List ℕ}

@[simp] theorem length_digits (b w n : ℕ) : (digits b w n).length = w := by
  induction w generalizing n with
  | zero => rfl
  | succ w ih => rw [digits, length_append, ih, length_singleton]

theorem lt_of_mem_digits (hb : 0 < b) {d : ℕ} (h : d ∈ digits b w n) : d < b := by
  induction w generalizing n with
  | zero => cases h
  | succ w ih =>
    rw [digits, mem_append, mem_singleton] at h
    rcases h with h | rfl
    · exact ih h
    · exact Nat.mod_lt n hb

theorem value_concat (ds : List ℕ) (d : ℕ) : value b (ds ++ [d]) = value b ds * b + d := by
  rw [value, foldl_append, ← value, foldl_cons, foldl_nil]

/-- A number below `b ^ w` is read back from its digits. -/
theorem value_digits (hn : n < b ^ w) : value b (digits b w n) = n := by
  induction w generalizing n with
  | zero =>
    rw [Nat.pow_zero, Nat.lt_one_iff] at hn
    rw [hn]
    rfl
  | succ w ih =>
    have hb : 0 < b := by
      by_contra hb
      rw [Nat.le_zero.mp (Nat.not_lt.mp hb), Nat.zero_pow (Nat.succ_pos w)] at hn
      exact Nat.not_lt_zero _ hn
    rw [digits, value_concat, ih (by rw [Nat.div_lt_iff_lt_mul hb, ← Nat.pow_succ]; exact hn), Nat.mul_comm]
    exact Nat.div_add_mod n b

/-- Digits are read back from their number. -/
theorem digits_value (h : ∀ d ∈ ds, d < b) : digits b ds.length (value b ds) = ds := by
  induction ds using reverseRecOn with
  | nil => rfl
  | append_singleton ds d ih =>
    have hd := h d (by simp)
    have hb : 0 < b := by omega
    rw [length_append, length_singleton, digits, value_concat, Nat.add_comm (value b ds * b), Nat.add_mul_div_right _ _ hb,
      Nat.div_eq_of_lt hd, Nat.zero_add, Nat.add_mul_mod_self_right, Nat.mod_eq_of_lt hd,
      ih fun x hx => h x (mem_append_left _ hx)]

theorem value_lt (h : ∀ d ∈ ds, d < b) : value b ds < b ^ ds.length := by
  induction ds using reverseRecOn with
  | nil => simp [value]
  | append_singleton ds d ih =>
    have hlt := ih fun x hx => h x (mem_append_left _ hx)
    have hd := h d (by simp)
    rw [value_concat, length_append, length_singleton, Nat.pow_succ]
    calc value b ds * b + d < value b ds * b + b := by omega
      _ = (value b ds + 1) * b := by ring
      _ ≤ b ^ ds.length * b := Nat.mul_le_mul_right b hlt

/-! ### Characters -/

/-- The digits' characters. -/
def alphabet : Text :=
  "ABCDEFGHIJKLMNOPQRSTUVWXYZabcdefghijklmnopqrstuvwxyz0123456789-_".toList

/-- The character of a digit. -/
def charOf (d : ℕ) : Char := alphabet.getD d 'A'

/-- The digit of a character. -/
def digitOf (c : Char) : Option ℕ := alphabet.findIdx? (· == c)

/-- A character that may stand in a URL as it is. -/
def isSafe (c : Char) : Bool := c.isAlphanum || c == '_' || c == '-'

theorem digitOf_charOf {d : ℕ} (h : d < 64) : digitOf (charOf d) = some d := by
  have ha : ∀ d < 64, digitOf (charOf d) = some d := by decide
  exact ha d h

theorem isSafe_charOf {d : ℕ} (h : d < 64) : isSafe (charOf d) = true := by
  have ha : ∀ d < 64, isSafe (charOf d) = true := by decide +kernel
  exact ha d h

/-! ### Texts -/

/-- The number of digits that `k` bytes take. -/
def width (k : ℕ) : ℕ := (8 * k + 5) / 6

def encode (bytes : List UInt8) : Text :=
  let shift := 6 * width bytes.length - 8 * bytes.length
  (digits 64 (width bytes.length) (value 256 (bytes.map UInt8.toNat) * 2 ^ shift)).map charOf

def decode (t : Text) : Option (List UInt8) :=
  match t.mapM digitOf with
  | none => none
  | some ds =>
    let k := 6 * ds.length / 8
    let shift := 6 * ds.length - 8 * k
    if width k ≠ ds.length ∨ value 64 ds % 2 ^ shift ≠ 0 then none
    else some ((digits 256 k (value 64 ds / 2 ^ shift)).map .ofNat)

theorem length_encode (bytes : List UInt8) : (encode bytes).length = width bytes.length := by simp [encode]

theorem isSafe_of_mem_encode {bytes : List UInt8} {c : Char} (h : c ∈ encode bytes) : isSafe c = true := by
  simp only [encode, mem_map] at h
  obtain ⟨d, hd, rfl⟩ := h
  exact isSafe_charOf (lt_of_mem_digits (by decide) hd)

theorem mapM_charOf (h : ∀ d ∈ ds, d < 64) : (ds.map charOf).mapM digitOf = some ds := by
  induction ds with
  | nil => rfl
  | cons d ds ih =>
    rw [map_cons, mapM_cons, digitOf_charOf (h d (by simp)), ih fun x hx => h x (by simp [hx])]
    rfl

/-- **The round trip.** -/
theorem decode_encode (bytes : List UInt8) : decode (encode bytes) = some bytes := by
  have hbs : ∀ d ∈ bytes.map UInt8.toNat, d < 256 := by
    intro d hd
    obtain ⟨x, -, rfl⟩ := mem_map.mp hd
    exact x.toNat_lt
  have hlt := value_lt hbs
  rw [length_map] at hlt
  have hbk : 6 * width bytes.length / 8 = bytes.length := by
    rw [width]
    omega
  have hfits : value 256 (bytes.map UInt8.toNat) * 2 ^ (6 * width bytes.length - 8 * bytes.length) < 64 ^ width bytes.length := by
    have hp : (64 : ℕ) ^ width bytes.length = 256 ^ bytes.length * 2 ^ (6 * width bytes.length - 8 * bytes.length) := by
      rw [show (64 : ℕ) = 2 ^ 6 by norm_num, show (256 : ℕ) = 2 ^ 8 by norm_num, ← Nat.pow_mul, ← Nat.pow_mul, ← Nat.pow_add]
      congr 1
      rw [width]
      omega
    rw [hp]
    exact Nat.mul_lt_mul_of_pos_right hlt (Nat.two_pow_pos _)
  have hm : (encode bytes).mapM digitOf = some (digits 64 (width bytes.length)
      (value 256 (bytes.map UInt8.toNat) * 2 ^ (6 * width bytes.length - 8 * bytes.length))) :=
    mapM_charOf fun d hd => lt_of_mem_digits (by decide) hd
  have hself : digits 256 bytes.length (value 256 (bytes.map UInt8.toNat)) = bytes.map UInt8.toNat := by
    simpa using digits_value hbs
  simp only [decode, hm, length_digits, hbk, value_digits hfits, ne_eq, not_true_eq_false, Nat.mul_mod_left, or_self, if_false,
    Nat.mul_div_cancel _ (Nat.two_pow_pos _), hself, map_map]
  congr 1
  exact map_id'' (fun _ => UInt8.ofNat_toNat) bytes

end Pebrel.Library.Base64
