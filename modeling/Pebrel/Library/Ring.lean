import Mathlib.Data.Int.ModEq
import Mathlib.Data.List.Rotate
import Mathlib.Tactic.Ring
import Mathlib.Tactic.Zify

/-!
# Rings

A list read as a ring from a place `z` on: the `k`-th element of the ring is
the one `k` places after `z`, around the end of the list back to its start.
As a list the ring is `l.rotate z`; here reading, writing and rotating at a
place of the list are expressed at the corresponding index of the ring.
-/

namespace Pebrel.Library.Ring

open List Nat Int

/-- The place in a list of length `n` that is `k` places after `z`. -/
def place (n z k : ℕ) : ℕ := if z + k ≥ n then z + k - n else z + k

variable {n z k : ℕ} {count : ℤ}

theorem place_eq_mod (hz : z < n) (hk : k < n) : place n z k = (z + k) % n := by
  unfold place
  split
  · rename_i h
    rw [mod_eq_sub_mod h, mod_eq_of_lt (by omega)]
  · rename_i h
    exact (mod_eq_of_lt (by omega)).symm

theorem mod_inj {j : ℕ} (hj : j < n) (hk : k < n) : (z + j) % n = (z + k) % n ↔ j = k := by
  constructor
  · intro h
    have hm : j ≡ k [MOD n] := .add_left_cancel' z h
    rwa [Nat.ModEq, mod_eq_of_lt hj, mod_eq_of_lt hk] at hm
  · rintro rfl
    rfl

variable {α : Type*}

/-- Reading at a place. -/
theorem getElem?_place {l : List α} (hz : z < l.length) (hk : k < l.length) : l[place l.length z k]? = (l.rotate z)[k]? := by
  rw [place_eq_mod hz hk, getElem?_rotate hk, Nat.add_comm]

/-- A map that looks at places, under a rotation. -/
theorem rotate_mapIdx (l : List α) (z : ℕ) (f : ℕ → α → α) :
    (l.mapIdx f).rotate z = (l.rotate z).mapIdx fun k a => f ((z + k) % l.length) a := by
  apply ext_getElem
  · simp
  · intro k h1 h2
    simp [getElem_rotate, Nat.add_comm]

/-- A map that only acts on a window of indices. -/
theorem mapIdx_window {xs ys zs : List α} {f : α → α} {g : ℕ → α → α} (hin : ∀ k a, xs.length ≤ k → k < xs.length + ys.length → g k a = f a)
    (ho : ∀ k a, k < xs.length + ys.length + zs.length → k < xs.length ∨ xs.length + ys.length ≤ k → g k a = a) :
    (xs ++ (ys ++ zs)).mapIdx g = xs ++ (ys.map f ++ zs) := by
  rw [mapIdx_append, mapIdx_append]
  congr 1
  · apply ext_getElem
    · simp
    · intro k h1 h2
      rw [getElem_mapIdx]
      exact ho k _ (by omega) (.inl h2)
  congr 1
  · apply ext_getElem
    · simp
    · intro k h1 h2
      have hk : k < ys.length := by simpa using h2
      rw [getElem_mapIdx, getElem_map]
      exact hin _ _ (by omega) (by omega)
  · apply ext_getElem
    · simp
    · intro k h1 h2
      rw [getElem_mapIdx]
      exact ho _ _ (by omega) (.inr (by omega))

/-- Writing at a place. -/
theorem rotate_modify {l : List α} (hz : z < l.length) (hk : k < l.length) (f : α → α) :
    (l.modify (place l.length z k) f).rotate z = (l.rotate z).modify k f := by
  apply ext_getElem
  · simp
  intro j h1 h2
  have hj : j < l.length := by simpa using h1
  simp only [getElem_rotate, getElem_modify, length_modify, place_eq_mod hz hk, Nat.add_comm j z, mod_inj hk hj]

theorem rotate_set {l : List α} (hz : z < l.length) (hk : k < l.length) (a : α) :
    (l.set (place l.length z k) a).rotate z = (l.rotate z).set k a := by
  rw [set_eq_modify, set_eq_modify, rotate_modify hz hk]

/-- Rotating by an integer: the index of the ring that becomes the first one. -/
def offset (n : ℕ) (count : ℤ) : ℕ := (count % n).toNat

theorem cast_offset (hn : 0 < n) (count : ℤ) : (offset n count : ℤ) = count % n := toNat_of_nonneg (emod_nonneg count (by omega))

theorem offset_of_lt (hk : k < n) (hc : count = k) : offset n count = k := by
  unfold offset
  rw [hc, emod_eq_of_lt (by omega) (by omega), toNat_natCast]

/-- After `z` moves by `count`, the element with index `k` has index `k - count`. -/
theorem place_sub (hz : z < n) (hc : count.natAbs ≤ n) : ((z + k) % n + n - (z + count + n).toNat % n) % n = offset n (k - count) := by
  have hn : 0 < n := by omega
  have hlt : (z + count + n).toNat % n < n := mod_lt _ hn
  have hnz : ((z + count + n).toNat : ℤ) = z + count + n := toNat_of_nonneg (by omega)
  have hcast := cast_offset hn ((k : ℤ) - count)
  zify
  rw [hcast, Nat.cast_sub (by omega)]
  push_cast
  rw [hnz]
  have hm : ((z + k : ℤ) % n + n - (z + count + n) % n) ≡ (z + k) + 0 - (z + count + 0) [ZMOD n] := by
    gcongr <;> simp [Int.ModEq]
  rwa [show (z + k : ℤ) + 0 - (z + count + 0) = k - count by ring] at hm

/-- Moving `z` by `count` rotates the ring by `count`. -/
theorem rotate_offset {l : List α} (hn : 0 < l.length) (hc : count.natAbs ≤ l.length) :
    l.rotate ((z + count + l.length).toNat % l.length) = (l.rotate z).rotate (offset l.length count) := by
  rw [rotate_rotate, rotate_mod, ← rotate_mod l (z + offset l.length count), ← rotate_mod l (z + count + l.length).toNat]
  congr 1
  have hz : (0 : ℤ) ≤ z + count + l.length := by omega
  have ho : (offset l.length count : ℤ) = count % l.length := toNat_of_nonneg (emod_nonneg count (by omega))
  zify
  rw [toNat_of_nonneg hz, ho]
  simp

end Pebrel.Library.Ring
