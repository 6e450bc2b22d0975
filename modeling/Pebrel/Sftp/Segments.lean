import Mathlib.Tactic.NormNum
import Pebrel.Library.Spans

/-!
# Segments of a download

A file is downloaded in segments that are read at the same time (`plan_segments`
of `limits.rs`). They follow each other from the start of the file to its end, there
are no more of them than the window allows, and each starts where a request does
(`planLoop_spec`).

The length of a segment is a whole number of chunks, computed in 64 bits. Of a file
that ends less than a chunk below `2 ^ 64`, in one segment, it is `2 ^ 64`: with checks of
overflow the computation fails, and without them the length is zero and the loop
does not end (`planSegments_iff`).

## The model

The loop has fuel. A build has checks of overflow or does not have them.
-/

namespace Pebrel.Sftp

open Library.Spans List Nat

def transferChunk : ℕ := 32 * 1024

def divCeil (a b : ℕ) : ℕ := if 0 < a % b then a / b + 1 else a / b

/-- The segments of a file: starts and lengths. -/
abbrev Plan := List (ℕ × ℕ)

/-- What comes of planning: nothing yet if the fuel is used up. -/
inductive Planning where
  | plan (segments : Plan)
  | overflow
  | running

/-- The loop of `plan_segments`. -/
def planLoop (span total : ℕ) : ℕ → ℕ → Plan → Planning
  | 0, offset, plan => if offset < total then .running else .plan plan
  | fuel + 1, offset, plan =>
    if offset < total then
      let length := min span (total - offset)
      planLoop span total fuel (offset + length) (plan ++ [(offset, length)])
    else .plan plan

/-- The chunks of a segment. -/
def blocksPerSegment (total window : ℕ) : ℕ :=
  let blocks := divCeil total transferChunk
  divCeil blocks (min (max window 1) blocks)

/-- `plan_segments`, with or without checks of overflow. -/
def planSegments (checked : Bool) (fuel total window : ℕ) : Planning :=
  if total = 0 then .plan []
  else
    let span := blocksPerSegment total window * transferChunk
    if 2 ^ 64 ≤ span then if checked then .overflow else planLoop (span % 2 ^ 64) total fuel 0 []
    else planLoop span total fuel 0 []

/-- What the segments of a file are to be. -/
structure WellPlanned (total window : ℕ) (plan : Plan) : Prop where
  covers : Covers 0 plan total
  apart : plan.Pairwise fun s s' => s.1 + s.2 ≤ s'.1
  few : plan.length ≤ max window 1
  aligned : ∀ s ∈ plan, s.1 % transferChunk = 0

/-- The planning comes to an end without overflow, with segments as they are to be. -/
def Planned (checked : Bool) (total window : ℕ) : Prop :=
  ∃ fuel plan, planSegments checked fuel total window = .plan plan ∧ WellPlanned total window plan

/-! ### Rounding up -/

variable {b a total offset : ℕ}

theorem divCeil_mul_ge (a : ℕ) (hb : 0 < b) : a ≤ divCeil a b * b := by
  have hd := div_add_mod a b
  have hm := mod_lt a hb
  rw [Nat.mul_comm] at hd
  simp only [divCeil]
  split
  · rw [Nat.add_mul, Nat.one_mul]
    omega
  · omega

theorem divCeil_le_iff {c : ℕ} (hb : 0 < b) : divCeil a b ≤ c ↔ a ≤ c * b := by
  constructor
  · intro h
    exact (divCeil_mul_ge a hb).trans (Nat.mul_le_mul_right b h)
  · intro h
    have hd := div_add_mod a b
    simp only [divCeil]
    split
    · rename_i hm
      refine Nat.lt_of_mul_lt_mul_right (a := b) ?_
      rw [Nat.mul_comm] at hd
      omega
    · exact Nat.div_le_of_le_mul (Nat.mul_comm c b ▸ h)

theorem divCeil_pos (ha : 0 < a) (hb : 0 < b) : 0 < divCeil a b := by
  by_contra hz
  have hle := (divCeil_le_iff hb).mp (Nat.le_of_not_lt hz)
  omega

/-! ### The loop -/

/-- **The loop goes on to the end of the file in steps of a span.** -/
theorem planLoop_spec {span fuel : ℕ} {plan : Plan} (hspan : 0 < span) (ho : offset ≤ total)
    (hfuel : total - offset ≤ fuel) : ∃ rest, planLoop span total fuel offset plan = .plan (plan ++ rest) ∧
      Covers offset rest total ∧ rest.length * span < total - offset + span ∧ ∀ s ∈ rest, s.1 % span = offset % span := by
  induction fuel generalizing offset plan with
  | zero =>
    refine ⟨[], ?_, Nat.le_antisymm ho (Nat.sub_eq_zero_iff_le.mp (le_zero.mp hfuel)), ?_, nofun⟩
    · rw [planLoop, if_neg (by omega), append_nil]
    · rw [length_nil, Nat.zero_mul]
      omega
  | succ fuel ih =>
    by_cases hlt : offset < total
    · have hp : 0 < min span (total - offset) := Nat.lt_min.mpr ⟨hspan, Nat.sub_pos_of_lt hlt⟩
      have hnx : offset + min span (total - offset) ≤ total := by
        have := Nat.min_le_right span (total - offset)
        omega
      obtain ⟨rest, hloop, hc, hf, ha⟩ := @ih _ (plan ++ [(offset, min span (total - offset))]) hnx (by omega)
      refine ⟨(offset, min span (total - offset)) :: rest, ?_, ⟨rfl, hp, hc⟩, ?_, forall_mem_cons.mpr ⟨rfl, ?_⟩⟩
      · rw [planLoop, if_pos hlt]
        simp only [hloop, append_assoc, singleton_append]
      · rw [length_cons, Nat.add_mul, Nat.one_mul]
        rcases Nat.le_total span (total - offset) with hle | hle
        · rw [Nat.min_eq_left hle] at hf
          omega
        rw [Nat.min_eq_right hle] at hc
        have he : offset + (total - offset) = total := Nat.add_sub_cancel' ho
        rw [he] at hc
        have hn : rest = [] := by
          cases rest with
          | nil => rfl
          | cons s rest =>
            obtain ⟨-, hs, hr⟩ := hc
            have := hr.le
            omega
        rw [hn, length_nil, Nat.zero_mul]
        omega
      · intro s hs
        rcases Nat.le_total span (total - offset) with hle | hle
        · rw [ha s hs, Nat.min_eq_left hle, add_mod_right]
        have he : offset + min span (total - offset) = total := by
          rw [Nat.min_eq_right hle]
          omega
        rw [he] at hc
        have := hc.of_mem hs
        omega
    · refine ⟨[], ?_, ?_, ?_, nofun⟩
      · rw [planLoop, if_neg hlt, append_nil]
      · exact Nat.le_antisymm ho (Nat.le_of_not_lt hlt)
      · rw [length_nil, Nat.zero_mul]
        omega

/-- Without a span the loop does not end. -/
theorem planLoop_zero (h : offset < total) (fuel : ℕ) (plan : Plan) : planLoop 0 total fuel offset plan = .running := by
  induction fuel generalizing plan with
  | zero => rw [planLoop, if_pos h]
  | succ fuel ih =>
    rw [planLoop, if_pos h]
    simp only [Nat.zero_min, Nat.add_zero]
    exact ih _

/-! ### The length of a segment -/

theorem transferChunk_eq : transferChunk = 2 ^ 15 := rfl

theorem blocks_pos (h : 0 < total) : 0 < divCeil total transferChunk := divCeil_pos h (by decide)

theorem segments_pos (h : 0 < total) (window : ℕ) : 0 < min (max window 1) (divCeil total transferChunk) :=
  Nat.lt_min.mpr ⟨Nat.lt_of_lt_of_le Nat.one_pos (Nat.le_max_right window 1), blocks_pos h⟩

theorem blocksPerSegment_pos (h : 0 < total) (window : ℕ) : 0 < blocksPerSegment total window :=
  divCeil_pos (blocks_pos h) (segments_pos h window)

/-- So many segments as the window allows are enough for the file. -/
theorem total_le_span (h : 0 < total) (window : ℕ) : total ≤ max window 1 * (blocksPerSegment total window * transferChunk) := by
  have hbl := divCeil_mul_ge (divCeil total transferChunk) (segments_pos h window)
  calc total ≤ divCeil total transferChunk * transferChunk := divCeil_mul_ge total (by decide)
    _ ≤ blocksPerSegment total window * min (max window 1) (divCeil total transferChunk) * transferChunk :=
      Nat.mul_le_mul_right _ hbl
    _ ≤ blocksPerSegment total window * max window 1 * transferChunk :=
      Nat.mul_le_mul_right _ (Nat.mul_le_mul_left _ (Nat.min_le_left _ _))
    _ = max window 1 * (blocksPerSegment total window * transferChunk) := by
      rw [Nat.mul_comm (blocksPerSegment total window), Nat.mul_assoc]

/-- **The length of a segment fits in 64 bits unless the file ends near `2 ^ 64` and has one segment.** -/
theorem span_lt_iff (h : 0 < total) (hu64 : total < 2 ^ 64) (window : ℕ) :
    blocksPerSegment total window * transferChunk < 2 ^ 64 ↔ 2 ≤ window ∨ total ≤ 2 ^ 64 - 2 ^ 15 := by
  have hbl : divCeil total transferChunk ≤ 2 ^ 49 := (divCeil_le_iff (by decide)).mpr (by rw [transferChunk_eq]; omega)
  have hf : divCeil total transferChunk ≤ 2 ^ 49 - 1 ↔ total ≤ 2 ^ 64 - 2 ^ 15 := by
    rw [divCeil_le_iff (by decide), transferChunk_eq]
    omega
  have hspan : blocksPerSegment total window * transferChunk < 2 ^ 64 ↔ blocksPerSegment total window ≤ 2 ^ 49 - 1 := by
    rw [transferChunk_eq]
    omega
  have hp := blocks_pos h
  rw [hspan, ← hf, blocksPerSegment]
  simp only [divCeil_le_iff (segments_pos h window)]
  rcases Nat.lt_or_ge window 2 with hw | hw
  · have ho : min (max window 1) (divCeil total transferChunk) = 1 := by omega
    rw [ho]
    omega
  refine iff_of_true ?_ (.inl hw)
  rcases Nat.le_total (divCeil total transferChunk) (max window 1) with hle | hle
  · rw [Nat.min_eq_right hle]
    omega
  · rw [Nat.min_eq_left hle]
    omega

/-- The length of a segment is at most `2 ^ 64`. -/
theorem span_le (h : 0 < total) (hu64 : total < 2 ^ 64) (window : ℕ) : blocksPerSegment total window * transferChunk ≤ 2 ^ 64 := by
  have hbl : divCeil total transferChunk ≤ 2 ^ 49 := (divCeil_le_iff (by decide)).mpr (by rw [transferChunk_eq]; omega)
  have hp : blocksPerSegment total window ≤ 2 ^ 49 := by
    refine (divCeil_le_iff (segments_pos h window)).mpr (hbl.trans ?_)
    exact Nat.le_mul_of_pos_right _ (segments_pos h window)
  rw [transferChunk_eq]
  omega

/-! ### Planning -/

/-- A loop with the length that was computed plans the segments. -/
theorem planned_of_span (h : 0 < total) (window : ℕ) : ∃ plan,
    planLoop (blocksPerSegment total window * transferChunk) total total 0 [] = .plan plan ∧ WellPlanned total window plan := by
  have hspan : 0 < blocksPerSegment total window * transferChunk := Nat.mul_pos (blocksPerSegment_pos h window) (by decide)
  obtain ⟨plan, hloop, hc, hf, ha⟩ := @planLoop_spec _ _ _ _ [] hspan (Nat.zero_le total) (sub_le total 0)
  refine ⟨plan, hloop, hc, hc.pairwise, ?_, fun s hs => ?_⟩
  · refine le_of_lt_succ (Nat.lt_of_mul_lt_mul_right (a := blocksPerSegment total window * transferChunk) ?_)
    rw [succ_mul]
    exact Nat.lt_of_lt_of_le hf (Nat.add_le_add_right (total_le_span h window) _)
  · have hd := dvd_of_mod_eq_zero ((ha s hs).trans (zero_mod _))
    exact mod_eq_zero_of_dvd ((Nat.dvd_mul_left transferChunk _).trans hd)

theorem planned_iff (checked : Bool) (hu64 : total < 2 ^ 64) (window : ℕ) :
    Planned checked total window ↔ 2 ≤ window ∨ total ≤ 2 ^ 64 - 2 ^ 15 := by
  by_cases hz : total = 0
  · refine iff_of_true ⟨0, [], by rw [planSegments, if_pos hz], ?_, .nil, Nat.zero_le _, nofun⟩ (.inr (by omega))
    exact hz.symm
  have hpos := Nat.pos_of_ne_zero hz
  have hi := span_lt_iff hpos hu64 window
  by_cases hspan : 2 ^ 64 ≤ blocksPerSegment total window * transferChunk
  · refine iff_of_false ?_ fun h => absurd (hi.mpr h) (Nat.not_lt.mpr hspan)
    rintro ⟨fuel, plan, hp, -⟩
    have he := Nat.le_antisymm (span_le hpos hu64 window) hspan
    rw [planSegments, if_neg hz] at hp
    simp only [if_pos hspan] at hp
    cases checked with
    | true => cases hp
    | false =>
      rw [if_neg Bool.false_ne_true, he, mod_self, planLoop_zero hpos] at hp
      cases hp
  · refine iff_of_true ?_ (hi.mp (Nat.lt_of_not_le hspan))
    obtain ⟨plan, hloop, hw⟩ := planned_of_span hpos window
    refine ⟨total, plan, ?_, hw⟩
    rw [planSegments, if_neg hz]
    simp only [if_neg hspan, hloop]

/-- **The segments are as they are to be exactly if the window is at least two, or the file ends a chunk below
`2 ^ 64`.** -/
theorem planSegments_iff (checked : Bool) (total : UInt64) (window : ℕ) :
    Planned checked total.toNat window ↔ 2 ≤ window ∨ total.toNat ≤ 2 ^ 64 - 2 ^ 15 :=
  planned_iff checked total.toNat_lt window

/-- One segment for the longest file. -/
theorem not_planned_longest :
    ¬ Planned true (UInt64.ofNat (2 ^ 64 - 1)).toNat 1 ∧ ¬ Planned false (UInt64.ofNat (2 ^ 64 - 1)).toNat 1 := by
  rw [planned_iff true (UInt64.toNat_lt _), planned_iff false (UInt64.toNat_lt _)]
  decide

end Pebrel.Sftp
