import Pebrel.Library.Calendar
import Pebrel.Library.Decimal

/-!
# The names of remote archives

A backup sent to a remote place is named after the second it is made in
(`backup_remote.rs`): the name has the date and the time of day in UTC, which the
backup computes from the Unix time itself. The newest archive is then found by its
name alone, without the times that the servers report.
-/

namespace Pebrel.Backup

open Library List Nat Option Int
open Calendar Decimal

/-! ### Dates -/

/-- The fields that `utc_parts` returns. -/
structure UtcParts where
  year : ℤ
  month : ℕ
  day : ℕ
  hour : ℕ
  minute : ℕ
  second : ℕ

def utcParts (secs : ℕ) : UtcParts :=
  let days : ℤ := (secs / 86400 : ℕ)
  let rem := secs % 86400
  let z := days + 719468
  let era := z / 146097
  let doe := z % 146097
  let yoe := (doe - doe.tdiv 1460 + doe.tdiv 36524 - doe.tdiv 146096).tdiv 365
  let doy := doe - (365 * yoe + yoe.tdiv 4 - yoe.tdiv 100)
  let mp := (5 * doy + 2).tdiv 153
  let day := doy - (153 * mp + 2).tdiv 5 + 1
  let month := if mp < 10 then mp + 3 else mp - 9
  let year := yoe + era * 400 + (if month ≤ 2 then 1 else 0)
  ⟨year, month.toNat, day.toNat, rem / 3600, rem % 3600 / 60, rem % 60⟩

/-- The first day of Unix time. -/
def epoch : Date := ⟨1970, 1, 1, by decide, by decide, by decide⟩

/-- Fields are the date and the time of day of a Unix time: they count as many seconds as have passed. -/
def IsUtc (secs : ℕ) (p : UtcParts) : Prop :=
  ∃ d : Date, p.year = d.year ∧ p.month = d.month ∧ p.day = d.day ∧ p.hour < 24 ∧ p.minute < 60 ∧ p.second < 60 ∧
    86400 * d.dayNumber + 3600 * p.hour + 60 * p.minute + p.second = 86400 * epoch.dayNumber + secs

/-! ### Names -/

/-- `ARCHIVE_PREFIX`. -/
def archiveStart : Text := "pebrel-backup-".toList

def archiveSuffix : Text := ".nbk".toList

/-- The text `{year:04}` of a year, which has a sign where it is negative. -/
def padYear (y : ℤ) : Text := if 0 ≤ y then padZero 4 y.toNat else '-' :: padZero 3 (-y).toNat

/-- The time stamp of a name. -/
def stamp (p : UtcParts) : Text :=
  padYear p.year ++ (padZero 2 p.month ++ (padZero 2 p.day ++
    '-' :: (padZero 2 p.hour ++ (padZero 2 p.minute ++ padZero 2 p.second))))

def archiveName (secs : ℕ) : Text := archiveStart ++ stamp (utcParts secs) ++ archiveSuffix

/-- Whether a text is a time stamp: eight digits, a hyphen and six digits. -/
def isStamp (t : Text) : Bool :=
  Text.byteLen t = 15 && t.zipIdx.all fun e => if e.2 = 8 then e.1 = '-' else e.1.isDigit

def archiveTimestamp (name : Text) : Option Text :=
  ((name.dropPrefix? archiveStart).bind (·.dropSuffix? archiveSuffix)).filter isStamp

def isArchiveName (name : Text) : Bool := (archiveTimestamp name).isSome

/-! ### The date of a day -/

variable {y k secs s : ℕ} {p q : UtcParts}

/-- A year beginning in March, from `0` to `399`, and the day in it: what `yoe` and `doy` are computed from. -/
theorem year_of_era {doe : ℕ} (hy : y < 400) (hk : k < yearLength (y + 1)) (hd : doe = marchDays y + k) :
    doe < 146097 ∧ (doe - doe / 1460 + doe / 36524 - doe / 146096) / 365 = y := by
  obtain ⟨c, q, r, hc, hq, hr, rfl⟩ : ∃ c q r, c ≤ 3 ∧ q ≤ 24 ∧ r ≤ 3 ∧ y = 100 * c + 4 * q + r :=
    ⟨y / 100, y % 100 / 4, y % 4, by omega, by omega, by omega, by omega⟩
  have hl : k ≤ 365 ∧ (k = 365 → r = 3 ∧ (q = 24 → c = 3)) := by
    by_cases hleap : Leap (100 * c + 4 * q + r + 1)
    · rw [yearLength, if_pos hleap] at hk
      obtain ⟨h4, h100⟩ := hleap
      refine ⟨by omega, fun _ => ⟨by omega, fun hq24 => ?_⟩⟩
      subst hq24
      omega
    · rw [yearLength, if_neg hleap] at hk
      omega
  have hs : doe = 36524 * c + 1461 * q + 365 * r + k := by
    rw [hd, marchDays, leaps]
    omega
  obtain ⟨hk, hl⟩ := hl
  have hrest : 1461 * q + 365 * r + k < 36524 ∨ 1461 * q + 365 * r + k = 36524 ∧ c = 3 := by omega
  have hcen : doe / 36524 - doe / 146096 = c ∧ doe / 146096 ≤ doe / 36524 := by
    rcases hrest with hrest | ⟨hrest, rfl⟩
    · rw [div_eq_of_lt (show doe < 146096 by omega), show doe / 36524 = c by omega]
      simp
    · rw [show doe = 146096 by omega]
      simp
  -- the years of four years' days, of which one may have been counted with its leap day
  obtain ⟨e, he⟩ : ∃ e, e = (24 * c + q + 365 * r + k) / 1460 := ⟨_, rfl⟩
  have hfour : doe / 1460 = 25 * c + q + e := by
    rw [he, ← mul_add_div (by decide)]
    congr 1
    omega
  have hle : e ≤ 1 := by omega
  have hek : e ≤ k := by rw [he]; omega
  have hleap : k = 365 → e = 1 := by omega
  refine ⟨by omega, ?_⟩
  rw [hfour]
  omega

/-- The month that a day of a year beginning in March lies in: what `mp` is computed from. -/
theorem month_of_march (j : ℕ) (hj : j = (5 * k + 2) / 153) : (153 * j + 2) / 5 ≤ k ∧ k < (153 * (j + 1) + 2) / 5 := by
  omega

/-- **A day of a year beginning in March is a date** of the year or, in January and February, of the next. -/
theorem date_of_march (hk : k < yearLength (y + 1)) (j : ℕ) (hj : j = (5 * k + 2) / 153) :
    ∃ d : Date, d.dayNumber = marchDays y + k + 60 ∧ d.day = k - (153 * j + 2) / 5 + 1 ∧
      d.month = (if j < 10 then j + 3 else j - 9) ∧ d.year = y + if d.month ≤ 2 then 1 else 0 := by
  obtain ⟨hst, he⟩ := month_of_march j hj
  by_cases hj10 : j < 10
  · obtain ⟨hb, hleng⟩ := month_from_march hj10 y
    have hyear := daysBeforeYear_eq y
    refine ⟨⟨y, j + 3, k - (153 * j + 2) / 5 + 1, by omega, by omega, by rw [hleng]; omega⟩, ?_, rfl, (if_pos hj10).symm, ?_⟩
    · simp only [Date.dayNumber, hb]
      omega
    · rw [if_neg (by simp), add_zero]
  · have hyear := daysBeforeYear_succ y
    have hl : yearLength (y + 1) ≤ 366 := by simp only [yearLength]; split <;> omega
    obtain rfl | rfl : j = 10 ∨ j = 11 := by omega
    · refine ⟨⟨y + 1, 1, k - 306 + 1, by decide, by omega, ?_⟩, ?_, rfl, rfl, rfl⟩
      · simp only [monthLength]
        omega
      · simp only [Date.dayNumber, daysBeforeMonth, monthLength, marchDays]
        omega
    · refine ⟨⟨y + 1, 2, k - 337 + 1, by decide, by omega, ?_⟩, ?_, rfl, rfl, rfl⟩
      · by_cases hleap : Leap (y + 1)
        · simp only [yearLength, monthLength, if_pos hleap] at hk ⊢
          omega
        · simp only [yearLength, monthLength, if_neg hleap] at hk ⊢
          omega
      · simp only [Date.dayNumber, daysBeforeMonth, monthLength, marchDays]
        omega

/-- What `utc_parts` computes from a day, in terms of the year beginning in March that it lies in. -/
theorem utcParts_eq {e : ℕ} (hz : secs / 86400 + 719468 = 146097 * e + (marchDays y + k)) (hy : y < 400)
    (hk : k < yearLength (y + 1)) (d : Date) (hday : d.day = k - (153 * ((5 * k + 2) / 153) + 2) / 5 + 1)
    (hmon : d.month = if (5 * k + 2) / 153 < 10 then (5 * k + 2) / 153 + 3 else (5 * k + 2) / 153 - 9)
    (hyear : d.year = 400 * e + y + if d.month ≤ 2 then 1 else 0) :
    utcParts secs = ⟨d.year, d.month, d.day, secs % 86400 / 3600, secs % 86400 % 3600 / 60, secs % 86400 % 60⟩ := by
  obtain ⟨doe, hd⟩ : ∃ doe, doe = marchDays y + k := ⟨_, rfl⟩
  obtain ⟨j, hj⟩ : ∃ j, j = (5 * k + 2) / 153 := ⟨_, rfl⟩
  obtain ⟨hlt, hyoe⟩ := year_of_era hy hk hd
  obtain ⟨hst, -⟩ := month_of_march j hj
  rw [← hj] at hday hmon
  have he : (((secs / 86400 : ℕ) : ℤ) + 719468) / 146097 = e := by omega
  have hr : (((secs / 86400 : ℕ) : ℤ) + 719468) % 146097 = doe := by omega
  have hyea : ((doe : ℤ) - (doe : ℤ).tdiv 1460 + (doe : ℤ).tdiv 36524 - (doe : ℤ).tdiv 146096).tdiv 365 = y := by
    have hcast : (doe : ℤ) - (doe : ℤ) / 1460 + (doe : ℤ) / 36524 - (doe : ℤ) / 146096 =
        ((doe - doe / 1460 + doe / 36524 - doe / 146096 : ℕ) : ℤ) := by
      omega
    simp only [tdiv_eq_ediv_of_nonneg (natCast_nonneg _), hcast]
    omega
  have hdays : (doe : ℤ) - (365 * (y : ℤ) + (y : ℤ).tdiv 4 - (y : ℤ).tdiv 100) = k := by
    simp only [tdiv_eq_ediv_of_nonneg (natCast_nonneg _)]
    rw [hd, marchDays, leaps]
    omega
  have hmont : (5 * (k : ℤ) + 2).tdiv 153 = j := by
    rw [tdiv_eq_ediv_of_nonneg (by omega)]
    omega
  have hf : (153 * (j : ℤ) + 2).tdiv 5 = ((153 * j + 2) / 5 : ℕ) := by
    rw [tdiv_eq_ediv_of_nonneg (by omega)]
    omega
  have hm : (if (j : ℤ) < 10 then (j : ℤ) + 3 else (j : ℤ) - 9) = d.month := by
    rw [hmon]
    split <;> split <;> omega
  simp only [utcParts, he, hr, hyea, hdays, hmont, hf, hm, UtcParts.mk.injEq, and_true]
  refine ⟨?_, toNat_natCast _, by omega⟩
  rw [hyear]
  push_cast
  split <;> split <;> omega

/-- The days before the epoch. -/
theorem dayNumber_epoch : epoch.dayNumber = 719528 := by
  simp [Date.dayNumber, epoch, daysBeforeYear_succ, leaps, daysBeforeMonth, monthLength]

/-- **The fields are the date and the time of day of the second**. -/
theorem utcParts_isUtc (secs : ℕ) : IsUtc secs (utcParts secs) := by
  obtain ⟨year, k, hz, hk⟩ := exists_marchDays (secs / 86400 + 719468)
  have hyear : 400 * (year / 400) + year % 400 = year := div_add_mod year 400
  have hl : yearLength (year % 400 + 1) = yearLength (year + 1) := by
    rw [yearLength, yearLength, show year + 1 = 400 * (year / 400) + (year % 400 + 1) by omega]
    simp only [leap_add_era]
  obtain ⟨d, hn, hd, hm, hy⟩ := date_of_march hk _ rfl
  refine ⟨d, ?_⟩
  rw [utcParts_eq (e := year / 400) (y := year % 400) (k := k) ?_ (mod_lt _ (by decide)) (hl ▸ hk) d hd hm (hyear.symm ▸ hy)]
  · refine ⟨rfl, rfl, rfl, ?_⟩
    have he := dayNumber_epoch
    simp only
    omega
  · rw [hz, ← add_assoc, ← marchDays_add_era, hyear]

/-- A time has one date and time of day. -/
theorem IsUtc.unique (hp : IsUtc secs p) (hq : IsUtc secs q) : p = q := by
  obtain ⟨d, hy, hm, hd, hh, hmin, hs, hsum⟩ := hp
  obtain ⟨e, hy', hm', hd', hh', hmin', hs', hsum'⟩ := hq
  obtain rfl : d = e := Date.dayNumber_inj (by omega)
  cases p
  cases q
  simp_all
  omega

/-! ### The order of the names -/

/-- The fields of a later time come later in the order of the fields. -/
theorem IsUtc.lex {t : ℕ} (hp : IsUtc s p) (hq : IsUtc t q) (h : s < t) :
    p.year < q.year ∨ p.year = q.year ∧ (p.month < q.month ∨ p.month = q.month ∧ (p.day < q.day ∨ p.day = q.day ∧
      (p.hour < q.hour ∨ p.hour = q.hour ∧ (p.minute < q.minute ∨ p.minute = q.minute ∧ p.second < q.second)))) := by
  obtain ⟨d, hy, hm, hd, hh, hmin, hs, hsum⟩ := hp
  obtain ⟨e, hy', hm', hd', hh', hmin', hs', hsum'⟩ := hq
  rcases Date.earlier_or d e with hde | rfl | hed
  · simp only [Date.Earlier] at hde
    omega
  · omega
  · have := hed.dayNumber_lt
    omega

/-- A date has at most two digits for the month and for the day. -/
theorem IsUtc.bounds (h : IsUtc secs p) :
    0 ≤ p.year ∧ p.month < 10 ^ 2 ∧ p.day < 10 ^ 2 ∧ p.hour < 10 ^ 2 ∧ p.minute < 10 ^ 2 ∧ p.second < 10 ^ 2 := by
  obtain ⟨d, hy, hm, hd, hh, hmin, hs, -⟩ := h
  have hmon := d.month_le
  have hday := d.day_le
  have hl : monthLength d.year d.month ≤ 31 := by
    simp only [monthLength]
    split <;> try split
    all_goals decide
  refine ⟨by omega, by omega, by omega, by omega, by omega, by omega⟩

/-- The stamp of an earlier time is smaller, as long as the year has four digits. -/
theorem stamp_lt {t : ℕ} (hp : IsUtc s p) (hq : IsUtc t q) (h : s < t) (hyear : q.year < 10000) : stamp p < stamp q := by
  obtain ⟨hpy, hpm, hpd, hph, hpi, hps⟩ := hp.bounds
  obtain ⟨hqy, hqm, hqd, hqh, hqi, hqs⟩ := hq.bounds
  have hl := hp.lex hq h
  simp only [stamp, padYear, if_pos hpy, if_pos hqy]
  refine padZero_append_lt (by decide) (by omega) (by omega) ?_
  refine hl.imp (fun hlt => by omega) (fun ⟨heq, hl⟩ => ⟨by rw [heq], ?_⟩)
  refine padZero_append_lt (by decide) hpm hqm (hl.imp_right fun ⟨heq, hl⟩ => ⟨heq, ?_⟩)
  refine padZero_append_lt (by decide) hpd hqd (hl.imp_right fun ⟨heq, hl⟩ => ⟨heq, ?_⟩)
  rw [cons_lt_cons_iff]
  refine .inr ⟨rfl, padZero_append_lt (by decide) hph hqh (hl.imp_right fun ⟨heq, hl⟩ => ⟨heq, ?_⟩)⟩
  rcases hl with hlt | ⟨heq, hlt⟩
  · exact padZero_append_lt (by decide) hpi hqi (.inl hlt)
  · exact padZero_append_lt (by decide) hpi hqi (.inr ⟨heq, padZero_lt (by decide) hlt hqs⟩)

/-- Digits and hyphens take one byte each. -/
theorem byteLen_of_stampChars {t : Text} (h : ∀ c ∈ t, c = '-' ∨ c.isDigit = true) : Text.byteLen t = t.length := by
  have ho : ∀ c ∈ t, c.utf8Size = 1 := by
    intro c hc
    rcases h c hc with rfl | hd
    · rfl
    · have hle : c.toNat ≤ 57 := of_decide_eq_true (Bool.and_eq_true_iff.mp hd).2
      rw [Char.utf8Size_eq_one_iff]
      exact Nat.le_trans hle (by decide)
  rw [Text.byteLen, map_congr_left ho, map_const', sum_replicate_nat, mul_one]

/-- Eight digits, a hyphen and six digits are a time stamp. -/
theorem isStamp_append {date time : Text} (hdate : ∀ c ∈ date, c.isDigit = true) (htime : ∀ c ∈ time, c.isDigit = true)
    (hd : date.length = 8) (ht : time.length = 6) : isStamp (date ++ '-' :: time) = true := by
  have hcha : ∀ c ∈ date ++ '-' :: time, c = '-' ∨ c.isDigit = true := by
    simp only [mem_append, mem_cons]
    rintro c (hc | hc | hc)
    · exact .inr (hdate c hc)
    · exact .inl hc
    · exact .inr (htime c hc)
  have hl : Text.byteLen (date ++ '-' :: time) = 15 := by
    rw [byteLen_of_stampChars hcha]
    simp [hd, ht]
  simp only [isStamp, hl, decide_true, Bool.true_and, List.all_eq_true]
  rintro ⟨c, i⟩ hm
  rw [mem_zipIdx_iff_getElem?] at hm
  rcases lt_trichotomy i 8 with hi | rfl | hi
  · rw [getElem?_append_left (by omega)] at hm
    rw [if_neg (by simp; omega)]
    exact hdate c (mem_of_getElem? hm)
  · rw [getElem?_append_right (by omega), hd] at hm
    simpa [eq_comm] using hm
  · rw [getElem?_append_right (by omega), hd, show i - 8 = i - 9 + 1 by omega, getElem?_cons_succ] at hm
    rw [if_neg (by simp; omega)]
    exact htime c (mem_of_getElem? hm)

/-- A time stamp consists of digits and a hyphen. -/
theorem stampChars_of_isStamp {t : Text} (h : isStamp t = true) : ∀ c ∈ t, c = '-' ∨ c.isDigit = true := by
  simp only [isStamp, Bool.and_eq_true, List.all_eq_true] at h
  intro c hc
  obtain ⟨i, hi⟩ := mem_iff_getElem?.1 hc
  have hc := h.2 (c, i) (mem_zipIdx_iff_getElem?.2 hi)
  split at hc
  · exact .inl (of_decide_eq_true hc)
  · exact .inr hc

/-- A time stamp has fifteen characters. -/
theorem length_of_isStamp {t : Text} (h : isStamp t = true) : t.length = 15 := by
  rw [← byteLen_of_stampChars (stampChars_of_isStamp h)]
  simp only [isStamp, Bool.and_eq_true, decide_eq_true_eq] at h
  exact h.1

/-- The stamp of a time with a year of four digits is a time stamp. -/
theorem isStamp_stamp (h : IsUtc secs p) (hyear : p.year < 10000) : isStamp (stamp p) = true := by
  obtain ⟨hy, hm, hd, hh, hmin, hs⟩ := h.bounds
  have hsp : stamp p = (padZero 4 p.year.toNat ++ padZero 2 p.month ++ padZero 2 p.day) ++
      '-' :: (padZero 2 p.hour ++ padZero 2 p.minute ++ padZero 2 p.second) := by
    simp [stamp, padYear, hy]
  rw [hsp]
  refine isStamp_append ?_ ?_ ?_ ?_
  · simp only [mem_append]
    rintro c ((hc | hc) | hc) <;> exact isDigit_of_mem_padZero hc
  · simp only [mem_append]
    rintro c ((hc | hc) | hc) <;> exact isDigit_of_mem_padZero hc
  · rw [length_append, length_append, length_padZero (by decide) (by omega), length_padZero (by decide) hm, length_padZero (by decide) hd]
  · rw [length_append, length_append, length_padZero (by decide) hh, length_padZero (by decide) hmin, length_padZero (by decide) hs]

/-- A time stamp between the two parts of a name is the time stamp of the name. -/
theorem archiveTimestamp_eq_some {name t : Text} :
    archiveTimestamp name = some t ↔ name = archiveStart ++ t ++ archiveSuffix ∧ isStamp t = true := by
  simp only [archiveTimestamp, filter_eq_some_iff, bind_eq_some_iff, dropPrefix?_eq_some_iff, dropSuffix?_eq_some_iff, beq_iff_eq]
  constructor
  · rintro ⟨⟨_, ⟨_, rfl, rfl⟩, _, rfl, rfl⟩, h⟩
    exact ⟨(append_assoc _ _ _).symm, h⟩
  · rintro ⟨rfl, h⟩
    exact ⟨⟨_, ⟨_, append_assoc _ _ _, rfl⟩, _, rfl, rfl⟩, h⟩

/-- A later time has a later year, or the same. -/
theorem year_mono {t : ℕ} (h : s ≤ t) : (utcParts s).year ≤ (utcParts t).year := by
  rcases Nat.eq_or_lt_of_le h with rfl | hlt
  · exact le_rfl
  · have hl := (utcParts_isUtc s).lex (utcParts_isUtc t) hlt
    omega

/-- **Archive names order like time**: the fields that a name is made from are the date and the time of day in UTC,
and of no other time, and up to the year `9999` a later name is accepted as a name and is greater. -/
theorem archive_names_order_like_time :
    (∀ secs p, IsUtc secs p ↔ p = utcParts secs) ∧
      ∀ s t, s < t → (utcParts t).year < 10000 →
        archiveTimestamp (archiveName s) = some (stamp (utcParts s)) ∧ isArchiveName (archiveName t) = true ∧
          archiveName s < archiveName t := by
  refine ⟨fun secs p => ⟨fun h => h.unique (utcParts_isUtc secs), fun h => h ▸ utcParts_isUtc secs⟩, ?_⟩
  intro s t hst hyear
  have hs := utcParts_isUtc s
  have ht := utcParts_isUtc t
  have hyear' : (utcParts s).year < 10000 := (year_mono hst.le).trans_lt hyear
  refine ⟨archiveTimestamp_eq_some.2 ⟨rfl, isStamp_stamp hs hyear'⟩, ?_, ?_⟩
  · rw [isArchiveName, archiveName, archiveTimestamp_eq_some.2 ⟨rfl, isStamp_stamp ht hyear⟩]
    rfl
  · rw [archiveName, archiveName, append_assoc, append_assoc]
    refine append_left_lt (append_lt_append ?_ (stamp_lt hs ht hst hyear) _ _)
    rw [length_of_isStamp (isStamp_stamp hs hyear'), length_of_isStamp (isStamp_stamp ht hyear)]

/-- A leap day and a day of a later year. -/
theorem archive_names_order_like_time_leap_day : archiveName 1582934400 < archiveName 1786598340 :=
  (archive_names_order_like_time.2 1582934400 1786598340 (by decide) (by decide)).2.2

example : archiveName 1786598340 = "pebrel-backup-20260813-051900.nbk".toList := by decide

end Pebrel.Backup
