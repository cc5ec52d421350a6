import Mathlib.Data.List.Basic
import Zuzu.Types

/-!
# Time stamps of files (`fsd/fatfs/diskio.c`)

There is no wall clock: the time stamps count up from the start of 2025. `get_fattime` takes whole
years and then whole months off the days since boot, and packs what it finds into the fields of a
FAT time stamp, which has room up to the year 2107.

**Results.** `fattime_follows_time`: up to the end of 2107 the fields are those of a date and a time
of day, and a later time has a stamp that is not smaller, and larger unless the two seconds are the
same. Paths are relative to `user/services/`.
-/
namespace Zuzu.L6User.FatTime

/-- mirrors fsd/fatfs/diskio.c:196 -/
def isLeap (y : Nat) : Bool := y % 4 = 0 && y % 100 != 0 || y % 400 = 0

def yearDays (y : Nat) : Nat := if isLeap y then 366 else 365

/-- mirrors fsd/fatfs/diskio.c:200 -/
def monthTable : List Nat := [31, 28, 31, 30, 31, 30, 31, 31, 30, 31, 30, 31]

/-- The days of month `mon`, counted from 0; there is no entry past the last month.
mirrors fsd/fatfs/diskio.c:211-212 -/
def monthDays (y mon : Nat) : Nat :=
  monthTable.getD mon 1 + if mon == 1 && isLeap y then 1 else 0

/-- The two loops: whole units, of `len i` days each, are taken off. -/
def takeWhole (len : Nat → Nat) (hlen : ∀ i, 0 < len i) (i days : Nat) : Nat × Nat :=
  if len i ≤ days then takeWhole len hlen (i + 1) (days - len i) else (i, days)
termination_by days
decreasing_by
  have := hlen i
  omega

theorem yearDays_pos (y : Nat) : 0 < yearDays y := by
  unfold yearDays
  split <;> decide

theorem monthDays_pos (y mon : Nat) : 0 < monthDays y mon := by
  have h : 0 < monthTable.getD mon 1 := by
    by_cases hm : mon < 12
    · revert mon
      decide
    · rw [List.getD_eq_getElem?_getD, List.getElem?_eq_none (Nat.not_lt.mp hm)]
      decide
  exact Nat.lt_of_lt_of_le h (Nat.le_add_right _ _)

/-- mirrors fsd/fatfs/diskio.c:216-218 -/
def pack (year mon day hour min sec2 : Nat) : BitVec 32 :=
  BitVec.ofNat 32 (year - 1980) <<< 25 ||| BitVec.ofNat 32 (mon + 1) <<< 21 |||
    BitVec.ofNat 32 (day + 1) <<< 16 ||| BitVec.ofNat 32 hour <<< 11 |||
    BitVec.ofNat 32 min <<< 5 ||| BitVec.ofNat 32 sec2

/-- mirrors fsd/fatfs/diskio.c:198-219; `s` is the uptime in seconds -/
def getFattime (s : Nat) : BitVec 32 :=
  let days := s / 86400 % 2 ^ 32
  let secs := s % 86400
  let y := takeWhole yearDays yearDays_pos 2025 days
  let m := takeWhole (monthDays y.1) (monthDays_pos y.1) 0 y.2
  pack y.1 m.1 m.2 (secs / 3600) (secs / 60 % 60) (secs % 60 / 2)

/-! ## Units of days -/

variable {len : Nat → Nat} {i n n' r r' : Nat}

/-- The days of `n` units from unit `i` on. -/
def span (len : Nat → Nat) (i : Nat) : Nat → Nat
  | 0 => 0
  | n + 1 => span len i n + len (i + n)

theorem span_mono (h : n ≤ n') : span len i n ≤ span len i n' := by
  induction h with
  | refl => exact Nat.le_refl _
  | step _ ih => exact Nat.le_trans ih (Nat.le_add_right _ _)

theorem span_cons : span len i (n + 1) = len i + span len (i + 1) n := by
  induction n with
  | zero => simp [span]
  | succ n ih =>
    rw [span, ih, span, Nat.add_assoc, Nat.add_right_comm i]
    rfl

/-- What is left after `n` units is part of the next one. -/
theorem takeWhole_spec (hlen : ∀ i, 0 < len i) (i days : Nat) :
    ∃ n r, takeWhole len hlen i days = (i + n, r) ∧ span len i n + r = days ∧ r < len (i + n) := by
  fun_induction takeWhole len hlen i days with
  | case1 i days h ih =>
    obtain ⟨n, r, hi, hs, hr⟩ := ih
    refine ⟨n + 1, r, ?_, ?_, ?_⟩
    · rw [hi, Nat.add_assoc, Nat.add_comm 1]
    · rw [span_cons]
      omega
    · rwa [Nat.add_assoc, Nat.add_comm 1] at hr
  | case2 i days h => exact ⟨0, days, rfl, Nat.zero_add _, Nat.not_le.mp h⟩

/-- A later day is in a later unit, or later in the same one. -/
theorem unit_le (h : span len i n + r ≤ span len i n' + r') (hr : r' < len (i + n')) :
    n < n' ∨ n = n' ∧ r ≤ r' := by
  rcases Nat.lt_trichotomy n n' with hn | rfl | hn
  · exact .inl hn
  · exact .inr ⟨rfl, by omega⟩
  · have : span len i n' + len (i + n') ≤ span len i n := span_mono (n := n' + 1) hn
    omega

/-! ## The fields -/

variable {y m d h mi c : Nat}

/-- A field is put below those that are there. -/
theorem push {x : BitVec 32} {a v : Nat} (k j : Nat) (hx : x.toNat = a * 2 ^ (k + j))
    (hv : v < 2 ^ j) (hkj : k + j ≤ 32) :
    (x ||| BitVec.ofNat 32 v <<< k).toNat = (a * 2 ^ j + v) * 2 ^ k := by
  have hlt : v * 2 ^ k < 2 ^ (k + j) := by
    rw [Nat.pow_add, Nat.mul_comm]
    exact Nat.mul_lt_mul_of_pos_left hv (Nat.two_pow_pos k)
  have hw : 2 ^ (k + j) ≤ 2 ^ 32 := Nat.pow_le_pow_right (by decide) hkj
  have hv' : v ≤ v * 2 ^ k := Nat.le_mul_of_pos_right v (Nat.two_pow_pos k)
  rw [BitVec.toNat_or, BitVec.toNat_shiftLeft, BitVec.toNat_ofNat, Nat.shiftLeft_eq,
    Nat.mod_eq_of_lt (by omega : v < 2 ^ 32), Nat.mod_eq_of_lt (by omega), hx, Nat.mul_comm a,
    ← Nat.two_pow_add_eq_or_of_lt hlt]
  rw [Nat.add_mul, Nat.mul_assoc a, ← Nat.pow_add, Nat.add_comm j, Nat.mul_comm a]

/-- The stamp as a number. -/
theorem pack_toNat (hy : y - 1980 < 128) (hm : m + 1 < 16) (hd : d + 1 < 32) (hh : h < 32)
    (hmi : mi < 64) (hc : c < 32) : (pack y m d h mi c).toNat =
      (((((y - 1980) * 16 + (m + 1)) * 32 + (d + 1)) * 32 + h) * 64 + mi) * 32 + c := by
  have h0 : (BitVec.ofNat 32 (y - 1980) <<< 25).toNat = (y - 1980) * 2 ^ (21 + 4) := by
    rw [BitVec.toNat_shiftLeft, BitVec.toNat_ofNat, Nat.shiftLeft_eq]
    omega
  have h1 := push 21 4 h0 hm (by decide)
  have h2 := push 16 5 h1 hd (by decide)
  have h3 := push 11 5 h2 hh (by decide)
  have h4 := push 5 6 h3 hmi (by decide)
  simpa [pack] using push 0 5 h4 hc (by decide)

/-- The fields of a stamp are those of a date and a time of day. -/
structure Valid (v : Nat) : Prop where
  mon : 1 ≤ v / 2 ^ 21 % 16 ∧ v / 2 ^ 21 % 16 ≤ 12
  day : 1 ≤ v / 2 ^ 16 % 32 ∧ v / 2 ^ 16 % 32 ≤ monthDays (v / 2 ^ 25 + 1980) (v / 2 ^ 21 % 16 - 1)
  hour : v / 2 ^ 11 % 32 < 24
  min : v / 2 ^ 5 % 64 < 60
  sec2 : v % 32 < 30

/-- The months make up the year. -/
theorem span_months (y : Nat) : span (monthDays y) 0 12 = yearDays y := by
  simp only [span, monthDays, yearDays]
  cases isLeap y <;> rfl

theorem monthDays_le (hm : m < 12) : monthDays y m ≤ 31 := by
  unfold monthDays
  cases isLeap y <;> (revert m; decide)

/-- Where second `s` is found: in year `2025 + n`, month `m` and day `d`, both counted from 0. -/
structure Found (s n m d h mi c v : Nat) : Prop where
  days : span yearDays 2025 n + (span (monthDays (2025 + n)) 0 m + d) = s / 86400
  year : span (monthDays (2025 + n)) 0 m + d < yearDays (2025 + n)
  day : d < monthDays (2025 + n) m
  mon : m < 12
  secs : h * 1800 + mi * 30 + c = s % 86400 / 2
  clock : s % 86400 / 2 / 1800 = h ∧ s % 86400 / 2 / 30 = h * 60 + mi ∧ mi < 60 ∧ c < 30
  stamp : v = (((45 + n) * 16 + (m + 1)) * 32 + (d + 1)) * 65536 + (h * 2048 + mi * 32 + c)

variable {s s' : Nat}

theorem found (hs : s < 30314 * 86400) :
    ∃ n m d h mi c, Found s n m d h mi c (getFattime s).toNat := by
  obtain ⟨n, r, hy, hdays, hyear⟩ := takeWhole_spec yearDays_pos 2025 (s / 86400 % 2 ^ 32)
  obtain ⟨m, d, hm, hmon, hday⟩ := takeWhole_spec (monthDays_pos (2025 + n)) 0 r
  rw [Nat.zero_add] at hm hday
  have hn : n < 83 := by
    by_contra hn
    have hle : span yearDays 2025 83 ≤ span yearDays 2025 n := span_mono (Nat.not_lt.mp hn)
    rw [show span yearDays 2025 83 = 30314 by decide] at hle
    omega
  have hm12 : m < 12 := by
    by_contra hm12
    have hle : yearDays (2025 + n) ≤ span (monthDays (2025 + n)) 0 m :=
      span_months _ ▸ span_mono (Nat.not_lt.mp hm12)
    omega
  have hd := monthDays_le (y := 2025 + n) hm12
  refine ⟨n, m, d, s % 86400 / 3600, s % 86400 / 60 % 60, s % 86400 % 60 / 2, by omega, by omega,
    hday, hm12, by omega, by omega, ?_⟩
  simp only [getFattime, hy, hm]
  rw [pack_toNat (by omega) (by omega) (by omega) (by omega) (by omega) (by omega)]
  omega

theorem Found.valid {v : Nat} (hf : Found s n m d h mi c v) : Valid v := by
  have hh : h < 24 := by
    have := hf.secs
    omega
  obtain ⟨-, -, hmi, hc⟩ := hf.clock
  have hm := hf.mon
  have hd := hf.day
  have h31 := monthDays_le (y := 2025 + n) hm
  have hv := hf.stamp
  have hdate : v / 2 ^ 16 = ((45 + n) * 16 + (m + 1)) * 32 + (d + 1) := by omega
  have hmon : v / 2 ^ 21 = (45 + n) * 16 + (m + 1) := by
    rw [Nat.pow_add 2 16 5, ← Nat.div_div_eq_div_mul, hdate]
    omega
  have hyear : v / 2 ^ 25 = 45 + n := by
    rw [Nat.pow_add 2 21 4, ← Nat.div_div_eq_div_mul, hmon]
    omega
  have hm1 : v / 2 ^ 21 % 16 = m + 1 := by omega
  have hd1 : v / 2 ^ 16 % 32 = d + 1 := by omega
  have hy1 : v / 2 ^ 25 + 1980 = 2025 + n := by omega
  refine ⟨by omega, ?_, by omega, by omega, by omega⟩
  rw [hy1, hm1, hd1]
  exact ⟨Nat.le_add_left _ _, hd⟩

theorem stamp_lt {a a' t t' : Nat} (ha : a < a') (ht : t < 65536) :
    a * 65536 + t ≤ a' * 65536 + t' ∧ (s / 2 ≠ s' / 2 → a * 65536 + t < a' * 65536 + t') := by
  omega

/-- Up to the end of 2107 the stamps are dates and times of day and grow with the time. -/
theorem fattime_follows_time (hlt : s < s') (hend : s' < 30314 * 86400) :
    Valid (getFattime s).toNat ∧ Valid (getFattime s').toNat ∧
      (getFattime s).toNat ≤ (getFattime s').toNat ∧
      (s / 2 ≠ s' / 2 → (getFattime s).toNat < (getFattime s').toNat) := by
  obtain ⟨n, m, d, h, mi, c, hf⟩ := found (Nat.lt_trans hlt hend)
  obtain ⟨n', m', d', h', mi', c', hf'⟩ := found hend
  refine ⟨hf.valid, hf'.valid, ?_⟩
  have hday := hf.day
  have h31 := monthDays_le (y := 2025 + n) hf.mon
  have hm := hf.mon
  have hsecs := hf.secs
  obtain ⟨-, -, hmi, hc⟩ := hf.clock
  have ht : h * 2048 + mi * 32 + c < 65536 := by omega
  have hle : s / 86400 ≤ s' / 86400 := Nat.div_le_div_right (Nat.le_of_lt hlt)
  rw [hf.stamp, hf'.stamp]
  rw [← hf.days, ← hf'.days] at hle
  rcases unit_le hle hf'.year with hn | ⟨rfl, hr⟩
  · exact stamp_lt (by omega) ht
  rcases unit_le hr (by rw [Nat.zero_add]; exact hf'.day) with hmon | ⟨rfl, hd⟩
  · exact stamp_lt (by omega) ht
  rcases Nat.lt_or_eq_of_le hd with hd | rfl
  · exact stamp_lt (by omega) ht
  · -- on the same day: the hours, the minutes and the seconds of the day grow together
    have hsame := hf.days.symm.trans hf'.days
    have h2 : s % 86400 / 2 ≤ s' % 86400 / 2 ∧
        (s / 2 ≠ s' / 2 → s % 86400 / 2 < s' % 86400 / 2) := by omega
    have hhour := Nat.div_le_div_right (c := 1800) h2.1
    have hmin := Nat.div_le_div_right (c := 30) h2.1
    rw [hf.clock.1, hf'.clock.1] at hhour
    rw [hf.clock.2.1, hf'.clock.2.1] at hmin
    rw [← hf.secs, ← hf'.secs] at h2
    omega

theorem fattime_follows_day :
    Valid (getFattime 86399).toNat ∧ Valid (getFattime 86400).toNat ∧
      (getFattime 86399).toNat ≤ (getFattime 86400).toNat ∧
      (86399 / 2 ≠ 86400 / 2 → (getFattime 86399).toNat < (getFattime 86400).toNat) :=
  fattime_follows_time (by decide) (by decide)

end Zuzu.L6User.FatTime
