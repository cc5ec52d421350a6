import Mathlib.Data.BitVec
import Mathlib.Tactic.Ring

/-!
# Numbers on a circle

Counters of fixed width that are compared by the sign of their difference, as
sequence numbers of transport protocols are. `fwd a n` is `n` steps after `a`,
so that counters that move together can be named by plain natural numbers from
a common start.

**Results.** `lt_fwd`, `le_fwd`, `eq_fwd`: within half a turn the comparisons of
counters are those of the numbers that name them. `lt_iff`, `le_iff`: what the
comparisons say in general; at half a turn each of two counters is before the
other. `toNat_fwd_and`: the low bits of a counter.
-/
namespace Zuzu.Core.Serial
variable {w : Nat} {a b : BitVec w} {m n : Nat}

/-- `a` is before `b`: the difference is negative as a signed number. -/
def lt (a b : BitVec w) : Bool := (a - b).toInt < 0

def le (a b : BitVec w) : Bool := (a - b).toInt ≤ 0

/-- How far `b` is ahead of `a`. -/
def dist (a b : BitVec w) : Nat := (b - a).toNat

/-- The counter `n` steps after `a`. -/
def fwd (a : BitVec w) (n : Nat) : BitVec w := a + BitVec.ofNat w n

theorem dist_lt (a b : BitVec w) : dist a b < 2 ^ w := (b - a).isLt

/-- The way back. -/
theorem toNat_sub_eq (a b : BitVec w) :
    (a - b).toNat = if dist a b = 0 then 0 else 2 ^ w - dist a b := by
  have h : a - b = -(b - a) := by simp
  rw [h, BitVec.toNat_neg, dist]
  split
  · rename_i h0
    rw [h0, Nat.sub_zero, Nat.mod_self]
  · exact Nat.mod_eq_of_lt (by omega)

theorem lt_iff (a b : BitVec w) : lt a b ↔ dist a b ≠ 0 ∧ 2 * dist a b ≤ 2 ^ w := by
  rw [lt, decide_eq_true_iff, BitVec.toInt_eq_toNat_cond, toNat_sub_eq]
  split <;> split <;> omega

theorem le_iff (a b : BitVec w) : le a b ↔ 2 * dist a b ≤ 2 ^ w := by
  have hlt := dist_lt a b
  rw [le, decide_eq_true_iff, BitVec.toInt_eq_toNat_cond, toNat_sub_eq]
  split <;> split <;> omega

@[simp] theorem dist_self (a : BitVec w) : dist a a = 0 := by simp [dist]

@[simp] theorem fwd_zero (a : BitVec w) : fwd a 0 = a := by simp [fwd]

@[simp] theorem fwd_dist (a b : BitVec w) : fwd a (dist a b) = b := by
  rw [fwd, dist, BitVec.ofNat_toNat, BitVec.setWidth_eq, BitVec.add_comm, BitVec.sub_add_cancel]

theorem fwd_add (a : BitVec w) (m n : Nat) : fwd a m + BitVec.ofNat w n = fwd a (m + n) := by
  rw [fwd, fwd, BitVec.add_assoc, BitVec.ofNat_add]

theorem fwd_fwd (a : BitVec w) (m n : Nat) : fwd (fwd a m) n = fwd a (m + n) := fwd_add a m n

theorem dist_fwd (h : m ≤ n) (hn : n - m < 2 ^ w) : dist (fwd a m) (fwd a n) = n - m := by
  have h1 : fwd a n - fwd a m = BitVec.ofNat w (n - m) := by
    conv_lhs => rw [← Nat.sub_add_cancel h, Nat.add_comm, ← fwd_add]
    rw [BitVec.add_comm, BitVec.add_sub_cancel]
  rw [dist, h1, BitVec.toNat_ofNat, Nat.mod_eq_of_lt hn]

theorem dist_fwd_back (h : n < m) (hm : m - n < 2 ^ w) :
    dist (fwd a m) (fwd a n) = 2 ^ w - (m - n) := by
  have hd : dist (fwd a n) (fwd a m) = m - n := dist_fwd h.le hm
  have hb := toNat_sub_eq (fwd a n) (fwd a m)
  rw [hd, if_neg (by omega)] at hb
  exact hb

/-- Within half a turn, before and after are what they are for the numbers. -/
theorem lt_fwd (h1 : 2 * (n - m) ≤ 2 ^ w) (h2 : 2 * (m - n) < 2 ^ w) :
    lt (fwd a m) (fwd a n) ↔ m < n := by
  rw [lt_iff]
  rcases Nat.lt_or_ge n m with h | h
  · rw [dist_fwd_back h (by omega)]
    omega
  · rw [dist_fwd h (by have := Nat.two_pow_pos w; omega)]
    omega

theorem le_fwd (h1 : 2 * (n - m) ≤ 2 ^ w) (h2 : 2 * (m - n) < 2 ^ w) :
    le (fwd a m) (fwd a n) ↔ m ≤ n := by
  rw [le_iff]
  rcases Nat.lt_or_ge n m with h | h
  · rw [dist_fwd_back h (by omega)]
    omega
  · rw [dist_fwd h (by have := Nat.two_pow_pos w; omega)]
    omega

theorem eq_fwd (h1 : n - m < 2 ^ w) (h2 : m - n < 2 ^ w) : fwd a m = fwd a n ↔ m = n := by
  refine ⟨fun h => ?_, fun h => by rw [h]⟩
  have h0 : dist (fwd a m) (fwd a n) = 0 := by rw [h, dist_self]
  rcases Nat.lt_or_ge n m with hlt | hge
  · rw [dist_fwd_back hlt h2] at h0
    omega
  · rw [dist_fwd hge h1] at h0
    omega

/-- The low bits of a counter say where it is modulo a power of two. -/
theorem toNat_fwd_and {k : Nat} (hk : k ≤ w) :
    (fwd a n &&& BitVec.ofNat w (2 ^ k - 1)).toNat = (a.toNat + n) % 2 ^ k := by
  have hpow : 2 ^ k ≤ 2 ^ w := Nat.pow_le_pow_right (by omega) hk
  have hdvd : 2 ^ k ∣ 2 ^ w := Nat.pow_dvd_pow 2 hk
  rw [BitVec.toNat_and, BitVec.toNat_ofNat, Nat.mod_eq_of_lt (by omega : 2 ^ k - 1 < 2 ^ w),
    Nat.and_two_pow_sub_one_eq_mod, fwd, BitVec.toNat_add, BitVec.toNat_ofNat, Nat.add_mod_mod,
    Nat.mod_mod_of_dvd _ hdvd]

end Zuzu.Core.Serial
