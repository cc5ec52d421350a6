import Mathlib.Data.List.Basic
import Zuzu.Types

/-!
# The limit on answers (`netd/common/globals.h`)

`RateAllow` is a bucket of tokens that is filled up when it is asked. It reads the milliseconds
since boot modulo `2 ^ 32`, and `last_ms = 0` stands for a bucket that was never used. A call that
reads 0 therefore leaves a bucket that the next call fills up.

**Results.** `rate_bound`: if no call reads 0, at most `burst + rate * t / 1000 + 1` calls in any
`t` milliseconds are allowed. `rate_exceeded`: when the clock wraps there can be more.
Paths are relative to `user/services/`.
-/
namespace Zuzu.L5.Rate

/-- mirrors netd/common/globals.h:40-43 -/
structure RateLimiter where
  tokens : Nat
  lastMs : Nat
  deriving DecidableEq, Repr

variable (rate burst : Nat) (rl : RateLimiter) (now : Nat)

/-- What is added for the time since `last_ms`. mirrors netd/common/globals.h:52 -/
def refill : Nat := (now + 2 ^ 32 - rl.lastMs) % 2 ^ 32 * rate / 1000 % 2 ^ 32

/-- mirrors netd/common/globals.h:48-58 -/
def fill : RateLimiter :=
  if rl.lastMs = 0 then ⟨burst, if now = 0 then 1 else now⟩
  else if refill rate rl now = 0 then rl
  else ⟨min burst ((rl.tokens + refill rate rl now) % 2 ^ 32), now⟩

/-- mirrors netd/common/globals.h:45-63; `now` is what `NetNowMs` returns -/
def rateAllow : Bool × RateLimiter :=
  let rl := fill rate burst rl now
  if rl.tokens = 0 then (false, rl) else (true, { rl with tokens := rl.tokens - 1 })

/-- How many of the calls at `times` that lie between `a` and `e` are allowed. -/
def allowed (a e : Nat) : RateLimiter → List Nat → Nat
  | _, [] => 0
  | rl, ms :: times =>
    let r := rateAllow rate burst rl (ms % 2 ^ 32)
    (if r.1 ∧ a ≤ ms ∧ ms ≤ e then 1 else 0) + allowed a e r.2 times

/-! ## What is due -/

/-- Thousandths of a token that a limiter is due at `now`, as far as they fit. -/
def due : Nat := (now + 2 ^ 32 - rl.lastMs) % 2 ^ 32 * rate % (1000 * 2 ^ 32)

theorem refill_eq : refill rate rl now = due rate rl now / 1000 :=
  (Nat.mod_mul_right_div_self _ _ _).symm

theorem due_self (x : Nat) : due rate ⟨x, now⟩ now = 0 := by simp [due]

variable {rl now} {a e m ms t : Nat}

/-- Time adds to what is due at most at the rate. -/
theorem due_le (hl : rl.lastMs < 2 ^ 32) (h : m ≤ ms) :
    due rate rl (ms % 2 ^ 32) ≤ due rate rl (m % 2 ^ 32) + rate * (ms - m) := by
  unfold due
  have hx : (ms % 2 ^ 32 + 2 ^ 32 - rl.lastMs) % 2 ^ 32 =
      ((m % 2 ^ 32 + 2 ^ 32 - rl.lastMs) % 2 ^ 32 + (ms - m)) % 2 ^ 32 := by omega
  have hlt : (m % 2 ^ 32 + 2 ^ 32 - rl.lastMs) % 2 ^ 32 < 2 ^ 32 := Nat.mod_lt _ (by decide)
  rw [hx]
  generalize (m % 2 ^ 32 + 2 ^ 32 - rl.lastMs) % 2 ^ 32 = x at hlt
  by_cases hw : x + (ms - m) < 2 ^ 32
  · rw [Nat.mod_eq_of_lt hw, Nat.add_mul, Nat.mul_comm (ms - m), Nat.add_mod]
    have h1 := Nat.mod_le (x * rate % (1000 * 2 ^ 32) + rate * (ms - m) % (1000 * 2 ^ 32))
      (1000 * 2 ^ 32)
    have h2 := Nat.mod_le (rate * (ms - m)) (1000 * 2 ^ 32)
    omega
  · -- the difference of the readings has wrapped, and is less than the time since `m`
    have hle : (x + (ms - m)) % 2 ^ 32 ≤ ms - m := by omega
    have h1 := Nat.mod_le ((x + (ms - m)) % 2 ^ 32 * rate) (1000 * 2 ^ 32)
    have h2 := Nat.mul_le_mul_right rate hle
    rw [Nat.mul_comm rate]
    omega

/-! ## One call -/

/-- The bucket does not overflow, and the time is one that was read. -/
structure Kept (burst : Nat) (rl : RateLimiter) : Prop where
  tokens : rl.tokens ≤ burst
  last : rl.lastMs < 2 ^ 32

/-- A filled bucket is due less than a token. -/
theorem Kept.fill (h : Kept burst rl) (h0 : now ≠ 0) (hn : now < 2 ^ 32) :
    Kept burst (fill rate burst rl now) ∧ (fill rate burst rl now).lastMs ≠ 0 ∧
      due rate (fill rate burst rl now) now < 1000 := by
  have hself := due_self rate now
  unfold Rate.fill
  split
  · rw [hself]
    exact ⟨⟨Nat.le_refl _, hn⟩, h0, by decide⟩
  · split
    · rename_i hl hr
      rw [refill_eq] at hr
      exact ⟨h, hl, by omega⟩
    · rw [hself]
      exact ⟨⟨Nat.min_le_left _ _, hn⟩, h0, by decide⟩

/-- Filling makes tokens of what is due, and loses some. -/
theorem fill_le (now : Nat) (hl : rl.lastMs ≠ 0) :
    1000 * (fill rate burst rl now).tokens + due rate (fill rate burst rl now) now ≤
      1000 * rl.tokens + due rate rl now := by
  unfold fill
  rw [if_neg hl]
  split
  · exact Nat.le_refl _
  · have h1 := Nat.min_le_right burst ((rl.tokens + refill rate rl now) % 2 ^ 32)
    have h2 := Nat.mod_le (rl.tokens + refill rate rl now) (2 ^ 32)
    rw [due_self]
    rw [refill_eq] at h1 h2 ⊢
    dsimp only
    omega

/-- An allowed call takes a token out of the filled bucket. -/
theorem rateAllow_spec (h : Kept burst (fill rate burst rl now)) :
    ∃ b x, rateAllow rate burst rl now = (b, ⟨x, (fill rate burst rl now).lastMs⟩) ∧
      b.toNat + x = (fill rate burst rl now).tokens ∧
      Kept burst ⟨x, (fill rate burst rl now).lastMs⟩ := by
  unfold rateAllow
  dsimp only
  split
  · exact ⟨false, _, rfl, Nat.zero_add _, h⟩
  · exact ⟨true, _, rfl, Nat.add_sub_cancel' (Nat.pos_of_ne_zero ‹_›),
      Nat.le_trans (Nat.sub_le _ _) h.tokens, h.last⟩

/-! ## Runs -/

variable {burst}

/-- Calls after the interval do not count. -/
theorem allowed_late : ∀ {times : List Nat} {rl : RateLimiter}, (∀ ms ∈ times, e < ms) →
    allowed rate burst a e rl times = 0
  | [], _, _ => rfl
  | ms :: times, rl, h => by
    obtain ⟨hms, h⟩ := List.forall_mem_cons.mp h
    rw [allowed, allowed_late h, if_neg (by omega)]

/-- Inside the interval the tokens come from what was there, what was due at `m` and the time
since. -/
theorem allowed_le : ∀ {times : List Nat} {rl : RateLimiter} {m : Nat}, Kept burst rl →
    rl.lastMs ≠ 0 → (m :: times).Pairwise (· ≤ ·) → (∀ ms ∈ times, ms % 2 ^ 32 ≠ 0) →
    1000 * allowed rate burst a e rl times ≤
      1000 * rl.tokens + due rate rl (m % 2 ^ 32) + rate * (e - m)
  | [], _, _, _, _, _, _ => Nat.zero_le _
  | ms :: times, rl, m, h, hl, hs, h0 => by
    obtain ⟨hm, hs⟩ := List.pairwise_cons.mp hs
    obtain ⟨h0, h0s⟩ := List.forall_mem_cons.mp h0
    have hmms := hm ms List.mem_cons_self
    by_cases he : ms ≤ e
    · obtain ⟨hk, hl', -⟩ := h.fill rate burst h0 (Nat.mod_lt ms (by decide))
      obtain ⟨b, x, hr, hx, hk⟩ := rateAllow_spec rate burst hk
      have ih := allowed_le hk hl' hs h0s
      have hfill := fill_le rate burst (ms % 2 ^ 32) hl
      have hdue := due_le rate h.last hmms
      have htime : rate * (e - m) = rate * (ms - m) + rate * (e - ms) := by
        rw [← Nat.mul_add]
        congr 1
        omega
      have hb : (if b ∧ a ≤ ms ∧ ms ≤ e then 1 else 0) ≤ b.toNat := by
        cases b <;> simp
        split <;> omega
      rw [allowed, hr]
      change 1000 * _ ≤ 1000 * x + due rate (fill rate burst rl (ms % 2 ^ 32)) _ + _ at ih
      dsimp only
      omega
    · rw [allowed_late rate]
      · omega
      · refine List.forall_mem_cons.mpr ⟨by omega, fun x hx => ?_⟩
        have := (List.pairwise_cons.mp hs).1 x hx
        omega

/-- A bucket that is up to date is not filled again. -/
theorem fill_fill (h : Kept burst rl) (h0 : now ≠ 0) (hn : now < 2 ^ 32) :
    fill rate burst (fill rate burst rl now) now = fill rate burst rl now := by
  obtain ⟨-, hl, hdue⟩ := h.fill rate burst h0 hn
  rw [fill.eq_1 rate burst (fill rate burst rl now), if_neg hl, refill_eq, if_pos (by omega)]

theorem allowed_window : ∀ {times : List Nat} {rl : RateLimiter}, Kept burst rl →
    times.Pairwise (· ≤ ·) → (∀ ms ∈ times, ms % 2 ^ 32 ≠ 0) →
    allowed rate burst a (a + t) rl times ≤ burst + rate * t / 1000 + 1
  | [], _, _, _, _ => Nat.zero_le _
  | ms :: times, rl, h, hs, h0 => by
    have hn := Nat.mod_lt ms (show 0 < 2 ^ 32 by decide)
    have h0ms := h0 ms List.mem_cons_self
    obtain ⟨hk, hl, hdue⟩ := h.fill rate burst h0ms hn
    have htok := hk.tokens
    by_cases ha : a ≤ ms
    · -- the first call of the interval: as if the bucket had been filled before it
      have hfirst : allowed rate burst a (a + t) rl (ms :: times) =
          allowed rate burst a (a + t) (fill rate burst rl (ms % 2 ^ 32)) (ms :: times) := by
        rw [allowed, allowed, rateAllow, rateAllow, fill_fill rate h h0ms hn]
      have hle := allowed_le rate (a := a) (e := a + t) hk hl (m := ms) ?_ h0
      · have htime : rate * (a + t - ms) ≤ rate * t := Nat.mul_le_mul_left _ (by omega)
        rw [hfirst]
        omega
      · exact List.pairwise_cons.mpr ⟨List.forall_mem_cons.mpr
          ⟨Nat.le_refl _, (List.pairwise_cons.mp hs).1⟩, hs⟩
    · obtain ⟨b, x, hr, -, hk⟩ := rateAllow_spec rate burst hk
      rw [allowed, hr, if_neg (by omega), Nat.zero_add]
      exact allowed_window hk (List.pairwise_cons.mp hs).2 (List.forall_mem_cons.mp h0).2

/-- If no call reads 0 from the clock, at most `burst + rate * t / 1000 + 1` calls in `t`
milliseconds are allowed. -/
theorem rate_bound (rate burst : BitVec 32) (times : List Nat) (hs : times.Pairwise (· ≤ ·))
    (h0 : ∀ ms ∈ times, ms % 2 ^ 32 ≠ 0) (a t : Nat) :
    allowed rate.toNat burst.toNat a (a + t) ⟨0, 0⟩ times ≤
      burst.toNat + rate.toNat * t / 1000 + 1 :=
  allowed_window _ ⟨Nat.zero_le _, by decide⟩ hs h0

theorem rate_bound_echo :
    allowed (16#32).toNat (32#32).toNat 5 (5 + 100) ⟨0, 0⟩ [5, 5, 70, 4000] ≤
      (32#32).toNat + (16#32).toNat * 100 / 1000 + 1 :=
  rate_bound 16 32 _ (by decide) (by decide) 5 100

/-- The limit on ARP replies when the clock wraps: 16 calls, one that reads 0, and 16 more. -/
theorem rate_exceeded : 16 + 16 * 63 / 1000 + 1 < allowed 16 16 (2 ^ 32 - 63) (2 ^ 32) ⟨0, 0⟩
    (List.replicate 16 (2 ^ 32 - 63) ++ List.replicate 17 (2 ^ 32)) := by
  decide +kernel

end Zuzu.L5.Rate
