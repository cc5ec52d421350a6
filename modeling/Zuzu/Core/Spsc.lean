import Mathlib.Data.BitVec
import Zuzu.Core.Ring

/-!
# Rings with one producer and one consumer

Position `i` of the stream is in cell `i % size`. The producer has published the list `sent`,
the consumer has given back the cells of the first `taken` positions. `Spsc` says that the
cells in between hold what was sent; about the free cells it says nothing, so the producer may
write there in any pieces and any order. `Draft` is what it has written and not published.

Counters of `w` bits run freely: the number of positions modulo `2 ^ w`.

**Results.** `Spsc.write`, `Spsc.publish`, `Spsc.give`: the moves of the two sides.
`Spsc.read`: what the consumer reads. `counter_sub`: the difference of two counters is the
number of positions between them. `counter_cell`: the low bits of a counter are the cell.
-/
namespace Zuzu.Core
open Function
variable {α : Type*} {size taken p : Nat} {cells : Nat → α} {sent data : List α} {x : α}

/-- The cells between `taken` and the end of `sent` hold what was sent, and no more is sent
than fits. -/
structure Spsc (size : Nat) (cells : Nat → α) (sent : List α) (taken : Nat) : Prop where
  le : taken ≤ sent.length
  fits : sent.length ≤ taken + size
  holds : ∀ i (hi : i < sent.length), taken ≤ i → cells (i % size) = sent[i]

/-- `data` is in the cells from position `p` on. -/
def Draft (size : Nat) (cells : Nat → α) (p : Nat) (data : List α) : Prop :=
  ∀ i (hi : i < data.length), cells ((p + i) % size) = data[i]

/-- Two positions less than `size` apart are in different cells. -/
theorem cell_ne {i j : Nat} (hne : i ≠ j) (h1 : i < j + size) (h2 : j < i + size) :
    i % size ≠ j % size := by
  have h := Ring.cell_ne (b := 0) hne h1 h2
  rwa [Nat.zero_add, Nat.zero_add] at h

namespace Spsc

theorem empty (size : Nat) (cells : Nat → α) : Spsc size cells [] 0 :=
  ⟨Nat.le_refl 0, Nat.zero_le _, fun _ hi => absurd hi (Nat.not_lt_zero _)⟩

section
variable (h : Spsc size cells sent taken)
include h

/-- The producer writes a free cell. -/
theorem write (hp : sent.length ≤ p) (hlt : p < taken + size) :
    Spsc size (update cells (p % size) x) sent taken where
  le := h.le
  fits := h.fits
  holds i hi ht := by
    rw [update_of_ne (cell_ne (by omega) (by omega) (by omega))]
    exact h.holds i hi ht

/-- The producer publishes its draft. -/
theorem publish (hd : Draft size cells sent.length data)
    (hfit : sent.length + data.length ≤ taken + size) : Spsc size cells (sent ++ data) taken where
  le := by
    rw [List.length_append]
    have := h.le
    omega
  fits := by
    rw [List.length_append]
    exact hfit
  holds i hi ht := by
    rw [List.length_append] at hi
    by_cases hs : i < sent.length
    · rw [List.getElem_append_left hs]
      exact h.holds i hs ht
    · rw [List.getElem_append_right (by omega)]
      have := hd (i - sent.length) (by omega)
      rwa [Nat.add_sub_cancel' (by omega)] at this

/-- The consumer gives cells back. -/
theorem give {n : Nat} (hn : taken + n ≤ sent.length) : Spsc size cells sent (taken + n) where
  le := hn
  fits := by
    have := h.fits
    omega
  holds i hi ht := h.holds i hi (by omega)

/-- The consumer reads a cell between the two. -/
theorem read {k : Nat} (hk : taken + k < sent.length) :
    cells ((taken + k) % size) = sent[taken + k] := h.holds _ hk (Nat.le_add_right _ _)

end

end Spsc

namespace Draft

theorem nil (size : Nat) (cells : Nat → α) (p : Nat) : Draft size cells p [] :=
  fun _ hi => absurd hi (Nat.not_lt_zero _)

/-- The next cell is written. -/
theorem snoc (h : Draft size cells p data) (hlt : data.length < size) :
    Draft size (update cells ((p + data.length) % size) x) p (data ++ [x]) := by
  intro i hi
  rw [List.length_append, List.length_singleton] at hi
  by_cases hd : i < data.length
  · rw [update_of_ne (cell_ne (by omega) (by omega) (by omega)),
      List.getElem_append_left hd]
    exact h i hd
  · have hie : i = data.length := by omega
    subst hie
    rw [update_self, List.getElem_append_right (Nat.le_refl _)]
    simp

end Draft

/-! ## Counters -/

section Counter
variable {w k : Nat}

/-- The distance of two counters is the number of positions between them. -/
theorem counter_sub {a b : Nat} (hle : a ≤ b) (hlt : b < a + 2 ^ w) :
    (BitVec.ofNat w b - BitVec.ofNat w a).toNat = b - a := by
  obtain ⟨d, rfl⟩ := Nat.exists_eq_add_of_le hle
  rw [BitVec.ofNat_add, BitVec.add_comm, BitVec.add_sub_cancel, BitVec.toNat_ofNat,
    Nat.add_sub_cancel_left]
  exact Nat.mod_eq_of_lt (by omega)

/-- The low bits of a counter name the cell. -/
theorem counter_cell (hk : k ≤ w) (p : Nat) :
    (BitVec.ofNat w p &&& BitVec.ofNat w (2 ^ k - 1)).toNat = p % 2 ^ k := by
  have hlt : 2 ^ k - 1 < 2 ^ w := by
    have := Nat.pow_le_pow_right (show 0 < 2 by decide) hk
    have := Nat.two_pow_pos k
    omega
  rw [BitVec.toNat_and, BitVec.toNat_ofNat, BitVec.toNat_ofNat, Nat.mod_eq_of_lt hlt,
    Nat.and_two_pow_sub_one_eq_mod, Nat.mod_mod_of_dvd _ (Nat.pow_dvd_pow 2 hk)]

end Counter

end Zuzu.Core
