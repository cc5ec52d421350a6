import Mathlib.Data.List.Basic
import Mathlib.Tactic.Ring

/-!
# Packed bitmaps

A bitmap is an array of `w`-bit words, read as a function of the word index;
bit `i` is bit `i % w` of word `i / w`. A test masks the word with
`1 << (i % w)` and compares with zero, a set ORs the mask in, a clear ANDs
its complement. `testBit_setBit` and `testBit_clearBit` are all a client
needs: the words themselves never show up again.
-/
namespace Zuzu.Core

/-- An array of `w`-bit words. -/
abbrev Bitmap (w : Nat) := Nat → BitVec w

namespace Bitmap
variable {w : Nat} (m : Bitmap w) (i j : Nat)

/-- `words[i / w] & (1 << (i % w))` is non-zero. -/
def testBit : Bool := m (i / w) &&& BitVec.twoPow w (i % w) != 0#w

/-- `words[i / w] |= 1 << (i % w)`. -/
def setBit : Bitmap w := fun k =>
  if k = i / w then m k ||| BitVec.twoPow w (i % w) else m k

/-- `words[i / w] &= ~(1 << (i % w))`. -/
def clearBit : Bitmap w := fun k =>
  if k = i / w then m k &&& ~~~BitVec.twoPow w (i % w) else m k

theorem testBit_eq_getLsbD (hw : 0 < w) : m.testBit i = (m (i / w)).getLsbD (i % w) := by
  have hlt : i % w < w := Nat.mod_lt i hw
  have h0 : BitVec.twoPow w (i % w) ≠ 0#w := by
    intro h
    have := congrArg (fun b => b.getLsbD (i % w)) h
    simp [hlt] at this
  unfold testBit
  rw [BitVec.and_twoPow]
  cases (m (i / w)).getLsbD (i % w) <;> simp [h0]

/-- Two indices in the same word at the same position are the same index. -/
theorem index_eq_iff : (j / w = i / w ∧ j % w = i % w) ↔ j = i := by
  constructor
  · rintro ⟨h1, h2⟩
    rw [← Nat.div_add_mod j w, ← Nat.div_add_mod i w, h1, h2]
  · rintro rfl
    exact ⟨rfl, rfl⟩

/-- One word is changed: the bits of the others are as before. -/
theorem testBit_word (hw : 0 < w) {f : BitVec w → BitVec w} :
    testBit (fun k => if k = i / w then f (m k) else m k) j =
      if j / w = i / w then (f (m (j / w))).getLsbD (j % w) else m.testBit j := by
  rw [testBit_eq_getLsbD _ _ hw, testBit_eq_getLsbD _ _ hw]
  split <;> rfl

theorem testBit_setBit (hw : 0 < w) :
    (m.setBit i).testBit j = (decide (j = i) || m.testBit j) := by
  have hi : i % w < w := Nat.mod_lt i hw
  have hji := index_eq_iff (w := w) i j
  unfold setBit
  rw [testBit_word m i j hw (f := (· ||| _)), BitVec.getLsbD_or, BitVec.getLsbD_twoPow,
    testBit_eq_getLsbD m j hw]
  grind

theorem testBit_clearBit (hw : 0 < w) :
    (m.clearBit i).testBit j = (!decide (j = i) && m.testBit j) := by
  have hj : j % w < w := Nat.mod_lt j hw
  have hi : i % w < w := Nat.mod_lt i hw
  have hji := index_eq_iff (w := w) i j
  unfold clearBit
  rw [testBit_word m i j hw (f := (· &&& _)), BitVec.getLsbD_and, BitVec.getLsbD_not,
    BitVec.getLsbD_twoPow, testBit_eq_getLsbD m j hw]
  grind

/-- The empty bitmap has no bit set. -/
@[simp] theorem testBit_zero : testBit (fun _ => 0#w) i = false := by
  simp [testBit]

/-! ## First clear bit -/

/-- Position of the lowest set bit of a word (`__builtin_ctz`), `w` for zero. -/
def ctz (x : BitVec w) : Nat := ((List.range w).find? (x.getLsbD ·)).getD w

theorem ctz_spec {x : BitVec w} (hx : x ≠ 0#w) :
    ctz x < w ∧ x.getLsbD (ctz x) = true ∧ ∀ j < ctz x, x.getLsbD j = false := by
  unfold ctz
  cases hf : (List.range w).find? (x.getLsbD ·) with
  | none =>
    rw [List.find?_eq_none] at hf
    refine absurd (BitVec.eq_of_getLsbD_eq fun i hi => ?_) hx
    simpa using hf i (by simpa using hi)
  | some k =>
    rw [List.find?_range_eq_some] at hf
    obtain ⟨h1, h2, h3⟩ := hf
    exact ⟨by simpa using h2, h1, fun j hj => by simpa using h3 j hj⟩

/-- The search over `n` full words from word `k` on: the first word that is not
all ones, and in it the lowest clear bit. -/
def findZeroWord (k : Nat) : Nat → Option Nat
  | 0 => none
  | n + 1 => if m k ≠ BitVec.allOnes w then some (k * w + ctz (~~~m k))
    else findZeroWord (k + 1) n

/-- The lowest clear bit among `nbits` bits: full words first, then the bits of
the last, partial word. -/
def findFirstZero (nbits : Nat) : Option Nat :=
  match findZeroWord m 0 (nbits / w) with
  | some i => some i
  | none =>
    let free := ~~~m (nbits / w) &&& BitVec.ofNat w (2 ^ (nbits % w) - 1)
    if nbits % w ≠ 0 ∧ free ≠ 0#w then some (nbits / w * w + ctz free) else none

/-- In a word that is not all ones, `ctz` of the complement is its lowest clear bit. -/
theorem testBit_ctz_not (hw : 0 < w) {k : Nat} (h : m k ≠ BitVec.allOnes w) :
    ctz (~~~m k) < w ∧ m.testBit (k * w + ctz (~~~m k)) = false := by
  have hne : ~~~m k ≠ 0#w := by
    intro e
    exact h (by rw [← BitVec.not_not (b := m k), e]; simp)
  obtain ⟨h1, h2, -⟩ := ctz_spec hne
  refine ⟨h1, ?_⟩
  rw [testBit_eq_getLsbD _ _ hw, Nat.add_comm, Nat.add_mul_div_right _ _ hw,
    Nat.div_eq_of_lt h1, Nat.add_mul_mod_self_right, Nat.mod_eq_of_lt h1, Nat.zero_add]
  simpa [h1] using h2

theorem findZeroWord_spec (hw : 0 < w) {i : Nat} : ∀ {n k : Nat}, findZeroWord m k n = some i →
    i < (k + n) * w ∧ m.testBit i = false := by
  intro n
  induction n with
  | zero => intro k h; cases h
  | succ n ih =>
    intro k h
    unfold findZeroWord at h
    split at h
    · rename_i hne
      cases h
      obtain ⟨h1, h2⟩ := testBit_ctz_not m hw hne
      refine ⟨?_, h2⟩
      have : (k + (n + 1)) * w = k * w + w + n * w := by ring
      omega
    · obtain ⟨h1, h2⟩ := ih h
      exact ⟨by rwa [show k + (n + 1) = k + 1 + n by omega], h2⟩

/-- Over whole words, the search returns a clear bit in range. -/
theorem findFirstZero_spec (hw : 0 < w) {n : Nat} (h : m.findFirstZero (n * w) = some i) :
    i < n * w ∧ m.testBit i = false := by
  unfold findFirstZero at h
  rw [Nat.mul_div_cancel _ hw, Nat.mul_mod_left] at h
  cases hf : findZeroWord m 0 n with
  | none => simp [hf] at h
  | some k =>
    rw [hf] at h
    cases h
    simpa using findZeroWord_spec m hw hf

end Bitmap
end Zuzu.Core
