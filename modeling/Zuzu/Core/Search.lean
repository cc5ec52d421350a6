import Mathlib.Data.List.Basic
import Mathlib.Order.Basic

/-!
# Binary search

Two searches over an indexed sequence. `bsearch` looks for an element that a
comparison puts level with the key; `upperBound` for the first element that a
test rejects. Both halve `[lo, hi)`, and `hi - lo` rounds always suffice.

`Steered cmp xs` says that the comparison agrees with the order of the list: it
never points left of an element and right of an earlier one. Under it the
element that `bsearch` finds is the only one there is (`bsearch_eq_some`), and
finding none means that there is none (`bsearch_eq_none`).
-/
namespace Zuzu.Core

variable {α : Type*} {cmp : α → Ordering} {p : α → Bool} {xs : List α} {lo hi n i : Nat}

/-- The loop of `bsearch` on the indices `[lo, hi)`. -/
def bsearchLoop (cmp : α → Ordering) (xs : List α) : (fuel lo hi : Nat) → Option Nat
  | 0, _, _ => none
  | n + 1, lo, hi =>
    if lo < hi then
      let mid := (lo + hi) / 2
      match xs[mid]? with
      | none => none
      | some x =>
        match cmp x with
        | .eq => some mid
        | .lt => bsearchLoop cmp xs n lo mid
        | .gt => bsearchLoop cmp xs n (mid + 1) hi
    else none

/-- The index of an element that `cmp` finds equal to the key. -/
def bsearch (cmp : α → Ordering) (xs : List α) : Option Nat :=
  bsearchLoop cmp xs xs.length 0 xs.length

/-- The loop that looks for the first element that fails `p`. -/
def upperBoundLoop (p : α → Bool) (xs : List α) : (fuel lo hi : Nat) → Nat
  | 0, lo, _ => lo
  | n + 1, lo, hi =>
    if lo < hi then
      let mid := lo + (hi - lo) / 2
      if xs[mid]?.any p then upperBoundLoop p xs n (mid + 1) hi else upperBoundLoop p xs n lo mid
    else lo

def upperBound (p : α → Bool) (xs : List α) : Nat := upperBoundLoop p xs xs.length 0 xs.length

/-- What the comparison answers fits the order of the list. -/
def Steered (cmp : α → Ordering) (xs : List α) : Prop :=
  xs.Pairwise fun x y => (cmp x ≠ .gt → cmp y = .lt) ∧ (cmp y ≠ .lt → cmp x = .gt)

theorem bsearchLoop_some (h : bsearchLoop cmp xs n lo hi = some i) :
    ∃ x, xs[i]? = some x ∧ cmp x = .eq := by
  fun_induction bsearchLoop cmp xs n lo hi with
  | case1 => cases h
  | case2 => cases h
  | case3 n lo hi hlt mid x hx heq =>
    rw [← Option.some.inj h]
    exact ⟨x, hx, heq⟩
  | case4 n lo hi hlt mid x hx heq ih => exact ih h
  | case5 n lo hi hlt mid x hx heq ih => exact ih h
  | case6 => cases h

/-- What `bsearch` returns is a match, in any list. -/
theorem bsearch_some (h : bsearch cmp xs = some i) : ∃ x, xs[i]? = some x ∧ cmp x = .eq :=
  bsearchLoop_some h

theorem Steered.lt_of_lt (h : Steered cmp xs) {j : Nat} {x y : α} (hx : xs[i]? = some x)
    (hy : xs[j]? = some y) (hij : i < j) (hc : cmp x ≠ .gt) : cmp y = .lt := by
  obtain ⟨hi, rfl⟩ := List.getElem?_eq_some_iff.mp hx
  obtain ⟨hj, rfl⟩ := List.getElem?_eq_some_iff.mp hy
  exact (List.pairwise_iff_getElem.mp h i j hi hj hij).1 hc

theorem Steered.gt_of_lt (h : Steered cmp xs) {j : Nat} {x y : α} (hx : xs[i]? = some x)
    (hy : xs[j]? = some y) (hij : i < j) (hc : cmp y ≠ .lt) : cmp x = .gt := by
  obtain ⟨hi, rfl⟩ := List.getElem?_eq_some_iff.mp hx
  obtain ⟨hj, rfl⟩ := List.getElem?_eq_some_iff.mp hy
  exact (List.pairwise_iff_getElem.mp h i j hi hj hij).2 hc

/-- A match inside the interval is found. -/
theorem bsearchLoop_complete (hs : Steered cmp xs) {x : α} (hx : xs[i]? = some x)
    (hc : cmp x = .eq) (hlen : hi ≤ xs.length) (hfuel : hi - lo ≤ n) (h1 : lo ≤ i)
    (h2 : i < hi) : bsearchLoop cmp xs n lo hi = some i := by
  fun_induction bsearchLoop cmp xs n lo hi with
  | case1 => omega
  | case2 n lo hi hlt mid hnone =>
    have := List.getElem?_eq_none_iff.mp hnone
    omega
  | case3 n lo hi hlt mid y hy heq =>
    -- two matches would contradict the order
    rcases Nat.lt_trichotomy mid i with h | h | h
    · have := hs.lt_of_lt hy hx h (by simp [heq])
      simp [hc] at this
    · exact congrArg some h
    · have := hs.gt_of_lt hx hy h (by simp [heq])
      simp [hc] at this
  | case4 n lo hi hlt mid y hy heq ih =>
    refine ih (by omega) (by omega) h1 ?_
    by_contra hge
    rcases Nat.lt_or_eq_of_le (Nat.not_lt.mp hge) with h | h
    · have := hs.lt_of_lt hy hx h (by simp [heq])
      simp [hc] at this
    · rw [h, hx] at hy
      cases hy
      simp [hc] at heq
  | case5 n lo hi hlt mid y hy heq ih =>
    refine ih hlen (by omega) ?_ h2
    by_contra hlt'
    rcases Nat.lt_or_eq_of_le (Nat.le_of_lt_succ (Nat.not_le.mp hlt')) with h | h
    · have := hs.gt_of_lt hx hy h (by simp [heq])
      simp [hc] at this
    · rw [← h, hx] at hy
      cases hy
      simp [hc] at heq
  | case6 => omega

theorem bsearch_eq_some (hs : Steered cmp xs) :
    bsearch cmp xs = some i ↔ ∃ x, xs[i]? = some x ∧ cmp x = .eq := by
  refine ⟨bsearch_some, fun ⟨x, hx, hc⟩ => ?_⟩
  obtain ⟨hi, -⟩ := List.getElem?_eq_some_iff.mp hx
  exact bsearchLoop_complete hs hx hc (Nat.le_refl _) (Nat.le_refl _) (Nat.zero_le _) hi

/-- The test holds up to some point and fails from there on. -/
theorem upperBoundLoop_spec (hmono : ∀ (i j : Nat) (x y : α), xs[i]? = some x →
      xs[j]? = some y → i < j → p y = true → p x = true) (hlen : hi ≤ xs.length)
    (hfuel : hi - lo ≤ n) (hle : lo ≤ hi) :
    lo ≤ upperBoundLoop p xs n lo hi ∧ upperBoundLoop p xs n lo hi ≤ hi ∧
    (∀ (i : Nat) (x : α), lo ≤ i → i < upperBoundLoop p xs n lo hi → xs[i]? = some x → p x = true) ∧
    ∀ (i : Nat) (x : α), upperBoundLoop p xs n lo hi ≤ i → i < hi → xs[i]? = some x →
      p x = false := by
  fun_induction upperBoundLoop p xs n lo hi with
  | case1 => exact ⟨by omega, by omega, fun _ _ _ _ => by omega, fun _ _ _ _ => by omega⟩
  | case2 n lo hi hlt mid hany ih =>
    obtain ⟨h1, h2, h3, h4⟩ := ih hlen (by omega) (by omega)
    refine ⟨by omega, h2, fun i x hi1 hi2 hx => ?_, h4⟩
    by_cases hm : mid + 1 ≤ i
    · exact h3 i x hm hi2 hx
    · obtain ⟨y, hy, hpy⟩ : ∃ y, xs[mid]? = some y ∧ p y = true := by
        simpa [Option.any_eq_true] using hany
      rcases Nat.lt_or_eq_of_le (show i ≤ mid by omega) with h | h
      · exact hmono i mid x y hx hy h hpy
      · rw [h, hy] at hx
        cases hx
        exact hpy
  | case3 n lo hi hlt mid hany ih =>
    obtain ⟨h1, h2, h3, h4⟩ := ih (by omega) (by omega) (by omega)
    refine ⟨h1, by omega, h3, fun i x hi1 hi2 hx => ?_⟩
    by_cases hm : i < mid
    · exact h4 i x hi1 hm hx
    · have hmid : mid < xs.length := by omega
      have hpm : p xs[mid] = false := by
        simpa [List.getElem?_eq_getElem hmid] using hany
      by_contra hpx
      rcases Nat.lt_or_eq_of_le (Nat.not_lt.mp hm) with h | h
      · have := hmono mid i _ x (List.getElem?_eq_getElem hmid) hx h (by simpa using hpx)
        rw [hpm] at this
        cases this
      · rw [← h, List.getElem?_eq_getElem hmid] at hx
        cases hx
        exact hpx hpm
  | case4 n lo hi hlt => exact ⟨by omega, hle, fun _ _ _ _ => by omega, fun _ _ _ _ => by omega⟩

theorem upperBound_spec (hmono : xs.Pairwise fun x y => p y = true → p x = true) :
    upperBound p xs ≤ xs.length ∧ (∀ x ∈ xs.take (upperBound p xs), p x = true) ∧
    ∀ x ∈ xs.drop (upperBound p xs), p x = false := by
  have hpair : ∀ (i j : Nat) (x y : α), xs[i]? = some x → xs[j]? = some y → i < j →
      p y = true → p x = true := by
    intro i j x y hx hy hij
    obtain ⟨hi, rfl⟩ := List.getElem?_eq_some_iff.mp hx
    obtain ⟨hj, rfl⟩ := List.getElem?_eq_some_iff.mp hy
    exact List.pairwise_iff_getElem.mp hmono i j hi hj hij
  unfold upperBound
  obtain ⟨-, h2, h3, h4⟩ := upperBoundLoop_spec (n := xs.length) hpair (Nat.le_refl xs.length)
    (Nat.sub_le _ 0) (Nat.zero_le _)
  refine ⟨h2, fun x hx => ?_, fun x hx => ?_⟩
  · obtain ⟨i, hi, rfl⟩ := List.mem_take_iff_getElem.mp hx
    exact h3 i _ (Nat.zero_le _) (by omega) (List.getElem?_eq_getElem _)
  · obtain ⟨i, hi, rfl⟩ := List.mem_drop_iff_getElem.mp hx
    exact h4 _ _ (Nat.le_add_right _ _) (by omega) (List.getElem?_eq_getElem _)

end Zuzu.Core
