import Mathlib.Data.Finset.Card

/-!
# Counting the places that name a key

A table of places, each of which names a key or nothing. `Tally f k n` says
that exactly `n` places name `k`; the number of places may be infinite, the
number that name one key is not. A counter that is kept beside the table is
right when it satisfies `Tally`, and one update of the table moves the tally by
what it takes away and what it adds.

`hide X f` is the table without the places of `X`: those whose entry is already
off the books but not yet erased.

**Results.** `Tally.update`: one place changes. `Tally.pos`: the tally is positive
exactly when some place names the key. `hide_cons`, `hide_update`: a place goes
off the books and is erased.
-/
namespace Zuzu.Core
open Function

variable {ι κ : Type*} {f g : ι → Option κ} {k : κ} {n : Nat}

/-- Exactly `n` places of the table name `k`. -/
def Tally (f : ι → Option κ) (k : κ) (n : Nat) : Prop :=
  ∃ F : Finset ι, (∀ x, x ∈ F ↔ f x = some k) ∧ F.card = n

theorem Tally.zero (h : ∀ x, f x ≠ some k) : Tally f k 0 :=
  ⟨∅, fun x => by simp [h x], Finset.card_empty⟩

theorem Tally.congr (h : Tally f k n) (hfg : ∀ x, g x = some k ↔ f x = some k) : Tally g k n := by
  obtain ⟨F, hF, hn⟩ := h
  exact ⟨F, fun x => (hF x).trans (hfg x).symm, hn⟩

/-- A key is named somewhere exactly when its tally is not zero. -/
theorem Tally.pos (h : Tally f k n) : 0 < n ↔ ∃ x, f x = some k := by
  obtain ⟨F, hF, rfl⟩ := h
  simp only [Finset.card_pos, Finset.Nonempty, hF]

section
variable [DecidableEq ι] {x : ι} {v : Option κ}

/-- A place that did not name the key names it now. -/
theorem Tally.add (h : Tally f k n) (hx : f x ≠ some k) :
    Tally (update f x (some k)) k (n + 1) := by
  obtain ⟨F, hF, rfl⟩ := h
  refine ⟨insert x F, fun y => ?_, Finset.card_insert_of_notMem (by simp [hF, hx])⟩
  by_cases hy : y = x
  · subst hy; simp
  · simp [hy, hF]

/-- A place that named the key names it no longer. -/
theorem Tally.drop (h : Tally f k n) (hx : f x = some k) (hv : v ≠ some k) :
    Tally (update f x v) k (n - 1) := by
  obtain ⟨F, hF, rfl⟩ := h
  refine ⟨F.erase x, fun y => ?_, Finset.card_erase_of_mem ((hF x).mpr hx)⟩
  by_cases hy : y = x
  · subst hy; simp [hv]
  · simp [hy, hF]

/-- A place that names the key neither before nor after. -/
theorem Tally.skip (h : Tally f k n) (hx : f x ≠ some k) (hv : v ≠ some k) :
    Tally (update f x v) k n := by
  refine h.congr fun y => ?_
  by_cases hy : y = x
  · subst hy; simp [hv, hx]
  · simp [hy]

/-- The table without the places in `X`. -/
def hide (X : List ι) (f : ι → Option κ) (x : ι) : Option κ := if x ∈ X then none else f x

@[simp] theorem hide_nil : hide [] f = f := by
  funext x
  simp [hide]

theorem hide_of_notMem {X : List ι} (h : x ∉ X) : hide X f x = f x := if_neg h

/-- Hiding one more place. -/
theorem hide_cons (X : List ι) : hide (x :: X) f = update (hide X f) x none := by
  funext y
  by_cases hy : y = x
  · subst hy; simp [hide]
  · simp [hide, hy]

/-- An update of a place in view. -/
theorem hide_update {X : List ι} (h : x ∉ X) :
    hide X (update f x v) = update (hide X f) x v := by
  funext y
  by_cases hy : y = x
  · subst hy; simp [hide, h]
  · simp [hide, hy]

/-- A hidden place may be overwritten at will; what it is given then counts. -/
theorem hide_cons_update {X : List ι} (h : x ∉ X) :
    hide X (update f x v) = update (hide (x :: X) f) x v := by
  rw [hide_update h, hide_cons, update_idem]

end

end Zuzu.Core
