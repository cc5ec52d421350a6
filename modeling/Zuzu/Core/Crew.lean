import Mathlib.Data.Finset.Card
import Mathlib.Data.Fintype.Basic

/-!
# Crews

Finitely many threads, each at some place of its program. `headcount t P` is how many are
at a place that meets `P`.

**Results.** `headcount_update`: one thread moves. `headcount_pos`: some thread is there.
`headcount_le_one`: no two are.
-/
namespace Zuzu.Core
open Function
variable {ι α : Type*} [Fintype ι] {t : ι → α} {P Q : α → Bool} {i : ι} {a : α}

/-- How many threads are at a place that meets `P`. -/
def headcount (t : ι → α) (P : α → Bool) : Nat := (Finset.univ.filter fun i => P (t i)).card

theorem headcount_pos : 0 < headcount t P ↔ ∃ i, P (t i) := by
  simp [headcount, Finset.card_pos, Finset.Nonempty]

theorem headcount_eq_zero : headcount t P = 0 ↔ ∀ i, P (t i) = false := by
  simp [headcount, Finset.card_eq_zero, Finset.filter_eq_empty_iff]

theorem headcount_le_one : headcount t P ≤ 1 ↔ ∀ i j, P (t i) → P (t j) → i = j := by
  simp only [headcount, Finset.card_le_one, Finset.mem_filter, Finset.mem_univ, true_and]
  exact ⟨fun h i j hi hj => h i hi j hj, fun h i hi j hj => h i j hi hj⟩

/-- One thread moves. -/
theorem headcount_update [DecidableEq ι] (t : ι → α) (i : ι) (a : α) (P : α → Bool) :
    headcount (update t i a) P + (P (t i)).toNat = headcount t P + (P a).toNat := by
  have hsplit : ∀ u : ι → α, headcount u P =
      ((Finset.univ.erase i).filter fun j => P (u j)).card + (P (u i)).toNat := by
    intro u
    unfold headcount
    rw [← Finset.insert_erase (Finset.mem_univ i), Finset.filter_insert]
    cases hu : P (u i) with
    | false => simp
    | true => simp
  have hrest : ((Finset.univ.erase i).filter fun j => P (update t i a j)) =
      (Finset.univ.erase i).filter fun j => P (t j) := by
    refine Finset.filter_congr fun j hj => ?_
    rw [update_of_ne (Finset.ne_of_mem_erase hj)]
  rw [hsplit (update t i a), hsplit t, hrest, update_self]
  omega

end Zuzu.Core
