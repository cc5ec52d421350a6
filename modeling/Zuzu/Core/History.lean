import Mathlib.Data.List.Basic

/-!
# Histories

A list of what has happened, oldest first. `Each P l` says that every entry meets `P`
together with what had happened before it, so that `P` can speak about the moment of the entry.

**Results.** `Each.concat`: one more entry.
-/
namespace Zuzu.Core
variable {α : Type*} {P Q : List α → α → Prop} {l : List α} {x : α}

/-- Every entry of `l` meets `P` together with the entries before it. -/
def Each (P : List α → α → Prop) (l : List α) : Prop :=
  ∀ before x after, l = before ++ x :: after → P before x

theorem Each.nil : Each P [] := by
  intro before x after h
  simp at h

theorem Each.concat (h : Each P l) (hx : P l x) : Each P (l ++ [x]) := by
  intro before y after heq
  rcases List.eq_nil_or_concat after with rfl | ⟨after', z, rfl⟩
  · obtain ⟨rfl, hxy⟩ := List.append_inj' heq rfl
    cases hxy
    exact hx
  · rw [List.concat_eq_append, ← List.cons_append, ← List.append_assoc] at heq
    exact h before y after' (List.append_inj' heq rfl).1

end Zuzu.Core
