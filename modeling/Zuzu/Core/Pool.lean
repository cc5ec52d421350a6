import Mathlib.Data.Set.Basic
import Zuzu.Core.LTS

/-!
# Resource pools

What any allocator is for: a set of free items, from which an event takes some
and to which it gives some back. `acquire_twice` is the property clients rely
on: an item that is taken twice along one history was given back in between.
An implementation inherits it by refining the pool.
-/
namespace Zuzu.Core.Pool

/-- One change of the pool: `took` leaves it, `gave` returns to it. -/
structure Event (α : Type*) where
  took : Set α
  gave : Set α

variable {α : Type*}

/-- Pools over `α`, from any set of free items. An event takes free items only;
items may also leave the pool unannounced, but none enters it so. -/
def system : LTS (Set α) (Event α) where
  init _ := True
  step free e free' := e.took ⊆ free ∧ free' ⊆ (free \ e.took) ∪ e.gave

/-- An item that is not free stays so until it is given back. -/
theorem stays_taken {free free' : Set α} {es : List (Event α)} (h : system.Run free es free')
    {x : α} (hx : x ∉ free) (hes : ∀ e ∈ es, x ∉ e.gave) : x ∉ free' := by
  induction h with
  | nil => exact hx
  | @cons free mid free' e es hs _ ih =>
    refine ih (fun hm => ?_) fun e' he' => hes e' (List.mem_cons_of_mem _ he')
    rcases hs.2 hm with h | h
    · exact hx h.1
    · exact hes e List.mem_cons_self h

/-- An item taken by two events of one history was given back between them, or
by the first of them. -/
theorem acquire_twice {free free' : Set α} {e₁ e₂ : Event α} {es es₁ es₂ : List (Event α)}
    (h : system.Run free (es₁ ++ e₁ :: es ++ e₂ :: es₂) free') {x : α} (h₁ : x ∈ e₁.took)
    (h₂ : x ∈ e₂.took) : x ∈ e₁.gave ∨ ∃ e ∈ es, x ∈ e.gave := by
  by_contra hne
  simp only [not_or, not_exists, not_and] at hne
  rw [List.append_assoc] at h
  obtain ⟨m, -, hm⟩ := h.split
  cases hm with
  | @cons _ mid _ _ _ hs₁ hrest =>
    obtain ⟨m', hr, hm'⟩ := hrest.split
    have hmid : x ∉ mid := fun hx => by
      rcases hs₁.2 hx with h | h
      · exact h.2 h₁
      · exact hne.1 h
    cases hm' with
    | cons hs₂ _ => exact stays_taken hr hmid hne.2 (hs₂.1 h₂)

end Zuzu.Core.Pool
