import Mathlib.Data.List.Nodup

/-!
# Items in custody

Items are numbered as they are taken in. Each waits in one of several places, in the order in
which it came, until the place is emptied; then it is gone, once and for all. `Custody at gone n`
says that of the first `n` items every one is in exactly one place, or gone, and none is
anywhere twice.

**Results.** `Custody.take`: the next item is put at the end of a place. `Custody.empty`: a place is
emptied. `Custody.fate`: what has become of an item.
-/
namespace Zuzu.Core
open Function

variable {ι : Type*} {place : ι → List Nat} {gone : List Nat} {n : Nat}

/-- Where the first `n` items are. -/
structure Custody (place : ι → List Nat) (gone : List Nat) (n : Nat) : Prop where
  sorted : ∀ i, (place i).Pairwise (· < ·)
  apart : ∀ i j k, k ∈ place i → k ∈ place j → i = j
  left : ∀ i, ∀ k ∈ place i, k ∉ gone
  once : gone.Nodup
  all : ∀ k, k < n ↔ k ∈ gone ∨ ∃ i, k ∈ place i

namespace Custody

theorem init (ι : Type*) : Custody (fun _ : ι => []) [] 0 where
  sorted _ := .nil
  apart _ _ _ h := by cases h
  left _ _ h := by cases h
  once := .nil
  all k := by simp

variable [DecidableEq ι] {i : ι}

theorem lt (h : Custody place gone n) {k : Nat} (hk : k ∈ place i) : k < n :=
  (h.all k).mpr (.inr ⟨i, hk⟩)

/-- The next item comes. -/
theorem take (h : Custody place gone n) (i : ι) :
    Custody (update place i (place i ++ [n])) gone (n + 1) := by
  have hmem : ∀ {j k}, k ∈ update place i (place i ++ [n]) j ↔
      k ∈ place j ∨ j = i ∧ k = n := by
    intro j k
    by_cases hj : j = i
    · subst hj
      simp
    · simp [hj]
  have hnew : n ∉ gone := fun hg => Nat.lt_irrefl n ((h.all n).mpr (.inl hg))
  refine ⟨fun j => ?_, fun j j' k hj hj' => ?_, fun j k hk => ?_, h.once, fun k => ?_⟩
  · by_cases hj : j = i
    · subst hj
      rw [update_self]
      refine List.pairwise_append.mpr ⟨h.sorted j, List.pairwise_singleton _ _, ?_⟩
      intro k hk m hm
      rw [List.mem_singleton.mp hm]
      exact h.lt hk
    · rw [update_of_ne hj]
      exact h.sorted j
  · rcases hmem.mp hj with hold | ⟨hji, hk⟩ <;> rcases hmem.mp hj' with hold' | ⟨hji', hk'⟩
    · exact h.apart j j' k hold hold'
    · exact absurd (h.lt hold) (by omega)
    · exact absurd (h.lt hold') (by omega)
    · exact hji.trans hji'.symm
  · rcases hmem.mp hk with hk | ⟨-, rfl⟩
    · exact h.left j k hk
    · exact hnew
  · rw [Nat.lt_succ_iff_lt_or_eq, h.all k]
    constructor
    · rintro ((hg | ⟨j, hj⟩) | rfl)
      · exact .inl hg
      · exact .inr ⟨j, hmem.mpr (.inl hj)⟩
      · exact .inr ⟨i, hmem.mpr (.inr ⟨rfl, rfl⟩)⟩
    · rintro (hg | ⟨j, hj⟩)
      · exact .inl (.inl hg)
      · rcases hmem.mp hj with hj | ⟨-, rfl⟩
        · exact .inl (.inr ⟨j, hj⟩)
        · exact .inr rfl

/-- A place is emptied. -/
theorem empty (h : Custody place gone n) (i : ι) :
    Custody (update place i []) (gone ++ place i) n := by
  have hmem : ∀ {j k}, k ∈ update place i [] j ↔ j ≠ i ∧ k ∈ place j := by
    intro j k
    by_cases hj : j = i
    · subst hj
      simp
    · simp [hj]
  refine ⟨fun j => ?_, fun j j' k hj hj' => ?_, fun j k hk => ?_, ?_, fun k => ?_⟩
  · by_cases hj : j = i
    · subst hj
      rw [update_self]
      exact .nil
    · rw [update_of_ne hj]
      exact h.sorted j
  · exact h.apart j j' k (hmem.mp hj).2 (hmem.mp hj').2
  · obtain ⟨hj, hk⟩ := hmem.mp hk
    rw [List.mem_append, not_or]
    exact ⟨h.left j k hk, fun hi => hj (h.apart j i k hk hi)⟩
  · refine List.nodup_append.mpr ⟨h.once, (h.sorted i).imp Nat.ne_of_lt, ?_⟩
    rintro k hk m hm rfl
    exact h.left i k hm hk
  · rw [h.all k, List.mem_append]
    constructor
    · rintro (hg | ⟨j, hj⟩)
      · exact .inl (.inl hg)
      · by_cases hji : j = i
        · subst hji
          exact .inl (.inr hj)
        · exact .inr ⟨j, hmem.mpr ⟨hji, hj⟩⟩
    · rintro ((hg | hi) | ⟨j, hj⟩)
      · exact .inl hg
      · exact .inr ⟨i, hi⟩
      · exact .inr ⟨j, (hmem.mp hj).2⟩

omit [DecidableEq ι] in
/-- An item is gone, or it waits in one place. -/
theorem fate (h : Custody place gone n) {k : Nat} (hk : k < n) :
    (gone.count k = 1 ∧ ∀ i, k ∉ place i) ∨
      (gone.count k = 0 ∧ ∃! i, k ∈ place i) := by
  rcases (h.all k).mp hk with hg | ⟨i, hi⟩
  · exact .inl ⟨List.count_eq_one_of_mem h.once hg, fun i hi => h.left i k hi hg⟩
  · exact .inr ⟨List.count_eq_zero.mpr (h.left i k hi), i, hi, fun j hj => h.apart j i k hj hi⟩

end Custody

end Zuzu.Core
