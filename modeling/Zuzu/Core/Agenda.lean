import Mathlib.Data.List.Pairwise

/-!
# Insertion into an ordered list

A new entry goes before the first one that a test stops at. When the test agrees with an
order on the entries that are there, the list stays ordered.

**Results.** `mem_insertBefore`, `perm_insertBefore`, `pairwise_insertBefore`.
-/
namespace Zuzu.Core
variable {α : Type*} {stop : α → Bool} {x y : α} {l : List α}

/-- `x` in front of the first entry at which `stop` holds, or at the end. -/
def insertBefore (stop : α → Bool) (x : α) : List α → List α
  | [] => [x]
  | y :: l => if stop y then x :: y :: l else y :: insertBefore stop x l

theorem mem_insertBefore : ∀ {l : List α}, y ∈ insertBefore stop x l ↔ y = x ∨ y ∈ l
  | [] => by simp [insertBefore]
  | z :: l => by
    rw [insertBefore]
    split
    · rw [List.mem_cons]
    · rw [List.mem_cons, mem_insertBefore, List.mem_cons, or_left_comm]

theorem perm_insertBefore (stop : α → Bool) (x : α) :
    ∀ l : List α, (insertBefore stop x l).Perm (x :: l)
  | [] => .refl _
  | y :: l => by
    rw [insertBefore]
    split
    · exact .refl _
    · exact ((perm_insertBefore stop x l).cons y).trans (.swap x y l)

theorem pairwise_insertBefore {r : α → α → Prop} (htrans : ∀ {a b c}, r a b → r b c → r a c) :
    ∀ {l : List α}, l.Pairwise r → (∀ y ∈ l, stop y = true → r x y) →
      (∀ y ∈ l, stop y = false → r y x) → (insertBefore stop x l).Pairwise r
  | [], _, _, _ => List.pairwise_singleton r x
  | z :: l, h, hstop, hpass => by
    obtain ⟨hz, hl⟩ := List.pairwise_cons.mp h
    rw [insertBefore]
    split
    · rename_i hs
      have hxz := hstop z List.mem_cons_self hs
      refine List.pairwise_cons.mpr ⟨fun w hw => ?_, h⟩
      rcases List.mem_cons.mp hw with rfl | hw
      · exact hxz
      · exact htrans hxz (hz w hw)
    · rename_i hs
      have ih := pairwise_insertBefore (r := r) htrans hl (fun w hw => hstop w (List.mem_cons_of_mem z hw))
        (fun w hw => hpass w (List.mem_cons_of_mem z hw))
      refine List.pairwise_cons.mpr ⟨fun w hw => ?_, ih⟩
      rcases mem_insertBefore.mp hw with rfl | hw
      · exact hpass z List.mem_cons_self (Bool.eq_false_iff.mpr hs)
      · exact hz w hw

end Zuzu.Core
