import Mathlib.Data.List.Pairwise
import Mathlib.Data.Set.Basic

/-!
# Tilings by intervals

`Tiles len xs S` says that the half-open intervals `[a, a + len a)` for `a` in
`xs` are non-empty and pairwise disjoint and that their union is `S`. The three edits an
allocator makes are cutting an interval in two, joining two that meet, and
adding one that lies outside.
-/
namespace Zuzu.Core

variable {len len' : Nat → Nat} {xs l r : List Nat} {S T : Set Nat} {a b : Nat}

/-- Two intervals do not meet. -/
def Apart (len : Nat → Nat) (a b : Nat) : Prop := a + len a ≤ b ∨ b + len b ≤ a

/-- The intervals that start at `xs` partition `S`. -/
structure Tiles (len : Nat → Nat) (xs : List Nat) (S : Set Nat) : Prop where
  pos : ∀ a ∈ xs, 0 < len a
  disjoint : xs.Pairwise (Apart len)
  cover : ∀ x, x ∈ S ↔ ∃ a ∈ xs, a ≤ x ∧ x < a + len a

instance : Std.Symm (Apart len) := ⟨fun _ _ => Or.symm⟩

theorem Tiles.nil : Tiles len [] ∅ := ⟨by simp, .nil, by simp⟩

/-- A tiling depends on the lengths of its own intervals only. -/
theorem Tiles.congr (h : Tiles len xs S) (hl : ∀ a ∈ xs, len' a = len a) : Tiles len' xs S := by
  refine ⟨fun a ha => ?_, h.disjoint.imp_of_mem fun {a b} ha hb hab => ?_,
    fun x => (h.cover x).trans ?_⟩
  · rw [hl a ha]
    exact h.pos a ha
  · unfold Apart
    rw [hl a ha, hl b hb]
    exact hab
  · constructor
    · rintro ⟨a, ha, h1, h2⟩
      exact ⟨a, ha, h1, by rwa [hl a ha]⟩
    · rintro ⟨a, ha, h1, h2⟩
      exact ⟨a, ha, h1, by rwa [← hl a ha]⟩

/-- Two different intervals of a tiling are apart. -/
theorem Tiles.apart (h : Tiles len xs S) (ha : a ∈ xs) (hb : b ∈ xs) (hab : a ≠ b) :
    Apart len a b :=
  h.disjoint.forall ha hb hab

/-- Lying in one of the intervals depends on their lengths only. -/
theorem exists_mem_congr {m : List Nat} (hm : ∀ y ∈ m, len' y = len y) (x : Nat) :
    (∃ y, y ∈ m ∧ y ≤ x ∧ x < y + len y) ↔ ∃ y, y ∈ m ∧ y ≤ x ∧ x < y + len' y := by
  constructor
  · rintro ⟨y, hy, h3, h4⟩
    exact ⟨y, hy, h3, by rwa [hm y hy]⟩
  · rintro ⟨y, hy, h3, h4⟩
    exact ⟨y, hy, h3, by rwa [← hm y hy]⟩

/-- Putting other intervals in the place of some, which cover the same. -/
theorem Tiles.swap {m m' : List Nat} {M : Set Nat} (h : Tiles len (l ++ m ++ r) S)
    (hm : ∀ x, x ∈ M ↔ ∃ a ∈ m, a ≤ x ∧ x < a + len a) (h' : Tiles len' m' M)
    (hrest : ∀ x ∈ l ++ r, len' x = len x) : Tiles len' (l ++ m' ++ r) S := by
  obtain ⟨hlm, hpr, hcross⟩ := List.pairwise_append.mp h.disjoint
  obtain ⟨hpl, -, hin⟩ := List.pairwise_append.mp hlm
  have hl : ∀ x ∈ l, len' x = len x := fun x hx => hrest x (by simp [hx])
  have hr : ∀ x ∈ r, len' x = len x := fun x hx => hrest x (by simp [hx])
  -- a point that a new interval shares with an old one would be in a replaced one
  have hapart : ∀ x y, len' x = len x → 0 < len x → y ∈ m' → (∀ a ∈ m, Apart len x a) →
      Apart len' x y := by
    intro x y hlen hx hy ha
    by_contra hn
    have hpos := h'.pos y hy
    unfold Apart at hn ha
    obtain ⟨a, ham, h1, h2⟩ := (hm (max x y)).mp ((h'.cover _).mpr ⟨y, hy, by omega, by omega⟩)
    have := ha a ham
    omega
  have hpos : ∀ x ∈ l ++ r, 0 < len x := fun x hx => h.pos x (by grind)
  refine ⟨fun x hx => ?_, List.pairwise_append.mpr ⟨List.pairwise_append.mpr
    ⟨?_, h'.disjoint, fun x hx y hy => ?_⟩, ?_, fun x hx y hy => ?_⟩,
    fun x => (h.cover x).trans ?_⟩
  · simp only [List.mem_append] at hx
    rcases hx with (hx | hx) | hx
    · rw [hl x hx]
      exact hpos x (by simp [hx])
    · exact h'.pos x hx
    · rw [hr x hx]
      exact hpos x (by simp [hx])
  · exact hpl.imp_of_mem fun {x y} hx hy hxy => by rwa [Apart, hl x hx, hl y hy]
  · exact hapart x y (hl x hx) (hpos x (by simp [hx])) hy (hin x hx)
  · exact hpr.imp_of_mem fun {x y} hx hy hxy => by rwa [Apart, hr x hx, hr y hy]
  · rcases List.mem_append.mp hx with hx | hx
    · have := hcross x (by simp [hx]) y hy
      rwa [Apart, hl x hx, hr y hy]
    · refine (hapart y x (hr y hy) (hpos y (by simp [hy])) hx fun a ha => ?_).symm
      exact (hcross a (by simp [ha]) y hy).symm
  · simp only [List.mem_append, or_and_right, exists_or]
    rw [exists_mem_congr hl, exists_mem_congr hr, ← hm, h'.cover]

/-- Cutting the interval at `b` in two at `a`. -/
theorem Tiles.cut (h : Tiles len (l ++ b :: r) S) (h1 : b < a) (h2 : a < b + len b)
    (hb : len' b = a - b) (ha : len' a = b + len b - a)
    (hrest : ∀ x ∈ l ++ r, len' x = len x) : Tiles len' (l ++ b :: a :: r) S := by
  have hnew : Tiles len' [b, a] {x | b ≤ x ∧ x < b + len b} := by
    refine ⟨fun x hx => ?_, ?_, fun x => ?_⟩
    · simp only [List.mem_cons, List.not_mem_nil, or_false] at hx
      rcases hx with rfl | rfl <;> omega
    · simp only [List.pairwise_pair, Apart]
      omega
    · simp
      omega
  rw [← List.singleton_append, ← List.append_assoc] at h
  simpa using h.swap (by simp) hnew hrest

/-- Joining two intervals that meet and stand next to each other. -/
theorem Tiles.join (h : Tiles len (l ++ b :: a :: r) S) (hab : b + len b = a)
    (hb : len' b = len b + len a) (hrest : ∀ x ∈ l ++ r, len' x = len x) :
    Tiles len' (l ++ b :: r) S := by
  have hpos := h.pos b (by simp)
  have hnew : Tiles len' [b] {x | b ≤ x ∧ x < b + len' b} :=
    ⟨fun x hx => by rw [List.mem_singleton.mp hx]; omega, by simp, by simp⟩
  have h' : Tiles len (l ++ [b, a] ++ r) S := by simpa using h
  have hcover : ∀ x, x ∈ {x | b ≤ x ∧ x < b + len' b} ↔ ∃ y ∈ [b, a], y ≤ x ∧ x < y + len y := by
    simp
    omega
  simpa using h'.swap hcover hnew hrest

/-- Adding an interval that lies outside. -/
theorem Tiles.add (h : Tiles len xs S) (h0 : 0 < len a)
    (ha : ∀ x ∈ S, ¬(a ≤ x ∧ x < a + len a)) :
    Tiles len (xs ++ [a]) (S ∪ {x | a ≤ x ∧ x < a + len a}) := by
  refine ⟨fun x hx => ?_, List.pairwise_append.mpr ⟨h.disjoint, by simp, fun x hx y hy => ?_⟩,
    fun x => ?_⟩
  · rcases List.mem_append.mp hx with hx | hx
    · exact h.pos x hx
    · rwa [List.mem_singleton.mp hx]
  · rw [List.mem_singleton.mp hy]
    -- if they met, one of the two first elements would be in both
    have hx0 := h.pos x hx
    have h1 := ha x ((h.cover x).mpr ⟨x, hx, le_rfl, by omega⟩)
    by_contra hn
    unfold Apart at hn
    exact ha a ((h.cover a).mpr ⟨x, hx, by omega, by omega⟩) ⟨le_rfl, by omega⟩
  · simp only [Set.mem_union, Set.mem_ofPred_eq, List.mem_append, List.mem_singleton, or_and_right,
      exists_or, exists_eq_left, h.cover x]

end Zuzu.Core
