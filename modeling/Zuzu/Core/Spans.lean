import Mathlib.Order.Lattice
import Mathlib.Tactic.Tauto

/-!
# Spans of positions

A set of positions kept as a list of spans `[start, stop)`, in order, with a gap
before each. A new span is inserted by its start and then fused with those it
touches; `absorb` moves a position over the spans that it has reached.

**Results.** `fuse_apart`, `covers_fuse`: fusing gives spans with gaps that cover the same
positions. `absorb_apart`, `absorb_covers`: the spans left have gaps again, and
what was passed over was covered.
-/
namespace Zuzu.Core.Spans

abbrev Span := Nat × Nat

variable {n m s a i : Nat} {x : Span} {xs : List Span}

/-- Spans in order, none empty, with a gap before each one, the first after `n`. -/
def Apart : Nat → List Span → Prop
  | _, [] => True
  | n, x :: xs => n < x.1 ∧ x.1 < x.2 ∧ Apart x.2 xs

instance Apart.decidable : (n : Nat) → (xs : List Span) → Decidable (Apart n xs)
  | _, [] => inferInstanceAs (Decidable True)
  | n, x :: xs =>
    have := Apart.decidable x.2 xs
    inferInstanceAs (Decidable (n < x.1 ∧ x.1 < x.2 ∧ Apart x.2 xs))

/-- Spans in the order of their starts, none empty, from `s` on. -/
def Rising : Nat → List Span → Prop
  | _, [] => True
  | s, x :: xs => s ≤ x.1 ∧ x.1 < x.2 ∧ Rising x.1 xs

/-- A position is in one of the spans. -/
def Covers (xs : List Span) (i : Nat) : Prop := ∃ x ∈ xs, x.1 ≤ i ∧ i < x.2

def insert (x : Span) : List Span → List Span
  | [] => [x]
  | y :: ys => if y.1 < x.1 then y :: insert x ys else x :: y :: ys

def fuseFrom (x : Span) : List Span → List Span
  | [] => [x]
  | y :: ys => if y.1 ≤ x.2 then fuseFrom (x.1, max x.2 y.2) ys else x :: fuseFrom y ys

def fuse : List Span → List Span
  | [] => []
  | x :: xs => fuseFrom x xs

def absorb : Nat → List Span → Nat × List Span
  | n, [] => (n, [])
  | n, x :: xs => if x.1 ≤ n then absorb (max n x.2) xs else (n, x :: xs)

theorem Apart.mono (h : Apart n xs) (hm : m ≤ n) : Apart m xs := by
  cases xs with
  | nil => trivial
  | cons x xs => exact ⟨by have := h.1; omega, h.2⟩

theorem Rising.mono (h : Rising n xs) (hm : m ≤ n) : Rising m xs := by
  cases xs with
  | nil => trivial
  | cons x xs => exact ⟨by have := h.1; omega, h.2⟩

theorem Apart.rising (h : Apart n xs) (hs : s ≤ n + 1) : Rising s xs := by
  induction xs generalizing n s with
  | nil => trivial
  | cons x xs ih =>
    obtain ⟨h1, h2, h3⟩ := h
    exact ⟨by omega, h2, ih h3 (by omega)⟩

theorem Apart.lower (h : Apart n xs) (hx : x ∈ xs) : n < x.1 ∧ x.1 < x.2 := by
  induction xs generalizing n with
  | nil => cases hx
  | cons y ys ih =>
    obtain ⟨h1, h2, h3⟩ := h
    rcases List.mem_cons.mp hx with rfl | hx
    · exact ⟨h1, h2⟩
    · have := ih h3 hx
      omega

/-- Spans keep their gaps when positions are counted from a later one. -/
theorem Apart.shift (h : Apart n xs) (hm : m ≤ n) :
    Apart (n - m) (xs.map fun x => (x.1 - m, x.2 - m)) := by
  induction xs generalizing n with
  | nil => trivial
  | cons x xs ih =>
    obtain ⟨h1, h2, h3⟩ := h
    exact ⟨by simp only; omega, by simp only; omega, ih h3 (by omega)⟩

/-! ## Inserting and fusing -/

theorem mem_insert {y : Span} : y ∈ insert x xs ↔ y = x ∨ y ∈ xs := by
  induction xs with
  | nil => simp [insert]
  | cons z zs ih =>
    unfold insert
    split
    · rw [List.mem_cons, ih, List.mem_cons]
      tauto
    · rw [List.mem_cons]

theorem length_insert (x : Span) (xs : List Span) : (insert x xs).length = xs.length + 1 := by
  induction xs with
  | nil => rfl
  | cons y ys ih =>
    unfold insert
    split
    · rw [List.length_cons, ih, List.length_cons]
    · rfl

theorem insert_rising (h : Rising s xs) (hs : s ≤ x.1) (hx : x.1 < x.2) :
    Rising s (insert x xs) := by
  induction xs generalizing s with
  | nil => exact ⟨hs, hx, trivial⟩
  | cons y ys ih =>
    obtain ⟨h1, h2, h3⟩ := h
    unfold insert
    split
    · exact ⟨h1, h2, ih h3 (by omega)⟩
    · exact ⟨hs, hx, by omega, h2, h3⟩

theorem fuseFrom_apart (hn : n < x.1) (hx : x.1 < x.2) (h : Rising x.1 xs) :
    Apart n (fuseFrom x xs) := by
  induction xs generalizing n x with
  | nil => exact ⟨hn, hx, trivial⟩
  | cons y ys ih =>
    obtain ⟨h1, h2, h3⟩ := h
    unfold fuseFrom
    split
    · exact ih hn (by simp only; omega) (h3.mono h1)
    · exact ⟨hn, hx, ih (by omega) h2 h3⟩

theorem fuse_apart (h : Rising (n + 1) xs) : Apart n (fuse xs) := by
  cases xs with
  | nil => trivial
  | cons x xs => exact fuseFrom_apart h.1 h.2.1 h.2.2

theorem covers_fuseFrom (h : Rising x.1 xs) :
    Covers (fuseFrom x xs) i ↔ x.1 ≤ i ∧ i < x.2 ∨ Covers xs i := by
  induction xs generalizing x with
  | nil => simp [fuseFrom, Covers]
  | cons y ys ih =>
    obtain ⟨h1, h2, h3⟩ := h
    unfold fuseFrom
    split
    · rw [ih (x := (x.1, max x.2 y.2)) (h3.mono h1)]
      simp only [Covers, List.mem_cons, exists_eq_or_imp]
      rw [← or_assoc]
      refine or_congr_left ?_
      omega
    · have := ih h3
      simp only [Covers, List.mem_cons, exists_eq_or_imp] at this ⊢
      rw [this]

theorem covers_fuse (h : Rising s xs) : Covers (fuse xs) i ↔ Covers xs i := by
  cases xs with
  | nil => rfl
  | cons x xs =>
    rw [fuse, covers_fuseFrom h.2.2]
    simp [Covers]

theorem covers_insert : Covers (insert x xs) i ↔ x.1 ≤ i ∧ i < x.2 ∨ Covers xs i := by
  simp only [Covers, mem_insert, exists_eq_or_imp]

theorem length_fuseFrom (x : Span) (xs : List Span) :
    (fuseFrom x xs).length ≤ xs.length + 1 := by
  induction xs generalizing x with
  | nil => exact le_refl _
  | cons y ys ih =>
    unfold fuseFrom
    split
    · exact (ih _).trans (by simp)
    · simpa using ih y

theorem length_fuse (xs : List Span) : (fuse xs).length ≤ xs.length := by
  cases xs with
  | nil => exact le_refl _
  | cons x xs => exact length_fuseFrom x xs

theorem fuseFrom_le (hx : x.2 ≤ a) (h : ∀ y ∈ xs, y.2 ≤ a) : ∀ y ∈ fuseFrom x xs, y.2 ≤ a := by
  induction xs generalizing x with
  | nil => simpa [fuseFrom] using hx
  | cons y ys ih =>
    obtain ⟨hy, hys⟩ := List.forall_mem_cons.mp h
    unfold fuseFrom
    split
    · exact ih (max_le hx hy) hys
    · exact List.forall_mem_cons.mpr ⟨hx, ih hy hys⟩

theorem fuse_le (h : ∀ y ∈ xs, y.2 ≤ a) : ∀ y ∈ fuse xs, y.2 ≤ a := by
  cases xs with
  | nil => exact h
  | cons x xs =>
    obtain ⟨hx, hxs⟩ := List.forall_mem_cons.mp h
    exact fuseFrom_le hx hxs

/-! ## Moving over spans -/

theorem absorb_ge (n : Nat) (xs : List Span) : n ≤ (absorb n xs).1 := by
  induction xs generalizing n with
  | nil => exact le_refl _
  | cons x xs ih =>
    unfold absorb
    split
    · exact (le_max_left _ _).trans (ih _)
    · exact le_refl _

theorem absorb_le (hn : n ≤ a) (h : ∀ x ∈ xs, x.2 ≤ a) : (absorb n xs).1 ≤ a := by
  induction xs generalizing n with
  | nil => exact hn
  | cons x xs ih =>
    obtain ⟨hx, hxs⟩ := List.forall_mem_cons.mp h
    unfold absorb
    split
    · exact ih (max_le hn hx) hxs
    · exact hn

/-- What is left is the end of the list. -/
theorem absorb_suffix (n : Nat) (xs : List Span) : (absorb n xs).2 <:+ xs := by
  induction xs generalizing n with
  | nil => exact List.suffix_refl _
  | cons x xs ih =>
    unfold absorb
    split
    · exact (ih _).trans (List.suffix_cons _ _)
    · exact List.suffix_refl _

theorem absorb_apart (h : Apart m xs) : Apart (absorb n xs).1 (absorb n xs).2 := by
  induction xs generalizing n m with
  | nil => trivial
  | cons x xs ih =>
    unfold absorb
    split
    · exact ih h.2.2
    · exact ⟨by omega, h.2⟩

theorem absorb_covers (hi : n ≤ i) (hlt : i < (absorb n xs).1) : Covers xs i := by
  induction xs generalizing n with
  | nil => simp only [absorb] at hlt; omega
  | cons x xs ih =>
    unfold absorb at hlt
    split at hlt
    · by_cases hx : i < x.2
      · exact ⟨x, by simp, by omega, hx⟩
      · obtain ⟨y, hy, h⟩ := ih (by omega) hlt
        exact ⟨y, List.mem_cons_of_mem _ hy, h⟩
    · simp only at hlt
      omega

end Zuzu.Core.Spans
