import Mathlib.Data.Nat.ModEq
import Zuzu.Core.LTS

/-!
# Slot generations

A table of reusable slots keeps a generation per slot and advances it with
`next` whenever the slot changes hands; a reference records the generation it
was made with. `run_gen` says that along an execution a slot's generation is
the initial one advanced once per change, so a reference can match again only
when a number of changes has passed after which `next` repeats itself.
-/
namespace Zuzu.Core.Generation

variable {ι γ : Type*} [DecidableEq ι] {next : γ → γ}

/-- Tables of generations. A label names the slot that changes hands, if any. -/
def system (next : γ → γ) : LTS (ι → γ) (Option ι) where
  init _ := True
  step g l g' := match l with
    | none => g' = g
    | some i => g' = Function.update g i (next (g i))

/-- The generation of a slot is advanced once per label that names it. -/
theorem run_gen {g g' : ι → γ} {ls : List (Option ι)} (h : (system next).Run g ls g') (i : ι) :
    g' i = next^[ls.count (some i)] (g i) := by
  induction h with
  | nil => rfl
  | @cons g mid g' l ls hs _ ih =>
    cases l with
    | none =>
      cases hs
      rw [ih, List.count_cons_of_ne (by simp)]
    | some j =>
      cases hs
      by_cases hij : j = i
      · subst hij
        rw [ih, List.count_cons_self, Function.update_self, Function.iterate_succ_apply]
      · rw [ih, List.count_cons_of_ne (by simp [hij]), Function.update_of_ne (Ne.symm hij)]

/-- Counting modulo `m`, as many steps as come back to the start are a multiple of `m`. -/
theorem iterate_succ_mod {m g : Nat} (hg : g < m) (n : Nat) :
    (fun k => (k + 1) % m)^[n] g = (g + n) % m := by
  induction n with
  | zero => rw [Function.iterate_zero_apply, Nat.add_zero, Nat.mod_eq_of_lt hg]
  | succ n ih =>
    rw [Function.iterate_succ_apply', ih]
    simp [Nat.add_assoc]

theorem iterate_succ_mod_ne {m g n : Nat} (hg : g < m) (h0 : 0 < n) (hn : n < m) :
    (fun k => (k + 1) % m)^[n] g ≠ g := by
  rw [iterate_succ_mod hg]
  intro h
  have h1 : (g + n) % m = g % m := by rw [h, Nat.mod_eq_of_lt hg]
  have h2 : n % m = 0 := by
    have : (g + n) ≡ (g + 0) [MOD m] := h1
    simpa [Nat.ModEq] using Nat.ModEq.add_left_cancel' g this
  rw [Nat.mod_eq_of_lt hn] at h2
  omega

end Zuzu.Core.Generation
