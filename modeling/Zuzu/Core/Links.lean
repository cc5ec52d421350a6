import Mathlib.Data.List.DropRight
import Mathlib.Data.List.Nodup

/-!
# Intrusive lists

A node embedded in an object is on at most one of a family of lists. `loc`
says which list an object's node is linked into, `list` what each list head
enumerates. Adding a node that is already linked is not prevented: it leaves
the two views out of step, so that "every node is on exactly the list it says"
(`WF`) is a fact to prove about the code that links and unlinks.
-/
namespace Zuzu.Core
open Function

/-- Nodes of objects `τ` on the lists headed by `ι`. -/
structure Links (τ ι : Type*) where
  loc : τ → Option ι
  list : ι → List τ

namespace Links
variable {τ ι : Type*} [DecidableEq τ] [DecidableEq ι]

def empty : Links τ ι := ⟨fun _ => none, fun _ => []⟩

/-- Unlink a node from the list it is on. -/
def remove (l : Links τ ι) (t : τ) : Links τ ι :=
  match l.loc t with
  | none => l
  | some q => ⟨Function.update l.loc t none, Function.update l.list q ((l.list q).erase t)⟩

/-- Link a node into list `q`, at the place `f` puts it. -/
def place (l : Links τ ι) (q : ι) (t : τ) (f : List τ → List τ) : Links τ ι :=
  ⟨Function.update l.loc t (some q), Function.update l.list q (f (l.list q))⟩

def pushBack (l : Links τ ι) (q : ι) (t : τ) : Links τ ι := l.place q t (· ++ [t])

def pushFront (l : Links τ ι) (q : ι) (t : τ) : Links τ ι := l.place q t (t :: ·)

/-- Behind the last element that does not yield. -/
def insertBehind (yields : τ → Bool) (t : τ) (l : List τ) : List τ :=
  l.rdropWhile yields ++ t :: l.rtakeWhile yields

/-- Every node is on the list it says and on no other, once. -/
structure WF (l : Links τ ι) : Prop where
  mem : ∀ t q, t ∈ l.list q ↔ l.loc t = some q
  nodup : ∀ q, (l.list q).Nodup

variable {l : Links τ ι} {t : τ} {q : ι}

@[simp] theorem remove_loc : (l.remove t).loc = update l.loc t none := by
  unfold remove
  split
  · rename_i h
    rw [← h, update_eq_self]
  · rfl

@[simp] theorem pushBack_loc : (l.pushBack q t).loc = update l.loc t (some q) := rfl

omit [DecidableEq τ] [DecidableEq ι] in
theorem WF.empty : WF (Links.empty : Links τ ι) :=
  ⟨fun t q => by simp [Links.empty], fun q => by simp [Links.empty]⟩

theorem WF.remove (h : l.WF) (t : τ) : (l.remove t).WF := by
  cases hl : l.loc t with
  | none => rwa [Links.remove, hl]
  | some q =>
    rw [show l.remove t = ⟨update l.loc t none,
        update l.list q ((l.list q).erase t)⟩ by rw [Links.remove, hl]]
    constructor
    · intro u r
      by_cases hr : r = q
      · subst hr
        by_cases hu : u = t
        · subst hu
          simp [(h.nodup r).not_mem_erase]
        · simp [hu, h.mem, List.mem_erase_of_ne]
      · by_cases hu : u = t
        · subst hu
          simp [hr, h.mem, hl, Ne.symm hr]
        · simp [hr, hu, h.mem]
    · intro r
      by_cases hr : r = q
      · subst hr
        simpa using (h.nodup r).erase t
      · simpa [hr] using h.nodup r

theorem WF.place (h : l.WF) (ht : l.loc t = none) {f : List τ → List τ}
    (hf : (f (l.list q)).Perm (t :: l.list q)) : (l.place q t f).WF := by
  have hnew : ∀ r, t ∉ l.list r := fun r hm => by simp [h.mem, ht] at hm
  constructor
  · intro u r
    by_cases hr : r = q
    · subst hr
      by_cases hu : u = t
      · subst hu
        simp [Links.place, hf.mem_iff]
      · simp [Links.place, hf.mem_iff, hu, h.mem]
    · by_cases hu : u = t
      · subst hu
        simp [Links.place, hr, hnew, Ne.symm hr]
      · simp [Links.place, hr, hu, h.mem]
  · intro r
    by_cases hr : r = q
    · subst hr
      simpa [Links.place] using hf.nodup_iff.mpr (List.nodup_cons.mpr ⟨hnew r, h.nodup r⟩)
    · simpa [Links.place, hr] using h.nodup r

theorem WF.pushBack (h : l.WF) (ht : l.loc t = none) : (l.pushBack q t).WF :=
  h.place ht (List.perm_append_singleton t _)

omit [DecidableEq τ] [DecidableEq ι] in
/-- The first element of a list says it is there. -/
theorem WF.loc_head (h : l.WF) {rest : List τ} (hq : l.list q = t :: rest) : l.loc t = some q :=
  (h.mem t q).mp (by simp [hq])

theorem WF.remove_head (h : l.WF) {rest : List τ} (hq : l.list q = t :: rest) :
    (l.remove t).list q = rest := by
  rw [Links.remove, h.loc_head hq]
  simp [hq]

end Links
end Zuzu.Core
