import Mathlib.Data.List.Count
import Zuzu.Types

/-!
# The table of local ports (`netd/transport/port.c`)

`held` has `PORT_MAX_HELD` cells, 0 in a free one. `PortAlloc` walks over the ephemeral
range from a rotating cursor and takes the first port that is not held. Paths are relative to
`user/services/`.

**Results.** What each call does to the number of cells that hold a port (`count_reserve`,
`alloc_cases`, `count_release`), and that what `PortAlloc` returns was not held and is
ephemeral.
-/
namespace Zuzu.L5

/-- mirrors netd/transport/port.c:6 and netd/transport/port.h:14-15 -/
def portMaxHeld : Nat := 64
def portEphemeralMin : Nat := 49152
def portEphemeralMax : Nat := 65535

/-- mirrors netd/transport/port.c:8-9 -/
structure Ports where
  held : List Nat
  next : Nat

namespace Ports

/-- mirrors netd/transport/port.c:11-16 -/
def init : Ports := ⟨List.replicate portMaxHeld 0, portEphemeralMin⟩

/-- mirrors netd/transport/port.c:18-24 -/
def isHeld (t : Ports) (port : Nat) : Bool := port ∈ t.held

/-- The first free cell takes the port; `none` when the table is full.
mirrors netd/transport/port.c:27-36 -/
def hold (t : Ports) (port : Nat) : Option Ports :=
  if 0 ∈ t.held then some { t with held := t.held.replace 0 port } else none

/-- mirrors netd/transport/port.c:38-43 -/
def reserve (t : Ports) (port : Nat) : Option Ports :=
  if port = 0 ∨ t.isHeld port then none else t.hold port

/-- mirrors netd/transport/port.c:50-51 -/
def bump (next : Nat) : Nat :=
  if next = portEphemeralMax then portEphemeralMin else (next + 1) % 2 ^ 16

/-- The rounds of `PortAlloc` that are left. mirrors netd/transport/port.c:48-55 -/
def allocFrom : Nat → Ports → Ports × Nat
  | 0, t => (t, 0)
  | rounds + 1, t =>
    let port := t.next
    let t := { t with next := bump t.next }
    if t.isHeld port then allocFrom rounds t
    else
      match t.hold port with
      | some t => (t, port)
      | none => allocFrom rounds t

/-- mirrors netd/transport/port.c:45-56 -/
def alloc (t : Ports) : Ports × Nat := t.allocFrom (portEphemeralMax - portEphemeralMin + 1)

/-- mirrors netd/transport/port.c:58-66 -/
def release (t : Ports) (port : Nat) : Ports := { t with held := t.held.replace port 0 }

end Ports

/-- Replacing one entry moves one occurrence. -/
theorem count_replace {α : Type} [DecidableEq α] {a : α} (b x : α) :
    ∀ {l : List α}, a ∈ l → (l.replace a b).count x + (if a = x then 1 else 0) =
      l.count x + (if b = x then 1 else 0)
  | [], h => absurd h List.not_mem_nil
  | y :: l, h => by
    by_cases hy : y = a
    · subst hy
      simp only [List.replace_cons_self, List.count_cons, beq_iff_eq]
      omega
    · have hm : a ∈ l := (List.mem_cons.mp h).resolve_left fun h => hy h.symm
      have hr : (y :: l).replace a b = y :: l.replace a b := by
        rw [List.replace_cons, beq_eq_false_iff_ne.mpr fun h => hy h.symm]
      rw [hr]
      have ih := count_replace b x hm
      simp only [List.count_cons]
      omega

namespace Ports

variable {t t' : Ports} {port x : Nat}

theorem count_hold (h : t.hold port = some t') (hx : x ≠ 0) :
    t'.held.count x = t.held.count x + (if port = x then 1 else 0) := by
  unfold hold at h
  split at h
  · rename_i h0
    cases h
    have := count_replace port x h0
    rw [if_neg (Ne.symm hx)] at this
    exact this
  · cases h

theorem count_reserve (h : t.reserve port = some t') (hx : x ≠ 0) :
    t'.held.count x = t.held.count x + (if port = x then 1 else 0) := by
  unfold reserve at h
  split at h
  · cases h
  · exact count_hold h hx

theorem reserve_fresh (h : t.reserve port = some t') : port ≠ 0 ∧ port ∉ t.held := by
  unfold reserve at h
  split at h
  · cases h
  · rename_i hn
    rw [not_or] at hn
    exact ⟨hn.1, fun hm => hn.2 (decide_eq_true hm)⟩

theorem count_release (hx : x ≠ 0) :
    (t.release port).held.count x =
      t.held.count x - (if port = x ∧ port ∈ t.held then 1 else 0) := by
  unfold release
  by_cases hm : port ∈ t.held
  · have := count_replace 0 x hm
    rw [if_neg (Ne.symm hx)] at this
    simp only [hm, and_true]
    omega
  · rw [if_neg fun h => hm h.2]
    exact congrArg (List.count x) (List.replace_of_not_mem (by simpa using hm))

theorem bump_range {next : Nat} (h : portEphemeralMin ≤ next ∧ next ≤ portEphemeralMax) :
    portEphemeralMin ≤ bump next ∧ bump next ≤ portEphemeralMax := by
  unfold bump
  unfold portEphemeralMin portEphemeralMax at *
  split <;> omega

/-- The cursor stays in the ephemeral range. -/
def InRange (t : Ports) : Prop := portEphemeralMin ≤ t.next ∧ t.next ≤ portEphemeralMax

/-- The rounds of `PortAlloc`: it fails and leaves the cells alone, or one free cell takes a
port of the ephemeral range that was not held. -/
theorem allocFrom_cases : ∀ (rounds : Nat) (t : Ports), t.InRange →
    (t.allocFrom rounds).1.InRange ∧
      (((t.allocFrom rounds).2 = 0 ∧ (t.allocFrom rounds).1.held = t.held) ∨
        (portEphemeralMin ≤ (t.allocFrom rounds).2 ∧ (t.allocFrom rounds).2 ≤ portEphemeralMax ∧
          (t.allocFrom rounds).2 ∉ t.held ∧
          ∀ x, x ≠ 0 → (t.allocFrom rounds).1.held.count x =
            t.held.count x + (if (t.allocFrom rounds).2 = x then 1 else 0)))
  | 0, t, h => ⟨h, .inl ⟨rfl, rfl⟩⟩
  | rounds + 1, t, h => by
    have hb : InRange { t with next := bump t.next } := bump_range h
    unfold allocFrom
    dsimp only
    split
    · exact allocFrom_cases rounds _ hb
    · rename_i hfree
      split
      · rename_i t' ht
        refine ⟨?_, .inr ⟨h.1, h.2, fun hm => hfree (decide_eq_true hm), fun x hx => ?_⟩⟩
        · unfold hold at ht
          split at ht
          · cases ht
            exact hb
          · cases ht
        · have hcount := count_hold ht hx
          exact hcount
      · exact allocFrom_cases rounds _ hb

/-- **What `PortAlloc` does.** -/
theorem alloc_cases (h : t.InRange) :
    t.alloc.1.InRange ∧ ((t.alloc.2 = 0 ∧ t.alloc.1.held = t.held) ∨
      (portEphemeralMin ≤ t.alloc.2 ∧ t.alloc.2 ≤ portEphemeralMax ∧ t.alloc.2 ∉ t.held ∧
        ∀ x, x ≠ 0 → t.alloc.1.held.count x =
          t.held.count x + (if t.alloc.2 = x then 1 else 0))) :=
  allocFrom_cases _ t h

/-- One free cell of `t` has taken a port that was not held. -/
structure Takes (t t' : Ports) (port : Nat) : Prop where
  range : t'.InRange
  ne : port ≠ 0
  fresh : port ∉ t.held
  count : ∀ x, x ≠ 0 → t'.held.count x = t.held.count x + (if port = x then 1 else 0)

theorem reserve_takes (h : t.reserve port = some t') (hr : t.InRange) : Takes t t' port := by
  refine ⟨?_, (reserve_fresh h).1, (reserve_fresh h).2, fun x hx => count_reserve h hx⟩
  unfold reserve hold at h
  split at h
  · cases h
  split at h
  · cases h
    exact hr
  · cases h

theorem alloc_takes (h : t.alloc.2 ≠ 0) (hr : t.InRange) : Takes t t.alloc.1 t.alloc.2 := by
  obtain ⟨hr', ⟨h0, -⟩ | ⟨-, -, hf, hc⟩⟩ := alloc_cases hr
  · exact absurd h0 h
  · exact ⟨hr', h, hf, hc⟩

/-- Giving the port back. -/
theorem Takes.release (h : Takes t t' port) :
    (t'.release port).InRange ∧ ∀ x, x ≠ 0 → (t'.release port).held.count x = t.held.count x := by
  refine ⟨h.range, fun x hx => ?_⟩
  have hc := h.count x hx
  rw [count_release hx, hc]
  by_cases hp : port = x
  · subst hp
    have hm : port ∈ t'.held := by
      rw [← List.count_pos_iff, hc, if_pos rfl]
      omega
    rw [if_pos rfl, if_pos ⟨rfl, hm⟩]
    omega
  · rw [if_neg hp, if_neg fun h => hp h.1]
    omega

end Ports
end Zuzu.L5
