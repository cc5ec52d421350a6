import Zuzu.Core.Bits
import Zuzu.Types

/-!
# The ASID allocator

Embeds arch/arm/mmu/asid.c with the flushes of arch/arm/mmu/mmu.c:434-448.
An ASID is eight bits wide; the allocator hands them out from a bitmap, and
when none is left starts a new generation: everything is flushed, the bitmap
is cleared but for ASID 0 and the one loaded on the CPU, and tokens of older
generations are worth nothing any more.

The TLB is hardware. It is a list of entries, each tagged with the ASID that
was loaded when it was cached and with the address space it was read from.

`epoch` counts the generations without the wrap of the 32-bit counter; no
function of the kernel reads it.

**Results.** `asidAlloc_spec` says what an allocation can do: claim a clear
bit of the current generation, or start a new one and claim a bit there.
-/
namespace Zuzu.L1.Asid
open Zuzu.Core

/-- mirrors arch/include/arch/asid.h:22-25 -/
structure AsidToken where
  asid : Nat
  generation : Nat
  deriving DecidableEq, Repr

/-- A cached translation: the ASID it is tagged with, the address space it was
walked in, and its page. -/
structure TlbEntry where
  asid : Nat
  owner : Nat
  page : Nat
  deriving DecidableEq, Repr

/-- mirrors arch/arm/mmu/asid.c:11 -/
def asidCount : Nat := 256

/-- mirrors arch/arm/mmu/asid.c:14-23, with the TLB. -/
structure Asids where
  bitmap : Bitmap 8
  dirty : Bitmap 8
  generation : Nat
  nextAsid : Nat
  activeAsid : Nat
  tlb : List TlbEntry
  epoch : Nat

/-- The allocator's static data at reset. -/
def Asids.reset : Asids where
  bitmap := fun _ => 0
  dirty := fun _ => 0
  generation := 1
  nextAsid := 1
  activeAsid := 0
  tlb := []
  epoch := 1

variable (s : Asids) (i : Nat)

/-- mirrors arch/arm/mmu/mmu.c:434-438 -/
def archMmuFlushTlb : Asids := { s with tlb := [] }

/-- mirrors arch/arm/mmu/mmu.c:440-449 -/
def archMmuFlushTlbAsid (asid : Nat) (s : Asids) : Asids :=
  if asid = 0 then archMmuFlushTlb s
  else { s with tlb := s.tlb.filter (·.asid ≠ asid) }

/-- mirrors arch/arm/mmu/asid.c:54-58 -/
def asidSetActive (a : Nat) (s : Asids) : Asids :=
  { s with activeAsid := a, dirty := s.dirty.setBit a }

/-- Take ASID `i`: the body of the claiming loop. -/
def asidClaim (s : Asids) : Asids :=
  let taken := { s with bitmap := s.bitmap.setBit i, nextAsid := (i + 1) % asidCount }
  if s.dirty.testBit i then archMmuFlushTlbAsid (i % asidCount) taken else taken

/-- The claiming loop with `n` ASIDs left to try, from `i` on. -/
def asidClaimLoop (s : Asids) (i : Nat) : Nat → Nat × Asids
  | 0 => (0, s)
  | n + 1 => if s.bitmap.testBit i then asidClaimLoop s (i + 1) n else (i, asidClaim i s)

/-- mirrors arch/arm/mmu/asid.c:67-81 -/
def asidClaimInRange (lo hi : Nat) (s : Asids) : Nat × Asids := asidClaimLoop s lo (hi - lo)

/-- The two searches of the current generation: up from `next_asid`, then below it. -/
def asidClaimCurrent : Nat × Asids :=
  let r := asidClaimInRange s.nextAsid asidCount s
  if r.1 = 0 then asidClaimInRange 1 r.2.nextAsid r.2 else r

/-- The new generation (arch/arm/mmu/asid.c:91-99). -/
def asidRollover : Asids :=
  let cleared := Bitmap.setBit (fun _ => 0) 0
  { archMmuFlushTlb s with
    bitmap := if s.activeAsid = 0 then cleared else cleared.setBit s.activeAsid
    dirty := fun _ => 0
    generation := (s.generation + 1) % wordSize
    nextAsid := 1
    epoch := s.epoch + 1 }

/-- mirrors arch/arm/mmu/asid.c:83-103 -/
def asidAlloc : AsidToken × Asids :=
  let r := asidClaimCurrent s
  if r.1 = 0 then
    let r := asidClaimInRange 1 asidCount (asidRollover r.2)
    (⟨r.1, r.2.generation⟩, r.2)
  else (⟨r.1, r.2.generation⟩, r.2)

/-- mirrors arch/arm/mmu/asid.c:105-114 -/
def asidFree (token : AsidToken) (s : Asids) : Asids :=
  if token.asid = 0 then s
  else if token.generation ≠ s.generation then s
  else { s with bitmap := s.bitmap.clearBit token.asid }

/-! ## What a claim does -/

/-- ASID `i` has been claimed between `s` and `s'`, within one generation. -/
structure Claimed (s' : Asids) : Prop where
  clear : s.bitmap.testBit i = false
  bitmap : ∀ a, s'.bitmap.testBit a = (decide (a = i) || s.bitmap.testBit a)
  generation : s'.generation = s.generation
  activeAsid : s'.activeAsid = s.activeAsid
  epoch : s'.epoch = s.epoch
  next : s'.nextAsid = (i + 1) % asidCount
  tlb : s'.tlb ⊆ s.tlb

theorem asidClaim_claimed {s : Asids} {i : Nat} (h : s.bitmap.testBit i = false) :
    Claimed s i (asidClaim i s) := by
  have hbit : ∀ a, (s.bitmap.setBit i).testBit a = (decide (a = i) || s.bitmap.testBit a) :=
    fun a => Bitmap.testBit_setBit s.bitmap i a (by decide)
  unfold asidClaim archMmuFlushTlbAsid archMmuFlushTlb
  split
  · split
    · exact ⟨h, hbit, rfl, rfl, rfl, rfl, List.nil_subset _⟩
    · exact ⟨h, hbit, rfl, rfl, rfl, rfl, List.filter_sublist.subset⟩
  · exact ⟨h, hbit, rfl, rfl, rfl, rfl, List.Subset.refl _⟩

/-- The loop claims the first clear bit, or finds all bits of its range set. -/
theorem asidClaimLoop_spec : ∀ {n i : Nat},
    (asidClaimLoop s i n = (0, s) ∧ ∀ a, i ≤ a → a < i + n → s.bitmap.testBit a = true) ∨
    ∃ j, i ≤ j ∧ j < i + n ∧ (asidClaimLoop s i n).1 = j ∧
      Claimed s j (asidClaimLoop s i n).2 ∧ ∀ a, i ≤ a → a < j → s.bitmap.testBit a = true := by
  intro n
  induction n with
  | zero => exact fun {i} => .inl ⟨rfl, fun a h1 h2 => by omega⟩
  | succ n ih =>
    intro i
    unfold asidClaimLoop
    split
    · rename_i hset
      have hset' : ∀ a, i ≤ a → ¬i + 1 ≤ a → s.bitmap.testBit a = true := fun a h1 h2 => by
        have : a = i := by omega
        rw [this, hset]
      rcases ih (i := i + 1) with ⟨he, hall⟩ | ⟨j, h1, h2, he, hc, hall⟩
      · refine .inl ⟨he, fun a h1 h2 => ?_⟩
        by_cases ha : i + 1 ≤ a
        · exact hall a ha (by omega)
        · exact hset' a h1 ha
      · refine .inr ⟨j, by omega, by omega, he, hc, fun a h1 h2 => ?_⟩
        by_cases ha : i + 1 ≤ a
        · exact hall a ha h2
        · exact hset' a h1 ha
    · rename_i hclear
      exact .inr ⟨i, le_rfl, by omega, rfl, asidClaim_claimed (by simpa using hclear),
        fun a h1 h2 => by omega⟩

/-- A new generation has begun between `s` and `s'`: nothing is cached, and only ASID 0
and the loaded one are taken. -/
structure Rolled (s s' : Asids) : Prop where
  bitmap : ∀ a, s'.bitmap.testBit a = true ↔ a = 0 ∨ a = s.activeAsid
  generation : s'.generation = (s.generation + 1) % wordSize
  activeAsid : s'.activeAsid = s.activeAsid
  epoch : s'.epoch = s.epoch + 1
  tlb : s'.tlb = []

theorem asidRollover_rolled : Rolled s (asidRollover s) := by
  refine ⟨fun a => ?_, rfl, rfl, rfl, rfl⟩
  unfold asidRollover
  by_cases h : s.activeAsid = 0 <;> simp [h, Bitmap.testBit_setBit, or_comm]

/-- ASID `i` has been allocated between `s` and `s'`. -/
inductive Alloc (s : Asids) (i : Nat) (s' : Asids) : Prop
  | current : Claimed s i s' → Alloc s i s'
  | rollover {m : Asids} : Rolled s m → Claimed m i s' →
      (∀ a, 0 < a → a < i → m.bitmap.testBit a = true) → Alloc s i s'

/-- What the two searches of the current generation leave behind. -/
theorem asidClaimCurrent_spec {s : Asids} (hnext : s.nextAsid < asidCount) :
    (∃ i, 0 < i ∧ i < asidCount ∧ (asidClaimCurrent s).1 = i ∧
      Claimed s i (asidClaimCurrent s).2) ∨
    ((asidClaimCurrent s).1 = 0 ∧ (asidClaimCurrent s).2.generation = s.generation ∧
      (asidClaimCurrent s).2.activeAsid = s.activeAsid ∧
      (asidClaimCurrent s).2.epoch = s.epoch) := by
  unfold asidClaimCurrent asidClaimInRange
  rcases asidClaimLoop_spec s (n := asidCount - s.nextAsid) (i := s.nextAsid) with
    ⟨he, -⟩ | ⟨j, h1, h2, he, hc, -⟩
  · simp only [he, if_true]
    rcases asidClaimLoop_spec s (n := s.nextAsid - 1) (i := 1) with
      ⟨he', -⟩ | ⟨j, h1, h2, he', hc, -⟩
    · exact .inr (by simp [he'])
    · exact .inl ⟨j, h1, by omega, he', hc⟩
  · simp only [he]
    by_cases hj : j = 0
    · -- ASID 0 was still free: it is spent as "none", and nothing is left below `next_asid`.
      have hn := hc.next
      simp only [hj, Nat.zero_add] at hn
      have h1 : (asidClaimLoop s s.nextAsid (asidCount - s.nextAsid)).2.nextAsid - 1 = 0 := by
        rw [hn]
        rfl
      rw [if_pos hj, h1]
      exact .inr ⟨rfl, hc.generation, hc.activeAsid, hc.epoch⟩
    · rw [if_neg hj]
      exact .inl ⟨j, by omega, by omega, he, hc⟩

/-- Right after a rollover some ASID is free. -/
theorem Rolled.claim {s m : Asids} (h : Rolled s m) :
    ∃ i, 0 < i ∧ i < asidCount ∧ (asidClaimInRange 1 asidCount m).1 = i ∧
      Claimed m i (asidClaimInRange 1 asidCount m).2 ∧
      ∀ a, 0 < a → a < i → m.bitmap.testBit a = true := by
  unfold asidClaimInRange
  rcases asidClaimLoop_spec m (n := asidCount - 1) (i := 1) with
    ⟨-, hall⟩ | ⟨j, h1, h2, he, hc, hall⟩
  · have e1 := (h.bitmap 1).mp (hall 1 le_rfl (by decide))
    have e2 := (h.bitmap 2).mp (hall 2 (by decide) (by decide))
    omega
  · exact ⟨j, h1, by unfold asidCount at *; omega, he, hc, hall⟩

/-- An allocation always succeeds. -/
theorem asidAlloc_spec {s : Asids} (hnext : s.nextAsid < asidCount) :
    ∃ i, 0 < i ∧ i < asidCount ∧ Alloc s i (asidAlloc s).2 ∧
      (asidAlloc s).1 = ⟨i, (asidAlloc s).2.generation⟩ := by
  unfold asidAlloc
  rcases asidClaimCurrent_spec hnext with ⟨i, h0, hlt, he, hc⟩ | ⟨he, hg, ha, hep⟩
  · simp only [he, if_neg (Nat.ne_of_gt h0)]
    exact ⟨i, h0, hlt, .current hc, rfl⟩
  · have hr : Rolled s (asidRollover (asidClaimCurrent s).2) := by
      have h := asidRollover_rolled (asidClaimCurrent s).2
      exact ⟨ha ▸ h.bitmap, hg ▸ h.generation, ha ▸ h.activeAsid, hep ▸ h.epoch, h.tlb⟩
    obtain ⟨i, h0, hlt, hi, hc, hlow⟩ := hr.claim
    simp only [he, if_true]
    exact ⟨i, h0, hlt, .rollover hr hc hlow, by rw [hi]⟩

end Zuzu.L1.Asid
