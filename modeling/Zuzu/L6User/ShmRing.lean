import Zuzu.Core.LTS
import Zuzu.Core.Spsc

/-!
# Byte rings in shared memory

`src/include/zuzu/shm_ring.c`: one program pushes, another pops, and nothing is shared but two
free-running 32-bit counters and the bytes. Every load and store of the shared memory is one
step (the copies go byte by byte, in two stretches where they pass the end of the area), and
the two programs take them in any order. What a program alone writes (`head` for the producer,
`tail` for the consumer) it reads back as it left it.

**Results.** `Inv.step`: the ring is a queue that runs from `tail` to `head`.
`shm_ring_refines_fifo`: what is popped is a prefix of what was pushed, at most `size` bytes
are in between, and a push takes all that fits.
-/
namespace Zuzu.L6User
open Zuzu.Core

abbrev Byte := BitVec 8

/-- mirrors src/include/zuzu/shm_ring.h:20-24, with the data area. -/
structure ShmRing where
  size : BitVec 32
  head : BitVec 32
  tail : BitVec 32
  data : Nat → Byte

namespace ShmRing

/-- mirrors src/include/zuzu/shm_ring.c:10-15 -/
def init (size : BitVec 32) (data : Nat → Byte) : ShmRing := ⟨size, 0, 0, data⟩

/-- mirrors src/include/zuzu/shm_ring.c:43-47 -/
def avail (r : ShmRing) : BitVec 32 :=
  if r.size < r.head - r.tail then r.size else r.head - r.tail

/-- mirrors src/include/zuzu/shm_ring.c:49-53 -/
def free (r : ShmRing) : BitVec 32 :=
  if r.size < r.head - r.tail then 0 else r.size - (r.head - r.tail)

/-- The cell of byte `k` of a copy of `n` bytes at `pos`: two stretches, the second from the
start of the area. mirrors src/include/zuzu/shm_ring.c:55-69 -/
def cell (size pos : BitVec 32) (n k : Nat) : Nat :=
  let off := (pos &&& (size - 1)).toNat
  let first := if n < size.toNat - off then n else size.toNat - off
  if k < first then off + k else k - first

end ShmRing

/-- Where the producer stands in `ShmRingPush`; `src` is cut to what fits once `tail` has been
read, and `k` of its bytes are stored. -/
inductive Pushing
  | idle
  | called (src : List Byte)
  | writing (src : List Byte) (k : Nat)

/-- Where the consumer stands in `ShmRingPop`. -/
inductive Popping
  | idle
  | called (len : Nat)
  | reading (n : Nat) (got : List Byte)

/-- The ring, the two programs, and the bytes pushed and popped so far. -/
structure RingState where
  ring : ShmRing
  push : Pushing
  pop : Popping
  pushed : List Byte
  popped : List Byte

inductive RingAct
  | push (src : List Byte)
  | produce
  | pop (len : Nat)
  | consume

namespace RingState

/-- mirrors src/include/zuzu/shm_ring.c:71-79 -/
def produce (s : RingState) : Option RingState :=
  match s.push with
  | .idle => none
  | .called src => some { s with push := .writing (src.take s.ring.free.toNat) 0 }
  | .writing src k =>
    if h : k < src.length then
      some { s with
        ring.data := Function.update s.ring.data
          (ShmRing.cell s.ring.size s.ring.head src.length k) src[k]
        push := .writing src (k + 1) }
    else
      some { s with
        ring.head := s.ring.head + BitVec.ofNat 32 src.length
        push := .idle
        pushed := s.pushed ++ src }

/-- mirrors src/include/zuzu/shm_ring.c:81-89 -/
def consume (s : RingState) : Option RingState :=
  match s.pop with
  | .idle => none
  | .called len => some { s with pop := .reading (min len s.ring.avail.toNat) [] }
  | .reading n got =>
    if got.length < n then
      some { s with
        pop := .reading n
          (got ++ [s.ring.data (ShmRing.cell s.ring.size s.ring.tail n got.length)]) }
    else
      some { s with
        ring.tail := s.ring.tail + BitVec.ofNat 32 n
        pop := .idle
        popped := s.popped ++ got }

def step (s : RingState) : RingAct → Option RingState
  | .push src =>
    match s.push with
    | .idle => if src.length < 2 ^ 32 then some { s with push := .called src } else none
    | _ => none
  | .produce => s.produce
  | .pop len =>
    match s.pop with
    | .idle => if len < 2 ^ 32 then some { s with pop := .called len } else none
    | _ => none
  | .consume => s.consume

end RingState

/-- A ring of `2 ^ w` bytes between one producer and one consumer. -/
def ringSystem (w : Nat) : LTS RingState RingAct :=
  .ofFun (fun s => ∃ data, s = ⟨.init (BitVec.ofNat 32 (2 ^ w)) data, .idle, .idle, [], []⟩)
    RingState.step

/-! ## Counters and cells -/

section Cells
variable {w : Nat} {r : ShmRing}

theorem toNat_size (hw : w < 32) : (BitVec.ofNat 32 (2 ^ w)).toNat = 2 ^ w := by
  rw [BitVec.toNat_ofNat]
  exact Nat.mod_eq_of_lt (Nat.pow_lt_pow_right (by decide) hw)

/-- Byte `k` of a copy at position `p` is in the cell of position `p + k`. -/
theorem ShmRing.cell_eq (hw : w < 32) (p : Nat) {n k : Nat} (hn : n ≤ 2 ^ w) (hk : k < n) :
    ShmRing.cell (BitVec.ofNat 32 (2 ^ w)) (BitVec.ofNat 32 p) n k = (p + k) % 2 ^ w := by
  have hpos := Nat.two_pow_pos w
  have hmask : BitVec.ofNat 32 (2 ^ w) - 1 = BitVec.ofNat 32 (2 ^ w - 1) := by
    rw [show (1 : BitVec 32) = BitVec.ofNat 32 1 from rfl]
    obtain ⟨m, hm⟩ : ∃ m, 2 ^ w = m + 1 := ⟨2 ^ w - 1, by omega⟩
    rw [hm, BitVec.ofNat_add, BitVec.add_sub_cancel, Nat.add_sub_cancel]
  have hoff : (BitVec.ofNat 32 p &&& (BitVec.ofNat 32 (2 ^ w) - 1)).toNat = p % 2 ^ w := by
    rw [hmask]
    exact counter_cell (Nat.le_of_lt hw) p
  have hlt : p % 2 ^ w < 2 ^ w := Nat.mod_lt _ hpos
  unfold ShmRing.cell
  rw [hoff, toNat_size hw, ← Nat.mod_add_mod]
  generalize p % 2 ^ w = off at hlt ⊢
  generalize 2 ^ w = size at hn hlt ⊢
  dsimp only
  by_cases hfirst : n < size - off
  · rw [if_pos hfirst, if_pos hk, Nat.mod_eq_of_lt (by omega)]
  · rw [if_neg hfirst]
    by_cases hin : k < size - off
    · rw [if_pos hin, Nat.mod_eq_of_lt (by omega)]
    · rw [if_neg hin, Nat.mod_eq_sub_mod (by omega), Nat.mod_eq_of_lt (by omega)]
      omega

section Counters
variable (hw : w < 32) {p c : Nat} (hs : r.size = BitVec.ofNat 32 (2 ^ w))
  (hh : r.head = BitVec.ofNat 32 p) (ht : r.tail = BitVec.ofNat 32 c) (hle : c ≤ p)
  (hfit : p ≤ c + 2 ^ w)
include hw hs hh ht hle hfit

theorem ShmRing.used_eq : (r.head - r.tail).toNat = p - c ∧ r.size.toNat = 2 ^ w := by
  have hlt : 2 ^ w < 2 ^ 32 := Nat.pow_lt_pow_right (by decide) hw
  refine ⟨?_, by rw [hs, toNat_size hw]⟩
  rw [hh, ht]
  exact counter_sub hle (by omega)

theorem ShmRing.free_eq : r.free.toNat = c + 2 ^ w - p := by
  obtain ⟨hsub, hsize⟩ := ShmRing.used_eq hw hs hh ht hle hfit
  unfold ShmRing.free
  rw [if_neg (by rw [BitVec.lt_def, hsub, hsize]; omega),
    BitVec.toNat_sub_of_le (by rw [BitVec.le_def, hsub, hsize]; omega), hsub, hsize]
  omega

theorem ShmRing.avail_eq : r.avail.toNat = p - c := by
  obtain ⟨hsub, hsize⟩ := ShmRing.used_eq hw hs hh ht hle hfit
  unfold ShmRing.avail
  rw [if_neg (by rw [BitVec.lt_def, hsub, hsize]; omega), hsub]

end Counters

end Cells

theorem prefix_snoc {α : Type*} {l l' : List α} (h : l <+: l') (hlt : l.length < l'.length) :
    l ++ [l'[l.length]] <+: l' := by
  have htake := List.prefix_iff_eq_take.mp h
  have hsucc := List.take_succ_eq_append_getElem hlt
  rw [← htake] at hsucc
  rw [← hsucc]
  exact List.take_prefix ..

namespace RingState
variable {w : Nat} {s s' : RingState}

/-! ## The queue between the counters -/

/-- What the producer has stored beyond `head`. -/
def Stored (w : Nat) (s : RingState) : Prop :=
  match s.push with
  | .writing src k => k ≤ src.length ∧ s.pushed.length + src.length ≤ s.popped.length + 2 ^ w ∧
      Draft (2 ^ w) s.ring.data s.pushed.length (src.take k)
  | _ => True

/-- What the consumer has copied. -/
def Copied (s : RingState) : Prop :=
  match s.pop with
  | .reading n got =>
      got.length ≤ n ∧ s.popped.length + n ≤ s.pushed.length ∧ s.popped ++ got <+: s.pushed
  | _ => True

structure Inv (w : Nat) (s : RingState) : Prop where
  size : s.ring.size = BitVec.ofNat 32 (2 ^ w)
  head : s.ring.head = BitVec.ofNat 32 s.pushed.length
  tail : s.ring.tail = BitVec.ofNat 32 s.popped.length
  ring : Spsc (2 ^ w) s.ring.data s.pushed s.popped.length
  popped : s.popped <+: s.pushed
  stored : Stored w s
  copied : Copied s

section
variable (h : Inv w s) (hw : w < 32)
include h hw

theorem Inv.free : s.ring.free.toNat = s.popped.length + 2 ^ w - s.pushed.length :=
  ShmRing.free_eq hw h.size h.head h.tail h.ring.le h.ring.fits

theorem Inv.produce (hs : s.produce = some s') : Inv w s' := by
  have hfree := h.free hw
  obtain ⟨hsize, hhead, htail, hring, hpop, hst, hco⟩ := h
  unfold RingState.produce at hs
  unfold Stored at hst
  cases hp : s.push with
  | idle =>
    rw [hp] at hs
    cases hs
  | called src =>
    rw [hp] at hs
    cases hs
    refine ⟨hsize, hhead, htail, hring, hpop, ⟨Nat.zero_le _, ?_, ?_⟩, hco⟩
    · rw [List.length_take, hfree]
      change s.pushed.length + _ ≤ s.popped.length + _
      have := hring.fits
      omega
    · rw [List.take_zero]
      exact .nil _ _ _
  | writing src k =>
    rw [hp] at hs hst
    obtain ⟨hk, hfit, hd⟩ := hst
    dsimp only at hs
    split at hs
    · rename_i hlt
      cases hs
      have hle := hring.le
      have hlen : (src.take k).length = k := by rw [List.length_take]; omega
      have hcell : ShmRing.cell s.ring.size s.ring.head src.length k =
          (s.pushed.length + k) % 2 ^ w := by
        rw [hsize, hhead]
        exact ShmRing.cell_eq hw _ (by omega) hlt
      refine ⟨hsize, hhead, htail, ?_, hpop, ⟨hlt, hfit, ?_⟩, hco⟩
      · change Spsc _ (Function.update s.ring.data (ShmRing.cell ..) _) _ _
        rw [hcell]
        exact hring.write (by omega) (by omega)
      · change Draft _ (Function.update s.ring.data (ShmRing.cell ..) _) _ _
        have hsnoc := hd.snoc (x := src[k]) (by omega)
        rw [hlen, ← List.take_succ_eq_append_getElem hlt] at hsnoc
        rw [hcell]
        exact hsnoc
    · rename_i hge
      cases hs
      rw [show k = src.length by omega, List.take_length] at hd
      refine ⟨hsize, ?_, htail, hring.publish hd hfit, hpop.trans (List.prefix_append ..),
        trivial, ?_⟩
      · change s.ring.head + _ = BitVec.ofNat 32 (s.pushed ++ src).length
        rw [hhead, List.length_append, BitVec.ofNat_add]
      · unfold Copied at hco ⊢
        dsimp only
        cases hc : s.pop with
        | idle | called => trivial
        | reading n got =>
          rw [hc] at hco
          obtain ⟨h1, h2, h3⟩ := hco
          refine ⟨h1, ?_, h3.trans (List.prefix_append ..)⟩
          rw [List.length_append]
          omega

theorem Inv.consume (hs : s.consume = some s') : Inv w s' := by
  have havail := ShmRing.avail_eq hw h.size h.head h.tail h.ring.le h.ring.fits
  obtain ⟨hsize, hhead, htail, hring, hpop, hst, hco⟩ := h
  unfold RingState.consume at hs
  unfold Copied at hco
  cases hc : s.pop with
  | idle =>
    rw [hc] at hs
    cases hs
  | called len =>
    rw [hc] at hs
    cases hs
    refine ⟨hsize, hhead, htail, hring, hpop, hst, Nat.zero_le _, ?_, ?_⟩
    · rw [havail]
      change s.popped.length + _ ≤ s.pushed.length
      have := hring.le
      omega
    · rw [List.append_nil]
      exact hpop
  | reading n got =>
    rw [hc] at hs hco
    obtain ⟨hg, hn, hgot⟩ := hco
    dsimp only at hs
    split at hs
    · rename_i hlt
      cases hs
      have hfit := hring.fits
      -- the byte read is the next one of the stream
      have hcell : s.ring.data (ShmRing.cell s.ring.size s.ring.tail n got.length) =
          s.pushed[s.popped.length + got.length] := by
        rw [hsize, htail, ShmRing.cell_eq hw _ (by omega) hlt]
        exact hring.read (by omega)
      refine ⟨hsize, hhead, htail, hring, hpop, hst, ?_, hn, ?_⟩
      · rw [List.length_append, List.length_singleton]
        omega
      · rw [hcell, ← List.append_assoc]
        have hsnoc := prefix_snoc hgot (by rw [List.length_append]; omega)
        simp only [List.length_append] at hsnoc
        exact hsnoc
    · rename_i hge
      cases hs
      have hlen : (s.popped ++ got).length = s.popped.length + n := by
        rw [List.length_append]
        omega
      refine ⟨hsize, hhead, ?_, ?_, hgot, ?_, trivial⟩
      · change s.ring.tail + _ = BitVec.ofNat 32 (s.popped ++ got).length
        rw [htail, hlen, BitVec.ofNat_add]
      · change Spsc _ _ _ (s.popped ++ got).length
        rw [hlen]
        exact hring.give hn
      · unfold Stored at hst ⊢
        dsimp only
        cases hp : s.push with
        | idle | called => trivial
        | writing src k =>
          rw [hp] at hst
          obtain ⟨h1, h2, h3⟩ := hst
          exact ⟨h1, by rw [hlen]; omega, h3⟩

theorem Inv.step {a : RingAct} (hs : s.step a = some s') : Inv w s' := by
  cases a with
  | push src =>
    simp only [RingState.step] at hs
    split at hs
    · split at hs
      · cases hs
        exact ⟨h.size, h.head, h.tail, h.ring, h.popped, trivial, h.copied⟩
      · cases hs
    · cases hs
  | produce => exact h.produce hw hs
  | pop len =>
    simp only [RingState.step] at hs
    split at hs
    · split at hs
      · cases hs
        exact ⟨h.size, h.head, h.tail, h.ring, h.popped, h.stored, trivial⟩
      · cases hs
    · cases hs
  | consume => exact h.consume hw hs

end

theorem inv_inductive (hw : w < 32) : LTS.Inductive (ringSystem w) (Inv w) where
  init := by
    rintro s ⟨data, rfl⟩
    exact ⟨rfl, rfl, rfl, .empty _ _, List.prefix_rfl, trivial, trivial⟩
  step h hs := h.step hw hs

end RingState

/-- **The ring is a bounded queue.** What has been popped, with what a pop under way has copied,
is a prefix of what has been pushed; no more than the size of the ring is in between; and a
push that reads `tail` takes as much as the whole ring has room for. -/
theorem shm_ring_refines_fifo {w : Nat} (hw : w < 32) {s : RingState}
    (h : (ringSystem w).Reachable s) :
    s.popped <+: s.pushed ∧ (∀ n got, s.pop = .reading n got → s.popped ++ got <+: s.pushed) ∧
      s.pushed.length ≤ s.popped.length + 2 ^ w ∧
      ∀ src, s.push = .called src → ∃ s', s.step .produce = some s' ∧
        s'.push = .writing (src.take (2 ^ w - (s.pushed.length - s.popped.length))) 0 := by
  have hi := (RingState.inv_inductive hw).reachable h
  refine ⟨hi.popped, fun n got hg => ?_, hi.ring.fits, fun src hp => ?_⟩
  · have hco := hi.copied
    rw [RingState.Copied, hg] at hco
    exact hco.2.2
  · have hle := hi.ring.le
    have hroom : s.ring.free.toNat = 2 ^ w - (s.pushed.length - s.popped.length) := by
      rw [hi.free hw]
      omega
    refine ⟨{ s with push := .writing (src.take s.ring.free.toNat) 0 }, ?_, by rw [hroom]⟩
    simp only [RingState.step, RingState.produce, hp]

/-- A push and a pop through a ring of four bytes. -/
theorem shm_ring_refines_fifo_four :
    ∃ s, (ringSystem 2).Reachable s ∧ s.popped = [1, 2] ∧ s.popped <+: s.pushed ∧
      s.pushed.length ≤ s.popped.length + 2 ^ 2 := by
  have hreach : ∃ s, (ringSystem 2).Reachable s ∧ s.popped = [1, 2] :=
    LTS.reaches_of_foldlM (fun s : RingState => s.popped = [1, 2])
      [.push [1, 2, 3, 4, 5], .produce, .produce, .produce, .produce, .produce, .produce, .pop 2,
        .consume, .consume, .consume, .consume]
      ⟨fun _ => 0, rfl⟩ (by decide +kernel)
  obtain ⟨s, hs, hp⟩ := hreach
  obtain ⟨h1, -, h3, -⟩ := shm_ring_refines_fifo (by decide) hs
  exact ⟨s, hs, hp, h1, h3⟩

end Zuzu.L6User
