import Mathlib.Data.Finset.Card
import Zuzu.Core.Bits
import Zuzu.Core.DList
import Zuzu.Core.LTS
import Zuzu.Types

/-!
# Physical memory manager (`kernel/mm/pmm/pmm.c`)

One bitmap bit per managed frame (1 = allocated) and, threaded through the
free frames themselves, a doubly linked free list whose end marker is the
physical address 0. The link words of a frame are read through the kernel's
direct map, so they are part of the state (`next`, `prev`, indexed by the
frame's address) and whoever owns an allocated frame may overwrite them.

A failed assertion and the double-free panic stop the kernel, so the
operations are partial. Memory-pressure signalling and the system page's
statistics write no PMM field other than `in_pressure` and are left out.
-/
namespace Zuzu.L1.Pmm
open Zuzu.Core
open Function (update)

/-- The fields that `PmmInit` sets once. -/
structure Geometry where
  pfnBase : Nat
  pfnEnd : Nat
  totalFrames : Nat
  bitmapBytes : Nat
  base_le : pfnBase ≤ pfnEnd
  end_lt : pfnEnd < 2 ^ 20            -- `ram_end` is a 32-bit address
  total_eq : totalFrames = pfnEnd - pfnBase
  bytes_eq : bitmapBytes = (totalFrames + 7) / 8

/-- mirrors kernel/mm/pmm/pmm_internal.h:12-22 (`PmmState`), with the link words
of every frame. -/
structure PmmState extends Geometry where
  freeFrames : Nat
  bitmap : Bitmap 8
  freelistHead : Nat
  freelistReady : Bool
  next : Nat → Nat                    -- `Node(pa)->next`
  prev : Nat → Nat                    -- `Node(pa)->prev`

/-! ## The free list -/

variable (p : PmmState) (n : Nat)

/-- mirrors kernel/mm/pmm/pmm.c:50-58 -/
def pushNode (pa : Nat) : PmmState :=
  let next := update p.next pa p.freelistHead
  let prev := update p.prev pa 0
  let prev := if p.freelistHead ≠ 0 then update prev p.freelistHead pa else prev
  { p with next, prev, freelistHead := pa }

/-- mirrors kernel/mm/pmm/pmm.c:64-74 -/
def popNode : PmmState × Nat :=
  let pa := p.freelistHead
  if pa = 0 then (p, 0)
  else
    let next := p.next pa
    ({ p with
        freelistHead := next
        prev := if next ≠ 0 then update p.prev next 0 else p.prev }, pa)

/-- mirrors kernel/mm/pmm/pmm.c:80-86 -/
def unlinkNode (pa : Nat) : PmmState :=
  let prev := p.prev pa
  let next := p.next pa
  let p := if prev ≠ 0 then { p with next := update p.next prev next }
    else { p with freelistHead := next }
  if next ≠ 0 then { p with prev := update p.prev next prev } else p

/-- mirrors kernel/mm/pmm/pmm.c:96-105 -/
def pmmIsRecorded (pa : Nat) : Bool :=
  if pa = 0 then true
  else if pa % pageSize ≠ 0 then false
  else decide (p.pfnBase ≤ paToPfn pa ∧ paToPfn pa < p.pfnEnd)

/-- One turn of the loop of `PmmRebuildFreelist`. -/
def rebuildFrame (i : Nat) : PmmState :=
  if p.bitmap.testBit i then p else pushNode p (pfnToPa (p.pfnBase + i))

/-- mirrors kernel/mm/pmm/pmm.c:110-122 -/
def pmmRebuildFreelist : PmmState :=
  let p := (List.range p.totalFrames).foldl rebuildFrame { p with freelistHead := 0 }
  { p with freelistReady := true }

/-! ## Taking one frame -/

/-- The tail of `PmmTakeFreeFrame`: pop the head and mark it allocated. The
counter is a `size_t`, so the assertion after the decrement catches a wrap. -/
def popAndMark : Option (PmmState × Nat) :=
  let (p, pa) := popNode p
  let index := paToPfn pa - p.pfnBase
  kassert (index / 8 < p.bitmapBytes) <|
  kassert (p.bitmap.testBit index = false) <|
  let p := { p with
    bitmap := p.bitmap.setBit index
    freeFrames := (p.freeFrames + wordSize - 1) % wordSize }
  kassert (p.freeFrames ≤ p.totalFrames) <|
  some (p, pa)

/-- mirrors kernel/mm/pmm/pmm.c:132-168 -/
def pmmTakeFreeFrame : Option (PmmState × Nat) :=
  if p.freelistHead = 0 then some (p, 0)
  else
    let p := if pmmIsRecorded p p.freelistHead then p else pmmRebuildFreelist p
    if p.freelistHead = 0 then some (p, 0)
    else
      let p := if pmmIsRecorded p (p.next p.freelistHead) then p else pmmRebuildFreelist p
      if p.freelistHead = 0 then some (p, 0)
      else if pmmIsRecorded p (p.next p.freelistHead) then popAndMark p
      else some ({ p with freelistHead := 0 }, 0)

/-! ## Marking and unmarking ranges -/

/-- One turn of the loop of `PmmMarkRange`; the flag is `needs_rebuild`. -/
def markFrame (needsRebuild : Bool) (pfn : Nat) : Option (PmmState × Bool) :=
  let index := pfn - p.pfnBase
  kassert (index / 8 < p.bitmapBytes) <|
  if p.bitmap.testBit index then some (p, needsRebuild)
  else
    let p := { p with
      bitmap := p.bitmap.setBit index
      freeFrames := p.freeFrames - 1 }            -- `if (free_frames > 0) free_frames--`
    kassert (p.freeFrames ≤ p.totalFrames) <|
    if p.freelistReady then
      if pmmIsRecorded p (p.prev (pfnToPa pfn)) ∧ pmmIsRecorded p (p.next (pfnToPa pfn)) then
        some (unlinkNode p (pfnToPa pfn), needsRebuild)
      else some (p, true)
    else some (p, needsRebuild)

/-- The loop of `PmmMarkRange` over `n` frames from `pfn` on. -/
def markFrames (p : PmmState) (needsRebuild : Bool) (pfn : Nat) : Nat → Option (PmmState × Bool)
  | 0 => some (p, needsRebuild)
  | n + 1 => (markFrame p needsRebuild pfn).bind fun r => markFrames r.1 r.2 (pfn + 1) n

/-- The range checks that `PmmMarkRange` and `PmmUnmarkRange` share: the frames
`[start_pfn, end_pfn)` to work on, or `none` for `ERR_BADARG`. -/
def frameRange (g : Geometry) (start fin : Nat) : Option (Nat × Nat) :=
  if start ≥ fin then none
  else
    let startPfn := paToPfn (alignDown start pageSize)
    let endPfn := paToPfn (alignUp fin pageSize)
    if startPfn < g.pfnBase ∨ endPfn > g.pfnEnd then none else some (startPfn, endPfn)

/-- mirrors kernel/mm/pmm/pmm.c:232-286 -/
def pmmMarkRange (start fin : Nat) : Option (PmmState × Err) :=
  match frameRange p.toGeometry start fin with
  | none => some (p, .badArg)
  | some (startPfn, endPfn) =>
    kassert (p.pfnEnd > p.pfnBase) <|
    (markFrames p false startPfn (endPfn - startPfn)).bind fun r =>
    some (if r.2 then pmmRebuildFreelist r.1 else r.1, .ok)

/-- One turn of the loop of `PmmUnmarkRange`. -/
def unmarkFrame (pfn : Nat) : Option PmmState :=
  let index := pfn - p.pfnBase
  kassert (index / 8 < p.bitmapBytes) <|
  if p.bitmap.testBit index then
    let p := { p with
      bitmap := p.bitmap.clearBit index
      freeFrames := if p.freeFrames < p.totalFrames then p.freeFrames + 1 else p.freeFrames }
    kassert (p.freeFrames ≤ p.totalFrames) <|
    some (if p.freelistReady then pushNode p (pfnToPa pfn) else p)
  else some p

/-- The loop of `PmmUnmarkRange` over `n` frames from `pfn` on. -/
def unmarkFrames (p : PmmState) (pfn : Nat) : Nat → Option PmmState
  | 0 => some p
  | n + 1 => (unmarkFrame p pfn).bind fun p' => unmarkFrames p' (pfn + 1) n

/-- mirrors kernel/mm/pmm/pmm.c:288-331 -/
def pmmUnmarkRange (start fin : Nat) : Option (PmmState × Err) :=
  match frameRange p.toGeometry start fin with
  | none => some (p, .badArg)
  | some (startPfn, endPfn) =>
    kassert (p.pfnEnd > p.pfnBase) <|
    (unmarkFrames p startPfn (endPfn - startPfn)).bind fun p' => some (p', .ok)

/-! ## Allocation and release -/

/-- mirrors kernel/mm/pmm/pmm.c:333-340 -/
def pmmAllocFrame : Option (PmmState × Nat) := pmmTakeFreeFrame p

/-- The scan that the two contiguous allocators share: the first run of `n`
clear bits whose first index passes `startOk`. `consecutive` clear bits end
just before `index`, the first of them at `startIndex`. -/
def contigScan (p : PmmState) (n : Nat) (startOk : Nat → Bool) :
    (remaining index consecutive startIndex : Nat) → Option Nat
  | 0, _, _, _ => none
  | r + 1, index, consecutive, startIndex =>
    if consecutive = 0 ∧ startOk index = false then
      contigScan p n startOk r (index + 1) consecutive startIndex
    else if index / 8 ≥ p.bitmapBytes then none
    else if p.bitmap.testBit index = false then
      let startIndex := if consecutive = 0 then index else startIndex
      if consecutive + 1 = n then some startIndex
      else contigScan p n startOk r (index + 1) (consecutive + 1) startIndex
    else contigScan p n startOk r (index + 1) 0 startIndex

/-- What both contiguous allocators do with the run they found. -/
def takeRun : Option Nat → Option (PmmState × Nat)
  | none => some (p, 0)
  | some startIndex =>
    let startPa := pfnToPa (p.pfnBase + startIndex)
    let endPa := pfnToPa (p.pfnBase + startIndex + n)
    (pmmMarkRange p startPa endPa).bind fun r =>
    if r.2 ≠ .ok then some (r.1, 0) else some (r.1, startPa)

/-- mirrors kernel/mm/pmm/pmm.c:341-388 -/
def pmmAllocFramesContig : Option (PmmState × Nat) :=
  if n = 0 ∨ p.freeFrames < n then some (p, 0)
  else
    kassert (p.freeFrames ≤ p.totalFrames) <|
    kassert (n ≤ p.totalFrames) <|
    takeRun p n (contigScan p n (fun _ => true) p.totalFrames 0 0 0)

/-- mirrors kernel/mm/pmm/pmm.c:432-508 -/
def pmmAllocFramesContigAligned (n alignFrames : Nat) : Option (PmmState × Nat) :=
  if n = 0 then some (p, 0)
  else
    let alignFrames := if alignFrames = 0 then 1 else alignFrames
    if alignFrames &&& (alignFrames - 1) ≠ 0 then some (p, 0)
    else if p.freeFrames < n then some (p, 0)
    else
      takeRun p n <| contigScan p n (fun i => (p.pfnBase + i) &&& (alignFrames - 1) == 0)
        p.totalFrames 0 0 0

/-- The loop of `PmmAllocFramesScattered`: the frames stored in `out_addrs`. -/
def scatter (p : PmmState) : Nat → Option (PmmState × List Nat)
  | 0 => some (p, [])
  | n + 1 => (pmmTakeFreeFrame p).bind fun r =>
    if r.2 = 0 then some (r.1, [])
    else (scatter r.1 n).map fun r' => (r'.1, r.2 :: r'.2)

/-- mirrors kernel/mm/pmm/pmm.c:510-531. `outAddrs` says whether the caller
passed a buffer; the frames stored there are returned. -/
def pmmAllocFramesScattered (outAddrs : Bool) : Option (PmmState × List Nat) :=
  if n = 0 ∨ outAddrs = false ∨ p.freeFrames < n then some (p, [])
  else
    kassert (p.freeFrames ≤ p.totalFrames) <|
    kassert (n ≤ p.totalFrames) <|
    scatter p n

/-- mirrors kernel/mm/pmm/pmm.c:390-421 -/
def pmmFreeFrame (addr : Nat) : Option PmmState :=
  kassert (addr % pageSize = 0) <|
  let pfn := paToPfn addr
  kassert (p.pfnBase ≤ pfn ∧ pfn < p.pfnEnd) <|
  let index := pfn - p.pfnBase
  kassert (index / 8 < p.bitmapBytes) <|
  kassert (p.freeFrames ≤ p.totalFrames) <|
  if p.bitmap.testBit index then
    let p := { p with bitmap := p.bitmap.clearBit index, freeFrames := p.freeFrames + 1 }
    kassert (p.freeFrames ≤ p.totalFrames) <|
    some (pushNode p addr)
  else none                           -- "pmm: double free of frame"

/-! ## Initialisation -/

/-- The fields of `kernel/layout.h` (`RamLayout`) that `PmmInit` reads. -/
structure RamLayout where
  ramStart : Nat
  ramEnd : Nat
  dtbStartPa : Nat
  kernelStartPa : Nat
  kernelEndPa : Nat
  stackBasePa : Nat
  ram_le : ramStart ≤ ramEnd
  ram_lt : ramEnd < wordSize

/-- Linker symbols and device-tree data read while the boot regions are reserved. -/
structure BootInfo where
  bootStart : Nat
  bootEnd : Nat
  stackRegionBase : Nat
  stackRegionEnd : Nat
  fdtTotalSize : Nat
  reservedMem : List (Nat × Nat)      -- address and size
  initrd : Option (Nat × Nat)         -- start and end

/-- The managed range `[PaToPfn(ram_start), PaToPfn(ram_end))`. -/
def RamLayout.geometry (l : RamLayout) : Geometry where
  pfnBase := paToPfn l.ramStart
  pfnEnd := paToPfn l.ramEnd
  totalFrames := paToPfn l.ramEnd - paToPfn l.ramStart
  bitmapBytes := (paToPfn l.ramEnd - paToPfn l.ramStart + 7) / 8
  base_le := Nat.div_le_div_right l.ram_le
  end_lt := by
    have := l.ram_lt
    unfold wordSize at this
    unfold paToPfn pageSize
    omega
  total_eq := rfl
  bytes_eq := rfl

/-- `bitmap_start_pa` and `bitmap_end_pa` as `PmmInit` computes them. -/
def RamLayout.bitmapRange (l : RamLayout) : Nat × Nat :=
  let startPa := alignUp l.kernelEndPa pageSize
  (startPa, (startPa + alignUp l.geometry.bitmapBytes pageSize) % wordSize)

/-- mirrors kernel/mm/pmm/pmm.c:173-190: the ranges that `PmmReserveBootRegions`
marks, in order. Device-tree values are 64 bits wide and are cut to an address. -/
def bootRegions (l : RamLayout) (b : BootInfo) : List (Nat × Nat) :=
  [(b.bootStart, b.bootEnd),
   (l.dtbStartPa, (l.dtbStartPa + b.fdtTotalSize) % wordSize),
   (l.kernelStartPa, l.kernelEndPa),
   l.bitmapRange,
   (b.stackRegionBase, b.stackRegionEnd)]
  ++ b.reservedMem.map (fun r => (r.1 % wordSize, (r.1 + r.2) % wordSize))
  ++ b.initrd.toList.map fun r => (r.1 % wordSize, r.2 % wordSize)

/-- Marks each range in turn; a refused range is skipped. -/
def reserveRegions (p : PmmState) : List (Nat × Nat) → Option PmmState
  | [] => some p
  | r :: rs => (pmmMarkRange p r.1 r.2).bind fun q => reserveRegions q.1 rs

/-- The state in which `PmmInit` starts to reserve: every frame free, no list yet. -/
def freshState (l : RamLayout) (next prev : Nat → Nat) : PmmState :=
  { l.geometry with
    freeFrames := l.geometry.totalFrames
    bitmap := fun _ => 0#8
    freelistHead := 0
    freelistReady := false
    next, prev }

/-- mirrors kernel/mm/pmm/pmm.c:192-223. `next` and `prev` are whatever RAM holds
at boot. -/
def pmmInit (l : RamLayout) (b : BootInfo) (next prev : Nat → Nat) : Option PmmState :=
  kassert (l.bitmapRange.2 ≤ l.stackBasePa) <|
  kassert (l.bitmapRange.2 ≤ l.ramEnd) <|
  (reserveRegions (freshState l next prev) (bootRegions l b)).map pmmRebuildFreelist

/-! ## The allocator as a transition system -/

/-- A managed frame whose bitmap bit is clear. -/
def isFreeFrame (pa : Nat) : Bool :=
  pa % pageSize == 0 && decide (p.pfnBase ≤ paToPfn pa) && decide (paToPfn pa < p.pfnEnd) &&
    !p.bitmap.testBit (paToPfn pa - p.pfnBase)

/-- What the rest of the kernel does to the allocator. `write` is the owner of
a frame that is not free overwriting its first two words. -/
inductive Op
  | markRange (start fin : Nat)
  | unmarkRange (start fin : Nat)
  | allocFrame
  | allocFramesContig (n : Nat)
  | allocFramesContigAligned (n alignFrames : Nat)
  | allocFramesScattered (n : Nat) (outAddrs : Bool)
  | freeFrame (addr : Nat)
  | write (pa next prev : Nat)
  deriving DecidableEq, Repr

/-- The frames of a contiguous allocation; address 0 reports failure. -/
def runFrames (n pa : Nat) : List Nat :=
  if pa = 0 then [] else (List.range n).map fun i => pa + i * pageSize

/-- One operation, with the frames it hands out to its caller. -/
def stepOp : Op → Option (PmmState × List Nat)
  | .markRange start fin => (pmmMarkRange p start fin).map fun r => (r.1, [])
  | .unmarkRange start fin => (pmmUnmarkRange p start fin).map fun r => (r.1, [])
  | .allocFrame => (pmmAllocFrame p).map fun r => (r.1, runFrames 1 r.2)
  | .allocFramesContig n => (pmmAllocFramesContig p n).map fun r => (r.1, runFrames n r.2)
  | .allocFramesContigAligned n a =>
    (pmmAllocFramesContigAligned p n a).map fun r => (r.1, runFrames n r.2)
  | .allocFramesScattered n out => pmmAllocFramesScattered p n out
  | .freeFrame addr => (pmmFreeFrame p addr).map fun p' => (p', [])
  | .write pa next prev =>
    if isFreeFrame p pa then none
    else some ({ p with next := update p.next pa next, prev := update p.prev pa prev }, [])

/-- The allocator booted with layout `l` and boot data `b`, then used at will. A
label is an operation with the frames it handed out. -/
def system (l : RamLayout) (b : BootInfo) : LTS PmmState (Op × List Nat) where
  init p := ∃ next prev, pmmInit l b next prev = some p
  step p o p' := stepOp p o.1 = some (p', o.2)

end Zuzu.L1.Pmm
