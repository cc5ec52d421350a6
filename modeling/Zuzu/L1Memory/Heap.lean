import Zuzu.Core.Tiling
import Zuzu.L1Memory.PmmInv

/-!
# Kernel heap (`kernel/mm/alloc.c`)

A doubly linked list of blocks, each a 16-byte header followed by its payload,
searched first fit and coalesced on free. It grows by segments of contiguous
frames, which it reads and writes through the direct map.

Memory is a map from byte addresses to 32-bit words, and a header is four words
of it, so what an operation does to other blocks' bytes is part of the model.
`segs` is history only: it records the segments obtained so far. The search
loop follows `next` links; `maxBlocks` bounds its turns, and it is never
reached because blocks are 16-byte aligned addresses below `2^32`.
-/
namespace Zuzu.L1.Heap
open Zuzu.Core Zuzu.L1.Pmm
open Function (update)

/-- 32-bit words by byte address. -/
abbrev Mem := Nat → Nat

/-- mirrors kernel/mm/alloc.h:13-19, 69 -/
def heapInitialSize : Nat := 64 * 4096
def heapGrowMinPages : Nat := 16
def alignment : Nat := 16
def minPayload : Nat := 16
def hdr : Nat := 16

variable (m : Mem) (b : Nat)

/-- mirrors kernel/mm/alloc.h:36-38 -/
def kblockAllocated : Nat := 0xA110C8ED
def kblockFree : Nat := 0xF9EEB10C

/-! ## Headers (kernel/mm/alloc.h:27-32) -/

def blkSize : Nat := m b
def blkNext : Nat := m (b + 4)
def blkPrev : Nat := m (b + 8)
def blkState : Nat := m (b + 12)

def setSize (b v : Nat) : Mem := update m b v
def setNext (b v : Nat) : Mem := update m (b + 4) v
def setPrev (b v : Nat) : Mem := update m (b + 8) v
def setState (b v : Nat) : Mem := update m (b + 12) v

/-- The heap's globals, the heap bounds of `kernel_layout`, and what they live in. -/
structure KHeap where
  pmm : PmmState
  vaOffset : Nat                      -- `KERNEL_VA_OFFSET`
  mem : Mem
  head : Nat                          -- `heap_head`
  tail : Nat                          -- `heap_tail`
  startPa : Nat
  startVa : Nat
  endPa : Nat
  endVa : Nat
  segs : List (Nat × Nat)             -- history: first byte and length

/-- mirrors kernel/mm/alloc.c:194-205 -/
def heapAppendBlk (h : KHeap) (block : Nat) : KHeap :=
  let m := setPrev (setNext h.mem block 0) block h.tail
  if h.head = 0 then { h with mem := m, head := block, tail := block }
  else { h with mem := setNext m h.tail block, tail := block }

/-- The number of pages `HeapGrow` asks for. -/
def growPages (minPayloadWanted : Nat) : Nat :=
  let pages := alignUp (minPayloadWanted + hdr + minPayload) pageSize / pageSize
  if pages < heapGrowMinPages then heapGrowMinPages else pages

/-- mirrors kernel/mm/alloc.c:213-247 -/
def heapGrow (h : KHeap) (minPayloadWanted : Nat) : Option (KHeap × Bool) :=
  let pages := growPages minPayloadWanted
  (pmmAllocFramesContig h.pmm pages).map fun r =>
    let h := { h with pmm := r.1 }
    let heapPa := r.2
    if heapPa = 0 then (h, false)
    else
      let heapVa := heapPa + h.vaOffset
      let m := setSize h.mem heapVa (alignDown (pages * pageSize - hdr) alignment)
      let m := setState m heapVa kblockFree
      let m := setPrev (setNext m heapVa 0) heapVa 0
      let h := heapAppendBlk { h with mem := m } heapVa
      let segEndPa := heapPa + pages * pageSize
      let segEndVa := heapVa + pages * pageSize
      let low := h.startPa = 0 ∨ heapPa < h.startPa
      let high := segEndPa > h.endPa
      ({ h with
          startPa := if low then heapPa else h.startPa
          startVa := if low then heapVa else h.startVa
          endPa := if high then segEndPa else h.endPa
          endVa := if high then segEndVa else h.endVa
          segs := h.segs ++ [(heapVa, pages * pageSize)] }, true)

/-- mirrors kernel/mm/alloc.c:254-270 -/
def heapMerge (h : KHeap) (block : Nat) : KHeap :=
  let next := blkNext h.mem block
  if next = 0 ∨ blkState h.mem next ≠ kblockFree then h
  else if block + hdr + blkSize h.mem block ≠ next then h
  else
    let m := setSize h.mem block (blkSize h.mem block + (hdr + blkSize h.mem next))
    let nextNext := blkNext m next
    let m := setNext m block nextNext
    if nextNext ≠ 0 then { h with mem := setPrev m nextNext block }
    else { h with mem := m, tail := block }

/-- More turns than a list of distinct 16-byte aligned 32-bit addresses can need. -/
def maxBlocks : Nat := 2 ^ 28 + 1

/-- The inner loop of `KMalloc`: the first free block of at least `req` bytes. The
outer `none` is only for running out of turns. -/
def findFit (m : Mem) (req : Nat) : Nat → Nat → Option (Option Nat)
  | 0, _ => none
  | turns + 1, block =>
    if block = 0 then some none
    else if blkState m block ≠ kblockFree ∨ blkSize m block < req then
      findFit m req turns (blkNext m block)
    else some (some block)

/-- Cuts the part behind `req` payload bytes off a block as a new free block. -/
def splitBlock (h : KHeap) (block req : Nat) : KHeap :=
  let leftover := blkSize h.mem block - req
  let newBlock := block + hdr + req
  let m := setSize h.mem newBlock (alignDown (leftover - hdr) alignment)
  let m := setState m newBlock kblockFree
  let m := setNext m newBlock (blkNext m block)
  let m := setPrev m newBlock block
  let h := if blkNext m block ≠ 0 then { h with mem := setPrev m (blkNext m block) newBlock }
    else { h with mem := m, tail := newBlock }
  { h with mem := setSize (setNext h.mem block newBlock) block req }

/-- The body of the inner loop once a block fits: split it if the rest is large
enough, mark it allocated, return its payload. -/
def takeBlock (h : KHeap) (block req : Nat) : KHeap × Nat :=
  let h := if blkSize h.mem block - req ≥ hdr + minPayload + (alignment - 1) then
    splitBlock h block req else h
  ({ h with mem := setState h.mem block kblockAllocated }, block + hdr)

/-- The outer loop of `KMalloc`, with `n` passes left. -/
def kMallocPass (h : KHeap) (req : Nat) : Nat → Option (KHeap × Nat)
  | 0 => some (h, 0)
  | n + 1 => (findFit h.mem req maxBlocks h.head).bind fun
    | some block => some (takeBlock h block req)
    | none => (heapGrow h req).bind fun r =>
      if r.2 then kMallocPass r.1 req n else some (r.1, 0)

/-- mirrors kernel/mm/alloc.c:272-313 -/
def kMalloc (h : KHeap) (size : Nat) : Option (KHeap × Nat) :=
  if size = 0 then some (h, 0) else kMallocPass h (alignUp size alignment) 2

/-- `memset(p, 0, n)`: the last word may be cleared in part. -/
def zeroBytes (p n : Nat) : Mem := fun a =>
  if p ≤ a ∧ a + 4 ≤ p + n then 0
  else if p ≤ a ∧ a < p + n then m a - m a % 2 ^ (8 * (p + n - a)) else m a

/-- mirrors kernel/mm/alloc.c:315-321 -/
def kZAlloc (h : KHeap) (size : Nat) : Option (KHeap × Nat) :=
  (kMalloc h size).map fun r =>
    if r.2 ≠ 0 then ({ r.1 with mem := zeroBytes r.1.mem r.2 size }, r.2) else r

/-- mirrors kernel/mm/alloc.c:323-330 -/
def kCalloc (h : KHeap) (nmemb size : Nat) : Option (KHeap × Nat) :=
  if nmemb ≠ 0 ∧ size > (wordSize - 1) / nmemb then some (h, 0)
  else kZAlloc h (nmemb * size % wordSize)

/-- mirrors kernel/mm/alloc.c:332-365 -/
def kFree (h : KHeap) (ptr : Nat) : KHeap :=
  if ptr = 0 then h
  else if ptr % alignment ≠ 0 then h
  else if ptr < h.startVa + hdr ∨ ptr ≥ h.endVa then h
  else
    let header := ptr - hdr
    if blkState h.mem header = kblockFree then h
    else if blkState h.mem header ≠ kblockAllocated then h
    else
      let h := { h with mem := setState h.mem header kblockFree }
      let h := heapMerge h header
      let prev := blkPrev h.mem header
      if prev ≠ 0 ∧ blkState h.mem prev = kblockFree then heapMerge h prev else h

/-- mirrors kernel/mm/alloc.c:369-381. `mem` is whatever memory holds. -/
def kHeapInit (pmm : PmmState) (vaOffset : Nat) (mem : Mem) : Option KHeap :=
  let h : KHeap :=
    { pmm, vaOffset, mem, head := 0, tail := 0, startPa := 0, startVa := 0, endPa := 0
      endVa := 0, segs := [] }
  (heapGrow h (heapInitialSize - hdr)).bind fun r => if r.2 then some r.1 else none

end Zuzu.L1.Heap
