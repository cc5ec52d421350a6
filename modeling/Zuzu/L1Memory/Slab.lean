import Zuzu.L1Memory.PmmInv

/-!
# Slab caches (`kernel/mm/alloc.c`)

A cache carves pages into objects of one size. Each page starts with a `KSlab`
header; a free object holds the address of the next free one in its first
word. A slab with free and used objects is on the `partial` list, one without
free objects on the `full` list, and one slab without used objects may be kept
back as `empty_hold`.

Memory is split by type: `slab` maps a page's address to its header, `word` an
object's address to its first word. `slots_apart` and `slot_header_apart` say that
the bytes behind them never overlap. `pages` is history only: the pages the
cache holds.
-/
namespace Zuzu.L1.Slab
open Zuzu.Core Zuzu.L1.Pmm
open Function (update)

/-- mirrors kernel/mm/alloc.h:43-50 -/
structure KSlab where
  next : Nat
  prev : Nat
  ownerCache : Nat
  used : Nat
  capacity : Nat
  freeHead : Nat
  deriving DecidableEq, Repr

/-- mirrors kernel/mm/alloc.h:55-60; `addr` is where the cache itself is -/
structure KSlabCache where
  addr : Nat
  objSize : Nat
  partialList : Nat
  fullList : Nat
  emptyHold : Nat
  deriving DecidableEq, Repr

/-- Slab headers by address. -/
abbrev Headers := Nat → KSlab

def setNext (m : Headers) (s v : Nat) : Headers := update m s { m s with next := v }
def setPrev (m : Headers) (s v : Nat) : Headers := update m s { m s with prev := v }

/-- `align_up(sizeof(KSlab), 8)`: six words -/
def slabHdr : Nat := 24

/-- mirrors kernel/mm/alloc.c:36-43; the second component is the new list head -/
def slabListPush (m : Headers) (head slab : Nat) : Headers × Nat :=
  let m := setNext (setPrev m slab 0) slab head
  (if head ≠ 0 then setPrev m head slab else m, slab)

/-- mirrors kernel/mm/alloc.c:51-60 -/
def slabListRemove (m : Headers) (head slab : Nat) : Headers × Nat :=
  let prev := (m slab).prev
  let next := (m slab).next
  let r := if prev ≠ 0 then (setNext m prev next, head) else (m, next)
  let m := if next ≠ 0 then setPrev r.1 next prev else r.1
  (setPrev (setNext m slab 0) slab 0, r.2)

/-- A cache with the memory it lives in. -/
structure SlabState where
  pmm : PmmState
  vaOffset : Nat                      -- `KERNEL_VA_OFFSET`
  slab : Headers
  word : Nat → Nat
  cache : KSlabCache
  pages : List Nat                    -- history: the pages held

variable (m : Headers) (s : SlabState)

/-- The number of objects in a slab: kernel/mm/alloc.c:75-80. -/
def slabCapacity (objSize : Nat) : Nat := (pageSize - slabHdr) / objSize

/-- Object `i` of a slab. -/
def slotAddr (slab objSize i : Nat) : Nat := slab + slabHdr + i * objSize

/-- One turn of the loop at kernel/mm/alloc.c:84-88: a slot goes on the free list. -/
def growSlot (slab objSize : Nat) (st : Headers × (Nat → Nat)) (i : Nat) :
    Headers × (Nat → Nat) :=
  let slot := slotAddr slab objSize i
  (update st.1 slab { st.1 slab with freeHead := slot },
    update st.2 slot (st.1 slab).freeHead)

/-- mirrors kernel/mm/alloc.c:79-88: a fresh page becomes a slab with all slots free -/
def slabFormat (slab : Nat) : SlabState :=
  let capacity := slabCapacity s.cache.objSize
  let m := update s.slab slab { s.slab slab with
    ownerCache := s.cache.addr
    capacity
    used := 0
    freeHead := 0 }
  let mw := (List.range capacity).foldl (growSlot slab s.cache.objSize) (m, s.word)
  { s with slab := mw.1, word := mw.2, pages := slab :: s.pages }

/-- mirrors kernel/mm/alloc.c:68-92; address 0 reports that there was no frame. With
object size 0 the division at line 80 has no value. -/
def slabGrow : Option (SlabState × Nat) :=
  (pmmAllocFrame s.pmm).bind fun r =>
    let s := { s with pmm := r.1 }
    if r.2 = 0 then some (s, 0)
    else kassert (s.cache.objSize ≠ 0) <|
      let slab := r.2 + s.vaOffset
      let s := slabFormat s slab
      let p := slabListPush s.slab s.cache.partialList slab
      some ({ s with slab := p.1, cache := { s.cache with partialList := p.2 } }, slab)

/-- mirrors kernel/mm/alloc.c:100-109 -/
def createSlabCache (addr objSize : Nat) : Option KSlabCache :=
  let objSize := alignUp (if objSize < 4 then 4 else objSize) 8
  kassert (objSize ≤ pageSize - slabHdr) <| some ⟨addr, objSize, 0, 0, 0⟩

/-- The slab `SlabAlloc` takes from: the first partial one, the spare, or a new one.
mirrors kernel/mm/alloc.c:119-131 -/
def slabPick : Option (SlabState × Nat) :=
  if s.cache.partialList ≠ 0 then some (s, s.cache.partialList)
  else if s.cache.emptyHold ≠ 0 then
    let slab := s.cache.emptyHold
    let p := slabListPush s.slab s.cache.partialList slab
    let cache := { s.cache with emptyHold := 0, partialList := p.2 }
    some ({ s with slab := p.1, cache }, slab)
  else slabGrow s

/-- The header after one object was taken; `next` is the new first free one. -/
def KSlab.take (h : KSlab) (next : Nat) : KSlab :=
  { h with freeHead := next, used := (h.used + 1) % wordSize }

/-- A 32-bit counter goes down by one. -/
def dec32 (u : Nat) : Nat := if u = 0 then wordSize - 1 else u - 1

/-- The header after the object `ptr` came back. -/
def KSlab.put (h : KSlab) (ptr : Nat) : KSlab :=
  { h with freeHead := ptr, used := dec32 h.used }

/-- mirrors kernel/mm/alloc.c:133-141: the first free object leaves its slab -/
def slabTake (slab : Nat) : SlabState × Nat :=
  let obj := (s.slab slab).freeHead
  let m := update s.slab slab ((s.slab slab).take (s.word obj))
  if (m slab).freeHead = 0 then
    let r := slabListRemove m s.cache.partialList slab
    let p := slabListPush r.1 s.cache.fullList slab
    ({ s with slab := p.1, cache := { s.cache with partialList := r.2, fullList := p.2 } }, obj)
  else ({ s with slab := m }, obj)

/-- mirrors kernel/mm/alloc.c:117-142 -/
def slabAlloc : Option (SlabState × Nat) :=
  (slabPick s).map fun r => if r.2 = 0 then (r.1, 0) else slabTake r.1 r.2

/-- mirrors kernel/mm/alloc.c:158-167: the object is back on its slab's free list -/
def slabPut (slab ptr : Nat) : SlabState :=
  let wasFull := (s.slab slab).freeHead = 0
  let m := update s.slab slab ((s.slab slab).put ptr)
  let s := { s with word := update s.word ptr (s.slab slab).freeHead, slab := m }
  if wasFull then
    let r := slabListRemove s.slab s.cache.fullList slab
    let p := slabListPush r.1 s.cache.partialList slab
    { s with slab := p.1, cache := { s.cache with fullList := r.2, partialList := p.2 } }
  else s

/-- mirrors kernel/mm/alloc.c:150-177 -/
def slabFree (ptr : Nat) : Option SlabState :=
  let slab := alignDown ptr pageSize
  kassert (ptr ≠ 0) <|
  kassert ((s.slab slab).ownerCache = s.cache.addr) <|
  let s := slabPut s slab ptr
  if (s.slab slab).used = 0 then
    let r := slabListRemove s.slab s.cache.partialList slab
    let s := { s with slab := r.1, cache := { s.cache with partialList := r.2 } }
    if s.cache.emptyHold = 0 then some { s with cache := { s.cache with emptyHold := slab } }
    else (pmmFreeFrame s.pmm (slab - s.vaOffset)).map fun p =>
      { s with pmm := p, pages := s.pages.erase slab }
  else some s

/-- mirrors kernel/mm/alloc.c:181 -/
def kSlabAlloc : Option (SlabState × Nat) := slabAlloc s

/-- mirrors kernel/mm/alloc.c:183-187 -/
def kSlabFree (ptr : Nat) : Option SlabState :=
  if ptr ≠ 0 then slabFree s ptr else some s

end Zuzu.L1.Slab
