import Zuzu.Core.Search
import Zuzu.L3Kernel.State

/-!
# Memory objects and address spaces

`kernel/mm/mem_object.c`, `kernel/mm/vmm/vmm_region.c`, `vmm_map.c` and
`vmm_user.c`. An address space is its region list and the page map that the two
levels of page tables encode: for each virtual page the frame it is mapped to
and whether the mapping has the device attribute.

What the allocators answer comes from outside (`Alloc`): which free frame the
PMM picks, whether there is memory for page tables, for the region vector or
for an object. Cache maintenance and protection bits in page tables are left
out.
-/
namespace Zuzu.L3
open Zuzu.Core Zuzu.L2.Handles

abbrev MemId := Nat

/-- mirrors include/types.h (`CreateMemoryFlags`) -/
def memContig : Reg := 1#32
def memUncached : Reg := 2#32
/-- mirrors arch/arm/include/arch_impl/user_layout.h:11-29 -/
def userSyspageVa : Nat := 0x00001000
def userMmapBase : Nat := 0x20000000
def userDeviceBase : Nat := 0x7F000000
def userDeviceLimit : Nat := 0x7F7FE000
def userStackGuardVa : Nat := 0x7F7FF000
def userStackBase : Nat := 0x7F800000
def userStackTop : Nat := 0x80000000

/-- mirrors include/util/tls.h:27-37 -/
def maxTcbPages : Nat := 37

/-- mirrors kernel/mm/mem_object.h:20 -/
def dmaMaxMappings : Nat := 256

/-- mirrors kernel/mm/mem_object.h:13-17 -/
inductive MemKind
  | none | device | shared
  deriving DecidableEq, Repr

/-- mirrors kernel/mm/mem_object.h:25-33 -/
structure DmaMapping where
  id : Nat
  mem : MemId
  offset : Nat
  len : Nat
  dir : Nat
  busAddr : Nat
  deriving DecidableEq, Repr

/-- mirrors kernel/mm/mem_object.h:36-59, both members of the union -/
structure MemObj where
  kind : MemKind
  refCount : Nat
  physBase : Nat
  size : Nat
  irq : Nat
  dmaLimit : Nat
  busOffset : Nat
  dmaMaps : List DmaMapping
  dmaNextId : Nat
  dmaMapCount : Nat
  pageAddrs : Nat → Nat
  pageCount : Nat
  flags : Reg
  ownerSpid : Int
  freed : Bool

def MemObj.zero : MemObj :=
  ⟨.none, 0, 0, 0, 0, 0, 0, [], 0, 0, fun _ => 0, 0, 0#32, -1, true⟩

/-- mirrors kernel/mm/vmm/vmm.h:45-49 -/
inductive VirtMemBacking
  | none | anon | shared
  deriving DecidableEq, Repr

/-- mirrors kernel/mm/vmm/vmm.h:64-74 -/
structure Region where
  vaddrStart : Nat
  size : Nat
  prot : MemProt
  maxProt : MemProt
  memtype : VirtMemType
  owner : VirtMemBacking
  pinned : Bool
  guard : Bool
  backing : Option MemId
  backingPageOffset : Nat
  deriving DecidableEq, Repr

/-- What a page is mapped to. -/
structure Pte where
  pa : Nat
  device : Bool
  deriving DecidableEq, Repr

/-- mirrors kernel/mm/vmm/vmm.h:86-91 -/
structure AddressSpace where
  regions : List Region
  pages : Nat → Option Pte   -- what the tables translate
  tables : Nat → Option Nat  -- the second-level table each first-level entry points to

structure Mem where
  objs : MemId → MemObj
  as : SpaceId → Option AddressSpace
  frames : Nat → Bool        -- frames taken from the PMM for contents, by physical address
  newObj : MemId

/-- Answers of the allocators during one kernel entry. -/
structure Alloc where
  frame : Nat → Option Nat   -- the frame the PMM picks for a page
  table : Nat → Option Nat   -- the second-level table the pool has for a first-level entry
  region : Bool              -- room for one more region
  slab : Bool                -- room for one more object

variable (a : AddressSpace) (m : Mem) (dev : MemId) (sp : SpaceId) (r : Region)

@[simps] def Mem.modObj (o : MemId) (f : MemObj → MemObj) : Mem :=
  { m with objs := Function.update m.objs o (f (m.objs o)) }

@[simps] def Mem.setAs (as : Option AddressSpace) : Mem :=
  { m with as := Function.update m.as sp as }

/-! ## Frames -/

/-- `PmmAllocFrame`: any free frame, or 0. -/
def pmmAllocFrame (pick : Option Nat) : Mem × Nat :=
  match pick with
  | none => (m, 0)
  | some pa =>
    if pa = 0 ∨ pa % pageSize ≠ 0 ∨ m.frames pa then (m, 0)
    else ({ m with frames := Function.update m.frames pa true }, pa)

/-- `PmmFreeFrame` -/
def pmmFreeFrame (pa : Nat) : Mem :=
  { m with frames := Function.update m.frames pa false }

/-! ## Memory objects -/

/-- mirrors kernel/mm/mem_object.c:53-69 -/
def memObjCreateDevice (physBase size irq : Nat) (ok : Bool) : Mem × Option MemId :=
  if ok then
    let o := m.newObj
    let m := m.modObj o fun _ => { MemObj.zero with
      kind := .device, refCount := 1, physBase, size, irq, dmaLimit := wordSize - 1, dmaNextId := 1
      freed := false }
    ({ m with newObj := o + 1 }, some o)
  else (m, none)

/-- mirrors kernel/mm/mem_object.c:84-88 -/
def memObjRef (o : MemId) : Mem :=
  m.modObj o fun k => { k with refCount := k.refCount + 1 }

/-- mirrors kernel/mm/mem_object.c:97-102: the frames of a shared object go back -/
def memObjFreePages (o : MemId) : Mem :=
  (List.range (m.objs o).pageCount).foldl (fun m i =>
    if (m.objs o).pageAddrs i ≠ 0 then pmmFreeFrame m ((m.objs o).pageAddrs i) else m) m

/-- mirrors kernel/mm/mem_object.c:90-114. A device's last reference drops its DMA
mappings; the number bounds that nesting. -/
def memObjUnref : Nat → Mem → MemId → Option Mem
  | 0, _, _ => none
  | n + 1, m, o =>
    let m := m.modObj o fun k => { k with refCount := k.refCount - 1 }
    if (m.objs o).refCount ≠ 0 then some m
    else
      let m := if (m.objs o).kind = .shared then memObjFreePages m o else m
      let maps := if (m.objs o).kind = .device then (m.objs o).dmaMaps else []
      (maps.foldlM (fun m d => memObjUnref n m d.mem) m).map fun m =>
        m.modObj o fun k => { k with freed := true }

/-- `MemObjUnref` of a pointer that may be null. -/
def memObjUnrefOpt (n : Nat) (m : Mem) : Option MemId → Option Mem
  | none => some m
  | some o => memObjUnref n m o

/-- mirrors kernel/mm/mem_object.c:125-165 -/
def memObjDmaMap (dev mem : MemId) (offset len dir : Nat) (ok : Bool) :
    Mem × Except Err (Nat × Nat) :=
  let d := m.objs dev
  let o := m.objs mem
  if d.kind ≠ .device then (m, .error .badType)
  else if ¬(o.kind = .shared ∧ o.flags &&& memContig ≠ 0) then (m, .error .badType)
  else if ¬(dir = 1 ∨ dir = 2 ∨ dir = 3) then (m, .error .badArg)
  else if len = 0 then (m, .error .badArg)
  else if offset % pageSize ≠ 0 ∨ len % pageSize ≠ 0 then (m, .error .badArg)
  else
    let size := o.pageCount * pageSize % wordSize
    if ¬(offset < size ∧ len ≤ size - offset) then (m, .error .badArg)
    else
      let bus := ((o.pageAddrs 0 + offset) % wordSize + d.busOffset) % wordSize
      if ¬(len - 1 ≤ d.dmaLimit ∧ bus ≤ d.dmaLimit - (len - 1)) then (m, .error .badArg)
      else if ¬d.dmaMapCount < dmaMaxMappings then (m, .error .noMem)
      else if ¬ok then (m, .error .noMem)
      else
        let next := (d.dmaNextId + 1) % wordSize
        let m := memObjRef m mem
        let m := m.modObj dev fun k => { k with
          dmaNextId := if next = 0 then 1 else next
          dmaMaps := ⟨d.dmaNextId, mem, offset, len, dir, bus⟩ :: k.dmaMaps
          dmaMapCount := k.dmaMapCount + 1 }
        (m, .ok (bus, d.dmaNextId))

/-- mirrors kernel/mm/mem_object.c:223-231 -/
def memObjDmaFind (id : Nat) : Option DmaMapping :=
  if (m.objs dev).kind ≠ .device then none else (m.objs dev).dmaMaps.find? fun d => d.id = id

/-- mirrors kernel/mm/mem_object.c:167-188 -/
def memObjDmaUnmap (n : Nat) (m : Mem) (dev : MemId) (id : Nat) : Option (Mem × Err) :=
  if (m.objs dev).kind ≠ .device then some (m, .badType)
  else
    match (m.objs dev).dmaMaps.find? fun d => d.id = id with
    | none => some (m, .noEnt)
    | some d =>
      let m := m.modObj dev fun k => { k with
        dmaMaps := k.dmaMaps.erase d
        dmaMapCount := k.dmaMapCount - 1 }
      (memObjUnref n m d.mem).map fun m => (m, .ok)

/-- mirrors kernel/mm/mem_object.c:190-211 without cache maintenance; `op` 0 is
`DMA_SYNC_FOR_DEVICE` and 1 is `DMA_SYNC_FOR_CPU` -/
def memObjDmaSync (bus len op : Nat) : Err :=
  if (m.objs dev).kind ≠ .device then .badType
  else if op > 1 then .badArg
  else if len = 0 ∨ bus % 64 ≠ 0 ∨ len % 64 ≠ 0 then .badArg
  else if (m.objs dev).dmaMaps.any fun d =>
    len ≤ d.len ∧ d.busAddr ≤ bus ∧ bus - d.busAddr ≤ d.len - len then .ok
  else .noEnt

/-! ## Regions and mappings -/

/-- `[va, va + size)` as page numbers -/
def inRange (va size page : Nat) : Bool :=
  va / pageSize ≤ page ∧ page < va / pageSize + size / pageSize

/-- mirrors kernel/mm/vmm/vmm_region.c:36-45 -/
def regionContainsVa (va : Nat) (r : Region) : Ordering :=
  if va < r.vaddrStart then .lt
  else if va - r.vaddrStart ≥ r.size then .gt
  else .eq

/-- mirrors kernel/mm/vmm/vmm_region.c:54-63 -/
def regionCmpStart (va : Nat) (r : Region) : Ordering :=
  if va < r.vaddrStart then .lt
  else if va > r.vaddrStart then .gt
  else .eq

/-- mirrors kernel/mm/vmm/vmm_region.c:67-72 -/
def vmmFindRegion (va : Nat) : Option Region :=
  (bsearch (regionContainsVa va) a.regions).bind (a.regions[·]?)

/-- `[va, va + size)` as indices of the first-level table -/
def inTables (va size j : Nat) : Bool :=
  0 < size ∧ va < (j + 1) * sectionSize ∧ j * sectionSize < va + size

/-- mirrors arch/arm/mmu/mmu.c:599-620, page after page. A page of a section would stay; the
ranges that are unmapped are whole sections or were mapped page by page. -/
def AddressSpace.unmapPages (va size : Nat) : AddressSpace :=
  { a with pages := fun page => if inRange va size page then none else a.pages page }

/-- mirrors arch/arm/mmu/mmu.c:273-298 and 234-253: the first-level entries no longer point to a
second-level table -/
def AddressSpace.dropTables (va size : Nat) : AddressSpace :=
  { a with tables := fun j => if inTables va size j then none else a.tables j }

/-- mirrors kernel/mm/vmm/vmm_map.c:40-52 with arch/arm/mmu/mmu.c:273-332 -/
def vmmUnmapRange (va size : Nat) : AddressSpace :=
  if size = 0 ∨ va % pageSize ≠ 0 ∨ size % pageSize ≠ 0 then a
  else if va % sectionSize = 0 ∧ size % sectionSize = 0 then
    (a.unmapPages va size).dropTables va size
  else a.unmapPages va size

/-- The range can be mapped with sections alone: arch/arm/mmu/mmu.c:238. -/
def wholeSections (va pa size : Nat) : Bool :=
  va % sectionSize = 0 ∧ pa % sectionSize = 0 ∧ size % sectionSize = 0

/-- mirrors kernel/mm/vmm/vmm_map.c:16-35: the arguments that are not refused -/
def mapRangeOk (va pa size : Nat) (prot : MemProt) : Bool :=
  size ≠ 0 ∧ va % pageSize = 0 ∧ pa % pageSize = 0 ∧ size % pageSize = 0 ∧
    ¬(prot &&& protWrite ≠ 0 ∧ prot &&& protExec ≠ 0) ∧ va < userVaTop ∧ va + size ≤ userVaTop

def AddressSpace.mapPages (va pa size : Nat) (device : Bool) : AddressSpace :=
  { a with pages := fun page => if inRange va size page
      then some ⟨pa + (page - va / pageSize) * pageSize, device⟩ else a.pages page }

/-- mirrors arch/arm/mmu/mmu.c:578-595: the range has second-level tables, new ones from `table`
where there was a fault entry or a section -/
def AddressSpace.addTables (va size : Nat) (table : Nat → Option Nat) : AddressSpace :=
  { a with tables := fun j => if inTables va size j then (a.tables j).or (table j)
      else a.tables j }

/-- mirrors kernel/mm/vmm/vmm_map.c:13-38 with arch/arm/mmu/mmu.c:225-271. A range of whole
sections needs no second-level table. Otherwise `table` says for each first-level entry which
table the pool gives it; at the first page without one the pages before it are unmapped again,
and the tables stay. -/
def vmmMapRange (va pa size : Nat) (prot : MemProt) (device : Bool)
    (table : Nat → Option Nat) : AddressSpace × Bool :=
  if ¬mapRangeOk va pa size prot then (a, false)
  else if wholeSections va pa size then ((a.mapPages va pa size device).dropTables va size, true)
  else
    match (List.range (size / pageSize)).find? fun i =>
      let j := (va + i * pageSize) / sectionSize
      ((a.tables j).or (table j)).isNone with
    | some done =>
      ((a.addTables va (done * pageSize) table).unmapPages va (done * pageSize), false)
    | none => ((a.addTables va size table).mapPages va pa size device, true)

/-- mirrors kernel/mm/vmm/vmm_user.c:213-225 -/
def vmmMapUserPage (pa va : Nat) (prot : MemProt) (table : Nat → Option Nat) :
    AddressSpace × Bool :=
  if pa % pageSize ≠ 0 ∨ va % pageSize ≠ 0 then (a, false)
  else vmmMapRange a va pa pageSize (prot ||| vmProtUser) false table

/-- The region as `VmmAddRegion` stores it. -/
def Region.stored : Region :=
  { r with maxProt := if r.maxProt = 0 then r.prot &&& 7#32 else r.maxProt }

/-- mirrors kernel/mm/vmm/vmm_region.c:203-244; `ok` says that the vector has room or can grow -/
def vmmAddRegion (ok : Bool) : Mem × Bool :=
  match m.as sp with
  | none => (m, false)
  | some a =>
    if r.size = 0 then (m, false)
    else
      let newEnd := (r.vaddrStart + r.size) % wordSize
      let ins := upperBound (fun x => x.vaddrStart ≤ r.vaddrStart) a.regions
      if ins > 0 ∧ a.regions[ins - 1]?.any fun x =>
          (x.vaddrStart + x.size) % wordSize > r.vaddrStart then (m, false)
      else if a.regions[ins]?.any fun x => newEnd > x.vaddrStart then (m, false)
      else if ¬ok then (m, false)
      else
        let regions := a.regions.take ins ++ r.stored :: a.regions.drop ins
        let m := m.setAs sp (some { a with regions })
        (match r.backing with
          | none => m
          | some o => memObjRef m o, true)

/-- mirrors kernel/mm/vmm/vmm_region.c:271-289 -/
def vmmRemoveRegion (n : Nat) (m : Mem) (sp : SpaceId) (va size : Nat) : Option (Mem × Bool) :=
  match m.as sp with
  | none => some (m, false)
  | some a =>
    if size = 0 then some (m, false)
    else
      match bsearch (regionCmpStart va) a.regions with
      | none => some (m, false)
      | some i =>
        match a.regions[i]? with
        | none => some (m, false)
        | some r =>
          if r.size ≠ size then some (m, false)
          else
            let a := vmmUnmapRange a va size
            let m := m.setAs sp (some { a with regions := a.regions.eraseIdx i })
            (memObjUnrefOpt n m r.backing).map fun m => (m, true)

/-- mirrors kernel/mm/vmm/vmm_region.c:246-269 -/
def findFreeVaFrom (hi size : Nat) : Nat → List Region → Nat
  | cand, [] => if hi - cand ≥ size then cand else 0
  | cand, r :: rs =>
    let rEnd := alignUp ((r.vaddrStart + r.size) % wordSize) pageSize
    if rEnd ≤ cand then findFreeVaFrom hi size cand rs
    else if r.vaddrStart ≥ hi then if hi - cand ≥ size then cand else 0
    else if r.vaddrStart > cand ∧ r.vaddrStart - cand ≥ size then cand
    else if rEnd ≥ hi then 0
    else findFreeVaFrom hi size rEnd rs

def vmmFindFreeVa (lo hi size : Nat) : Nat :=
  if size = 0 ∨ lo ≥ hi ∨ size > hi - lo then 0 else findFreeVaFrom hi size lo a.regions

/-- The object a region's pages come from. -/
def Region.sharedBacking : Option MemId :=
  if r.owner = .shared then r.backing else none

/-- mirrors kernel/mm/vmm/vmm_region.c:74-132 -/
def vmmPageFaultHandle (va : Nat) (env : Alloc) : Mem × Bool :=
  let page := va / pageSize
  match m.as sp with
  | none => (m, false)
  | some a =>
    if (a.pages page).isSome then (m, true)
    else if r.memtype = .device then (m, false)
    else
      match r.sharedBacking with
      | some o =>
        let index := (va - r.vaddrStart) / pageSize + r.backingPageOffset
        if va < r.vaddrStart ∨ index ≥ (m.objs o).pageCount then (m, false)
        else
          let old := (m.objs o).pageAddrs index
          let (m, pa) := if old ≠ 0 then (m, old) else pmmAllocFrame m (env.frame page)
          if pa = 0 then (m, false)
          else
            let m := m.modObj o fun k =>
              { k with pageAddrs := Function.update k.pageAddrs index pa }
            let (a, mapped) := vmmMapRange a va pa pageSize r.prot false env.table
            if mapped then (m.setAs sp (some a), true)
            else if old ≠ 0 then (m, false)
            else (pmmFreeFrame (m.modObj o fun k =>
              { k with pageAddrs := Function.update k.pageAddrs index 0 }) pa, false)
      | none =>
        if r.owner ≠ .anon then (m, false)
        else
          let (m, pa) := pmmAllocFrame m (env.frame page)
          if pa = 0 then (m, false)
          else
            let (a, mapped) := vmmMapRange a va pa pageSize r.prot false env.table
            if mapped then (m.setAs sp (some a), true) else (pmmFreeFrame m pa, false)

end Zuzu.L3
