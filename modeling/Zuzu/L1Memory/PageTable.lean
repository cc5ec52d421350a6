import Mathlib.Logic.Function.Basic
import Zuzu.Types

/-!
# ARMv7 translation tables

Embeds arch/arm/mmu/mmu.c (creating, mapping, unmapping, translating and
tearing down) and arch/arm/mmu/l2_pool.c, the allocator of second-level
tables. A first-level (L1) table has one descriptor for each 1 MiB of virtual
addresses: a fault entry, a section that maps the whole of it, or a pointer to
a second-level (L2) table of 256 small pages. L2 tables are 1 KiB; the pool
cuts a frame into four of them.

Physical memory is a function from addresses to 32-bit words, read and written
at the addresses the code computes, so that tables can overlap as far as the
model is concerned. What the PMM and the slab cache of pool records answer
comes from outside (`Env`); an answer that is not a free frame counts as none.
Barriers and TLB maintenance are left out.
-/
namespace Zuzu.L1.PageTable
open Function (update)

abbrev Word := BitVec 32

/-! ## Descriptors: arch/arm/include/arch_impl/armv7_mmu.h -/

def descTypeMask : Word := 0x3#32
def descFault : Word := 0x0#32
def descL2 : Word := 0x1#32
def descSection : Word := 0x2#32
def descSupersection : Word := 0x3#32

def l2SmallTag : Word := 0x2#32
def l1SectionBaseMask : Word := 0xFFF00000#32
def l1L2ptrBaseMask : Word := 0xFFFFFC00#32
def l2SmallBaseMask : Word := 0xFFFFF000#32

def l1Idx (va : Nat) : Nat := va / sectionSize % 4096
def l2Idx (va : Nat) : Nat := va / pageSize % 256

def l2TableSize : Nat := 1024

/-- mirrors arch/arm/mmu/mmu.c:39-42 -/
def l1EntryCount : AddressSpaceType → Nat
  | .user => 2048
  | .kernel => 4096

/-- mirrors arch/arm/mmu/mmu.c:50-53 -/
def l1TableBytes (type : AddressSpaceType) : Nat := l1EntryCount type * 4

/-- mirrors arch/arm/mmu/mmu.c:61-64 -/
def l1TablePages (type : AddressSpaceType) : Nat := l1TableBytes type / pageSize

/-- mirrors arch/arm/mmu/mmu.c:72-77 -/
def apBits (prot : MemProt) : Word :=
  if prot &&& vmProtUser ≠ 0 then (if prot &&& protWrite ≠ 0 then 0x3#32 else 0x2#32) else 0x1#32

/-- mirrors arch/arm/mmu/mmu.c:89-113 -/
def l1SectionDesc (pa : Nat) (prot : MemProt) (memtype : VirtMemType) : Word :=
  ((BitVec.ofNat 32 pa &&& l1SectionBaseMask) ||| descSection) ||| ((apBits prot <<< 10) |||
    (if prot &&& protExec = 0 then 1#32 <<< 4 else 0#32) |||
    (if prot &&& vmProtUser ≠ 0 then 1#32 <<< 17 else 0#32) |||
    (match memtype with
      | .device => 1#32 <<< 2
      | .normalNc => (1#32 <<< 12) ||| (1#32 <<< 16)
      | .normal => (1#32 <<< 12) ||| (1#32 <<< 3) ||| (1#32 <<< 2) ||| (1#32 <<< 16)))

/-- mirrors arch/arm/mmu/mmu.c:122-146 -/
def l2PageDesc (pa : Nat) (prot : MemProt) (memtype : VirtMemType) : Word :=
  ((BitVec.ofNat 32 pa &&& l2SmallBaseMask) ||| l2SmallTag) ||| ((apBits prot <<< 4) |||
    (if prot &&& protExec = 0 then 1#32 <<< 0 else 0#32) |||
    (if prot &&& vmProtUser ≠ 0 then 1#32 <<< 11 else 0#32) |||
    (match memtype with
      | .device => 1#32 <<< 2
      | .normalNc => (1#32 <<< 6) ||| (1#32 <<< 10)
      | .normal => (1#32 <<< 6) ||| (1#32 <<< 3) ||| (1#32 <<< 2) ||| (1#32 <<< 10)))

/-- mirrors arch/arm/mmu/mmu.c:504-509 -/
def archMmuMakeL1Pte (l2Pa : Nat) : Word :=
  if l2Pa = 0 then 0#32 else (BitVec.ofNat 32 l2Pa &&& l1L2ptrBaseMask) ||| descL2

/-- The permission and memory type fields of a mapping. -/
structure Attrs where
  xn : Word
  cb : Word
  ap : Word
  tex : Word
  ap2 : Word
  ng : Word
  s : Word
  deriving DecidableEq, Repr

/-- The fields of a section, as arch/arm/mmu/mmu.c:524-530 reads them. -/
def sectionAttrs (e : Word) : Attrs where
  xn := (e >>> 4) &&& 0x1#32
  cb := (e >>> 2) &&& 0x3#32
  ap := (e >>> 10) &&& 0x3#32
  tex := (e >>> 12) &&& 0x7#32
  ap2 := (e >>> 15) &&& 0x1#32
  ng := (e >>> 17) &&& 0x1#32
  s := (e >>> 16) &&& 0x1#32

/-- The same fields of a small page. -/
def pageAttrs (e : Word) : Attrs where
  xn := (e >>> 0) &&& 0x1#32
  cb := (e >>> 2) &&& 0x3#32
  ap := (e >>> 4) &&& 0x3#32
  tex := (e >>> 6) &&& 0x7#32
  ap2 := (e >>> 9) &&& 0x1#32
  ng := (e >>> 11) &&& 0x1#32
  s := (e >>> 10) &&& 0x1#32

/-- The fields placed where a small page has them (arch/arm/mmu/mmu.c:538-540). -/
def Attrs.pageBits (a : Attrs) : Word :=
  (a.xn <<< 0) ||| (a.cb <<< 2) ||| (a.ap <<< 4) ||| (a.tex <<< 6) ||| (a.s <<< 10) |||
    (a.ap2 <<< 9) ||| (a.ng <<< 11)

/-- Page `i` of a section that is broken up (arch/arm/mmu/mmu.c:542-545). -/
def brokenPage (e : Word) (i : Nat) : Word :=
  (((e &&& l1SectionBaseMask) + BitVec.ofNat 32 (i * pageSize)) &&& l2SmallBaseMask) |||
    l2SmallTag ||| (sectionAttrs e).pageBits

/-! ## State -/

/-- mirrors arch/arm/mmu/l2_pool.h:14-18; the pool is a list of these -/
structure L2PtPoolEntry where
  pagePa : Nat
  usedMask : BitVec 8
  deriving DecidableEq, Repr

/-- The tables of an address space. -/
structure Space where
  ptRoot : Nat
  type : AddressSpaceType
  deriving DecidableEq, Repr

/-- Physical memory, the table pool, the frames that are allocated (by anyone), and the
live address spaces. -/
structure Mmu where
  mem : Nat → Word
  pool : List L2PtPoolEntry
  frames : Nat → Bool
  spaces : Nat → Option Space

/-- What the allocators answer in one operation. An allocation never finds the
set of allocated frames as an earlier one of the same operation did, so an
answer per set is an answer per call. -/
structure Env where
  frame : (Nat → Bool) → Nat
  entry : (Nat → Bool) → Bool

variable (env : Env) (e : Word) (s : Mmu) (type : AddressSpaceType) (root : Nat) (as : Space)
  (va : Nat)

/-- Write `f i` to the `i`-th word of the `len` bytes from `base` on. -/
def fill (mem : Nat → Word) (base len : Nat) (f : Nat → Word) : Nat → Word := fun a =>
  if base ≤ a ∧ a < base + len then f ((a - base) / 4) else mem a

/-- `PmmAllocFrame`: the frame the PMM picks, 0 if it has none. -/
def pmmAllocFrame : Mmu × Nat :=
  let f := env.frame s.frames
  if f ≠ 0 ∧ f % pageSize = 0 ∧ f < wordSize ∧ s.frames f = false then
    ({ s with frames := update s.frames f true }, f)
  else (s, 0)

/-- `PmmFreeFrame`. -/
def pmmFreeFrame (f : Nat) (s : Mmu) : Mmu := { s with frames := update s.frames f false }

/-! ## The pool of L2 tables -/

/-- The first slot whose bit is clear. -/
def freeSlot (mask : BitVec 8) : Option Nat := (List.range 4).find? fun k => !mask.getLsbD k

/-- The search of arch/arm/mmu/l2_pool.c:29-41. -/
def poolTake : List L2PtPoolEntry → Option (Nat × List L2PtPoolEntry)
  | [] => none
  | e :: es =>
    match if e.usedMask = 0xF#8 then none else freeSlot e.usedMask with
    | none => (poolTake es).map fun r => (r.1, e :: r.2)
    | some k => some (e.pagePa + k * l2TableSize,
        { e with usedMask := e.usedMask ||| (1#8 <<< k) } :: es)

/-- mirrors arch/arm/mmu/l2_pool.c:27-64 -/
def l2PtPoolAlloc : Mmu × Nat :=
  match poolTake s.pool with
  | some (pa, pool) => ({ s with pool, mem := fill s.mem pa l2TableSize fun _ => 0 }, pa)
  | none =>
    let r := pmmAllocFrame env s
    if r.2 = 0 then (s, 0)
    else if env.entry r.1.frames = false then (pmmFreeFrame r.2 r.1, 0)
    else
      ({ r.1 with
        mem := fill s.mem r.2 pageSize fun _ => 0
        pool := ⟨r.2, 0x1#8⟩ :: s.pool }, r.2)

/-- The search of arch/arm/mmu/l2_pool.c:78-97, and whether the frame goes back. -/
def poolPut (pagePa slot : Nat) : List L2PtPoolEntry → List L2PtPoolEntry × Bool
  | [] => ([], false)
  | e :: es =>
    if e.pagePa ≠ pagePa then
      let r := poolPut pagePa slot es
      (e :: r.1, r.2)
    else
      let usedMask := e.usedMask &&& ~~~(1#8 <<< slot)
      if usedMask = 0 then (es, true) else ({ e with usedMask } :: es, false)

/-- mirrors arch/arm/mmu/l2_pool.c:66-98 -/
def l2PtPoolFree (l2Pa : Nat) (s : Mmu) : Mmu :=
  if l2Pa = 0 then s
  else
    let pagePa := alignDown l2Pa pageSize
    let r := poolPut pagePa (l2Pa % pageSize / l2TableSize) s.pool
    if r.2 then pmmFreeFrame pagePa { s with pool := r.1 } else { s with pool := r.1 }

/-! ## Mapping and unmapping -/

/-- Address of entry `i` of an L1 table. -/
def Space.l1Addr (i : Nat) : Nat := as.ptRoot + 4 * i

/-- `l1[i] = e`, or `l2[i] = e`. -/
def Mmu.store (a : Nat) (e : Word) : Mmu := { s with mem := update s.mem a e }

/-- The type of an L1 descriptor. -/
def descType : Word := e &&& descTypeMask

/-- The L2 table an L1 descriptor points to. -/
def l2Base : Nat := (e &&& l1L2ptrBaseMask).toNat

/-- `va + offset` in 32 bits. -/
def addOff (va offset : Nat) : Nat := (va + offset) % wordSize

/-- mirrors arch/arm/mmu/mmu.c:463-496 -/
def archMmuTranslate (ttbrPa va : Nat) : Nat :=
  if ttbrPa = 0 then 0
  else
    let l1Entry := s.mem (ttbrPa + 4 * l1Idx va)
    if descType l1Entry = descFault then 0
    else if descType l1Entry = descSection ∨ descType l1Entry = descSupersection then
      (l1Entry &&& l1SectionBaseMask).toNat ||| va % sectionSize
    else if descType l1Entry = descL2 then
      let l2Entry := s.mem (l2Base l1Entry + 4 * l2Idx va)
      if l2Entry &&& l2SmallTag = 0 then 0
      else (l2Entry &&& l2SmallBaseMask).toNat ||| va % pageSize
    else 0

/-- mirrors arch/arm/mmu/mmu.c:519-553 -/
def archMmuBreakSection (l1Idx : Nat) (env : Env) : Mmu × Bool :=
  let sect := s.mem (as.l1Addr l1Idx)
  let r := l2PtPoolAlloc env s
  if r.2 = 0 then (r.1, false)
  else
    let filled := { r.1 with mem := fill r.1.mem r.2 l2TableSize (brokenPage sect) }
    (filled.store (as.l1Addr l1Idx) (archMmuMakeL1Pte r.2), true)

/-- The table that is to hold a page's descriptor (arch/arm/mmu/mmu.c:574-592): the L1 entry
points to it afterwards. -/
def ensureTable (l1Idx : Nat) (env : Env) : Mmu × Bool :=
  let type := descType (s.mem (as.l1Addr l1Idx))
  if type = descFault then
    let r := l2PtPoolAlloc env s
    if r.2 = 0 then (r.1, false)
    else (r.1.store (as.l1Addr l1Idx) (archMmuMakeL1Pte r.2), true)
  else if type = descL2 then (s, true)
  else archMmuBreakSection s as l1Idx env

/-- mirrors arch/arm/mmu/mmu.c:555-598 -/
def archMmuMapPage (va pa : Nat) (memtype : VirtMemType) (prot : MemProt)
    (env : Env) : Mmu × Bool :=
  if as.type = .user ∧ va ≥ userVaTop then (s, false)
  else if l1Idx va ≥ l1EntryCount as.type then (s, false)
  else
    let r := ensureTable s as (l1Idx va) env
    if r.2 = false then r
    else
      let l2 := l2Base (r.1.mem (as.l1Addr (l1Idx va)))
      (r.1.store (l2 + 4 * l2Idx va) (l2PageDesc pa prot memtype), true)

/-- mirrors arch/arm/mmu/mmu.c:600-620 -/
def archMmuUnmapPage : Mmu × Bool :=
  let l1Entry := s.mem (as.l1Addr (l1Idx va))
  if descType l1Entry ≠ descL2 then (s, false)
  else
    let a := l2Base l1Entry + 4 * l2Idx va
    if s.mem a = 0 then (s, false) else (s.store a 0, true)

/-- The section loop of `ArchMmuMap` with `n` sections left, from section `k` on. -/
def mapSections (as : Space) (va pa : Nat) (prot : MemProt) (memtype : VirtMemType) :
    Mmu → Nat → Nat → Mmu × Bool
  | s, _, 0 => (s, true)
  | s, k, n + 1 =>
    let idx := l1Idx (addOff va (k * sectionSize))
    if idx ≥ l1EntryCount as.type then (s, false)
    else
      let e := l1SectionDesc (addOff pa (k * sectionSize)) prot memtype
      mapSections as va pa prot memtype (s.store (as.l1Addr idx) e) (k + 1) n

/-- Unmap the first `n` pages from `va` on, and whether any was mapped. -/
def unmapPages (as : Space) (va : Nat) (s : Mmu) : Nat → Mmu × Bool
  | 0 => (s, false)
  | n + 1 =>
    let r := unmapPages as va s n
    let r' := archMmuUnmapPage r.1 as (addOff va (n * pageSize))
    (r'.1, r.2 || r'.2)

/-- The page loop of `ArchMmuMap` with `n` pages left, from page `k` on: where one cannot be
mapped those before it are unmapped. -/
def mapPages (as : Space) (va pa : Nat) (prot : MemProt) (memtype : VirtMemType) (env : Env) :
    Mmu → Nat → Nat → Mmu × Bool
  | s, _, 0 => (s, true)
  | s, k, n + 1 =>
    let r := archMmuMapPage s as (addOff va (k * pageSize)) (addOff pa (k * pageSize)) memtype
      prot env
    if r.2 = false then ((unmapPages as va r.1 k).1, false)
    else mapPages as va pa prot memtype env r.1 (k + 1) n

/-- mirrors arch/arm/mmu/mmu.c:225-271 -/
def archMmuMap (va pa size : Nat) (prot : MemProt) (memtype : VirtMemType)
    (env : Env) : Mmu × Bool :=
  if size = 0 then (s, false)
  else if as.type = .user ∧ (va ≥ userVaTop ∨ size > userVaTop - va) then (s, false)
  else if va % sectionSize = 0 ∧ pa % sectionSize = 0 ∧ size % sectionSize = 0 then
    mapSections as va pa prot memtype s 0 (size / sectionSize)
  else if va % pageSize = 0 ∧ pa % pageSize = 0 ∧ size % pageSize = 0 then
    mapPages as va pa prot memtype env s 0 (size / pageSize)
  else (s, false)

/-- One round of the section loop of `ArchMmuUnmap` (arch/arm/mmu/mmu.c:288-306). -/
def unmapSection (idx : Nat) : Mmu × Bool :=
  let entry := s.mem (as.l1Addr idx)
  if entry = 0 then (s, false)
  else
    let cleared := s.store (as.l1Addr idx) 0
    (if descType entry = descL2 then l2PtPoolFree (l2Base entry) cleared else cleared, true)

/-- Unmap the first `n` sections from `va` on, and whether any was mapped. -/
def unmapSections (as : Space) (va : Nat) (s : Mmu) : Nat → Mmu × Bool
  | 0 => (s, false)
  | n + 1 =>
    let r := unmapSections as va s n
    let r' := unmapSection r.1 as (l1Idx (addOff va (n * sectionSize)))
    (r'.1, r.2 || r'.2)

/-- mirrors arch/arm/mmu/mmu.c:273-332 -/
def archMmuUnmap (va size : Nat) : Mmu × Bool :=
  if size = 0 then (s, false)
  else if va % sectionSize = 0 ∧ size % sectionSize = 0 then
    unmapSections as va s (size / sectionSize)
  else if va % pageSize = 0 ∧ size % pageSize = 0 then unmapPages as va s (size / pageSize)
  else (s, false)

/-! ## Creating and destroying address spaces -/

/-- `PmmAllocFramesContigAligned(l1_pages, l1_pages)` answers `root`: the frames of an L1 table
are free, in a row and aligned. -/
def rootFree : Prop :=
  0 < root ∧ root % l1TableBytes type = 0 ∧ root + l1TableBytes type ≤ wordSize ∧
    ∀ k < l1TablePages type, s.frames (root + k * pageSize) = false

instance : Decidable (rootFree s type root) := by
  unfold rootFree
  infer_instance

/-- Allocated or free: the frames of an L1 table. -/
def setRootFrames (b : Bool) : Mmu :=
  { s with frames := fun f =>
      if root ≤ f ∧ f < root + l1TableBytes type ∧ f % pageSize = 0 then b else s.frames f }

/-- mirrors arch/arm/mmu/mmu.c:187-201; the frames are those at `root`, if they can be had -/
def archMmuCreateTables : Mmu × Nat :=
  if rootFree s type root then
    ({ setRootFrames s type root true with
      mem := fill s.mem root (l1TableBytes type) fun _ => 0 }, root)
  else (s, 0)

/-- The first loop of `ArchMmuFreeTables`, over entries `0 … n - 1`. -/
def freeL2Tables (as : Space) (s : Mmu) : Nat → Mmu
  | 0 => s
  | n + 1 =>
    let s := freeL2Tables as s n
    let e := s.mem (as.l1Addr n)
    if descType e = descL2 then l2PtPoolFree (l2Base e) s else s

/-- mirrors arch/arm/mmu/mmu.c:203-223 -/
def archMmuFreeTables : Mmu :=
  if as.ptRoot = 0 then s
  else setRootFrames (freeL2Tables as s (l1EntryCount as.type)) as.type as.ptRoot false

/-- mirrors kernel/mm/vmm/vmm_region.c:134-173 as far as tables go: `vec` says whether the
region vector can be allocated. The new space is number `t`. -/
def addressSpaceCreate (t : Nat) (type : AddressSpaceType) (root : Nat) (vec : Bool) : Mmu :=
  let r := archMmuCreateTables s type root
  if r.2 = 0 then s
  else if vec = false then archMmuFreeTables r.1 ⟨r.2, type⟩
  else { r.1 with spaces := update s.spaces t (some ⟨r.2, type⟩) }

/-- mirrors kernel/mm/vmm/vmm_region.c:175-201 as far as tables go: `regions` are the ranges of
the space's regions, which are unmapped first. -/
def addressSpaceDestroy (t : Nat) (as : Space) (regions : List (Nat × Nat)) : Mmu :=
  let s := regions.foldl (fun s r => (archMmuUnmap s as r.1 r.2).1) s
  { archMmuFreeTables s as with spaces := update s.spaces t none }

end Zuzu.L1.PageTable
