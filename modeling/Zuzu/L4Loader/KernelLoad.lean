import Zuzu.L3Kernel.VmmUser
import Zuzu.L4Loader.Zxf

/-!
# The kernel's loader (`kernel/task/kernel_load.c`)

`KernelSpaceLoad` creates a space and a task, copies the segments of an image
into fresh frames, maps them, and lays out the arguments on the stack. Address spaces,
regions and frames are those of `L3`; here memory has contents too (`Ram`). What
`SpaceCreate` and `TaskCreate` do besides memory enters as whether they find identifiers
(`LoadEnv`).

A load that fails destroys the space again; it returns no space and the reads made
so far. Cache maintenance and the task's registers are left out: the entry point and the
two stack addresses are part of the result.
-/
namespace Zuzu.L4
open Zuzu.Core Zuzu.L3

/-- Physical memory. -/
abbrev Ram := Nat → Byte

/-- `memcpy` of `len` bytes to the physical address `pa`. -/
def Ram.write (ram : Ram) (pa len : Nat) (src : Bytes) : Ram :=
  fun x => if pa ≤ x ∧ x < pa + len then src (x - pa) else ram x

def zeros : Bytes := fun _ => 0#8

/-- The bytes of a 32-bit number. -/
def word (n : Nat) : Bytes := fun i => BitVec.ofNat 8 (n / 256 ^ i)

/-- The byte at a user address. A page that is not mapped reads as zero in a region of plain memory,
where the first access faults it in; outside the regions and from `userVaTop` on there is none. -/
def byteAt (m : Mem) (ram : Ram) (sp : SpaceId) (va : Nat) : Option Byte :=
  if va ≥ userVaTop then none
  else
    (m.as sp).bind fun a =>
      match a.pages (va / pageSize) with
      | some e => some (ram (e.pa + va % pageSize))
      | none =>
        if a.regions.any fun r =>
            r.owner = .anon ∧ r.vaddrStart ≤ va ∧ va < r.vaddrStart + r.size then some 0#8
        else none

/-- Answers of the allocators during a load. Frames of a segment are numbered by its pages. -/
structure LoadEnv where
  syspagePa : Nat
  create : Alloc             -- `SpaceCreate`
  spid : Option Nat          -- what `SpidAlloc` finds
  tid : Option Nat           -- what `RegisterTask` finds, with room for the task
  seg : Nat → Alloc          -- each segment's; `slab` is the answer of `KMalloc`
  bss : Nat → Bool           -- room for the region behind the file
  stack : Alloc

variable (env : LoadEnv) (img : ZxfImage) (d : Bytes) (m : Mem) (ram : Ram) (sp : SpaceId)
  (s : ZxfSegment)

/-- A load under way. -/
structure Loader where
  mem : Mem
  ram : Ram
  reads : List Span

/-! ## Space and task -/

/-- The first slot's header.
mirrors kernel/task/task.c:243-251 and include/util/tls.h:43-51 -/
def tcbHeader (tid spid : Nat) : Bytes := fun i =>
  if i < 4 then word (userMmapBase + 64) i
  else if i < 8 then word tid (i - 4)
  else if i < 12 then word spid (i - 8)
  else if i = 12 then 1#8          -- `SCHED_PRIO_DEFAULT`
  else if i = 13 then 7#8          -- `SCHED_PRIORITY_LEVELS - 1`
  else 0#8

/-- mirrors kernel/task/kernel_load.c:98-107: a space and its first task, which takes the first
thread-local slot -/
def loadCreate : Option (Mem × Ram) :=
  match createAs m sp env.syspagePa env.create, env.spid, env.tid with
  | (m, true), some spid, some tid =>
    match (m.as sp).bind fun a => a.pages (userMmapBase / pageSize) with
    | none => none
    | some e => some (m, (ram.write e.pa pageSize zeros).write e.pa 576 (tcbHeader tid spid))
  | _, _, _ => none

/-! ## Segments -/

/-- The segment's address in the 32-bit space. -/
def ZxfSegment.va : Nat := s.vaddr % wordSize

/-- mirrors kernel/task/kernel_load.c:36-47 -/
def zxfSegChkOverlap (a b : ZxfSegment) : Bool :=
  let aEnd := (a.va + a.memSize) % wordSize
  let bEnd := (b.va + b.memSize) % wordSize
  if aEnd < a.va ∨ bEnd < b.va then true else a.va < bEnd ∧ b.va < aEnd

/-- Where the table has segment `i`. -/
def ZxfImage.segOffset (i : Nat) : Nat := img.segs + i * zxfSegmentSize

def ZxfImage.seg (i : Nat) : ZxfSegment :=
  zxfSegmentAt d (img.segOffset i)

def ZxfImage.segSpan (i : Nat) : Span := ⟨img.segOffset i, zxfSegmentSize⟩

/-- The order in which pairs of segments are compared. -/
def segPairs (n : Nat) : List (Nat × Nat) :=
  (List.range n).flatMap fun i => (List.range' (i + 1) (n - (i + 1))).map fun j => (i, j)

/-- mirrors kernel/task/kernel_load.c:110-124: whether all pairs are apart -/
def segsApart (img : ZxfImage) (d : Bytes) : List (Nat × Nat) → Bool × List Span
  | [] => (true, [])
  | (i, j) :: ps =>
    let reads := [img.segSpan i, img.segSpan j]
    if zxfSegChkOverlap (img.seg d i) (img.seg d j) then (false, reads)
    else
      let r := segsApart img d ps
      (r.1, reads ++ r.2)

/-- `(size + PAGE_SIZE - 1) / PAGE_SIZE` in 32 bits -/
def pagesFor (size : Nat) : Nat := (size + pageSize - 1) % wordSize / pageSize

/-- mirrors kernel/task/kernel_load.c:145-151 -/
def ZxfSegment.prot : MemProt :=
  (if s.flags &&& 1#8 ≠ 0 then protRead else 0#32) |||
    (if s.flags &&& 2#8 ≠ 0 then protWrite else 0#32) |||
    (if s.flags &&& 4#8 ≠ 0 then protExec else 0#32)

/-- How many bytes of the file go into a page of the segment.
mirrors kernel/task/kernel_load.c:168-171 -/
def ZxfSegment.pageBytes (page : Nat) : Nat :=
  min (s.fileSize - page * pageSize) pageSize

/-- Where in the file they start.
mirrors kernel/task/kernel_load.c:173-174 -/
def ZxfSegment.pageOffset (page : Nat) : Nat :=
  (s.fileOffset + page * pageSize) % wordSize

/-- mirrors kernel/task/kernel_load.c:153-191 -/
def loadPages (d : Bytes) (sp : SpaceId) (s : ZxfSegment) (env : Alloc) :
    List Nat → Loader → Loader × Bool
  | [], l => (l, true)
  | page :: pages, l =>
    match pmmAllocFrame l.mem (env.frame page) with
    | (_, 0) => (l, false)
    | (m, pa) =>
      let off := s.pageOffset page
      let n := s.pageBytes page
      let ram := l.ram.write pa n fun i => d (off + i)
      let ram := ram.write (pa + n) (pageSize - n) zeros
      let reads := l.reads ++ [⟨off, n⟩]
      match m.as sp with
      | none => (⟨m, ram, reads⟩, false)
      | some a =>
        match vmmMapUserPage a pa ((s.va + page * pageSize) % wordSize) s.prot env.table with
        | (_, false) => (⟨m, ram, reads⟩, false)
        | (a, true) => loadPages d sp s env pages ⟨m.setAs sp (some a), ram, reads⟩

/-- mirrors kernel/task/kernel_load.c:199-206 and 224-231 -/
def segRegion (start size : Nat) (prot : MemProt) : Region :=
  ⟨start, size, prot ||| vmProtUser, 0#32, .normal, .anon, false, false, none, 0⟩

/-- mirrors kernel/task/kernel_load.c:199-221; nothing to do without bytes in the file -/
def loadFileRegion (env : Alloc) (m : Mem) : Mem × Bool :=
  if pagesFor s.fileSize > 0 then
    vmmAddRegion m sp (segRegion s.va (pagesFor s.fileSize * pageSize % wordSize) s.prot) env.region
  else (m, true)

/-- mirrors kernel/task/kernel_load.c:223-238 -/
def loadBssRegion (ok : Bool) (m : Mem) : Mem × Bool :=
  let filePages := pagesFor s.fileSize
  let memPages := pagesFor s.memSize
  if memPages > filePages then
    vmmAddRegion m sp (segRegion ((s.va + filePages * pageSize) % wordSize)
      ((memPages - filePages) * pageSize % wordSize) s.prot) ok
  else (m, true)

/-- mirrors kernel/task/kernel_load.c:126-239, one segment -/
def loadSegment (size : Nat) (sp : SpaceId) (env : LoadEnv) (img : ZxfImage) (i : Nat)
    (l : Loader) : Loader × Bool :=
  let s := img.seg d i
  let l := { l with reads := l.reads ++ [img.segSpan i] }
  if (s.fileOffset + s.fileSize) % wordSize > size then (l, false)
  else if pagesFor s.fileSize > 0 ∧ ¬(env.seg i).slab then (l, false)
  else
    match loadPages d sp s (env.seg i) (List.range (pagesFor s.fileSize)) l with
    | (l, false) => (l, false)
    | (l, true) =>
      match loadFileRegion sp s (env.seg i) l.mem with
      | (m, false) => ({ l with mem := m }, false)
      | (m, true) =>
        let r := loadBssRegion sp s (env.bss i) m
        ({ l with mem := r.1 }, r.2)

def loadSegments (d : Bytes) (size : Nat) (sp : SpaceId) (env : LoadEnv) (img : ZxfImage) :
    List Nat → Loader → Loader × Bool
  | [], l => (l, true)
  | i :: is, l =>
    match loadSegment d size sp env img i l with
    | (l, false) => (l, false)
    | (l, true) => loadSegments d size sp env img is l

/-! ## Arguments -/

/-- mirrors arch/arm/include/arch_impl/user_layout.h:31 -/
def usrSp : Nat := 0x7FFFE000

/-- mirrors kernel/mm/vmm/vmm_user.c:243-262 with the contents of the pages it faults in -/
def faultPages (sp : SpaceId) (env : Alloc) : List Nat → Mem × Ram → (Mem × Ram) × Bool
  | [], p => (p, true)
  | page :: pages, (m, ram) =>
    match checkPages sp true env [page] m with
    | (m', false) => ((m', ram), false)
    | (m', true) =>
      let ram := match (m.as sp).bind fun a => a.pages page,
          (m'.as sp).bind fun a => a.pages page with
        | none, some e => ram.write e.pa pageSize zeros
        | _, _ => ram
      faultPages sp env pages (m', ram)

/-- mirrors kernel/task/kernel_load.c:59-77; each round copies up to the end of a page, so that
`len` rounds are enough -/
def addrSpaceCopyOut (m : Mem) (sp : SpaceId) : Nat → Ram → Nat → Bytes → Nat → Ram × Bool
  | 0, ram, _, _, len => (ram, len = 0)
  | fuel + 1, ram, va, src, len =>
    if len = 0 then (ram, true)
    else
      match (m.as sp).bind fun a => a.pages (va / pageSize) with
      | none => (ram, false)
      | some e =>
        let n := min (pageSize - va % pageSize) len
        addrSpaceCopyOut m sp fuel (ram.write (e.pa + va % pageSize) n src) (va + n)
          (fun i => src (n + i)) (len - n)

/-- mirrors kernel/task/kernel_load.c:318-330; `rest` is the payload from `str_src` on -/
def writeArgv (m : Mem) (sp : SpaceId) (argvVa argc : Nat) :
    List Nat → Nat → List Byte → Ram → Ram × Bool
  | [], _, _, ram => (ram, true)
  | a :: as, strVa, rest, ram =>
    let slot := if a < argc then strVa else 0
    match addrSpaceCopyOut m sp 4 ram (argvVa + a * 4) (word slot) 4 with
    | (ram, false) => (ram, false)
    | (ram, true) =>
      let len := (rest.takeWhile (· ≠ 0#8)).length + 1
      if a < argc then writeArgv m sp argvVa argc as (strVa + len) (rest.drop len) ram
      else writeArgv m sp argvVa argc as strVa rest ram

/-- Where the strings and the pointers to them go, if the payload is well formed and fits.
mirrors kernel/task/kernel_load.c:253-307 -/
def argvLayout (argbuf : List Byte) (argc : Nat) : Option (Nat × Nat) :=
  let argvBytes := (argc + 1) * 4
  let strings := (usrSp - argbuf.length) / 4 * 4
  let argv := (strings - argvBytes) / 8 * 8
  if argbuf.getLast? ≠ some 0#8 then none
  else if argbuf.count 0#8 < argc then none
  else if argc + 1 ≥ wordSize then none
  else if argvBytes ≥ wordSize then none
  else if argbuf.length > usrSp - userStackBase then none
  else if argvBytes > strings - userStackBase then none
  else if argv < userStackBase then none
  else some (strings, argv)

/-- The initial stack pointer and the address of `argv`.
mirrors kernel/task/kernel_load.c:241-332 -/
def loadArgs (env : Alloc) (argbuf : Option (List Byte)) (argc : Nat)
    (m : Mem) (ram : Ram) : Option (Mem × Ram × Nat × Nat) :=
  let payload := argbuf.getD []
  if (argc > 0) ≠ (payload ≠ []) then none
  else if payload = [] then some (m, ram, usrSp, 0)
  else
    match argvLayout payload argc with
    | none => none
    | some (strings, argv) =>
      let first := argv / pageSize
      let pages := (List.range (usrSp / pageSize - first)).map (first + ·)
      match faultPages sp env pages (m, ram) with
      | (_, false) => none
      | ((m, ram), true) =>
        match addrSpaceCopyOut m sp payload.length ram strings (fun i => payload.getD i 0#8)
          payload.length with
        | (_, false) => none
        | (ram, true) =>
          match writeArgv m sp argv argc (List.range (argc + 1)) strings payload ram with
          | (_, false) => none
          | (ram, true) => some (m, ram, argv, argv)

/-! ## The loader -/

/-- What a load leaves: memory, the entry point, the stack pointer and `argv`. -/
structure Loaded where
  mem : Mem
  ram : Ram
  entry : Nat
  stackPtr : Nat
  argvVa : Nat

/-- mirrors kernel/task/kernel_load.c:89-345, into the new space `sp` -/
def kernelSpaceLoad (d : Bytes) (size : Nat)
    (argbuf : Option (List Byte)) (argc : Nat) : Option Loaded × List Span :=
  match zxfParse d size with
  | (none, reads) => (none, reads)
  | (some img, reads) =>
    match loadCreate env m ram sp with
    | none => (none, reads)
    | some (m, ram) =>
      match segsApart img d (segPairs img.segCount) with
      | (false, more) => (none, reads ++ more)
      | (true, more) =>
        match loadSegments d size sp env img (List.range img.segCount) ⟨m, ram, reads ++ more⟩ with
        | (l, false) => (none, l.reads)
        | (l, true) =>
          match loadArgs sp env.stack argbuf argc l.mem l.ram with
          | none => (none, l.reads)
          | some (m, ram, stackPtr, argvVa) => (some ⟨m, ram, img.entry, stackPtr, argvVa⟩, l.reads)

end Zuzu.L4
