import Zuzu.L3Kernel.Kernel

/-!
# Memory syscalls below the dispatcher (`kernel/mm/vmm/vmm_user.c`)

Mapping of memory objects, access to user memory from the kernel, and the
address space a new space starts with.
-/
namespace Zuzu.L3
open Zuzu.Core Zuzu.L2.Handles

/-! ## Access to user memory -/

/-- mirrors kernel/mm/vmm/vmm_user.c:243-262, the pages one after the other -/
def checkPages (sp : SpaceId) (write : Bool) (env : Alloc) : List Nat → Mem → Mem × Bool
  | [], m => (m, true)
  | page :: pages, m =>
    match m.as sp with
    | none => (m, false)
    | some a =>
      if (a.pages page).isSome then checkPages sp write env pages m
      else
        match vmmFindRegion a (page * pageSize) with
        | none => (m, false)
        | some r =>
          if r.guard ∨ r.prot &&& protRead = 0 ∨ (write ∧ r.prot &&& protWrite = 0) then (m, false)
          else
            match vmmPageFaultHandle m sp r (page * pageSize) env with
            | (m, true) => checkPages sp write env pages m
            | (m, false) => (m, false)

variable (m : Mem) (sp : SpaceId)

/-- mirrors kernel/mm/vmm/vmm_user.c:227-265 -/
def vmmCheckUserFault (va len : Nat) (write : Bool) (env : Alloc) : Mem × Bool :=
  if len = 0 then (m, true)
  else if va > wordSize - 1 - len then (m, false)
  else if va ≥ userVaTop ∨ va + len > userVaTop then (m, false)
  else
    let first := va / pageSize
    let last := alignUp (va + len) pageSize / pageSize
    checkPages sp write env ((List.range (last - first)).map (first + ·)) m

/-- mirrors kernel/svc/svc.c:23-71 and kernel/svc/svc.h:64-73: whether the kernel may
read (or write) user memory, with the pages that are faulted in on the way -/
def copyUser (va len : Nat) (write : Bool) (env : Alloc) : Mem × Bool :=
  if len = 0 then (m, true)
  else if (m.as sp).isNone ∨ va = 0 then (m, false)
  else if va + len ≥ wordSize ∨ va ≥ userVaTop ∨ va + len > userVaTop then (m, false)
  else vmmCheckUserFault m sp va len write env

/-! ## Mapping -/

/-- mirrors kernel/mm/vmm/vmm_user.c:61-65 -/
def handleProtLimit (perms : Perms) : MemProt :=
  protRead ||| (if perms &&& permWrite ≠ 0 then protWrite else 0#32) |||
    (if perms &&& permExec ≠ 0 then protExec else 0#32)

/-- mirrors kernel/mm/vmm/vmm_user.c:84-94 and 111-121: the address an object is mapped at -/
def mapBase (hint size lo hi : Nat) : Except Err Nat :=
  if hint = 0 then
    match (m.as sp).map fun a => vmmFindFreeVa a lo hi size with
    | none | some 0 => .error .noMem
    | some va => .ok va
  else if hint % pageSize ≠ 0 then .error .badArg
  else if ¬(lo ≤ hint ∧ hint < hi ∧ size ≤ hi - hint) then .error .badArg
  else .ok hint

/-- mirrors kernel/mm/vmm/vmm_user.c:80-107 -/
def mapShared (o : MemId) (prot limit : MemProt) (hint : Nat)
    (env : Alloc) : Mem × Except Err Nat :=
  let size := (m.objs o).pageCount * pageSize % wordSize
  let uncached := (m.objs o).flags &&& memUncached ≠ 0
  if uncached ∧ prot &&& protExec ≠ 0 then (m, .error .noPerm)
  else
    match mapBase m sp hint size userMmapBase userDeviceBase with
    | .error err => (m, .error err)
    | .ok va =>
      match vmmAddRegion m sp ⟨va, size, prot ||| vmProtUser, limit,
        if uncached then .normalNc else .normal, .shared, false, false, some o, 0⟩ env.region with
      | (m, true) => (m, .ok va)
      | (m, false) => (m, .error .noMem)

/-- mirrors kernel/mm/vmm/vmm_user.c:108-144 -/
def mapDevice (o : MemId) (prot limit : MemProt) (hint : Nat)
    (env : Alloc) : Mem × Except Err Nat :=
  let size := alignUp (m.objs o).size pageSize
  match mapBase m sp hint size userDeviceBase userDeviceLimit with
  | .error err => (m, .error err)
  | .ok va =>
    match m.as sp with
    | none => (m, .error .noMem)
    | some a =>
      match vmmMapRange a va (m.objs o).physBase size (prot ||| vmProtUser) true env.table with
      | (a, false) => (m.setAs sp (some a), .error .noMem)
      | (a, true) =>
        match vmmAddRegion (m.setAs sp (some a)) sp ⟨va, size, prot ||| vmProtUser, limit, .device,
          .none, false, false, some o, 0⟩ env.region with
        | (m, true) => (m, .ok va)
        | (m, false) => (m.setAs sp (some (vmmUnmapRange a va size)), .error .noMem)

/-- mirrors kernel/mm/vmm/vmm_user.c:67-153, for the entry in slot `i` -/
def vmmMapMemObj (k : K) (sp : SpaceId) (i : Nat) (e : Entry) (prot : MemProt) (hint : Nat)
    (env : Alloc) : K × Except Err Nat :=
  let limit := handleProtLimit e.perms
  if prot &&& ~~~limit ≠ 0 then (k, .error .noPerm)
  else if e.mappedVa ≠ 0 then (k, .error .busy)
  else
    let r := match (k.mem.objs e.obj).kind with
      | .shared => mapShared k.mem sp e.obj prot limit hint env
      | .device => mapDevice k.mem sp e.obj prot limit hint env
      | .none => (k.mem, .error .badType)
    match r.2 with
    | .error err => (k.setMem r.1, .error err)
    | .ok va => ((k.setMem r.1).setEntry sp i { e with mappedVa := va }, .ok va)

/-! ## A new space -/

/-- mirrors kernel/space/space.c:85-141, the regions every space starts with: the system
page, the thread-local window at `tcbVa`, the stack and its guard page -/
def initialRegions (tcbVa : Nat) : List Region :=
  [⟨userSyspageVa, pageSize, protRead ||| vmProtUser, protRead, .normal, .shared, true, true,
      none, 0⟩,
    ⟨tcbVa, maxTcbPages * pageSize, protRead ||| protWrite ||| vmProtUser, protRead ||| protWrite,
      .normal, .anon, true, false, none, 0⟩,
    ⟨userStackGuardVa, pageSize, 0#32, 0#32, .normal, .none, false, true, none, 0⟩,
    ⟨userStackBase, userStackTop - userStackBase, protRead ||| protWrite ||| vmProtUser,
      protRead ||| protWrite, .normal, .anon, false, false, none, 0⟩]

/-- mirrors kernel/space/space.c:78-141 on success: the system page and the first
thread-local page are mapped, with second-level tables from `table` -/
def initialAs (syspagePa tcbPa : Nat) (table : Nat → Option Nat) : AddressSpace :=
  { regions := initialRegions userMmapBase
    pages := fun page =>
      if page = userSyspageVa / pageSize then some ⟨syspagePa, false⟩
      else if page = userMmapBase / pageSize then some ⟨tcbPa, false⟩ else none
    tables := fun j =>
      if j = userSyspageVa / sectionSize ∨ j = userMmapBase / sectionSize then table j else none }

/-- Memory of a new space: a frame for the first thread-local page, or nothing. -/
def createAs (syspagePa : Nat) (env : Alloc) : Mem × Bool :=
  if ¬(env.slab ∧ env.region ∧ (env.table (userSyspageVa / sectionSize)).isSome ∧
      (env.table (userMmapBase / sectionSize)).isSome) then (m, false)
  else
    match pmmAllocFrame m (env.frame 0) with
    | (m, 0) => (m, false)
    | (m, pa) => (m.setAs sp (some (initialAs syspagePa pa env.table)), true)

/-- A pool with a table for every first-level entry. -/
def poolTables (j : Nat) : Option Nat := some (0x40100000 + j * 1024)

end Zuzu.L3
