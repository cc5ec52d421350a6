import Zuzu.L3Kernel.Mem
import Zuzu.L3Kernel.Port
import Zuzu.L3Kernel.Relay

/-!
# Handles and the objects they name

The functions of `kernel/space/handle.c` and `kernel/mm/mem_object.c` that work on
handle tables and on the objects the handles name. A null pointer dereference stops
the kernel and ends in `none`, like a bound on nested calls that is too small.
-/
namespace Zuzu.L3
open Zuzu.Core Zuzu.L2.Handles

/-- The kernel's state. -/
structure K where
  sys : Sys
  tables : SpaceId → HandleTable
  mem : Mem

@[simps] def K.setSys (k : K) (s : Sys) : K := { k with sys := s }

@[simps] def K.setTable (k : K) (sp : SpaceId) (t : HandleTable) : K :=
  { k with tables := Function.update k.tables sp t }

@[simps] def K.setMem (k : K) (m : Mem) : K := { k with mem := m }

/-- What comes from outside during one kernel entry, and the depth that nested event calls may
reach. -/
structure Env where
  fuel : Nat
  slab : Bool                -- memory for a kernel object
  pressure : Nat → Bool      -- the PMM passes its low-water mark (at the given point)
  kernelIrq : Nat → Bool     -- interrupt lines the kernel keeps

/-- Memory for everything, and nothing else to do. -/
def Env.calm : Env := ⟨8, true, fun _ => false, fun _ => false⟩

variable (env : Env) (k : K) (m : Mem) (sp : SpaceId) (a : AddressSpace)

/-- A change of memory, and the signal the PMM sends when it runs low. -/
def K.withMem (env : Env) (point : Nat) (m : Mem) : Option K :=
  if env.pressure point then
    (pmmSignalSubscribers env.fuel k.sys).map fun s => (k.setMem m).setSys s
  else some (k.setMem m)

/-! ## Handles -/

/-- mirrors kernel/space/handle.c:69-78 -/
def handleTableHoldsMem (t : HandleTable) (mem : MemId) (except : Nat) : Bool :=
  (List.range maxSlots).any fun i =>
    i ≠ except ∧ (handleTableGet t i).any fun e => e.type = .mem ∧ e.obj = mem

/-- The size `MemObjUnmapAndDrop` asks `VmmRemoveRegion` for. -/
def memObjBytes (o : MemId) : Nat :=
  if (m.objs o).kind = .device then (m.objs o).size else (m.objs o).pageCount * pageSize % wordSize

/-- mirrors kernel/mm/mem_object.c:116-123 -/
def memObjUnmapAndDrop (n : Nat) (m : Mem) (sp : SpaceId) (mappedVa : Nat) (o : MemId) :
    Option Mem := do
  let m ← if mappedVa ≠ 0 then (vmmRemoveRegion n m sp mappedVa (memObjBytes m o)).map Prod.fst
    else some m
  memObjUnref n m o

/-- The object loses the reference a handle held.
mirrors kernel/space/handle.c:82-107 -/
def objUnref (i : Nat) (e : Entry) : Option K :=
  match e.type with
  | .port => (portUnref env.fuel k.sys e.obj).map k.setSys
  | .event => (eventUnref env.fuel k.sys e.obj).map k.setSys
  | .mem => do
    let device := (k.mem.objs e.obj).kind = .device
    let irq := (k.mem.objs e.obj).irq
    let m ← memObjUnmapAndDrop env.fuel k.mem sp e.mappedVa e.obj
    let k ← k.withMem env i m
    if device ∧ ¬handleTableHoldsMem (k.tables sp) e.obj i then
      (irqRelease env.fuel k.sys sp irq).map k.setSys
    else some k
  | .task => (taskUnref env.fuel k.sys e.obj).map k.setSys
  | .space => (spaceUnref env.fuel k.sys e.obj).map k.setSys
  | .free => some k

/-- mirrors kernel/space/handle.c:80-109 -/
def K.handleRelease (env : Env) (sp : SpaceId) (i : Nat) : Option K :=
  match handleTableGet (k.tables sp) i with
  | none => some k
  | some e =>
    if e.type = .free then some k
    else (objUnref env k sp i e).map fun k => k.setTable sp (handleEntryFree (k.tables sp) i)

/-- The entry a handle value resolves to. -/
def lookupEntry (h : Handle) : Option Entry :=
  (handleTableLookup (k.tables sp) h).bind (handleTableGet (k.tables sp))

/-- An entry's slot is written. -/
def K.setEntry (i : Nat) (e : Entry) : K :=
  k.setTable sp ((k.tables sp).setEntry i e)

/-! ## Spaces -/

/-- mirrors kernel/space/space.c:231-233 -/
def spaceUnlist (s : Sys) (sp : SpaceId) : Sys :=
  let slot := ((s.spaces sp).spid.emod maxSpaces).toNat
  if s.spaceTable slot = some sp then
    { s with spaceTable := Function.update s.spaceTable slot none } else s

end Zuzu.L3
