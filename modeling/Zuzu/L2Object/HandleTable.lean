import Mathlib.Tactic
import Zuzu.Core.Bits
import Zuzu.Core.LTS
import Zuzu.Types

/-!
# Handle tables (`kernel/space/handle.h`, `kernel/space/handle.c`)

A space's table has 1024 slots in 16 blocks of 64 entries that are allocated
the first time a slot in them is needed, and a bitmap with one bit per slot. A
handle value packs a slot index (10 bits) with the slot's generation, which
advances modulo 2^21 each time the slot is freed.

An entry pointer is modelled by its slot index: `HandleEntryIndex` recovers
exactly that, since blocks are separate allocations. `ok` arguments say
whether `KZAlloc` had memory for a block. The object's reference count, which
`HandleCopyInto` and `HandleRelease` also change, belongs to the object; here
an entry only names it.
-/
namespace Zuzu.L2.Handles
open Zuzu.Core

/-- mirrors kernel/space/handle.h:51-59 -/
inductive HandleType
  | free | port | mem | event | task | space
  deriving DecidableEq, Repr

/-- A handle as user space passes it: any 32-bit value. -/
abbrev Handle := BitVec 32

abbrev Perms := BitVec 32
abbrev Marker := BitVec 32

/-- mirrors include/types.h:98-107 -/
def permWait : Perms := 1#32
def permMap : Perms := 8#32
def permCntl : Perms := 16#32
def permWrite : Perms := 32#32
def permExec : Perms := 64#32
def permAll : Perms := 127#32

/-- mirrors kernel/space/handle.h:65-78. `obj` is the member of the union that
`type` selects. -/
structure Entry where
  type : HandleType
  perms : Perms
  mappedVa : Nat
  obj : Nat
  marker : Marker
  generation : Nat
  deriving DecidableEq, Repr

/-- A zeroed entry. -/
def Entry.zero : Entry := ⟨.free, 0, 0, 0, 0, 0⟩

/-- mirrors kernel/space/handle.h:81-85 -/
def blockSlots : Nat := 64
def maxSlots : Nat := 1024

/-- mirrors kernel/space/handle.h:42-44 (`HANDLE_GEN_MASK` as a modulus) -/
def genModulus : Nat := 2 ^ 21

/-- mirrors kernel/space/handle.h:33-35 -/
def handlePack (index gen : Nat) : Handle :=
  (BitVec.ofNat 32 gen <<< 10) ||| (BitVec.ofNat 32 index &&& 1023#32)

/-- mirrors kernel/space/handle.h:37 -/
def handleIndex (h : Handle) : Nat := (h &&& 1023#32).toNat

/-- mirrors kernel/space/handle.h:39 -/
def handleGen (h : Handle) : Nat := (h >>> 10).toNat

/-- mirrors kernel/space/handle.h:94-98 -/
structure HandleTable where
  blocks : Nat → Option (Nat → Entry)
  slotBitmap : Bitmap 32

/-- mirrors kernel/space/handle.h:105 -/
def handleTableInit : HandleTable := ⟨fun _ => none, fun _ => 0#32⟩

variable (t : HandleTable) (i : Nat) (ok : Bool)

/-- mirrors kernel/space/handle.h:128-136 -/
def handleTableGet : Option Entry :=
  if i ≥ maxSlots then none else (t.blocks (i / blockSlots)).map fun blk => blk (i % blockSlots)

/-- A write through an entry pointer. -/
def HandleTable.setEntry (e : Entry) : HandleTable :=
  { t with blocks := fun b => if b = i / blockSlots then
      (t.blocks b).map fun blk s => if s = i % blockSlots then e else blk s else t.blocks b }

/-- mirrors kernel/space/handle.h:145-151 -/
def handleBlockEnsure : HandleTable × Bool :=
  if (t.blocks (i / blockSlots)).isSome then (t, true)
  else if ok then
    ({ t with blocks := fun b => if b = i / blockSlots then some fun _ => Entry.zero
        else t.blocks b }, true)
  else (t, false)

/-- mirrors kernel/space/handle.h:159-165 -/
def handleTableFindFree : HandleTable × Option Nat :=
  match t.slotBitmap.findFirstZero maxSlots with
  | none => (t, none)
  | some slot =>
    let r := handleBlockEnsure t slot ok
    (r.1, if r.2 then some slot else none)

/-- mirrors kernel/space/handle.h:174-180: the slot a handle value resolves to. -/
def handleTableLookup (h : Handle) : Option Nat :=
  match handleTableGet t (handleIndex h) with
  | none => none
  | some e => if e.type = .free ∨ e.generation ≠ handleGen h then none else some (handleIndex h)

/-- mirrors kernel/space/handle.h:189-194 -/
def handleTableGetOrAlloc : HandleTable × Option Entry :=
  if i ≥ maxSlots then (t, none)
  else
    let r := handleBlockEnsure t i ok
    (r.1, if r.2 then handleTableGet r.1 i else none)

/-- mirrors kernel/space/handle.h:219-224 -/
def handleEntryClaim : HandleTable :=
  if i < maxSlots then { t with slotBitmap := t.slotBitmap.setBit i } else t

/-- mirrors kernel/space/handle.h:234-242 -/
def handleEntryFree : HandleTable :=
  match handleTableGet t i with
  | none => t
  | some e =>
    let t := { t with slotBitmap := t.slotBitmap.clearBit i }
    t.setEntry i { Entry.zero with generation := (e.generation + 1) % genModulus }

/-! ## Issuing, copying and releasing handles -/

/-- The steps that every branch of `SvcCreate` and `MNGMEM_DMAADOPT` take to
give the caller a handle: find a slot, claim it, fill it in (`fill` writes the
fields the branch sets), return the packed value.
mirrors kernel/svc/svc_create.c:48-57, 64-72, 79-88, 103-116, 147-157 and
kernel/svc/svc_managememory.c:116-129 -/
def issue (fill : Entry → Entry) : HandleTable × Option Handle :=
  match handleTableFindFree t ok with
  | (t, none) => (t, none)
  | (t, some i) =>
    match handleTableGet t i with
    | none => (t, none)
    | some e =>
      let t := (handleEntryClaim t i).setEntry i (fill e)
      (t, some (handlePack i (fill e).generation))

/-- The fields that a new entry for an object gets. -/
def fillNew (type : HandleType) (obj : Nat) (perms : Perms) (e : Entry) : Entry :=
  { e with type, obj, perms }

/-- The fields that `HandleCopyInto` writes. -/
def fillCopy (src : Entry) (perms : Perms) (marker : Marker) (e : Entry) : Entry :=
  { e with perms, type := src.type, marker, mappedVa := 0, obj := src.obj }

/-- mirrors kernel/space/handle.c:16-57 -/
def handleCopyInto (src : Entry) (perms : Perms) (marker : Marker) :
    HandleTable × Except Err Handle :=
  if src.type = .free then (t, .error .badType)
  else
    match handleTableFindFree t ok with
    | (t, none) => (t, .error .noMem)
    | (t, some i) =>
      match handleTableGet t i with
      | none => (t, .error .noEnt)
      | some e =>
        let t := (handleEntryClaim t i).setEntry i (fillCopy src perms marker e)
        (t, .ok (handlePack i e.generation))

/-- mirrors kernel/space/handle.c:80-109, the part that concerns the table -/
def handleRelease : HandleTable :=
  match handleTableGet t i with
  | none => t
  | some e => if e.type = .free then t else handleEntryFree t i

/-- One device object put into the root service's table before it runs.
mirrors kernel/loader/boot_programs.c:50-71 -/
def injectDeviceObject (mem : Option Nat) : HandleTable :=
  match handleTableGetOrAlloc t i ok, mem with
  | (t, some e), some m =>
    handleEntryClaim (t.setEntry i { fillNew .mem m permAll e with mappedVa := 0 }) i
  | (t, _), _ => t

/-- Device objects in the order of discovery, from slot `DEVICE_HANDLE_BASE` (16) on. -/
def injectDeviceObjects (t : HandleTable) (index : Nat) : List (Bool × Option Nat) → HandleTable
  | [] => t
  | d :: ds => injectDeviceObjects (injectDeviceObject t (16 + index) d.1 d.2) (index + 1) ds

end Zuzu.L2.Handles
