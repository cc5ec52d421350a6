import Zuzu.L3Kernel.Kernel

/-!
# The state after boot

What `CreateRootService` (`kernel/loader/boot_programs.c:204-220`) leaves: the root service's
space with its only task, its image, and a handle for every device the boot loader found.
-/
namespace Zuzu.L3
open Zuzu.Core Zuzu.L2.Handles

/-- A device the boot loader finds: whether there is memory for its handle, and its
window and interrupt line if there is memory for its object. -/
structure BootDevice where
  room : Bool
  object : Option (Nat × Nat × Nat)

/-- mirrors kernel/loader/boot_programs.c:50-71, for the devices from `index` on -/
def injectDevices (m : Mem) (t : HandleTable) (index : Nat) :
    List BootDevice → Mem × HandleTable
  | [] => (m, t)
  | d :: ds =>
    match handleTableGetOrAlloc t (16 + index) d.room, d.object with
    | (t, some _), some (physBase, size, irq) =>
      let o := m.newObj
      let m := (memObjCreateDevice m physBase size irq true).1
      let m := m.modObj o fun x => { x with ownerSpid := 1 }
      injectDevices m (injectDeviceObject t (16 + index) d.room (some o)) (index + 1) ds
    | (t, _), _ => injectDevices m t (index + 1) ds

/-- What the boot loader made of the root service's image: its address space, whose
regions have no backing object, and the frames that went into it. -/
structure Boot where
  devices : List BootDevice
  as : AddressSpace
  frames : Nat → Bool
  unbacked : ∀ r ∈ as.regions, r.backing = none

/-- mirrors kernel/task/kernel_load.c:89-355 and kernel/loader/boot_programs.c:132: the
root service's only task, on its run queue -/
def bootTask : Task :=
  { Task.zero with tid := 1, owner := some 0, state := .ready, queuedPrio := schedPrioDefault }

/-- The root space. -/
def bootSpace : Space :=
  ⟨1, -1, some 0, schedPriorityLevels - 1, [0], false, 1, 0#32, false, observerInit, 0, false⟩

def bootSys : Sys where
  tasks := fun t => if t = 0 then bootTask else Task.zero
  ports := fun _ => Port.zero
  events := fun _ => Event.zero
  spaces := fun sp => if sp = 0 then bootSpace else Space.zero
  node := (Links.empty).pushBack (.run schedPrioDefault) 0
  wait := Links.empty
  serve := Links.empty
  readyMask := 2#32
  current := none
  doResched := false
  destroyQueue := []
  taskTable := fun i => if i = 1 then some 0 else none
  nextTid := 2
  spaceTable := fun i => if i = 1 then some 0 else none
  nextSpid := 2
  irqOwners := fun _ => ⟨none, none, false, 0⟩
  subscribers := []
  newTask := 1
  newPort := 0
  newEvent := 0
  newSpace := 1

def Boot.mem (b : Boot) : Mem :=
  ⟨fun _ => MemObj.zero, fun sp => if sp = 0 then some b.as else none, b.frames, 0⟩

def Boot.state (b : Boot) : K :=
  let r := injectDevices b.mem handleTableInit 0 b.devices
  ⟨bootSys, fun sp => if sp = 0 then r.2 else handleTableInit, r.1⟩

end Zuzu.L3
