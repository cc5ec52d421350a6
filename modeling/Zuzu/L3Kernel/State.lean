import Zuzu.Core.Links
import Zuzu.L2Object.HandleTable

/-!
# Kernel objects and scheduler state

Tasks, ports, events and spaces (`kernel/task/task.h`, `kernel/ipc/port.h`,
`kernel/ipc/event.h`, `kernel/space/space.h`) with the queues of the scheduler
(`kernel/sched/sched.c`). An object pointer is a serial number that is never
reused; `freed` says that the slab slot has been given back. A list head inside
an object is named by the object and the field, and `Links` holds what the
intrusive nodes say:

* `node` is `TaskObject::node`, on a run queue or on a port's sender queue;
* `wait` is `TaskObject::wait_slot`, on an event's, port's, task's or space's
  wait queue (`wait_slot.queue` is the list it is on);
* `serve` is `TaskObject::serve_node` on a port's active servers, together with
  `serving_port`, which is set and cleared in the same places.

A `ReplyObject *` always points at some task's `reply_cap_storage` and is the
number of that task. A trap frame is the four argument registers. Time is not
kept: which sleepers are due and whether a slice has ended come from outside.
Message bytes, kernel stacks, thread-local pages and FPU state are left out.
-/
namespace Zuzu.L3
open Zuzu.Core Zuzu.L2.Handles

abbrev TaskId := Nat
abbrev PortId := Nat
abbrev EventId := Nat
abbrev SpaceId := Nat
abbrev Reg := BitVec 32
abbrev EventWord := BitVec 32

/-- mirrors kernel/sched/sched.h:17-22 -/
def schedPriorityLevels : Nat := 8
def schedPrioDefault : Nat := 1

/-- mirrors kernel/ipc/port.h:30 -/
def portHeldSlots : Nat := 64

/-- mirrors kernel/ipc/observer_types.h:15 -/
def maxObservers : Nat := 4

/-- mirrors include/types.h (`EVENT_WAIT_ALL`) -/
def eventWaitAll : EventWord := 0x80000000#32

/-- mirrors kernel/task/task.h:31-38 -/
inductive TaskState
  | ready | running | blocked | zombie | frozen | faulted
  deriving DecidableEq, Repr

/-- mirrors kernel/task/task.h:43-46 -/
inductive IpcState
  | none | waiting
  deriving DecidableEq, Repr

/-- List heads that hold `TaskObject::node`. -/
inductive NodeQ
  | run (level : Nat) | senders (p : PortId)
  deriving DecidableEq, Repr

/-- List heads that hold a `WaitSlot`. -/
inductive WaitQ
  | receivers (p : PortId) | event (e : EventId) | joiners (t : TaskId) | hollow (sp : SpaceId)
  deriving DecidableEq, Repr

/-- mirrors kernel/ipc/observer_types.h:18-22 -/
structure Observer where
  ev : Option EventId
  bit : Nat
  fromEvent : Bool
  deriving DecidableEq, Repr

def Observer.none : Observer := ⟨Option.none, 0, false⟩

/-- mirrors kernel/ipc/observer_types.h:25-27 -/
abbrev ObserverSet := Nat → Observer

/-- mirrors kernel/ipc/observer.c:24-28 -/
def observerInit : ObserverSet := fun _ => .none

/-- mirrors kernel/ipc/port.h:58-61 -/
structure ReplyObject where
  callerTask : Option TaskId
  callerTid : Int
  deriving DecidableEq, Repr

/-- mirrors kernel/task/task.h:70-118 -/
structure Task where
  tid : Int
  owner : Option SpaceId
  frame : Nat → Reg
  state : TaskState
  ipcState : IpcState
  exitStatus : Reg
  faultReason : Reg
  sleeping : Bool            -- `sleep_slot >= 0`
  inSleep : Bool             -- inside `SvcSleep`, which still has to write r0
  blockedPort : Option PortId
  replyCapStorage : ReplyObject
  pendingGrantHandle : Handle
  pendingReplyCap : Option TaskId
  replyCap : Option TaskId
  replyHolder : Option TaskId
  msgXferLen : Reg
  portMarker : Marker
  priority : Nat
  basePrio : Nat
  maxPrio : Nat
  queuedPrio : Nat
  observers : ObserverSet
  refCount : Nat
  released : Bool
  freed : Bool
  suspended : Bool
  heldPort : Option PortId
  heldSlot : Nat
  servingHandle : Handle
  waitMask : EventWord
  waitAll : Bool

/-- mirrors kernel/ipc/port.h:35-39 -/
structure HeldCall where
  caller : Option TaskId
  callerTid : Int
  gen : Nat
  deriving DecidableEq, Repr

/-- mirrors kernel/ipc/port.h:44-53 -/
structure Port where
  ownerSpid : Int
  refCount : Nat
  alive : Bool
  observers : ObserverSet
  held : Option (Nat → HeldCall)
  freed : Bool

/-- mirrors kernel/ipc/event.h:31-41 -/
structure Event where
  word : EventWord
  ownerSpid : Int
  refCount : Nat
  alive : Bool
  boundMask : EventWord
  boundRefs : Nat → Nat
  observers : ObserverSet
  childCount : Nat
  freed : Bool

/-- mirrors kernel/space/space.h:24-43 -/
structure Space where
  spid : Int
  parentSpid : Int
  mainTask : Option TaskId
  maxPrio : Nat
  tasks : List TaskId
  frozen : Bool
  liveTasks : Nat
  lastExitStatus : Reg
  tornDown : Bool
  observers : ObserverSet
  refCount : Nat
  freed : Bool

/-- mirrors kernel/irq/irq_relay.h (`IrqOwner`) -/
structure IrqOwner where
  boundEv : Option EventId
  owner : Option SpaceId
  pending : Bool
  bit : Nat
  deriving DecidableEq, Repr

/-- A zeroed task, as `TaskCreate` starts from. -/
def Task.zero : Task where
  tid := 0
  owner := none
  frame := fun _ => 0#32
  state := .frozen
  ipcState := .none
  exitStatus := 0#32
  faultReason := 0#32
  sleeping := false
  inSleep := false
  blockedPort := none
  replyCapStorage := ⟨none, 0⟩
  pendingGrantHandle := 0#32
  pendingReplyCap := none
  replyCap := none
  replyHolder := none
  msgXferLen := 0#32
  portMarker := 0#32
  priority := schedPrioDefault
  basePrio := schedPrioDefault
  maxPrio := schedPriorityLevels - 1
  queuedPrio := 0
  observers := observerInit
  refCount := 0
  released := false
  freed := false
  suspended := false
  heldPort := none
  heldSlot := 0
  servingHandle := 0#32
  waitMask := 0#32
  waitAll := false

def Port.zero : Port := ⟨-1, 0, false, observerInit, none, true⟩

def Event.zero : Event := ⟨0#32, -1, 0, false, 0#32, fun _ => 0, observerInit, 0, true⟩

def Space.zero : Space :=
  ⟨0, -1, none, 0, [], false, 0, 0#32, true, observerInit, 0, true⟩

/-- Everything the scheduler, IPC and object code share. -/
structure Sys where
  tasks : TaskId → Task
  ports : PortId → Port
  events : EventId → Event
  spaces : SpaceId → Space
  node : Links TaskId NodeQ
  wait : Links TaskId WaitQ
  serve : Links TaskId PortId
  readyMask : Reg
  current : Option TaskId
  doResched : Bool
  destroyQueue : List TaskId
  taskTable : Int → Option TaskId
  nextTid : Int
  spaceTable : Nat → Option SpaceId
  nextSpid : Nat
  irqOwners : Nat → IrqOwner
  subscribers : List EventId
  newTask : TaskId
  newPort : PortId
  newEvent : EventId
  newSpace : SpaceId

/-- Nothing exists yet. -/
def Sys.empty : Sys where
  tasks := fun _ => Task.zero
  ports := fun _ => Port.zero
  events := fun _ => Event.zero
  spaces := fun _ => Space.zero
  node := Links.empty
  wait := Links.empty
  serve := Links.empty
  readyMask := 0#32
  current := none
  doResched := false
  destroyQueue := []
  taskTable := fun _ => none
  nextTid := 1
  spaceTable := fun _ => none
  nextSpid := 1
  irqOwners := fun _ => ⟨none, none, false, 0⟩
  subscribers := []
  newTask := 0
  newPort := 0
  newEvent := 0
  newSpace := 0

namespace Sys

variable (s : Sys)

@[simps] def modTask (t : TaskId) (f : Task → Task) : Sys :=
  { s with tasks := Function.update s.tasks t (f (s.tasks t)) }

@[simps] def modPort (p : PortId) (f : Port → Port) : Sys :=
  { s with ports := Function.update s.ports p (f (s.ports p)) }

@[simps] def modEvent (e : EventId) (f : Event → Event) : Sys :=
  { s with events := Function.update s.events e (f (s.events e)) }

@[simps] def modSpace (sp : SpaceId) (f : Space → Space) : Sys :=
  { s with spaces := Function.update s.spaces sp (f (s.spaces sp)) }

@[simps] def setNode (l : Links TaskId NodeQ) : Sys := { s with node := l }

@[simps] def setWait (l : Links TaskId WaitQ) : Sys := { s with wait := l }

@[simps] def setServe (l : Links TaskId PortId) : Sys := { s with serve := l }

@[simps] def setReady (m : Reg) : Sys := { s with readyMask := m }

@[simps] def setResched (b : Bool) : Sys := { s with doResched := b }

@[grind =] theorem modTask_apply (t u : TaskId) (f : Task → Task) :
    (s.modTask t f).tasks u = if u = t then f (s.tasks t) else s.tasks u :=
  Function.update_apply ..

@[grind =] theorem modEvent_apply (e d : EventId) (f : Event → Event) :
    (s.modEvent e f).events d = if d = e then f (s.events e) else s.events d :=
  Function.update_apply ..

/-- A change of one event relates every event to what becomes of it. -/
theorem modEvent_rel {R : Event → Event → Prop} (hr : ∀ k, R k k) {s : Sys} {e : EventId}
    {f : Event → Event} (h : R (s.events e) (f (s.events e))) (d : EventId) :
    R (s.events d) ((s.modEvent e f).events d) := by
  rw [modEvent_apply]
  split
  · rename_i hd; subst hd; exact h
  · exact hr _

/-- A part of events that a change leaves alone. -/
theorem modEvent_keeps {α : Type*} (g : Event → α) {s : Sys} {e : EventId} {f : Event → Event}
    (h : g (f (s.events e)) = g (s.events e)) (d : EventId) :
    g ((s.modEvent e f).events d) = g (s.events d) :=
  modEvent_rel (R := fun k k' => g k' = g k) (fun _ => rfl) h d

/-- A register write through a task's trap frame. -/
def setReg (t : TaskId) (i : Nat) (v : Reg) : Sys :=
  s.modTask t fun k => { k with frame := Function.update k.frame i v }

end Sys

/-- A status in a register. -/
def Err.reg (e : Err) : Reg := BitVec.ofInt 32 e.code

end Zuzu.L3
