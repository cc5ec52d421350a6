import Zuzu.L3Kernel.Task

/-!
# Ports (`kernel/ipc/port.c`)

The end of a port: whoever queues at it, waits on it or is parked in it is turned away.
-/
namespace Zuzu.L3
open Zuzu.Core Zuzu.L2.Handles

variable (s : Sys) (t : TaskId) (p : PortId)

/-- mirrors kernel/ipc/port.c:62-64, one queued caller is turned away -/
def abortSender (err : Err) (s : Sys) (t : TaskId) : Sys :=
  taskAbortWait (s.setNode (s.node.remove t)) t err

/-- mirrors kernel/ipc/port.c:59-65 -/
def portShut : Sys :=
  let s := s.modPort p fun k => { k with alive := false }
  (s.node.list (.senders p)).foldl (abortSender .dead) s

/-- mirrors kernel/ipc/port.c:74-77 -/
def detachServer : Sys :=
  taskRecomputePriority (s.setServe (s.serve.remove t)) t

/-- The caller parked in a slot. -/
def heldCaller (slot : Nat) : Option TaskId :=
  (s.ports p).held.bind fun h => (h slot).caller

/-- mirrors kernel/ipc/port.c:82-87, one parked caller is turned away -/
def abortHeld (s : Sys) (slot : Nat) : Sys :=
  match heldCaller s p slot with
  | none => s
  | some c =>
    taskAbortWait ((clearHeld s p slot).modTask c fun k => { k with heldPort := none }) c .dead

/-- mirrors kernel/ipc/port.c:55-92 -/
def portKill (n : Nat) (s : Sys) (p : PortId) : Option Sys :=
  if ¬(s.ports p).alive then some s
  else
    let s := abortWaiters (portShut s p) (.receivers p) .dead
    let s := (s.serve.list p).foldl detachServer s
    let s := (List.range portHeldSlots).foldl (abortHeld p) s
    observerNotify n s (.port p)

/-- mirrors kernel/ipc/port.c:94-106 -/
def portUnref (n : Nat) (s : Sys) (p : PortId) : Option Sys :=
  let s := s.modPort p fun k => { k with refCount := k.refCount - 1 }
  if (s.ports p).refCount > 0 then some s
  else do
    let s ← portKill n s p
    let s ← observerClear n s (.port p)
    some (s.modPort p fun k => { k with held := none, freed := true })

/-- mirrors kernel/ipc/port.c:108 -/
def portHasPending : Bool := s.node.list (.senders p) ≠ []

end Zuzu.L3
