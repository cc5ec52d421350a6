import Zuzu.L3Kernel.Event

/-!
# Task lifetime (`kernel/task/task.c`)

Creation and reaping of tasks, and the object side of spaces
(`kernel/space/space.c`).
-/
namespace Zuzu.L3
open Zuzu.Core Zuzu.L2.Handles

/-- `x - 1` in 32 bits -/
def dec32 (x : Nat) : Nat := (x + (wordSize - 1)) % wordSize

/-! ## Ending a wait -/

variable (s : Sys) (c : TaskId) (sp : SpaceId) (t : TaskId)

/-- mirrors kernel/task/task.c:267-276 -/
def taskUnlinkWaits : Sys :=
  let s := schedRemoveRunQueue s t
  let s := schedRemoveSleepQueue s t
  s.setWait (s.wait.remove t)

/-- `port->held[slot].caller = NULL` -/
def clearHeld (p : PortId) (slot : Nat) : Sys :=
  s.modPort p fun k => { k with
    held := k.held.map fun h => Function.update h slot { h slot with caller := none } }

/-! ## Spaces as objects -/

/-- mirrors kernel/space/space.h:19 -/
def maxSpaces : Nat := 512

/-- mirrors kernel/space/space.c:238-246 -/
def spaceFinalize (n : Nat) (s : Sys) (sp : SpaceId) : Option Sys :=
  if ¬(s.spaces sp).tornDown ∨ (s.spaces sp).tasks ≠ [] ∨ (s.spaces sp).refCount ≠ 0 then some s
  else (observerClear n s (.space sp)).map fun s => s.modSpace sp fun k => { k with freed := true }

/-- mirrors kernel/space/space.c:270-277 -/
def spaceUnref (n : Nat) (s : Sys) (sp : SpaceId) : Option Sys :=
  spaceFinalize n (s.modSpace sp fun k => { k with refCount := k.refCount - 1 }) sp

/-- mirrors kernel/space/space.c:173-180 -/
def spaceFindBySpid (spid : Int) : Option SpaceId :=
  match s.spaceTable (spid.emod maxSpaces).toNat with
  | none => none
  | some sp => if (s.spaces sp).spid = spid then some sp else none

/-- mirrors kernel/space/space.c:30-35 -/
def spidAdvance (next : Nat) : Nat :=
  let next := (next + 1) % wordSize
  if next = 0 ∨ next > 2 ^ 31 - 1 then 1 else next

/-- mirrors kernel/space/space.c:45-52: where the scan for a free slot stops. One
lap can skip slot 0 at the wrap, so it takes at most two laps to return to the start. -/
def spidScan (table : Nat → Option SpaceId) (start : Nat) : Nat → Nat → Nat
  | 0, next => next
  | fuel + 1, next =>
    if table (next % maxSpaces) = none then next
    else if spidAdvance next % maxSpaces = start then spidAdvance next
    else spidScan table start fuel (spidAdvance next)

/-- mirrors kernel/space/space.c:43-61 -/
def spidAlloc : Sys × Option Int :=
  let next := spidScan s.spaceTable (s.nextSpid % maxSpaces) (2 * maxSpaces) s.nextSpid
  if s.spaceTable (next % maxSpaces) ≠ none then ({ s with nextSpid := next }, none)
  else
    ({ s with
        nextSpid := spidAdvance next
        spaceTable := Function.update s.spaceTable (next % maxSpaces) (some sp) }, some next)

/-- The object part of kernel/space/space.c:63-171; `ok` says whether the slab and
the address space could be had. -/
def spaceCreate (parent : Option SpaceId) (ok : Bool) : Sys × Option SpaceId :=
  if ¬ok then (s, none)
  else
    let sp := s.newSpace
    let parentSpid := match parent with
      | none => -1
      | some parent => (s.spaces parent).spid
    match spidAlloc s sp with
    | (s, none) => (s, none)
    | (s, some spid) =>
      let s := s.modSpace sp fun _ =>
        ⟨spid, parentSpid, none, 0, [], false, 0, 0#32, false, observerInit, 0, false⟩
      ({ s with newSpace := sp + 1 }, some sp)

/-! ## Creation and destruction of tasks -/

/-- mirrors kernel/task/task.c:19 -/
def maxTasks : Nat := 1024

/-- `next_tid++` -/
def tidAdvance (tid : Int) : Int := if tid = 2 ^ 31 - 1 then -2 ^ 31 else tid + 1

/-- mirrors kernel/task/task.c:45-51 -/
def registerScan (table : Int → Option TaskId) (start : Int) : Nat → Int → Int × Bool
  | 0, next => (next, false)
  | fuel + 1, next =>
    if table (next.tmod maxTasks) = none then (next, true)
    else if (tidAdvance next).tmod maxTasks = start then (tidAdvance next, false)
    else registerScan table start fuel (tidAdvance next)

/-- mirrors kernel/task/task.c:38-60: the new task's identifier, 0 if the table is full -/
def registerTask : Sys × Int :=
  match registerScan s.taskTable (s.nextTid.tmod maxTasks) maxTasks s.nextTid with
  | (next, false) => ({ s with nextTid := next }, 0)
  | (next, true) =>
    ({ s with
        nextTid := tidAdvance next
        taskTable := Function.update s.taskTable (next.tmod maxTasks) (some t) }, next)

/-- mirrors kernel/task/task.c:67-75 -/
def taskObjectUnregister : Sys :=
  let slot := (s.tasks t).tid.emod maxTasks
  if (s.tasks t).tid ≠ 0 ∧ s.taskTable slot = some t then
    { s with taskTable := Function.update s.taskTable slot none }
  else s

/-- mirrors kernel/task/task.c:140-152: the owner forgets a task -/
def spaceDropTask : Sys :=
  match (s.tasks t).owner with
  | none => s
  | some sp => s.modSpace sp fun k => { k with
      tasks := k.tasks.erase t
      liveTasks := if (s.tasks t).state ≠ .zombie then dec32 k.liveTasks else k.liveTasks
      mainTask := if k.mainTask = some t then none else k.mainTask }

/-- mirrors kernel/task/task.c:156-157 -/
def spaceReap (n : Nat) (s : Sys) (owner : Option SpaceId) : Option Sys :=
  match owner with
  | none => some s
  | some sp =>
    if (s.spaces sp).tornDown ∧ (s.spaces sp).tasks = [] then spaceFinalize n s sp else some s

/-- mirrors kernel/task/task.c:132-164 -/
def taskDestroy (n : Nat) (s : Sys) (t : TaskId) : Option Sys :=
  if (s.tasks t).released then some s
  else do
    let owner := (s.tasks t).owner
    let s := taskObjectUnregister (taskUnlinkWaits s t) t
    let s ← spaceReap n (spaceDropTask s t) owner
    let s ← observerClear n s (.task t)
    some (s.modTask t fun k => { k with
      released := true
      owner := none
      freed := if k.refCount = 0 then true else k.freed })

/-- mirrors kernel/task/task.c:118-130 -/
def taskUnref (n : Nat) (s : Sys) (t : TaskId) : Option Sys :=
  let s := s.modTask t fun k => { k with refCount := k.refCount - 1 }
  if (s.tasks t).refCount = 0 ∧ (s.tasks t).released then
    some (s.modTask t fun k => { k with freed := true })
  else if (s.tasks t).refCount = 0 ∧ (s.tasks t).state = .frozen then taskDestroy n s t
  else some s

/-- mirrors kernel/task/task.c:180-265. `slabOk` covers the object and its kernel
stack, `tcbOk` the thread-local slot and its page. -/
def taskCreate (owner : SpaceId) (slabOk tcbOk : Bool) : Sys × Option TaskId :=
  if ¬slabOk then (s, none)
  else
    let t := s.newTask
    match registerTask s t with
    | (s, tid) =>
      if tid = 0 then (s, none)
      else
        let s := s.modTask t fun _ => { Task.zero with tid, owner := some owner }
        if ¬tcbOk then
          ({ taskObjectUnregister s t with newTask := t + 1 }.modTask t fun k =>
            { k with owner := none, released := true, freed := true }, none)
        else
          let s := s.modSpace owner fun k => { k with
            tasks := k.tasks ++ [t]
            liveTasks := (k.liveTasks + 1) % wordSize
            mainTask := if k.mainTask = none then some t else k.mainTask }
          ({ s with newTask := t + 1 }, some t)

end Zuzu.L3
