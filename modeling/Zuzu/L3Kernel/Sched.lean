import Zuzu.L3Kernel.State

/-!
# Run queues, wait queues and priority inheritance

The parts of `kernel/sched/sched.c` that link and unlink tasks, and the
priority inheritance of `kernel/task/task.c:384-466` that re-sorts them. Timer
programming (`SchedArmTimer`) and slice accounting are left out: they decide
when an interrupt comes, not what it does.
-/
namespace Zuzu.L3
open Zuzu.Core Zuzu.L2.Handles

variable (s : Sys) (q : WaitQ) (t : TaskId)

/-- `t->owner && t->owner->frozen` -/
def ownerFrozen : Bool :=
  match (s.tasks t).owner with
  | none => false
  | some sp => (s.spaces sp).frozen

/-- mirrors kernel/sched/sched.c:148-150, the run queue a task goes to -/
def runLevel (prio : Nat) : Nat := if prio ≥ schedPriorityLevels then schedPrioDefault else prio

/-- mirrors kernel/sched/sched.c:138-166 -/
def schedEnqueue (front : Bool) : Sys :=
  if ownerFrozen s t ∨ (s.tasks t).suspended ∨ (s.node.loc t).isSome then s
  else
    let level := runLevel (s.tasks t).priority
    let s := s.modTask t fun k => { k with queuedPrio := level }
    let s := s.setNode (if front then s.node.pushFront (.run level) t
      else s.node.pushBack (.run level) t)
    let s := s.setReady (s.readyMask ||| 1#32 <<< level)
    match s.current with
    | none => s
    | some c => if (s.tasks c).priority < (s.tasks t).priority then s.setResched true else s

/-- mirrors kernel/sched/sched.c:168 -/
def schedAdd : Sys := schedEnqueue s t false

/-- mirrors kernel/sched/sched.c:606-614 -/
def schedRemoveRunQueue : Sys :=
  match s.node.loc t with
  | none => s
  | some _ =>
    let level := (s.tasks t).queuedPrio
    let s := s.setNode (s.node.remove t)
    if s.node.list (.run level) = [] then s.setReady (s.readyMask &&& ~~~(1#32 <<< level)) else s

/-- mirrors kernel/sched/sched.c:254-266, for the task's own link -/
def schedRemoveSleepQueue : Sys :=
  s.modTask t fun k => { k with sleeping := false }

/-- mirrors kernel/sched/sched.c:554-563 -/
def schedUnblock : Sys :=
  (s.setWait (s.wait.remove t)).modTask t fun k =>
    { k with sleeping := false, ipcState := .none, blockedPort := none, state := .ready }

/-- The place in a wait queue: behind every task of at least the same priority. -/
def behindPrio : List TaskId → List TaskId :=
  Links.insertBehind (fun u => (s.tasks u).priority < (s.tasks t).priority) t

/-- mirrors kernel/sched/sched.c:671-679 -/
def schedWaitQueueAdd : Sys :=
  s.setWait (s.wait.place q t (behindPrio s t))

/-- mirrors kernel/sched/sched.c:681-688 -/
def schedWaitQueueAddTask (p : PortId) (t : TaskId) : Sys :=
  s.setNode (s.node.place (.senders p) t (behindPrio s t))

/-- mirrors kernel/sched/sched.c:417-427 -/
def schedAnyCpuTakers : Bool :=
  let prio := if (s.tasks t).priority ≥ schedPriorityLevels then schedPriorityLevels - 1
    else (s.tasks t).priority
  s.readyMask &&& ~~~((1#32 <<< prio) - 1#32) ≠ 0

/-- mirrors kernel/sched/sched.c:631 -/
def schedSetReschedFlag : Sys := s.setResched true

/-- mirrors kernel/sched/sched.c:645-669 -/
def schedSetEffective (prio : Nat) : Sys :=
  let onRun := (s.tasks t).state = .ready ∧ (s.node.loc t).isSome
  let onWait := s.wait.loc t
  let onSenders := if (s.tasks t).state = .blocked ∧ (s.node.loc t).isSome then
    (s.tasks t).blockedPort else none
  let s := if onRun then schedRemoveRunQueue s t else s
  let s := if onWait.isSome then s.setWait (s.wait.remove t) else s
  let s := if onSenders.isSome then s.setNode (s.node.remove t) else s
  let s := s.modTask t fun k => { k with priority := prio }
  let s := if onRun then schedAdd s t else s
  let s := match onWait with
    | some q => schedWaitQueueAdd s q t
    | none => s
  let s := match onSenders with
    | some p => schedWaitQueueAddTask s p t
    | none => s
  if s.current = some t ∧ schedAnyCpuTakers s t then schedSetReschedFlag s else s

/-! ## Priority inheritance -/

/-- The waiting caller whose reply object `rc` is. -/
def liveCaller (rc : TaskId) : Option TaskId :=
  match (s.tasks rc).replyCapStorage.callerTask with
  | none => none
  | some c =>
    if (s.tasks c).tid = (s.tasks rc).replyCapStorage.callerTid ∧
        (s.tasks c).state ≠ .zombie ∧ (s.tasks c).ipcState = .waiting then some c else none

/-- mirrors kernel/task/task.c:413-426 -/
def inheritedPrio : Nat :=
  let eff := (s.tasks t).basePrio
  let eff := match (s.tasks t).replyCap.bind (liveCaller s) with
    | some c => max eff (s.tasks c).priority
    | none => eff
  match s.serve.loc t with
  | none => eff
  | some p =>
    match s.node.list (.senders p) with
    | [] => eff
    | head :: _ => max eff (s.tasks head).priority

/-- mirrors kernel/task/task.c:395-439 (`RecomputePriorityAt`, with
`PortBoostServersAt` in place). The first argument counts down from
`PRIORITY_PROPAGATION_DEPTH`. -/
def recomputePriorityAt : Nat → Sys → TaskId → Sys
  | depth, s, t =>
    if inheritedPrio s t = (s.tasks t).priority then s
    else
      let s := schedSetEffective s t (inheritedPrio s t)
      match depth with
      | 0 => s
      | depth + 1 =>
        let s := match (s.tasks t).replyHolder with
          | some holder => recomputePriorityAt depth s holder
          | none => s
        if (s.tasks t).state = .blocked ∧ (s.node.loc t).isSome then
          match (s.tasks t).blockedPort with
          | some p => (s.serve.list p).foldl (recomputePriorityAt depth) s
          | none => s
        else s

/-- mirrors kernel/task/task.c:385 -/
def priorityPropagationDepth : Nat := 8

/-- mirrors kernel/task/task.c:441 -/
def taskRecomputePriority : Sys :=
  recomputePriorityAt priorityPropagationDepth s t

/-! ## Waking -/

/-- mirrors kernel/task/task.c:278-284 -/
def taskAbortWait (err : Err) : Sys :=
  let s := s.setReg t 0 (Err.reg err)
  let s := s.modTask t fun k => { k with pendingReplyCap := none }
  schedAdd (schedUnblock s t) t

/-- One round of the loops that empty a wait queue with `TaskAbortWait`. -/
def abortWaiter (err : Err) (s : Sys) (t : TaskId) : Sys :=
  taskAbortWait (s.setWait (s.wait.remove t)) t err

/-- `while (!ListIsEmpty(q)) TaskAbortWait(ListPopFront(q)->owner, err)`, as in
kernel/ipc/event.c:104-108, kernel/ipc/port.c:67-71 and kernel/space/space.c:204-208 -/
def abortWaiters (err : Err) : Sys :=
  (s.wait.list q).foldl (abortWaiter err) s

end Zuzu.L3
