import Zuzu.L3Kernel.State

/-!
# The sleep wheel (`kernel/sched/sched.c:242-355` and `479-530`)

Sleepers are bucketed by the slot of time their deadline falls in, modulo 512.
A deadline beyond the wheel goes into the last slot and is put back when time
gets there; a deadline in the past goes into the current slot. `wheel_occ` and
`wheel_min` cache which slots are occupied and their earliest deadline.

`queue` is `sleep_wheel` together with `sleep_slot`. A loop that pops a slot until it is
empty is a fold over the slot's tasks: what is put back goes to another slot
(`drain_spec` in `SleepWheelRuns`). Deadlines and times are 64-bit numbers;
where they can wrap, the remainders are written out. The timer is programmed at
the end of an insert too; as it has no effect on the wheel it is a function of
its own, `schedArmTimer`.
-/
namespace Zuzu.L3
open Zuzu.Core

/-- mirrors kernel/sched/sched.c:31 -/
def sleepQueueSize : Nat := 512

def uint64Size : Nat := 2 ^ 64
def uint64Max : Nat := 2 ^ 64 - 1

/-- mirrors kernel/sched/sched.c:60-67 -/
structure Wheel where
  queue : Links TaskId Nat
  occ : Bitmap 32
  min : Nat → Nat
  nowSlot : Nat
  deadline : TaskId → Nat

variable (now freq shift : Nat) (p : Wheel × List TaskId) (w : Wheel) (t : TaskId)

/-- `63 - clz(freq / 250)`
mirrors kernel/sched/sched.c:119 -/
def slotShift : Nat := Nat.log2 (freq / 250)

/-- mirrors kernel/sched/sched.c:480 -/
def minTimerSlack : Nat := freq / 500000

/-- mirrors kernel/sched/sched.c:242-252 -/
def wheelBucketMin (slot : Nat) : Nat :=
  (w.queue.list slot).foldl (fun m t => if w.deadline t < m then w.deadline t else m) uint64Max

/-- mirrors kernel/sched/sched.c:254-266 -/
def wheelRemove : Wheel :=
  match w.queue.loc t with
  | none => w
  | some slot =>
    let w := { w with queue := w.queue.remove t }
    if w.queue.list slot = [] then { w with occ := w.occ.clearBit slot }
    else if w.deadline t = w.min slot then
      { w with min := Function.update w.min slot (wheelBucketMin w slot) }
    else w

/-- The absolute slot a sleeper is put in.
mirrors kernel/sched/sched.c:270-275 -/
def insertSlot : Nat :=
  let abs := w.deadline t >>> shift
  let abs := if abs < w.nowSlot then w.nowSlot else abs
  if abs - w.nowSlot ≥ sleepQueueSize then w.nowSlot + sleepQueueSize - 1 else abs

/-- mirrors kernel/sched/sched.c:268-282 -/
def wheelInsert : Wheel :=
  let slot := insertSlot shift w t % sleepQueueSize
  { w with
    min := if w.queue.list slot = [] ∨ w.deadline t < w.min slot then
      Function.update w.min slot (w.deadline t) else w.min
    queue := w.queue.pushBack slot t
    occ := w.occ.setBit slot }

/-- A sleeper is unlinked and woken; `SchedUnblock` zeroes its deadline.
mirrors kernel/sched/sched.c:292-303 and 554-563 -/
def wheelWake : Wheel :=
  { w with queue := w.queue.remove t, deadline := Function.update w.deadline t 0 }

/-- One sleeper of a slot that time has passed, with those woken so far.
mirrors kernel/sched/sched.c:321-331 -/
def drainOne : Wheel × List TaskId :=
  if p.1.deadline t >>> shift > p.1.nowSlot then
    (wheelInsert shift { p.1 with queue := p.1.queue.remove t } t, p.2)
  else (wheelWake p.1 t, p.2 ++ [t])

/-- mirrors kernel/sched/sched.c:316-335, one round of the loop over the slots -/
def passSlot : Wheel × List TaskId :=
  let slot := p.1.nowSlot % sleepQueueSize
  let p := (p.1.queue.list slot).foldl (drainOne shift) p
  ({ p.1 with occ := p.1.occ.clearBit slot, nowSlot := p.1.nowSlot + 1 }, p.2)

/-- One sleeper of the slot that time has reached.
mirrors kernel/sched/sched.c:341-349 -/
def wakeDue : Wheel × List TaskId :=
  if p.1.deadline t ≤ now then (wheelWake p.1 t, p.2 ++ [t]) else p

/-- mirrors kernel/sched/sched.c:337-354 -/
def wakeCurrent : Wheel × List TaskId :=
  let cur := p.1.nowSlot % sleepQueueSize
  let p := (p.1.queue.list cur).foldl (wakeDue now) p
  if p.1.queue.list cur = [] then ({ p.1 with occ := p.1.occ.clearBit cur }, p.2)
  else ({ p.1 with min := Function.update p.1.min cur (wheelBucketMin p.1 cur) }, p.2)

/-- mirrors kernel/sched/sched.c:313-315: slots that more than a lap lies behind are skipped -/
def skipLaps (nowSlot : Nat) : Wheel :=
  if (nowSlot + uint64Size - w.nowSlot) % uint64Size > sleepQueueSize then
    { w with nowSlot := nowSlot - sleepQueueSize }
  else w

/-- mirrors kernel/sched/sched.c:311-355, with the tasks it wakes in order -/
def schedWakeSleepersAt (now : Nat) : Wheel × List TaskId :=
  let w := skipLaps w (now >>> shift)
  wakeCurrent now ((passSlot shift)^[now >>> shift - w.nowSlot] (w, []))

/-- mirrors kernel/sched/sched.c:487-498 -/
def wheelScanFromNow : Nat :=
  ((List.range sleepQueueSize).find? fun i =>
    w.occ.testBit ((w.nowSlot + i) % sleepQueueSize)).getD sleepQueueSize

/-- mirrors kernel/sched/sched.c:500-530. `slice` is the end of the running task's slice if
it counts; `none` turns the timer off. -/
def schedArmTimer (now : Nat) (slice : Option Nat) : Option Nat :=
  let k := wheelScanFromNow w
  let deadline := if k < sleepQueueSize then
      let slot := (w.nowSlot + k) % sleepQueueSize
      let slotEnd := (w.nowSlot + k + 1) <<< slotShift freq % uint64Size
      if w.min slot < slotEnd then w.min slot else slotEnd
    else uint64Max
  let deadline := match slice with
    | some d => if d < deadline then d else deadline
    | none => deadline
  let soon := (now + minTimerSlack freq) % uint64Size
  if deadline = uint64Max then none
  else if deadline ≤ soon then some soon
  else some deadline

/-! ## Runs -/

/-- The wheel and the time. -/
structure WheelState where
  wheel : Wheel
  now : Nat

inductive WheelOp
  | insert (t : TaskId) (deadline : Nat)
  | remove (t : TaskId)
  | pass (now : Nat)
  | wake (now : Nat)

/-- A sleeper enters with its new deadline, leaves, or time goes on, with or without a call of
`SchedWakeSleepers`. mirrors kernel/sched/sched.c:107-121 for the start -/
def wheelSystem : LTS WheelState WheelOp where
  init s := s.now < uint64Size ∧ s.wheel.queue = Links.empty ∧ s.wheel.occ = (fun _ => 0#32) ∧
    s.wheel.nowSlot = s.now >>> slotShift freq
  step s op s' :=
    match op with
    | .insert t d => s.wheel.queue.loc t = none ∧ d < uint64Size ∧ s' = { s with
        wheel := wheelInsert (slotShift freq)
          { s.wheel with deadline := Function.update s.wheel.deadline t d } t }
    | .remove t => s' = { s with wheel := wheelRemove s.wheel t }
    | .pass now => s.now ≤ now ∧ now < uint64Size ∧ s' = { s with now := now }
    | .wake now => s.now ≤ now ∧ now < uint64Size ∧
        s' = ⟨(schedWakeSleepersAt (slotShift freq) s.wheel now).1, now⟩

/-- Who sleeps, and until when. -/
def sleepers : Option Nat :=
  if w.queue.loc t = none then none else some (w.deadline t)

end Zuzu.L3
