import Zuzu.L3Kernel.VmmUser

/-!
# The `Bind` system call (`kernel/svc/svc_bind.c`)

The argument registers are read from the caller's frame and the results written
back to it. `c` is `current_task` and `sp` its space.
-/
namespace Zuzu.L3
open Zuzu.Core Zuzu.L2.Handles

variable (env : Env) (k : K) (c : TaskId) (sp : SpaceId)

/-- Argument register `i` of the caller. -/
def K.arg (i : Nat) : Reg := (k.sys.tasks c).frame i

/-- `ArchSetInFrame(frame, i, v)` -/
def K.setReg (i : Nat) (v : Reg) : K := k.setSys (k.sys.setReg c i v)

/-- `ArchSetInFrame(frame, 0, err); return` -/
def K.ret (err : Err) : Option K := some (k.setReg c 0 (Err.reg err))

/-- mirrors kernel/svc/svc_bind.c:40-78: the set to bind into (a released task has none)
and whether its condition already holds -/
def bindLookupTarget (type : Nat) (h : Handle) (bit : Nat) : Except Err (Option ObsOwner × Bool) :=
  match lookupEntry k sp h with
  | none => .error .badHandle
  | some e =>
    let want := if type = 3 then HandleType.port else if type = 4 then .task else .space
    if e.type ≠ want then .error .badType
    else if e.perms &&& permWait = 0 then .error .noPerm
    else if bit ≥ 31 then .error .badArg
    else if type = 3 then
      if ¬(k.sys.ports e.obj).alive then .error .dead
      else .ok (some (.port e.obj), portHasPending k.sys e.obj)
    else if type = 4 then
      .ok (if (k.sys.tasks e.obj).released then none else some (.task e.obj),
        (k.sys.tasks e.obj).state = .zombie ∨ (k.sys.tasks e.obj).state = .faulted)
    else .ok (some (.space e.obj), (k.sys.spaces e.obj).liveTasks = 0)

/-- The observer is added and, if its condition already holds, signalled.
mirrors kernel/svc/svc_bind.c:126-130 and 149-152 -/
def bindObserver (target : Option ObsOwner) (ev : EventId)
    (bit : Nat) (isEvent ready : Bool) : Option K := do
  let r ← match target with
    | none => some (k.sys, Err.ok)
    | some o => observerAdd env.fuel k.sys o ev bit isEvent
  let s ← if r.2 = .ok ∧ ready then eventSignal env.fuel r.1 ev (1#32 <<< bit) false else some r.1
  (k.setSys s).ret c r.2

/-- mirrors kernel/svc/svc_bind.c:100-118 -/
def bindIrq (ev : EventId) (bit : Nat) : Option K :=
  match lookupEntry k sp (k.arg c 2) with
  | none => k.ret c .badHandle
  | some d =>
    if d.type ≠ .mem ∨ (k.mem.objs d.obj).kind ≠ .device then k.ret c .badType
    else if d.perms &&& permMap = 0 then k.ret c .noPerm
    else if ¬irqIsValid env.kernelIrq (k.mem.objs d.obj).irq ∨ bit ≥ 31 then k.ret c .badArg
    else (irqBindToEvent env.fuel k.sys sp (k.mem.objs d.obj).irq ev bit).bind fun r =>
      (k.setSys r.1).ret c r.2

/-- mirrors kernel/svc/svc_bind.c:132-153 -/
def bindEvent (ev : EventId) (bit : Nat) : Option K :=
  match lookupEntry k sp (k.arg c 2) with
  | none => k.ret c .badHandle
  | some e =>
    if e.type ≠ .event then k.ret c .badType
    else if e.perms &&& permWait = 0 then k.ret c .noPerm
    else if bit ≥ 31 then k.ret c .badArg
    else if ¬(k.sys.events e.obj).alive then k.ret c .dead
    else if e.obj = ev ∨ (k.sys.events e.obj).childCount ≠ 0 ∨ ¬observerEmpty k.sys (.event ev)
      then k.ret c .badArg
    else bindObserver env k c (some (.event e.obj)) ev bit true ((k.sys.events e.obj).word ≠ 0)

/-- mirrors kernel/svc/svc_bind.c:80-157 -/
def svcBind : Option K :=
  let type := (k.arg c 0).toNat
  let bit := (k.arg c 3).toNat
  match lookupEntry k sp (k.arg c 1) with
  | none => k.ret c .badHandle
  | some e =>
    if e.type ≠ .event then k.ret c .badType
    else if e.perms &&& permCntl = 0 then k.ret c .noPerm
    else if ¬(k.sys.events e.obj).alive then k.ret c .dead
    else
      match type with
      | 1 =>
        let r := pmmSubscribe k.sys e.obj env.slab
        (k.setSys r.1).ret c r.2
      | 2 => bindIrq env k c sp e.obj bit
      | 3 | 4 | 5 =>
        match bindLookupTarget k sp type (k.arg c 2) bit with
        | .error err => k.ret c err
        | .ok (target, ready) => bindObserver env k c target e.obj bit false ready
      | 6 => bindEvent env k c sp e.obj bit
      | _ => k.ret c .badArg

end Zuzu.L3
