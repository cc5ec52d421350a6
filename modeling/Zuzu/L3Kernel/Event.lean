import Zuzu.L3Kernel.Sched

/-!
# Events and observers (`kernel/ipc/event.c`, `kernel/ipc/observer.c`)

Signalling an event signals the events that observe it, killing one notifies
and releases them, and releasing one may drop its last reference and kill it.
The functions call each other, so they take a bound on the depth of the calls;
`none` says that the bound was too small. The `assert` in `EventSignal` is not
relied on: release builds compile it out.
-/
namespace Zuzu.L3
open Zuzu.Core Zuzu.L2.Handles

/-- The object an `ObserverSet` is part of. -/
inductive ObsOwner
  | task (t : TaskId) | port (p : PortId) | event (e : EventId) | space (sp : SpaceId)
  deriving DecidableEq, Repr

variable (s : Sys) (e : EventId)

def Sys.observers : ObsOwner → ObserverSet
  | .task t => (s.tasks t).observers
  | .port p => (s.ports p).observers
  | .event e => (s.events e).observers
  | .space sp => (s.spaces sp).observers

/-- Write slot `i` of an observer set. -/
def Sys.setObserver (o : ObsOwner) (i : Nat) (v : Observer) : Sys :=
  match o with
  | .task t => s.modTask t fun k => { k with observers := Function.update k.observers i v }
  | .port p => s.modPort p fun k => { k with observers := Function.update k.observers i v }
  | .event e => s.modEvent e fun k => { k with observers := Function.update k.observers i v }
  | .space sp => s.modSpace sp fun k => { k with observers := Function.update k.observers i v }

/-- The slots an observer loop visits. -/
def observerSlots : List Nat := List.range maxObservers

/-- mirrors kernel/ipc/event.c:57-63 -/
def eventTake (word mask : EventWord) (all : Bool) : EventWord :=
  let hit := word &&& mask
  if all then if hit = mask then mask else 0#32 else hit

/-- What a waiter would take from the event's word now. -/
def Sys.wouldTake (w : TaskId) : EventWord :=
  eventTake (s.events e).word (s.tasks w).waitMask (s.tasks w).waitAll

/-- mirrors kernel/ipc/event.c:84-88, a satisfied waiter leaves the queue -/
def eventDeliver (w : TaskId) (got : EventWord) : Sys :=
  let s := s.setWait (s.wait.remove w)
  let s := (s.setReg w 0 (Err.reg .ok)).setReg w 1 got
  schedAdd (schedUnblock s w) w

/-- mirrors kernel/ipc/event.c:77-94: the queue walk, with the bits delivered so far -/
def eventWalk (e : EventId) (bcast : Bool) : List TaskId → EventWord → Sys → Sys × EventWord
  | [], delivered, s => (s, delivered)
  | w :: ws, delivered, s =>
    let got := s.wouldTake e w
    if got ≠ 0 then
      let s := eventDeliver s w got
      if bcast then eventWalk e bcast ws (delivered ||| got) s else (s, delivered ||| got)
    else eventWalk e bcast ws delivered s

/-- mirrors kernel/ipc/event.c:75-95, up to the notification of parents -/
def eventPost (bits : EventWord) (bcast : Bool) : Sys :=
  let s := s.modEvent e fun k => { k with word := k.word ||| bits }
  let r := eventWalk e bcast (s.wait.list (.event e)) 0#32 s
  r.1.modEvent e fun k => { k with word := k.word &&& ~~~r.2 }

/-- mirrors kernel/ipc/event.c:125-132 -/
def eventBindBit (bit : Nat) : Sys :=
  if bit ≥ 31 then s
  else s.modEvent e fun k => { k with
    boundRefs := if k.boundRefs bit < 65535
      then Function.update k.boundRefs bit (k.boundRefs bit + 1) else k.boundRefs
    boundMask := k.boundMask ||| 1#32 <<< bit }

/-- mirrors kernel/ipc/event.c:134-140 -/
def eventUnbindBit (bit : Nat) : Sys :=
  if bit ≥ 31 ∨ (s.events e).boundRefs bit = 0 then s
  else s.modEvent e fun k => { k with
    boundRefs := Function.update k.boundRefs bit (k.boundRefs bit - 1)
    boundMask := if k.boundRefs bit - 1 = 0 then k.boundMask &&& ~~~(1#32 <<< bit)
      else k.boundMask }

/-- mirrors kernel/ipc/event.c:117-118 -/
def eventDropRef : Sys :=
  s.modEvent e fun k => { k with refCount := k.refCount - 1 }

/-- mirrors kernel/ipc/observer.c:16-17 -/
def eventDropChild (fromEvent : Bool) : Sys :=
  if fromEvent then s.modEvent e fun k => { k with childCount := k.childCount - 1 } else s

/-- mirrors kernel/ipc/event.c:101-108 -/
def eventShut : Sys :=
  abortWaiters (s.modEvent e fun k => { k with alive := false }) (.event e) .dead

mutual

/-- mirrors kernel/ipc/event.c:72-97 -/
def eventSignal : Nat → Sys → EventId → EventWord → Bool → Option Sys
  | 0, _, _, _, _ => none
  | n + 1, s, e, bits, bcast =>
    let s := eventPost s e bits bcast
    if (s.events e).word ≠ 0 then observerNotify n s (.event e) else some s

/-- mirrors kernel/ipc/observer.c:70-81 -/
def observerNotify : Nat → Sys → ObsOwner → Option Sys
  | 0, _, _ => none
  | n + 1, s, o => observerSlots.foldlM (fun s i =>
    match (s.observers o i).ev with
    | none => some s
    | some ev =>
      if (s.events ev).alive then eventSignal n s ev (1#32 <<< (s.observers o i).bit) false
      else observerRelease n s o i) s

/-- mirrors kernel/ipc/observer.c:13-22 -/
def observerRelease : Nat → Sys → ObsOwner → Nat → Option Sys
  | 0, _, _, _ => none
  | n + 1, s, o, i =>
    match (s.observers o i).ev with
    | none => some s
    | some ev => do
      let s := eventUnbindBit s ev (s.observers o i).bit
      let s := eventDropChild s ev (s.observers o i).fromEvent
      let s ← eventUnref n s ev
      some (s.setObserver o i .none)

/-- mirrors kernel/ipc/observer.c:83-89 -/
def observerClear : Nat → Sys → ObsOwner → Option Sys
  | 0, _, _ => none
  | n + 1, s, o => observerSlots.foldlM (fun s i => observerRelease n s o i) s

/-- mirrors kernel/ipc/event.c:113-123 -/
def eventUnref : Nat → Sys → EventId → Option Sys
  | 0, _, _ => none
  | n + 1, s, e =>
    let s := eventDropRef s e
    if (s.events e).refCount > 0 then some s
    else do
      let s ← eventKill n s e
      some (s.modEvent e fun k => { k with freed := true })

/-- mirrors kernel/ipc/event.c:99-111 -/
def eventKill : Nat → Sys → EventId → Option Sys
  | 0, _, _ => none
  | n + 1, s, e =>
    if ¬(s.events e).alive then some s
    else do
      let s ← observerNotify n (eventShut s e) (.event e)
      observerClear n s (.event e)

end

/-- mirrors kernel/ipc/observer.c:61-68 -/
def observerEmpty (o : ObsOwner) : Bool :=
  observerSlots.all fun i =>
    match (s.observers o i).ev with
    | none => true
    | some ev => !(s.events ev).alive

/-- mirrors kernel/ipc/observer.c:30-59. The state is kept when no slot is free. -/
def observerAdd (n : Nat) (s : Sys) (o : ObsOwner) (ev : EventId) (bit : Nat) (isEvent : Bool) :
    Option (Sys × Err) :=
  match observerSlots.find? fun i => (s.observers o i).ev = some ev with
  | some i =>
    if (s.observers o i).bit ≠ bit then
      let s := eventBindBit (eventUnbindBit s ev (s.observers o i).bit) ev bit
      some (s.setObserver o i { s.observers o i with bit := bit % 256 }, .ok)
    else some (s, .ok)
  | none => do
    let s ← observerSlots.foldlM (fun s i =>
      match (s.observers o i).ev with
      | none => some s
      | some e => if (s.events e).alive then some s else observerRelease n s o i) s
    match observerSlots.find? fun i => (s.observers o i).ev = none with
    | none => some (s, .noMem)
    | some i =>
      let s := s.setObserver o i ⟨some ev, bit % 256, isEvent⟩
      let s := s.modEvent ev fun k => { k with
        refCount := k.refCount + 1
        childCount := if isEvent then (k.childCount + 1) % 256 else k.childCount }
      some (eventBindBit s ev bit, .ok)

/-- mirrors kernel/ipc/event.c:142-158, with the slab's answer in `ok` -/
def eventCreate (ownerSpid : Int) (ok : Bool) : Sys × Option EventId :=
  if ok then
    let e := s.newEvent
    let s := s.modEvent e fun _ =>
      ⟨0#32, ownerSpid, 1, true, 0#32, fun _ => 0, observerInit, 0, false⟩
    ({ s with newEvent := e + 1 }, some e)
  else (s, none)

end Zuzu.L3
