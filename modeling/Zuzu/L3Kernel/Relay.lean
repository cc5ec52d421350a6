import Zuzu.L3Kernel.Event

/-!
# Signals from hardware (`kernel/irq/irq_relay.c`, `kernel/mm/pmm/pmm_pressure.c`)

Interrupt lines bound to events, and the events subscribed to memory pressure.
Masking and unmasking of lines is left out; which lines the kernel keeps for
itself (`ArchIrqIsOwnedByKernel`) is a parameter.
-/
namespace Zuzu.L3

/-- mirrors arch/include/arch/irq.h:20 -/
def maxIrqs : Nat := 256

/-- mirrors kernel/irq/irq_relay.c:41 -/
def irqIsValid (kernelIrq : Nat → Bool) (irq : Nat) : Bool := irq < maxIrqs ∧ ¬kernelIrq irq

@[simps] def Sys.modIrq (s : Sys) (irq : Nat) (f : IrqOwner → IrqOwner) : Sys :=
  { s with irqOwners := Function.update s.irqOwners irq (f (s.irqOwners irq)) }

/-- mirrors kernel/irq/irq_relay.c:24-39 -/
def relayIrqHandler (n : Nat) (s : Sys) (irq : Nat) : Option Sys :=
  let s := s.modIrq irq fun k => { k with pending := true }
  match (s.irqOwners irq).boundEv with
  | none => some s
  | some ev =>
    if (s.events ev).alive then
      (eventSignal n s ev (1#32 <<< (s.irqOwners irq).bit) false).map fun s =>
        s.modIrq irq fun k => { k with pending := false }
    else
      let s := s.modIrq irq fun k => { k with boundEv := none }
      eventUnref n (eventUnbindBit s ev (s.irqOwners irq).bit) ev

/-- The binding of a line is given up.
mirrors kernel/irq/irq_relay.c:57-61 and 81-85 -/
def irqDropEvent (n : Nat) (s : Sys) (irq : Nat) : Option Sys :=
  match (s.irqOwners irq).boundEv with
  | none => some s
  | some ev => eventUnref n (eventUnbindBit s ev (s.irqOwners irq).bit) ev

/-- mirrors kernel/irq/irq_relay.c:43-75 -/
def irqBindToEvent (n : Nat) (s : Sys) (owner : SpaceId) (irq : Nat) (ev : EventId) (bit : Nat) :
    Option (Sys × Err) :=
  if (s.irqOwners irq).owner.any fun o => o ≠ owner then some (s, .busy)
  else if ¬(s.events ev).alive then some (s, .dead)
  else do
    let s := if (s.irqOwners irq).owner = none then
      s.modIrq irq fun _ => ⟨none, some owner, false, bit⟩ else s
    let s ← irqDropEvent n s irq
    let s := s.modIrq irq fun k => { k with bit := bit, boundEv := some ev }
    let s := s.modEvent ev fun k => { k with refCount := k.refCount + 1 }
    let s := eventBindBit s ev bit
    if (s.irqOwners irq).pending then
      (eventSignal n s ev (1#32 <<< bit) false).map fun s =>
        (s.modIrq irq fun k => { k with pending := false }, .ok)
    else some (s, .ok)

/-- mirrors kernel/irq/irq_relay.c:77-88 -/
def irqRelease (n : Nat) (s : Sys) (owner : SpaceId) (irq : Nat) : Option Sys :=
  if irq ≥ maxIrqs ∨ (s.irqOwners irq).owner ≠ some owner then some s
  else (irqDropEvent n s irq).map fun s => s.modIrq irq fun _ => ⟨none, none, false, 0⟩

/-- mirrors kernel/mm/pmm/pmm_pressure.c:38-49 -/
def pmmSignalSubscribers (n : Nat) (s : Sys) : Option Sys :=
  s.subscribers.foldlM (fun s ev =>
    if (s.events ev).alive then eventSignal n s ev 1#32 false
    else eventUnref n { s with subscribers := s.subscribers.erase ev } ev) s

/-- mirrors kernel/mm/pmm/pmm_pressure.c:55-69 -/
def pmmSubscribe (s : Sys) (ev : EventId) (ok : Bool) : Sys × Err :=
  if ¬ok then (s, .noMem)
  else
    let s := eventBindBit s ev 0
    let s := { s with subscribers := s.subscribers ++ [ev] }
    (s.modEvent ev fun k => { k with refCount := k.refCount + 1 }, .ok)

end Zuzu.L3
