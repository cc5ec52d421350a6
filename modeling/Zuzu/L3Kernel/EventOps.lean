import Zuzu.L3Kernel.Bindings
import Zuzu.L3Kernel.Svc

/-!
# The operations on events

Events are created, bound, signalled, killed and unreferenced in any order
(`eventSystem`), while the rest of the kernel does anything that concerns no
binding. Whatever an operation does, bindings only fade in it (`Fades`), except
that at one point at most one binding is added: to a free observer slot, to a
slot that changes its bit, to an interrupt line or to the list of subscribers.
`Effect` is that list of cases, and the invariants of events are proved from it.

**Results.** `eventSystem_effect`: a step is one of the cases of `Effect`.
`Fades.shrinks`: what fades only loses bindings, counts and life. `svcBind_run`: the
`Bind` system call is a run of the system.
-/
namespace Zuzu.L3
open Function Zuzu.Core Zuzu.L2.Handles

variable {s s' s'' : Sys} {X : List Site} {o : ObsOwner} {i : Nat} {e : EventId}
variable {bit irq : Nat} {ev : EventId} {k k' : K} {c : TaskId} {sp : SpaceId} {env : Env}
variable {err : Err} {b ready : Bool} {u : Sys}

/-! ## What an operation on events does to bindings -/

/-- Bindings may go and events may die, and nothing else happens to them. -/
def Fades (s s' : Sys) : Prop := ∀ I, Books I → I [] s → I [] s'

/-- As `Fades`, with the binding of one line off the books. -/
def FadesTo (X : List Site) (s s' : Sys) : Prop := ∀ I, Books I → I [] s → I X s'

theorem Fades.refl (s : Sys) : Fades s s := fun _ _ h => h

theorem Fades.trans (h : Fades s s') (h' : Fades s' s'') : Fades s s'' :=
  fun I hI hs => h' I hI (h I hI hs)

theorem SameBindings.fades (h : SameBindings s s') : Fades s s' := fun _ hI hs => hI.same hs h

section
variable {n : Nat}

theorem eventSignal_fades {bits : EventWord} {bcast : Bool}
    (h : eventSignal n s e bits bcast = some s') : Fades s s' := fun _ hI hs =>
  ((hI.calls n).signal hs (Books.parked_nil s) (fun _ => List.not_mem_nil) h).1

theorem observerNotify_fades (h : observerNotify n s o = some s') : Fades s s' := fun _ hI hs =>
  ((hI.calls n).notify hs (Books.parked_nil s) (fun _ => List.not_mem_nil) h).1

theorem observerClear_fades (ho : ¬s.Live o) (h : observerClear n s o = some s') : Fades s s' :=
  fun _ hI hs =>
  ((hI.calls n).clear hs (Books.parked_nil s) ho (fun _ => List.not_mem_nil) h).1

theorem eventUnref_fades (h : eventUnref n s e = some s') : Fades s s' := fun _ hI hs =>
  ((hI.calls n).unref hs (fun _ => Books.parked_nil s) h).1

theorem eventKill_fades (h : eventKill n s e = some s') : Fades s s' := fun _ hI hs =>
  ((hI.calls n).kill hs (fun _ => Books.parked_nil s) h).1

/-- A slot whose event is dead is released. -/
theorem observerRelease_fades (hd : ∀ e, (s.observers o i).ev = some e → ¬(s.events e).alive)
    (h : observerRelease n s o i = some s') : Fades s s' := fun _ hI hs =>
  ((hI.calls n).release hs List.not_mem_nil (fun e he ha => absurd ha (hd e he)) h).1

theorem irqRelease_fades {owner : SpaceId} (h : irqRelease n s owner irq = some s') :
    Fades s s' := fun _ hI hs => hI.irqRelease hs h

/-- A loop whose rounds only let bindings go. -/
theorem fades_foldlM {α : Type*} {f : Sys → α → Option Sys}
    (hf : ∀ {s a s'}, f s a = some s' → Fades s s') {l : List α} (h : l.foldlM f s = some s') :
    Fades s s' :=
  LTS.foldlM_preserves (I := fun u => Fades s u) (fun hu hr => hu.trans (hf hr)) h (.refl s)

theorem pmmSignalSubscribers_fades (h : pmmSignalSubscribers n s = some s') : Fades s s' := by
  refine fades_foldlM (fun {u ev u'} hr => ?_) h
  split at hr
  · exact eventSignal_fades hr
  · rename_i hal
    refine Fades.trans (fun I hI hu => ?_) (eventUnref_fades hr)
    exact hI.unsubscribe hu hal

/-- Only the flag of a line that waits for its event changes. -/
theorem pending_bindings (s : Sys) (irq : Nat) (b : Bool) :
    SameBindings s (s.modIrq irq fun k => { k with pending := b }) := by
  refine { SameBindings.refl s with lines := fun j => ?_ }
  rw [Sys.modIrq_irqOwners, update_apply]
  split
  · rename_i h; subst h; exact ⟨rfl, rfl, rfl⟩
  · exact ⟨rfl, rfl, rfl⟩

theorem eventUnbindBit_modIrq (s : Sys) (irq : Nat) (f : IrqOwner → IrqOwner) (e : EventId)
    (bit : Nat) :
    eventUnbindBit (s.modIrq irq f) e bit = (eventUnbindBit s e bit).modIrq irq f := by
  unfold eventUnbindBit
  simp only [Sys.modIrq_events]
  split <;> rfl

theorem relayIrqHandler_fades (h : relayIrqHandler n s irq = some s') :
    Fades s s' := by
  have hp := (pending_bindings s irq true).fades
  unfold relayIrqHandler at h
  dsimp only at h
  generalize (s.modIrq irq fun k => { k with pending := true }) = u at h hp
  cases hev : (u.irqOwners irq).boundEv with
  | none => rw [hev] at h; exact Option.some.inj h ▸ hp
  | some ev =>
    rw [hev] at h
    dsimp only at h
    split at h
    · obtain ⟨v, hv, rfl⟩ := Option.map_eq_some_iff.mp h
      exact (hp.trans (eventSignal_fades hv)).trans (pending_bindings v irq false).fades
    · refine (hp.trans fun I hI hu => ?_).trans (eventUnref_fades h)
      rw [eventUnbindBit_modIrq]
      have hb : ((u.modIrq irq fun k => { k with boundEv := none }).irqOwners irq).bit =
          (u.irqOwners irq).bit := by simp
      rw [hb]
      exact hI.reset (hI.unline hu List.not_mem_nil hev) List.not_mem_nil rfl

/-! Bindings are added in four ways. -/

/-- Slot `i` of `o`, which is free, is bound to bit `bit` of `ev`: kernel/ipc/observer.c:48-55. -/
def watch (s : Sys) (o : ObsOwner) (i : Nat) (ev : EventId) (bit : Nat) (isEvent : Bool) : Sys :=
  eventBindBit ((s.setObserver o i ⟨some ev, bit % 256, isEvent⟩).modEvent ev fun k => { k with
    refCount := k.refCount + 1
    childCount := if isEvent then (k.childCount + 1) % 256 else k.childCount }) ev bit

/-- Slot `i` of `o`, which is bound to `ev`, moves to another bit: kernel/ipc/observer.c:34-38. -/
def rewatch (s : Sys) (o : ObsOwner) (i : Nat) (ev : EventId) (bit : Nat) : Sys :=
  let s := eventBindBit (eventUnbindBit s ev (s.observers o i).bit) ev bit
  s.setObserver o i { s.observers o i with bit := bit % 256 }

/-- A line whose binding has been taken back is bound to `ev`: kernel/irq/irq_relay.c:63-66. -/
def bindLine (s : Sys) (irq : Nat) (ev : EventId) (bit : Nat) : Sys :=
  eventBindBit ((s.modIrq irq fun k => { k with bit := bit, boundEv := some ev }).modEvent ev
    fun k => { k with refCount := k.refCount + 1 }) ev bit

/-- An event joins the subscribers: kernel/mm/pmm/pmm_pressure.c:62-66. -/
def enlist (s : Sys) (ev : EventId) : Sys :=
  { eventBindBit s ev 0 with subscribers := (eventBindBit s ev 0).subscribers ++ [ev] }

theorem pmmSubscribe_fades (s : Sys) (ev : EventId) :
    Fades (enlist s ev) (pmmSubscribe s ev true).1 :=
  (SameBindings.modEvent (s := enlist s ev) ev (f := fun k => { k with refCount := k.refCount + 1 })
    (fun _ => ⟨rfl, rfl, rfl, rfl⟩) fun _ => rfl).fades

/-- What `ObserverAdd` does to bindings. -/
theorem observerAdd_cases {isEvent : Bool}
    (h : observerAdd n s o ev bit isEvent = some (s', err)) :
    Fades s s' ∨
    (∃ i, (s.observers o i).ev = some ev ∧ (s.observers o i).bit ≠ bit ∧
      s' = rewatch s o i ev bit) ∨
    ∃ u i, Fades s u ∧ i < maxObservers ∧ (u.observers o i).ev = none ∧
      s' = watch u o i ev bit isEvent := by
  unfold observerAdd at h
  split at h
  · rename_i i hi
    split at h
    · rename_i hne
      obtain ⟨rfl, -⟩ := Prod.mk.inj (Option.some.inj h)
      have hi := List.find?_some hi
      exact Or.inr (Or.inl ⟨i, by simpa using hi, hne, rfl⟩)
    · obtain ⟨rfl, -⟩ := Prod.mk.inj (Option.some.inj h)
      exact Or.inl (.refl s)
  · obtain ⟨u, hu, h⟩ := Option.bind_eq_some_iff.mp h
    have hf : Fades s u := by
      refine fades_foldlM (fun {v i v'} hr => ?_) hu
      cases hev : (v.observers o i).ev with
      | none => rw [hev] at hr; exact Option.some.inj hr ▸ .refl v
      | some d =>
        rw [hev] at hr
        dsimp only at hr
        split at hr
        · exact Option.some.inj hr ▸ .refl v
        · exact observerRelease_fades (fun e he => by grind) hr
    split at h
    · obtain ⟨rfl, -⟩ := Prod.mk.inj (Option.some.inj h)
      exact Or.inl hf
    · rename_i i hi
      obtain ⟨rfl, -⟩ := Prod.mk.inj (Option.some.inj h)
      have hm := List.mem_range.mp (List.mem_of_find?_eq_some hi)
      have hi := List.find?_some hi
      exact Or.inr (Or.inr ⟨u, i, hf, hm, by simpa using hi, rfl⟩)

/-- Events come and go without the lines changing hands. -/
theorem owner_ledger (irq : Nat) (v : Option SpaceId) :
    Ledger fun _ s => (s.irqOwners irq).owner = v where
  same h hs := (hs.lines irq).2.2.trans h
  shut _ h := h
  unbind {X s o i e} h _ _ := by
    rw [(release_counted s e (s.observers o i).bit (s.observers o i).fromEvent).lines]
    exact h
  clear {X s o i} h _ := by rw [(setObserver_rest s o i .none).1]; exact h

theorem irqDropEvent_owner (h : irqDropEvent n s irq = some s') :
    (s'.irqOwners irq).owner = (s.irqOwners irq).owner := by
  unfold irqDropEvent at h
  split at h
  · exact Option.some.inj h ▸ rfl
  · rename_i ev hev
    refine (((owner_ledger irq _).calls n).unref (X := []) ?_ (fun _ => Books.parked_nil _) h).1
    rw [(eventUnbindBit_counted s ev _).lines]

/-- What `IrqBindToEvent` does to bindings; a line without an owner has no binding. -/
theorem irqBindToEvent_cases {owner : SpaceId}
    (hown : (s.irqOwners irq).owner = none → (s.irqOwners irq).boundEv = none)
    (h : irqBindToEvent n s owner irq ev bit = some (s', err)) :
    s' = s ∨ (s.events ev).alive ∧ ∃ u, FadesTo [.line irq] s u ∧
      (u.irqOwners irq).owner ≠ none ∧ Fades (bindLine u irq ev bit) s' := by
  unfold irqBindToEvent at h
  split at h
  · exact Or.inl (Prod.mk.inj (Option.some.inj h)).1.symm
  split at h
  · exact Or.inl (Prod.mk.inj (Option.some.inj h)).1.symm
  rename_i hal
  refine Or.inr ⟨not_not.mp hal, ?_⟩
  have hf : Fades s (if (s.irqOwners irq).owner = none then
      s.modIrq irq fun _ => ⟨none, some owner, false, bit⟩ else s) := by
    split
    · rename_i ho
      exact fun I hI hs => hI.reset (hI.idle hs (hown ho)) List.not_mem_nil rfl
    · exact .refl s
  have ho : ((if (s.irqOwners irq).owner = none then
      s.modIrq irq fun _ => ⟨none, some owner, false, bit⟩ else s).irqOwners irq).owner ≠ none := by
    split
    · simp
    · assumption
  obtain ⟨u, hu, h⟩ := Option.bind_eq_some_iff.mp h
  refine ⟨u, fun I hI hs => (hI.irqDropEvent (hf I hI hs) hu).1, ?_, ?_⟩
  · rw [irqDropEvent_owner hu]
    exact ho
  change (if ((bindLine u irq ev bit).irqOwners irq).pending then _ else _) = _ at h
  split at h
  · obtain ⟨v, hv, hv'⟩ := Option.map_eq_some_iff.mp h
    obtain ⟨rfl, -⟩ := Prod.mk.inj hv'
    exact (eventSignal_fades hv).trans (pending_bindings v irq false).fades
  · obtain ⟨rfl, -⟩ := Prod.mk.inj (Option.some.inj h)
    exact .refl _

/-! ## The operations on events -/

/-- The operations that bind, signal and end events. -/
inductive EventOp
  | create (spid : Int)
  | unref (e : EventId)
  | kill (e : EventId)
  | signal (e : EventId) (bits : EventWord) (bcast : Bool)
  | bind (o : ObsOwner) (ev : EventId) (bit : Nat) (ready : Bool)
  | bindEvent (ev child : EventId) (bit : Nat)
  | notify (o : ObsOwner)
  | clear (o : ObsOwner)
  | bindIrq (owner : SpaceId) (irq : Nat) (ev : EventId) (bit : Nat)
  | releaseIrq (owner : SpaceId) (irq : Nat)
  | irq (irq : Nat)
  | subscribe (ev : EventId) (ok : Bool)
  | pressure
  | other
  deriving DecidableEq

/-- An object other than an event. -/
def ObsOwner.inert : ObsOwner → Bool
  | .event _ => false
  | _ => true

/-- Bind a slot and signal at once if the condition already holds.
mirrors kernel/svc/svc_bind.c:126-130 and 149-152 -/
def observe (n : Nat) (s : Sys) (o : ObsOwner) (ev : EventId) (bit : Nat) (isEvent ready : Bool) :
    Option Sys := do
  let r ← observerAdd n s o ev bit isEvent
  if r.2 = .ok ∧ ready then eventSignal n r.1 ev (1#32 <<< bit) false else some r.1

/-- The checks of an EVENT_EVENT bind: kernel/svc/svc_bind.c:141-147. -/
def bindEventOk (s : Sys) (ev child : EventId) (bit : Nat) : Bool :=
  (s.events ev).alive ∧ bit < 31 ∧ (s.events child).alive ∧ child ≠ ev ∧
    (s.events child).childCount = 0 ∧ observerEmpty s (.event ev)

/-- One operation; a refused one leaves the state as it is. -/
def eventOp (n : Nat) (s : Sys) : EventOp → Option Sys
  | .create spid => some (eventCreate s spid true).1
  | .unref e => eventUnref n s e
  | .kill e => eventKill n s e
  | .signal e bits bcast => eventSignal n s e bits bcast
  | .bind o ev bit ready =>
    if (s.events ev).alive ∧ bit < 31 ∧ o.inert then observe n s o ev bit false ready else some s
  | .bindEvent ev child bit =>
    if bindEventOk s ev child bit then
      observe n s (.event child) ev bit true ((s.events child).word ≠ 0) else some s
  | .notify o => if o.inert then observerNotify n s o else some s
  | .clear o => if o.inert then observerClear n s o else some s
  | .bindIrq owner irq ev bit =>
    if bit < 31 then (irqBindToEvent n s owner irq ev bit).map Prod.fst else some s
  | .releaseIrq owner irq => irqRelease n s owner irq
  | .irq irq => relayIrqHandler n s irq
  | .subscribe ev ok => if (s.events ev).alive then some (pmmSubscribe s ev ok).1 else some s
  | .pressure => pmmSignalSubscribers n s
  | .other => some s

/-- No event exists and nothing is bound. -/
structure Unbound (s : Sys) : Prop where
  observers : ∀ o i, (s.observers o i).ev = none
  lines : ∀ irq, (s.irqOwners irq).boundEv = none
  subscribers : s.subscribers = []
  dead : ∀ e, ¬(s.events e).alive

/-- Events and their bindings; between two operations the rest of the kernel may do anything
that concerns no binding. -/
def eventSystem : LTS Sys EventOp where
  init := Unbound
  step s op s' := (∃ n, eventOp n s op = some s') ∨ op = .other ∧ SameBindings s s'

/-- The object, event and bit of an operation that binds an observer slot. -/
inductive Binder (s : Sys) : EventOp → ObsOwner → EventId → Nat → Bool → Prop
  | object {o : ObsOwner} {ev : EventId} {bit : Nat} {ready : Bool} : o.inert →
      (s.events ev).alive → bit < 31 → Binder s (.bind o ev bit ready) o ev bit false
  | event {ev child : EventId} {bit : Nat} : bindEventOk s ev child bit →
      Binder s (.bindEvent ev child bit) (.event child) ev bit true

/-- Everything an operation can do to bindings. -/
inductive Effect (s : Sys) : EventOp → Sys → Prop
  | fades {op : EventOp} {s' : Sys} : Fades s s' → Effect s op s'
  | create {spid : Int} : Effect s (.create spid) (eventCreate s spid true).1
  | rewatch {op : EventOp} {o : ObsOwner} {ev : EventId} {bit i : Nat} {b : Bool} {s' : Sys} :
      Binder s op o ev bit b → (s.observers o i).ev = some ev → (s.observers o i).bit ≠ bit →
      Fades (rewatch s o i ev bit) s' → Effect s op s'
  | watch {op : EventOp} {o : ObsOwner} {ev : EventId} {bit i : Nat} {b : Bool} {u s' : Sys} :
      Binder s op o ev bit b → Fades s u → i < maxObservers → (u.observers o i).ev = none →
      Fades (watch u o i ev bit b) s' → Effect s op s'
  | line {owner : SpaceId} {irq : Nat} {ev : EventId} {bit : Nat} {u s' : Sys} :
      (s.events ev).alive → bit < 31 → FadesTo [.line irq] s u →
      (u.irqOwners irq).owner ≠ none → Fades (bindLine u irq ev bit) s' →
      Effect s (.bindIrq owner irq ev bit) s'
  | subscribe {ev : EventId} {s' : Sys} : (s.events ev).alive → Fades (enlist s ev) s' →
      Effect s (.subscribe ev true) s'

theorem observe_effect {op : EventOp}
    (hb : Binder s op o ev bit b) (h : observe n s o ev bit b ready = some s') :
    Effect s op s' := by
  obtain ⟨⟨u, err⟩, hu, h⟩ := Option.bind_eq_some_iff.mp h
  have hf : Fades u s' := by
    split at h
    · exact eventSignal_fades h
    · exact Option.some.inj h ▸ .refl u
  rcases observerAdd_cases hu with hfa | ⟨i, hi, hne, rfl⟩ | ⟨v, i, hv, hlt, hi, rfl⟩
  · exact .fades (hfa.trans hf)
  · exact .rewatch hb hi hne hf
  · exact .watch hb hv hlt hi hf

/-- Lines are bound only for the space that owns them. -/
def LinesOwned (s : Sys) : Prop :=
  ∀ irq, (s.irqOwners irq).owner = none → (s.irqOwners irq).boundEv = none

theorem not_live_of_inert (h : o.inert) : ¬s.Live o := by
  cases o with
  | event e => simp [ObsOwner.inert] at h
  | _ => exact id

/-- An operation that its check refuses changes nothing. -/
theorem Effect.checked {op : EventOp} {p : Prop} [Decidable p] {x : Option Sys}
    (h : (if p then x else some s) = some s') (hx : p → x = some s' → Effect s op s') :
    Effect s op s' := by
  split at h
  · exact hx ‹_› h
  · exact Option.some.inj h ▸ .fades (.refl s)

/-- Everything a step of the event system can do. -/
theorem eventSystem_effect {op : EventOp} (hown : LinesOwned s) (h : eventSystem.step s op s') :
    Effect s op s' := by
  rcases h with ⟨n, h⟩ | ⟨rfl, h⟩
  swap
  · exact .fades h.fades
  cases op with
  | create spid => exact Option.some.inj h ▸ .create
  | unref e => exact .fades (eventUnref_fades h)
  | kill e => exact .fades (eventKill_fades h)
  | signal e bits bcast => exact .fades (eventSignal_fades h)
  | bind o ev bit ready =>
    exact .checked h fun hc h => observe_effect (.object hc.2.2 hc.1 hc.2.1) h
  | bindEvent ev child bit => exact .checked h fun hc h => observe_effect (.event hc) h
  | notify o => exact .checked h fun _ h => .fades (observerNotify_fades h)
  | clear o =>
    exact .checked h fun hc h => .fades (observerClear_fades (not_live_of_inert hc) h)
  | bindIrq owner irq ev bit =>
    refine .checked h fun hbit h => ?_
    obtain ⟨⟨u, err⟩, hu, rfl⟩ := Option.map_eq_some_iff.mp h
    rcases irqBindToEvent_cases (hown irq) hu with rfl | ⟨hal, v, hv, ho, hf⟩
    · exact .fades (.refl _)
    · exact .line hal hbit hv ho hf
  | releaseIrq owner irq => exact .fades (irqRelease_fades h)
  | irq irq => exact .fades (relayIrqHandler_fades h)
  | subscribe ev ok =>
    refine .checked h fun hal h => ?_
    cases ok with
    | true => exact Option.some.inj h ▸ .subscribe hal (pmmSubscribe_fades s ev)
    | false => exact Option.some.inj h ▸ .fades (.refl s)
  | pressure => exact .fades (pmmSignalSubscribers_fades h)
  | other => exact Option.some.inj h ▸ .fades (.refl s)

theorem eventCreate_events (s : Sys) (spid : Int) (d : EventId) :
    (eventCreate s spid true).1.events d = if d = s.newEvent then
      ⟨0#32, spid, 1, true, 0#32, fun _ => 0, observerInit, 0, false⟩ else s.events d :=
  Sys.modEvent_apply s s.newEvent d
    fun _ => ⟨0#32, spid, 1, true, 0#32, fun _ => 0, observerInit, 0, false⟩

theorem eventCreate_observers (s : Sys) (spid : Int) (o : ObsOwner) (i : Nat) :
    (eventCreate s spid true).1.observers o i =
      if o = .event s.newEvent then .none else s.observers o i := by
  cases o with
  | event c =>
    rw [Sys.observers, eventCreate_events]
    by_cases hc : c = s.newEvent
    · simp [hc, observerInit]
    · simp [hc, Sys.observers]
  | _ => rfl

/-! What the four additions leave alone. -/

theorem watch_counted (s : Sys) (o : ObsOwner) (i : Nat) (ev : EventId) (bit : Nat) (b : Bool) :
    Counted (s.setObserver o i ⟨some ev, bit % 256, b⟩) (watch s o i ev bit b) ev :=
  (Counted.modEvent rfl rfl).trans (eventBindBit_counted _ ev bit)

theorem rewatch_counted (s : Sys) (o : ObsOwner) (i : Nat) (ev : EventId) (bit : Nat) :
    Counted s (eventBindBit (eventUnbindBit s ev (s.observers o i).bit) ev bit) ev :=
  (eventUnbindBit_counted s ev _).trans (eventBindBit_counted _ ev bit)

theorem bindLine_counted (s : Sys) (irq : Nat) (ev : EventId) (bit : Nat) :
    Counted (s.modIrq irq fun k => { k with bit := bit, boundEv := some ev })
      (bindLine s irq ev bit) ev :=
  (Counted.modEvent rfl rfl).trans (eventBindBit_counted _ ev bit)

theorem watch_observers (s : Sys) (o : ObsOwner) (i : Nat) (ev : EventId) (bit : Nat)
    (b : Bool) (p : ObsOwner) (j : Nat) :
    (watch s o i ev bit b).observers p j =
      if p = o ∧ j = i then ⟨some ev, bit % 256, b⟩ else s.observers p j := by
  rw [(watch_counted s o i ev bit b).observers, setObserver_apply]

theorem watch_rest (s : Sys) (o : ObsOwner) (i : Nat) (ev : EventId) (bit : Nat) (b : Bool) :
    (∀ d, ((watch s o i ev bit b).events d).alive = (s.events d).alive) ∧
      (watch s o i ev bit b).irqOwners = s.irqOwners ∧
      (watch s o i ev bit b).subscribers = s.subscribers ∧
      (watch s o i ev bit b).newEvent = s.newEvent := by
  have hc := watch_counted s o i ev bit b
  obtain ⟨h1, h2, h3⟩ := setObserver_rest s o i ⟨some ev, bit % 256, b⟩
  exact ⟨fun d => (hc.alive d).trans (setObserver_counts s o i _ d).alive, hc.lines.trans h1,
    hc.subscribers.trans h2, hc.new.trans h3⟩

theorem rewatch_eq (s : Sys) (o : ObsOwner) (i : Nat) (ev : EventId) (bit : Nat) :
    rewatch s o i ev bit = (eventBindBit (eventUnbindBit s ev (s.observers o i).bit) ev
      bit).setObserver o i { s.observers o i with bit := bit % 256 } := by
  unfold rewatch
  dsimp only
  rw [(rewatch_counted s o i ev bit).observers]

/-- Only bound lines have an owner to lose: the invariant of `LinesOwned`. -/
theorem linesOwned_books : Books fun X s => ∀ irq, .line irq ∉ X →
    (s.irqOwners irq).owner = none → (s.irqOwners irq).boundEv = none where
  same h hs irq hx ho := by
    obtain ⟨h1, -, h3⟩ := hs.lines irq
    rw [h1]
    exact h irq hx (h3 ▸ ho)
  shut _ h := h
  unbind {X s o i e} h _ _ irq hx := by
    rw [(release_counted s e (s.observers o i).bit (s.observers o i).fromEvent).lines]
    exact h irq fun hm => hx (List.mem_cons_of_mem _ hm)
  clear {X s o i} h hx irq hm := by
    rw [(setObserver_rest s o i .none).1]
    exact h irq (by simp [hm])
  unline {X s irq e} h hx _ j hj := by
    rw [(eventUnbindBit_counted s e _).lines]
    exact h j fun hm => hj (List.mem_cons_of_mem _ hm)
  idle h _ j hj := h j fun hm => hj (List.mem_cons_of_mem _ hm)
  reset {X s irq k} h hx hk j hj := by
    rw [Sys.modIrq_irqOwners, update_apply]
    split
    · exact fun _ => hk
    · rename_i hne
      exact h j (by simp [hj, hne])
  unsubscribe h _ := h

theorem Fades.linesOwned (h : Fades s s') (hs : LinesOwned s) : LinesOwned s' :=
  fun irq => h _ linesOwned_books (fun j _ => hs j) irq List.not_mem_nil

/-- Every operation keeps the lines owned. -/
theorem Effect.linesOwned {op : EventOp} (h : Effect s op s') (hs : LinesOwned s) :
    LinesOwned s' := by
  cases h with
  | fades hf => exact hf.linesOwned hs
  | create => exact hs
  | rewatch hb hi hne hf =>
    refine hf.linesOwned ?_
    rw [LinesOwned, rewatch_eq, (setObserver_rest _ _ _ _).1, (rewatch_counted ..).lines]
    exact hs
  | watch hb hu hlt hi hf =>
    refine hf.linesOwned ?_
    rw [LinesOwned, (watch_counted ..).lines, (setObserver_rest _ _ _ _).1]
    exact hu.linesOwned hs
  | @line owner irq ev bit u s' hal hbit hu ho hf =>
    refine hf.linesOwned fun j => ?_
    rw [(bindLine_counted ..).lines, Sys.modIrq_irqOwners, update_apply]
    split
    · exact fun h => absurd h ho
    · rename_i hne
      exact hu _ linesOwned_books (fun j _ => hs j) j (by simp [hne])
  | @subscribe ev s' hal hf =>
    refine hf.linesOwned ?_
    change ∀ irq, ((eventBindBit s ev 0).irqOwners irq).owner = none →
      ((eventBindBit s ev 0).irqOwners irq).boundEv = none
    rw [(eventBindBit_counted s ev 0).lines]
    exact hs

/-! ## What fading cannot do -/

/-- Slots are kept or cleared, events are kept or die, counts do not grow. -/
structure Shrinks (s u : Sys) : Prop where
  slot : ∀ o i e, (u.observers o i).ev = some e → u.observers o i = s.observers o i
  dies : Dies s u
  child : ∀ e, (u.events e).childCount ≤ (s.events e).childCount
  refs : ∀ e b, (u.events e).boundRefs b ≤ (s.events e).boundRefs b
  line : ∀ irq e, (u.irqOwners irq).boundEv = some e → (s.irqOwners irq).boundEv = some e
  sub : ∀ e ∈ u.subscribers, e ∈ s.subscribers
  new : u.newEvent = s.newEvent

theorem Shrinks.refl (s : Sys) : Shrinks s s :=
  ⟨fun _ _ _ _ => rfl, .refl s, fun _ => le_rfl, fun _ _ => le_rfl, fun _ _ => id, fun _ => id,
    rfl⟩

theorem eventUnbindBit_le (s : Sys) (e d : EventId) (bit : Nat) :
    ((eventUnbindBit s e bit).events d).childCount = (s.events d).childCount ∧
      ∀ b, ((eventUnbindBit s e bit).events d).boundRefs b ≤ (s.events d).boundRefs b := by
  unfold eventUnbindBit
  split
  · exact ⟨rfl, fun _ => le_rfl⟩
  · rw [Sys.modEvent_apply]
    split
    · rename_i h
      subst h
      refine ⟨rfl, fun b => ?_⟩
      dsimp only
      rw [update_apply]
      split
      · rename_i h; subst h; omega
      · exact le_rfl
    · exact ⟨rfl, fun _ => le_rfl⟩

theorem eventDropChild_le (s : Sys) (e d : EventId) (b : Bool) :
    ((eventDropChild s e b).events d).childCount ≤ (s.events d).childCount ∧
      ((eventDropChild s e b).events d).boundRefs = (s.events d).boundRefs := by
  unfold eventDropChild
  split
  · exact Sys.modEvent_rel
      (R := fun k k' => k'.childCount ≤ k.childCount ∧ k'.boundRefs = k.boundRefs)
      (fun _ => ⟨le_rfl, rfl⟩) ⟨Nat.sub_le _ _, rfl⟩ d
  · exact ⟨le_rfl, rfl⟩

/-- Counting a binding out. -/
theorem Shrinks.counted {v : Sys} (h : Shrinks s u) (hc : Counted u v e)
    (hchild : ∀ d, (v.events d).childCount ≤ (u.events d).childCount)
    (hrefs : ∀ d b, (v.events d).boundRefs b ≤ (u.events d).boundRefs b) : Shrinks s v where
  slot o i d hd := by rw [hc.observers] at hd ⊢; exact h.slot o i d hd
  dies := h.dies.trans hc.dies
  child d := (hchild d).trans (h.child d)
  refs d b := (hrefs d b).trans (h.refs d b)
  line irq d hd := h.line irq d (hc.lines ▸ hd)
  sub d hd := h.sub d (hc.subscribers ▸ hd)
  new := hc.new.trans h.new

theorem shrinks_books (s : Sys) : Books fun _ u => Shrinks s u where
  same {X u v} h hs :=
    { slot := fun o i d hd => by rw [hs.observers] at hd ⊢; exact h.slot o i d hd
      dies := h.dies.trans hs.dies
      child := fun d => by rw [(hs.event d).child]; exact h.child d
      refs := fun d b => by rw [(hs.event d).refs]; exact h.refs d b
      line := fun irq d hd => h.line irq d ((hs.lines irq).1 ▸ hd)
      sub := fun d hd => h.sub d (hs.subscribers ▸ hd)
      new := hs.new.trans h.new }
  shut {X u} e h :=
    { slot := fun o i d hd => by
        rw [observers_modEvent rfl] at hd ⊢
        exact h.slot o i d hd
      dies := h.dies.trans (shut_dies u e)
      child := fun d => (Sys.modEvent_keeps Event.childCount rfl d).le.trans (h.child d)
      refs := fun d b =>
        (congrFun (Sys.modEvent_keeps Event.boundRefs rfl d) b).le.trans (h.refs d b)
      line := h.line
      sub := h.sub
      new := h.new }
  unbind {X u o i e} h _ _ := by
    refine h.counted (release_counted u e _ _) (fun d => ?_) fun d b => ?_
    · exact (eventDropChild_le _ e d _).1.trans (eventUnbindBit_le u e d _).1.le
    · rw [(eventDropChild_le _ e d _).2]
      exact (eventUnbindBit_le u e d _).2 b
  clear {X u o i} h _ :=
    { slot := fun p j d hd => by
        rw [setObserver_apply] at hd ⊢
        split at hd
        · cases hd
        · rename_i hc; rw [if_neg hc]; exact h.slot p j d hd
      dies := h.dies.trans (setObserver_dies u o i .none)
      child := fun d => by rw [(setObserver_counts u o i .none d).child]; exact h.child d
      refs := fun d b => by rw [(setObserver_counts u o i .none d).refs]; exact h.refs d b
      line := by rw [(setObserver_rest u o i .none).1]; exact h.line
      sub := by rw [(setObserver_rest u o i .none).2.1]; exact h.sub
      new := (setObserver_rest u o i .none).2.2.trans h.new }
  unline {X u irq e} h _ _ :=
    h.counted (eventUnbindBit_counted u e _) (fun d => (eventUnbindBit_le u e d _).1.le)
      fun d b => (eventUnbindBit_le u e d _).2 b
  idle h _ := h
  reset {X u irq k} h _ hk :=
    { h with
      line := fun j d hd => by
        rw [Sys.modIrq_irqOwners, update_apply] at hd
        split at hd
        · exact absurd (hk.symm.trans hd) (by simp)
        · exact h.line j d hd }
  unsubscribe {X u e} h _ :=
    { h with sub := fun d hd => h.sub d (List.mem_of_mem_erase hd) }

theorem Fades.shrinks (h : Fades s s') : Shrinks s s' := h _ (shrinks_books s) (.refl s)

theorem FadesTo.shrinks (h : FadesTo X s s') : Shrinks s s' := h _ (shrinks_books s) (.refl s)

/-- The operations that make an event or a binding. -/
def EventOp.binds : EventOp → Bool
  | .create _ | .bind .. | .bindEvent .. | .bindIrq .. | .subscribe .. => true
  | _ => false

/-- **Without binds, bindings only fade**: signals, notifications, kills, interrupts, releases and
memory pressure bind no slot, line or subscription anew, revive no event and raise no count. -/
theorem bindings_fade {ls : List EventOp} (h : eventSystem.Reachable s)
    (hr : (eventSystem.restrict (fun _ => True) fun _ op => op.binds = false).Run s ls s') :
    Shrinks s s' := by
  have hind : eventSystem.Inductive LinesOwned :=
    ⟨fun h irq _ => h.lines irq, fun hs hst => (eventSystem_effect hs hst).linesOwned hs⟩
  have hown := hind.reachable h
  suffices hf : Fades s s' from hf.shrinks
  clear h
  induction hr with
  | nil => exact .refl _
  | @cons s m _ op _ hst _ ih =>
    have hf : Fades s m := by
      obtain ⟨hs, hop⟩ := hst
      cases eventSystem_effect hown hs with
      | fades hf => exact hf
      | rewatch hb | watch hb => cases hb <;> cases hop
      | _ => cases hop
    exact hf.trans (ih (hf.linesOwned hown))

/-- Event 0 is bound to event 1, and a kill of event 1 unbinds the slot and takes the count
back. -/
theorem bindings_fade_kill : ∃ s s', eventSystem.Reachable s ∧
    (s.observers (.event 1) 0).ev = some 0 ∧ (s.events 0).childCount = 1 ∧
    eventOp 8 s (.kill 1) = some s' ∧ (s'.observers (.event 1) 0).ev = none ∧
    (s'.events 0).childCount = 0 ∧ Shrinks s s' := by
  have hu : Unbound .empty := ⟨fun o _ => by cases o <;> rfl, fun _ => rfl, rfl, fun _ => nofun⟩
  obtain ⟨s, hs, hslot, hcount, hkill⟩ := LTS.reaches (L := eventSystem) (f := eventOp 8)
    (fun h => .inl ⟨8, h⟩)
    (fun s => (s.observers (.event 1) 0).ev = some 0 ∧ (s.events 0).childCount = 1 ∧
      (eventOp 8 s (.kill 1)).map (fun s' =>
        ((s'.observers (.event 1) 0).ev, (s'.events 0).childCount)) = some (none, 0))
    [.create 1, .create 1, .bindEvent 0 1 4] hu (by decide +kernel)
  obtain ⟨s', hs', heq⟩ := Option.map_eq_some_iff.mp hkill
  rw [Prod.mk.injEq] at heq
  exact ⟨s, s', hs, hslot, hcount, hs', heq.1, heq.2,
    bindings_fade hs (.single (l := .kill 1) ⟨.inl ⟨8, hs'⟩, rfl⟩)⟩

/-! ## Events that exist -/

/-- Only events that have been created are bound, observe, or are alive. -/
structure Born (s : Sys) : Prop where
  slot : ∀ o i e, (s.observers o i).ev = some e → i < maxObservers ∧ e < s.newEvent
  owner : ∀ c i e, (s.observers (.event c) i).ev = some e →
    c < s.newEvent ∧ (s.observers (.event c) i).fromEvent = true
  line : ∀ irq e, (s.irqOwners irq).boundEv = some e → e < s.newEvent
  sub : ∀ e ∈ s.subscribers, e < s.newEvent
  alive : ∀ e, (s.events e).alive → e < s.newEvent

/-- An event that does not exist yet observes nothing. -/
theorem Born.fresh (h : Born s) (i : Nat) : (s.observers (.event s.newEvent) i).ev = none := by
  by_contra hne
  obtain ⟨e, he⟩ := Option.ne_none_iff_exists'.mp hne
  exact absurd (h.owner _ i e he).1 (lt_irrefl _)

theorem Born.shrinks (h : Born s) (hu : Shrinks s u) : Born u where
  slot o i e he := by
    rw [hu.new]
    exact h.slot o i e (hu.slot o i e he ▸ he)
  owner c i e he := by
    rw [hu.new, hu.slot _ i e he]
    exact h.owner c i e (hu.slot _ i e he ▸ he)
  line irq e he := hu.new ▸ h.line irq e (hu.line irq e he)
  sub e he := hu.new ▸ h.sub e (hu.sub e he)
  alive e he := hu.new ▸ h.alive e (hu.dies e he)

theorem Born.counted (h : Born s) (hc : Counted s s' e) : Born s' where
  slot := by rw [hc.observers, hc.new]; exact h.slot
  owner := by rw [hc.observers, hc.new]; exact h.owner
  line := by rw [hc.lines, hc.new]; exact h.line
  sub := by rw [hc.subscribers, hc.new]; exact h.sub
  alive d hd := hc.new ▸ h.alive d (hc.alive d ▸ hd)

/-- One slot is written. -/
theorem Born.setObserver {v : Observer} (h : Born s)
    (hv : ∀ d, v.ev = some d → i < maxObservers ∧ d < s.newEvent)
    (ho : ∀ c d, o = .event c → v.ev = some d → c < s.newEvent ∧ v.fromEvent = true) :
    Born (s.setObserver o i v) := by
  obtain ⟨hl, hsub, hn⟩ := setObserver_rest s o i v
  have hobs := setObserver_apply s o i v
  refine ⟨fun p j d hd => ?_, fun c j d hd => ?_, ?_, ?_, fun d hd => ?_⟩
  · rw [hobs] at hd
    rw [hn]
    split at hd
    · rename_i hc; exact hc.2 ▸ hv d hd
    · exact h.slot p j d hd
  · rw [hobs] at hd ⊢
    rw [hn]
    split at hd
    · rename_i hc; rw [if_pos hc]; exact ho c d hc.1.symm hd
    · rename_i hc; rw [if_neg hc]; exact h.owner c j d hd
  · rw [hl, hn]; exact h.line
  · rw [hsub, hn]; exact h.sub
  · exact hn ▸ h.alive d ((setObserver_counts s o i v d).alive ▸ hd)

theorem Born.create (h : Born s) (spid : Int) : Born (eventCreate s spid true).1 := by
  have hn : (eventCreate s spid true).1.newEvent = s.newEvent + 1 := rfl
  refine ⟨fun o i e he => ?_, fun c i e he => ?_, fun irq e he => ?_, fun e he => ?_,
    fun e he => ?_⟩
  · rw [eventCreate_observers] at he
    split at he
    · simp [Observer.none] at he
    · obtain ⟨h1, h2⟩ := h.slot o i e he
      exact ⟨h1, hn ▸ Nat.lt_succ_of_lt h2⟩
  · rw [eventCreate_observers] at he ⊢
    split at he
    · simp [Observer.none] at he
    · rename_i hc
      rw [if_neg hc]
      obtain ⟨h1, h2⟩ := h.owner c i e he
      exact ⟨hn ▸ Nat.lt_succ_of_lt h1, h2⟩
  · exact hn ▸ Nat.lt_succ_of_lt (h.line irq e he)
  · exact hn ▸ Nat.lt_succ_of_lt (h.sub e he)
  · rw [eventCreate_events] at he
    rw [hn]
    split at he
    · rename_i hc; rw [hc]; exact Nat.lt_succ_self _
    · exact Nat.lt_succ_of_lt (h.alive e he)

theorem Born.binder {op : EventOp} (h : Born s)
    (hb : Binder s op o ev bit b) :
    ev < s.newEvent ∧ ∀ c, o = .event c → c < s.newEvent ∧ b = true := by
  cases hb with
  | object ho hal _ =>
    refine ⟨h.alive _ hal, fun c hc => ?_⟩
    subst hc
    simp [ObsOwner.inert] at ho
  | event hok =>
    obtain ⟨hal, -, hcal, -⟩ := of_decide_eq_true hok
    exact ⟨h.alive _ hal, fun c hc => ⟨ObsOwner.event.inj hc ▸ h.alive _ hcal, rfl⟩⟩

/-- Every operation binds only what exists. -/
theorem Effect.born {op : EventOp} (h : Effect s op s') (hs : Born s) : Born s' := by
  cases h with
  | fades hf => exact hs.shrinks hf.shrinks
  | create => exact hs.create _
  | @rewatch _ o ev bit i b _ hb hi hne hf =>
    refine Born.shrinks ?_ hf.shrinks
    have hc := rewatch_counted s o i ev bit
    rw [rewatch_eq]
    refine (hs.counted hc).setObserver (fun d hd => ?_) fun c d ho hd => ?_
    · rw [hc.new]; exact hs.slot o i d hd
    · subst ho
      rw [hc.new]
      exact hs.owner c i d hd
  | @watch _ o ev bit i b u _ hb hu hlt hi hf =>
    refine Born.shrinks ?_ hf.shrinks
    have hn := hu.shrinks.new
    obtain ⟨hev, howner⟩ := hs.binder hb
    refine Born.counted ?_ (watch_counted u o i ev bit b)
    refine (hs.shrinks hu.shrinks).setObserver (fun d hd => ?_) fun c d ho hd => ?_
    · exact ⟨hlt, hn ▸ Option.some.inj hd ▸ hev⟩
    · exact hn ▸ howner c ho
  | @line _ irq ev bit u _ hal hbit hu ho hf =>
    refine Born.shrinks ?_ hf.shrinks
    have hbu := hs.shrinks hu.shrinks
    refine Born.counted ?_ (bindLine_counted u irq ev bit)
    refine ⟨hbu.slot, hbu.owner, fun j d hd => ?_, hbu.sub, hbu.alive⟩
    rw [Sys.modIrq_irqOwners, update_apply] at hd
    split at hd
    · cases hd
      exact hu.shrinks.new ▸ hs.alive _ hal
    · exact hbu.line j d hd
  | @subscribe ev s' hal hf =>
    refine Born.shrinks ?_ hf.shrinks
    have hb := hs.counted (eventBindBit_counted s ev 0)
    have hn := (eventBindBit_counted s ev 0).new
    refine ⟨hb.slot, hb.owner, hb.line, fun d hd => ?_, hb.alive⟩
    rcases List.mem_append.mp hd with hd | hd
    · exact hb.sub d hd
    · obtain rfl := List.mem_singleton.mp hd
      exact hn ▸ hs.alive _ hal

theorem Unbound.born (h : Unbound s) : Born s where
  slot o i e he := absurd he (by simp [h.observers])
  owner c i e he := absurd he (by simp [h.observers])
  line irq e he := absurd he (by simp [h.lines])
  sub e he := absurd he (by simp [h.subscribers])
  alive e he := absurd he (h.dead e)

end

/-! ## The system call -/

/-- An operation, and then a change that concerns no binding. -/
theorem run_of_op {n : Nat} (o : EventOp) (h : eventOp n s o = some u)
    (hu : SameBindings u s') : ∃ ls, eventSystem.Run s ls s' :=
  ⟨[o, .other], .cons (Or.inl ⟨n, h⟩) (.single (Or.inr ⟨rfl, hu⟩))⟩

theorem ret_bindings (h : k.ret c err = some k') :
    SameBindings k.sys k'.sys := by
  cases h
  exact setReg_bindings k.sys c 0 _

theorem run_of_ret (h : k.ret c err = some k') :
    ∃ ls, eventSystem.Run k.sys ls k'.sys :=
  ⟨[.other], .single (Or.inr ⟨rfl, ret_bindings h⟩)⟩

/-- What `EVENT_PORT`, `EVENT_TASK` and `EVENT_SPACE` bind is no event, at a bit below 31. -/
theorem bindLookupTarget_ok {type : Nat} {h : Handle} {target : Option ObsOwner}
    (hl : bindLookupTarget k sp type h bit = .ok (target, ready)) :
    bit < 31 ∧ ∀ o, target = some o → o.inert := by
  unfold bindLookupTarget at hl
  grind [ObsOwner.inert]

theorem bindObserver_run {target : Option ObsOwner}
    (hop : ∀ o u, target = some o → observe env.fuel k.sys o ev bit b ready = some u →
      ∃ op, eventOp env.fuel k.sys op = some u)
    (h : bindObserver env k c target ev bit b ready = some k') :
    ∃ ls, eventSystem.Run k.sys ls k'.sys := by
  cases target with
  | none =>
    cases ready with
    | false => exact run_of_ret (k := k.setSys k.sys) h
    | true =>
      obtain ⟨u, hu, hret⟩ := Option.bind_eq_some_iff.mp h
      exact run_of_op (.signal ev (1#32 <<< bit) false) hu (ret_bindings hret)
  | some o =>
    obtain ⟨r, hr, h⟩ := Option.bind_eq_some_iff.mp h
    have hrest : ∃ u, (if r.2 = .ok ∧ ready then eventSignal env.fuel r.1 ev (1#32 <<< bit) false
        else some r.1) = some u ∧ (k.setSys u).ret c r.2 = some k' := by
      grind [Option.bind_eq_some_iff, Option.bind_eq_bind]
    obtain ⟨u, hu, hret⟩ := hrest
    obtain ⟨op, hop⟩ := hop o u rfl (Option.bind_eq_some_iff.mpr ⟨r, hr, hu⟩)
    exact run_of_op _ hop (ret_bindings hret)

theorem bindIrq_run
    (h : bindIrq env k c sp ev bit = some k') : ∃ ls, eventSystem.Run k.sys ls k'.sys := by
  unfold bindIrq at h
  iterate 4 (split at h; · exact run_of_ret h)
  rename_i d _ _ _ hbit
  obtain ⟨r, hr, h⟩ := Option.bind_eq_some_iff.mp h
  have hret : SameBindings r.1 k'.sys := ret_bindings h
  refine run_of_op (n := env.fuel) (.bindIrq sp (k.mem.objs d.obj).irq ev bit) ?_ hret
  rw [eventOp, if_pos (by omega), hr]
  rfl

theorem bindEvent_run (hal : (k.sys.events ev).alive) (h : bindEvent env k c sp ev bit = some k') :
    ∃ ls, eventSystem.Run k.sys ls k'.sys := by
  unfold bindEvent at h
  iterate 6 (split at h; · exact run_of_ret h)
  rename_i e _ _ _ hbit hcal hrest
  refine bindObserver_run (fun o u ho hu => ⟨.bindEvent ev e.obj bit, ?_⟩) h
  cases ho
  have hok : bindEventOk k.sys ev e.obj bit := by
    push Not at hrest
    exact decide_eq_true ⟨hal, Nat.lt_of_not_le hbit, not_not.mp hcal, hrest⟩
  rw [eventOp, if_pos hok]
  exact hu

/-- The `Bind` system call is a run of the event system. -/
theorem svcBind_run
    (h : svcBind env k c sp = some k') : ∃ ls, eventSystem.Run k.sys ls k'.sys := by
  unfold svcBind at h
  dsimp only at h
  iterate 4 (split at h; · exact run_of_ret h)
  rename_i e _ _ _ hal
  have hal := not_not.mp hal
  split at h
  case h_1 =>
    have hret : SameBindings (pmmSubscribe k.sys e.obj env.slab).1 k'.sys := ret_bindings h
    refine run_of_op (n := env.fuel) (.subscribe e.obj env.slab) ?_ hret
    rw [eventOp, if_pos hal]
  case h_2 => exact bindIrq_run h
  case h_6 => exact bindEvent_run hal h
  case h_7 => exact run_of_ret h
  all_goals
    split at h
    · exact run_of_ret h
    · rename_i target ready hl
      obtain ⟨hbit, hinert⟩ := bindLookupTarget_ok hl
      refine bindObserver_run (fun o u ho hu => ⟨.bind o e.obj (k.arg c 3).toNat ready, ?_⟩) h
      rw [eventOp, if_pos ⟨hal, hbit, hinert o ho⟩]
      exact hu

/-- Task 0 asks for a signal to its event (handle 0) when memory runs low. -/
def subscribing : K where
  sys := (eventCreate .empty 1 true).1.modTask 0 fun t =>
    { t with frame := fun i => if i = 0 then 1 else 0 }
  tables _ := (issue handleTableInit true (fillNew .event 0 permAll)).1
  mem := ⟨fun _ => .zero, fun _ => none, fun _ => false, 0⟩

theorem svcBind_run_subscribing : ∃ k', svcBind .calm subscribing 0 0 = some k' ∧
    k'.sys.subscribers = [0] ∧ ∃ ls, eventSystem.Run subscribing.sys ls k'.sys :=
  ⟨_, rfl, rfl, svcBind_run (show svcBind .calm subscribing 0 0 = some _ from rfl)⟩

end Zuzu.L3
