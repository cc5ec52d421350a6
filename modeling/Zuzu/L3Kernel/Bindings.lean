import Zuzu.Core.Tally
import Zuzu.L3Kernel.Relay

/-!
# Where events are bound

An event is bound to a slot of an object's observer set or to an interrupt
line (`Site`). Taking a binding back is not one step: `ObserverRelease` first
takes the binding off the event's counters, then drops the reference, which may
kill the event and through it further bindings, and only then clears the slot.
A site whose binding is off the counters but still written is *parked*; an
invariant of the counters is indexed by the list of parked sites.

Signalling, killing and releasing call each other. `Ledger I` says that `I` is
kept by the few primitive changes they are made of; `Ledger.calls` carries that
over to all of them, by one induction on the depth of the calls. The point of
that induction is that no call touches a parked site: a parked slot belongs to
an object that is not a live event, and nested calls only visit the slots of
events that were live.

**Results.** `Ledger.calls`: what the primitive changes keep is kept by calls of every
depth. `Books.irqRelease`: and by giving up an interrupt line.
-/
namespace Zuzu.L3
open Function Zuzu.Core Zuzu.L2.Handles

/-- A place that holds a binding: an observer slot or an interrupt line. -/
inductive Site
  | slot (o : ObsOwner) (i : Nat) | line (irq : Nat)
  deriving DecidableEq

/-- The event and bit a site is bound to. -/
def Sys.site (s : Sys) : Site → Option (EventId × Nat)
  | .slot o i => (s.observers o i).ev.map fun e => (e, (s.observers o i).bit)
  | .line irq => (s.irqOwners irq).boundEv.map fun e => (e, (s.irqOwners irq).bit)

/-- The parent a site binds a child event to. -/
def Sys.parent (s : Sys) : Site → Option EventId
  | .slot o i => if (s.observers o i).fromEvent then (s.observers o i).ev else none
  | .line _ => none

/-! ## Changes that concern no binding -/

/-- The counters of an event are as before. -/
structure SameCounts (k k' : Event) : Prop where
  alive : k'.alive = k.alive
  mask : k'.boundMask = k.boundMask
  refs : k'.boundRefs = k.boundRefs
  child : k'.childCount = k.childCount

/-- Bindings and their counters are as before. -/
structure SameBindings (s s' : Sys) : Prop where
  event : ∀ e, SameCounts (s.events e) (s'.events e)
  observers : s'.observers = s.observers
  lines : ∀ irq, (s'.irqOwners irq).boundEv = (s.irqOwners irq).boundEv ∧
    (s'.irqOwners irq).bit = (s.irqOwners irq).bit ∧
    (s'.irqOwners irq).owner = (s.irqOwners irq).owner
  subscribers : s'.subscribers = s.subscribers
  new : s'.newEvent = s.newEvent

variable {s s' s'' : Sys} {X : List Site} {o : ObsOwner} {i : Nat} {e : EventId}

theorem SameCounts.refl (k : Event) : SameCounts k k := ⟨rfl, rfl, rfl, rfl⟩

theorem SameCounts.trans {k k' k'' : Event} (h : SameCounts k k') (h' : SameCounts k' k'') :
    SameCounts k k'' :=
  ⟨h'.alive.trans h.alive, h'.mask.trans h.mask, h'.refs.trans h.refs, h'.child.trans h.child⟩

/-- An event changes, but not its observers. -/
theorem observers_modEvent {f : Event → Event}
    (hf : (f (s.events e)).observers = (s.events e).observers) :
    (s.modEvent e f).observers = s.observers := by
  funext o
  cases o with
  | event d => exact Sys.modEvent_keeps Event.observers hf d
  | _ => rfl

/-- Who observes whom decides who is whose child. -/
theorem parent_congr (h : s'.observers = s.observers) : s'.parent = s.parent := by
  funext x
  cases x <;> simp only [Sys.parent, h]

namespace SameBindings

theorem refl (s : Sys) : SameBindings s s :=
  ⟨fun _ => .refl _, rfl, fun _ => ⟨rfl, rfl, rfl⟩, rfl, rfl⟩

theorem trans (h : SameBindings s s') (h' : SameBindings s' s'') : SameBindings s s'' where
  event e := (h.event e).trans (h'.event e)
  observers := h'.observers.trans h.observers
  lines irq := by
    obtain ⟨h1, h2, h3⟩ := h.lines irq
    obtain ⟨h1', h2', h3'⟩ := h'.lines irq
    exact ⟨h1'.trans h1, h2'.trans h2, h3'.trans h3⟩
  subscribers := h'.subscribers.trans h.subscribers
  new := h'.new.trans h.new

theorem site (h : SameBindings s s') : s'.site = s.site := by
  funext x
  cases x with
  | slot o i => simp only [Sys.site, h.observers]
  | line irq => simp only [Sys.site, (h.lines irq).1, (h.lines irq).2.1]

theorem parent (h : SameBindings s s') : s'.parent = s.parent := parent_congr h.observers

/-- A task changes, but not its observers. -/
theorem modTask (t : TaskId) {f : Task → Task} (hf : ∀ k, (f k).observers = k.observers) :
    SameBindings s (s.modTask t f) := by
  refine { refl s with observers := ?_ }
  funext o
  cases o with
  | task u =>
    rw [Sys.observers, Sys.observers, Sys.modTask_apply]
    split
    · rename_i h; subst h; exact hf _
    · rfl
  | _ => rfl

/-- An event changes, but not its counters. -/
theorem modEvent (e : EventId) {f : Event → Event} (hf : ∀ k, SameCounts k (f k))
    (ho : ∀ k, (f k).observers = k.observers) : SameBindings s (s.modEvent e f) :=
  { refl s with
    event := Sys.modEvent_rel (R := SameCounts) .refl (hf _)
    observers := observers_modEvent (ho _) }

/-- A loop whose rounds concern no binding. -/
theorem foldl {α : Type*} {f : Sys → α → Sys} (hf : ∀ s a, SameBindings s (f s a)) :
    ∀ (l : List α) (s : Sys), SameBindings s (l.foldl f s)
  | [], s => refl s
  | a :: l, s => (hf s a).trans (foldl hf l (f s a))

end SameBindings

theorem schedEnqueue_bindings (s : Sys) (t : TaskId) (front : Bool) :
    SameBindings s (schedEnqueue s t front) := by
  have hq : ∀ level, SameBindings s (s.modTask t fun k => { k with queuedPrio := level }) :=
    fun _ => .modTask t fun _ => rfl
  unfold schedEnqueue
  split
  · exact .refl s
  dsimp only
  repeat' split
  all_goals exact { hq _ with }

theorem setReg_bindings (s : Sys) (t : TaskId) (r : Nat) (v : Reg) :
    SameBindings s (s.setReg t r v) := .modTask t fun _ => rfl

/-- Taking a task off its wait queue concerns no binding. -/
theorem unwait_bindings (s : Sys) (t : TaskId) : SameBindings s (s.setWait (s.wait.remove t)) :=
  { SameBindings.refl s with }

theorem schedUnblock_bindings (s : Sys) (t : TaskId) : SameBindings s (schedUnblock s t) :=
  (unwait_bindings s t).trans (.modTask t fun _ => rfl)

section
variable (s : Sys) (o : ObsOwner) (i : Nat) (v : Observer)

/-- A task becomes ready and goes on its run queue. -/
theorem ready_bindings (s : Sys) (t : TaskId) :
    SameBindings s (schedAdd (schedUnblock s t) t) :=
  (schedUnblock_bindings s t).trans (schedEnqueue_bindings _ t false)

theorem eventDeliver_bindings (s : Sys) (w : TaskId) (got : EventWord) :
    SameBindings s (eventDeliver s w got) := by
  refine SameBindings.trans ?_ (ready_bindings _ w)
  exact ((unwait_bindings s w).trans (setReg_bindings _ w 0 _)).trans (setReg_bindings _ w 1 _)

theorem eventWalk_bindings (e : EventId) (bcast : Bool) (ws : List TaskId) (d : EventWord)
    (s : Sys) : SameBindings s (eventWalk e bcast ws d s).1 := by
  induction ws generalizing d s with
  | nil => exact .refl s
  | cons w ws ih =>
    rw [eventWalk]
    split
    · split
      · exact (eventDeliver_bindings s w _).trans (ih _ _)
      · exact eventDeliver_bindings s w _
    · exact ih _ _

theorem eventPost_bindings (s : Sys) (e : EventId) (bits : EventWord) (bcast : Bool) :
    SameBindings s (eventPost s e bits bcast) := by
  unfold eventPost
  refine SameBindings.trans ?_ (.modEvent e (fun _ => ⟨rfl, rfl, rfl, rfl⟩) fun _ => rfl)
  refine SameBindings.trans ?_ (eventWalk_bindings ..)
  exact .modEvent e (fun _ => ⟨rfl, rfl, rfl, rfl⟩) fun _ => rfl

theorem abortWaiters_bindings (s : Sys) (q : WaitQ) (err : Err) :
    SameBindings s (abortWaiters s q err) := by
  refine SameBindings.foldl (fun s t => ?_) _ s
  refine SameBindings.trans ?_ (ready_bindings _ t)
  exact ((unwait_bindings s t).trans (setReg_bindings _ t 0 _)).trans (.modTask t fun _ => rfl)

/-! ## Changes of one binding -/

theorem observers_setObserver : (s.setObserver o i v).observers =
      update s.observers o (update (s.observers o) i v) := by
  funext p
  by_cases hp : p = o
  · subst hp
    rw [update_self]
    cases p <;> simp [Sys.observers, Sys.setObserver]
  · rw [update_of_ne hp]
    cases o <;> cases p <;> first | rfl | simp_all [Sys.observers, Sys.setObserver]

theorem setObserver_apply (p : ObsOwner) (j : Nat) : (s.setObserver o i v).observers p j =
      if p = o ∧ j = i then v else s.observers p j := by
  rw [observers_setObserver]
  by_cases hp : p = o
  · subst hp
    simp [update_apply]
  · simp [hp]

theorem site_setObserver : (s.setObserver o i v).site =
      update s.site (.slot o i) (v.ev.map fun e => (e, v.bit)) := by
  funext x
  cases x with
  | slot p j =>
    simp only [Sys.site, observers_setObserver, update_apply, Site.slot.injEq]
    by_cases hp : p = o <;> by_cases hj : j = i <;> simp [hp, hj]
  | line irq =>
    rw [update_of_ne (by simp)]
    cases o <;> rfl

theorem parent_setObserver : (s.setObserver o i v).parent =
      update s.parent (.slot o i) (if v.fromEvent then v.ev else none) := by
  funext x
  cases x with
  | slot p j =>
    simp only [Sys.parent, observers_setObserver, update_apply, Site.slot.injEq]
    by_cases hp : p = o <;> by_cases hj : j = i <;> simp [hp, hj]
  | line irq =>
    rw [update_of_ne (by simp)]
    rfl

theorem setObserver_counts (e : EventId) :
    SameCounts (s.events e) ((s.setObserver o i v).events e) := by
  cases o with
  | event d =>
    rw [Sys.setObserver]
    exact Sys.modEvent_rel (R := SameCounts) .refl ⟨rfl, rfl, rfl, rfl⟩ e
  | _ => exact .refl _

theorem setObserver_rest : (s.setObserver o i v).irqOwners = s.irqOwners ∧
      (s.setObserver o i v).subscribers = s.subscribers ∧
      (s.setObserver o i v).newEvent = s.newEvent := by
  cases o <;> exact ⟨rfl, rfl, rfl⟩

end

theorem site_modIrq (s : Sys) (irq : Nat) (f : IrqOwner → IrqOwner) :
    (s.modIrq irq f).site = update s.site (.line irq)
      ((f (s.irqOwners irq)).boundEv.map fun e => (e, (f (s.irqOwners irq)).bit)) := by
  funext x
  cases x with
  | slot o i => rw [update_of_ne (by simp)]; cases o <;> rfl
  | line n =>
    simp only [Sys.site, Sys.modIrq_irqOwners, update_apply, Site.line.injEq]
    split <;> rfl

/-- Counting a binding of an event changes only the event's counters. -/
structure Counted (s s' : Sys) (e : EventId) : Prop where
  observers : s'.observers = s.observers
  lines : s'.irqOwners = s.irqOwners
  subscribers : s'.subscribers = s.subscribers
  new : s'.newEvent = s.newEvent
  alive : ∀ d, (s'.events d).alive = (s.events d).alive
  others : ∀ d, d ≠ e → s'.events d = s.events d

theorem Counted.site (h : Counted s s' e) : s'.site = s.site := by
  funext x
  cases x <;> simp only [Sys.site, h.observers, h.lines]

theorem Counted.parent (h : Counted s s' e) : s'.parent = s.parent := parent_congr h.observers

theorem Counted.refl (s : Sys) (e : EventId) : Counted s s e :=
  ⟨rfl, rfl, rfl, rfl, fun _ => rfl, fun _ _ => rfl⟩

theorem Counted.trans (h : Counted s s' e) (h' : Counted s' s'' e) : Counted s s'' e where
  observers := h'.observers.trans h.observers
  lines := h'.lines.trans h.lines
  subscribers := h'.subscribers.trans h.subscribers
  new := h'.new.trans h.new
  alive d := (h'.alive d).trans (h.alive d)
  others d hd := (h'.others d hd).trans (h.others d hd)

theorem Counted.modEvent {f : Event → Event} (ha : (f (s.events e)).alive = (s.events e).alive)
    (ho : (f (s.events e)).observers = (s.events e).observers) :
    Counted s (s.modEvent e f) e where
  observers := observers_modEvent ho
  lines := rfl
  subscribers := rfl
  new := rfl
  alive := Sys.modEvent_keeps Event.alive ha
  others d hd := by rw [Sys.modEvent_apply, if_neg hd]

theorem eventBindBit_counted (s : Sys) (e : EventId) (bit : Nat) :
    Counted s (eventBindBit s e bit) e := by
  unfold eventBindBit
  split
  · exact .refl s e
  · exact .modEvent rfl rfl

theorem eventUnbindBit_counted (s : Sys) (e : EventId) (bit : Nat) :
    Counted s (eventUnbindBit s e bit) e := by
  unfold eventUnbindBit
  split
  · exact .refl s e
  · exact .modEvent rfl rfl

theorem eventDropChild_counted (s : Sys) (e : EventId) (b : Bool) :
    Counted s (eventDropChild s e b) e := by
  unfold eventDropChild
  split
  · exact .modEvent rfl rfl
  · exact .refl s e

/-- The counters of `e` after a binding of it has been taken back. -/
theorem release_counted (s : Sys) (e : EventId) (bit : Nat) (b : Bool) :
    Counted s (eventDropChild (eventUnbindBit s e bit) e b) e :=
  (eventUnbindBit_counted s e bit).trans (eventDropChild_counted _ e b)

/-! ## Signalling, killing and releasing -/

/-- No event comes back to life. -/
def Dies (s s' : Sys) : Prop := ∀ e, (s'.events e).alive → (s.events e).alive

theorem Dies.refl (s : Sys) : Dies s s := fun _ h => h

theorem Dies.trans (h : Dies s s') (h' : Dies s' s'') : Dies s s'' := fun e he => h e (h' e he)

theorem SameBindings.dies (h : SameBindings s s') : Dies s s' :=
  fun e he => (h.event e).alive ▸ he

theorem Counted.dies (h : Counted s s' e) : Dies s s' := fun d hd => h.alive d ▸ hd

theorem setObserver_dies (s : Sys) (o : ObsOwner) (i : Nat) (v : Observer) :
    Dies s (s.setObserver o i v) := fun e he => (setObserver_counts s o i v e).alive ▸ he

theorem shut_dies (s : Sys) (e : EventId) :
    Dies s (s.modEvent e fun k => { k with alive := false }) := by
  intro d hd
  rw [Sys.modEvent_apply] at hd
  split at hd
  · exact absurd hd (by simp)
  · exact hd

theorem eventShut_dies (s : Sys) (e : EventId) : Dies s (eventShut s e) :=
  (shut_dies s e).trans (abortWaiters_bindings _ _ _).dies

theorem eventShut_dead (s : Sys) (e : EventId) : ¬((eventShut s e).events e).alive := by
  intro h
  have h1 := (abortWaiters_bindings _ _ _).dies e h
  simp at h1

/-- The owner of an observer set is a live event. -/
def Sys.Live (s : Sys) : ObsOwner → Prop
  | .event e => (s.events e).alive
  | _ => False

theorem Dies.live (h : Dies s s') (ho : s'.Live o) : s.Live o := by
  cases o with
  | event e => exact h e ho
  | _ => exact ho

/-- Parked slots belong to no live event. -/
def Parked (X : List Site) (s : Sys) : Prop := ∀ o i, .slot o i ∈ X → ¬s.Live o

theorem Parked.mono (h : Parked X s) (hd : Dies s s') : Parked X s' :=
  fun o i hx hl => h o i hx (hd.live hl)

theorem Parked.notMem (h : Parked X s) (he : (s.events e).alive) (i : Nat) :
    .slot (.event e) i ∉ X := fun hx => h _ i hx he

/-- A slot goes off the books; its owner is no live event. -/
theorem Parked.cons (h : Parked X s) (ho : ¬s.Live o) : Parked (.slot o i :: X) s := by
  intro p j hx
  rcases List.mem_cons.mp hx with hx | hx
  · obtain ⟨rfl, rfl⟩ := Site.slot.inj hx
    exact ho
  · exact h p j hx

/-- What the primitive changes of signalling, killing and releasing keep. -/
structure Ledger (I : List Site → Sys → Prop) : Prop where
  same : ∀ {X s s'}, I X s → SameBindings s s' → I X s'
  shut : ∀ {X s} (e : EventId), I X s → I X (s.modEvent e fun k => { k with alive := false })
  unbind : ∀ {X s o i e}, I X s → .slot o i ∉ X → (s.observers o i).ev = some e →
    I (.slot o i :: X) (eventDropChild (eventUnbindBit s e (s.observers o i).bit) e
      (s.observers o i).fromEvent)
  clear : ∀ {X s o i}, I (.slot o i :: X) s → .slot o i ∉ X → I X (s.setObserver o i .none)

/-- What the primitive changes of interrupt lines and subscriptions keep as well. -/
structure Books (I : List Site → Sys → Prop) : Prop extends Ledger I where
  unline : ∀ {X s irq e}, I X s → .line irq ∉ X → (s.irqOwners irq).boundEv = some e →
    I (.line irq :: X) (eventUnbindBit s e (s.irqOwners irq).bit)
  idle : ∀ {X s irq}, I X s → (s.irqOwners irq).boundEv = none → I (.line irq :: X) s
  reset : ∀ {X s irq k}, I (.line irq :: X) s → .line irq ∉ X → k.boundEv = none →
    I X (s.modIrq irq fun _ => k)
  unsubscribe : ∀ {X s e}, I X s → ¬(s.events e).alive →
    I X { s with subscribers := s.subscribers.erase e }

/-- What calls of depth `n` keep. -/
structure Kept (I : List Site → Sys → Prop) (n : Nat) : Prop where
  signal : ∀ {X s e bits bcast s'}, I X s → Parked X s → (∀ i, .slot (.event e) i ∉ X) →
    eventSignal n s e bits bcast = some s' → I X s' ∧ Dies s s'
  notify : ∀ {X s o s'}, I X s → Parked X s → (∀ i, .slot o i ∉ X) →
    observerNotify n s o = some s' → I X s' ∧ Dies s s'
  release : ∀ {X s o i s'}, I X s → .slot o i ∉ X →
    (∀ e, (s.observers o i).ev = some e → (s.events e).alive → Parked X s ∧ ¬s.Live o) →
    observerRelease n s o i = some s' → I X s' ∧ Dies s s'
  clear : ∀ {X s o s'}, I X s → Parked X s → ¬s.Live o → (∀ i, .slot o i ∉ X) →
    observerClear n s o = some s' → I X s' ∧ Dies s s'
  unref : ∀ {X s e s'}, I X s → ((s.events e).alive → Parked X s) →
    eventUnref n s e = some s' → I X s' ∧ Dies s s'
  kill : ∀ {X s e s'}, I X s → ((s.events e).alive → Parked X s) →
    eventKill n s e = some s' → I X s' ∧ Dies s s'

namespace Ledger
variable {I : List Site → Sys → Prop} {n : Nat}

theorem post (hI : Ledger I) (h : I X s) (e : EventId) (bits : EventWord) (bcast : Bool) :
    I X (eventPost s e bits bcast) := hI.same h (eventPost_bindings s e bits bcast)

theorem eventShut (hI : Ledger I) (h : I X s) (e : EventId) : I X (eventShut s e) :=
  hI.same (hI.shut e h) (abortWaiters_bindings _ _ _)

theorem dropRef_bindings (s : Sys) (e : EventId) : SameBindings s (eventDropRef s e) :=
  .modEvent e (fun _ => ⟨rfl, rfl, rfl, rfl⟩) fun _ => rfl

theorem kept_zero : Kept I 0 where
  signal _ _ _ h := by simp [eventSignal] at h
  notify _ _ _ h := by simp [observerNotify] at h
  release _ _ _ h := by simp [observerRelease] at h
  clear _ _ _ _ h := by simp [observerClear] at h
  unref _ _ h := by simp [eventUnref] at h
  kill _ _ h := by simp [eventKill] at h

theorem kept_signal (hI : Ledger I) (ih : Kept I n) {bits : EventWord} {bcast : Bool}
    (h : I X s) (hX : Parked X s) (he : ∀ i, .slot (.event e) i ∉ X)
    (hs : eventSignal (n + 1) s e bits bcast = some s') : I X s' ∧ Dies s s' := by
  have hd := (eventPost_bindings s e bits bcast).dies
  rw [eventSignal] at hs
  split at hs
  · obtain ⟨h', hd'⟩ := ih.notify (hI.post h e bits bcast) (hX.mono hd) he hs
    exact ⟨h', hd.trans hd'⟩
  · cases hs
    exact ⟨hI.post h e bits bcast, hd⟩

theorem kept_notify (ih : Kept I n) (h : I X s) (hX : Parked X s)
    (ho : ∀ i, .slot o i ∉ X) (hs : observerNotify (n + 1) s o = some s') :
    I X s' ∧ Dies s s' := by
  rw [observerNotify] at hs
  refine LTS.foldlM_preserves (I := fun u => I X u ∧ Dies s u) (fun {u i u'} hu hr => ?_) hs
    ⟨h, .refl s⟩
  cases hev : (u.observers o i).ev with
  | none => rw [hev] at hr; exact Option.some.inj hr ▸ hu
  | some ev =>
    rw [hev] at hr
    dsimp only at hr
    split at hr
    · rename_i hal
      have hXu := hX.mono hu.2
      obtain ⟨h', hd⟩ := ih.signal hu.1 hXu (hXu.notMem hal) hr
      exact ⟨h', hu.2.trans hd⟩
    · obtain ⟨h', hd⟩ := ih.release hu.1 (ho i) (fun e he hl => by grind) hr
      exact ⟨h', hu.2.trans hd⟩

theorem kept_release (hI : Ledger I) (ih : Kept I n) (h : I X s) (hx : .slot o i ∉ X)
    (hp : ∀ e, (s.observers o i).ev = some e → (s.events e).alive → Parked X s ∧ ¬s.Live o)
    (hs : observerRelease (n + 1) s o i = some s') : I X s' ∧ Dies s s' := by
  rw [observerRelease] at hs
  cases hev : (s.observers o i).ev with
  | none => rw [hev] at hs; exact Option.some.inj hs ▸ ⟨h, .refl s⟩
  | some ev =>
    rw [hev] at hs
    dsimp only at hs
    rw [(eventUnbindBit_counted s ev _).observers] at hs
    obtain ⟨u, hu, hs⟩ := Option.bind_eq_some_iff.mp hs
    cases hs
    have hc := release_counted s ev (s.observers o i).bit (s.observers o i).fromEvent
    -- a live target: the owner is no live event, so the slot may be parked meanwhile
    obtain ⟨h', hd⟩ := ih.unref (hI.unbind h hx hev) (fun hal => by
      obtain ⟨hX, ho⟩ := hp ev hev (hc.alive ev ▸ hal)
      exact (hX.cons ho).mono hc.dies) hu
    exact ⟨hI.clear h' hx, (hc.dies.trans hd).trans (setObserver_dies _ _ _ _)⟩

theorem kept_clear (ih : Kept I n) (h : I X s) (hX : Parked X s) (hl : ¬s.Live o)
    (ho : ∀ i, .slot o i ∉ X) (hs : observerClear (n + 1) s o = some s') :
    I X s' ∧ Dies s s' := by
  rw [observerClear] at hs
  refine LTS.foldlM_preserves (I := fun u => I X u ∧ Dies s u) (fun {u i u'} hu hr => ?_) hs
    ⟨h, .refl s⟩
  obtain ⟨h', hd⟩ := ih.release hu.1 (ho i)
    (fun _ _ _ => ⟨hX.mono hu.2, fun hl' => hl (hu.2.live hl')⟩) hr
  exact ⟨h', hu.2.trans hd⟩

theorem kept_unref (hI : Ledger I) (ih : Kept I n) (h : I X s)
    (hX : (s.events e).alive → Parked X s) (hs : eventUnref (n + 1) s e = some s') :
    I X s' ∧ Dies s s' := by
  have hb := dropRef_bindings s e
  rw [eventUnref] at hs
  split at hs
  · cases hs
    exact ⟨hI.same h hb, hb.dies⟩
  · obtain ⟨u, hu, hs⟩ := Option.bind_eq_some_iff.mp hs
    cases hs
    obtain ⟨h', hd⟩ := ih.kill (hI.same h hb)
      (fun hal => (hX (hb.dies e hal)).mono hb.dies) hu
    have hf : SameBindings u (u.modEvent e fun k => { k with freed := true }) :=
      .modEvent e (fun _ => ⟨rfl, rfl, rfl, rfl⟩) fun _ => rfl
    exact ⟨hI.same h' hf, (hb.dies.trans hd).trans hf.dies⟩

theorem kept_kill (hI : Ledger I) (ih : Kept I n) (h : I X s)
    (hX : (s.events e).alive → Parked X s) (hs : eventKill (n + 1) s e = some s') :
    I X s' ∧ Dies s s' := by
  rw [eventKill] at hs
  split at hs
  · exact Option.some.inj hs ▸ ⟨h, .refl s⟩
  · rename_i hal
    obtain ⟨u, hu, hs⟩ := Option.bind_eq_some_iff.mp hs
    have hal := not_not.mp hal
    have hX := hX hal
    have he := hX.notMem hal
    have hd := eventShut_dies s e
    obtain ⟨h1, hd1⟩ := ih.notify (hI.eventShut h e) (hX.mono hd) he hu
    have hdead : ¬u.Live (.event e) := fun hl => eventShut_dead s e (hd1 e hl)
    obtain ⟨h2, hd2⟩ := ih.clear h1 (hX.mono (hd.trans hd1)) hdead he hs
    exact ⟨h2, (hd.trans hd1).trans hd2⟩

/-- What the primitive changes keep is kept by calls of every depth. -/
theorem calls (hI : Ledger I) : ∀ n, Kept I n
  | 0 => kept_zero
  | n + 1 =>
    have ih := calls hI n
    { signal := kept_signal hI ih
      notify := kept_notify ih
      release := kept_release hI ih
      clear := kept_clear ih
      unref := kept_unref hI ih
      kill := kept_kill hI ih }

end Ledger

/-! ## Interrupt lines -/

namespace Books
variable {I : List Site → Sys → Prop} {n : Nat}

theorem parked_line (irq : Nat) (s : Sys) : Parked [.line irq] s := by
  intro o i hx
  simp at hx

theorem parked_nil (s : Sys) : Parked [] s := fun _ _ hx => absurd hx List.not_mem_nil

/-- Taking back the binding of a line leaves the line parked. -/
theorem irqDropEvent (hI : Books I) {irq : Nat} (h : I [] s)
    (hs : irqDropEvent n s irq = some s') : I [.line irq] s' ∧ Dies s s' := by
  unfold L3.irqDropEvent at hs
  cases hev : (s.irqOwners irq).boundEv with
  | none =>
    rw [hev] at hs
    exact Option.some.inj hs ▸ ⟨hI.idle h hev, .refl s⟩
  | some ev =>
    rw [hev] at hs
    obtain ⟨h', hd⟩ := (hI.calls n).unref (hI.unline h List.not_mem_nil hev)
      (fun _ => parked_line irq _) hs
    exact ⟨h', (eventUnbindBit_counted s ev _).dies.trans hd⟩

theorem irqRelease (hI : Books I) {owner : SpaceId} {irq : Nat} (h : I [] s)
    (hs : irqRelease n s owner irq = some s') : I [] s' := by
  unfold L3.irqRelease at hs
  split at hs
  · exact Option.some.inj hs ▸ h
  · obtain ⟨u, hu, rfl⟩ := Option.map_eq_some_iff.mp hs
    exact hI.reset (hI.irqDropEvent h hu).1 List.not_mem_nil rfl

end Books

end Zuzu.L3
