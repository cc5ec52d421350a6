import Zuzu.L3Kernel.EventOps

/-!
# Events in two layers

An event may observe other events, and `svc_bind.c:145-147` keeps such events in
two layers: a child has no children of its own, a parent has no live parent.
The first check reads `child_count`, an 8-bit counter of the children bound to
an event. As long as no bind takes it past 255 it is the number of slots that
name the event as a parent, and the layers hold in every run. The 256th child
takes it back to 0, and the parent can then be bound as a child itself.

**Results.** `two_layers`: in runs whose binds find the parent with fewer than 255
children, no live event is both parent and child, and notifying the observers
of a parent signals nobody. `three_layers`: 256 children make a third layer.
-/
namespace Zuzu.L3
open Function Zuzu.Core

variable {s s' u : Sys} {X : List Site} {o : ObsOwner} {i : Nat} {e : EventId}
variable {ev : EventId}

/-! ## The number of children -/

/-- The counter of a live event is the number of slots that name it as a parent. -/
def CountsChildren (X : List Site) (s : Sys) : Prop :=
  ∀ e, (s.events e).alive → Tally (hide X s.parent) e (s.events e).childCount

theorem eventBindBit_child (s : Sys) (e d : EventId) (bit : Nat) :
    ((eventBindBit s e bit).events d).childCount = (s.events d).childCount := by
  unfold eventBindBit
  split
  · rfl
  · exact Sys.modEvent_keeps Event.childCount rfl d

theorem eventDropChild_child (s : Sys) (e d : EventId) (b : Bool) :
    ((eventDropChild s e b).events d).childCount =
      if d = e ∧ b then (s.events d).childCount - 1 else (s.events d).childCount := by
  unfold eventDropChild
  cases b with
  | false => simp
  | true =>
    rw [if_pos rfl, Sys.modEvent_apply]
    by_cases hd : d = e <;> simp [hd]

theorem parent_line (s : Sys) (X : List Site) (irq : Nat) (d : EventId) :
    hide X s.parent (.line irq) ≠ some d := by
  rw [hide]
  split <;> simp [Sys.parent]

/-- A line that goes off the books is no child. -/
theorem tally_line {irq : Nat} {d : EventId} {n : Nat} :
    Tally (hide (.line irq :: X) s.parent) d n ↔ Tally (hide X s.parent) d n := by
  have hiff : ∀ x, hide (.line irq :: X) s.parent x = some d ↔ hide X s.parent x = some d := by
    intro x
    rw [hide_cons, update_apply]
    split
    · rename_i h; subst h; simp [parent_line s X irq d]
    · rfl
  exact ⟨fun h => h.congr fun x => (hiff x).symm, fun h => h.congr hiff⟩

theorem countsChildren_books : Books CountsChildren where
  same h hs e he := by
    rw [hs.parent, (hs.event e).child]
    exact h e ((hs.event e).alive ▸ he)
  shut {X s} e h d hd := by
    rw [parent_congr (observers_modEvent rfl), Sys.modEvent_keeps Event.childCount rfl]
    exact h d (shut_dies s e d hd)
  unbind {X s o i e} h hx he d hd := by
    have hc := release_counted s e (s.observers o i).bit (s.observers o i).fromEvent
    have hal := hc.alive d ▸ hd
    have hv : hide X s.parent (.slot o i) =
        if (s.observers o i).fromEvent then some e else none := by
      rw [hide_of_notMem hx, Sys.parent, he]
    rw [hc.parent, hide_cons, eventDropChild_child, (eventUnbindBit_le s e d _).1]
    split
    · rename_i hcase
      obtain ⟨rfl, hfrom⟩ := hcase
      exact (h d hal).drop (by simp [hv, hfrom]) (by simp)
    · rename_i hcase
      refine (h d hal).skip ?_ (by simp)
      rw [hv]
      split
      · rename_i hfrom
        exact fun h => hcase ⟨(Option.some.inj h).symm, hfrom⟩
      · simp
  clear {X s o i} h hx d hd := by
    have hc := setObserver_counts s o i .none d
    rw [parent_setObserver, hide_cons_update hx, hc.child]
    refine (h d (hc.alive ▸ hd)).skip ?_ ?_ <;> simp [hide, Observer.none]
  unline {X s irq e} h _ _ d hd := by
    have hc := eventUnbindBit_counted s e (s.irqOwners irq).bit
    rw [hc.parent, tally_line, (eventUnbindBit_le s e d _).1]
    exact h d (hc.alive d ▸ hd)
  idle h _ d hd := tally_line.mpr (h d hd)
  reset {X s irq k} h _ _ d hd := tally_line.mp (h d hd)
  unsubscribe h _ := h

/-! ## The layers -/

/-- An event with a child has no live parent. -/
def TwoLayers (s : Sys) : Prop :=
  ∀ e c i p j, (s.events e).alive → (s.observers (.event c) i).ev = some e →
    (s.observers (.event e) j).ev = some p → ¬(s.events p).alive

theorem TwoLayers.shrinks (h : TwoLayers s) (hu : Shrinks s u) : TwoLayers u :=
  fun e c i p j he hc hp hal => h e c i p j (hu.dies e he) (hu.slot _ i e hc ▸ hc)
    (hu.slot _ j p hp ▸ hp) (hu.dies p hal)

/-- The layers read which slot of an event names which event, and who is alive. -/
theorem TwoLayers.congr (h : TwoLayers s)
    (ho : ∀ c i, (s'.observers (.event c) i).ev = (s.observers (.event c) i).ev)
    (ha : ∀ e, (s'.events e).alive = (s.events e).alive) : TwoLayers s' := by
  intro e c i p j he hc hp
  rw [ha p]
  exact h e c i p j (ha e ▸ he) (ho c i ▸ hc) (ho e j ▸ hp)

theorem TwoLayers.counted (h : TwoLayers s) (hc : Counted s s' e) : TwoLayers s' :=
  h.congr (fun c i => by rw [hc.observers]) hc.alive

/-- The state of events at rest. -/
structure Tree (s : Sys) : Prop where
  lines : LinesOwned s
  born : Born s
  counts : CountsChildren [] s
  two : TwoLayers s

/-- An event with no children on its counter has none. -/
theorem Tree.childless (h : Tree s) (he : (s.events e).alive) (hc : (s.events e).childCount = 0)
    (c : EventId) (i : Nat) : (s.observers (.event c) i).ev ≠ some e := by
  intro hev
  have ht := h.counts e he
  rw [hide_nil, hc] at ht
  have hpos : 0 < 0 := ht.pos.mpr ⟨.slot (.event c) i, by
    rw [Sys.parent, (h.born.owner c i e hev).2, if_pos rfl, hev]⟩
  exact absurd hpos (lt_irrefl 0)

/-! ## One operation -/

theorem parent_none (h : (s.observers o i).ev = none) : s.parent (.slot o i) = none := by
  simp [Sys.parent, h]

/-- A new event has no children. -/
theorem CountsChildren.create (h : CountsChildren [] s) (hb : Born s) (spid : Int) :
    CountsChildren [] (eventCreate s spid true).1 := by
  have hpar : ∀ x d, (eventCreate s spid true).1.parent x = some d ↔ s.parent x = some d := by
    intro x d
    cases x with
    | line irq => simp [Sys.parent]
    | slot o i =>
      rw [Sys.parent, Sys.parent, eventCreate_observers]
      split
      · rename_i ho
        subst ho
        simp [Observer.none, hb.fresh]
      · rfl
  intro d hd
  rw [hide_nil]
  rw [eventCreate_events] at hd ⊢
  split at hd
  · rename_i hc
    rw [if_pos hc]
    refine Tally.zero fun x hx => ?_
    have hx := (hpar x d).mp hx
    cases x with
    | line irq => simp [Sys.parent] at hx
    | slot o i =>
      rw [Sys.parent] at hx
      split at hx
      · exact absurd (hb.slot o i d hx).2 (hc ▸ lt_irrefl _)
      · simp at hx
  · rename_i hc
    rw [if_neg hc]
    have ht := h d hd
    exact ht.congr fun x => hpar x d

theorem TwoLayers.create (h : TwoLayers s) (hb : Born s) (spid : Int) :
    TwoLayers (eventCreate s spid true).1 := by
  intro e c i p j he hc hp hal
  rw [eventCreate_observers] at hc hp
  split at hc
  · simp [Observer.none] at hc
  split at hp
  · simp [Observer.none] at hp
  rw [eventCreate_events] at he hal
  rw [if_neg (hb.slot _ i e hc).2.ne] at he
  rw [if_neg (hb.slot _ j p hp).2.ne] at hal
  exact h e c i p j he hc hp hal

/-- Counting bits leaves the children alone. -/
theorem CountsChildren.counted (h : CountsChildren X s) (hc : Counted s s' e)
    (hchild : ∀ d, (s'.events d).childCount = (s.events d).childCount) : CountsChildren X s' := by
  intro d hd
  rw [hc.parent, hchild]
  exact h d (hc.alive d ▸ hd)

/-- A slot moves to another bit of its event. -/
theorem rewatch_tree (h : CountsChildren [] s) (ht : TwoLayers s) (bit : Nat) :
    CountsChildren [] (rewatch s o i ev bit) ∧ TwoLayers (rewatch s o i ev bit) := by
  have hc := rewatch_counted s o i ev bit
  have hb : CountsChildren [] (eventBindBit (eventUnbindBit s ev (s.observers o i).bit) ev bit) :=
    h.counted hc fun d => by rw [eventBindBit_child, (eventUnbindBit_le s ev d _).1]
  have ht := ht.counted hc
  rw [rewatch_eq]
  generalize eventBindBit (eventUnbindBit s ev (s.observers o i).bit) ev bit = v at hb hc ht
  rw [← hc.observers]
  refine ⟨fun d hd => ?_, ht.congr (fun c j => ?_) fun d => (setObserver_counts v o i _ d).alive⟩
  · rw [parent_setObserver, (setObserver_counts v o i _ d).child]
    have hself : update v.parent (.slot o i) (if (v.observers o i).fromEvent then
        (v.observers o i).ev else none) = v.parent := update_eq_self ..
    rw [hself]
    exact hb d ((setObserver_counts v o i _ d).alive ▸ hd)
  · rw [setObserver_apply]
    split
    · rename_i hcj; rw [hcj.1, hcj.2]
    · rfl

theorem watch_child (s : Sys) (o : ObsOwner) (i : Nat) (ev d : EventId) (bit : Nat) (b : Bool) :
    ((watch s o i ev bit b).events d).childCount =
      if d = ev ∧ b then ((s.events d).childCount + 1) % 256 else (s.events d).childCount := by
  have hc := (setObserver_counts s o i ⟨some ev, bit % 256, b⟩ d).child
  rw [watch, eventBindBit_child, Sys.modEvent_apply]
  by_cases hd : d = ev
  · subst hd
    cases b <;> simp [hc]
  · simp [hd, hc]

theorem parent_watch (s : Sys) (o : ObsOwner) (i : Nat) (ev : EventId) (bit : Nat) (b : Bool) :
    (watch s o i ev bit b).parent =
      update s.parent (.slot o i) (if b then some ev else none) := by
  rw [(watch_counted s o i ev bit b).parent, parent_setObserver]

/-- A free slot is bound; the counter of a parent must not wrap. -/
theorem CountsChildren.watch {b : Bool} (h : CountsChildren [] s)
    (hfree : (s.observers o i).ev = none) (hroom : b → (s.events ev).childCount < 255)
    (bit : Nat) : CountsChildren [] (watch s o i ev bit b) := by
  intro d hd
  have ht := h d ((watch_rest s o i ev bit b).1 d ▸ hd)
  have hnone := parent_none hfree
  rw [parent_watch, watch_child]
  cases b with
  | false =>
    rw [if_neg (by simp), if_neg (by simp)]
    exact ht.skip (by simp [hnone]) (by simp)
  | true =>
    rw [if_pos rfl]
    by_cases hd : d = ev
    · subst hd
      have := hroom rfl
      rw [if_pos ⟨rfl, rfl⟩, Nat.mod_eq_of_lt (by omega)]
      exact ht.add (by simp [hnone])
    · rw [if_neg (by simp [hd])]
      exact ht.skip (by simp [hnone]) (by simpa using Ne.symm hd)

/-- An object other than an event is observed. -/
theorem TwoLayers.watch (h : TwoLayers s) (ho : o.inert) (bit : Nat) :
    TwoLayers (watch s o i ev bit false) := by
  refine h.congr (fun c j => ?_) (watch_rest s o i ev bit false).1
  rw [watch_observers, if_neg]
  rintro ⟨rfl, -⟩
  simp [ObsOwner.inert] at ho

theorem observerEmpty_dead (h : observerEmpty s o) (hi : i < maxObservers)
    (he : (s.observers o i).ev = some e) : ¬(s.events e).alive := by
  have hm := List.all_eq_true.mp h i (List.mem_range.mpr hi)
  rw [he] at hm
  simpa using hm

/-- A childless event becomes a child of an event that has no live parent. -/
theorem TwoLayers.watchEvent {child : EventId} (h : TwoLayers s) (hne : child ≠ ev)
    (hchild : (s.events child).alive → ∀ c j, (s.observers (.event c) j).ev ≠ some child)
    (hroot : ∀ j p, (s.observers (.event ev) j).ev = some p → ¬(s.events p).alive) (bit : Nat) :
    TwoLayers (L3.watch s (.event child) i ev bit true) := by
  have hal := (watch_rest s (.event child) i ev bit true).1
  have hobs := watch_observers s (.event child) i ev bit true
  intro d c j p k hd hc hp
  rw [hal] at hd ⊢
  rw [hobs] at hc hp
  -- the new slot makes `ev` a parent and `child` a child
  split at hc
  · cases hc
    rw [if_neg (by simp [Ne.symm hne])] at hp
    exact hroot k p hp
  · split at hp
    · rename_i hcase
      obtain rfl := ObsOwner.event.inj hcase.1
      exact absurd hc (hchild hd c j)
    · exact h d c j p k hd hc hp

/-- A line is bound. -/
theorem CountsChildren.bindLine {irq : Nat} (h : CountsChildren [.line irq] s)
    (bit : Nat) : CountsChildren [] (bindLine s irq ev bit) := by
  have hc := bindLine_counted s irq ev bit
  intro d hd
  have hchild : ((L3.bindLine s irq ev bit).events d).childCount = (s.events d).childCount :=
    (eventBindBit_child ..).trans (Sys.modEvent_keeps Event.childCount rfl d)
  rw [hc.parent, hchild]
  exact tally_line.mp (h d (hc.alive d ▸ hd))

/-- The bind adds a child to an event that has fewer than 255. -/
def ChildRoom (s : Sys) : EventOp → Prop
  | .bindEvent ev _ _ => (s.events ev).childCount < 255
  | _ => True

/-- Every operation keeps the layers if the counter of children does not wrap. -/
theorem Tree.step {op : EventOp} (h : Tree s) (hroom : ChildRoom s op)
    (hs : eventSystem.step s op s') : Tree s' := by
  have heff := eventSystem_effect h.lines hs
  suffices hct : CountsChildren [] s' ∧ TwoLayers s' from
    ⟨heff.linesOwned h.lines, heff.born h.born, hct.1, hct.2⟩
  have hfade : ∀ {u}, Fades u s' → CountsChildren [] u ∧ TwoLayers u →
      CountsChildren [] s' ∧ TwoLayers s' :=
    fun hf hu => ⟨hf _ countsChildren_books hu.1, hu.2.shrinks hf.shrinks⟩
  cases heff with
  | fades hf => exact hfade hf ⟨h.counts, h.two⟩
  | create => exact ⟨h.counts.create h.born _, h.two.create h.born _⟩
  | rewatch hb hi hne hf => exact hfade hf (rewatch_tree h.counts h.two _)
  | watch hb hu hlt hi hf =>
    have hsh := hu.shrinks
    have hcu := hu _ countsChildren_books h.counts
    have htu := h.two.shrinks hsh
    refine hfade hf ?_
    cases hb with
    | object ho hal hbit => exact ⟨hcu.watch hi (by simp) _, htu.watch ho _⟩
    | event hok =>
      obtain ⟨hal, -, hcal, hne, hc0, hempty⟩ := of_decide_eq_true hok
      refine ⟨hcu.watch hi (fun _ => lt_of_le_of_lt (hsh.child _) hroom) _,
        htu.watchEvent hne (fun _ c j hc => ?_) (fun j p hp hpal => ?_) _⟩
      · exact h.childless hcal hc0 c j (hsh.slot _ j _ hc ▸ hc)
      · have hp' := hsh.slot _ j p hp ▸ hp
        exact observerEmpty_dead hempty (h.born.slot _ j p hp').1 hp' (hsh.dies p hpal)
  | @line _ irq ev bit u _ hal hbit hu ho hf =>
    refine hfade hf ⟨(hu _ countsChildren_books h.counts).bindLine bit, ?_⟩
    have htu : TwoLayers (u.modIrq irq fun k => { k with bit := bit, boundEv := some ev }) :=
      (h.two.shrinks hu.shrinks).congr (fun _ _ => rfl) fun _ => rfl
    exact htu.counted (bindLine_counted u irq ev bit)
  | @subscribe ev _ hal hf =>
    have hc := eventBindBit_counted s ev 0
    have hct := h.counts.counted hc fun d => eventBindBit_child s ev d 0
    have htl := h.two.counted hc
    exact hfade hf ⟨hct, htl⟩

theorem Unbound.tree (h : Unbound s) : Tree s where
  lines irq _ := h.lines irq
  born := h.born
  counts e he := absurd he (h.dead e)
  two e _ _ _ _ he := absurd he (h.dead e)

/-- Where every observer is dead, notifying only releases: nobody is signalled. -/
theorem observerNotify_eq_clear (n : Nat)
    (h : ∀ i e, (s.observers o i).ev = some e → ¬(s.events e).alive) :
    observerNotify (n + 2) s o = observerClear (n + 2) s o := by
  rw [observerNotify, observerClear]
  refine LTS.foldlM_agree
    (I := fun u => ∀ i e, (u.observers o i).ev = some e → ¬(u.events e).alive)
    (fun {u i} hu => ?_) (fun {u i u'} hu hr j d hd hal => ?_) _ h
  · cases hev : (u.observers o i).ev with
    | none => rw [observerRelease, hev]
    | some d => simp only [hu i d hev, if_false]
  · have hsh := (observerRelease_fades (hu i) hr).shrinks
    exact hu j d (hsh.slot o j d hd ▸ hd) (hsh.dies d hal)

theorem tree_inductive : (eventSystem.restrict (fun _ => True) ChildRoom).Inductive Tree where
  init hi := Unbound.tree hi.1
  step hi hs := hi.step hs.2 hs.1

/-- Events at most 254 of whose children are bound when another one is stay in two layers: no
live event observes a live child and is observed by a live parent, and when a parent is
signalled, notifying its own observers signals nobody. -/
theorem two_layers (h : (eventSystem.restrict (fun _ => True) ChildRoom).Reachable s) :
    (∀ e, (s.events e).alive →
      ¬((∃ c i, (s.events c).alive ∧ (s.observers (.event c) i).ev = some e) ∧
        ∃ p j, (s.events p).alive ∧ (s.observers (.event e) j).ev = some p)) ∧
    ∀ n p c i, (s.events p).alive → (s.observers (.event c) i).ev = some p →
      observerNotify (n + 2) s (.event p) = observerClear (n + 2) s (.event p) := by
  have ht : Tree s := tree_inductive.reachable h
  constructor
  · rintro e he ⟨⟨c, i, -, hc⟩, p, j, hp, hpj⟩
    exact ht.two e c i p j he hc hpj hp
  · intro n p c i hp hc
    exact observerNotify_eq_clear n fun j d hd => ht.two p c i d j hp hc hd

/-! ## One child too many -/

theorem unbound_empty : Unbound Sys.empty where
  observers o i := by cases o <;> rfl
  lines _ := rfl
  subscribers := rfl
  dead _ h := by simp [Sys.empty, Event.zero] at h

/-- An object that nobody observes is observed through its first slot. -/
theorem observe_first (n bit : Nat) (b : Bool)
    (h : ∀ i, (s.observers o i).ev = none) :
    observe n s o ev bit b false = some (watch s o 0 ev bit b) := by
  have hslots : observerSlots = [0, 1, 2, 3] := rfl
  simp [observe, observerAdd, hslots, h, watch]

/-- Event 0 with `k` children, bound one after the other. -/
def brood : Nat → Sys
  | 0 => (eventCreate Sys.empty 1 true).1
  | k + 1 => watch (eventCreate (brood k) 1 true).1 (.event (k + 1)) 0 0 0 true

/-- With one child bound, the parent has no live parent. -/
theorem two_layers_pair : ((brood 1).observers (.event 1) 0).ev = some 0 ∧
    ¬∃ p j, ((brood 1).events p).alive ∧ ((brood 1).observers (.event 0) j).ev = some p := by
  let L := eventSystem.restrict (fun _ => True) ChildRoom
  have hr0 : L.Reachable (brood 0) :=
    .step (.init ⟨unbound_empty, trivial⟩) (l := .create 1) ⟨.inl ⟨0, rfl⟩, trivial⟩
  have hr1 : L.Reachable (eventCreate (brood 0) 1 true).1 :=
    hr0.step (l := .create 1) ⟨.inl ⟨0, rfl⟩, trivial⟩
  have hr2 : L.Reachable (brood 1) :=
    hr1.step (l := .bindEvent 0 1 0) ⟨.inl ⟨0, rfl⟩, show 0 < 255 by decide⟩
  exact ⟨rfl, fun hp => (two_layers hr2).1 0 rfl ⟨⟨1, 0, rfl, rfl⟩, hp⟩⟩

/-- Event 0 is made, and then `k` children that are bound to it. -/
def brooding (k : Nat) : List EventOp :=
  .create 1 :: (List.range k).flatMap fun i => [.create 1, .bindEvent 0 (i + 1) 0]

/-- With 256 children the counter of event 0 is 0 again, and event 0 becomes a child of event 257
while event 1 is still its own child. -/
theorem three_layers : ∃ s, eventSystem.Reachable s ∧
    ((s.events 1).alive ∧ (s.observers (.event 1) 0).ev = some 0) ∧ (s.events 0).alive ∧
    (s.events 257).alive ∧ (s.observers (.event 0) 0).ev = some 257 :=
  LTS.reaches (L := eventSystem) (f := eventOp 0) (fun h => .inl ⟨0, h⟩)
    (fun s => ((s.events 1).alive ∧ (s.observers (.event 1) 0).ev = some 0) ∧ (s.events 0).alive ∧
      (s.events 257).alive ∧ (s.observers (.event 0) 0).ev = some 257)
    (brooding 256 ++ [.create 1, .bindEvent 257 0 0]) unbound_empty (by decide +kernel)

end Zuzu.L3
