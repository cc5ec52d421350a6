import Zuzu.L3Kernel.EventTree

/-!
# Which bits of an event are bound

A bit of an event is bound while an observer slot, an interrupt line or a
memory-pressure subscription targets it, and a user may not signal a bound bit
(`svc_signal.c:28`). The event keeps the bound bits in `bound_mask` and, per bit,
a 16-bit count of the bindings that stops at 65535 (`event.c:125-140`). While no
bind finds the count at 65535 it is the number of bindings, and the mask is
exact. Once it is stuck, releasing 65535 of 65536 bindings clears the bit of the
one that is left.

**Results.** `mask_exact`: in runs whose binds find the count below 65535, a bit is
in the mask exactly when something is bound to it. `mask_lost`: 65536 bindings
and 65535 releases leave a binding whose bit is not in the mask.
-/
namespace Zuzu.L3
open Function Zuzu.Core

variable {s s' u : Sys} {X : List Site} {o : ObsOwner} {i : Nat} {e : EventId}
variable {bit b k : Nat} {ev : EventId} {x : Site}

/-- Bindings of bit `b` of an event that are no sites: subscriptions are to bit 0. -/
def Sys.subs (s : Sys) (e : EventId) (b : Nat) : Nat :=
  if b = 0 then s.subscribers.count e else 0

/-- The count of bit `b` is the number of bindings, and the mask says whether there are any. -/
structure BitCounted (X : List Site) (s : Sys) (e : EventId) (b : Nat) : Prop where
  refs : ∃ n, Tally (hide X s.site) (e, b) n ∧ (s.events e).boundRefs b = n + s.subs e b
  mask : (s.events e).boundMask.getLsbD b = true ↔ (s.events e).boundRefs b ≠ 0

/-- Every bit of every live event is counted. -/
def CountsBits (X : List Site) (s : Sys) : Prop :=
  ∀ e, (s.events e).alive → ∀ b < 31, BitCounted X s e b

/-! ## Binding and unbinding a bit -/

theorem getLsbD_one_shl (hb : b < 31) :
    (1#32 <<< bit).getLsbD b = decide (b = bit) := by
  rw [BitVec.getLsbD_shiftLeft]
  by_cases h : b = bit
  · subst h
    simp
    omega
  · by_cases hlt : b < bit
    · simp [hlt, h]
    · have hne : b - bit ≠ 0 := by omega
      simp [hne, h]

/-- A bit whose count is not zero is unbound once. -/
theorem eventUnbindBit_bits (hb : b < 31) (d : EventId)
    (h0 : (s.events e).boundRefs bit ≠ 0) (h31 : bit < 31) :
    ((eventUnbindBit s e bit).events d).boundRefs b =
      (if d = e ∧ b = bit then (s.events d).boundRefs b - 1 else (s.events d).boundRefs b) ∧
    ((eventUnbindBit s e bit).events d).boundMask.getLsbD b =
      (if d = e ∧ b = bit then (s.events d).boundMask.getLsbD b &&
        decide ((s.events d).boundRefs b - 1 ≠ 0) else (s.events d).boundMask.getLsbD b) := by
  unfold eventUnbindBit
  rw [if_neg (by omega), Sys.modEvent_apply]
  by_cases hd : d = e
  · subst hd
    by_cases hbit : b = bit
    · subst hbit
      by_cases h1 : (s.events d).boundRefs b - 1 = 0 <;> simp [h1]
    · refine ⟨by simp [hbit], ?_⟩
      have hbb : ¬(d = d ∧ b = bit) := fun h => hbit h.2
      rw [if_pos rfl, if_neg hbb]
      split
      · have hlt : b < 32 := by omega
        rw [BitVec.getLsbD_and, BitVec.getLsbD_not, getLsbD_one_shl hb]
        simp [hbit, hlt]
      · rfl
  · simp [hd]

/-- A bit whose count is not stuck is bound once more. -/
theorem eventBindBit_bits (hb : b < 31) (d : EventId) (h31 : bit < 31)
    (hroom : (s.events e).boundRefs bit < 65535) :
    ((eventBindBit s e bit).events d).boundRefs b =
      (if d = e ∧ b = bit then (s.events d).boundRefs b + 1 else (s.events d).boundRefs b) ∧
    ((eventBindBit s e bit).events d).boundMask.getLsbD b =
      ((s.events d).boundMask.getLsbD b || decide (d = e ∧ b = bit)) := by
  unfold eventBindBit
  rw [if_neg (by omega), Sys.modEvent_apply]
  by_cases hd : d = e
  · subst hd
    rw [if_pos rfl]
    rw [if_pos hroom, BitVec.getLsbD_or, getLsbD_one_shl hb]
    by_cases hbit : b = bit
    · subst hbit; simp
    · simp [hbit]
  · simp [hd]

/-- Life, counts and mask are as before. -/
structure SameBits (k k' : Event) : Prop where
  alive : k'.alive = k.alive
  refs : k'.boundRefs = k.boundRefs
  mask : k'.boundMask = k.boundMask

theorem SameCounts.bits {k k' : Event} (h : SameCounts k k') : SameBits k k' :=
  ⟨h.alive, h.refs, h.mask⟩

/-- Binding a bit reads and writes counts and mask only. -/
theorem eventBindBit_congr (h : ∀ d, SameBits (s.events d) (s'.events d)) (e : EventId)
    (bit : Nat) (d : EventId) :
    SameBits ((eventBindBit s e bit).events d) ((eventBindBit s' e bit).events d) := by
  unfold eventBindBit
  split
  · exact h d
  · rw [Sys.modEvent_apply, Sys.modEvent_apply]
    split
    · obtain ⟨h1, h2, h3⟩ := h e
      exact ⟨h1, by dsimp only; rw [h2], by dsimp only; rw [h3]⟩
    · exact h d

/-- Only what is bound and counted matters. -/
theorem BitCounted.congr (h : BitCounted X s e b) (hsite : s'.site = s.site)
    (hsub : s'.subscribers = s.subscribers)
    (hr : (s'.events e).boundRefs b = (s.events e).boundRefs b)
    (hm : (s'.events e).boundMask.getLsbD b = (s.events e).boundMask.getLsbD b) :
    BitCounted X s' e b := by
  obtain ⟨⟨n, hn, hrefs⟩, hmask⟩ := h
  refine ⟨⟨n, by rwa [hsite], ?_⟩, by rw [hm, hr]; exact hmask⟩
  rw [hr, hrefs, Sys.subs, Sys.subs, hsub]

/-- A binding is taken off the books: its count goes down by one. -/
theorem CountsBits.unbind (h : CountsBits X s) (hx : x ∉ X)
    (hsite : s.site x = some (e, bit)) : CountsBits (x :: X) (eventUnbindBit s e bit) := by
  have hc := eventUnbindBit_counted s e bit
  have hv : hide X s.site x = some (e, bit) := (hide_of_notMem hx).trans hsite
  intro d hd b hb
  obtain ⟨⟨n, hn, hrefs⟩, hmask⟩ := h d (hc.alive d ▸ hd) b hb
  have hsubs : (eventUnbindBit s e bit).subs d b = s.subs d b := by
    rw [Sys.subs, Sys.subs, hc.subscribers]
  rw [← hc.site] at hn hv
  by_cases hk : d = e ∧ b = bit
  · obtain ⟨rfl, rfl⟩ := hk
    have hpos : 0 < n := hn.pos.mpr ⟨x, hv⟩
    have h0 : (s.events d).boundRefs b ≠ 0 := by omega
    obtain ⟨h1, h2⟩ := eventUnbindBit_bits hb d h0 hb
    refine ⟨⟨n - 1, ?_, ?_⟩, ?_⟩
    · rw [hide_cons]; exact hn.drop hv (by simp)
    · rw [h1, if_pos ⟨rfl, rfl⟩, hsubs]; omega
    · rw [h1, h2, if_pos ⟨rfl, rfl⟩, if_pos ⟨rfl, rfl⟩]
      simp [hmask.mpr h0]
  · have hne : some (e, bit) ≠ some (d, b) := fun h => hk (by
      obtain ⟨h1, h2⟩ := Prod.mk.inj (Option.some.inj h)
      exact ⟨h1.symm, h2.symm⟩)
    have hskip : Tally (hide (x :: X) (eventUnbindBit s e bit).site) (d, b) n := by
      rw [hide_cons]
      exact hn.skip (by rw [hv]; exact hne) (by simp)
    have hsame : ((eventUnbindBit s e bit).events d).boundRefs b = (s.events d).boundRefs b ∧
        ((eventUnbindBit s e bit).events d).boundMask.getLsbD b =
          (s.events d).boundMask.getLsbD b := by
      by_cases hcase : bit ≥ 31 ∨ (s.events e).boundRefs bit = 0
      · rw [eventUnbindBit, if_pos hcase]; exact ⟨rfl, rfl⟩
      · obtain ⟨h1, h2⟩ := eventUnbindBit_bits hb d (fun h => hcase (Or.inr h))
          (Nat.lt_of_not_le fun h => hcase (Or.inl h))
        rw [if_neg hk] at h1 h2
        exact ⟨h1, h2⟩
    refine ⟨⟨n, hskip, ?_⟩, ?_⟩
    · rw [hsame.1, hrefs, hsubs]
    · rw [hsame.1, hsame.2]; exact hmask

/-- A site off the books is erased. -/
theorem CountsBits.erase (h : CountsBits (x :: X) s) (hx : x ∉ X)
    (hsite : s'.site = update s.site x none)
    (hev : ∀ d, SameCounts (s.events d) (s'.events d)) (hsub : s'.subscribers = s.subscribers) :
    CountsBits X s' := by
  intro d hd b hb
  obtain ⟨⟨n, hn, hrefs⟩, hmask⟩ := h d ((hev d).alive ▸ hd) b hb
  refine ⟨⟨n, ?_, ?_⟩, ?_⟩
  · rw [hsite, hide_cons_update hx]
    exact hn.skip (by simp [hide]) (by simp)
  · rw [(hev d).refs, hrefs, Sys.subs, Sys.subs, hsub]
  · rw [(hev d).refs, (hev d).mask]; exact hmask

/-- A site that is bound to nothing may go off the books. -/
theorem CountsBits.hideFree (h : CountsBits X s) (hx : s.site x = none) :
    CountsBits (x :: X) s := by
  intro d hd b hb
  obtain ⟨⟨n, hn, hrefs⟩, hmask⟩ := h d hd b hb
  refine ⟨⟨n, ?_, hrefs⟩, hmask⟩
  rw [hide_cons]
  refine hn.skip ?_ (by simp)
  rw [hide]
  split <;> simp [hx]

/-- A site off the books is bound. -/
theorem CountsBits.bind (h : CountsBits (x :: X) s)
    (hx : x ∉ X) (hbit : bit < 31) (hroom : (s.events ev).boundRefs bit < 65535)
    (hsite : s'.site = update s.site x (some (ev, bit)))
    (hev : ∀ d, SameBits ((eventBindBit s ev bit).events d) (s'.events d))
    (hsub : s'.subscribers = s.subscribers) : CountsBits X s' := by
  intro d hd b hb
  have hal : (s.events d).alive :=
    (eventBindBit_counted s ev bit).alive d ▸ (hev d).alive ▸ hd
  obtain ⟨⟨n, hn, hrefs⟩, hmask⟩ := h d hal b hb
  obtain ⟨h1, h2⟩ := eventBindBit_bits hb d hbit hroom
  have hfree : hide (x :: X) s.site x ≠ some (d, b) := by simp [hide]
  have hsubs : s'.subs d b = s.subs d b := by rw [Sys.subs, Sys.subs, hsub]
  rw [← (hev d).refs] at h1
  rw [← (hev d).mask] at h2
  by_cases hk : d = ev ∧ b = bit
  · rw [if_pos hk] at h1
    obtain ⟨rfl, rfl⟩ := hk
    refine ⟨⟨n + 1, ?_, by rw [h1, hsubs]; omega⟩, by simp [h1, h2]⟩
    rw [hsite, hide_cons_update hx]
    exact hn.add hfree
  · rw [if_neg hk] at h1
    refine ⟨⟨n, ?_, by rw [h1, hsubs]; exact hrefs⟩, ?_⟩
    · rw [hsite, hide_cons_update hx]
      refine hn.skip hfree fun h => hk ?_
      obtain ⟨h1, h2⟩ := Prod.mk.inj (Option.some.inj h)
      exact ⟨h1.symm, h2.symm⟩
    · rw [h1, h2]
      simpa [hk] using hmask

theorem site_slot (h : (s.observers o i).ev = some e) :
    s.site (.slot o i) = some (e, (s.observers o i).bit) := by rw [Sys.site, h]; rfl

theorem site_bound : (∃ x, s.site x = some (e, b)) ↔
    (∃ o i, (s.observers o i).ev = some e ∧ (s.observers o i).bit = b) ∨
    ∃ irq, (s.irqOwners irq).boundEv = some e ∧ (s.irqOwners irq).bit = b := by
  constructor
  · rintro ⟨x, hx⟩
    cases x with
    | slot o i =>
      obtain ⟨d, hd, hk⟩ := Option.map_eq_some_iff.mp hx
      obtain ⟨rfl, rfl⟩ := Prod.mk.inj hk
      exact Or.inl ⟨o, i, hd, rfl⟩
    | line irq =>
      obtain ⟨d, hd, hk⟩ := Option.map_eq_some_iff.mp hx
      obtain ⟨rfl, rfl⟩ := Prod.mk.inj hk
      exact Or.inr ⟨irq, hd, rfl⟩
  · rintro (⟨o, i, hd, rfl⟩ | ⟨irq, hd, rfl⟩)
    · exact ⟨.slot o i, site_slot hd⟩
    · exact ⟨.line irq, by rw [Sys.site, hd]; rfl⟩

theorem eventDropChild_counts (s : Sys) (e d : EventId) (b : Bool) :
    ((eventDropChild s e b).events d).boundRefs = (s.events d).boundRefs ∧
      ((eventDropChild s e b).events d).boundMask = (s.events d).boundMask := by
  unfold eventDropChild
  split
  · exact ⟨Sys.modEvent_keeps Event.boundRefs rfl d, Sys.modEvent_keeps Event.boundMask rfl d⟩
  · exact ⟨rfl, rfl⟩

theorem countsBits_books : Books CountsBits where
  same {X s s'} h hs e he b hb := by
    have hev := hs.event e
    exact (h e (hev.alive ▸ he) b hb).congr hs.site hs.subscribers (by rw [hev.refs])
      (by rw [hev.mask])
  shut {X s} e h d hd b hb := by
    have hsite : (s.modEvent e fun k => { k with alive := false }).site = s.site := by
      funext x
      cases x <;> simp only [Sys.site, observers_modEvent (e := e) (s := s)
        (f := fun k => { k with alive := false }) rfl] <;> rfl
    exact (h d (shut_dies s e d hd) b hb).congr hsite rfl
      (by rw [Sys.modEvent_keeps Event.boundRefs rfl])
      (by rw [Sys.modEvent_keeps Event.boundMask rfl])
  unbind {X s o i e} h hx he d hd b hb := by
    have hc := eventDropChild_counted (eventUnbindBit s e (s.observers o i).bit) e
      (s.observers o i).fromEvent
    obtain ⟨h1, h2⟩ := eventDropChild_counts (eventUnbindBit s e (s.observers o i).bit) e d
      (s.observers o i).fromEvent
    exact (h.unbind hx (site_slot he) d (hc.alive d ▸ hd) b hb).congr hc.site hc.subscribers
      (by rw [h1]) (by rw [h2])
  clear {X s o i} h hx :=
    h.erase hx (site_setObserver s o i .none) (setObserver_counts s o i .none)
      (setObserver_rest s o i .none).2.1
  unline {X s irq e} h hx he := h.unbind hx (by rw [Sys.site, he]; rfl)
  idle {X s irq} h he := h.hideFree (by rw [Sys.site, he]; rfl)
  reset {X s irq k} h hx hk := by
    refine h.erase hx ?_ (fun d => .refl _) rfl
    rw [site_modIrq, hk]
    rfl
  unsubscribe {X s e} h hdead d hd b hb := by
    obtain ⟨⟨n, hn, hrefs⟩, hmask⟩ := h d hd b hb
    refine ⟨⟨n, hn, hrefs.trans ?_⟩, hmask⟩
    have hne : d ≠ e := fun h => hdead (h ▸ hd)
    rw [Sys.subs, Sys.subs]
    split
    · rw [List.count_erase_of_ne hne]
    · rfl

/-! ## One operation -/

/-- The event and bit an operation binds. -/
def EventOp.target : EventOp → Option (EventId × Nat)
  | .bind _ ev bit _ => some (ev, bit)
  | .bindEvent ev _ bit => some (ev, bit)
  | .bindIrq _ _ ev bit => some (ev, bit)
  | .subscribe ev _ => some (ev, 0)
  | _ => none

/-- The count of the bit that is bound is not stuck. -/
def BitRoom (s : Sys) (op : EventOp) : Prop :=
  ∀ e b, op.target = some (e, b) → (s.events e).boundRefs b < 65535

/-- A new event has no bits bound. -/
theorem CountsBits.create (h : CountsBits [] s) (hb : Born s) (spid : Int) :
    CountsBits [] (eventCreate s spid true).1 := by
  have hsite : ∀ x k, (eventCreate s spid true).1.site x = some k ↔ s.site x = some k := by
    intro x k
    cases x with
    | line irq => rfl
    | slot o i =>
      rw [Sys.site, Sys.site, eventCreate_observers]
      split
      · rename_i ho
        subst ho
        simp [Observer.none, hb.fresh]
      · rfl
  intro d hd b hb31
  by_cases hnew : d = s.newEvent
  · -- nothing names an event that did not exist
    have hnone : Tally (hide [] (eventCreate s spid true).1.site) (d, b) 0 := by
      rw [hide_nil]
      refine Tally.zero fun x hx => ?_
      rcases site_bound.mp ⟨x, (hsite x (d, b)).mp hx⟩ with ⟨o, i, he, -⟩ | ⟨irq, he, -⟩
      · exact absurd (hb.slot o i d he).2 (hnew ▸ lt_irrefl _)
      · exact absurd (hb.line irq d he) (hnew ▸ lt_irrefl _)
    have hsub : (eventCreate s spid true).1.subs d b = 0 := by
      rw [Sys.subs]
      split
      · refine List.count_eq_zero.mpr fun hm => ?_
        exact absurd (hb.sub d hm) (hnew ▸ lt_irrefl _)
      · rfl
    refine ⟨⟨0, hnone, ?_⟩, ?_⟩ <;> rw [eventCreate_events, if_pos hnew]
    · rw [hsub]
    · simp
  · have hev := eventCreate_events s spid d
    rw [if_neg hnew] at hev
    obtain ⟨⟨n, hn, hrefs⟩, hmask⟩ := h d (hev ▸ hd) b hb31
    refine ⟨⟨n, ?_, by rw [hev]; exact hrefs⟩, by rw [hev]; exact hmask⟩
    rw [hide_nil]
    exact hn.congr fun x => hsite x (d, b)

theorem Binder.target {op : EventOp} {b : Bool}
    (h : Binder s op o ev bit b) : op.target = some (ev, bit) ∧ bit < 31 := by
  cases h with
  | object _ _ hbit => exact ⟨rfl, hbit⟩
  | event hok => exact ⟨rfl, (of_decide_eq_true hok).2.1⟩

theorem mod_256 (h : bit < 31) : bit % 256 = bit := Nat.mod_eq_of_lt (by omega)

/-- A free slot is bound. -/
theorem CountsBits.watch (h : CountsBits [] s) (hbit : bit < 31)
    (hfree : (s.observers o i).ev = none) (hroom : (s.events ev).boundRefs bit < 65535)
    (b : Bool) : CountsBits [] (watch s o i ev bit b) := by
  have hnone : s.site (.slot o i) = none := by rw [Sys.site, hfree]; rfl
  refine (h.hideFree hnone).bind List.not_mem_nil hbit hroom ?_
    (eventBindBit_congr (fun d => ?_) ev bit) (watch_rest s o i ev bit b).2.2.1
  · rw [(watch_counted s o i ev bit b).site, site_setObserver, mod_256 hbit]
    rfl
  · have hset := (setObserver_counts s o i ⟨some ev, bit % 256, b⟩ d).bits
    rw [Sys.modEvent_apply]
    split
    · rename_i hd; subst hd; exact ⟨hset.alive, hset.refs, hset.mask⟩
    · exact hset

/-- A slot moves to another bit of its event. -/
theorem CountsBits.rewatch (h : CountsBits [] s) (hbit : bit < 31)
    (hev : (s.observers o i).ev = some ev) (hroom : (s.events ev).boundRefs bit < 65535) :
    CountsBits [] (rewatch s o i ev bit) := by
  have hu := h.unbind List.not_mem_nil (site_slot hev)
  have hc := rewatch_counted s o i ev bit
  have hcu := eventUnbindBit_counted s ev (s.observers o i).bit
  have hroom' := lt_of_le_of_lt
    ((eventUnbindBit_le s ev ev (s.observers o i).bit).2 bit) hroom
  rw [rewatch_eq]
  refine hu.bind List.not_mem_nil hbit hroom' ?_ (fun d => ?_) ?_
  · rw [site_setObserver, hc.site, hcu.site, mod_256 hbit, hev]
    rfl
  · exact (setObserver_counts _ o i _ d).bits
  · rw [(setObserver_rest _ o i _).2.1, hc.subscribers, hcu.subscribers]

/-- A line is bound. -/
theorem CountsBits.bindLine {irq : Nat}
    (h : CountsBits [.line irq] s) (hbit : bit < 31)
    (hroom : (s.events ev).boundRefs bit < 65535) : CountsBits [] (bindLine s irq ev bit) := by
  have hc := bindLine_counted s irq ev bit
  refine h.bind List.not_mem_nil hbit hroom ?_ (eventBindBit_congr (fun d => ?_) ev bit)
    hc.subscribers
  · rw [hc.site, site_modIrq]
    rfl
  · rw [Sys.modEvent_apply]
    split
    · rename_i hd; subst hd; exact ⟨rfl, rfl, rfl⟩
    · exact ⟨rfl, rfl, rfl⟩

/-- A subscription binds bit 0. -/
theorem CountsBits.enlist (h : CountsBits [] s)
    (hroom : (s.events ev).boundRefs 0 < 65535) : CountsBits [] (enlist s ev) := by
  have hc := eventBindBit_counted s ev 0
  intro d hd b hb
  obtain ⟨⟨n, hn, hrefs⟩, hmask⟩ := h d (hc.alive d ▸ hd) b hb
  obtain ⟨h1, h2⟩ := eventBindBit_bits hb d (by omega) hroom
  have hsite : (L3.enlist s ev).site = s.site := hc.site
  have hsub : (L3.enlist s ev).subscribers = s.subscribers ++ [ev] :=
    congrArg (· ++ [ev]) hc.subscribers
  have hcount : (L3.enlist s ev).subs d b = s.subs d b + if d = ev ∧ b = 0 then 1 else 0 := by
    rw [Sys.subs, Sys.subs, hsub, List.count_append, List.count_singleton]
    by_cases hb0 : b = 0
    · by_cases hd : d = ev
      · simp [hb0, hd]
      · simp [hb0, hd, Ne.symm hd]
    · simp [hb0]
  refine ⟨⟨n, hsite ▸ hn, h1.trans ?_⟩, ?_⟩
  · rw [hcount]
    split <;> omega
  · change ((eventBindBit s ev 0).events d).boundMask.getLsbD b = true ↔
      ((eventBindBit s ev 0).events d).boundRefs b ≠ 0
    rw [h1, h2]
    by_cases hk : d = ev ∧ b = 0
    · simp [hk]
    · simpa [hk] using hmask

/-- Lines, bindings and counts at rest. -/
structure Bits (s : Sys) : Prop where
  lines : LinesOwned s
  born : Born s
  counts : CountsBits [] s

theorem Unbound.bits (h : Unbound s) : Bits s where
  lines irq _ := h.lines irq
  born := h.born
  counts e he := absurd he (h.dead e)

/-- Every operation keeps the counts if none of them is stuck. -/
theorem Bits.step {op : EventOp} (h : Bits s) (hroom : BitRoom s op)
    (hs : eventSystem.step s op s') : Bits s' := by
  have heff := eventSystem_effect h.lines hs
  refine ⟨heff.linesOwned h.lines, heff.born h.born, ?_⟩
  cases heff with
  | fades hf => exact hf _ countsBits_books h.counts
  | create => exact h.counts.create h.born _
  | rewatch hb hi hne hf =>
    obtain ⟨ht, hbit⟩ := hb.target
    exact hf _ countsBits_books (h.counts.rewatch hbit hi (hroom _ _ ht))
  | watch hb hu hlt hi hf =>
    obtain ⟨ht, hbit⟩ := hb.target
    have hcu := hu _ countsBits_books h.counts
    exact hf _ countsBits_books (hcu.watch hbit hi
      (lt_of_le_of_lt (hu.shrinks.refs _ _) (hroom _ _ ht)) _)
  | line hal hbit hu ho hf =>
    have hcu := hu _ countsBits_books h.counts
    exact hf _ countsBits_books (hcu.bindLine hbit
      (lt_of_le_of_lt (hu.shrinks.refs _ _) (hroom _ _ rfl)))
  | subscribe hal hf => exact hf _ countsBits_books (h.counts.enlist (hroom _ _ rfl))

theorem bits_inductive : (eventSystem.restrict (fun _ => True) BitRoom).Inductive Bits where
  init hi := Unbound.bits hi.1
  step hi hs := hi.step hs.2 hs.1

/-- Some binding that is in place targets bit `b` of `e`. -/
def Sys.Bound (s : Sys) (e : EventId) (b : Nat) : Prop :=
  (∃ o i, (s.observers o i).ev = some e ∧ (s.observers o i).bit = b) ∨
  (∃ irq, (s.irqOwners irq).boundEv = some e ∧ (s.irqOwners irq).bit = b) ∨
  b = 0 ∧ e ∈ s.subscribers

/-- A counted bit is in the mask exactly when it is bound. -/
theorem BitCounted.bound (h : BitCounted [] s e b) :
    (s.events e).boundMask.getLsbD b = true ↔ s.Bound e b := by
  obtain ⟨⟨n, hn, hrefs⟩, hmask⟩ := h
  rw [hide_nil] at hn
  have hsubs : 0 < s.subs e b ↔ b = 0 ∧ e ∈ s.subscribers := by
    rw [Sys.subs]
    split
    · rename_i hb; simp [hb, List.count_pos_iff]
    · rename_i hb; simp [hb]
  rw [hmask, hrefs, Sys.Bound, ← or_assoc, ← site_bound, ← hn.pos, ← hsubs]
  omega

/-- Bits of which none is the flag of `EVENT_WAIT_ALL` meet a mask in one of the lower 31. -/
theorem and_ne_zero_iff {bits mask : EventWord} (h : bits &&& eventWaitAll = 0#32) :
    bits &&& mask ≠ 0#32 ↔ ∃ b < 31, bits.getLsbD b = true ∧ mask.getLsbD b = true := by
  have h31 : bits.getLsbD 31 = false := by
    have := congrArg (fun w : EventWord => w.getLsbD 31) h
    simpa [eventWaitAll] using this
  constructor
  · intro hne
    by_contra hall
    refine hne (BitVec.eq_of_getLsbD_eq fun b hb => ?_)
    rw [BitVec.getLsbD_and, BitVec.getLsbD_zero]
    by_cases hb31 : b < 31
    · by_contra hbit
      simp only [Bool.not_eq_false, Bool.and_eq_true] at hbit
      exact hall ⟨b, hb31, hbit⟩
    · have hb : b = 31 := by omega
      rw [hb, h31, Bool.false_and]
  · rintro ⟨b, -, h1, h2⟩ h0
    have := congrArg (fun w : EventWord => w.getLsbD b) h0
    simp [h1, h2] at this

/-- As long as no count is stuck, the mask of a live event has exactly the bits that something is
bound to; so `Signal`, which refuses bits of the mask, refuses exactly the bound ones. -/
theorem mask_exact (h : (eventSystem.restrict (fun _ => True) BitRoom).Reachable s)
    (he : (s.events e).alive) :
    (∀ b < 31, (s.events e).boundMask.getLsbD b = true ↔ s.Bound e b) ∧
    ∀ bits : EventWord, bits &&& eventWaitAll = 0#32 →
      (bits &&& (s.events e).boundMask ≠ 0#32 ↔
        ∃ b < 31, bits.getLsbD b = true ∧ s.Bound e b) := by
  have hb : Bits s := bits_inductive.reachable h
  have hmask : ∀ b < 31, (s.events e).boundMask.getLsbD b = true ↔ s.Bound e b :=
    fun b hlt => (hb.counts e he b hlt).bound
  refine ⟨hmask, fun bits hbits => ?_⟩
  rw [and_ne_zero_iff hbits]
  exact exists_congr fun b => and_congr_right fun hlt => by rw [hmask b hlt]

/-! ## A count that is stuck -/

/-- 65536 ports and nothing bound. -/
def harbour : Sys :=
  { Sys.empty with
    ports := fun _ => ⟨1, 1, true, observerInit, none, false⟩
    newPort := 65536 }

theorem harbour_unbound : Unbound harbour where
  observers o i := by cases o <;> rfl
  lines _ := rfl
  subscribers := rfl
  dead _ h := by simp [harbour, Sys.empty, Event.zero] at h

/-- Event 0 observes the first `k` ports, with bit 0. -/
def crowd : Nat → Sys
  | 0 => (eventCreate harbour 1 true).1
  | k + 1 => watch (crowd k) (.port k) 0 0 0 false

/-- Ports `j` to `k` are bound to bit 0 of event 0, which counts `n` of them. -/
structure Crowd (j k n : Nat) (s : Sys) : Prop where
  alive : (s.events 0).alive
  refs : (s.events 0).boundRefs 0 = n
  count : (s.events 0).refCount = k - j + 1
  mask : n = 0 → (s.events 0).boundMask.getLsbD 0 = false
  bound : ∀ p : Nat, j ≤ p → p < k → s.observers (.port p) 0 = ⟨some 0, 0, false⟩
  free : ∀ p i : Nat, p < j ∨ k ≤ p ∨ i ≠ 0 → (s.observers (.port p) i).ev = none

theorem watch_port (s : Sys) (p : PortId) : (watch s (.port p) 0 0 0 false).events 0 =
    { s.events 0 with
      refCount := (s.events 0).refCount + 1
      boundRefs := if (s.events 0).boundRefs 0 < 65535 then
        update (s.events 0).boundRefs 0 ((s.events 0).boundRefs 0 + 1)
        else (s.events 0).boundRefs
      boundMask := (s.events 0).boundMask ||| 1#32 <<< 0 } := by
  simp [watch, eventBindBit, Sys.setObserver]

theorem Crowd.join (h : Crowd 0 k (min k 65535) s) :
    Crowd 0 (k + 1) (min (k + 1) 65535) (watch s (.port k) 0 0 0 false) where
  alive := (watch_rest s (.port k) 0 0 0 false).1 0 ▸ h.alive
  refs := by
    rw [watch_port]
    dsimp only
    split
    · rw [update_self, h.refs]; rw [h.refs] at *; omega
    · rw [h.refs] at *; omega
  count := by rw [watch_port]; dsimp only; rw [h.count]; omega
  mask h0 := by omega
  bound p hj hk := by
    rw [watch_observers]
    split
    · rfl
    · rename_i hne
      exact h.bound p hj (by have : p ≠ k := fun hp => hne ⟨hp ▸ rfl, rfl⟩; omega)
  free p i hp := by
    rw [watch_observers, if_neg]
    · exact h.free p i (by omega)
    · rintro ⟨hpk, rfl⟩
      have hpk : p = k := ObsOwner.port.inj hpk
      omega

/-- A port that is bound to bit 0 of event 0 gives the binding up. -/
def unwatch (s : Sys) (p : PortId) : Sys :=
  (eventDropRef (eventUnbindBit s 0 0) 0).setObserver (.port p) 0 .none

theorem unwatch_event (p : PortId) (h : (s.events 0).boundRefs 0 ≠ 0) :
    (unwatch s p).events 0 =
    { s.events 0 with
      refCount := (s.events 0).refCount - 1
      boundRefs := update (s.events 0).boundRefs 0 ((s.events 0).boundRefs 0 - 1)
      boundMask := if (s.events 0).boundRefs 0 - 1 = 0 then
        (s.events 0).boundMask &&& ~~~(1#32 <<< 0) else (s.events 0).boundMask } := by
  simp [unwatch, eventUnbindBit, eventDropRef, Sys.setObserver, h]

theorem unwatch_observers (s : Sys) (p : PortId) (o : ObsOwner) (i : Nat) :
    (unwatch s p).observers o i = if o = .port p ∧ i = 0 then .none else s.observers o i := by
  have hd : (eventDropRef (eventUnbindBit s 0 0) 0).observers = s.observers :=
    (observers_modEvent rfl).trans (eventUnbindBit_counted s 0 0).observers
  rw [unwatch, setObserver_apply, hd]

theorem observerClear_port {j n p : Nat} (h : Crowd j k n s) (hn : n ≠ 0) (hj : j ≤ p)
    (hk : p < k) : observerClear 3 s (.port p) = some (unwatch s p) := by
  have hslots : observerSlots = [0, 1, 2, 3] := rfl
  have hrel : observerRelease 2 s (.port p) 0 = some (unwatch s p) := by
    have hev := unwatch_event p (s := s) (by rw [h.refs]; exact hn)
    have hcount : ((eventDropRef (eventUnbindBit s 0 0) 0).events 0).refCount > 0 := by
      change ((unwatch s p).events 0).refCount > 0
      rw [hev]
      dsimp only
      rw [h.count]
      omega
    rw [observerRelease, h.bound p hj hk]
    simp only [(eventUnbindBit_counted s 0 0).observers, h.bound p hj hk, eventDropChild,
      Bool.false_eq_true, if_false, eventUnref, hcount, if_true]
    rfl
  have hnext : ∀ i, i ≠ 0 → observerRelease 2 (unwatch s p) (.port p) i = some (unwatch s p) := by
    intro i hi
    rw [observerRelease, unwatch_observers, if_neg (by simp [hi]), h.free p i (by omega)]
  rw [observerClear, hslots]
  simp [hrel, hnext]

theorem Crowd.leave {j n : Nat} (h : Crowd j k (n + 1) s) (hj : j < k) :
    Crowd (j + 1) k n (unwatch s j) := by
  have hev := unwatch_event j (s := s) (by rw [h.refs]; omega)
  exact {
    alive := by rw [hev]; exact h.alive
    refs := by rw [hev]; simp [h.refs]
    count := by rw [hev]; dsimp only; rw [h.count]; omega
    mask := fun h0 => by
      rw [hev]
      simp [h.refs, h0]
    bound := fun p hjp hpk => by
      rw [unwatch_observers, if_neg]
      · exact h.bound p (by omega) hpk
      · rintro ⟨hp, -⟩
        have hp : p = j := ObsOwner.port.inj hp
        omega
    free := fun p i hp => by
      rw [unwatch_observers]
      split
      · rfl
      · rename_i hne
        have hor : p ≠ j ∨ i ≠ 0 := by
          by_contra hc
          push Not at hc
          exact hne ⟨hc.1 ▸ rfl, hc.2⟩
        exact h.free p i (by omega) }

theorem crowd_reachable : ∀ k, Crowd 0 k (min k 65535) (crowd k) ∧
    eventSystem.Reachable (crowd k)
  | 0 => ⟨⟨rfl, rfl, rfl, fun _ => rfl, fun p _ hp => absurd hp (Nat.not_lt_zero p),
      fun _ _ _ => rfl⟩,
      (LTS.Reachable.init harbour_unbound).step (l := .create 1) (Or.inl ⟨0, rfl⟩)⟩
  | k + 1 => by
    obtain ⟨h, hr⟩ := crowd_reachable k
    refine ⟨h.join, hr.step (l := .bind (.port k) 0 0 false) (Or.inl ⟨0, ?_⟩)⟩
    rw [eventOp, if_pos ⟨h.alive, by decide, rfl⟩]
    exact observe_first 0 0 false fun i => h.free k i (by omega)

/-- Ports leave the crowd one after the other. -/
theorem Crowd.thin : ∀ {j n m : Nat} {s : Sys}, Crowd j k (n + m) s → j + m ≤ k →
    eventSystem.Reachable s → ∃ s', Crowd (j + m) k n s' ∧ eventSystem.Reachable s'
  | j, n, 0, s, h, _, hr => ⟨s, h, hr⟩
  | j, n, m + 1, s, h, hle, hr => by
    have hs : eventSystem.step s (.clear (.port j)) (unwatch s j) := by
      refine Or.inl ⟨3, ?_⟩
      have hport : (ObsOwner.port j).inert = true := rfl
      rw [eventOp, if_pos hport]
      exact observerClear_port h (by omega) le_rfl (by omega)
    have hl : Crowd (j + 1) k (n + m) (unwatch s j) := Crowd.leave h (by omega)
    obtain ⟨s', h', hr'⟩ := Crowd.thin hl (by omega) (hr.step hs)
    exact ⟨s', by rwa [Nat.add_right_comm, Nat.add_assoc] at h', hr'⟩

/-- 65536 ports are observed with bit 0 of event 0 and 65535 of them let go: the last one is still
bound, and the bit is not in the mask. -/
theorem mask_lost : ∃ s, eventSystem.Reachable s ∧ (s.events 0).alive ∧
    s.observers (.port 65535) 0 = ⟨some 0, 0, false⟩ ∧
    (s.events 0).boundMask.getLsbD 0 = false := by
  obtain ⟨h, hr⟩ := crowd_reachable 65536
  have hmin : min 65536 65535 = 0 + 65535 := by decide
  rw [hmin] at h
  obtain ⟨s, hs, hr'⟩ := h.thin (by omega) hr
  exact ⟨s, hr', hs.alive, hs.bound 65535 (by omega) (by omega), hs.mask rfl⟩

/-- With one port bound, bit 0 is in the mask because of it. -/
theorem mask_exact_one : ((crowd 1).events 0).boundMask.getLsbD 0 = true ↔ (crowd 1).Bound 0 0 := by
  have h0 := (crowd_reachable 0).1
  have hinit : (eventSystem.restrict (fun _ => True) BitRoom).init harbour :=
    ⟨harbour_unbound, trivial⟩
  have hr0 : (eventSystem.restrict (fun _ => True) BitRoom).Reachable (crowd 0) :=
    (LTS.Reachable.init hinit).step (l := .create 1)
      ⟨Or.inl ⟨0, rfl⟩, fun _ _ h => absurd h (by simp [EventOp.target])⟩
  have hstep : eventSystem.step (crowd 0) (.bind (.port 0) 0 0 false) (crowd 1) := by
    refine Or.inl ⟨0, ?_⟩
    rw [eventOp, if_pos ⟨h0.alive, by decide, rfl⟩]
    exact observe_first 0 0 false fun i => h0.free 0 i (by omega)
  have hroom : BitRoom (crowd 0) (.bind (.port 0) 0 0 false) := by
    intro e b heb
    obtain ⟨rfl, rfl⟩ := Prod.mk.inj (Option.some.inj heb)
    rw [h0.refs]
    decide
  exact (mask_exact (hr0.step ⟨hstep, hroom⟩) (crowd_reachable 1).1.alive).1 0 (by decide)

end Zuzu.L3
