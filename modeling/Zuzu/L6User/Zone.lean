import Zuzu.Core.Crew
import Zuzu.Core.LTS
import Mathlib.Data.Fintype.Pi

/-!
# Zones

`src/include/sync/zone.c`: a lock word that is free, held, or held with waiters announced, and
an event on which those who find it taken wait. The word announces waiters conservatively: a
thread that has once waited always takes the lock with the announcement. Every atomic
operation and every kernel call is one step, and any thread may take the next one.

**Results.** `Exclusive.step`: the word is taken exactly while one thread holds the zone.
`Exclusive.lockStep`: from outside the zone is a lock. `Awaited.step`: whoever sleeps or is about
to is announced in the word, or a wake-up is under way.
-/
namespace Zuzu.L6User
open Function Zuzu.Core

/-- The values of `locked`: 0, 1 and 2. -/
inductive Locked
  | free
  | held
  | contended
  deriving DecidableEq

/-- Where a thread stands. In `ZoneEnter`: `announce` before the first exchange, `wait` before
`WaitOn`, `retake` after it, `acquired` before `owner` is set. In `ZoneExit`: `leaving` before
the exchange, `signal` before the `Signal`. -/
inductive ZonePlace
  | out
  | announce
  | wait
  | blocked
  | retake
  | acquired
  | inside
  | leaving
  | signal
  deriving DecidableEq

namespace ZonePlace

/-- Between a successful enter and its exit. -/
@[simp] def holds : ZonePlace → Bool
  | acquired | inside | leaving => true
  | out | announce | wait | blocked | retake | signal => false

@[simp] def asleep : ZonePlace → Bool
  | blocked => true
  | out | announce | wait | retake | acquired | inside | leaving | signal => false

/-- Blocked in `WaitOn` or about to call it. -/
@[simp] def waits : ZonePlace → Bool
  | wait | blocked => true
  | out | announce | retake | acquired | inside | leaving | signal => false

/-- About to signal, or woken and about to look at the word. -/
@[simp] def rouses : ZonePlace → Bool
  | retake | signal => true
  | out | announce | wait | blocked | acquired | inside | leaving => false

@[simp] def runs : ZonePlace → Bool
  | announce | wait | retake | acquired | leaving | signal => true
  | out | blocked | inside => false

theorem runs_of_rouses {p : ZonePlace} (h : p.rouses = true) : p.runs = true := by
  revert h
  cases p <;> decide

end ZonePlace

/-- mirrors src/include/sync/zone.h: `locked` and `owner`, the bit of the event, and every
thread. -/
structure ZoneState (ι : Type) where
  locked : Locked
  owner : Option ι
  event : Bool
  place : ι → ZonePlace

/-- `run i` is the next atomic operation or kernel call of a thread in `ZoneEnter` or
`ZoneExit`; `signal i j` the `Signal` of an exit, which wakes `j` or nobody. -/
inductive ZoneAct (ι : Type)
  | enter (i : ι)
  | tryEnter (i : ι)
  | exit (i : ι)
  | run (i : ι)
  | signal (i : ι) (j : Option ι)

namespace ZoneState
variable {ι : Type} [Fintype ι] [DecidableEq ι]

def move (s : ZoneState ι) (i : ι) (p : ZonePlace) : ZoneState ι :=
  { s with place := Function.update s.place i p }

/-- The fast path of src/include/sync/zone.c:33-38: a failed exchange leaves the value read. -/
def zoneEnter (s : ZoneState ι) (i : ι) : ZoneState ι :=
  match s.locked with
  | .free => { s with locked := .held }.move i .acquired
  | .held => s.move i .announce
  | .contended => s.move i .wait

/-- mirrors src/include/sync/zone.c:57-64 -/
def zoneTryEnter (s : ZoneState ι) (i : ι) : ZoneState ι :=
  if s.locked = .free then { s with locked := .held }.move i .acquired else s

/-- The exchange of src/include/sync/zone.c:41, 44, with the loop test after it. -/
def takeContended (s : ZoneState ι) (i : ι) : ZoneState ι :=
  { s with locked := .contended }.move i (if s.locked = Locked.free then .acquired else .wait)

/-- mirrors src/kernel/ipc/event.c:168-186 for an infinite wait on every bit. -/
def waitOn (s : ZoneState ι) (i : ι) : ZoneState ι :=
  if s.event then { s with event := false }.move i .retake else s.move i .blocked

/-- mirrors src/kernel/ipc/event.c:72-97: the bits go to one blocked thread, or stay. -/
def signal (s : ZoneState ι) : Option ι → Option (ZoneState ι)
  | some j =>
    if (s.place j).asleep then some ({ s with event := false }.move j .retake) else none
  | none => if ∀ j, (s.place j).asleep = false then some { s with event := true } else none

/-- The exchange of src/include/sync/zone.c:53 -/
def release (s : ZoneState ι) (i : ι) : ZoneState ι :=
  { s with locked := .free }.move i (if s.locked = Locked.contended then .signal else .out)

def step (s : ZoneState ι) : ZoneAct ι → Option (ZoneState ι)
  | .enter i => if s.place i = .out then some (s.zoneEnter i) else none
  | .tryEnter i => if s.place i = .out then some (s.zoneTryEnter i) else none
  | .exit i => if s.place i = .inside then some ({ s with owner := none }.move i .leaving) else none
  | .run i =>
    match s.place i with
    | .announce | .retake => some (s.takeContended i)
    | .wait => some (s.waitOn i)
    | .acquired => some ({ s with owner := some i }.move i .inside)
    | .leaving => some (s.release i)
    | .out | .blocked | .inside | .signal => none
  | .signal i j => if s.place i = .signal then (s.move i .out).signal j else none

/-- mirrors src/include/sync/zone.c:13-22 -/
def init : ZoneState ι := ⟨.free, none, false, fun _ => .out⟩

end ZoneState

def zoneSystem (ι : Type) [Fintype ι] [DecidableEq ι] : LTS (ZoneState ι) (ZoneAct ι) :=
  .ofFun (· = .init) ZoneState.step

namespace ZoneState
variable {ι : Type} [Fintype ι] [DecidableEq ι] {s s' : ZoneState ι} {i j : ι}

theorem asleep_eq {p : ZonePlace} (h : p.asleep = true) : p = .blocked := by
  cases p <;> first | rfl | cases h

theorem step_cases {a : ZoneAct ι} (h : s.step a = some s') :
    (∃ i, s.place i = .out ∧ s' = s.zoneEnter i) ∨
      (∃ i, s.place i = .out ∧ s' = s.zoneTryEnter i) ∨
      (∃ i, s.place i = .inside ∧ s' = { s with owner := none }.move i .leaving) ∨
      (∃ i, (s.place i = .announce ∨ s.place i = .retake) ∧ s' = s.takeContended i) ∨
      (∃ i, s.place i = .wait ∧ s' = s.waitOn i) ∨
      (∃ i, s.place i = .acquired ∧ s' = { s with owner := some i }.move i .inside) ∨
      (∃ i, s.place i = .leaving ∧ s' = s.release i) ∨
      (∃ i j, s.place i = .signal ∧ (s.move i .out).signal j = some s') := by
  cases a with
  | enter i =>
    obtain ⟨hi, rfl⟩ := by simpa [step] using h
    exact .inl ⟨i, hi, rfl⟩
  | tryEnter i =>
    obtain ⟨hi, rfl⟩ := by simpa [step] using h
    exact .inr (.inl ⟨i, hi, rfl⟩)
  | exit i =>
    obtain ⟨hi, rfl⟩ := by simpa [step] using h
    exact .inr (.inr (.inl ⟨i, hi, rfl⟩))
  | run i =>
    simp only [step] at h
    cases hi : s.place i <;> simp only [hi, Option.some.injEq, reduceCtorEq] at h
    case announce => exact .inr (.inr (.inr (.inl ⟨i, .inl hi, h.symm⟩)))
    case retake => exact .inr (.inr (.inr (.inl ⟨i, .inr hi, h.symm⟩)))
    case wait => exact .inr (.inr (.inr (.inr (.inl ⟨i, hi, h.symm⟩))))
    case acquired => exact .inr (.inr (.inr (.inr (.inr (.inl ⟨i, hi, h.symm⟩)))))
    case leaving => exact .inr (.inr (.inr (.inr (.inr (.inr (.inl ⟨i, hi, h.symm⟩))))))
  | signal i j =>
    obtain ⟨hi, hs⟩ := by simpa [step] using h
    exact .inr (.inr (.inr (.inr (.inr (.inr (.inr ⟨i, j, hi, hs⟩))))))

theorem signal_cases {j : Option ι} (h : s.signal j = some s') :
    (∃ k, s.place k = .blocked ∧ s' = { s with event := false }.move k .retake) ∨
      s' = { s with event := true } := by
  cases j with
  | some k =>
    simp only [signal] at h
    split at h
    · exact .inl ⟨k, asleep_eq ‹_›, (Option.some.inj h).symm⟩
    · cases h
  | none =>
    simp only [signal] at h
    split at h
    · exact .inr (Option.some.inj h).symm
    · cases h

/-! ## One holder -/

def holders (s : ZoneState ι) : Nat := headcount s.place ZonePlace.holds

omit [Fintype ι] [DecidableEq ι] in
def taken (s : ZoneState ι) : Nat := if s.locked = .free then 0 else 1

/-- The word is taken exactly while one thread holds the zone. -/
def Exclusive (s : ZoneState ι) : Prop := s.holders = s.taken

theorem holders_update (s s' : ZoneState ι) (i : ι) (p : ZonePlace)
    (h : s'.place = update s.place i p) :
    s'.holders + (s.place i).holds.toNat = s.holders + p.holds.toNat := by
  unfold holders
  rw [h]
  exact headcount_update ..

theorem Exclusive.aside (h : Exclusive s) (hl : s'.locked = s.locked) {p : ZonePlace}
    (hp : s'.place = update s.place i p) (hh : (s.place i).holds = p.holds) :
    Exclusive s' := by
  have hc := holders_update s s' i p hp
  have htaken : s'.taken = s.taken := by rw [taken, taken, hl]
  rw [hh] at hc
  unfold Exclusive at h ⊢
  omega

theorem Exclusive.take (h : Exclusive s) (hf : s.locked = .free) (hl : s'.locked ≠ .free)
    (hp : s'.place = update s.place i .acquired) (hi : (s.place i).holds = false) :
    Exclusive s' := by
  have hc := holders_update s s' i .acquired hp
  have htaken : s'.taken = 1 := if_neg hl
  have hfree : s.taken = 0 := if_pos hf
  rw [hi] at hc
  simp only [ZonePlace.holds, Bool.toNat_false, Bool.toNat_true] at hc
  unfold Exclusive at h ⊢
  omega

theorem Exclusive.takeContended (h : Exclusive s) (hi : (s.place i).holds = false) :
    Exclusive (s.takeContended i) := by
  by_cases hf : s.locked = .free
  · exact h.take hf nofun (by rw [ZoneState.takeContended, if_pos hf]; rfl) hi
  · have hc := holders_update s (s.takeContended i) i .wait
      (by rw [ZoneState.takeContended, if_neg hf]; rfl)
    have htaken : (s.takeContended i).taken = s.taken := by
      rw [taken, taken, if_neg hf]
      rfl
    rw [hi] at hc
    simp only [ZonePlace.holds, Bool.toNat_false] at hc
    unfold Exclusive at h ⊢
    omega

theorem Exclusive.release (h : Exclusive s) (hi : s.place i = .leaving) :
    Exclusive (s.release i) := by
  have hle : s.taken ≤ 1 := by
    unfold taken
    split <;> omega
  have hc := holders_update s (s.release i) i _ rfl
  have hq : (if s.locked = .contended then ZonePlace.signal else .out).holds = false := by
    split <;> rfl
  rw [hi, hq] at hc
  have htaken : (s.release i).taken = 0 := rfl
  simp only [ZonePlace.holds, Bool.toNat_false, Bool.toNat_true] at hc
  unfold Exclusive at h ⊢
  omega

theorem Exclusive.step (h : Exclusive s) {a : ZoneAct ι} (hs : s.step a = some s') :
    Exclusive s' := by
  obtain ⟨i, hi, rfl⟩ | ⟨i, hi, rfl⟩ | ⟨i, hi, rfl⟩ | ⟨i, hi, rfl⟩ | ⟨i, hi, rfl⟩ | ⟨i, hi, rfl⟩ |
    ⟨i, hi, rfl⟩ | ⟨i, j, hi, hs⟩ := step_cases hs
  · unfold zoneEnter
    split
    · exact h.take ‹_› nofun rfl (by rw [hi]; rfl)
    · exact h.aside rfl rfl (by rw [hi]; rfl)
    · exact h.aside rfl rfl (by rw [hi]; rfl)
  · unfold zoneTryEnter
    split
    · exact h.take ‹_› nofun rfl (by rw [hi]; rfl)
    · exact h
  · exact h.aside rfl rfl (by rw [hi]; rfl)
  · exact h.takeContended (by obtain hi | hi := hi <;> rw [hi] <;> rfl)
  · unfold waitOn
    split
    · exact h.aside rfl rfl (by rw [hi]; rfl)
    · exact h.aside rfl rfl (by rw [hi]; rfl)
  · exact h.aside rfl rfl (by rw [hi]; rfl)
  · exact h.release hi
  · have hout : Exclusive (s.move i .out) := h.aside rfl rfl (by rw [hi]; rfl)
    obtain ⟨k, hk, rfl⟩ | rfl := signal_cases hs
    · exact hout.aside rfl rfl (by rw [hk]; rfl)
    · exact hout

/-! ## The zone as a lock -/

/-- A step of a lock: it is taken while nobody has it, or who has it gives it back. -/
inductive LockStep : Option ι → Option ι → Prop
  | stay (o : Option ι) : LockStep o o
  | take (i : ι) : LockStep none (some i)
  | give (i : ι) : LockStep (some i) none

def HeldBy (s : ZoneState ι) (o : Option ι) : Prop := ∀ j, (s.place j).holds = true ↔ o = some j

/-- A step is about the place of one thread; a thread that a signal wakes holds nothing. -/
theorem step_holds {a : ZoneAct ι} (hs : s.step a = some s') :
    ∃ i, ∀ j, j ≠ i → (s'.place j).holds = (s.place j).holds := by
  have hmove : ∀ {i j : ι} {p : ZonePlace}, j ≠ i → (update s.place i p j).holds =
      (s.place j).holds := fun hj => congrArg _ (update_of_ne hj _ _)
  obtain ⟨i, hi, rfl⟩ | ⟨i, hi, rfl⟩ | ⟨i, hi, rfl⟩ | ⟨i, hi, rfl⟩ | ⟨i, hi, rfl⟩ | ⟨i, hi, rfl⟩ |
    ⟨i, hi, rfl⟩ | ⟨i, k, hi, hs⟩ := step_cases hs
  · refine ⟨i, fun j hj => ?_⟩
    unfold zoneEnter
    split <;> exact hmove hj
  · refine ⟨i, fun j hj => ?_⟩
    unfold zoneTryEnter
    split
    · exact hmove hj
    · rfl
  · exact ⟨i, fun j hj => hmove hj⟩
  · exact ⟨i, fun j hj => hmove hj⟩
  · refine ⟨i, fun j hj => ?_⟩
    unfold waitOn
    split <;> exact hmove hj
  · exact ⟨i, fun j hj => hmove hj⟩
  · exact ⟨i, fun j hj => hmove hj⟩
  · obtain ⟨k, hk, rfl⟩ | rfl := signal_cases hs
    · refine ⟨i, fun j hj => ?_⟩
      by_cases h : j = k
      · subst h
        rw [show (s.move i .out).place j = s.place j from update_of_ne hj _ _] at hk
        rw [hk]
        show ZonePlace.holds (update (s.move i .out).place j .retake j) = false
        rw [update_self, ZonePlace.holds]
      · exact (congrArg ZonePlace.holds (update_of_ne h _ _)).trans (hmove hj)
    · exact ⟨i, fun j hj => hmove hj⟩

omit [DecidableEq ι] in
theorem Exclusive.heldBy (h : Exclusive s) : ∃ o, s.HeldBy o := by
  have hone : s.holders ≤ 1 := by
    rw [h, taken]
    split <;> omega
  by_cases hi : ∃ i, (s.place i).holds = true
  · obtain ⟨i, hi⟩ := hi
    exact ⟨some i, fun j => ⟨fun hj => congrArg some (headcount_le_one.mp hone i j hi hj),
      fun hj => Option.some.inj hj ▸ hi⟩⟩
  · exact ⟨none, fun j => ⟨fun hj => absurd ⟨j, hj⟩ hi, fun hj => by cases hj⟩⟩

/-- Seen from outside, the zone is a lock. -/
theorem Exclusive.lockStep (h : Exclusive s) {a : ZoneAct ι} (hs : s.step a = some s') :
    ∃ o o', s.HeldBy o ∧ s'.HeldBy o' ∧ LockStep o o' := by
  obtain ⟨o, ho⟩ := h.heldBy
  obtain ⟨o', ho'⟩ := (h.step hs).heldBy
  refine ⟨o, o', ho, ho', ?_⟩
  obtain ⟨k, hk⟩ := step_holds hs
  match o, o' with
  | none, none => exact .stay none
  | none, some i => exact .take i
  | some i, none => exact .give i
  | some i, some j =>
    by_cases hij : i = j
    · exact hij ▸ .stay _
    · -- both would have moved
      refine absurd ?_ hij
      by_cases hik : i = k
      · exact Option.some.inj ((ho j).mp ((hk j fun e => hij (hik.trans e.symm)).symm.trans
          ((ho' j).mpr rfl)))
      · exact (Option.some.inj ((ho' i).mp ((hk i hik).trans ((ho i).mpr rfl)))).symm

/-! ## No wake-up is lost -/

/-- Whoever sleeps or is about to is announced in the word, or a wake-up is under way: the
bit, a signal to come, or a woken thread about to announce itself again. -/
def Awaited (s : ZoneState ι) : Prop :=
  (∃ i, (s.place i).waits) → s.locked = .contended ∨ s.event = true ∨ ∃ i, (s.place i).rouses

omit [Fintype ι] in
theorem Awaited.aside (h : Awaited s) {p : ZonePlace}
    (hp : s'.place = update s.place i p) (hw : p.waits = true → (s.place i).waits = true)
    (hr : (s.place i).rouses = false) (he : s'.event = s.event)
    (hl : s.locked = .contended → s'.locked = .contended) : Awaited s' := by
  rintro ⟨j, hj⟩
  rw [hp] at hj
  have hwait : ∃ j, (s.place j).waits := by
    by_cases hji : j = i
    · subst hji
      rw [update_self] at hj
      exact ⟨j, hw hj⟩
    · rw [update_of_ne hji] at hj
      exact ⟨j, hj⟩
  obtain hc | hb | ⟨k, hk⟩ := h hwait
  · exact .inl (hl hc)
  · exact .inr (.inl (he ▸ hb))
  · have hki : k ≠ i := by
      rintro rfl
      rw [hr] at hk
      cases hk
    refine .inr (.inr ⟨k, ?_⟩)
    rw [hp, update_of_ne hki]
    exact hk

omit [Fintype ι] in
theorem Awaited.rouse {p : ZonePlace} (hp : s'.place = update s.place i p)
    (hr : p.rouses = true) : Awaited s' := by
  refine fun _ => .inr (.inr ⟨i, ?_⟩)
  rw [hp, update_self]
  exact hr

omit [Fintype ι] in
theorem Awaited.release (h : Awaited s) (hi : s.place i = .leaving) : Awaited (s.release i) := by
  by_cases hc : s.locked = .contended
  · -- the announced waiters are owed a signal
    exact .rouse (by rw [ZoneState.release, if_pos hc]; rfl) rfl
  · exact h.aside (p := .out) (by rw [ZoneState.release, if_neg hc]; rfl) nofun
      (by rw [hi]; rfl) rfl fun hcc => absurd hcc hc

theorem Awaited.step (h : Awaited s) {a : ZoneAct ι} (hs : s.step a = some s') : Awaited s' := by
  obtain ⟨i, hi, rfl⟩ | ⟨i, hi, rfl⟩ | ⟨i, hi, rfl⟩ | ⟨i, hi, rfl⟩ | ⟨i, hi, rfl⟩ | ⟨i, hi, rfl⟩ |
    ⟨i, hi, rfl⟩ | ⟨i, j, hi, hs⟩ := step_cases hs
  · unfold zoneEnter
    split
    · rename_i hf
      exact h.aside rfl nofun (by rw [hi]; rfl) rfl fun hc => absurd (hf.symm.trans hc) (by decide)
    · exact h.aside rfl nofun (by rw [hi]; rfl) rfl id
    · exact fun _ => .inl ‹_›
  · unfold zoneTryEnter
    split
    · rename_i hf
      exact h.aside rfl nofun (by rw [hi]; rfl) rfl fun hc => absurd (hf.symm.trans hc) (by decide)
    · exact h
  · exact h.aside rfl nofun (by rw [hi]; rfl) rfl id
  · exact fun _ => .inl rfl
  · unfold waitOn
    split
    · exact .rouse rfl rfl
    · exact h.aside rfl (fun _ => by rw [hi]; rfl) (by rw [hi]; rfl) rfl id
  · exact h.aside rfl nofun (by rw [hi]; rfl) rfl id
  · exact h.release hi
  · obtain ⟨k, hk, rfl⟩ | rfl := signal_cases hs
    · exact .rouse rfl rfl
    · exact fun _ => .inr (.inl rfl)

/-! ## Runs -/

/-- The zone is free and a thread sleeps on a clear bit, with nobody at work in the zone's
functions. -/
def Stuck (s : ZoneState ι) : Prop :=
  s.locked = .free ∧ (∃ i, s.place i = .blocked) ∧ s.event = false ∧
    ∀ i, (s.place i).runs = false

omit [Fintype ι] [DecidableEq ι] in
theorem Awaited.not_stuck (h : Awaited s) : ¬ Stuck s := by
  rintro ⟨hf, ⟨i, hi⟩, he, hrun⟩
  obtain hc | hb | ⟨k, hk⟩ := h ⟨i, by rw [hi]; rfl⟩
  · exact absurd (hf.symm.trans hc) (by decide)
  · exact absurd (he.symm.trans hb) (by decide)
  · exact absurd ((hrun k).symm.trans (ZonePlace.runs_of_rouses hk)) (by decide)

end ZoneState

/-- At most one thread holds the zone, and no sleeper is left beside a free zone. -/
theorem zone_exclusive_no_lost_wakeup {ι : Type} [Fintype ι] [DecidableEq ι] {s : ZoneState ι}
    (h : (zoneSystem ι).Reachable s) :
    (∀ i j, (s.place i).holds → (s.place j).holds → i = j) ∧ ¬ s.Stuck := by
  have hind : LTS.Inductive (zoneSystem ι) fun s => s.Exclusive ∧ s.Awaited :=
    { init := fun hi => by
        rw [show _ = ZoneState.init from hi]
        exact ⟨headcount_eq_zero.mpr fun _ => rfl, fun ⟨_, hw⟩ => nomatch hw⟩
      step := fun h hs => ⟨h.1.step hs, h.2.step hs⟩ }
  obtain ⟨hex, haw⟩ := hind.reachable h
  have hone : s.holders ≤ 1 := by
    rw [hex, ZoneState.taken]
    split <;> omega
  exact ⟨headcount_le_one.mp hone, haw.not_stuck⟩

theorem zone_exclusive_no_lost_wakeup_contended :
    ∃ s : ZoneState (Fin 2), s.place 0 = .inside ∧ s.place 1 = .blocked ∧
      (∀ i j, (s.place i).holds → (s.place j).holds → i = j) ∧ ¬ s.Stuck := by
  have hreach : ∃ s, (zoneSystem (Fin 2)).Reachable s ∧ s.place 0 = .inside ∧
      s.place 1 = .blocked :=
    LTS.reaches_of_foldlM (fun s : ZoneState (Fin 2) => s.place 0 = .inside ∧ s.place 1 = .blocked)
      [.enter 0, .run 0, .enter 1, .run 1, .run 1] rfl (by decide +kernel)
  obtain ⟨s, hs, h0, h1⟩ := hreach
  exact ⟨s, h0, h1, zone_exclusive_no_lost_wakeup hs⟩

end Zuzu.L6User
