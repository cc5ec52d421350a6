import Zuzu.Core.Crew
import Zuzu.Core.LTS
import Mathlib.Data.Fintype.Pi

/-!
# Semaphores

`src/include/sync/sem.c` over the event it creates (`src/kernel/ipc/event.c:72-186`). The
count is a counter, the event a single sticky bit: `Signal` wakes one thread blocked in
`WaitOn` or leaves the bit set, `WaitOn` takes the bit or blocks. Every atomic operation and
every kernel call is one step, and any thread may take the next one.

Two posts whose signals both find nobody blocked leave one bit between them. A thread that
saw the count at zero before the posts and has not reached `WaitOn` yet can then block with a
token left over.

**Results.** `Covered.step`: as long as no signal falls on a set bit with two threads on
their way into `WaitOn`, the tokens are covered by wake-ups under way. `Paid.step`: a
completed wait has been paid for.
-/
namespace Zuzu.L6User
open Zuzu.Core

/-- mirrors src/include/sync/sem.h: `count`, and the bit of the event. -/
structure Semaphore where
  count : BitVec 32
  event : Bool
  deriving DecidableEq

/-- Where a thread stands in `SemWait`; `woken` says that a `WaitOn` has returned. -/
inductive InWait
  | load (woken : Bool)
  | cas (expected : BitVec 32) (pos : 0 < expected.toInt) (woken : Bool)
  | wait
  | blocked
  deriving DecidableEq

namespace InWait

/-- Woken, and not yet past the check of the count. -/
@[simp] def woken : InWait → Bool
  | load w | cas _ _ w => w
  | wait | blocked => false

/-- Between the failed check and `WaitOn`. -/
@[simp] def atWait : InWait → Bool
  | wait => true
  | load _ | cas _ _ _ | blocked => false

@[simp] def asleep : InWait → Bool
  | blocked => true
  | load _ | cas _ _ _ | wait => false

/-- The loop test `expected > 0`. -/
def check (expected : BitVec 32) (woken : Bool) : InWait :=
  if h : 0 < expected.toInt then cas expected h woken else wait

end InWait

namespace Semaphore

/-- mirrors src/include/sync/sem.c:9-17 -/
def semInit (initialCount : BitVec 32) : Semaphore := ⟨initialCount, false⟩

/-- mirrors src/include/sync/sem.c:37-48. One step of a thread in `SemWait`: the semaphore
after it and where the thread stands, `none` once it has returned. The exchange may fail for
no reason (`weak`). A blocked thread takes no step of its own. -/
def semWait (s : Semaphore) (weak : Bool) : InWait → Option (Semaphore × Option InWait)
  | .load w => some (s, some (.check s.count w))
  | .cas e _ w =>
    if s.count = e ∧ weak = false then some ({ s with count := e - 1 }, none)
    else some (s, some (.check s.count w))
  | .wait =>
    if s.event then some ({ s with event := false }, some (.load true))
    else some (s, some .blocked)
  | .blocked => none

/-- The first half of `SemPost`, src/include/sync/sem.c:32 -/
def add (s : Semaphore) : Semaphore := { s with count := s.count + 1 }

/-- A thread in `SemWait` retries the exchange, misses, takes a token, takes the bit, or
blocks. -/
theorem semWait_cases {s s' : Semaphore} {weak : Bool} {p : InWait} {r : Option InWait}
    (h : s.semWait weak p = some (s', r)) :
    (s' = s ∧ (∃ hp, r = some (.cas s.count hp p.woken)) ∧ p.atWait = false ∧ p.asleep = false) ∨
      (s' = s ∧ s.count.toInt ≤ 0 ∧ r = some .wait ∧ p.atWait = false ∧ p.asleep = false) ∨
      (∃ hp w, p = .cas s.count hp w ∧ weak = false ∧ s' = { s with count := s.count - 1 } ∧
        r = none) ∨
      (s.event = true ∧ p = .wait ∧ s' = { s with event := false } ∧ r = some (.load true)) ∨
      (s.event = false ∧ p = .wait ∧ s' = s ∧ r = some .blocked) := by
  have hcheck : ∀ w, (∃ hp, InWait.check s.count w = .cas s.count hp w) ∨
      (s.count.toInt ≤ 0 ∧ InWait.check s.count w = .wait) := by
    intro w
    by_cases hp : 0 < s.count.toInt
    · exact .inl ⟨hp, dif_pos hp⟩
    · exact .inr ⟨by omega, dif_neg hp⟩
  cases p with
  | load w =>
    obtain ⟨rfl, rfl⟩ := by simpa [semWait] using h
    obtain ⟨hp, hc⟩ | ⟨hp, hc⟩ := hcheck w
    · exact .inl ⟨rfl, ⟨hp, congrArg some hc⟩, rfl, rfl⟩
    · exact .inr (.inl ⟨rfl, hp, congrArg some hc, rfl, rfl⟩)
  | cas e pos w =>
    simp only [semWait] at h
    split at h
    · rename_i he
      obtain ⟨rfl, hw⟩ := he
      obtain ⟨rfl, rfl⟩ := by simpa using h
      exact .inr (.inr (.inl ⟨pos, w, rfl, hw, rfl, rfl⟩))
    · obtain ⟨rfl, rfl⟩ := by simpa using h
      obtain ⟨hp, hc⟩ | ⟨hp, hc⟩ := hcheck w
      · exact .inl ⟨rfl, ⟨hp, congrArg some hc⟩, rfl, rfl⟩
      · exact .inr (.inl ⟨rfl, hp, congrArg some hc, rfl, rfl⟩)
  | wait =>
    simp only [semWait] at h
    split at h
    · obtain ⟨rfl, rfl⟩ := by simpa using h
      exact .inr (.inr (.inr (.inl ⟨‹_›, rfl, rfl, rfl⟩)))
    · rename_i he
      obtain ⟨rfl, rfl⟩ := by simpa using h
      exact .inr (.inr (.inr (.inr ⟨Bool.eq_false_iff.mpr he, rfl, rfl, rfl⟩)))
  | blocked => cases h

end Semaphore

/-! ## The threads -/

/-- Where a thread stands: outside, in `SemWait`, or in `SemPost` before its `Signal`. -/
inductive SemPlace
  | out
  | waiting (p : InWait)
  | posted
  deriving DecidableEq

namespace SemPlace

@[simp] def woken : SemPlace → Bool
  | waiting p => p.woken
  | out | posted => false

@[simp] def atWait : SemPlace → Bool
  | waiting p => p.atWait
  | out | posted => false

@[simp] def asleep : SemPlace → Bool
  | waiting p => p.asleep
  | out | posted => false

@[simp] def posting : SemPlace → Bool
  | posted => true
  | out | waiting _ => false

end SemPlace

/-- The semaphore, every thread, and how many waits have completed and posts begun. -/
structure SemState (ι : Type) where
  sem : Semaphore
  place : ι → SemPlace
  waits : Nat
  posts : Nat

/-- `run i weak` is the next atomic operation or kernel call of a thread in `SemWait`;
`signal i j` the `Signal` of a post, which wakes `j` or nobody. -/
inductive SemAct (ι : Type)
  | callWait (i : ι)
  | callPost (i : ι)
  | run (i : ι) (weak : Bool)
  | signal (i : ι) (j : Option ι)

namespace SemState
variable {ι : Type} [Fintype ι] [DecidableEq ι]

def move (s : SemState ι) (i : ι) (p : SemPlace) : SemState ι :=
  { s with place := Function.update s.place i p }

/-- Thread `i` in `SemWait` has made its step. -/
def waited (s : SemState ι) (i : ι) : Semaphore × Option InWait → SemState ι
  | (sem, some p) => { s with sem := sem }.move i (.waiting p)
  | (sem, none) => { s with sem := sem, waits := s.waits + 1 }.move i .out

/-- mirrors src/kernel/ipc/event.c:72-97: the bits go to one blocked thread, or stay. -/
def signal (s : SemState ι) : Option ι → Option (SemState ι)
  | some j =>
    if (s.place j).asleep then
      some ({ s with sem.event := false }.move j (.waiting (.load true)))
    else none
  | none =>
    if ∀ j, (s.place j).asleep = false then some { s with sem.event := true } else none

def step (s : SemState ι) : SemAct ι → Option (SemState ι)
  | .callWait i => if s.place i = .out then some (s.move i (.waiting (.load false))) else none
  | .callPost i =>
    if s.place i = .out then
      some ({ s with sem := s.sem.add, posts := s.posts + 1 }.move i .posted)
    else none
  | .run i weak =>
    match s.place i with
    | .waiting p => (s.sem.semWait weak p).map (s.waited i)
    | _ => none
  | .signal i j => if s.place i = .posted then (s.move i .out).signal j else none

/-- The threads outside, the count as `SemInit` set it. -/
def init (initialCount : BitVec 32) : SemState ι := ⟨.semInit initialCount, fun _ => .out, 0, 0⟩

end SemState

/-- Any number of threads on one semaphore. -/
def semSystem (ι : Type) [Fintype ι] [DecidableEq ι] (initialCount : BitVec 32) :
    LTS (SemState ι) (SemAct ι) :=
  .ofFun (· = .init initialCount) SemState.step

namespace SemState
variable {ι : Type} [Fintype ι] [DecidableEq ι] {s s' : SemState ι} {i j : ι}

/-! ## No wake-up is lost -/

/-- How many threads are blocked in `WaitOn`. -/
def sleepers (s : SemState ι) : Nat := headcount s.place SemPlace.asleep

/-- How many have failed the check and are about to call `WaitOn`. -/
def enterers (s : SemState ι) : Nat := headcount s.place SemPlace.atWait

/-- How many posts have still to signal. -/
def posters (s : SemState ι) : Nat := headcount s.place SemPlace.posting

/-- How many woken threads have still to look at the count. -/
def risers (s : SemState ι) : Nat := headcount s.place SemPlace.woken

/-- One thread has moved. -/
theorem crews (s s' : SemState ι) (i : ι) (p : SemPlace)
    (h : s'.place = Function.update s.place i p) :
    s'.sleepers + (s.place i).asleep.toNat = s.sleepers + p.asleep.toNat ∧
    s'.enterers + (s.place i).atWait.toNat = s.enterers + p.atWait.toNat ∧
    s'.posters + (s.place i).posting.toNat = s.posters + p.posting.toNat ∧
    s'.risers + (s.place i).woken.toNat = s.risers + p.woken.toNat := by
  unfold sleepers enterers posters risers
  rw [h]
  exact ⟨headcount_update .., headcount_update .., headcount_update .., headcount_update ..⟩

/-- One thread has moved between places that count alike. -/
theorem crews_same (s s' : SemState ι) (i : ι) (p : SemPlace)
    (h : s'.place = Function.update s.place i p) (ha : (s.place i).asleep = p.asleep)
    (hw : (s.place i).atWait = p.atWait) (hp : (s.place i).posting = p.posting)
    (hr : (s.place i).woken = p.woken) :
    s'.sleepers = s.sleepers ∧ s'.enterers = s.enterers ∧ s'.posters = s.posters ∧
      s'.risers = s.risers := by
  obtain ⟨h1, h2, h3, h4⟩ := crews s s' i p h
  rw [ha, hw, hp, hr] at *
  omega

theorem asleep_eq {p : SemPlace} (h : p.asleep = true) : p = .waiting .blocked := by
  cases p with
  | waiting p => cases p <;> first | rfl | cases h
  | out => cases h
  | posted => cases h

/-- No signal falls on a bit that is set while two threads are on their way into `WaitOn`. -/
def Spread (s : SemState ι) : SemAct ι → Prop
  | .signal _ _ => s.sem.event = true → s.enterers ≤ 1
  | _ => True

instance (s : SemState ι) (a : SemAct ι) : Decidable (Spread s a) := by
  cases a <;> unfold Spread <;> infer_instance

/-- A thread sleeps or is about to: the tokens are covered by the posts about to signal, the
bit and the threads already woken, or the bit is set for the one thread that will look. -/
structure Covered (s : SemState ι) : Prop where
  bit : s.sem.event = true → s.sleepers = 0
  tokens : 0 < s.sleepers + s.enterers →
    s.sem.count.toInt ≤ s.posters + s.sem.event.toNat + s.risers ∨
      s.sem.event = true ∧ s.enterers ≤ 1

theorem Covered.init (c : BitVec 32) : Covered (SemState.init c : SemState ι) := by
  have h0 : ∀ P : SemPlace → Bool, P .out = false →
      headcount (SemState.init c : SemState ι).place P = 0 :=
    fun P hP => headcount_eq_zero.mpr fun _ => hP
  refine ⟨fun _ => h0 _ rfl, fun h => ?_⟩
  rw [show sleepers _ = 0 from h0 _ rfl, show enterers _ = 0 from h0 _ rfl] at h
  omega

theorem toInt_add_one_le (c : BitVec 32) : (c + 1).toInt ≤ c.toInt + 1 := by
  have h1 : (1 : BitVec 32).toInt = 1 := by decide
  have hle := BitVec.le_toInt (x := c)
  rw [BitVec.toInt_add, h1, Int.bmod_def]
  split <;> omega

theorem toInt_add_one {c : BitVec 32} (h : c.toInt < 2 ^ 31 - 1) : (c + 1).toInt = c.toInt + 1 := by
  have h1 : (1 : BitVec 32).toInt = 1 := by decide
  have hle := BitVec.le_toInt (x := c)
  rw [BitVec.toInt_add, h1, Int.bmod_def]
  split <;> omega

theorem toInt_sub_one {c : BitVec 32} (h : 0 < c.toInt) : (c - 1).toInt = c.toInt - 1 := by
  have h1 : (1 : BitVec 32).toInt = 1 := by decide
  have hlt := BitVec.toInt_lt (x := c)
  rw [BitVec.toInt_sub, h1, Int.bmod_def]
  split <;> omega

theorem Covered.callWait (h : Covered s) (hi : s.place i = .out) :
    Covered (s.move i (.waiting (.load false))) := by
  obtain ⟨h1, h2, h3, h4⟩ := crews_same s (s.move i (.waiting (.load false))) i _ rfl
    (by rw [hi]; rfl) (by rw [hi]; rfl) (by rw [hi]; rfl) (by rw [hi]; rfl)
  refine ⟨fun hb => h1 ▸ h.bit hb, ?_⟩
  rw [h1, h2, h3, h4]
  exact h.tokens

/-- A post adds a token and a signal to come. -/
theorem Covered.callPost (h : Covered s) (hi : s.place i = .out) {s' : SemState ι}
    (hs : s' = { s with sem := s.sem.add, posts := s.posts + 1 }.move i .posted) : Covered s' := by
  obtain ⟨h1, h2, h3, h4⟩ := crews s s' i .posted (by rw [hs]; rfl)
  simp [hi] at h1 h2 h3 h4
  have hev : s'.sem.event = s.sem.event := by rw [hs]; rfl
  have hc : s'.sem.count.toInt ≤ s.sem.count.toInt + 1 := by
    rw [hs]
    exact toInt_add_one_le _
  refine ⟨fun hb => h1 ▸ h.bit (hev ▸ hb), fun hpos => ?_⟩
  obtain ht | ⟨hb, hz⟩ := h.tokens (by omega)
  · left
    rw [hev, h3, h4]
    omega
  · exact .inr ⟨hev ▸ hb, h2 ▸ hz⟩

/-- A thread in `SemWait` makes a step. -/
theorem Covered.run (h : Covered s) {p : InWait} (hi : s.place i = .waiting p) {weak : Bool}
    {r : Semaphore × Option InWait} (hr : s.sem.semWait weak p = some r) :
    Covered (s.waited i r) := by
  obtain ⟨sem, r⟩ := r
  obtain ⟨hb, ht⟩ := h
  obtain ⟨rfl, ⟨hp, rfl⟩, hw, ha⟩ | ⟨rfl, hp, rfl, hw, ha⟩ | ⟨hp, w, rfl, rfl, rfl, rfl⟩ |
    ⟨he, rfl, rfl, rfl⟩ | ⟨he, rfl, rfl, rfl⟩ := Semaphore.semWait_cases hr
  · -- the exchange is tried again
    obtain ⟨h1, h2, h3, h4⟩ := crews_same s
      (s.waited i (s.sem, some (.cas s.sem.count hp p.woken))) i _ rfl
      (by rw [hi]; exact ha) (by rw [hi]; exact hw) (by rw [hi]; rfl) (by rw [hi]; rfl)
    refine ⟨fun he => h1 ▸ hb he, ?_⟩
    rw [h1, h2, h3, h4]
    exact ht
  · -- no token: nothing has to be covered
    obtain ⟨h1, -, -, -⟩ := crews s (s.waited i (s.sem, some .wait)) i _ rfl
    rw [hi, show (SemPlace.waiting p).asleep = false from ha] at h1
    replace h1 := Nat.add_right_cancel h1
    refine ⟨fun he => h1 ▸ hb he, fun _ => .inl ?_⟩
    refine le_trans hp ?_
    omega
  · -- a token goes, and with it at most one riser
    obtain ⟨h1, h2, h3, h4⟩ := crews s (s.waited i ({ s.sem with count := s.sem.count - 1 }, none))
      i _ rfl
    simp only [hi, SemPlace.asleep, SemPlace.atWait, SemPlace.posting, SemPlace.woken,
      InWait.asleep, InWait.atWait, InWait.woken, Nat.add_right_cancel_iff,
      Bool.toNat_false, Nat.add_zero] at h1 h2 h3 h4
    have hc : (s.waited i ({ s.sem with count := s.sem.count - 1 }, none)).sem.count.toInt =
        s.sem.count.toInt - 1 := toInt_sub_one hp
    have hle := Bool.toNat_le w
    refine ⟨fun he => h1 ▸ hb he, fun hpos => ?_⟩
    rw [h1, h2] at hpos
    rw [h2, h3, hc]
    obtain ht | ht := ht hpos
    · left
      change _ ≤ ((_ : Nat) : Int) + (s.sem.event.toNat : Int) + _
      omega
    · exact .inr ht
  · -- the bit becomes a riser
    obtain ⟨h1, h2, h3, h4⟩ := crews s (s.waited i ({ s.sem with event := false }, some (.load true)))
      i _ rfl
    simp [hi] at h1 h2 h3 h4
    have hk := hb he
    refine ⟨nofun, fun hpos => ?_⟩
    left
    obtain ht | ⟨-, hz⟩ := ht (by omega)
    · change s.sem.count.toInt ≤ ((_ : Nat) : Int) + (false.toNat : Int) + _
      rw [he] at ht
      simp only [Bool.toNat_false, Bool.toNat_true] at ht ⊢
      omega
    · omega
  · -- the bit is clear: the thread sleeps
    obtain ⟨h1, h2, h3, h4⟩ := crews s (s.waited i (s.sem, some .blocked)) i _ rfl
    simp [hi] at h1 h2 h3 h4
    refine ⟨fun hbit => absurd (he.symm.trans hbit) Bool.false_ne_true, fun _ => ?_⟩
    obtain ht | ⟨hbit, -⟩ := ht (by omega)
    · left
      rw [h3, h4]
      exact ht
    · exact absurd (he.symm.trans hbit) Bool.false_ne_true

theorem signal_cases {j : Option ι} (h : s.signal j = some s') :
    (∃ k, j = some k ∧ s.place k = .waiting .blocked ∧
        s' = { s with sem.event := false }.move k (.waiting (.load true))) ∨
      (j = none ∧ (∀ k, (s.place k).asleep = false) ∧ s' = { s with sem.event := true }) := by
  cases j with
  | some k =>
    simp only [SemState.signal] at h
    split at h
    · exact .inl ⟨k, rfl, asleep_eq ‹_›, (Option.some.inj h).symm⟩
    · cases h
  | none =>
    simp only [SemState.signal] at h
    split at h
    · exact .inr ⟨rfl, ‹_›, (Option.some.inj h).symm⟩
    · cases h

/-- A post's signal becomes a riser or the bit. On a bit already set it is lost, but then at
most one thread is on its way to look. -/
theorem Covered.signal (h : Covered s) (hi : s.place i = .posted)
    (hone : s.sem.event = true → s.enterers ≤ 1) {j : Option ι}
    (hs : (s.move i .out).signal j = some s') : Covered s' := by
  obtain ⟨h1, h2, h3, h4⟩ := crews s (s.move i .out) i _ rfl
  simp [hi] at h1 h2 h3 h4
  obtain ⟨hb, ht⟩ := h
  obtain ⟨k, -, hk, hs⟩ | ⟨-, hall, rfl⟩ := signal_cases hs
  · obtain ⟨g1, g2, g3, g4⟩ := crews (s.move i .out) s' k (.waiting (.load true)) (by rw [hs]; rfl)
    simp [hk] at g1 g2 g3 g4
    have hsem : s'.sem = { s.sem with event := false } := by rw [hs]; rfl
    have he : s.sem.event = false := by
      cases he : s.sem.event with
      | false => rfl
      | true =>
        have := hb he
        omega
    rw [he] at ht
    refine ⟨fun hbit => ?_, fun _ => .inl ?_⟩
    · rw [hsem] at hbit
      cases hbit
    · obtain ht | ⟨hbit, -⟩ := ht (by omega)
      · rw [hsem]
        simp only [Bool.toNat_false] at ht ⊢
        omega
      · cases hbit
  · have hk : (s.move i .out).sleepers = 0 := headcount_eq_zero.mpr hall
    refine ⟨fun _ => hk, fun hpos => ?_⟩
    change 0 < (s.move i .out).sleepers + (s.move i .out).enterers at hpos
    change s.sem.count.toInt ≤ ((s.move i .out).posters : Int) + (true.toNat : Int) +
      (s.move i .out).risers ∨ true = true ∧ (s.move i .out).enterers ≤ 1
    cases he : s.sem.event with
    | true => exact .inr ⟨rfl, h2 ▸ hone he⟩
    | false =>
      obtain ht | ⟨hbit, -⟩ := ht (by omega)
      · rw [he] at ht
        simp only [Bool.toNat_false, Bool.toNat_true] at ht ⊢
        omega
      · exact absurd (he.symm.trans hbit) Bool.false_ne_true

/-- What one step does. -/
theorem step_cases {a : SemAct ι} (h : s.step a = some s') :
    (∃ i, a = .callWait i ∧ s.place i = .out ∧ s' = s.move i (.waiting (.load false))) ∨
      (∃ i, a = .callPost i ∧ s.place i = .out ∧
        s' = { s with sem := s.sem.add, posts := s.posts + 1 }.move i .posted) ∨
      (∃ i weak p r, a = .run i weak ∧ s.place i = .waiting p ∧ s.sem.semWait weak p = some r ∧
        s' = s.waited i r) ∨
      (∃ i j, a = .signal i j ∧ s.place i = .posted ∧ (s.move i .out).signal j = some s') := by
  cases a with
  | callWait i =>
    obtain ⟨hi, rfl⟩ := by simpa [step] using h
    exact .inl ⟨i, rfl, hi, rfl⟩
  | callPost i =>
    obtain ⟨hi, rfl⟩ := by simpa [step] using h
    exact .inr (.inl ⟨i, rfl, hi, rfl⟩)
  | run i weak =>
    simp only [step] at h
    split at h
    · rename_i p hp
      obtain ⟨r, hr, rfl⟩ := Option.map_eq_some_iff.mp h
      exact .inr (.inr (.inl ⟨i, weak, p, r, rfl, hp, hr, rfl⟩))
    · cases h
  | signal i j =>
    obtain ⟨hi, hs⟩ := by simpa [step] using h
    exact .inr (.inr (.inr ⟨i, j, rfl, hi, hs⟩))

theorem Covered.step (h : Covered s) {a : SemAct ι} (hs : s.step a = some s')
    (hok : Spread s a) : Covered s' := by
  obtain ⟨i, -, hi, rfl⟩ | ⟨i, -, hi, hs⟩ | ⟨i, weak, p, r, -, hi, hr, rfl⟩ |
    ⟨i, j, rfl, hi, hs⟩ := step_cases hs
  · exact h.callWait hi
  · exact h.callPost hi hs
  · exact h.run hi hr
  · exact h.signal hi hok hs

/-! ## Completed waits -/

/-- The count is what was put in and not taken out, and nothing is taken out that was not
there. -/
structure Paid (initialCount : BitVec 32) (s : SemState ι) : Prop where
  count : s.sem.count = BitVec.ofInt 32 (initialCount.toInt + s.posts - s.waits)
  paid : s.waits = 0 ∨ (s.waits : Int) ≤ initialCount.toInt + s.posts

variable {c : BitVec 32}

omit [Fintype ι] [DecidableEq ι] in
theorem Paid.init : Paid c (SemState.init c : SemState ι) := by
  refine ⟨?_, .inl rfl⟩
  simp [SemState.init, Semaphore.semInit]

omit [Fintype ι] [DecidableEq ι] in
/-- A thread that takes a token finds one. -/
theorem Paid.some_left (h : Paid c s) (hp : 0 < s.sem.count.toInt) :
    (s.waits : Int) + 1 ≤ c.toInt + s.posts := by
  obtain ⟨hc, hw⟩ := h
  have hlow := BitVec.le_toInt (x := c)
  rw [hc, BitVec.toInt_ofInt, Int.bmod_def] at hp
  split at hp <;> omega

theorem Paid.step (h : Paid c s) {a : SemAct ι} (hs : s.step a = some s') : Paid c s' := by
  obtain ⟨i, -, hi, rfl⟩ | ⟨i, -, hi, rfl⟩ | ⟨i, weak, p, ⟨sem, r⟩, -, hi, hr, rfl⟩ |
    ⟨i, j, rfl, hi, hs⟩ := step_cases hs
  · exact ⟨h.count, h.paid⟩
  · refine ⟨?_, ?_⟩
    · change s.sem.count + 1 = BitVec.ofInt 32 (c.toInt + (s.posts + 1 : Nat) - s.waits)
      rw [h.count, show (1 : BitVec 32) = BitVec.ofInt 32 1 from rfl, ← BitVec.ofInt_add]
      congr 1
      omega
    · change s.waits = 0 ∨ (s.waits : Int) ≤ c.toInt + (s.posts + 1 : Nat)
      have := h.paid
      omega
  · obtain ⟨rfl, ⟨hp, rfl⟩, -⟩ | ⟨rfl, -, rfl, -⟩ | ⟨hp, w, rfl, rfl, rfl, rfl⟩ |
      ⟨-, rfl, rfl, rfl⟩ | ⟨-, rfl, rfl, rfl⟩ := Semaphore.semWait_cases hr
    case inr.inr.inl =>
      refine ⟨?_, .inr (h.some_left hp)⟩
      change s.sem.count - 1 = BitVec.ofInt 32 (c.toInt + s.posts - (s.waits + 1 : Nat))
      rw [h.count, BitVec.sub_eq_add_neg, show -(1 : BitVec 32) = BitVec.ofInt 32 (-1) from rfl,
        ← BitVec.ofInt_add]
      congr 1
      omega
    all_goals exact ⟨h.count, h.paid⟩
  · obtain ⟨k, -, -, rfl⟩ | ⟨-, -, rfl⟩ := signal_cases hs
    · exact ⟨h.count, h.paid⟩
    · exact ⟨h.count, h.paid⟩

/-! ## Runs -/

/-- A thread sleeps on a clear bit although a token is there, no post is under way and no
woken thread has still to look. -/
def Stuck (s : SemState ι) : Prop :=
  0 < s.sem.count.toInt ∧ (∃ i, s.place i = .waiting .blocked) ∧ s.sem.event = false ∧
    (∀ i, s.place i ≠ .posted) ∧ ∀ i, (s.place i).woken = false

instance (s : SemState ι) : Decidable (Stuck s) := by
  unfold Stuck
  infer_instance

omit [DecidableEq ι] in
theorem Covered.not_stuck (h : Covered s) : ¬ Stuck s := by
  rintro ⟨hc, ⟨i, hi⟩, he, hp, hw⟩
  have hk : 0 < s.sleepers := headcount_pos.mpr ⟨i, by rw [hi]; rfl⟩
  have hposters : s.posters = 0 := by
    refine headcount_eq_zero.mpr fun j => ?_
    cases hj : s.place j with
    | posted => exact absurd hj (hp j)
    | out => rfl
    | waiting p => rfl
  have hrisers : s.risers = 0 := headcount_eq_zero.mpr hw
  obtain ht | ⟨hbit, -⟩ := h.tokens (by omega)
  · rw [hposters, hrisers, he, Bool.toNat_false] at ht
    omega
  · exact absurd (he.symm.trans hbit) Bool.false_ne_true

/-- Two waiters, both past the failed check, and a third thread that posts twice: the second
signal finds the bit set. One waiter takes the bit and a token, the other blocks on the token
that is left. -/
def coalesced : List (SemAct (Fin 3)) :=
  [.callWait 0, .run 0 false, .callWait 1, .run 1 false,
    .callPost 2, .signal 2 none, .callPost 2, .signal 2 none,
    .run 0 false, .run 0 false, .run 0 false, .run 1 false]

/-- With or without coalesced signals, no wait completes without a token. -/
theorem tokens_balance (h : (semSystem ι c).Reachable s) : Paid c s := by
  have hind : LTS.Inductive (semSystem ι c) (Paid c) :=
    { init := fun hi => hi ▸ .init, step := fun h hs => h.step hs }
  exact hind.reachable h

theorem tokens_balance_coalesced : ∃ s : SemState (Fin 3), s.waits = 1 ∧ Paid 0 s := by
  obtain ⟨s, hs, hw⟩ : ∃ s, (semSystem (Fin 3) 0).Reachable s ∧ s.waits = 1 :=
    LTS.reaches_of_foldlM (waits · = 1) coalesced rfl (by decide +kernel)
  exact ⟨s, hw, tokens_balance hs⟩

end SemState

/-- The token that two coalesced signals leave beside a sleeper. -/
theorem semaphore_coalesced_signals_strand :
    ∃ s, (semSystem (Fin 3) 0).Reachable s ∧ s.Stuck :=
  LTS.reaches_of_foldlM SemState.Stuck SemState.coalesced rfl (by decide +kernel)

/-- No token is left beside a sleeper nobody is about to wake, in every run whose signals are
spread, and every completed wait was paid for. -/
theorem semaphore_no_lost_wakeup {ι : Type} [Fintype ι] [DecidableEq ι] {c : BitVec 32}
    {s : SemState ι}
    (h : ((semSystem ι c).restrict (fun _ => True) SemState.Spread).Reachable s) :
    ¬ s.Stuck ∧ (s.waits = 0 ∨ (s.waits : Int) ≤ c.toInt + s.posts) := by
  have hind : LTS.Inductive ((semSystem ι c).restrict (fun _ => True) SemState.Spread)
      fun s => s.Covered ∧ s.Paid c :=
    { init := fun hi => by
        rw [hi.1]
        exact ⟨.init c, .init⟩
      step := fun h hs => ⟨h.1.step hs.1 hs.2, h.2.step hs.1⟩ }
  obtain ⟨hcov, hpaid⟩ := hind.reachable h
  exact ⟨hcov.not_stuck, hpaid.paid⟩

/-- A waiter sleeps, a post wakes it, and it takes the token. -/
theorem semaphore_no_lost_wakeup_post_wakes :
    ∃ s : SemState (Fin 2), s.waits = 1 ∧ ¬ s.Stuck ∧
      (s.waits = 0 ∨ (s.waits : Int) ≤ (0 : BitVec 32).toInt + s.posts) := by
  have hreach : ∃ s, ((semSystem (Fin 2) 0).restrict (fun _ => True) SemState.Spread).Reachable s ∧
      s.waits = 1 :=
    LTS.restrict_reaches_of_foldlM (fun s : SemState (Fin 2) => s.waits = 1)
      [.callWait 0, .run 0 false, .run 0 false, .callPost 1, .signal 1 (some 0), .run 0 false,
        .run 0 false] rfl trivial (by decide +kernel)
  obtain ⟨s, hs, hw⟩ := hreach
  exact ⟨s, hw, semaphore_no_lost_wakeup hs⟩

end Zuzu.L6User
