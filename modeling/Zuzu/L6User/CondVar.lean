import Zuzu.L6User.CondLedger
import Zuzu.L6User.Semaphore
import Zuzu.L6User.Zone

/-!
# Condition variables

`src/include/sync/cv.c` over the semaphore of `sem.c`. Every atomic operation and every kernel
call is one step, and any thread may take the next one. The zone is a lock that one thread has
or nobody, as `Zone` shows (`zone_lockStep`). `seq` is kept without its wrap; the code compares it
modulo `2 ^ 32`. What is remembered of each call is the ledger's (`CondLedger`) and steers
nothing.

**Results.** `step_ledger`: every step is an entry in the ledger, or none. With it the ledger's
invariants hold in every run.
-/
namespace Zuzu.L6User
open Zuzu.Core

/-- Where a thread stands. In `CondVarWait`: `ticketed` before `waiters` is raised,
`registered` before `ZoneExit`, `testing` before the loop test, `waiting` in `SemWait`,
`leaving` before `waiters` is lowered, `reentering` before `ZoneEnter`. In the calls: `bumped`
before `waiters` is read, `posting` with posts to begin, `posted` before a post's `Signal`. -/
inductive CondPlace
  | out
  | ticketed (ticket : Nat)
  | registered (ticket : Nat)
  | testing (ticket : Nat)
  | waiting (ticket : Nat) (p : InWait)
  | leaving
  | reentering
  | bumped (n : Nat)
  | posting (n left : Nat)
  | posted (n left : Nat)
  deriving DecidableEq

namespace CondPlace

/-- What the ledger keeps of a place. -/
def mark : CondPlace → Mark
  | out => .out
  | ticketed g => .ticketed g
  | registered g | testing g => .enrolled g
  | waiting g _ => .sleeping g
  | leaving => .leaving
  | reentering => .returning
  | bumped n => .bumped n
  | posting n left | posted n left => .posting n left

def inWait : CondPlace → Bool
  | ticketed _ | registered _ | testing _ | waiting _ _ | leaving | reentering => true
  | out | bumped _ | posting _ _ | posted _ _ => false

def asleep : CondPlace → Bool
  | waiting _ p => p.asleep
  | out | ticketed _ | registered _ | testing _ | leaving | reentering | bumped _ | posting _ _
  | posted _ _ => false

theorem sleeps_of_asleep {p : CondPlace} (h : p.mark.waits = true)
    (ha : p.inWait = true → p.asleep = true) : p.mark.sleeps = true := by
  cases p <;> simp_all [mark, inWait, asleep, Mark.waits, Mark.sleeps]

end CondPlace

/-- mirrors src/include/sync/cv.h, with the threads and what is remembered of the calls. -/
structure CondState (ι : Type) where
  seq : Nat
  waiters : Nat
  sem : Semaphore
  zone : Option ι
  place : ι → CondPlace
  calls : Nat → Call ι

/-- `run i weak` is the next atomic operation or kernel call of thread `i`; `signal i j` the
`Signal` of a post, which wakes `j` or nobody. `enter` and `exit` are the zone's users outside
the condition variable. -/
inductive CondAct (ι : Type)
  | enter (i : ι)
  | exit (i : ι)
  | wait (i : ι)
  | call (i : ι) (all : Bool)
  | run (i : ι) (weak : Bool)
  | signal (i : ι) (j : Option ι)

namespace CondState
variable {ι : Type} [Fintype ι] [DecidableEq ι]

def move (s : CondState ι) (i : ι) (p : CondPlace) : CondState ι :=
  { s with place := Function.update s.place i p }

def setLeft (s : CondState ι) (n left : Nat) : CondState ι :=
  { s with calls := Function.update s.calls n { s.calls n with left := some left } }

/-- The first operation of src/include/sync/cv.c:32-47, with the call entered in the books. -/
def bump (s : CondState ι) (i : ι) (all : Bool) : CondState ι :=
  { s with
    seq := s.seq + 1
    calls := Function.update s.calls (s.seq + 1)
      ⟨all, fun j => (s.place j).mark.waits, false, none⟩ }.move i (.bumped (s.seq + 1))

/-- mirrors src/include/sync/cv.c:24-27, from the loop test on. -/
def test (s : CondState ι) (i : ι) (ticket : Nat) : CondState ι :=
  s.move i (if s.seq % 2 ^ 32 = ticket % 2 ^ 32 then .waiting ticket (.load false) else .leaving)

/-- Thread `i` in `SemWait` has made its step; once it returns the loop tests again. -/
def waited (s : CondState ι) (i : ι) (ticket : Nat) : Semaphore × Option InWait → CondState ι
  | (sem, some p) => { s with sem := sem }.move i (.waiting ticket p)
  | (sem, none) => { s with sem := sem }.move i (.testing ticket)

/-- `ZoneEnter` and the return of `CondVarWait`. -/
def back (s : CondState ι) (i : ι) : CondState ι :=
  { s with zone := some i, calls := fun n => (s.calls n).returned i }.move i .out

/-- The rest of src/include/sync/cv.c:32-47: a signal posts once if `waiters` is positive, a
broadcast `waiters` times. -/
def count (s : CondState ι) (i : ι) (n : Nat) : CondState ι :=
  (s.setLeft n ((s.calls n).posts s.waiters)).move i (.posting n ((s.calls n).posts s.waiters))

/-- mirrors src/kernel/ipc/event.c:72-97: the bits go to one blocked thread, or stay. -/
def signal (s : CondState ι) : Option ι → Option (CondState ι)
  | some j =>
    match s.place j with
    | .waiting ticket .blocked =>
      some ({ s with sem.event := false }.move j (.waiting ticket (.load true)))
    | _ => none
  | none => if ∀ j, (s.place j).asleep = false then some { s with sem.event := true } else none

def run (s : CondState ι) (i : ι) (weak : Bool) : Option (CondState ι) :=
  match s.place i with
  | .ticketed ticket => some ({ s with waiters := s.waiters + 1 }.move i (.registered ticket))
  | .registered ticket => some ({ s with zone := none }.move i (.testing ticket))
  | .testing ticket => some (s.test i ticket)
  | .waiting ticket p => (s.sem.semWait weak p).map (s.waited i ticket)
  | .leaving => some ({ s with waiters := s.waiters - 1 }.move i .reentering)
  | .reentering => if s.zone = none then some (s.back i) else none
  | .bumped n => some (s.count i n)
  | .posting _ 0 => some (s.move i .out)
  | .posting n (left + 1) =>
    some (({ s with sem := s.sem.add }.setLeft n left).move i (.posted n left))
  | .out | .posted _ _ => none

def step (s : CondState ι) : CondAct ι → Option (CondState ι)
  | .enter i => if s.place i = .out ∧ s.zone = none then some { s with zone := some i } else none
  | .exit i => if s.place i = .out ∧ s.zone = some i then some { s with zone := none } else none
  | .wait i =>
    if s.place i = .out ∧ s.zone = some i then some (s.move i (.ticketed s.seq)) else none
  | .call i all => if s.place i = .out then some (s.bump i all) else none
  | .run i weak => s.run i weak
  | .signal i j =>
    match s.place i with
    | .posted n left => (s.move i (.posting n left)).signal j
    | _ => none

/-- mirrors src/include/sync/cv.c:11-16 -/
def init : CondState ι :=
  ⟨0, 0, .semInit 0, none, fun _ => .out, fun _ => ⟨false, fun _ => false, true, none⟩⟩

end CondState

def condSystem (ι : Type) [Fintype ι] [DecidableEq ι] : LTS (CondState ι) (CondAct ι) :=
  .ofFun (· = .init) CondState.step

namespace CondState
variable {ι : Type} [Fintype ι] [DecidableEq ι] {s s' : CondState ι} {i j : ι}

/-! ## The zone -/

theorem signal_zone {j : Option ι} (h : s.signal j = some s') : s'.zone = s.zone := by
  unfold signal at h
  split at h
  · split at h
    · cases h
      rfl
    · cases h
  · split at h
    · cases h
      rfl
    · cases h

/-- The steps of the zone are those that `Exclusive.lockStep` has for the real one. -/
theorem zone_lockStep {a : CondAct ι} (h : s.step a = some s') :
    ZoneState.LockStep s.zone s'.zone := by
  have hstay : s'.zone = s.zone → ZoneState.LockStep s.zone s'.zone := fun he => he ▸ .stay _
  cases a with
  | enter i =>
    obtain ⟨⟨-, hz⟩, rfl⟩ := by simpa [step] using h
    exact hz ▸ .take i
  | exit i =>
    obtain ⟨⟨-, hz⟩, rfl⟩ := by simpa [step] using h
    exact hz ▸ .give i
  | wait i =>
    obtain ⟨-, rfl⟩ := by simpa [step] using h
    exact hstay rfl
  | call i all =>
    obtain ⟨-, rfl⟩ := by simpa [step] using h
    exact hstay rfl
  | run i weak =>
    simp only [step, run] at h
    split at h
    case h_2 =>
      cases h
      cases hz : s.zone with
      | none => exact .stay none
      | some j => exact .give j
    case h_4 =>
      obtain ⟨⟨sem, p⟩, -, rfl⟩ := Option.map_eq_some_iff.mp h
      cases p <;> exact hstay rfl
    case h_6 =>
      split at h
      · rename_i hz
        cases h
        exact hz ▸ .take i
      · cases h
    all_goals cases h
    all_goals exact hstay rfl
  | signal i j =>
    simp only [step] at h
    split at h
    · exact hstay ((signal_zone h).trans rfl)
    · cases h

/-! ## The conditions -/

def takes (s : CondState ι) (i : ι) (weak : Bool) : Bool :=
  match s.place i with
  | .waiting _ (.cas e _ _) => s.sem.count == e && !weak
  | _ => false

def adds (s : CondState ι) (i : ι) : Bool :=
  match s.place i with
  | .posting _ (_ + 1) => true
  | _ => false

/-- A token is taken only by a thread whose ticket is as old as any in `SemWait`; `seq` does
not come round to a ticket still held; the count has room for another token. -/
def Fair (s : CondState ι) : CondAct ι → Prop
  | .run i weak =>
    (s.takes i weak = true →
      ∀ j, ∀ g ∈ (s.place i).mark.bed, ∀ h ∈ (s.place j).mark.bed, g ≤ h) ∧
      (s.adds i = true → s.sem.count.toInt < 2 ^ 31 - 1)
  | .call _ _ => ∀ j, ∀ g ∈ (s.place j).mark.ticket, (s.seq + 1) % 2 ^ 32 ≠ g % 2 ^ 32
  | _ => True

instance (s : CondState ι) (a : CondAct ι) : Decidable (Fair s a) := by
  cases a <;> unfold Fair <;> infer_instance

/-! ## Every step is an entry in the ledger, or none -/

def ledger (s : CondState ι) : Ledger ι :=
  ⟨s.seq, s.waiters, s.sem.count.toInt, fun i => (s.place i).mark, s.calls⟩

omit [Fintype ι] in
theorem ledger_move (s : CondState ι) (i : ι) (p : CondPlace) :
    (s.move i p).ledger = s.ledger.move i p.mark := by
  unfold ledger move Ledger.move
  congr 1
  exact Function.comp_update CondPlace.mark s.place i p

omit [Fintype ι] in
theorem ledger_move_same {p : CondPlace} (h : p.mark = (s.place i).mark) :
    (s.move i p).ledger = s.ledger := by
  rw [ledger_move, Ledger.move, h]
  exact congrArg (Ledger.mk _ _ _ · _) (Function.update_eq_self i s.ledger.mark)

omit [Fintype ι] in
/-- The semaphore's part: a token is taken, or the ledger sees nothing. -/
theorem semWait_ledger {g : Nat} {p : InWait} (hi : s.place i = .waiting g p) {weak : Bool}
    {r : Semaphore × Option InWait} (hr : s.sem.semWait weak p = some r)
    (hf : Fair s (.run i weak)) : (s.waited i g r).ledger = s.ledger ∨
      ∃ e, Ledger.Step s.ledger e (s.waited i g r).ledger ∧ s.ledger.Fair e := by
  have hsame : ∀ (sem : Semaphore) (q : InWait), sem.count = s.sem.count →
      (s.waited i g (sem, some q)).ledger = s.ledger := by
    intro sem q hc
    change (CondState.move { s with sem := sem } i (.waiting g q)).ledger = _
    rw [ledger_move_same (s := { s with sem := sem }) (by rw [hi]; rfl)]
    unfold ledger
    rw [hc]
  obtain ⟨sem, r⟩ := r
  obtain ⟨rfl, ⟨hp, rfl⟩, -⟩ | ⟨rfl, -, rfl, -⟩ | ⟨hp, w, rfl, rfl, rfl, rfl⟩ | ⟨-, rfl, rfl, rfl⟩ |
    ⟨-, rfl, rfl, rfl⟩ := Semaphore.semWait_cases hr
  · exact .inl (hsame _ _ rfl)
  · exact .inl (hsame _ _ rfl)
  · refine .inr ⟨.take i, ?_, fun j => ?_⟩
    · have hm : s.ledger.mark i = .sleeping g := congrArg CondPlace.mark hi
      have hstep := Ledger.Step.take hm hp
      have hl : (s.waited i g ({ s.sem with count := s.sem.count - 1 }, none)).ledger =
          { s.ledger with tokens := s.ledger.tokens - 1 }.move i (.enrolled g) := by
        refine (ledger_move _ i (.testing g)).trans ?_
        unfold ledger
        rw [show (s.sem.count - 1).toInt = s.sem.count.toInt - 1 from SemState.toInt_sub_one hp]
        rfl
      exact hl ▸ hstep
    · have htakes : s.takes i false = true := by
        unfold takes
        rw [hi]
        simp
      exact hf.1 htakes j
  · exact .inl (hsame _ _ rfl)
  · exact .inl (hsame _ _ rfl)

theorem signal_ledger {j : Option ι} (h : s.signal j = some s') : s'.ledger = s.ledger := by
  cases j with
  | some k =>
    simp only [signal] at h
    split at h
    · rename_i g hk
      cases h
      exact ledger_move_same (s := { s with sem.event := false }) (by rw [hk]; rfl)
    · cases h
  | none =>
    simp only [signal] at h
    split at h
    · cases h
      rfl
    · cases h

omit [Fintype ι] in
theorem run_ledger {weak : Bool} (h : s.run i weak = some s') (hf : Fair s (.run i weak)) :
    s'.ledger = s.ledger ∨ ∃ e, Ledger.Step s.ledger e s'.ledger ∧ s.ledger.Fair e := by
  have hmark : s.ledger.mark i = (s.place i).mark := rfl
  unfold run at h
  split at h
  case h_1 g hi =>
    cases h
    rw [hi] at hmark
    refine .inr ⟨.enrol i, ?_, trivial⟩
    rw [ledger_move]
    exact .enrol hmark
  case h_2 g hi =>
    cases h
    exact .inl (ledger_move_same (s := { s with zone := none }) (by rw [hi]; rfl))
  case h_3 g hi =>
    cases h
    rw [hi] at hmark
    unfold test
    split
    · rw [ledger_move]
      exact .inr ⟨.sleep i, .sleep hmark ‹_›, trivial⟩
    · rw [ledger_move]
      exact .inr ⟨.quit i, .quit hmark, trivial⟩
  case h_4 g p hi =>
    obtain ⟨r, hr, rfl⟩ := Option.map_eq_some_iff.mp h
    exact semWait_ledger hi hr hf
  case h_5 hi =>
    cases h
    rw [hi] at hmark
    refine .inr ⟨.resign i, ?_, trivial⟩
    rw [ledger_move]
    exact .resign hmark
  case h_6 hi =>
    split at h
    · cases h
      rw [hi] at hmark
      refine .inr ⟨.back i, ?_, trivial⟩
      unfold back
      rw [ledger_move]
      exact .back hmark
    · cases h
  case h_7 n hi =>
    cases h
    rw [hi] at hmark
    refine .inr ⟨.count i, ?_, trivial⟩
    unfold count
    rw [ledger_move]
    exact .count hmark rfl
  case h_8 n hi =>
    cases h
    rw [hi] at hmark
    refine .inr ⟨.finish i, ?_, trivial⟩
    rw [ledger_move]
    exact .finish hmark
  case h_9 n l hi =>
    cases h
    rw [hi] at hmark
    have hroom := hf.2 (by unfold adds; rw [hi])
    refine .inr ⟨.add i, ?_, trivial⟩
    rw [ledger_move]
    have hl : ({ s with sem := s.sem.add }.setLeft n l).ledger =
        { s.ledger with tokens := s.ledger.tokens + 1 }.setLeft n l := by
      unfold ledger setLeft Ledger.setLeft
      rw [show s.sem.add.count.toInt = s.sem.count.toInt + 1 from SemState.toInt_add_one hroom]
    rw [hl]
    exact .add hmark
  all_goals cases h

/-- Every fair step is a fair entry in the ledger, or none. -/
theorem step_ledger {a : CondAct ι} (h : s.step a = some s') (hf : Fair s a) :
    s'.ledger = s.ledger ∨ ∃ e, Ledger.Step s.ledger e s'.ledger ∧ s.ledger.Fair e := by
  cases a with
  | enter i =>
    obtain ⟨-, rfl⟩ := by simpa [step] using h
    exact .inl rfl
  | exit i =>
    obtain ⟨-, rfl⟩ := by simpa [step] using h
    exact .inl rfl
  | wait i =>
    obtain ⟨⟨hi, -⟩, rfl⟩ := by simpa [step] using h
    rw [ledger_move]
    exact .inr ⟨.draw i, .draw (congrArg CondPlace.mark hi), trivial⟩
  | call i all =>
    obtain ⟨hi, rfl⟩ := by simpa [step] using h
    unfold bump
    rw [ledger_move]
    exact .inr ⟨.bump i all, .bump (congrArg CondPlace.mark hi), hf⟩
  | run i weak => exact run_ledger h hf
  | signal i j =>
    simp only [step] at h
    split at h
    · rename_i n left hi
      refine .inl ((signal_ledger h).trans ?_)
      exact ledger_move_same (by rw [hi]; rfl)
    · cases h

/-! ## Runs -/

/-- Call `n` has made its posts, some thread was enrolled when it began and has not returned
(for a signal: none has), every thread in `CondVarWait` is blocked, and neither a token nor
the bit is there. -/
def Lost (s : CondState ι) (n : Nat) : Prop :=
  (s.calls n).left = some 0 ∧ (∃ i, (s.calls n).awaits i = true) ∧
    ((s.calls n).all = false → (s.calls n).answered = false) ∧
    (∀ i, (s.place i).inWait = true → (s.place i).asleep = true) ∧ s.sem.count.toInt ≤ 0 ∧
    s.sem.event = false

instance (s : CondState ι) (n : Nat) : Decidable (Lost s n) := by
  unfold Lost
  infer_instance

omit [Fintype ι] [DecidableEq ι] in
theorem Lost.ledger {n : Nat} (h : Lost s n) : s.ledger.Lost n := by
  obtain ⟨hl, hex, han, hall, ht, -⟩ := h
  refine ⟨hl, hex, han, fun i hi => ?_, ht⟩
  exact CondPlace.sleeps_of_asleep hi (hall i)

local instance : @NeZero Nat ⟨0⟩ 3 := ⟨by decide⟩

/-- The first thread has seen the count at zero and is about to block. A signal puts a token
down for it. The second thread enrols after the signal, takes the token, finds its own ticket
current, takes the bit as well and blocks; then the first one does. -/
def stolen : List (CondAct (Fin 3)) :=
  [.enter 0, .wait 0, .run 0 false, .run 0 false, .run 0 false, .run 0 false,
    .call 2 false, .run 2 false, .run 2 false, .signal 2 none, .run 2 false,
    .enter 1, .wait 1, .run 1 false, .run 1 false, .run 1 false, .run 1 false, .run 1 false,
    .run 1 false, .run 1 false, .run 1 false, .run 1 false, .run 1 false,
    .run 0 false]

end CondState

theorem condvar_stolen_token_strands :
    ∃ s, (condSystem (Fin 3)).Reachable s ∧ s.Lost 1 :=
  LTS.reaches_of_foldlM (CondState.Lost · 1) CondState.stolen rfl (by decide +kernel)

/-- No call is lost in a run that hands tokens to the oldest tickets, does not bring `seq`
round to a ticket still held and does not overflow the count. -/
theorem condvar_no_lost_call {ι : Type} [Fintype ι] [DecidableEq ι] {s : CondState ι}
    (h : ((condSystem ι).restrict (fun _ => True) CondState.Fair).Reachable s) (n : Nat) :
    ¬ s.Lost n := by
  have hind : LTS.Inductive ((condSystem ι).restrict (fun _ => True) CondState.Fair)
      fun s => s.ledger.Sound ∧ s.ledger.Owed :=
    { init := fun hi => by
        rw [hi.1]
        exact ⟨.init, .init⟩
      step := fun ⟨hs, ho⟩ hst => by
        obtain heq | ⟨e, he, hf⟩ := CondState.step_ledger hst.1 hst.2
        · rw [heq]
          exact ⟨hs, ho⟩
        · exact ⟨hs.step he hf, ho.step hs he hf⟩ }
  obtain ⟨hs, ho⟩ := hind.reachable h
  exact fun hl => ho.not_lost hs n hl.ledger

theorem condvar_no_lost_call_signal_answered :
    ∃ s : CondState (Fin 2), (s.calls 1).answered = true ∧ ¬ s.Lost 1 := by
  have hreach : ∃ s, ((condSystem (Fin 2)).restrict (fun _ => True) CondState.Fair).Reachable s ∧
      (s.calls 1).left = some 0 ∧ (s.calls 1).answered = true :=
    LTS.restrict_reaches_of_foldlM
      (fun s : CondState (Fin 2) => (s.calls 1).left = some 0 ∧ (s.calls 1).answered = true)
      [.enter 0, .wait 0, .run 0 false, .run 0 false, .run 0 false, .run 0 false, .run 0 false,
        .call 1 false, .run 1 false, .run 1 false, .signal 1 (some 0), .run 1 false,
        .run 0 false, .run 0 false, .run 0 false, .run 0 false, .run 0 false] rfl trivial
      (by decide +kernel)
  obtain ⟨s, hs, -, ha⟩ := hreach
  exact ⟨s, ha, condvar_no_lost_call hs 1⟩

end Zuzu.L6User
