import Mathlib.Tactic.Linarith
import Zuzu.Core.Agenda
import Zuzu.Core.LTS
import Zuzu.L5Net.TcpPcb

/-!
# Timers (`netd/common/timer.c`)

The list of armed timers, ordered by deadlines that are compared by the sign of their
difference, and the loop that runs the callbacks of expired ones. A callback may arm and cancel
timers, so the list changes under the loop. Timers are named by `ι` (their address), and a
callback with its argument by `κ`; what it does is a list of calls.

`TimerSys` puts beside the timers what the clock cannot show: the true deadline of each armed
timer, the number of its arming, and the time that a running `TimerRunExpired` has read.

**Results.** `timers_run_in_order`: while the deadlines are less than `2 ^ 31` apart, the list has
exactly the armed timers in the order of deadline and arming, and the loop fires the first one
as long as any is due. `half_turn_is_out_of_order`: at a distance of `2 ^ 31` it does not.
`timers_not_overslept`: the main loop is back in time for the first one.
-/
namespace Zuzu.L5
open Function Zuzu.Core

variable {ι κ : Type}

/-- mirrors netd/common/timer.h:10-16 -/
structure Timer (κ : Type) where
  deadlineMs : BitVec 32
  cb : κ
  armed : Bool

/-- The timers and the list of those that are armed. -/
structure Timers (ι κ : Type) where
  list : List ι
  timer : ι → Timer κ

/-- `(int32_t)(a - b)` -/
def Timers.diff (a b : BitVec 32) : Int := (a - b).toInt

namespace Timers
variable [DecidableEq ι]

/-- `ListRemove(&t->node); t->armed = false` -/
def unlink (s : Timers ι κ) (i : ι) : Timers ι κ :=
  ⟨s.list.erase i, Function.update s.timer i { s.timer i with armed := false }⟩

/-- mirrors netd/common/timer.c:8-14 -/
def timerCancel (s : Timers ι κ) (i : ι) : Timers ι κ :=
  if ¬(s.timer i).armed then s else s.unlink i

/-- mirrors netd/common/timer.c:16-32 -/
def timerArm (s : Timers ι κ) (i : ι) (deadlineMs : BitVec 32) (cb : κ) : Timers ι κ :=
  let s := s.timerCancel i
  ⟨insertBefore (fun other => diff (s.timer other).deadlineMs deadlineMs > 0) i s.list,
    Function.update s.timer i ⟨deadlineMs, cb, true⟩⟩

/-- mirrors netd/common/timer.c:34-39 -/
def timerNextDeadline (s : Timers ι κ) : BitVec 32 :=
  match s.list with
  | [] => 0xFFFFFFFF
  | i :: _ => (s.timer i).deadlineMs

/-- The timer whose callback the loop runs next. mirrors netd/common/timer.c:44-47 -/
def expired (s : Timers ι κ) (now : BitVec 32) : Option ι :=
  match s.list with
  | [] => none
  | i :: _ => if diff now (s.timer i).deadlineMs < 0 then none else some i

end Timers

/-! ## Calls -/

/-- A call, with the true deadline in milliseconds of uptime. -/
inductive TimerCall (ι κ : Type)
  | arm (i : ι) (deadline : Nat) (cb : κ)
  | cancel (i : ι)

/-- The timers, the true deadline and the number of the latest arming of each, and the time that
the running loop has read. -/
structure TimerSys (ι κ : Type) where
  timers : Timers ι κ
  due : ι → Nat
  stamp : ι → Nat
  arms : Nat
  loop : Option Nat
  fired : List (ι × Nat)     -- what the loop has fired, with the number of the arming

namespace TimerSys
variable [DecidableEq ι]

def call (s : TimerSys ι κ) : TimerCall ι κ → TimerSys ι κ
  | .arm i deadline cb => { s with
      timers := s.timers.timerArm i (BitVec.ofNat 32 deadline) cb
      due := Function.update s.due i deadline
      stamp := Function.update s.stamp i s.arms
      arms := s.arms + 1 }
  | .cancel i => { s with timers := s.timers.timerCancel i }

/-- One round of the loop up to the callback. mirrors netd/common/timer.c:45-49 -/
def fire (s : TimerSys ι κ) (now : Nat) : Option (TimerSys ι κ) :=
  (s.timers.expired (BitVec.ofNat 32 now)).map fun i => { s with
    timers := s.timers.unlink i
    fired := s.fired ++ [(i, s.stamp i)] }

/-- The loop, when its callbacks make the calls of `scripts` one after the other; `none` if
there are more callbacks to run. mirrors netd/common/timer.c:41-52 -/
def timerRunExpired (now : Nat) : List (List (TimerCall ι κ)) → TimerSys ι κ →
    Option (TimerSys ι κ)
  | scripts, s =>
    match s.fire now, scripts with
    | none, _ => some s
    | some _, [] => none
    | some s', calls :: scripts => timerRunExpired now scripts (calls.foldl call s')

end TimerSys

/-- A step: a call, of anyone while no loop runs and of a callback while one does, and the
rounds of the loop. -/
inductive TimerStep (ι κ : Type)
  | call (c : TimerCall ι κ)
  | enter (now : Nat)
  | fire
  | leave

namespace TimerSys
variable [DecidableEq ι]

def step (s : TimerSys ι κ) : TimerStep ι κ → Option (TimerSys ι κ)
  | .call c => some (s.call c)
  | .enter now => if s.loop = none then some { s with loop := some now } else none
  | .fire => s.loop.bind s.fire
  | .leave => s.loop.bind fun now =>
    if (s.fire now).isNone then some { s with loop := none } else none

/-- No timer is armed, no loop runs. mirrors netd/common/timer.c:6 -/
structure Start (s : TimerSys ι κ) : Prop where
  list : s.timers.list = []
  armed : ∀ i, (s.timers.timer i).armed = false
  loop : s.loop = none
  fired : s.fired = []

end TimerSys

def timerSystem (ι κ : Type) [DecidableEq ι] : LTS (TimerSys ι κ) (TimerStep ι κ) :=
  LTS.ofFun TimerSys.Start TimerSys.step

/-! ## The armed timers -/

namespace Timers
variable [DecidableEq ι] {t : Timers ι κ}

/-- The list has each armed timer once; unlike the order this needs nothing of the deadlines. -/
structure Exact (t : Timers ι κ) : Prop where
  nodup : t.list.Nodup
  mem : ∀ i, i ∈ t.list ↔ (t.timer i).armed = true

theorem Exact.unlink (h : t.Exact) (i : ι) : (t.unlink i).Exact := by
  refine ⟨h.nodup.erase i, fun j => ?_⟩
  change j ∈ t.list.erase i ↔ (update t.timer i _ j).armed = true
  rw [h.nodup.mem_erase_iff, h.mem j]
  rcases eq_or_ne j i with rfl | hj
  · simp
  · simp [hj]

theorem Exact.cancel (h : t.Exact) (i : ι) : (t.timerCancel i).Exact := by
  unfold timerCancel
  split
  · exact h
  · exact h.unlink i

/-- A cancelled timer is not in the list, and all others stay. -/
theorem Exact.mem_cancel (h : t.Exact) {i j : ι} :
    j ∈ (t.timerCancel i).list ↔ j ≠ i ∧ j ∈ t.list := by
  unfold timerCancel
  split
  · rename_i hi
    refine ⟨fun hj => ⟨?_, hj⟩, And.right⟩
    rintro rfl
    exact hi ((h.mem j).mp hj)
  · exact h.nodup.mem_erase_iff

theorem Exact.not_mem_cancel (h : t.Exact) (i : ι) : i ∉ (t.timerCancel i).list :=
  fun hi => (h.mem_cancel.mp hi).1 rfl

theorem Exact.arm (h : t.Exact) (i : ι) (d : BitVec 32) (cb : κ) : (t.timerArm i d cb).Exact := by
  have hi := h.not_mem_cancel i
  refine ⟨?_, fun j => ?_⟩
  · exact (perm_insertBefore ..).nodup_iff.mpr (List.nodup_cons.mpr ⟨hi, (h.cancel i).nodup⟩)
  · have htimer : (t.timerArm i d cb).timer =
        update (t.timerCancel i).timer i ⟨d, cb, true⟩ := rfl
    rw [htimer]
    refine mem_insertBefore.trans ?_
    rw [(h.cancel i).mem j]
    rcases eq_or_ne j i with rfl | hj
    · simp
    · simp [hj]

end Timers

/-! ## The order of the list -/

/-- Less than half a turn of the clock apart. -/
def TimeNear (a b : Nat) : Prop := a < b + 2 ^ 31 ∧ b < a + 2 ^ 31

instance (a b : Nat) : Decidable (TimeNear a b) := inferInstanceAs (Decidable (_ ∧ _))

theorem TimeNear.symm {a b : Nat} (h : TimeNear a b) : TimeNear b a := ⟨h.2, h.1⟩

theorem TimeNear.diff_eq {a b : Nat} (h : TimeNear a b) :
    Timers.diff (BitVec.ofNat 32 a) (BitVec.ofNat 32 b) = a - b := by
  obtain ⟨h1, h2⟩ := h
  rw [Timers.diff, BitVec.toInt_sub, BitVec.toInt_ofNat', BitVec.toInt_ofNat', Int.bmod_sub_bmod,
    Int.sub_bmod_bmod]
  exact Int.bmod_eq_of_le (by omega) (by omega)

namespace TimerSys
variable {s s' : TimerSys ι κ}
variable {i : ι}

/-- `i` is to run before `j`: by deadline, then by arming. -/
def Before (s : TimerSys ι κ) (i j : ι) : Prop :=
  s.due i < s.due j ∨ s.due i = s.due j ∧ s.stamp i < s.stamp j

theorem Before.trans {j k : ι} (h : s.Before i j) (h' : s.Before j k) : s.Before i k := by
  unfold Before at *
  omega

theorem Before.irrefl (i : ι) : ¬s.Before i i := by
  unfold Before
  omega

/-- The list has exactly the armed timers, in order, and the deadlines that it is ordered by
are the true ones. -/
structure Ordered (s : TimerSys ι κ) : Prop where
  mem : ∀ i, i ∈ s.timers.list ↔ (s.timers.timer i).armed = true
  sorted : s.timers.list.Pairwise s.Before
  shown : ∀ i ∈ s.timers.list, (s.timers.timer i).deadlineMs = BitVec.ofNat 32 (s.due i)
  stamps : ∀ i ∈ s.timers.list, s.stamp i < s.arms
  near : ∀ i ∈ s.timers.list, ∀ j ∈ s.timers.list, TimeNear (s.due i) (s.due j)
  loop : ∀ now, s.loop = some now → ∀ i ∈ s.timers.list, TimeNear (s.due i) now

theorem Ordered.nodup (h : s.Ordered) : s.timers.list.Nodup :=
  h.sorted.imp fun {i j} hij => by
    rintro rfl
    exact Before.irrefl i hij

theorem Ordered.exact (h : s.Ordered) : s.timers.Exact := ⟨h.nodup, h.mem⟩

theorem Ordered.diff_eq (h : s.Ordered) {now : Nat} (hl : s.loop = some now)
    (hi : i ∈ s.timers.list) :
    Timers.diff (BitVec.ofNat 32 now) (s.timers.timer i).deadlineMs = now - s.due i := by
  rw [h.shown i hi, (h.loop now hl i hi).symm.diff_eq]

/-- The loop stops exactly if no armed timer is due. -/
theorem Ordered.expired_none (h : s.Ordered) {now : Nat} (hl : s.loop = some now) :
    s.timers.expired (BitVec.ofNat 32 now) = none ↔ ∀ i ∈ s.timers.list, now < s.due i := by
  have hdiff := fun i => h.diff_eq hl (i := i)
  have hsorted := h.sorted
  unfold Timers.expired
  generalize s.timers.list = list at hdiff hsorted
  cases list with
  | nil => simp
  | cons i rest =>
    have hi := hdiff i List.mem_cons_self
    simp only [hi, ite_eq_left_iff, reduceCtorEq, imp_false, not_not, List.mem_cons, forall_eq_or_imp]
    refine ⟨fun hlt => ⟨by omega, fun j hj => ?_⟩, fun hlt => by omega⟩
    have hij := (List.pairwise_cons.mp hsorted).1 j hj
    unfold Before at hij
    omega

/-- What the loop fires is due, and before all others. -/
theorem Ordered.expired_some (h : s.Ordered) {now : Nat} (hl : s.loop = some now)
    (hi : s.timers.expired (BitVec.ofNat 32 now) = some i) :
    i ∈ s.timers.list ∧ s.due i ≤ now ∧ ∀ j ∈ s.timers.list, j ≠ i → s.Before i j := by
  have hdiff := fun i => h.diff_eq hl (i := i)
  have hsorted := h.sorted
  unfold Timers.expired at hi
  generalize s.timers.list = list at hdiff hsorted hi ⊢
  cases list with
  | nil => cases hi
  | cons k rest =>
    have hk := hdiff k List.mem_cons_self
    dsimp only at hi
    split at hi
    · cases hi
    · cases hi
      refine ⟨List.mem_cons_self, by omega, fun j hj hne => ?_⟩
      exact (List.pairwise_cons.mp hsorted).1 j ((List.mem_cons.mp hj).resolve_left hne)

section Calls
variable [DecidableEq ι]

theorem Ordered.unlink (h : s.Ordered) (i : ι) (fired : List (ι × Nat)) :
    Ordered { s with timers := s.timers.unlink i, fired } where
  mem := (h.exact.unlink i).mem
  sorted := h.sorted.sublist List.erase_sublist
  shown j hj := by
    change Timer.deadlineMs (update s.timers.timer i _ j) = _
    rw [update_of_ne (h.nodup.mem_erase_iff.mp hj).1]
    exact h.shown j (List.mem_of_mem_erase hj)
  stamps j hj := h.stamps j (List.mem_of_mem_erase hj)
  near j hj k hk := h.near j (List.mem_of_mem_erase hj) k (List.mem_of_mem_erase hk)
  loop now hnow j hj := h.loop now hnow j (List.mem_of_mem_erase hj)

theorem Ordered.cancel (h : s.Ordered) (i : ι) :
    Ordered { s with timers := s.timers.timerCancel i } := by
  unfold Timers.timerCancel
  split
  · exact h
  · exact h.unlink i s.fired

/-- The other armed timers are near the new deadline, and so is the time of the loop. -/
def ArmsNear (s : TimerSys ι κ) (i : ι) (deadline : Nat) : Prop :=
  (∀ j ∈ s.timers.list, j ≠ i → TimeNear (s.due j) deadline) ∧
    ∀ now ∈ s.loop, TimeNear deadline now

theorem Ordered.arm (h : s.Ordered) {deadline : Nat} (cb : κ)
    (hn : s.ArmsNear i deadline) : (s.call (.arm i deadline cb)).Ordered := by
  have hc := h.cancel i
  have hmem : ∀ {j}, j ∈ (s.timers.timerCancel i).list ↔ j ≠ i ∧ j ∈ s.timers.list :=
    h.exact.mem_cancel
  have hnear : ∀ j ∈ (s.timers.timerCancel i).list, TimeNear (s.due j) deadline := fun j hj =>
    hn.1 j (hmem.mp hj).2 (hmem.mp hj).1
  -- the test of the loop compares true deadlines
  have htest : ∀ j ∈ (s.timers.timerCancel i).list,
      (Timers.diff ((s.timers.timerCancel i).timer j).deadlineMs (BitVec.ofNat 32 deadline) > 0 ↔
        deadline < s.due j) := by
    intro j hj
    rw [hc.shown j hj, (hnear j hj).diff_eq]
    omega
  have hother : ∀ {j}, j ∈ (s.timers.timerCancel i).list →
      (s.call (.arm i deadline cb)).due j = s.due j ∧
        (s.call (.arm i deadline cb)).stamp j = s.stamp j := fun hj =>
    ⟨update_of_ne (hmem.mp hj).1 .., update_of_ne (hmem.mp hj).1 ..⟩
  have hdue : (s.call (.arm i deadline cb)).due i = deadline := update_self ..
  have hstamp : (s.call (.arm i deadline cb)).stamp i = s.arms := update_self ..
  have htimer : (s.call (.arm i deadline cb)).timers.timer =
      update (s.timers.timerCancel i).timer i ⟨BitVec.ofNat 32 deadline, cb, true⟩ := rfl
  have hnew : ∀ {j}, j ∈ (s.call (.arm i deadline cb)).timers.list ↔
      j = i ∨ j ∈ (s.timers.timerCancel i).list := mem_insertBefore
  refine ⟨fun j => ?_, ?_, fun j hj => ?_, fun j hj => ?_, fun j hj k hk => ?_,
    fun now hnow j hj => ?_⟩
  · exact (h.exact.arm i _ cb).mem j
  · refine pairwise_insertBefore Before.trans ?_ (fun j hj hs => .inl ?_) (fun j hj hs => ?_)
    · refine hc.sorted.imp_of_mem fun {j k} hj hk hjk => ?_
      unfold Before at hjk ⊢
      rw [(hother hj).1, (hother hj).2, (hother hk).1, (hother hk).2]
      exact hjk
    · rw [hdue, (hother hj).1]
      exact (htest j hj).mp (of_decide_eq_true hs)
    · have hle := mt (htest j hj).mpr (of_decide_eq_false hs)
      have hlt : s.stamp j < s.arms := hc.stamps j hj
      unfold Before
      rw [hdue, hstamp, (hother hj).1, (hother hj).2]
      omega
  · rcases hnew.mp hj with rfl | hj
    · rw [htimer, update_self, hdue]
    · rw [htimer, update_of_ne (hmem.mp hj).1, (hother hj).1]
      exact hc.shown j hj
  · change _ < s.arms + 1
    rcases hnew.mp hj with rfl | hj
    · rw [hstamp]
      exact Nat.lt_succ_self _
    · rw [(hother hj).2]
      exact Nat.lt_succ_of_lt (hc.stamps j hj)
  · rcases hnew.mp hj with rfl | hj <;> rcases hnew.mp hk with rfl | hk
    · rw [hdue]
      exact ⟨by omega, by omega⟩
    · rw [hdue, (hother hk).1]
      exact (hnear k hk).symm
    · rw [hdue, (hother hj).1]
      exact hnear j hj
    · rw [(hother hj).1, (hother hk).1]
      exact hc.near j hj k hk
  · rcases hnew.mp hj with rfl | hj
    · rw [hdue]
      exact hn.2 now hnow
    · rw [(hother hj).1]
      exact hc.loop now hnow j hj

/-- Each arming is fired at most once. -/
structure Counted (s : TimerSys ι κ) : Prop where
  distinct : ∀ i ∈ s.timers.list, ∀ j ∈ s.timers.list, s.stamp i = s.stamp j → i = j
  past : ∀ n ∈ s.fired.map Prod.snd, n < s.arms
  armed : ∀ i ∈ s.timers.list, s.stamp i ∉ s.fired.map Prod.snd
  once : (s.fired.map Prod.snd).Nodup

omit [DecidableEq ι] in
theorem Counted.sublist (h : s.Counted)
    (hsub : ∀ i ∈ s'.timers.list, i ∈ s.timers.list) (hst : s'.stamp = s.stamp)
    (ha : s'.arms = s.arms) (hf : s'.fired = s.fired) : s'.Counted := by
  refine ⟨?_, ?_, ?_, ?_⟩
  · intro i hi j hj
    rw [hst]
    exact h.distinct i (hsub i hi) j (hsub j hj)
  · rw [hf, ha]
    exact h.past
  · intro i hi
    rw [hf, hst]
    exact h.armed i (hsub i hi)
  · rw [hf]
    exact h.once

theorem Counted.call (h : s.Counted) (ho : s.Ordered) (c : TimerCall ι κ) : (s.call c).Counted := by
  cases c with
  | cancel i => exact h.sublist (fun j hj => (ho.exact.mem_cancel.mp hj).2) rfl rfl rfl
  | arm i deadline cb =>
    have hmem : ∀ {j}, j ∈ (s.call (.arm i deadline cb)).timers.list ↔
        j = i ∨ j ≠ i ∧ j ∈ s.timers.list := by
      intro j
      rw [← ho.exact.mem_cancel]
      exact mem_insertBefore
    have hself : (s.call (.arm i deadline cb)).stamp i = s.arms := update_self ..
    have hother : ∀ {j}, j ≠ i → (s.call (.arm i deadline cb)).stamp j = s.stamp j := fun hj =>
      update_of_ne hj ..
    have hlt : ∀ j ∈ s.timers.list, s.stamp j < s.arms := ho.stamps
    refine ⟨fun j hj k hk hjk => ?_, fun n hn => Nat.lt_succ_of_lt (h.past n hn), fun j hj => ?_,
      h.once⟩
    · rcases hmem.mp hj with rfl | ⟨hne, hjs⟩ <;> rcases hmem.mp hk with rfl | ⟨hne', hks⟩
      · rfl
      · rw [hself, hother hne'] at hjk
        exact absurd hjk (hlt k hks).ne'
      · rw [hself, hother hne] at hjk
        exact absurd hjk (hlt j hjs).ne
      · rw [hother hne, hother hne'] at hjk
        exact h.distinct j hjs k hks hjk
    · rcases hmem.mp hj with rfl | ⟨hne, hj⟩
      · rw [hself]
        exact fun hn => (h.past _ hn).false
      · rw [hother hne]
        exact h.armed j hj

theorem Counted.fire (h : s.Counted) (ho : s.Ordered) (hi : i ∈ s.timers.list) :
    Counted { s with timers := s.timers.unlink i, fired := s.fired ++ [(i, s.stamp i)] } := by
  refine ⟨fun j hj k hk => ?_, fun n hn => ?_, fun j hj => ?_, ?_⟩
  · exact h.distinct j (ho.nodup.mem_erase_iff.mp hj).2 k (ho.nodup.mem_erase_iff.mp hk).2
  · rw [List.map_append, List.mem_append] at hn
    rcases hn with hn | hn
    · exact h.past n hn
    · cases List.mem_singleton.mp hn
      exact ho.stamps i hi
  · obtain ⟨hne, hj⟩ := ho.nodup.mem_erase_iff.mp hj
    rw [List.map_append, List.mem_append]
    rintro (hn | hn)
    · exact h.armed j hj hn
    · exact hne (h.distinct j hj i hi (List.mem_singleton.mp hn))
  · rw [List.map_append]
    exact h.once.append (List.nodup_singleton _) (List.disjoint_singleton.mpr (h.armed i hi))

/-! ## Runs -/

/-- New deadlines are near those of the armed timers, and all are near the time that the loop
reads. -/
def Within (s : TimerSys ι κ) : TimerStep ι κ → Prop
  | .call (.arm i deadline _) => s.ArmsNear i deadline
  | .enter now => ∀ i ∈ s.timers.list, TimeNear (s.due i) now
  | _ => True

theorem step_inv {l : TimerStep ι κ} (h : s.Ordered ∧ s.Counted)
    (hok : s.Within l) (hs : s.step l = some s') : s'.Ordered ∧ s'.Counted := by
  obtain ⟨ho, hc⟩ := h
  cases l with
  | call c =>
    cases Option.some.inj hs
    refine ⟨?_, hc.call ho c⟩
    cases c with
    | arm i deadline cb => exact ho.arm cb hok
    | cancel i => exact ho.cancel i
  | enter now =>
    simp only [step, Option.ite_none_right_eq_some, Option.some.injEq] at hs
    obtain ⟨-, rfl⟩ := hs
    refine ⟨⟨ho.mem, ho.sorted, ho.shown, ho.stamps, ho.near, ?_⟩,
      hc.sublist (fun _ h => h) rfl rfl rfl⟩
    rintro _ ⟨⟩
    exact hok
  | fire =>
    obtain ⟨now, hl, hf⟩ := Option.bind_eq_some_iff.mp hs
    obtain ⟨i, hi, rfl⟩ := Option.map_eq_some_iff.mp hf
    exact ⟨ho.unlink i _, hc.fire ho (ho.expired_some hl hi).1⟩
  | leave =>
    obtain ⟨now, hl, hf⟩ := Option.bind_eq_some_iff.mp hs
    simp only [Option.ite_none_right_eq_some, Option.some.injEq] at hf
    obtain ⟨-, rfl⟩ := hf
    refine ⟨⟨ho.mem, ho.sorted, ho.shown, ho.stamps, ho.near, ?_⟩,
      hc.sublist (fun _ h => h) rfl rfl rfl⟩
    rintro _ ⟨⟩

theorem reachable_inv (h : ((timerSystem ι κ).restrict (fun _ => True) Within).Reachable s) :
    s.Ordered ∧ s.Counted := by
  have hi : LTS.Inductive ((timerSystem ι κ).restrict (fun _ => True) Within)
      (fun s => s.Ordered ∧ s.Counted) := by
    refine ⟨?_, fun hinv hst => step_inv hinv hst.2 hst.1⟩
    rintro s ⟨hs, -⟩
    have hnot : ∀ i, i ∉ s.timers.list := fun i => by
      rw [hs.list]
      exact List.not_mem_nil
    refine ⟨⟨fun i => ?_, ?_, fun i hi => absurd hi (hnot i), fun i hi => absurd hi (hnot i),
      fun i hi => absurd hi (hnot i), fun _ _ i hi => absurd hi (hnot i)⟩,
      ⟨fun i hi => absurd hi (hnot i), ?_, fun i hi => absurd hi (hnot i), ?_⟩⟩
    · rw [hs.armed i]
      exact ⟨fun hi => absurd hi (hnot i), fun hi => absurd hi Bool.false_ne_true⟩
    · rw [hs.list]
      exact .nil
    · rw [hs.fired]
      exact fun n hn => absurd hn List.not_mem_nil
    · rw [hs.fired]
      exact .nil
  exact hi.reachable h

end Calls

end TimerSys

/-! ## The loop ends -/

namespace Timers
variable [DecidableEq ι] {t : Timers ι κ} {now : BitVec 32}

/-- The loop would fire timer `i` if it came to it. -/
def isDue (t : Timers ι κ) (now : BitVec 32) (i : ι) : Bool := 0 ≤ diff now (t.timer i).deadlineMs

def dueCount (t : Timers ι κ) (now : BitVec 32) : Nat := t.list.countP (t.isDue now)

theorem isDue_unlink (i : ι) : (t.unlink i).isDue now = t.isDue now := by
  funext j
  rcases eq_or_ne j i with rfl | hj
  · simp [isDue, unlink]
  · simp [isDue, unlink, update_of_ne hj]

theorem dueCount_unlink_le (i : ι) : (t.unlink i).dueCount now ≤ t.dueCount now := by
  rw [dueCount, isDue_unlink]
  exact List.Sublist.countP_le List.erase_sublist

theorem dueCount_cancel_le (i : ι) : (t.timerCancel i).dueCount now ≤ t.dueCount now := by
  unfold timerCancel
  split
  · exact le_rfl
  · exact dueCount_unlink_le i

/-- A timer that is armed for later is not counted. -/
theorem Exact.dueCount_arm_le (h : t.Exact) (i : ι) {d : BitVec 32} (cb : κ)
    (hd : diff now d < 0) : (t.timerArm i d cb).dueCount now ≤ t.dueCount now := by
  have hi := h.not_mem_cancel i
  have hperm : (t.timerArm i d cb).list.Perm (i :: (t.timerCancel i).list) := perm_insertBefore ..
  have hself : (t.timerArm i d cb).isDue now i = false := by
    simp [isDue, timerArm, hd]
  have hrest : (t.timerCancel i).list.countP ((t.timerArm i d cb).isDue now) =
      (t.timerCancel i).dueCount now := by
    refine List.countP_congr fun j hj => ?_
    have hne : j ≠ i := fun he => hi (he ▸ hj)
    simp [isDue, timerArm, update_of_ne hne]
  rw [dueCount, hperm.countP_eq, List.countP_cons_of_neg (by simp [hself]), hrest]
  exact dueCount_cancel_le i

/-- A round of the loop leaves one timer less that is due. -/
theorem dueCount_expired {i : ι} (h : t.expired now = some i) :
    (t.unlink i).dueCount now < t.dueCount now := by
  unfold expired at h
  cases hl : t.list with
  | nil =>
    rw [hl] at h
    cases h
  | cons k rest =>
    rw [hl] at h
    dsimp only at h
    split at h
    · cases h
    · rename_i hk
      cases h
      rw [dueCount, isDue_unlink, dueCount, unlink, hl, List.erase_cons_head,
        List.countP_cons_of_pos (by simpa [isDue] using hk)]
      exact Nat.lt_succ_self _

end Timers

namespace TimerSys
variable [DecidableEq ι] {s : TimerSys ι κ} {now : Nat}

/-- The call arms no timer, or one for a time after `now`. -/
def Future (now : Nat) : TimerCall ι κ → Prop
  | .arm _ deadline _ => now < deadline ∧ TimeNear deadline now
  | .cancel _ => True

theorem call_dueCount_le (h : s.timers.Exact) {c : TimerCall ι κ} (hc : Future now c) :
    (s.call c).timers.Exact ∧
      (s.call c).timers.dueCount (BitVec.ofNat 32 now) ≤
        s.timers.dueCount (BitVec.ofNat 32 now) := by
  cases c with
  | arm i deadline cb =>
    refine ⟨h.arm i _ cb, h.dueCount_arm_le i cb ?_⟩
    rw [hc.2.symm.diff_eq]
    have := hc.1
    omega
  | cancel i => exact ⟨h.cancel i, Timers.dueCount_cancel_le i⟩

theorem calls_dueCount_le {calls : List (TimerCall ι κ)} (hc : ∀ c ∈ calls, Future now c) :
    ∀ {s : TimerSys ι κ}, s.timers.Exact → (calls.foldl call s).timers.Exact ∧
      (calls.foldl call s).timers.dueCount (BitVec.ofNat 32 now) ≤
        s.timers.dueCount (BitVec.ofNat 32 now) := by
  induction calls with
  | nil => exact fun h => ⟨h, le_rfl⟩
  | cons c calls ih =>
    intro s h
    obtain ⟨h1, h2⟩ := call_dueCount_le h (hc c List.mem_cons_self)
    obtain ⟨h3, h4⟩ := ih (fun c' hc' => hc c' (List.mem_cons_of_mem _ hc')) h1
    exact ⟨h3, h4.trans h2⟩

/-- The loop ends after at most as many rounds as there are due timers, when its callbacks arm
timers for later only. -/
theorem timerRunExpired_isSome : ∀ {scripts : List (List (TimerCall ι κ))} {s : TimerSys ι κ},
    s.timers.Exact → (∀ calls ∈ scripts, ∀ c ∈ calls, Future now c) →
    s.timers.dueCount (BitVec.ofNat 32 now) ≤ scripts.length →
    (timerRunExpired now scripts s).isSome
  | scripts, s, h, hf, hlen => by
    unfold timerRunExpired
    cases hfire : s.fire now with
    | none => rfl
    | some s' =>
      obtain ⟨i, hi, rfl⟩ := Option.map_eq_some_iff.mp hfire
      have hlt := Timers.dueCount_expired hi
      cases scripts with
      | nil => exact absurd hlen (by simp; omega)
      | cons calls scripts =>
        obtain ⟨h1, h2⟩ := calls_dueCount_le (hf calls List.mem_cons_self)
          (s := { s with timers := s.timers.unlink i, fired := s.fired ++ [(i, s.stamp i)] })
          (h.unlink i)
        have hlen' : s.timers.dueCount (BitVec.ofNat 32 now) ≤ scripts.length + 1 := hlen
        have h2' : _ ≤ (s.timers.unlink i).dueCount (BitVec.ofNat 32 now) := h2
        exact timerRunExpired_isSome h1 (fun c hc => hf c (List.mem_cons_of_mem _ hc)) (by omega)

/-! ## Results -/

/-- A round of the loop that has read `now` fires `i`: it is due, and before all others. -/
structure FiresFirst (s : TimerSys ι κ) (now : Nat) (i : ι) (s' : TimerSys ι κ) : Prop where
  armed : (s.timers.timer i).armed = true
  due : s.due i ≤ now
  first : ∀ j, (s.timers.timer j).armed = true → j ≠ i → s.Before i j
  gone : s' = { s with timers := s.timers.unlink i, fired := s.fired ++ [(i, s.stamp i)] }

theorem dueCount_le_length (s : TimerSys ι κ) (now : Nat) :
    s.timers.dueCount (BitVec.ofNat 32 now) ≤ s.timers.list.length := List.countP_le_length

theorem step_leave_iff (hl : s.loop = some now) :
    (s.step .leave).isSome ↔ s.timers.expired (BitVec.ofNat 32 now) = none := by
  rw [step, hl, Option.bind_some, fire]
  cases s.timers.expired (BitVec.ofNat 32 now) <;> simp

theorem step_fire_some (hl : s.loop = some now) {s' : TimerSys ι κ}
    (h : s.step .fire = some s') : ∃ i, s.timers.expired (BitVec.ofNat 32 now) = some i ∧
      s' = { s with timers := s.timers.unlink i, fired := s.fired ++ [(i, s.stamp i)] } := by
  rw [step, hl, Option.bind_some, fire] at h
  obtain ⟨i, hi, rfl⟩ := Option.map_eq_some_iff.mp h
  exact ⟨i, hi, rfl⟩

end TimerSys

section Results
variable [DecidableEq ι]
open TimerSys

/-- In every run in which the deadlines are less than half a turn of the clock apart, the list
has exactly the armed timers in the order of deadline and arming, and no arming is fired twice.
A running loop fires the first armed timer if it is due and ends exactly if none is, whatever
its callbacks have done; and it does end if they arm timers for later only. -/
theorem timers_run_in_order {s : TimerSys ι κ}
    (h : ((timerSystem ι κ).restrict (fun _ => True) Within).Reachable s) :
    (∀ i, i ∈ s.timers.list ↔ (s.timers.timer i).armed = true) ∧
    s.timers.list.Pairwise s.Before ∧
    (s.fired.map Prod.snd).Nodup ∧
    (∀ now, s.loop = some now →
      (∀ s', s.step .fire = some s' → ∃ i, s.FiresFirst now i s') ∧
      ((s.step .leave).isSome ↔ ∀ i, (s.timers.timer i).armed = true → now < s.due i)) ∧
    ∀ (now : Nat) (scripts : List (List (TimerCall ι κ))),
      (∀ calls ∈ scripts, ∀ c ∈ calls, Future now c) → s.timers.list.length ≤ scripts.length →
      (timerRunExpired now scripts s).isSome := by
  obtain ⟨ho, hc⟩ := reachable_inv h
  refine ⟨ho.mem, ho.sorted, hc.once, fun now hl => ⟨fun s' hs => ?_, ?_⟩, fun now scripts hf hlen =>
    timerRunExpired_isSome ho.exact hf ((dueCount_le_length s now).trans hlen)⟩
  · obtain ⟨i, hi, rfl⟩ := step_fire_some hl hs
    obtain ⟨hmem, hdue, hfirst⟩ := ho.expired_some hl hi
    exact ⟨i, (ho.mem i).mp hmem, hdue, fun j hj => hfirst j ((ho.mem j).mpr hj), rfl⟩
  · rw [step_leave_iff hl, ho.expired_none hl]
    exact forall_congr' fun i => by rw [ho.mem i]

/-- mirrors netd/main.c:29-30 and 232-239 -/
def sleepMs (next now : BitVec 32) : Nat :=
  if next = 0xFFFFFFFF then 50
  else if Timers.diff next now ≤ 0 then 0
  else min (next - now).toNat 50

/-- How long each of the two waits of a round may take. mirrors netd/main.c:243-247 -/
def waitSlice (sleepMs : Nat) : Nat :=
  let slice := min (sleepMs / 2) 10
  if sleepMs ≠ 0 ∧ slice = 0 then 1 else slice

/-- **netd does not sleep over a timer**: while the deadlines are less than half a turn of the
clock apart, both waits of a round end at most a millisecond after the deadline of any armed
timer, unless the first deadline is the value that stands for none. -/
theorem timers_not_overslept {s : TimerSys ι κ} {now : Nat} {i : ι}
    (h : ((timerSystem ι κ).restrict (fun _ => True) Within).Reachable s)
    (hnow : ∀ j ∈ s.timers.list, TimeNear (s.due j) now)
    (hno : s.timers.timerNextDeadline ≠ 0xFFFFFFFF) (hi : (s.timers.timer i).armed) :
    now + 2 * waitSlice (sleepMs s.timers.timerNextDeadline (BitVec.ofNat 32 now)) ≤
      max now (s.due i) + 1 := by
  obtain ⟨ho, -⟩ := reachable_inv h
  have hm := (ho.mem i).mpr hi
  obtain ⟨j, rest, hl⟩ := List.exists_cons_of_ne_nil (List.ne_nil_of_mem hm)
  have hj : j ∈ s.timers.list := hl ▸ List.mem_cons_self
  have hnext : s.timers.timerNextDeadline = BitVec.ofNat 32 (s.due j) := by
    rw [Timers.timerNextDeadline, hl]
    exact ho.shown j hj
  have hfirst : s.due j ≤ s.due i := by
    have hs := ho.sorted
    rw [hl] at hm hs
    rcases List.mem_cons.mp hm with rfl | hm
    · exact le_rfl
    · have hb := (List.pairwise_cons.mp hs).1 i hm
      unfold Before at hb
      omega
  have hnear := hnow j hj
  unfold waitSlice sleepMs
  rw [if_neg hno, hnext, hnear.diff_eq]
  unfold TimeNear at hnear
  simp only [BitVec.toNat_sub, BitVec.toNat_ofNat]
  split_ifs <;> omega

/-- Two timers, the second armed for an earlier time, and a loop that runs at time 7. -/
def twoTimers : List (TimerStep Bool Unit) :=
  [.call (.arm true 10 ()), .call (.arm false 5 ()), .enter 7]

def noTimers : TimerSys Bool Unit :=
  ⟨⟨[], fun _ => ⟨0, (), false⟩⟩, fun _ => 0, fun _ => 0, 0, none, []⟩

theorem noTimers_start : noTimers.Start := ⟨rfl, fun _ => rfl, rfl, rfl⟩

instance (s : TimerSys ι κ) (i : ι) (deadline : Nat) : Decidable (s.ArmsNear i deadline) :=
  inferInstanceAs (Decidable (_ ∧ _))

instance (s : TimerSys ι κ) : (l : TimerStep ι κ) → Decidable (s.Within l)
  | .call (.arm i deadline _) => inferInstanceAs (Decidable (s.ArmsNear i deadline))
  | .call (.cancel _) | .fire | .leave => isTrue trivial
  | .enter now => inferInstanceAs (Decidable (∀ i ∈ s.timers.list, TimeNear (s.due i) now))

end Results

/-- The timer that was armed last runs first, and the loop does not end before it has run. -/
theorem timers_run_in_order_twoTimers : ∃ s, twoTimers.foldlM TimerSys.step noTimers = some s ∧
    s.timers.list.Pairwise s.Before ∧ s.timers.list = [false, true] ∧
    ((s.step .leave).isSome ↔ ∀ i, (s.timers.timer i).armed = true → 7 < s.due i) := by
  have hrun : ∃ s, twoTimers.foldlM TimerSys.step noTimers = some s ∧
      twoTimers.foldlM (fun s l => if s.Within l then s.step l else none) noTimers = some s ∧
      s.loop = some 7 ∧ s.timers.list = [false, true] :=
    ⟨_, rfl, rfl, rfl, by decide⟩
  obtain ⟨s, h1, h2, hl, hlist⟩ := hrun
  have h := timers_run_in_order (s := s)
    ⟨noTimers, twoTimers, ⟨noTimers_start, trivial⟩, LTS.restrict_run_of_foldlM h2⟩
  exact ⟨s, h1, h.2.1, hlist, (h.2.2.2.1 7 hl).2⟩

/-- A round that begins two milliseconds before the first of two deadlines. -/
theorem timers_not_overslept_twoTimers : ∃ s : TimerSys Bool Unit, s.due false = 5 ∧
    3 + 2 * waitSlice (sleepMs s.timers.timerNextDeadline 3) ≤ max 3 (s.due false) + 1 := by
  have hrun : ∃ s, ((timerSystem Bool Unit).restrict (fun _ => True) TimerSys.Within).Reachable s ∧
      s.due false = 5 ∧ (∀ j ∈ s.timers.list, TimeNear (s.due j) 3) ∧
      s.timers.timerNextDeadline ≠ 0xFFFFFFFF ∧ (s.timers.timer false).armed :=
    LTS.restrict_reaches_of_foldlM _ twoTimers noTimers_start trivial (by decide)
  obtain ⟨s, hr, hd, hn, hno, ha⟩ := hrun
  exact ⟨s, hd, timers_not_overslept hr hn hno ha⟩

/-- Two timers whose deadlines are exactly `2 ^ 31` apart: the list is not in order, and a loop
that runs at time 0 ends although one of them is due. -/
theorem half_turn_is_out_of_order : ∃ s : TimerSys Bool Unit,
    (timerSystem Bool Unit).Reachable s ∧
    (∀ i ∈ s.timers.list, ∀ j ∈ s.timers.list, s.due i ≤ s.due j + 2 ^ 31) ∧
    ¬s.timers.list.Pairwise s.Before ∧
    false ∈ s.timers.list ∧ s.due false = 0 ∧ s.fire 0 = none := by
  have hrun : ∃ s, [TimerStep.call (.arm true (2 ^ 31) ()), .call (.arm false 0 ())].foldlM
      TimerSys.step noTimers = some s ∧ s.timers.list = [true, false] ∧ s.due true = 2 ^ 31 ∧
      s.due false = 0 ∧ s.fire 0 = none :=
    ⟨_, rfl, by decide, rfl, rfl, by rfl⟩
  obtain ⟨s, h1, hlist, htrue, hfalse, hfire⟩ := hrun
  refine ⟨s, ⟨noTimers, _, noTimers_start, LTS.run_of_foldlM h1⟩, ?_, ?_, by simp [hlist], hfalse,
    hfire⟩
  · simp [hlist, htrue, hfalse]
  · simp [hlist, TimerSys.Before, htrue, hfalse]

end Zuzu.L5
