import Zuzu.L3Kernel.Task

/-!
# Task identifiers (`kernel/task/task.c:25-75`)

`RegisterTask` probes `task_table` from the slot of a signed 32-bit counter and
hands the counter out as the new identifier. Tasks are created and destroyed in
any order, with everything else the kernel does in between (`TaskOp.other`).
`TidRoom` says that the probe ends before the counter passes `INT32_MAX`.

**Results.** `task_ids_sound`: in every run whose creations all start in `TidRoom`,
`RegisterTask` returns a positive identifier that no registered task has and
enters the task at its index, or 0 if all slots are taken, and reads the table
only inside its bounds. `task_ids_overflow`: without that, a run of `2^31`
creations gets a negative identifier and then an index of -1023.
-/
namespace Zuzu.L3
open Function Zuzu.Core

/-- The indices of `task_table` that the probe of `RegisterTask` reads. -/
def registerReads (table : Int → Option TaskId) (start : Int) : Nat → Int → List Int
  | 0, _ => []
  | fuel + 1, next =>
    next.tmod maxTasks ::
      if table (next.tmod maxTasks) = none then []
      else if (tidAdvance next).tmod maxTasks = start then []
      else registerReads table start fuel (tidAdvance next)

/-- The indices one call of `RegisterTask` reads. -/
def registerTaskReads (s : Sys) : List Int :=
  registerReads s.taskTable (s.nextTid.tmod maxTasks) maxTasks s.nextTid

inductive TaskOp
  | create (owner : SpaceId) (slabOk tcbOk : Bool)
  | destroy (t : TaskId)
  | other

/-- Creations and destructions of tasks. `TaskDestroy` enters here with what it does to
the table (kernel/task/task.c:137); `other` is anything that touches neither the table nor
an identifier. -/
def taskIds : LTS Sys TaskOp where
  init s := (∀ i, s.taskTable i = none) ∧ s.nextTid = 1
  step s op s' :=
    match op with
    | .create owner slabOk tcbOk => s' = (taskCreate s owner slabOk tcbOk).1
    | .destroy t => t < s.newTask ∧ s' = taskObjectUnregister s t
    | .other => s'.taskTable = s.taskTable ∧ s'.nextTid = s.nextTid ∧ s'.newTask = s.newTask ∧
        ∀ t < s.newTask, (s'.tasks t).tid = (s.tasks t).tid

/-- The probe ends before the counter passes `INT32_MAX`: at a free slot, or after a lap. -/
def TidRoom (s : Sys) : Prop :=
  0 < s.nextTid ∧ (s.nextTid + maxTasks < 2 ^ 31 ∨
    ∃ k < maxTasks, s.nextTid + k < 2 ^ 31 ∧ s.taskTable ((s.nextTid + k) % maxTasks) = none)

/-- Runs whose creations all find room. -/
def taskIdsRoomy : LTS Sys TaskOp :=
  taskIds.restrict (fun _ => True) fun s op => match op with
    | .create .. => TidRoom s
    | _ => True

variable {s s' : Sys} {table : Int → Option TaskId} {n : Int}

/-! ## The probe -/

theorem tmod_of_pos (h : 0 < n) : n.tmod maxTasks = n % maxTasks :=
  Int.tmod_eq_emod_of_nonneg h.le

theorem tidAdvance_of_lt (h : n + 1 < 2 ^ 31) : tidAdvance n = n + 1 := by
  unfold tidAdvance
  rw [if_neg (by omega)]

theorem exists_add_emod (n : Int) {i : Int} (h0 : 0 ≤ i) (hi : i < maxTasks) :
    ∃ k < maxTasks, (n + (k : Int)) % maxTasks = i := by
  have hm : (maxTasks : Int) = 1024 := rfl
  rw [hm] at hi
  refine ⟨((i - n) % 1024).toNat, ?_, ?_⟩
  · show _ < 1024
    omega
  · rw [hm]
    omega

section Probe

variable (hn : 0 < n) (hroom : n + maxTasks < 2 ^ 31 ∨
  ∃ k < maxTasks, n + k < 2 ^ 31 ∧ table ((n + k) % maxTasks) = none)
include hroom

theorem lt_of_taken {i : Nat} (hi : i ≤ maxTasks)
    (hocc : ∀ j < i, table ((n + (j : Int)) % maxTasks) ≠ none) : n + (i : Int) < 2 ^ 31 := by
  rcases hroom with h | ⟨k, hk, hkn, hfree⟩
  · omega
  · by_contra hge
    exact hocc k (by omega) hfree

omit hroom in
theorem taken_succ {i : Nat} (hocc : ∀ j < i, table ((n + (j : Int)) % maxTasks) ≠ none)
    (hi : table ((n + (i : Int)) % maxTasks) ≠ none) :
    ∀ j < i + 1, table ((n + (j : Int)) % maxTasks) ≠ none := by
  intro j hj
  rcases Nat.lt_succ_iff_lt_or_eq.mp hj with hj | rfl
  · exact hocc j hj
  · exact hi

include hn

/-- A probe that starts at `n` and has passed `i` taken slots finds the first free slot, or
comes round. -/
theorem registerScan_spec : ∀ fuel i : Nat, i + fuel = maxTasks →
    (∀ j < i, table ((n + (j : Int)) % maxTasks) ≠ none) →
      (∃ k < maxTasks, n + k < 2 ^ 31 ∧ table ((n + k) % maxTasks) = none ∧
        registerScan table (n % maxTasks) fuel (n + i) = (n + k, true)) ∨
      (∀ j < maxTasks, table ((n + (j : Int)) % maxTasks) ≠ none) ∧
        registerScan table (n % maxTasks) fuel (n + i) = (n + maxTasks, false) := by
  have hm : maxTasks = 1024 := rfl
  intro fuel
  induction fuel with
  | zero =>
    intro i hi hocc
    obtain rfl : i = maxTasks := hi
    exact Or.inr ⟨hocc, rfl⟩
  | succ fuel ih =>
    intro i hi hocc
    unfold registerScan
    rw [tmod_of_pos (by omega)]
    split
    · rename_i hfree
      exact Or.inl ⟨i, by omega, lt_of_taken hroom (by omega) hocc, hfree, rfl⟩
    · rename_i htaken
      have hocc' := taken_succ hocc htaken
      have hnext : n + i + 1 < 2 ^ 31 := by
        have := lt_of_taken hroom (by omega) hocc'
        omega
      rw [tidAdvance_of_lt hnext, tmod_of_pos (by omega)]
      split
      · rename_i hstart
        have hlap : (n + i + 1) % 1024 = n % 1024 := hstart
        obtain rfl : fuel = 0 := by omega
        refine Or.inr ⟨fun j hj => hocc' j (by omega), ?_⟩
        rw [show n + (i : Int) + 1 = n + maxTasks by omega]
      · have := ih (i + 1) (by omega) hocc'
        rwa [Nat.cast_succ, ← Int.add_assoc] at this

theorem registerReads_bounds {start r : Int} : ∀ fuel i : Nat, i + fuel = maxTasks →
    (∀ j < i, table ((n + (j : Int)) % maxTasks) ≠ none) →
      r ∈ registerReads table start fuel (n + i) → 0 ≤ r ∧ r < maxTasks := by
  have hm : (maxTasks : Int) = 1024 := rfl
  intro fuel
  induction fuel with
  | zero => simp [registerReads]
  | succ fuel ih =>
    intro i hi hocc hr
    unfold registerReads at hr
    rw [tmod_of_pos (by omega)] at hr
    rcases List.mem_cons.mp hr with rfl | hr
    · rw [hm]
      omega
    · split at hr
      · simp at hr
      · rename_i htaken
        have hocc' := taken_succ hocc htaken
        have hnext : n + i + 1 < 2 ^ 31 := by
          have := lt_of_taken hroom (by omega) hocc'
          omega
        rw [tidAdvance_of_lt hnext] at hr
        split at hr
        · simp at hr
        · refine ih (i + 1) (by omega) hocc' ?_
          rwa [Nat.cast_succ, ← Int.add_assoc]

end Probe

theorem registerTask_spec (h : TidRoom s) (t : TaskId) :
    (∃ tid : Int, 0 < tid ∧ tid < 2 ^ 31 ∧ s.taskTable (tid % maxTasks) = none ∧
      registerTask s t = ({ s with
        nextTid := tidAdvance tid
        taskTable := update s.taskTable (tid % maxTasks) (some t) }, tid)) ∨
    (∀ i : Int, 0 ≤ i → i < maxTasks → s.taskTable i ≠ none) ∧
      registerTask s t = ({ s with nextTid := s.nextTid + maxTasks }, 0) := by
  have hscan := registerScan_spec h.1 h.2 maxTasks 0 (Nat.zero_add _) (by simp)
  rw [Nat.cast_zero, Int.add_zero] at hscan
  unfold registerTask
  rw [tmod_of_pos h.1]
  rcases hscan with ⟨k, hk, hlt, hfree, hscan⟩ | ⟨hfull, hscan⟩
  · have hpos := h.1
    refine Or.inl ⟨s.nextTid + k, by omega, hlt, hfree, ?_⟩
    rw [hscan]
    dsimp only
    rw [tmod_of_pos (by omega)]
  · refine Or.inr ⟨fun i h0 hi => ?_, by rw [hscan]⟩
    obtain ⟨k, hk, rfl⟩ := exists_add_emod s.nextTid h0 hi
    exact hfull k hk

/-! ## Runs -/

/-- Each entry of the table is a task whose identifier leads to it. -/
def TidInv (s : Sys) : Prop :=
  ∀ i t, s.taskTable i = some t → t < s.newTask ∧ 0 < (s.tasks t).tid ∧
    i = (s.tasks t).tid % maxTasks

theorem taskObjectUnregister_eq (s : Sys) (t : TaskId) : taskObjectUnregister s t =
    if (s.tasks t).tid ≠ 0 ∧ s.taskTable ((s.tasks t).tid % maxTasks) = some t then
      { s with taskTable := update s.taskTable ((s.tasks t).tid % maxTasks) none }
    else s := rfl

theorem TidInv.mono (h : TidInv s)
    (htable : ∀ i u, s'.taskTable i = some u → s.taskTable i = some u)
    (hnew : s.newTask ≤ s'.newTask) (htid : ∀ t < s.newTask, (s'.tasks t).tid = (s.tasks t).tid) :
    TidInv s' := by
  intro i u hu
  obtain ⟨hlt, ht⟩ := h i u (htable i u hu)
  rw [htid u hlt]
  exact ⟨hlt.trans_le hnew, ht⟩

theorem update_none_some {i j : Int} {u : TaskId}
    (h : update table i none j = some u) : table j = some u := by
  rw [update_apply] at h
  split at h
  · cases h
  · exact h

theorem TidInv.unregister (h : TidInv s) (t : TaskId) : TidInv (taskObjectUnregister s t) := by
  rw [taskObjectUnregister_eq]
  split
  · exact h.mono (fun _ _ hu => update_none_some hu) (Nat.le_refl _) fun _ _ => rfl
  · exact h

theorem TidInv.enter (h : TidInv s) {tid : Int} (hpos : 0 < tid)
    (htid : (s'.tasks s.newTask).tid = tid)
    (hold : ∀ t < s.newTask, (s'.tasks t).tid = (s.tasks t).tid)
    (htable : s'.taskTable = update s.taskTable (tid % maxTasks) (some s.newTask))
    (hnew : s'.newTask = s.newTask + 1) : TidInv s' := by
  intro i u hu
  rw [htable, update_apply] at hu
  rw [hnew]
  split at hu
  · cases hu
    rename_i hi
    rw [htid]
    exact ⟨Nat.lt_succ_self _, hpos, hi⟩
  · obtain ⟨hlt, ht⟩ := h i u hu
    rw [hold u hlt]
    exact ⟨Nat.lt_succ_of_lt hlt, ht⟩

/-- The identifiers after `TaskCreate`: none, one more, or one that is given back because
there is no thread-local slot. -/
theorem taskCreate_ids (hroom : TidRoom s) {owner : SpaceId} {slabOk tcbOk : Bool}
    (hs' : s' = (taskCreate s owner slabOk tcbOk).1) :
    (∀ t < s.newTask, (s'.tasks t).tid = (s.tasks t).tid) ∧
      (s'.taskTable = s.taskTable ∧ s.newTask ≤ s'.newTask ∨
        ∃ tid, 0 < tid ∧ (s'.tasks s.newTask).tid = tid ∧ s'.newTask = s.newTask + 1 ∧
          s'.taskTable = update s.taskTable (tid % maxTasks) (some s.newTask)) := by
  cases slabOk with
  | false =>
    obtain rfl : s' = s := hs'
    exact ⟨fun _ _ => rfl, Or.inl ⟨rfl, Nat.le_refl _⟩⟩
  | true =>
    rcases registerTask_spec hroom s.newTask with ⟨tid, hpos, -, hfree, hreg⟩ | ⟨-, hreg⟩
    · cases tcbOk with
      | true =>
        simp only [taskCreate, hreg, not_true, if_false, hpos.ne'] at hs'
        subst hs'
        refine ⟨fun t ht => ?_, Or.inr ⟨tid, hpos, ?_, rfl, rfl⟩⟩
        · simp [ht.ne]
        · simp
      | false =>
        simp only [taskCreate, hreg, not_true, if_false, hpos.ne', taskObjectUnregister_eq,
          Sys.modTask_tasks, Sys.modTask_taskTable, update_self, ne_eq, not_false_eq_true,
          and_self, if_true, Bool.false_eq_true] at hs'
        subst hs'
        refine ⟨fun t ht => ?_, Or.inl ⟨?_, Nat.le_succ _⟩⟩
        · simp [ht.ne]
        · show update (update s.taskTable _ (some s.newTask)) _ none = _
          rw [update_idem, ← hfree, update_eq_self]
    · simp only [taskCreate, hreg, not_true, if_false, if_true] at hs'
      subst hs'
      exact ⟨fun _ _ => rfl, Or.inl ⟨rfl, Nat.le_refl _⟩⟩

theorem taskIdsRoomy_inv : taskIdsRoomy.Inductive TidInv where
  init h := fun i t ht => by
    rw [h.1.1 i] at ht
    cases ht
  step {s op s'} h hs := by
    obtain ⟨hstep, hok⟩ := hs
    cases op with
    | create owner slabOk tcbOk =>
      obtain ⟨hold, ⟨htable, hnew⟩ | ⟨tid, hpos, htid, hnew, htable⟩⟩ := taskCreate_ids hok hstep
      · exact h.mono (fun i u hu => by rwa [htable] at hu) hnew hold
      · exact h.enter hpos htid hold htable hnew
    | destroy t =>
      obtain ⟨-, rfl⟩ : _ ∧ s' = _ := hstep
      exact h.unregister t
    | other =>
      obtain ⟨htable, -, hnew, htid⟩ := hstep
      exact h.mono (fun i u hu => by rwa [htable] at hu) hnew.ge htid

/-- In every run whose creations find room, `RegisterTask` reads the table inside its bounds
and returns a new positive identifier, entered at its index, or 0 if the table is full. -/
theorem task_ids_sound (h : taskIdsRoomy.Reachable s) (hroom : TidRoom s) (t : TaskId) :
    (∀ i ∈ registerTaskReads s, 0 ≤ i ∧ i < maxTasks) ∧
      (0 < (registerTask s t).2 ∧
          (∀ i u, s.taskTable i = some u → (s.tasks u).tid ≠ (registerTask s t).2) ∧
          0 ≤ (registerTask s t).2 % maxTasks ∧ (registerTask s t).2 % maxTasks < maxTasks ∧
          (registerTask s t).1.taskTable =
            Function.update s.taskTable ((registerTask s t).2 % maxTasks) (some t) ∨
        (registerTask s t).2 = 0 ∧ (registerTask s t).1.taskTable = s.taskTable ∧
          ∀ i : Int, 0 ≤ i → i < maxTasks → s.taskTable i ≠ none) := by
  have hinv := taskIdsRoomy_inv.reachable h
  refine ⟨fun i hi => ?_, ?_⟩
  · have hi' : i ∈ registerReads s.taskTable (s.nextTid.tmod maxTasks) maxTasks
        (s.nextTid + (0 : Nat)) := by
      rw [Nat.cast_zero, Int.add_zero]
      exact hi
    exact registerReads_bounds hroom.1 hroom.2 maxTasks 0 (Nat.zero_add _) (by simp) hi'
  · rcases registerTask_spec hroom t with ⟨tid, hpos, -, hfree, hreg⟩ | ⟨hfull, hreg⟩
    · rw [hreg]
      refine Or.inl ⟨hpos, fun i u hu he => ?_, Int.emod_nonneg _ (by decide),
        Int.emod_lt_of_pos _ (by decide), rfl⟩
      obtain ⟨-, -, rfl⟩ := hinv i u hu
      rw [he, hfree] at hu
      cases hu
    · rw [hreg]
      exact Or.inr ⟨rfl, rfl, hfull⟩

def twoTasks : Sys := (taskCreate (taskCreate Sys.empty 0 true true).1 0 true true).1

/-- With tasks 1 and 2 registered, the next one is 3: neither of them has that identifier, and
it is entered at index 3. -/
theorem task_ids_sound_third : taskIdsRoomy.Reachable twoTasks ∧
    twoTasks.taskTable 1 = some 0 ∧ twoTasks.taskTable 2 = some 1 ∧
    (registerTask twoTasks 2).2 = 3 ∧
    (∀ i u, twoTasks.taskTable i = some u → (twoTasks.tasks u).tid ≠ 3) ∧
    (registerTask twoTasks 2).1.taskTable = Function.update twoTasks.taskTable 3 (some 2) := by
  have h0 : taskIdsRoomy.Reachable Sys.empty := .init ⟨⟨fun _ => rfl, rfl⟩, trivial⟩
  have h1 : taskIdsRoomy.Reachable (taskCreate Sys.empty 0 true true).1 :=
    h0.step (l := .create 0 true true) ⟨rfl, by decide, Or.inl (by decide)⟩
  have h2 : taskIdsRoomy.Reachable twoTasks :=
    h1.step (l := .create 0 true true) ⟨rfl, by decide +kernel, Or.inl (by decide +kernel)⟩
  have hid : (registerTask twoTasks 2).2 = 3 := by decide +kernel
  have hroom : TidRoom twoTasks := ⟨by decide +kernel, Or.inl (by decide +kernel)⟩
  refine ⟨h2, by decide +kernel, by decide +kernel, hid, ?_⟩
  rcases (task_ids_sound h2 hroom 2).2 with ⟨-, hnew, -, -, htable⟩ | ⟨hzero, -⟩
  · rw [hid] at hnew htable
    exact ⟨hnew, htable⟩
  · rw [hid] at hzero
    cases hzero

/-! ## The counter at its end -/

theorem registerTask_empty (h : ∀ i, s.taskTable i = none) (t : TaskId) :
    registerTask s t = ({ s with
      nextTid := tidAdvance s.nextTid
      taskTable := update s.taskTable (s.nextTid.tmod maxTasks) (some t) }, s.nextTid) := by
  have hscan : ∀ start, registerScan s.taskTable start maxTasks s.nextTid = (s.nextTid, true) := by
    intro start
    show registerScan s.taskTable start (1023 + 1) s.nextTid = _
    unfold registerScan
    rw [if_pos (h _)]
  unfold registerTask
  rw [hscan]

/-- One creation and the destruction of the new task move the counter on by one. -/
theorem churn (h : taskIds.Reachable s) (he : ∀ i, s.taskTable i = none) (hpos : 0 < s.nextTid) :
    ∃ s', taskIds.Reachable s' ∧ (∀ i, s'.taskTable i = none) ∧
      s'.nextTid = tidAdvance s.nextTid := by
  obtain ⟨u, hu⟩ : ∃ u, u = (taskCreate s 0 true true).1 := ⟨_, rfl⟩
  have h1 : taskIds.Reachable u := h.step (l := .create 0 true true) hu
  simp only [taskCreate, registerTask_empty he, not_true, if_false, hpos.ne', tmod_of_pos hpos] at hu
  have htid : (u.tasks s.newTask).tid = s.nextTid := by
    rw [hu]
    simp
  have htable : u.taskTable = update s.taskTable (s.nextTid % maxTasks) (some s.newTask) := by
    rw [hu]
    rfl
  have hun : taskObjectUnregister u s.newTask = { u with
      taskTable := update u.taskTable (s.nextTid % maxTasks) none } := by
    rw [taskObjectUnregister_eq, htid, htable, update_self]
    exact if_pos ⟨hpos.ne', rfl⟩
  refine ⟨_, h1.step (l := .destroy s.newTask) ⟨?_, hun.symm⟩, fun i => ?_, ?_⟩
  · rw [hu]
    exact Nat.lt_succ_self _
  · show update u.taskTable _ none i = none
    rw [htable, update_idem, update_apply]
    split
    · rfl
    · exact he i
  · rw [hu]
    rfl

/-- Every value of the counter up to `INT32_MAX` is reached with an empty table. -/
theorem counter_reachable (n : Nat) : (n : Int) + 1 < 2 ^ 31 →
    ∃ s, taskIds.Reachable s ∧ (∀ i, s.taskTable i = none) ∧ s.nextTid = n + 1 := by
  induction n with
  | zero => exact fun _ => ⟨Sys.empty, .init ⟨fun _ => rfl, rfl⟩, fun _ => rfl, rfl⟩
  | succ n ih =>
    intro hn
    obtain ⟨s, hs, he, hnext⟩ := ih (by omega)
    obtain ⟨s', hs', he', hnext'⟩ := churn hs he (by omega)
    refine ⟨s', hs', he', ?_⟩
    rw [hnext', hnext, tidAdvance_of_lt (by omega), Nat.cast_succ]

/-- After `2^31` creations the next identifier is negative, and the one after that is looked
for at index -1023. -/
theorem task_ids_overflow : ∃ s, taskIds.Reachable s ∧
    (registerTask s s.newTask).2 = -2 ^ 31 ∧
    -1023 ∈ registerTaskReads (registerTask s s.newTask).1 := by
  obtain ⟨s, hs, he, hnext⟩ := counter_reachable (2 ^ 31 - 2) (by decide)
  obtain ⟨s', hs', he', hnext'⟩ := churn hs he (by rw [hnext]; decide)
  have hmin : s'.nextTid = -2 ^ 31 := by
    rw [hnext', hnext]
    rfl
  refine ⟨s', hs', by rw [registerTask_empty he']; exact hmin, ?_⟩
  rw [registerTask_empty he', hmin]
  show -1023 ∈ registerReads _ _ (1023 + 1) (tidAdvance (-2 ^ 31))
  exact List.mem_cons_self

end Zuzu.L3
