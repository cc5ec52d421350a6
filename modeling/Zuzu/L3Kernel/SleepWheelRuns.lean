import Zuzu.L3Kernel.SleepWheel

/-!
# The sleep wheel wakes exactly who is due

A sleeper in slot `b` is looked at when time reaches the next absolute slot `n`
with `n % 512 = b`. The wheel is right because `n` is never later than the
slot of the sleeper's deadline, except where `n` is the current slot itself
(`WheelInv.place`). After a jump of more than a lap that is not so for slots that are
still to be passed (`ahead`), but passing them puts it right: whoever is not
woken there is put into a later slot.

**Results.** `wheel_sound`: in every run of inserts, removals and steps of time, a call of
`SchedWakeSleepers` at time `now` wakes exactly the sleepers whose deadline is at most `now`,
`wheel_occ` and `wheel_min` are right, and the timer is never programmed later than
the first deadline or the minimal slack from now. `wheel_refines`: seen from outside the wheel is
the table `alarms` of who sleeps until when.
-/
namespace Zuzu.L3
open Function Zuzu.Core
variable {b d a : Nat} {l : Links TaskId Nat}

/-- `wheel_occ` and `wheel_min` are right for one slot. -/
structure BucketOk (w : Wheel) (b : Nat) : Prop where
  occ : w.occ.testBit b = true ↔ w.queue.list b ≠ []
  min : w.queue.list b ≠ [] → IsLeast {d | ∃ t ∈ w.queue.list b, w.deadline t = d} (w.min b)

/-- The wheel, except for the cached data of the slot `busy`, with time on the way to the slot
`ahead`. -/
structure WheelInv (shift : Nat) (busy : Option Nat) (ahead : Nat) (w : Wheel) : Prop where
  wf : w.queue.WF
  bucket : ∀ b < sleepQueueSize, busy ≠ some b → BucketOk w b
  place : ∀ t b, w.queue.loc t = some b → ∃ n, w.nowSlot ≤ n ∧ n < w.nowSlot + sleepQueueSize ∧
    n % sleepQueueSize = b ∧ (n ≤ w.deadline t >>> shift ∨ n ≤ w.nowSlot ∨ n < ahead)
  range : ∀ t, w.queue.loc t ≠ none → w.deadline t < uint64Size

variable {shift : Nat} {busy : Option Nat} {ahead now : Nat} {w w' w'' : Wheel} {t u : TaskId}

theorem sleepers_of_loc (h : w.queue.loc t = some b) :
    sleepers w t = some (w.deadline t) := by
  rw [sleepers, h, if_neg (by simp)]

theorem sleepers_congr (hq : w'.queue = w.queue) (hd : w'.deadline = w.deadline) :
    sleepers w' = sleepers w := by
  unfold sleepers
  rw [hq, hd]

/-! ## Slots of time -/

theorem shiftRight_mono (h : a ≤ b) : a >>> shift ≤ b >>> shift := by
  rw [Nat.shiftRight_eq_div_pow, Nat.shiftRight_eq_div_pow]
  exact Nat.div_le_div_right h

theorem lt_of_shiftRight_lt (h : a >>> shift < b >>> shift) : a < b := by
  by_contra hge
  exact absurd (shiftRight_mono (Nat.not_lt.mp hge)) (Nat.not_le.mpr h)

/-- A slot ends before a deadline in a later one. -/
theorem shiftLeft_le_of_lt {n : Nat} (h : n < d >>> shift) : (n + 1) <<< shift ≤ d := by
  rw [Nat.shiftRight_eq_div_pow] at h
  rw [Nat.shiftLeft_eq]
  exact (Nat.mul_le_mul_right _ h).trans (Nat.div_mul_le_self d _)

/-- The absolute slot of an insert is in the wheel, and not behind the deadline's own. -/
theorem insertSlot_spec (shift : Nat) (w : Wheel) (t : TaskId) :
    w.nowSlot ≤ insertSlot shift w t ∧ insertSlot shift w t < w.nowSlot + sleepQueueSize ∧
      (insertSlot shift w t ≤ w.deadline t >>> shift ∨ insertSlot shift w t ≤ w.nowSlot) ∧
      (w.nowSlot < w.deadline t >>> shift → w.nowSlot < insertSlot shift w t) := by
  have hsize : sleepQueueSize = 512 := rfl
  unfold insertSlot
  dsimp only
  split <;> split <;> omega

/-- Slots of different times within a lap are different. -/
theorem slot_ne {n m : Nat} (h1 : a ≤ n) (h2 : n < a + sleepQueueSize) (h3 : a ≤ m)
    (h4 : m < a + sleepQueueSize) (hne : n ≠ m) : n % sleepQueueSize ≠ m % sleepQueueSize := by
  have hsize : sleepQueueSize = 512 := rfl
  rw [hsize] at h2 h4 ⊢
  omega

/-! ## One slot -/

theorem foldl_min (f : TaskId → Nat) : ∀ (l : List TaskId) (m : Nat),
    let r := l.foldl (fun m t => if f t < m then f t else m) m
    r ≤ m ∧ (∀ t ∈ l, r ≤ f t) ∧ (r = m ∨ ∃ t ∈ l, f t = r)
  | [], m => by simp
  | t :: l, m => by
    obtain ⟨h1, h2, h3⟩ := foldl_min f l (if f t < m then f t else m)
    refine ⟨h1.trans (by split <;> omega), fun u hu => ?_, ?_⟩
    · rcases List.mem_cons.mp hu with rfl | hu
      · exact h1.trans (by split <;> omega)
      · exact h2 u hu
    · rcases h3 with h3 | ⟨u, hu, he⟩
      · by_cases ht : f t < m
        · rw [if_pos ht] at h3
          exact Or.inr ⟨t, List.mem_cons_self, by rw [List.foldl_cons, if_pos ht, h3]⟩
        · rw [if_neg ht] at h3
          exact Or.inl (by rw [List.foldl_cons, if_neg ht, h3])
      · exact Or.inr ⟨u, List.mem_cons_of_mem t hu, he⟩

theorem wheelBucketMin_isLeast (hne : w.queue.list b ≠ [])
    (hlt : ∀ t ∈ w.queue.list b, w.deadline t < uint64Size) :
    IsLeast {d | ∃ t ∈ w.queue.list b, w.deadline t = d} (wheelBucketMin w b) := by
  obtain ⟨h1, h2, h3⟩ := foldl_min w.deadline (w.queue.list b) uint64Max
  refine ⟨?_, ?_⟩
  · rcases h3 with h3 | h3
    · -- all deadlines are the largest number there is
      obtain ⟨t, ht⟩ := List.exists_mem_of_ne_nil _ hne
      refine ⟨t, ht, ?_⟩
      have := h2 t ht
      have := hlt t ht
      unfold wheelBucketMin
      unfold uint64Size uint64Max at *
      omega
    · exact h3
  · rintro d ⟨t, ht, rfl⟩
    exact h2 t ht

/-- A slot whose tasks, bit and minimum stay as they are. -/
theorem BucketOk.congr (h : BucketOk w b) (hl : w'.queue.list b = w.queue.list b)
    (ho : w'.occ.testBit b = w.occ.testBit b) (hm : w'.min b = w.min b)
    (hd : ∀ t ∈ w.queue.list b, w'.deadline t = w.deadline t) : BucketOk w' b := by
  have hset : {d | ∃ t ∈ w'.queue.list b, w'.deadline t = d} =
      {d | ∃ t ∈ w.queue.list b, w.deadline t = d} := by
    ext d
    rw [hl]
    exact ⟨fun ⟨t, ht, he⟩ => ⟨t, ht, hd t ht ▸ he⟩, fun ⟨t, ht, he⟩ => ⟨t, ht, (hd t ht).trans he⟩⟩
  refine ⟨by rw [ho, hl]; exact h.occ, fun hne => ?_⟩
  rw [hset, hm]
  exact h.min (hl ▸ hne)

/-- An empty slot whose bit is clear. -/
theorem BucketOk.of_empty (hl : w.queue.list b = []) (ho : w.occ.testBit b = false) :
    BucketOk w b :=
  ⟨by simp [hl, ho], fun hne => absurd hl hne⟩

theorem remove_list (h : l.loc t ≠ some b) :
    (l.remove t).list b = l.list b := by
  unfold Links.remove
  split
  · rfl
  · rename_i q hq
    have hb : b ≠ q := by
      rintro rfl
      exact h hq
    exact update_of_ne hb _ _

theorem remove_list_self (h : l.loc t = some b) :
    (l.remove t).list b = (l.list b).erase t := by
  rw [Links.remove, h]
  exact update_self b _ _

theorem pushBack_list {q : Nat} :
    (l.pushBack q t).list b = if b = q then l.list q ++ [t] else l.list b := by
  show update l.list q _ b = _
  rw [update_apply]

section
variable (h : WheelInv shift busy ahead w)
include h

theorem WheelInv.sleepers_lt (ht : sleepers w t = some d) : d < uint64Size := by
  unfold sleepers at ht
  split at ht
  · cases ht
  · rename_i hl
    cases ht
    exact h.range t hl

/-! ## Inserting and removing -/

/-- A sleeper's slot is one of the wheel's. -/
theorem WheelInv.slot_lt (ht : w.queue.loc t = some b) : b < sleepQueueSize := by
  obtain ⟨n, -, -, rfl, -⟩ := h.place t b ht
  exact Nat.mod_lt _ (by decide)

/-- The deadline of a task that does not sleep is of no account. -/
theorem WheelInv.setDeadline (ht : w.queue.loc t = none) :
    WheelInv shift busy ahead { w with deadline := update w.deadline t d } := by
  have hother : ∀ u, w.queue.loc u ≠ none → update w.deadline t d u = w.deadline u := by
    intro u hu
    refine update_of_ne ?_ _ _
    rintro rfl
    exact hu ht
  refine ⟨h.wf, fun b hb hbusy => ?_, fun u b hu => ?_, fun u hu => ?_⟩
  · refine (h.bucket b hb hbusy).congr rfl rfl rfl fun u hu => hother u ?_
    rw [(h.wf.mem u b).mp hu]
    simp
  · dsimp only
    rw [hother u (by rw [show w.queue.loc u = some b from hu]; simp)]
    exact h.place u b hu
  · dsimp only
    rw [hother u hu]
    exact h.range u hu

/-- A sleeper that is on no slot is put into one. -/
theorem WheelInv.insert (ht : w.queue.loc t = none)
    (hd : w.deadline t < uint64Size) : WheelInv shift busy ahead (wheelInsert shift w t) := by
  obtain ⟨h1, h2, h3, -⟩ := insertSlot_spec shift w t
  refine ⟨h.wf.pushBack ht, fun b hb hbusy => ?_, fun u b hu => ?_, fun u hu => ?_⟩
  · have hok := h.bucket b hb hbusy
    by_cases hbq : b = insertSlot shift w t % sleepQueueSize
    · subst hbq
      refine ⟨?_, fun _ => ?_⟩
      · simp [wheelInsert, Bitmap.testBit_setBit, pushBack_list]
      · -- the new deadline is the least, or the old least one still is
        have hlist : (wheelInsert shift w t).queue.list (insertSlot shift w t % sleepQueueSize) =
            w.queue.list (insertSlot shift w t % sleepQueueSize) ++ [t] := by
          simp [wheelInsert, pushBack_list]
        rw [hlist]
        simp only [wheelInsert]
        split
        · rename_i hor
          rw [update_self]
          refine ⟨⟨t, by simp, rfl⟩, ?_⟩
          rintro d ⟨u, hu, rfl⟩
          rcases List.mem_append.mp hu with hu | hu
          · rcases hor with hnil | hlt
            · rw [hnil] at hu
              cases hu
            · exact hlt.le.trans ((hok.min (List.ne_nil_of_mem hu)).2 ⟨u, hu, rfl⟩)
          · rw [List.mem_singleton.mp hu]
        · rename_i hor
          obtain ⟨hne, hle⟩ := not_or.mp hor
          obtain ⟨⟨u, hu, he⟩, hleast⟩ := hok.min hne
          refine ⟨⟨u, List.mem_append_left _ hu, he⟩, ?_⟩
          rintro d ⟨v, hv, rfl⟩
          rcases List.mem_append.mp hv with hv | hv
          · exact hleast ⟨v, hv, rfl⟩
          · rw [List.mem_singleton.mp hv]
            exact Nat.not_lt.mp hle
    · refine hok.congr ?_ ?_ ?_ fun _ _ => rfl
      · simp [wheelInsert, pushBack_list, hbq]
      · simp [wheelInsert, Bitmap.testBit_setBit, hbq]
      · simp only [wheelInsert]
        split
        · exact update_of_ne hbq _ _
        · rfl
  · simp only [wheelInsert, Links.pushBack_loc, update_apply] at hu
    split at hu
    · rename_i hut
      cases hu
      subst hut
      refine ⟨_, h1, h2, rfl, ?_⟩
      exact h3.imp_right Or.inl
    · exact h.place u b hu
  · simp only [wheelInsert, Links.pushBack_loc, update_apply] at hu
    split at hu
    · rename_i hut
      rw [hut]
      exact hd
    · exact h.range u hu

end

theorem sleepers_insert : sleepers (wheelInsert shift w t) =
    update (sleepers w) t (some (w.deadline t)) := by
  funext u
  simp only [sleepers, wheelInsert, Links.pushBack_loc, update_apply]
  split <;> simp_all

/-- Unlinking keeps all but the cached data of the sleeper's slot. -/
theorem WheelInv.unlink (h : WheelInv shift busy ahead w) (ht : w.queue.loc t = some b)
    (hbusy : busy = none ∨ busy = some b) (dl : TaskId → Nat)
    (hdl : ∀ u, u ≠ t → dl u = w.deadline u) :
    WheelInv shift (some b) ahead { w with queue := w.queue.remove t, deadline := dl } := by
  have hloc : ∀ {u}, (w.queue.remove t).loc u ≠ none → u ≠ t := by
    rintro u hu rfl
    simp at hu
  refine ⟨h.wf.remove t, fun c hc hcb => ?_, fun u c hu => ?_, fun u hu => ?_⟩
  · have hne : w.queue.loc t ≠ some c := by
      rw [ht]
      exact hcb
    refine (h.bucket c hc ?_).congr (remove_list hne) rfl rfl fun u hu => hdl u ?_
    · rcases hbusy with rfl | rfl
      · simp
      · exact hcb
    · rintro rfl
      exact hne ((h.wf.mem u c).mp hu)
  · have hut : u ≠ t := hloc (by rw [hu]; simp)
    simp only [Links.remove_loc, update_of_ne hut] at hu
    dsimp only
    rw [hdl u hut]
    exact h.place u c hu
  · have hut : u ≠ t := hloc hu
    simp only [Links.remove_loc, update_of_ne hut] at hu
    dsimp only
    rw [hdl u hut]
    exact h.range u hu

/-- The cached data of the busy slot is put right. -/
theorem WheelInv.settle (h : WheelInv shift (some b) ahead w) (hq : w'.queue = w.queue)
    (hd : w'.deadline = w.deadline) (hn : w'.nowSlot = w.nowSlot)
    (ho : ∀ c, c ≠ b → w'.occ.testBit c = w.occ.testBit c) (hm : ∀ c, c ≠ b → w'.min c = w.min c)
    (hb : BucketOk w' b) : WheelInv shift none ahead w' := by
  refine ⟨hq ▸ h.wf, fun c hc _ => ?_, ?_, ?_⟩
  · by_cases hcb : c = b
    · rw [hcb]
      exact hb
    · exact (h.bucket c hc (by simpa using Ne.symm hcb)).congr (by rw [hq]) (ho c hcb) (hm c hcb)
        fun t _ => by rw [hd]
  · rw [hq, hd, hn]
    exact h.place
  · rw [hq, hd]
    exact h.range

theorem WheelInv.remove (h : WheelInv shift none ahead w) (t : TaskId) :
    WheelInv shift none ahead (wheelRemove w t) := by
  unfold wheelRemove
  cases ht : w.queue.loc t with
  | none => exact h
  | some b =>
    have h1 := h.unlink ht (Or.inl rfl) w.deadline fun _ _ => rfl
    have hok := h.bucket b (h.slot_lt ht) (by simp)
    have hrange : ∀ u ∈ (w.queue.remove t).list b, w.deadline u < uint64Size := fun u hu =>
      h1.range u (by rw [(h1.wf.mem u b).mp hu]; simp)
    dsimp only
    split
    · rename_i hnil
      refine h1.settle rfl rfl rfl (fun c hc => ?_) (fun _ _ => rfl) (.of_empty hnil ?_)
      · simp [Bitmap.testBit_clearBit, hc]
      · simp [Bitmap.testBit_clearBit]
    · rename_i hne
      have hocc : w.occ.testBit b = true ↔ (w.queue.remove t).list b ≠ [] := by
        simp only [hne, ne_eq, not_false_eq_true, iff_true]
        exact hok.occ.mpr (List.ne_nil_of_mem ((h.wf.mem t b).mpr ht))
      split
      · refine h1.settle rfl rfl rfl (fun _ _ => rfl) (fun c hc => update_of_ne hc _ _)
          ⟨hocc, fun _ => ?_⟩
        dsimp only
        rw [update_self]
        exact wheelBucketMin_isLeast (w := { w with queue := w.queue.remove t }) hne hrange
      · -- the least deadline was another sleeper's
        rename_i hmin
        refine h1.settle rfl rfl rfl (fun _ _ => rfl) (fun _ _ => rfl) ⟨hocc, fun _ => ?_⟩
        obtain ⟨⟨u, hu, he⟩, hleast⟩ := hok.min (List.ne_nil_of_mem ((h.wf.mem t b).mpr ht))
        have hut : u ≠ t := by
          rintro rfl
          exact hmin he
        have herase : (w.queue.remove t).list b = (w.queue.list b).erase t := remove_list_self ht
        refine ⟨⟨u, ?_, he⟩, ?_⟩
        · rw [herase]
          exact (List.mem_erase_of_ne hut).mpr hu
        · rintro d ⟨v, hv, rfl⟩
          rw [herase] at hv
          exact hleast ⟨v, List.mem_of_mem_erase hv, rfl⟩

theorem wheelRemove_nowSlot : (wheelRemove w t).nowSlot = w.nowSlot := by
  unfold wheelRemove
  split
  · rfl
  · dsimp only
    split_ifs <;> rfl

theorem sleepers_remove : sleepers (wheelRemove w t) = update (sleepers w) t none := by
  funext u
  unfold wheelRemove
  split
  · rename_i ht
    by_cases hu : u = t
    · simp [sleepers, hu, ht]
    · rw [update_of_ne hu]
  · dsimp only
    split_ifs <;> simp only [sleepers, Links.remove_loc, update_apply] <;> split <;> simp

/-! ## Waking -/

/-- From `w₀` the tasks `ws` were woken by the time `now`, each due and once, and nobody else. -/
structure Woke (now : Nat) (w₀ : Wheel) (ws : List TaskId) (w : Wheel) : Prop where
  nodup : ws.Nodup
  due : ∀ t ∈ ws, ∃ d ≤ now, sleepers w₀ t = some d
  left : ∀ t, sleepers w t = if t ∈ ws then none else sleepers w₀ t

variable {w₀ : Wheel} {ws : List TaskId} {p : Wheel × List TaskId} {n : Nat} {l : List TaskId}

theorem Woke.refl : Woke now w [] w :=
  ⟨List.nodup_nil, by simp, by simp⟩

theorem Woke.keep (h : Woke now w₀ ws w) (hs : sleepers w' = sleepers w) : Woke now w₀ ws w' :=
  ⟨h.nodup, h.due, hs ▸ h.left⟩

theorem sleepers_wake : sleepers (wheelWake w t) = update (sleepers w) t none := by
  funext u
  simp only [sleepers, wheelWake, Links.remove_loc, update_apply]
  split <;> simp

theorem Woke.wake (h : Woke now w₀ ws w) (ht : sleepers w t = some d) (hd : d ≤ now) :
    Woke now w₀ (ws ++ [t]) (wheelWake w t) := by
  have hleft := h.left t
  have hnew : t ∉ ws := by
    intro hm
    rw [if_pos hm, ht] at hleft
    cases hleft
  rw [if_neg hnew, ht] at hleft
  refine ⟨?_, fun u hu => ?_, fun u => ?_⟩
  · exact List.nodup_append'.mpr ⟨h.nodup, List.nodup_singleton t, by simpa using hnew⟩
  · rcases List.mem_append.mp hu with hu | hu
    · exact h.due u hu
    · rw [List.mem_singleton.mp hu]
      exact ⟨d, hd, hleft.symm⟩
  · rw [sleepers_wake, update_apply]
    by_cases hu : u = t
    · simp [hu]
    · simp [hu, h.left u]

/-- Someone unlinked and woken. -/
theorem WheelInv.wake (h : WheelInv shift (some b) ahead w)
    (ht : w.queue.loc t = some b) : WheelInv shift (some b) ahead (wheelWake w t) :=
  h.unlink ht (Or.inr rfl) _ fun _ hu => update_of_ne hu _ _

/-! ## Slots that time has passed -/

/-- In the middle of passing the absolute slot `n`, with the sleepers `l` still in it. -/
structure Draining (shift now ahead : Nat) (w₀ : Wheel) (n : Nat) (l : List TaskId)
    (p : Wheel × List TaskId) : Prop where
  inv : WheelInv shift (some (n % sleepQueueSize)) ahead p.1
  list : p.1.queue.list (n % sleepQueueSize) = l
  slot : p.1.nowSlot = n
  woke : Woke now w₀ p.2 p.1

theorem drainOne_draining (h : Draining shift now ahead w₀ n (t :: l) p) (hn : n < now >>> shift) :
    Draining shift now ahead w₀ n l (drainOne shift p t) := by
  have ht := h.inv.wf.loc_head h.list
  obtain rfl := h.slot
  unfold drainOne
  split
  · -- not yet due: into another slot, as the deadline's slot is later than this one
    rename_i hlater
    have h1 := h.inv.unlink ht (Or.inr rfl) p.1.deadline fun _ _ => rfl
    have hfree : (p.1.queue.remove t).loc t = none := by simp
    obtain ⟨h2, h3, -, h4⟩ := insertSlot_spec shift { p.1 with queue := p.1.queue.remove t } t
    have hne := slot_ne le_rfl (Nat.lt_add_of_pos_right (by decide)) h2 h3 (h4 hlater).ne
    refine ⟨h1.insert hfree (h.inv.range t (by simp [ht])), ?_, rfl, h.woke.keep ?_⟩
    · unfold wheelInsert
      rw [pushBack_list, if_neg hne]
      exact h.inv.wf.remove_head h.list
    · rw [sleepers_insert]
      funext u
      simp only [update_apply, sleepers, Links.remove_loc]
      split
      · rename_i hu
        rw [hu, ht, if_neg (by simp)]
      · rfl
  · refine ⟨h.inv.wake ht, h.inv.wf.remove_head h.list, rfl, h.woke.wake (sleepers_of_loc ht) ?_⟩
    have hlt : p.1.deadline t >>> shift < now >>> shift := by omega
    exact (lt_of_shiftRight_lt hlt).le

theorem drain_spec (hn : n < now >>> shift) : ∀ (l : List TaskId) (p : Wheel × List TaskId),
    Draining shift now ahead w₀ n l p →
    Draining shift now ahead w₀ n [] (l.foldl (drainOne shift) p)
  | [], _, h => h
  | _ :: l, _, h => drain_spec hn l _ (drainOne_draining h hn)

/-- On the way to the slot of `now`, at the absolute slot `n`. -/
structure Passing (shift now : Nat) (w₀ : Wheel) (n : Nat) (p : Wheel × List TaskId) : Prop where
  inv : WheelInv shift none (now >>> shift) p.1
  slot : p.1.nowSlot = n
  woke : Woke now w₀ p.2 p.1

theorem passSlot_passing (h : Passing shift now w₀ n p) (hn : n < now >>> shift) :
    Passing shift now w₀ (n + 1) (passSlot shift p) := by
  have hstart : Draining shift now (now >>> shift) w₀ n (p.1.queue.list (n % sleepQueueSize)) p :=
    ⟨⟨h.inv.wf, fun b hb _ => h.inv.bucket b hb (by simp), h.inv.place, h.inv.range⟩, rfl,
      h.slot, h.woke⟩
  have hend := drain_spec hn _ _ hstart
  unfold passSlot
  dsimp only
  rw [h.slot]
  generalize (p.1.queue.list (n % sleepQueueSize)).foldl (drainOne shift) p = p' at hend ⊢
  refine ⟨⟨hend.inv.wf, fun b hb _ => ?_, fun u b hu => ?_, hend.inv.range⟩,
    congrArg (· + 1) hend.slot, hend.woke.keep rfl⟩
  · by_cases hbn : b = n % sleepQueueSize
    · rw [hbn]
      refine .of_empty hend.list ?_
      simp [Bitmap.testBit_clearBit]
    · refine (hend.inv.bucket b hb (by simpa using Ne.symm hbn)).congr rfl ?_ rfl fun _ _ => rfl
      simp [Bitmap.testBit_clearBit, hbn]
  · -- nobody is left in the slot that was passed
    obtain ⟨m, h1, h2, h3, h4⟩ := hend.inv.place u b hu
    have hm : m ≠ n := by
      rintro rfl
      have hmem := (hend.inv.wf.mem u b).mpr hu
      rw [← h3, hend.list] at hmem
      cases hmem
    have := hend.slot
    exact ⟨m, by simp only; omega, by simp only; omega, h3, by simp only; omega⟩

theorem passSlots_passing (h : Passing shift now w₀ n p) :
    ∀ k, n + k ≤ now >>> shift → Passing shift now w₀ (n + k) ((passSlot shift)^[k] p)
  | 0, _ => h
  | k + 1, hk => by
    rw [Function.iterate_succ_apply']
    have hlt : n + k < now >>> shift := hk
    exact passSlot_passing (passSlots_passing h k hlt.le) hlt

/-- In the lap that ends before `a + 512` there is a time for each slot. -/
theorem exists_slot (a m : Nat) : ∃ n, a ≤ n ∧ n < a + sleepQueueSize ∧
    n % sleepQueueSize = m % sleepQueueSize := by
  have hsize : sleepQueueSize = 512 := rfl
  rw [hsize]
  exact ⟨a + (m + 511 * a) % 512, by omega, by omega, by omega⟩

/-- How far time is ahead of the wheel, in 64-bit arithmetic. -/
theorem slots_behind (h : b ≤ a) (ha : a < uint64Size) :
    (a + uint64Size - b) % uint64Size = a - b := by
  rw [show a + uint64Size - b = a - b + uint64Size by omega, Nat.add_mod_right,
    Nat.mod_eq_of_lt (by omega)]

/-- A wheel that is at rest and not ahead of time sets out. -/
theorem skipLaps_passing (h : WheelInv shift none 0 w) (hw : w.nowSlot ≤ now >>> shift)
    (hnow : now < uint64Size) :
    ∃ n ≤ now >>> shift, Passing shift now w n (skipLaps w (now >>> shift), []) := by
  have hlt : now >>> shift < uint64Size := (Nat.shiftRight_le now shift).trans_lt hnow
  unfold skipLaps
  rw [slots_behind hw hlt]
  split
  · refine ⟨now >>> shift - sleepQueueSize, Nat.sub_le _ _,
      ⟨h.wf, fun b hb _ => ?_, fun u b hu => ?_, h.range⟩, rfl,
      Woke.refl.keep (sleepers_congr rfl rfl)⟩
    · exact (h.bucket b hb (by simp)).congr rfl rfl rfl fun _ _ => rfl
    · -- a time with the same slot in the lap before now
      obtain ⟨m, -, -, rfl, -⟩ := h.place u b hu
      obtain ⟨m', h1, h2, h3⟩ := exists_slot (now >>> shift - sleepQueueSize) m
      exact ⟨m', h1, h2, h3, Or.inr (Or.inr (by omega))⟩
  · refine ⟨_, hw, ⟨h.wf, h.bucket, fun u b hu => ?_, h.range⟩, rfl, Woke.refl⟩
    obtain ⟨m, h1, h2, h3, h4⟩ := h.place u b hu
    exact ⟨m, h1, h2, h3, h4.imp_right (Or.imp_right fun h5 => absurd h5 (Nat.not_lt_zero m))⟩

/-! ## The slot that time has reached -/

/-- In the middle of the slot of `now`, with the sleepers `l` still to look at. -/
structure Waking (shift now : Nat) (w₀ : Wheel) (l : List TaskId) (p : Wheel × List TaskId) :
    Prop where
  inv : WheelInv shift (some (now >>> shift % sleepQueueSize)) 0 p.1
  slot : p.1.nowSlot = now >>> shift
  woke : Woke now w₀ p.2 p.1
  todo : ∀ t ∈ l, p.1.queue.loc t = some (now >>> shift % sleepQueueSize)
  nodup : l.Nodup
  seen : ∀ t, p.1.queue.loc t = some (now >>> shift % sleepQueueSize) → t ∉ l →
    now < p.1.deadline t
  occ : p.1.queue.list (now >>> shift % sleepQueueSize) ≠ [] →
    p.1.occ.testBit (now >>> shift % sleepQueueSize) = true

theorem wakeDue_waking (h : Waking shift now w₀ (t :: l) p) :
    Waking shift now w₀ l (wakeDue now p t) := by
  have ht := h.todo t List.mem_cons_self
  obtain ⟨htl, hl⟩ := List.nodup_cons.mp h.nodup
  unfold wakeDue
  split
  · rename_i hdue
    have hother : ∀ u, u ≠ t → (wheelWake p.1 t).queue.loc u = p.1.queue.loc u ∧
        (wheelWake p.1 t).deadline u = p.1.deadline u := fun u hu => by
      simp [wheelWake, update_of_ne hu]
    refine ⟨h.inv.wake ht, h.slot, h.woke.wake (sleepers_of_loc ht) hdue, fun u hu => ?_, hl,
      fun u hu hul => ?_, fun _ => h.occ (List.ne_nil_of_mem ((h.inv.wf.mem t _).mpr ht))⟩
    · have hut : u ≠ t := ne_of_mem_of_not_mem hu htl
      exact (hother u hut).1.trans (h.todo u (List.mem_cons_of_mem t hu))
    · have hut : u ≠ t := by
        rintro rfl
        simp [wheelWake] at hu
      rw [(hother u hut).2]
      rw [(hother u hut).1] at hu
      exact h.seen u hu (by simp [hut, hul])
  · rename_i hdue
    refine ⟨h.inv, h.slot, h.woke, fun u hu => h.todo u (List.mem_cons_of_mem t hu), hl,
      fun u hu hul => ?_, h.occ⟩
    by_cases hut : u = t
    · rw [hut]
      exact Nat.not_le.mp hdue
    · exact h.seen u hu (by simp [hut, hul])

theorem wakeDues_waking : ∀ (l : List TaskId) (p : Wheel × List TaskId),
    Waking shift now w₀ l p → Waking shift now w₀ [] (l.foldl (wakeDue now) p)
  | [], _, h => h
  | _ :: l, _, h => wakeDues_waking l _ (wakeDue_waking h)

/-- What a call leaves behind. -/
structure Rested (shift now : Nat) (w₀ : Wheel) (p : Wheel × List TaskId) : Prop where
  inv : WheelInv shift none 0 p.1
  slot : p.1.nowSlot = now >>> shift
  woke : Woke now w₀ p.2 p.1
  late : ∀ t b, p.1.queue.loc t = some b → now < p.1.deadline t

/-- Whoever is due at last is in the slot that time has reached. -/
theorem WheelInv.current (h : WheelInv shift busy 0 w) (hs : w.nowSlot = now >>> shift)
    (ht : w.queue.loc t = some b) (hd : w.deadline t ≤ now) :
    b = now >>> shift % sleepQueueSize := by
  obtain ⟨n, h1, -, rfl, h4⟩ := h.place t b ht
  have hle : w.deadline t >>> shift ≤ now >>> shift := shiftRight_mono hd
  have hn : n = now >>> shift := by
    rcases h4 with h4 | h4 | h4
    · exact le_antisymm (h4.trans hle) (hs ▸ h1)
    · exact le_antisymm (hs ▸ h4) (hs ▸ h1)
    · exact absurd h4 (Nat.not_lt_zero n)
  rw [hn]

theorem wakeCurrent_rested (h : Passing shift now w₀ (now >>> shift) p) :
    Rested shift now w₀ (wakeCurrent now p) := by
  have hslot := h.slot
  have hrest : WheelInv shift (some (now >>> shift % sleepQueueSize)) 0 p.1 := by
    refine ⟨h.inv.wf, fun b hb _ => h.inv.bucket b hb (by simp), fun u b hu => ?_, h.inv.range⟩
    obtain ⟨m, h1, h2, h3, h4⟩ := h.inv.place u b hu
    refine ⟨m, h1, h2, h3, h4.imp_right (Or.imp_right fun h5 => absurd h5 ?_)⟩
    exact Nat.not_lt.mpr (hslot ▸ h1)
  have hstart : Waking shift now w₀ (p.1.queue.list (now >>> shift % sleepQueueSize)) p :=
    ⟨hrest, hslot, h.woke, fun u hu => (h.inv.wf.mem u _).mp hu, h.inv.wf.nodup _,
      fun u hu hul => absurd ((h.inv.wf.mem u _).mpr hu) hul,
      (h.inv.bucket _ (Nat.mod_lt _ (by decide)) (by simp)).occ.mpr⟩
  have hend := wakeDues_waking _ _ hstart
  unfold wakeCurrent
  dsimp only
  rw [hslot]
  generalize (p.1.queue.list (now >>> shift % sleepQueueSize)).foldl (wakeDue now) p = p' at hend ⊢
  have hlate : ∀ t b, p'.1.queue.loc t = some b → now < p'.1.deadline t := by
    intro u b hu
    by_contra hdue
    have hb := hend.inv.current hend.slot hu (Nat.not_lt.mp hdue)
    exact hdue (hend.seen u (hb ▸ hu) (by simp))
  split
  · rename_i hnil
    refine ⟨hend.inv.settle rfl rfl rfl (fun c hc => ?_) (fun _ _ => rfl) (.of_empty hnil ?_),
      hend.slot, hend.woke.keep rfl, hlate⟩
    · simp [Bitmap.testBit_clearBit, hc]
    · simp [Bitmap.testBit_clearBit]
  · rename_i hne
    refine ⟨hend.inv.settle rfl rfl rfl (fun _ _ => rfl) (fun c hc => update_of_ne hc _ _)
      ⟨⟨fun _ => hne, hend.occ⟩, fun _ => ?_⟩, hend.slot, hend.woke.keep rfl, hlate⟩
    dsimp only
    rw [update_self]
    refine wheelBucketMin_isLeast hne fun u hu => hend.inv.range u ?_
    rw [(hend.inv.wf.mem u _).mp hu]
    simp

/-- A call at time `now` on a wheel that is at rest. -/
theorem schedWakeSleepersAt_rested (h : WheelInv shift none 0 w) (hw : w.nowSlot ≤ now >>> shift)
    (hnow : now < uint64Size) : Rested shift now w (schedWakeSleepersAt shift w now) := by
  obtain ⟨n, hn, hpass⟩ := skipLaps_passing h hw hnow
  have hslot : (skipLaps w (now >>> shift)).nowSlot = n := hpass.slot
  have hend := passSlots_passing hpass (now >>> shift - n) (by omega)
  rw [Nat.add_sub_cancel' hn] at hend
  unfold schedWakeSleepersAt
  dsimp only
  rw [hslot]
  exact wakeCurrent_rested hend

/-- Everyone due is woken, and nobody else. -/
theorem Rested.mem_iff (h : Rested shift now w p) :
    t ∈ p.2 ↔ ∃ d ≤ now, sleepers w t = some d := by
  refine ⟨h.woke.due t, fun ⟨d, hd, hs⟩ => ?_⟩
  by_contra hno
  have hleft := h.woke.left t
  rw [if_neg hno, hs] at hleft
  cases hl : p.1.queue.loc t with
  | none => simp [sleepers, hl] at hleft
  | some b =>
    rw [sleepers_of_loc hl] at hleft
    have := h.late t b hl
    cases hleft
    omega

/-! ## The timer -/

/-- The scan stops at the first occupied slot. -/
theorem wheelScanFromNow_le {i : Nat} (hi : i < sleepQueueSize)
    (ho : w.occ.testBit ((w.nowSlot + i) % sleepQueueSize) = true) :
    wheelScanFromNow w ≤ i ∧
      w.occ.testBit ((w.nowSlot + wheelScanFromNow w) % sleepQueueSize) = true := by
  unfold wheelScanFromNow
  cases hf : (List.range sleepQueueSize).find? _ with
  | none =>
    rw [List.find?_eq_none] at hf
    exact absurd ho (hf i (List.mem_range.mpr hi))
  | some k =>
    rw [Option.getD_some]
    obtain ⟨hbit, -, hk⟩ := List.find?_range_eq_some.mp hf
    refine ⟨?_, hbit⟩
    by_contra hik
    have := hk i (Nat.not_le.mp hik)
    simp [ho] at this

/-- No sleeper's deadline is before both the earliest deadline of the first occupied slot and the
end of that slot. -/
theorem WheelInv.first_slot (h : WheelInv shift none 0 w) {d : Nat} (ht : sleepers w t = some d) :
    wheelScanFromNow w < sleepQueueSize ∧
      (w.min ((w.nowSlot + wheelScanFromNow w) % sleepQueueSize) ≤ d ∨
        (w.nowSlot + wheelScanFromNow w + 1) <<< shift ≤ d) := by
  cases hl : w.queue.loc t with
  | none => simp [sleepers, hl] at ht
  | some b =>
    rw [sleepers_of_loc hl] at ht
    cases ht
    obtain ⟨n, h1, h2, rfl, h4⟩ := h.place t b hl
    have hmem := (h.wf.mem t _).mpr hl
    have hok : ∀ c, BucketOk w (c % sleepQueueSize) := fun c =>
      h.bucket _ (Nat.mod_lt _ (by decide)) (by simp)
    obtain ⟨i, rfl⟩ := Nat.exists_eq_add_of_le h1
    obtain ⟨hle, hocc⟩ := wheelScanFromNow_le (i := i) (by omega)
      ((hok _).occ.mpr (List.ne_nil_of_mem hmem))
    refine ⟨by omega, ?_⟩
    rcases hle.eq_or_lt with heq | hlt
    · rw [heq]
      exact Or.inl (((hok _).min (List.ne_nil_of_mem hmem)).2 ⟨t, hmem, rfl⟩)
    · refine Or.inr (shiftLeft_le_of_lt ?_)
      omega

/-- The timer is not programmed later than a sleeper's deadline or the minimal slack from now, and
turned off only if no deadline can come. -/
theorem schedArmTimer_le {freq : Nat} (h : WheelInv (slotShift freq) none 0 w) (slice : Option Nat)
    {d : Nat} (ht : sleepers w t = some d) :
    match schedArmTimer freq w now slice with
    | some x => x ≤ max d (now + minTimerSlack freq)
    | none => d = uint64Max := by
  obtain ⟨hk, hfirst⟩ := h.first_slot ht
  have hrange := h.sleepers_lt ht
  have hmax : uint64Size = uint64Max + 1 := rfl
  have hsoon : (now + minTimerSlack freq) % uint64Size ≤ now + minTimerSlack freq := Nat.mod_le _ _
  have hmod := Nat.mod_le ((w.nowSlot + wheelScanFromNow w + 1) <<< slotShift freq) uint64Size
  unfold schedArmTimer
  dsimp only
  rw [if_pos hk]
  generalize w.min ((w.nowSlot + wheelScanFromNow w) % sleepQueueSize) = a at *
  generalize (w.nowSlot + wheelScanFromNow w + 1) <<< slotShift freq = e at *
  generalize hx : (if a < e % uint64Size then a else e % uint64Size) = x
  have hxd : x ≤ d := by
    rw [← hx]
    split <;> omega
  have hset : ∀ y ≤ d, match (if y = uint64Max then none
      else if y ≤ (now + minTimerSlack freq) % uint64Size then
        some ((now + minTimerSlack freq) % uint64Size) else some y) with
      | some x => x ≤ max d (now + minTimerSlack freq)
      | none => d = uint64Max := by
    intro y hy
    split_ifs
    · show d = uint64Max
      omega
    · exact hsoon.trans (le_max_right _ _)
    · exact hy.trans (le_max_left _ _)
  cases slice with
  | none => exact hset x hxd
  | some c =>
    refine hset (if c < x then c else x) ?_
    split <;> omega

/-! ## Runs -/

/-- The wheel is at rest and not ahead of time. -/
structure WheelState.Ok (freq : Nat) (s : WheelState) : Prop where
  inv : WheelInv (slotShift freq) none 0 s.wheel
  slot : s.wheel.nowSlot ≤ s.now >>> slotShift freq

/-- What a call leaves is at rest again. -/
theorem Rested.ok {freq : Nat} (h : Rested (slotShift freq) now w₀ p) :
    WheelState.Ok freq ⟨p.1, now⟩ :=
  ⟨h.inv, Nat.le_of_eq h.slot⟩

theorem wheelSystem_ok (freq : Nat) : (wheelSystem freq).Inductive (WheelState.Ok freq) := by
  constructor
  · rintro s ⟨-, hq, ho, hn⟩
    refine ⟨⟨hq ▸ .empty, fun b _ _ => .of_empty (by rw [hq]; rfl) ?_, ?_, ?_⟩, hn.le⟩
    · rw [ho]
      exact Bitmap.testBit_zero b
    · intro t b ht
      rw [hq] at ht
      cases ht
    · intro t ht
      rw [hq] at ht
      exact absurd rfl ht
  · rintro s op s' h hstep
    cases op with
    | insert t d =>
      obtain ⟨ht, hd, rfl⟩ := hstep
      have hlt : update s.wheel.deadline t d t < uint64Size := by
        rwa [update_self]
      exact ⟨(h.inv.setDeadline ht).insert ht hlt, h.slot⟩
    | remove t =>
      obtain rfl := hstep
      refine ⟨h.inv.remove t, ?_⟩
      rw [wheelRemove_nowSlot]
      exact h.slot
    | pass now =>
      obtain ⟨hle, -, rfl⟩ := hstep
      exact ⟨h.inv, h.slot.trans (shiftRight_mono hle)⟩
    | wake now =>
      obtain ⟨hle, hlt, rfl⟩ := hstep
      have hslot : s.wheel.nowSlot ≤ now >>> slotShift freq := h.slot.trans (shiftRight_mono hle)
      have hrest := schedWakeSleepersAt_rested h.inv hslot hlt
      exact hrest.ok

/-- The wheel's purpose: who sleeps until when, and whoever is due is gone after a wake. -/
def alarms : LTS (TaskId → Option Nat) WheelOp where
  init m := m = fun _ => none
  step m op m' :=
    match op with
    | .insert t d => m t = none ∧ m' = Function.update m t (some d)
    | .remove t => m' = Function.update m t none
    | .pass _ => m' = m
    | .wake now => m' = fun t => (m t).filter fun d => now < d

/-- Who is left after a wake. -/
theorem Rested.sleepers_eq (h : Rested shift now w p) :
    sleepers p.1 = fun t => (sleepers w t).filter fun d => now < d := by
  funext t
  rw [h.woke.left t]
  cases hs : sleepers w t with
  | none => simp
  | some d =>
    by_cases hd : d ≤ now
    · rw [if_pos (h.mem_iff.mpr ⟨d, hd, hs⟩), Option.filter_some_neg (by simpa using hd)]
    · have hno : t ∉ p.2 := fun hm => by
        obtain ⟨d', hd', hs'⟩ := h.mem_iff.mp hm
        rw [hs] at hs'
        cases hs'
        exact hd hd'
      rw [if_neg hno, Option.filter_some_pos (by simpa using hd)]

theorem Rested.alarms_step (h : Rested shift now w p) :
    alarms.step (sleepers w) (.wake now) (sleepers (⟨p.1, now⟩ : WheelState).wheel) :=
  h.sleepers_eq

theorem wheel_refines (freq : Nat) : (wheelSystem freq).Refines alarms (WheelState.Ok freq)
    (fun s => sleepers s.wheel) id where
  step {s op s'} h hstep := by
    refine ⟨(wheelSystem_ok freq).step h hstep, ?_⟩
    cases op with
    | insert t d =>
      obtain ⟨ht, -, rfl⟩ := hstep
      refine ⟨by simp [sleepers, ht], ?_⟩
      rw [sleepers_insert]
      funext u
      by_cases hu : u = t
      · simp [hu]
      · simp [sleepers, hu]
    | remove t =>
      obtain rfl := hstep
      exact sleepers_remove
    | pass now =>
      obtain ⟨-, -, rfl⟩ := hstep
      rfl
    | wake now =>
      obtain ⟨hle, hlt, rfl⟩ := hstep
      have hslot : s.wheel.nowSlot ≤ now >>> slotShift freq := h.slot.trans (shiftRight_mono hle)
      have hrest := schedWakeSleepersAt_rested h.inv hslot hlt
      exact hrest.alarms_step

/-- In every state of every run: an insert puts the task on the wheel with its deadline and a
removal takes it off, and neither touches another; a call of `SchedWakeSleepers` now or later
wakes each sleeper whose deadline is at most the time, once, and leaves every other as it is; the
cached data of every slot is right; the timer comes in time for every sleeper. -/
theorem wheel_sound (freq : Nat) {s : WheelState} (h : (wheelSystem freq).Reachable s) :
    (∀ t d s', (wheelSystem freq).step s (.insert t d) s' →
      sleepers s.wheel t = none ∧ sleepers s'.wheel = update (sleepers s.wheel) t (some d)) ∧
    (∀ t s', (wheelSystem freq).step s (.remove t) s' →
      sleepers s'.wheel = update (sleepers s.wheel) t none) ∧
    (∀ now, s.now ≤ now → now < uint64Size →
      let r := schedWakeSleepersAt (slotShift freq) s.wheel now
      r.2.Nodup ∧ ∀ t, (t ∈ r.2 ↔ ∃ d ≤ now, sleepers s.wheel t = some d) ∧
        sleepers r.1 t = if t ∈ r.2 then none else sleepers s.wheel t) ∧
    (∀ b < sleepQueueSize,
      (s.wheel.occ.testBit b = true ↔ s.wheel.queue.list b ≠ []) ∧
      (s.wheel.queue.list b ≠ [] →
        IsLeast {d | ∃ t ∈ s.wheel.queue.list b, s.wheel.deadline t = d} (s.wheel.min b))) ∧
    (∀ now slice t d, sleepers s.wheel t = some d →
      match schedArmTimer freq s.wheel now slice with
      | some x => x ≤ max d (now + minTimerSlack freq)
      | none => d = uint64Max) := by
  have hok := (wheelSystem_ok freq).reachable h
  refine ⟨fun t d s' hstep => ((wheel_refines freq).step hok hstep).2,
    fun t s' hstep => ((wheel_refines freq).step hok hstep).2, fun now hle hlt => ?_,
    fun b hb => ?_, fun now slice t d ht => ?_⟩
  · have hrest := schedWakeSleepersAt_rested hok.inv (hok.slot.trans (shiftRight_mono hle)) hlt
    exact ⟨hrest.woke.nodup, fun t => ⟨hrest.mem_iff, hrest.woke.left t⟩⟩
  · have hb' := hok.inv.bucket b hb (by simp)
    exact ⟨hb'.occ, hb'.min⟩
  · exact schedArmTimer_le hok.inv slice ht

/-- The wheel at boot. -/
def bootWheel : Wheel := ⟨Links.empty, fun _ => 0#32, fun _ => 0, 0, fun _ => 0⟩

/-- Task `t` goes to sleep until `d`, with a timer of 24 MHz. -/
def goesToSleep (t : TaskId) (d : Nat) (w : Wheel) : Wheel :=
  wheelInsert (slotShift 24000000) { w with deadline := Function.update w.deadline t d } t

/-- Task 1 sleeps until 500000 and task 2 until 2000000. At 1000000 the first is woken, and the
second is not. -/
theorem wheel_sound_two : ∃ s, (wheelSystem 24000000).Reachable s ∧
    sleepers s.wheel 1 = some 500000 ∧ sleepers s.wheel 2 = some 2000000 ∧
    (schedWakeSleepersAt (slotShift 24000000) s.wheel 1000000).2.Nodup ∧
    1 ∈ (schedWakeSleepersAt (slotShift 24000000) s.wheel 1000000).2 ∧
    2 ∉ (schedWakeSleepersAt (slotShift 24000000) s.wheel 1000000).2 := by
  have h0 : (wheelSystem 24000000).Reachable ⟨bootWheel, 0⟩ :=
    .init ⟨by decide, rfl, rfl, by decide⟩
  have h1 : (wheelSystem 24000000).Reachable ⟨goesToSleep 1 500000 bootWheel, 0⟩ :=
    h0.step (l := .insert 1 500000) ⟨rfl, by decide, rfl⟩
  have hfree : (goesToSleep 1 500000 bootWheel).queue.loc 2 = none := by decide +kernel
  have h2 : (wheelSystem 24000000).step ⟨goesToSleep 1 500000 bootWheel, 0⟩ (.insert 2 2000000)
      ⟨goesToSleep 2 2000000 (goesToSleep 1 500000 bootWheel), 0⟩ :=
    ⟨hfree, by decide, rfl⟩
  -- both are on the wheel by the clause for inserts
  have ha := ((wheel_sound 24000000 h0).1 1 500000 _ ⟨rfl, by decide, rfl⟩).2
  have hb := ((wheel_sound 24000000 h1).1 2 2000000 _ h2).2
  have h1d : sleepers (goesToSleep 2 2000000 (goesToSleep 1 500000 bootWheel)) 1 = some 500000 := by
    rw [hb, update_of_ne (by decide)]
    exact (congrFun ha 1).trans (update_self _ _ _)
  have h2d : sleepers (goesToSleep 2 2000000 (goesToSleep 1 500000 bootWheel)) 2 =
      some 2000000 := by
    rw [hb, update_self]
  obtain ⟨hnodup, hwake⟩ := (wheel_sound 24000000 (h1.step h2)).2.2.1 1000000 (Nat.zero_le _)
    (by decide)
  refine ⟨_, h1.step h2, h1d, h2d, hnodup, (hwake 1).1.mpr ⟨500000, by decide, h1d⟩, fun hm => ?_⟩
  obtain ⟨d, hd, hs⟩ := (hwake 2).1.mp hm
  rw [h2d] at hs
  cases hs
  exact absurd hd (by decide)

end Zuzu.L3
