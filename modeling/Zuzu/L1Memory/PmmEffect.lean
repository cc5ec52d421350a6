import Mathlib.Tactic
import Zuzu.Core.Pool
import Zuzu.L1Memory.Pmm

/-!
# What the frame operations do to the free frames

Read off the bitmap alone: `Effect p took gave p'` says which frames left the
set of free frames and which entered it. Nothing here needs the free list to be
well formed. Results: one effect lemma per operation, `contigScan_lowest`
for the bitmap scan, and `stepOp_effect`, which says that
an operation hands out only frames it found free.
-/
namespace Zuzu.L1.Pmm
open Zuzu.Core
open Function (update)

variable {p p' : PmmState} {xs l r : List Nat} {pa i : Nat}
variable {pfn : Nat} {p'' : PmmState} {b b' : Bool}

/-! ## Frames and indices -/

/-- The address of the frame with bitmap index `i`. -/
def frameAddr (g : Geometry) (i : Nat) : Nat := pfnToPa (g.pfnBase + i)

theorem frameAddr_eq (g : Geometry) (h : i ≤ g.totalFrames) :
    frameAddr g i = (g.pfnBase + i) * 4096 := by
  have := g.total_eq
  have := g.end_lt
  have := g.base_le
  unfold frameAddr pfnToPa pageSize wordSize
  omega

theorem frameAddr_inj (g : Geometry) {j : Nat} (hi : i < g.totalFrames) (hj : j < g.totalFrames) :
    frameAddr g i = frameAddr g j ↔ i = j := by
  rw [frameAddr_eq g hi.le, frameAddr_eq g hj.le]
  omega

/-- A free frame is a managed frame, so it has an index. -/
theorem isFreeFrame_iff : isFreeFrame p pa = true ↔
    ∃ i, i < p.totalFrames ∧ p.bitmap.testBit i = false ∧ pa = frameAddr p.toGeometry i := by
  have ht := p.total_eq
  unfold isFreeFrame paToPfn pageSize
  simp only [Bool.and_eq_true, beq_iff_eq, decide_eq_true_eq, Bool.not_eq_true']
  constructor
  · rintro ⟨⟨⟨h1, h2⟩, h3⟩, h4⟩
    have hi : pa / 4096 - p.pfnBase < p.totalFrames := by omega
    refine ⟨_, hi, h4, ?_⟩
    rw [frameAddr_eq _ hi.le]
    omega
  · rintro ⟨i, hi, hbit, rfl⟩
    rw [frameAddr_eq _ hi.le]
    have hd : (p.pfnBase + i) * 4096 / 4096 = p.pfnBase + i := by omega
    rw [hd, Nat.add_sub_cancel_left]
    exact ⟨⟨⟨by omega, by omega⟩, by omega⟩, hbit⟩

theorem isFreeFrame_frameAddr (hi : i < p.totalFrames) :
    isFreeFrame p (frameAddr p.toGeometry i) = !p.bitmap.testBit i := by
  rw [Bool.eq_iff_iff, isFreeFrame_iff]
  constructor
  · rintro ⟨j, hj, hbit, he⟩
    rw [(frameAddr_inj _ hi hj).mp he, hbit]
    rfl
  · intro h
    exact ⟨i, hi, by simpa using h, rfl⟩

/-- Indices of the free frames. -/
def clearBits (p : PmmState) : Finset Nat :=
  (Finset.range p.totalFrames).filter fun i => p.bitmap.testBit i = false

theorem mem_clearBits : i ∈ clearBits p ↔ i < p.totalFrames ∧ p.bitmap.testBit i = false := by
  simp [clearBits]

theorem isFreeFrame_iff_clearBits :
    isFreeFrame p pa = true ↔ ∃ i ∈ clearBits p, pa = frameAddr p.toGeometry i := by
  simp only [isFreeFrame_iff, mem_clearBits, and_assoc]

theorem clearBits_card_le (p : PmmState) : (clearBits p).card ≤ p.totalFrames := by
  unfold clearBits
  simpa using Finset.card_filter_le (Finset.range p.totalFrames) fun i => p.bitmap.testBit i = false

/-! ## What a bitmap write does to the free frames -/

/-- `p'` manages the same frames as `p`, with bitmap `m`. -/
structure WithBits (p : PmmState) (m : Bitmap 8) (p' : PmmState) : Prop where
  geometry : p'.toGeometry = p.toGeometry
  bitmap : p'.bitmap = m

theorem WithBits.isFreeFrame_eq (h : WithBits p p.bitmap p') (pa : Nat) :
    isFreeFrame p' pa = isFreeFrame p pa := by
  unfold isFreeFrame
  rw [h.bitmap, h.geometry]

theorem WithBits.clearBits_eq (h : WithBits p p.bitmap p') : clearBits p' = clearBits p := by
  unfold clearBits
  rw [h.bitmap, h.geometry]

theorem WithBits.clearBits_set (h : WithBits p (p.bitmap.setBit i) p') :
    clearBits p' = (clearBits p).erase i := by
  ext j
  unfold clearBits
  rw [h.bitmap, h.geometry]
  simp only [Finset.mem_filter, Finset.mem_erase, Finset.mem_range,
    Bitmap.testBit_setBit _ _ _ (show 0 < 8 by decide), Bool.or_eq_false_iff,
    decide_eq_false_iff_not]
  tauto

theorem WithBits.clearBits_clear (h : WithBits p (p.bitmap.clearBit i) p')
    (hi : i < p.totalFrames) : clearBits p' = insert i (clearBits p) := by
  ext j
  unfold clearBits
  rw [h.bitmap, h.geometry]
  simp only [Finset.mem_filter, Finset.mem_insert, Finset.mem_range,
    Bitmap.testBit_clearBit _ _ _ (show 0 < 8 by decide), Bool.and_eq_false_iff,
    Bool.not_eq_false', decide_eq_true_eq]
  constructor
  · tauto
  · rintro (rfl | h)
    · exact ⟨hi, .inl rfl⟩
    · exact ⟨h.1, .inr h.2⟩

theorem WithBits.isFreeFrame_set (h : WithBits p (p.bitmap.setBit i) p') (hi : i < p.totalFrames) :
    isFreeFrame p' pa = true ↔ isFreeFrame p pa = true ∧ pa ≠ frameAddr p.toGeometry i := by
  rw [isFreeFrame_iff_clearBits, isFreeFrame_iff_clearBits, h.clearBits_set, h.geometry]
  simp only [Finset.mem_erase]
  constructor
  · rintro ⟨j, ⟨hji, hj⟩, rfl⟩
    have hjt := (mem_clearBits.mp hj).1
    exact ⟨⟨j, hj, rfl⟩, fun he => hji ((frameAddr_inj _ hjt hi).mp he)⟩
  · rintro ⟨⟨j, hj, rfl⟩, hne⟩
    exact ⟨j, ⟨fun e => hne (by rw [e]), hj⟩, rfl⟩

theorem WithBits.isFreeFrame_clear (h : WithBits p (p.bitmap.clearBit i) p')
    (hi : i < p.totalFrames) :
    isFreeFrame p' pa = true ↔ isFreeFrame p pa = true ∨ pa = frameAddr p.toGeometry i := by
  rw [isFreeFrame_iff_clearBits, isFreeFrame_iff_clearBits, h.clearBits_clear hi, h.geometry,
    Finset.exists_mem_insert, or_comm]

/-! ## The counter -/

/-- `free_frames` is the number of clear bits. -/
def Counted (p : PmmState) : Prop := p.freeFrames = (clearBits p).card

theorem Counted.set (h : Counted p) (hw : WithBits p (p.bitmap.setBit i) p')
    (hi : i < p.totalFrames) (hc : p.bitmap.testBit i = false)
    (hf : p'.freeFrames = p.freeFrames - 1) : Counted p' := by
  unfold Counted at *
  have hmem : i ∈ clearBits p := mem_clearBits.mpr ⟨hi, hc⟩
  rw [hf, hw.clearBits_set, Finset.card_erase_of_mem hmem, h]

theorem Counted.pos (h : Counted p) (hi : i < p.totalFrames) (hc : p.bitmap.testBit i = false) :
    0 < p.freeFrames := by
  rw [h]
  exact Finset.card_pos.mpr ⟨i, mem_clearBits.mpr ⟨hi, hc⟩⟩

theorem Counted.clear (h : Counted p) (hw : WithBits p (p.bitmap.clearBit i) p')
    (hi : i < p.totalFrames) (hc : p.bitmap.testBit i = true)
    (hf : p'.freeFrames = p.freeFrames + 1) : Counted p' := by
  unfold Counted at *
  have hmem : i ∉ clearBits p := by simp [clearBits, hc]
  rw [hf, hw.clearBits_clear hi, Finset.card_insert_of_notMem hmem, h]

theorem Counted.lt_total (h : Counted p) (hi : i < p.totalFrames)
    (hc : p.bitmap.testBit i = true) : p.freeFrames < p.totalFrames := by
  rw [h]
  have hss : clearBits p ⊂ Finset.range p.totalFrames := by
    refine (Finset.ssubset_iff_of_subset (Finset.filter_subset _ _)).mpr ⟨i, ?_, ?_⟩
    · simpa using hi
    · simp [hc]
  simpa using Finset.card_lt_card hss

/-- The decrement of `free_frames` does not wrap when there is a free frame. -/
theorem Counted.pred (h : Counted p) (hi : i < p.totalFrames) (hc : p.bitmap.testBit i = false) :
    (p.freeFrames + wordSize - 1) % wordSize = p.freeFrames - 1 := by
  have hpos := h.pos hi hc
  have hle := clearBits_card_le p
  rw [← h] at hle
  have htot := p.total_eq
  have hend := p.end_lt
  unfold wordSize
  omega

/-! ## The list operations -/

/-- The free list of `p` consists of the nodes `xs`. -/
def Linked (p : PmmState) (xs : List Nat) : Prop := IsDList 0 p.next p.prev p.freelistHead xs


theorem pushNode_linked (h : Linked p xs) (h0 : pa ≠ 0) (hpa : pa ∉ xs) :
    Linked (pushNode p pa) (pa :: xs) := IsDList.push h h0 hpa

theorem popNode_linked (h : Linked p (pa :: xs)) :
    (popNode p).2 = pa ∧ Linked (popNode p).1 xs := by
  obtain ⟨hh, ht⟩ := IsDList.pop h
  have h0 : pa ≠ 0 := fun e => h.null_notMem (by simp [e])
  unfold popNode
  rw [hh, if_neg h0]
  exact ⟨rfl, ht⟩

theorem unlinkNode_linked (h : Linked p (l ++ pa :: r)) : Linked (unlinkNode p pa) (l ++ r) := by
  have := IsDList.unlink h
  unfold unlinkNode Linked
  by_cases hp : p.prev pa = 0 <;> by_cases hn : p.next pa = 0 <;> simpa [hp, hn] using this

/-! ## Which fields an operation leaves alone -/

/-- `p'` differs from `p` at most in the links and the list head. -/
structure ListOnly (p p' : PmmState) : Prop where
  geometry : p'.toGeometry = p.toGeometry
  bitmap : p'.bitmap = p.bitmap
  freeFrames : p'.freeFrames = p.freeFrames

theorem ListOnly.refl (p : PmmState) : ListOnly p p := ⟨rfl, rfl, rfl⟩

theorem ListOnly.trans (h : ListOnly p p') (h' : ListOnly p' p'') :
    ListOnly p p'' :=
  ⟨h'.geometry.trans h.geometry, h'.bitmap.trans h.bitmap, h'.freeFrames.trans h.freeFrames⟩

theorem ListOnly.withBits (h : ListOnly p p') : WithBits p p.bitmap p' := ⟨h.geometry, h.bitmap⟩

theorem Counted.listOnly (h : Counted p) (hl : ListOnly p p') : Counted p' := by
  unfold Counted at *
  rw [hl.freeFrames, hl.withBits.clearBits_eq, h]

theorem pushNode_listOnly (p : PmmState) (pa : Nat) : ListOnly p (pushNode p pa) := ⟨rfl, rfl, rfl⟩

theorem unlinkNode_listOnly (p : PmmState) (pa : Nat) : ListOnly p (unlinkNode p pa) := by
  simp only [unlinkNode]
  split <;> split <;> exact ⟨rfl, rfl, rfl⟩

theorem popNode_listOnly (p : PmmState) : ListOnly p (popNode p).1 := by
  simp only [popNode]
  split <;> exact ⟨rfl, rfl, rfl⟩

theorem rebuildFrame_listOnly (p : PmmState) (i : Nat) : ListOnly p (rebuildFrame p i) := by
  unfold rebuildFrame
  split
  · exact .refl p
  · exact pushNode_listOnly p _

theorem foldl_rebuildFrame_listOnly (is : List Nat) (p : PmmState) :
    ListOnly p (is.foldl rebuildFrame p) := by
  induction is generalizing p with
  | nil => exact .refl p
  | cons i is ih => exact (rebuildFrame_listOnly p i).trans (ih _)

theorem pmmRebuildFreelist_listOnly (p : PmmState) : ListOnly p (pmmRebuildFreelist p) := by
  have h := foldl_rebuildFrame_listOnly (List.range p.totalFrames) { p with freelistHead := 0 }
  exact ⟨h.geometry, h.bitmap, h.freeFrames⟩

/-! ## Effects

What an operation does to the free frames, read off the bitmap alone: this
part needs no invariant of the list. -/

/-- `p'` has the frames of `p`; those in `took` were free and those in `gave`
are free now. -/
structure Effect (p : PmmState) (took gave : Set Nat) (p' : PmmState) : Prop where
  geometry : p'.toGeometry = p.toGeometry
  took_free : ∀ x ∈ took, isFreeFrame p x = true
  free_iff : ∀ x, isFreeFrame p' x = true ↔ (isFreeFrame p x = true ∧ x ∉ took) ∨ x ∈ gave

/-- An effect under which the counter stays right. -/
structure Accounted (p : PmmState) (took gave : Set Nat) (p' : PmmState) : Prop
    extends Effect p took gave p' where
  counted : Counted p → Counted p'

/-- The free frames of a state. -/
def free (p : PmmState) : Set Nat := {pa | isFreeFrame p pa = true}

theorem ListOnly.effect (h : ListOnly p p') : Accounted p ∅ ∅ p' :=
  ⟨⟨h.geometry, by simp, fun x => by simp [h.withBits.isFreeFrame_eq]⟩, fun hc => hc.listOnly h⟩

theorem Accounted.trans_took {t t' : Set Nat} (h : Accounted p t ∅ p')
    (h' : Accounted p' t' ∅ p'') : Accounted p (t ∪ t') ∅ p'' := by
  refine ⟨⟨h'.geometry.trans h.geometry, ?_, fun x => ?_⟩, h'.counted ∘ h.counted⟩
  · rintro x (hx | hx)
    · exact h.took_free x hx
    · exact (((h.free_iff x).mp (h'.took_free x hx)).resolve_right (by simp)).1
  · simp only [h'.free_iff, h.free_iff, Set.mem_union, Set.mem_empty_iff_false, or_false, not_or,
      and_assoc]

theorem Accounted.trans_gave {g g' : Set Nat} (h : Accounted p ∅ g p')
    (h' : Accounted p' ∅ g' p'') : Accounted p ∅ (g ∪ g') p'' := by
  refine ⟨⟨h'.geometry.trans h.geometry, by simp, fun x => ?_⟩, h'.counted ∘ h.counted⟩
  simp only [h'.free_iff, h.free_iff, Set.mem_union, Set.mem_empty_iff_false, not_false_eq_true,
    and_true, or_assoc]

theorem WithBits.effect_set (h : WithBits p (p.bitmap.setBit i) p') (hi : i < p.totalFrames)
    (hc : p.bitmap.testBit i = false) (hf : Counted p → p'.freeFrames = p.freeFrames - 1) :
    Accounted p {frameAddr p.toGeometry i} ∅ p' := by
  refine ⟨⟨h.geometry, ?_, fun x => ?_⟩, fun hp => hp.set h hi hc (hf hp)⟩
  · rintro x rfl
    rw [isFreeFrame_frameAddr hi, hc]
    rfl
  · simp [h.isFreeFrame_set hi]

theorem WithBits.effect_clear (h : WithBits p (p.bitmap.clearBit i) p') (hi : i < p.totalFrames)
    (hc : p.bitmap.testBit i = true) (hf : Counted p → p'.freeFrames = p.freeFrames + 1) :
    Accounted p ∅ {frameAddr p.toGeometry i} p' :=
  ⟨⟨h.geometry, by simp, fun x => by simp [h.isFreeFrame_clear hi]⟩,
    fun hp => hp.clear h hi hc (hf hp)⟩

/-- An address that is recorded and not the end marker is the address of a frame. -/
theorem frameAddr_of_recorded (h : pmmIsRecorded p pa = true) (h0 : pa ≠ 0) :
    paToPfn pa - p.pfnBase < p.totalFrames ∧
      pa = frameAddr p.toGeometry (paToPfn pa - p.pfnBase) := by
  have ht := p.total_eq
  unfold pmmIsRecorded at h
  rw [if_neg h0] at h
  split at h
  · cases h
  · simp only [decide_eq_true_eq] at h
    have hi : paToPfn pa - p.pfnBase < p.totalFrames := by omega
    refine ⟨hi, ?_⟩
    rw [frameAddr_eq _ hi.le]
    unfold paToPfn pageSize at *
    omega

theorem pmmIsRecorded_frameAddr (hi : i < p.totalFrames) :
    pmmIsRecorded p (frameAddr p.toGeometry i) = true := by
  have ht := p.total_eq
  rw [frameAddr_eq _ hi.le]
  unfold pmmIsRecorded paToPfn pageSize
  split
  · rfl
  · rw [if_neg (by omega)]
    simp only [decide_eq_true_eq]
    omega

/-- The free frames are recorded: page aligned and inside managed RAM. -/
theorem pmmIsRecorded_of_free (h : isFreeFrame p pa = true) : pmmIsRecorded p pa = true := by
  obtain ⟨i, hi, -, rfl⟩ := isFreeFrame_iff.mp h
  exact pmmIsRecorded_frameAddr hi

theorem ListOnly.recorded_eq (h : ListOnly p p') (pa : Nat) :
    pmmIsRecorded p' pa = pmmIsRecorded p pa := by
  unfold pmmIsRecorded
  rw [h.geometry]

/-- The head of a rebuilt list is recorded: each turn pushes a managed frame. -/
theorem pmmRebuildFreelist_head (p : PmmState) :
    pmmIsRecorded p (pmmRebuildFreelist p).freelistHead = true := by
  have key : ∀ (is : List Nat) (q : PmmState), (∀ i ∈ is, i < q.totalFrames) →
      pmmIsRecorded q q.freelistHead = true →
      pmmIsRecorded q (is.foldl rebuildFrame q).freelistHead = true := by
    intro is
    induction is with
    | nil => exact fun q _ h => h
    | cons i is ih =>
      intro q hlt hq
      have hl := rebuildFrame_listOnly q i
      rw [List.foldl_cons, ← hl.recorded_eq]
      refine ih _ (fun j hj => ?_) ?_
      · rw [hl.geometry]
        exact hlt j (List.mem_cons_of_mem _ hj)
      · rw [hl.recorded_eq]
        unfold rebuildFrame
        split
        · exact hq
        · exact pmmIsRecorded_frameAddr (hlt i List.mem_cons_self)
  exact key (List.range p.totalFrames) { p with freelistHead := 0 } (by simp) rfl

/-- The states in which `PmmTakeFreeFrame` pops: a rebuild or none before. -/
theorem recheck_cases (p : PmmState) (c : Bool) (hc : c = true → pmmIsRecorded p p.freelistHead) :
    ListOnly p (if c then p else pmmRebuildFreelist p) ∧
      pmmIsRecorded p (if c then p else pmmRebuildFreelist p).freelistHead = true := by
  cases c with
  | true => exact ⟨.refl p, hc rfl⟩
  | false => exact ⟨pmmRebuildFreelist_listOnly p, pmmRebuildFreelist_head p⟩

theorem popAndMark_effect (h : popAndMark p = some (p', pa)) (h0 : p.freelistHead ≠ 0)
    (hrec : pmmIsRecorded p p.freelistHead = true) :
    pa = p.freelistHead ∧ Accounted p {pa} ∅ p' := by
  have hl := popNode_listOnly p
  have hpa : (popNode p).2 = p.freelistHead := by
    unfold popNode
    rw [if_neg h0]
  unfold popAndMark at h
  simp only [kassert_eq_some, Option.some.injEq, Prod.mk.injEq, hpa, hl.geometry, hl.bitmap,
    hl.freeFrames] at h
  obtain ⟨-, hclear, -, rfl, rfl⟩ := h
  obtain ⟨hi, he⟩ := frameAddr_of_recorded hrec h0
  refine ⟨rfl, ?_⟩
  nth_rewrite 1 [he]
  exact WithBits.effect_set ⟨rfl, rfl⟩ hi hclear fun hc => hc.pred hi hclear

/-- Taking a frame changes the list only, or pops the recorded head of a list
that may have been rebuilt. -/
theorem pmmTakeFreeFrame_cases (h : pmmTakeFreeFrame p = some (p', pa)) :
    (pa = 0 ∧ ListOnly p p') ∨
    ∃ q, ListOnly p q ∧ q.freelistHead ≠ 0 ∧ pmmIsRecorded q q.freelistHead = true ∧
      popAndMark q = some (p', pa) := by
  unfold pmmTakeFreeFrame at h
  split at h
  · cases h
    exact .inl ⟨rfl, .refl p⟩
  · obtain ⟨hl₁, hr₁⟩ := recheck_cases p (pmmIsRecorded p p.freelistHead) id
    generalize (if pmmIsRecorded p p.freelistHead then p else pmmRebuildFreelist p) = p₁ at *
    dsimp only at h
    split at h
    · cases h
      exact .inl ⟨rfl, hl₁⟩
    · obtain ⟨hl₂, hr₂⟩ := recheck_cases p₁ (pmmIsRecorded p₁ (p₁.next p₁.freelistHead))
        fun _ => by rw [hl₁.recorded_eq]; exact hr₁
      generalize (if pmmIsRecorded p₁ (p₁.next p₁.freelistHead) then p₁
        else pmmRebuildFreelist p₁) = p₂ at *
      have hl := hl₁.trans hl₂
      split at h
      · cases h
        exact .inl ⟨rfl, hl⟩
      · rename_i h2
        split at h
        · exact .inr ⟨p₂, hl, h2, by rw [hl₂.recorded_eq]; exact hr₂, h⟩
        · cases h
          exact .inl ⟨rfl, ⟨hl.geometry, hl.bitmap, hl.freeFrames⟩⟩

theorem pmmTakeFreeFrame_effect (h : pmmTakeFreeFrame p = some (p', pa)) :
    (pa = 0 ∧ ListOnly p p') ∨ (pa ≠ 0 ∧ Accounted p {pa} ∅ p') := by
  rcases pmmTakeFreeFrame_cases h with h | ⟨q, hl, h0, hrec, hq⟩
  · exact .inl h
  · obtain ⟨rfl, he⟩ := popAndMark_effect hq h0 hrec
    exact .inr ⟨h0, by simpa using hl.effect.trans_took he⟩

/-! ## Effects of the range operations -/

/-- The frames with numbers in `[a, b)`. -/
def frameSpan (a b : Nat) : Set Nat := {x | x % pageSize = 0 ∧ a ≤ paToPfn x ∧ paToPfn x < b}

theorem frameSpan_succ (a b : Nat) (h : a < b) :
    frameSpan a b = {a * pageSize} ∪ frameSpan (a + 1) b := by
  ext x
  unfold frameSpan paToPfn pageSize
  simp only [Set.mem_ofPred_eq, Set.mem_union, Set.mem_singleton_iff]
  omega

theorem frameSpan_self (a : Nat) : frameSpan a a = ∅ := by
  ext x
  simp only [frameSpan, Set.mem_ofPred_eq, Set.mem_empty_iff_false, iff_false]
  omega

/-- The index and the address of a managed frame number. -/
theorem frame_of_pfn (h1 : p.pfnBase ≤ pfn) (h2 : pfn < p.pfnEnd) :
    pfn - p.pfnBase < p.totalFrames ∧ frameAddr p.toGeometry (pfn - p.pfnBase) = pfn * pageSize ∧
      pfnToPa pfn = pfn * pageSize ∧ (pfn - p.pfnBase) / 8 < p.bitmapBytes := by
  have := p.total_eq
  have := p.bytes_eq
  have := p.end_lt
  have hi : pfn - p.pfnBase < p.totalFrames := by omega
  refine ⟨hi, ?_, ?_, by omega⟩
  · rw [frameAddr_eq _ hi.le]
    unfold pageSize
    omega
  · unfold pfnToPa pageSize wordSize
    omega

/-- One turn of the marking loop, case by case. -/
theorem markFrame_cases (h : markFrame p b pfn = some (p', b')) :
    (p.bitmap.testBit (pfn - p.pfnBase) = true ∧ p' = p ∧ b' = b) ∨
    (p.bitmap.testBit (pfn - p.pfnBase) = false ∧ ∃ q : PmmState,
      q = { p with
        bitmap := p.bitmap.setBit (pfn - p.pfnBase)
        freeFrames := p.freeFrames - 1 } ∧
      ((p.freelistReady = false ∧ p' = q ∧ b' = b) ∨
        (p' = unlinkNode q (pfnToPa pfn) ∧ b' = b) ∨
        (p' = q ∧ ¬(pmmIsRecorded p (p.prev (pfnToPa pfn)) = true ∧
          pmmIsRecorded p (p.next (pfnToPa pfn)) = true)))) := by
  unfold markFrame at h
  simp only [kassert_eq_some] at h
  obtain ⟨-, h⟩ := h
  split at h
  · rename_i hb
    cases h
    exact .inl ⟨hb, rfl, rfl⟩
  · rename_i hb
    refine .inr ⟨by simpa using hb, _, rfl, ?_⟩
    rw [kassert_eq_some] at h
    obtain ⟨-, h⟩ := h
    split at h
    · split at h
      · cases h
        exact .inr (.inl ⟨rfl, rfl⟩)
      · rename_i hrec
        cases h
        exact .inr (.inr ⟨rfl, hrec⟩)
    · rename_i hr
      cases h
      exact .inl ⟨by simpa using hr, rfl, rfl⟩

theorem markFrame_effect (h : markFrame p b pfn = some (p', b'))
    (h1 : p.pfnBase ≤ pfn) (h2 : pfn < p.pfnEnd) :
    Accounted p (free p ∩ {pfn * pageSize}) ∅ p' := by
  obtain ⟨hi, hadr, -, -⟩ := frame_of_pfn h1 h2
  have hfree : pfn * pageSize ∈ free p ↔ p.bitmap.testBit (pfn - p.pfnBase) = false := by
    rw [free, Set.mem_ofPred_eq, ← hadr, isFreeFrame_frameAddr hi, Bool.not_eq_true']
  rcases markFrame_cases h with ⟨hb, rfl, -⟩ | ⟨hb, q, hq, h'⟩
  · -- already marked: the frame is not free, so nothing is taken
    rw [Set.inter_singleton_eq_empty.mpr (by rw [hfree, hb]; decide)]
    exact (ListOnly.refl p').effect
  · have htook := Set.inter_eq_right.mpr (Set.singleton_subset_iff.mpr (hfree.mpr hb))
    have hl : ListOnly q p' := by
      rcases h' with ⟨-, rfl, -⟩ | ⟨rfl, -⟩ | ⟨rfl, -⟩
      · exact .refl _
      · exact unlinkNode_listOnly _ _
      · exact .refl _
    subst hq
    rw [htook, ← hadr]
    exact WithBits.effect_set ⟨hl.geometry, hl.bitmap⟩ hi hb fun _ => hl.freeFrames

/-- The marking loop takes the free frames of its range, and keeps what each turn keeps. -/
theorem markFrames_effect {I : PmmState → Bool → Prop}
    (hI : ∀ {p p' b b' pfn}, markFrame p b pfn = some (p', b') → p.pfnBase ≤ pfn →
      pfn < p.pfnEnd → I p b → I p' b') : ∀ {n pfn : Nat} {p : PmmState} {b : Bool},
    markFrames p b pfn n = some (p', b') → p.pfnBase ≤ pfn → pfn + n ≤ p.pfnEnd → I p b →
    Accounted p (free p ∩ frameSpan pfn (pfn + n)) ∅ p' ∧ I p' b' := by
  intro n
  induction n with
  | zero =>
    intro pfn p b h _ _ hi
    cases h
    rw [Nat.add_zero, frameSpan_self, Set.inter_empty]
    exact ⟨(ListOnly.refl _).effect, hi⟩
  | succ n ih =>
    intro pfn p b h h1 h2 hi
    obtain ⟨⟨q, c⟩, hq, h⟩ := Option.bind_eq_some_iff.mp h
    have he := markFrame_effect hq h1 (by omega)
    have hg := he.geometry
    obtain ⟨he', hi'⟩ := ih h (by rw [hg]; omega) (by rw [hg]; omega) (hI hq h1 (by omega) hi)
    have ht := he.trans_took he'
    refine ⟨?_, hi'⟩
    rw [frameSpan_succ _ _ (by omega)]
    convert ht using 1
    · ext x
      have hf := he.free_iff x
      simp only [Set.mem_inter_iff, Set.mem_union, Set.mem_singleton_iff, free, Set.mem_ofPred_eq,
        Set.mem_empty_iff_false, or_false] at hf ⊢
      rw [hf, show pfn + 1 + n = pfn + (n + 1) by omega]
      tauto

/-- The frames that a range operation works on: none when the range is refused. -/
def rangeSpan (g : Geometry) (start fin : Nat) : Set Nat :=
  match frameRange g start fin with
  | none => ∅
  | some (a, b) => frameSpan a b

theorem frameRange_some {g : Geometry} {start fin a b : Nat}
    (h : frameRange g start fin = some (a, b)) :
    g.pfnBase ≤ a ∧ b ≤ g.pfnEnd ∧ a = start / pageSize ∧
      b = paToPfn (alignUp fin pageSize) ∧ start < fin := by
  unfold frameRange at h
  split at h
  · cases h
  · dsimp only at h
    split at h
    · cases h
    · obtain ⟨rfl, rfl⟩ := h
      unfold alignDown paToPfn pageSize at *
      omega

theorem frameSpan_sub (a b : Nat) : frameSpan a (a + (b - a)) = frameSpan a b := by
  ext x
  unfold frameSpan
  simp only [Set.mem_ofPred_eq]
  omega

section Range
variable {start fin : Nat} {e : Err}

/-- A range operation is refused or has nothing to do, or its loop runs over managed frames. -/
def RangeRan {β : Type} (p : PmmState) (start fin : Nat) (loop : Nat → Nat → Option β)
    (done : β → PmmState) (p' : PmmState) : Prop :=
  (p' = p ∧ rangeSpan p.toGeometry start fin = ∅) ∨
  ∃ n r, p.pfnBase ≤ start / pageSize ∧ start / pageSize + n ≤ p.pfnEnd ∧
    rangeSpan p.toGeometry start fin = frameSpan (start / pageSize) (start / pageSize + n) ∧
    loop (start / pageSize) n = some r ∧ p' = done r

/-- An end address past `2^32 - 4096` rounds to 0, which leaves nothing. -/
theorem range_cases {β : Type} (loop : Nat → Nat → Option β) (done : β → PmmState) {x₀ : β}
    {P : Prop} [Decidable P] (h0 : ∀ a, loop a 0 = some x₀) (hd : done x₀ = p)
    (h : (match frameRange p.toGeometry start fin with
      | none => some (p, Err.badArg)
      | some (a, b) => kassert P <| (loop a (b - a)).bind fun r => some (done r, .ok)) =
        some (p', e)) : RangeRan p start fin loop done p' := by
  unfold RangeRan rangeSpan
  cases hr : frameRange p.toGeometry start fin with
  | none =>
    rw [hr] at h
    cases h
    exact .inl ⟨rfl, rfl⟩
  | some ab =>
    obtain ⟨a, b⟩ := ab
    obtain ⟨h1, h2, rfl, -⟩ := frameRange_some hr
    simp only [hr, kassert_eq_some] at h
    obtain ⟨r, hq, h⟩ := Option.bind_eq_some_iff.mp h.2
    cases h
    dsimp only
    rw [← frameSpan_sub]
    by_cases hab : start / pageSize ≤ b
    · exact .inr ⟨b - start / pageSize, r, h1, by omega, rfl, hq, rfl⟩
    · rw [Nat.sub_eq_zero_of_le (by omega), h0] at hq
      cases hq
      rw [Nat.sub_eq_zero_of_le (by omega), Nat.add_zero]
      exact .inl ⟨hd, frameSpan_self _⟩

theorem pmmMarkRange_cases (h : pmmMarkRange p start fin = some (p', e)) :
    RangeRan p start fin (markFrames p false)
      (fun r => if r.2 then pmmRebuildFreelist r.1 else r.1) p' :=
  range_cases _ _ (fun _ => rfl) rfl h

theorem pmmMarkRange_effect (h : pmmMarkRange p start fin = some (p', e)) :
    Accounted p (free p ∩ rangeSpan p.toGeometry start fin) ∅ p' := by
  rcases pmmMarkRange_cases h with ⟨rfl, hs⟩ | ⟨n, ⟨q, c⟩, h1, h2, hs, hq, rfl⟩
  · simpa [hs] using (ListOnly.refl _).effect
  · have hl : ListOnly q (if c then pmmRebuildFreelist q else q) := by
      split
      · exact pmmRebuildFreelist_listOnly q
      · exact .refl q
    rw [hs]
    simpa using (markFrames_effect (I := fun _ _ => True) (fun _ _ _ => id) hq h1 h2
      trivial).1.trans_took hl.effect

theorem unmarkFrame_cases {pfn : Nat} (h : unmarkFrame p pfn = some p') :
    (p.bitmap.testBit (pfn - p.pfnBase) = false ∧ p' = p) ∨
    (p.bitmap.testBit (pfn - p.pfnBase) = true ∧ ∃ q : PmmState,
      q = { p with
        bitmap := p.bitmap.clearBit (pfn - p.pfnBase)
        freeFrames := if p.freeFrames < p.totalFrames then p.freeFrames + 1 else p.freeFrames } ∧
      p' = if p.freelistReady then pushNode q (pfnToPa pfn) else q) := by
  unfold unmarkFrame at h
  simp only [kassert_eq_some] at h
  obtain ⟨-, h⟩ := h
  by_cases hb : p.bitmap.testBit (pfn - p.pfnBase)
  · rw [if_pos hb, kassert_eq_some] at h
    cases h.2
    exact .inr ⟨hb, _, rfl, rfl⟩
  · rw [if_neg hb] at h
    cases h
    exact .inl ⟨by simpa using hb, rfl⟩

theorem unmarkFrame_effect {pfn : Nat} (h : unmarkFrame p pfn = some p')
    (h1 : p.pfnBase ≤ pfn) (h2 : pfn < p.pfnEnd) : Accounted p ∅ {pfn * pageSize} p' := by
  obtain ⟨hi, hadr, -, -⟩ := frame_of_pfn h1 h2
  rcases unmarkFrame_cases h with ⟨hb, rfl⟩ | ⟨hb, q, rfl, rfl⟩
  · -- already free, so giving it back changes nothing
    refine ⟨⟨rfl, by simp, fun x => ?_⟩, id⟩
    simp only [Set.mem_empty_iff_false, not_false_eq_true, and_true, Set.mem_singleton_iff]
    refine ⟨.inl, ?_⟩
    rintro (hx | rfl)
    · exact hx
    · rw [← hadr, isFreeFrame_frameAddr hi, hb]
      rfl
  · rw [← hadr]
    refine WithBits.effect_clear ?_ hi hb fun hc => ?_
    · split <;> exact ⟨rfl, rfl⟩
    · split <;> exact if_pos (hc.lt_total hi hb)

/-- The unmarking loop gives back its range, and keeps what each turn keeps. -/
theorem unmarkFrames_effect {I : PmmState → Prop} {m : Nat}
    (hI : ∀ {p p' pfn}, unmarkFrame p pfn = some p' → p.pfnBase ≤ pfn → pfn < p.pfnEnd →
      m ≤ pfn → I p → I p') : ∀ {n pfn : Nat} {p : PmmState},
    unmarkFrames p pfn n = some p' → p.pfnBase ≤ pfn → pfn + n ≤ p.pfnEnd → m ≤ pfn → I p →
    Accounted p ∅ (frameSpan pfn (pfn + n)) p' ∧ I p' := by
  intro n
  induction n with
  | zero =>
    intro pfn p h _ _ _ hi
    cases h
    rw [Nat.add_zero, frameSpan_self]
    exact ⟨(ListOnly.refl _).effect, hi⟩
  | succ n ih =>
    intro pfn p h h1 h2 hm hi
    obtain ⟨q, hq, h⟩ := Option.bind_eq_some_iff.mp h
    have he := unmarkFrame_effect hq h1 (by omega)
    have hg := he.geometry
    obtain ⟨he', hi'⟩ := ih h (by rw [hg]; omega) (by rw [hg]; omega) (by omega)
      (hI hq h1 (by omega) hm hi)
    rw [frameSpan_succ _ _ (by omega), show pfn + (n + 1) = pfn + 1 + n by omega]
    exact ⟨he.trans_gave he', hi'⟩

theorem pmmUnmarkRange_cases (h : pmmUnmarkRange p start fin = some (p', e)) :
    RangeRan p start fin (unmarkFrames p) id p' :=
  range_cases _ _ (fun _ => rfl) rfl h

theorem pmmUnmarkRange_effect (h : pmmUnmarkRange p start fin = some (p', e)) :
    Accounted p ∅ (rangeSpan p.toGeometry start fin) p' := by
  rcases pmmUnmarkRange_cases h with ⟨rfl, hs⟩ | ⟨n, _, h1, h2, hs, hq, rfl⟩
  · simpa [hs] using (ListOnly.refl _).effect
  · rw [hs]
    exact (unmarkFrames_effect (I := fun _ => True) (fun _ _ _ _ => id) hq h1 h2
      (Nat.zero_le _) trivial).1

end Range

/-! ## Effects of the allocators -/

section Scan
variable {n : Nat} {ok : Nat → Bool}

/-- `n` free frames in a row from index `s` on, at a place that `ok` allows. -/
structure IsRun (p : PmmState) (n : Nat) (ok : Nat → Bool) (s : Nat) : Prop where
  pos : 0 < n
  ok : ok s = true
  inside : s + n ≤ p.totalFrames
  clear : ∀ j < n, p.bitmap.testBit (s + j) = false

/-- What a search for the lowest run has to find. -/
def LowestRun (p : PmmState) (n : Nat) (ok : Nat → Bool) : Option Nat → Prop
  | none => ∀ s, ¬IsRun p n ok s
  | some s => IsLeast {s | IsRun p n ok s} s

/-- The scan finds the lowest run. The `c` clear bits in front of `index` start at `s`, and no
run starts before them. -/
theorem contigScan_lowest (hn : 0 < n) {res : Option Nat} : ∀ {r index c s : Nat},
    contigScan p n ok r index c s = res → index + r = p.totalFrames → c < n →
    (c = 0 ∨ s + c = index ∧ ok s = true) → (∀ j < c, p.bitmap.testBit (s + j) = false) →
    (∀ t, IsRun p n ok t → index ≤ t + c) → LowestRun p n ok res := by
  intro r
  induction r with
  | zero =>
    intro index c s h htot hcn _ _ hmin
    cases h
    intro t ht
    have := hmin t ht
    have := ht.inside
    omega
  | succ r ih =>
    intro index c s h htot hcn hs hc hmin
    have hbytes := p.bytes_eq
    unfold contigScan at h
    split at h
    · rename_i hskip
      refine ih h (by omega) hcn (.inl hskip.1) hc fun t ht => ?_
      have hne : t ≠ index := fun e => absurd (e ▸ ht.ok) (by simp [hskip.2])
      have := hmin t ht
      omega
    rename_i hgo
    rw [if_neg (by omega)] at h
    split at h
    · rename_i hclear
      -- the run goes on, or starts here
      have hs' : (if c = 0 then index else s) + c = index := by
        split <;> omega
      have hok : ok (if c = 0 then index else s) = true := by
        split
        · simpa using fun h0 => hgo ⟨‹c = 0›, h0⟩
        · exact (hs.resolve_left ‹_›).2
      have hc' : ∀ j < c + 1, p.bitmap.testBit ((if c = 0 then index else s) + j) = false := by
        intro j hj
        rcases Nat.lt_or_eq_of_le (Nat.le_of_lt_succ hj) with hlt | rfl
        · rw [if_neg (by omega)]
          exact hc j hlt
        · rw [hs']
          exact hclear
      generalize (if c = 0 then index else s) = s' at *
      split at h
      · rename_i hn'
        cases h
        subst hn'
        exact ⟨⟨hn, hok, by omega, hc'⟩, fun t ht => by have := hmin t ht; omega⟩
      · exact ih h (by omega) (by omega) (.inr ⟨by omega, hok⟩) hc'
          fun t ht => by have := hmin t ht; omega
    · rename_i hset
      refine ih h (by omega) hn (.inl rfl) (by simp) fun t ht => ?_
      have := hmin t ht
      by_contra hlt
      have hbit := ht.clear (index - t) (by omega)
      rw [Nat.add_sub_cancel' (by omega)] at hbit
      exact hset hbit

theorem contigScan_total (p : PmmState) (ok : Nat → Bool) (hn : 0 < n) :
    LowestRun p n ok (contigScan p n ok p.totalFrames 0 0 0) :=
  contigScan_lowest hn rfl (Nat.zero_add _) hn (.inl rfl) (by simp) fun _ _ => Nat.zero_le _

/-- A first-fit allocation: the lowest run is taken, or there is none and nothing changes. -/
def FirstFit (p : PmmState) (n : Nat) (ok : Nat → Bool) (p' : PmmState) (pa : Nat) : Prop :=
  ((∀ s, ¬IsRun p n ok s) ∧ pa = 0 ∧ p' = p) ∨
    ∃ s, IsLeast {s | IsRun p n ok s} s ∧ pa = frameAddr p.toGeometry s ∧
      Effect p (frameSpan (p.pfnBase + s) (p.pfnBase + s + n)) ∅ p'

/-- A found run is marked and its first address returned. -/
theorem takeRun_firstFit (hn : 0 < n)
    (h : takeRun p n (contigScan p n ok p.totalFrames 0 0 0) = some (p', pa)) :
    FirstFit p n ok p' pa := by
  have hrun := contigScan_total p ok hn
  cases hscan : contigScan p n ok p.totalFrames 0 0 0 with
  | none =>
    rw [hscan] at h hrun
    cases h
    exact .inl ⟨hrun, rfl, rfl⟩
  | some s =>
    rw [hscan] at hrun
    obtain ⟨-, -, hle, hclear⟩ := hrun.1
    have htot := p.total_eq
    have hend := p.end_lt
    -- the byte range passed on is exactly the run
    have hrange : frameRange p.toGeometry (pfnToPa (p.pfnBase + s)) (pfnToPa (p.pfnBase + s + n)) =
        some (p.pfnBase + s, p.pfnBase + s + n) := by
      unfold frameRange pfnToPa paToPfn alignDown alignUp pageSize wordSize
      rw [if_neg (by omega)]
      rw [if_neg (by omega)]
      simp only [Option.some.injEq, Prod.mk.injEq]
      omega
    simp only [hscan, takeRun] at h
    obtain ⟨⟨q, e⟩, hq, h⟩ := Option.bind_eq_some_iff.mp h
    have he := pmmMarkRange_effect hq
    rw [rangeSpan, hrange] at he
    have hspan : free p ∩ frameSpan (p.pfnBase + s) (p.pfnBase + s + n) =
        frameSpan (p.pfnBase + s) (p.pfnBase + s + n) := by
      refine Set.inter_eq_right.mpr fun x hx => isFreeFrame_iff.mpr ?_
      obtain ⟨hx1, hx2, hx3⟩ := hx
      refine ⟨paToPfn x - p.pfnBase, by omega, ?_, ?_⟩
      · have := hclear (paToPfn x - p.pfnBase - s) (by omega)
        rwa [show s + (paToPfn x - p.pfnBase - s) = paToPfn x - p.pfnBase by omega] at this
      · rw [frameAddr_eq _ (by omega)]
        unfold paToPfn pageSize at *
        omega
    rw [hspan] at he
    have hok : e = .ok := by
      simp only [pmmMarkRange, hrange, kassert_eq_some] at hq
      obtain ⟨_, _, hq⟩ := Option.bind_eq_some_iff.mp hq.2
      cases hq
      rfl
    simp only [hok, ne_eq, not_true_eq_false, if_false, Option.some.injEq, Prod.mk.injEq] at h
    obtain ⟨rfl, rfl⟩ := h
    exact .inr ⟨s, hrun, rfl, he.toEffect⟩

/-- A contiguous allocator refuses for the reason `no`, or takes the run the scan found. -/
inductive Contig (p : PmmState) (n : Nat) (ok : Nat → Bool) (no : Prop) :
    PmmState → Nat → Prop
  | refused (h : no) : Contig p n ok no p 0
  | scanned {q : PmmState} {x : Nat} (hn : 0 < n)
      (h : takeRun p n (contigScan p n ok p.totalFrames 0 0 0) = some (q, x)) :
      Contig p n ok no q x

theorem pmmAllocFramesContig_cases (h : pmmAllocFramesContig p n = some (p', pa)) :
    Contig p n (fun _ => true) (n = 0 ∨ p.freeFrames < n) p' pa := by
  unfold pmmAllocFramesContig at h
  split at h
  · rename_i hn
    cases h
    exact .refused hn
  · simp only [kassert_eq_some] at h
    exact .scanned (by omega) h.2.2

/-- The frame number is a multiple of `a`; an alignment of 0 counts as 1. -/
def alignedTo (g : Geometry) (a i : Nat) : Bool := (g.pfnBase + i) % (if a = 0 then 1 else a) == 0

theorem pmmAllocFramesContigAligned_cases {a : Nat}
    (h : pmmAllocFramesContigAligned p n a = some (p', pa)) :
    Contig p n (alignedTo p.toGeometry a)
      ((n = 0 ∨ p.freeFrames < n) ∨ ¬(if a = 0 then 1 else a).isPowerOfTwo) p' pa := by
  unfold pmmAllocFramesContigAligned at h
  unfold alignedTo
  have hne : (if a = 0 then 1 else a) ≠ 0 := by
    split
    · decide
    · assumption
  generalize (if a = 0 then 1 else a) = a' at *
  split at h
  · rename_i hn
    cases h
    exact .refused (.inl (.inl hn))
  · dsimp only at h
    have hpow := Nat.and_sub_one_eq_zero_iff_isPowerOfTwo hne
    split at h
    · rename_i hand
      cases h
      exact .refused (.inr (mt hpow.mpr hand))
    · rename_i hand
      obtain ⟨k, rfl⟩ := hpow.mp (not_not.mp hand)
      simp only [Nat.and_two_pow_sub_one_eq_mod] at h
      split at h
      · rename_i hfew
        cases h
        exact .refused (.inl (.inr hfew))
      · exact .scanned (by omega) h

theorem Contig.keeps {I : PmmState → Prop} {no : Prop} (h : Contig p n ok no p' pa)
    (hmark : ∀ {p p' start fin e}, pmmMarkRange p start fin = some (p', e) → I p → I p')
    (hi : I p) : I p' := by
  cases h with
  | refused => exact hi
  | scanned _ h =>
    unfold takeRun at h
    split at h
    · cases h
      exact hi
    · obtain ⟨⟨q, e⟩, hq, hrest⟩ := Option.bind_eq_some_iff.mp h
      have hi' := hmark hq hi
      split at hrest <;> cases hrest <;> exact hi'

theorem Contig.effect {no : Prop} (h : Contig p n ok no p' pa) :
    (pa = 0 ∧ p' = p) ∨ ∃ s, s + n ≤ p.totalFrames ∧ pa = frameAddr p.toGeometry s ∧
      Accounted p (frameSpan (p.pfnBase + s) (p.pfnBase + s + n)) ∅ p' := by
  have hc := h.keeps (I := Counted) fun hq => (pmmMarkRange_effect hq).counted
  cases h with
  | refused => exact .inl ⟨rfl, rfl⟩
  | scanned hn h =>
    rcases takeRun_firstFit hn h with ⟨-, hz, hp⟩ | ⟨s, hs, hpa, he⟩
    · exact .inl ⟨hz, hp⟩
    · exact .inr ⟨s, hs.1.inside, hpa, he, hc⟩

end Scan

/-- The frames of a contiguous allocation are those of the run. -/
theorem runFrames_subset {n s x : Nat} (hs : s + n ≤ p.totalFrames)
    (hx : x ∈ runFrames n (frameAddr p.toGeometry s)) :
    x ∈ frameSpan (p.pfnBase + s) (p.pfnBase + s + n) := by
  unfold runFrames at hx
  split at hx
  · cases hx
  · simp only [List.mem_map, List.mem_range] at hx
    obtain ⟨i, hi, rfl⟩ := hx
    rw [frameAddr_eq _ (by omega)]
    unfold frameSpan paToPfn pageSize
    simp only [Set.mem_ofPred_eq]
    omega

theorem Contig.handsOut {n : Nat} {ok : Nat → Bool} {no : Prop} (h : Contig p n ok no p' pa) :
    ∃ took, Accounted p took ∅ p' ∧ ∀ x ∈ runFrames n pa, x ∈ took := by
  rcases h.effect with ⟨rfl, rfl⟩ | ⟨s, hs, rfl, he⟩
  · exact ⟨∅, (ListOnly.refl _).effect, by simp [runFrames]⟩
  · exact ⟨_, he, fun x hx => runFrames_subset hs hx⟩

theorem scatter_effect : ∀ {n : Nat} {p : PmmState} {out : List Nat},
    scatter p n = some (p', out) → Accounted p {x | x ∈ out} ∅ p' := by
  intro n
  induction n with
  | zero =>
    intro p out h
    cases h
    simpa using (ListOnly.refl _).effect
  | succ n ih =>
    intro p out h
    obtain ⟨⟨q, pa⟩, hq, h⟩ := Option.bind_eq_some_iff.mp h
    rcases pmmTakeFreeFrame_effect hq with ⟨rfl, hl⟩ | ⟨h0, he⟩
    · cases h
      simpa using hl.effect
    · rw [if_neg h0] at h
      obtain ⟨⟨q', out'⟩, hq', h⟩ := Option.map_eq_some_iff.mp h
      cases h
      convert he.trans_took (ih hq') using 1
      ext x
      simp

/-- Only an allocated frame can be freed. -/
theorem pmmFreeFrame_cases (h : pmmFreeFrame p pa = some p') :
    ∃ i < p.totalFrames, pa = frameAddr p.toGeometry i ∧ p.bitmap.testBit i = true ∧
      p' = pushNode { p with bitmap := p.bitmap.clearBit i, freeFrames := p.freeFrames + 1 } pa := by
  unfold pmmFreeFrame at h
  simp only [kassert_eq_some] at h
  obtain ⟨hm, ⟨h1, h2⟩, -, -, h⟩ := h
  split at h
  · rename_i hb
    rw [kassert_eq_some] at h
    obtain ⟨hi, hadr, -, -⟩ := frame_of_pfn h1 h2
    cases h.2
    refine ⟨_, hi, ?_, hb, rfl⟩
    rw [hadr]
    unfold paToPfn pageSize at *
    omega
  · cases h

theorem pmmFreeFrame_effect (h : pmmFreeFrame p pa = some p') :
    isFreeFrame p pa = false ∧ Accounted p ∅ {pa} p' := by
  obtain ⟨i, hi, rfl, hb, rfl⟩ := pmmFreeFrame_cases h
  refine ⟨?_, WithBits.effect_clear ⟨rfl, rfl⟩ hi hb fun _ => rfl⟩
  rw [isFreeFrame_frameAddr hi, hb]
  rfl

/-! ## One operation -/

/-- The frames that an operation gives back. -/
def Op.frees (g : Geometry) : Op → Set Nat
  | .unmarkRange start fin => rangeSpan g start fin
  | .freeFrame addr => {addr}
  | _ => ∅

/-- Every operation takes free frames, among them all those it hands out, and
gives back only what it was asked to. -/
theorem stepOp_effect {op : Op} {out : List Nat} (h : stepOp p op = some (p', out)) :
    ∃ took, Accounted p took (op.frees p.toGeometry) p' ∧ ∀ x ∈ out, x ∈ took := by
  cases op with
  | markRange start fin =>
    obtain ⟨⟨q, e⟩, hq, h⟩ := Option.map_eq_some_iff.mp h
    cases h
    exact ⟨_, pmmMarkRange_effect hq, by simp⟩
  | unmarkRange start fin =>
    obtain ⟨⟨q, e⟩, hq, h⟩ := Option.map_eq_some_iff.mp h
    cases h
    exact ⟨∅, pmmUnmarkRange_effect hq, by simp⟩
  | allocFrame =>
    obtain ⟨⟨q, pa⟩, hq, h⟩ := Option.map_eq_some_iff.mp h
    cases h
    rcases pmmTakeFreeFrame_effect hq with ⟨rfl, hl⟩ | ⟨h0, he⟩
    · exact ⟨∅, hl.effect, by simp [runFrames]⟩
    · exact ⟨{pa}, he, by simp [runFrames, h0]⟩
  | allocFramesContig n =>
    obtain ⟨⟨q, pa⟩, hq, h⟩ := Option.map_eq_some_iff.mp h
    cases h
    exact (pmmAllocFramesContig_cases hq).handsOut
  | allocFramesContigAligned n a =>
    obtain ⟨⟨q, pa⟩, hq, h⟩ := Option.map_eq_some_iff.mp h
    cases h
    exact (pmmAllocFramesContigAligned_cases hq).handsOut
  | allocFramesScattered n outAddrs =>
    simp only [stepOp, pmmAllocFramesScattered] at h
    split at h
    · cases h
      exact ⟨∅, (ListOnly.refl _).effect, by simp⟩
    · simp only [kassert_eq_some] at h
      exact ⟨_, scatter_effect h.2.2, fun x hx => hx⟩
  | freeFrame addr =>
    obtain ⟨q, hq, h⟩ := Option.map_eq_some_iff.mp h
    cases h
    exact ⟨∅, (pmmFreeFrame_effect hq).2, by simp⟩
  | write pa next prev =>
    simp only [stepOp] at h
    split at h
    · cases h
    · cases h
      refine ⟨∅, ?_, by simp⟩
      exact ListOnly.effect (p := p) ⟨rfl, rfl, rfl⟩

end Zuzu.L1.Pmm
