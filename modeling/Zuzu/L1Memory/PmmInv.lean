import Zuzu.L1Memory.PmmEffect

/-!
# The frame allocator's invariant

`Inv` ties the three views of the free frames together: bitmap, counter and the
list threaded through the frames. Each operation keeps it as long as frame 0
does not become free, because address 0 is the list's end marker:
`frames_consistent_of_zero_kept`. On a board whose RAM starts at address 0 and
that does not reserve frame 0, the list loses frame 0 while it is built
(`lowRam_frame_zero_lost`).

`system_refines_pool` relates the allocator to the abstract resource pool, which
gives that no frame is handed out twice.
-/
namespace Zuzu.L1.Pmm
open Zuzu.Core
open Function (update)

variable {p p' : PmmState} {xs : List Nat} {pa pfn i : Nat}
variable {e : Err} {out : List Nat} {l : RamLayout} {b : BootInfo} {prev : Nat → Nat}

/-- The free list of `p` consists of the nodes `xs`, which are the free frames. -/
structure FreeList (p : PmmState) (xs : List Nat) : Prop where
  linked : Linked p xs
  mem_iff : ∀ x, x ∈ xs ↔ isFreeFrame p x = true

/-- Bitmap, counter and free list agree. -/
structure Inv (p : PmmState) : Prop where
  ready : p.freelistReady = true
  counted : Counted p
  list : ∃ xs, FreeList p xs

theorem Inv.zero (h : Inv p) : isFreeFrame p 0 = false := by
  obtain ⟨xs, hl⟩ := h.list
  by_contra hf
  exact hl.linked.null_notMem ((hl.mem_iff 0).mpr (by simpa using hf))

/-! ## Taking a frame -/

theorem FreeList.frame (h : FreeList p (pa :: xs)) :
    pa ≠ 0 ∧ p.freelistHead = pa ∧ pmmIsRecorded p pa = true ∧
      pmmIsRecorded p (p.next pa) = true := by
  have h0 : pa ≠ 0 := fun e => h.linked.null_notMem (by simp [e])
  refine ⟨h0, h.linked.head_eq, pmmIsRecorded_of_free ((h.mem_iff pa).mp (by simp)), ?_⟩
  rcases h.linked.next_mem (List.mem_cons_self) with hn | hn
  · rw [hn]
    rfl
  · exact pmmIsRecorded_of_free ((h.mem_iff _).mp hn)

/-- A linked frame has a clear bit. -/
theorem FreeList.clear (h : FreeList p xs) (hm : pa ∈ xs) :
    paToPfn pa - p.pfnBase < p.totalFrames ∧
      pa = frameAddr p.toGeometry (paToPfn pa - p.pfnBase) ∧
      p.bitmap.testBit (paToPfn pa - p.pfnBase) = false := by
  have hf := (h.mem_iff pa).mp hm
  have h0 : pa ≠ 0 := fun e => h.linked.null_notMem (e ▸ hm)
  obtain ⟨hi, he⟩ := frameAddr_of_recorded (pmmIsRecorded_of_free hf) h0
  refine ⟨hi, he, ?_⟩
  rw [he, isFreeFrame_frameAddr hi] at hf
  simpa using hf

/-- A linked frame is taken off the list. -/
theorem FreeList.remove {l r : List Nat} (h : FreeList p (l ++ pa :: r))
    (he : Accounted p {pa} ∅ p') (hl : Linked p' (l ++ r)) : FreeList p' (l ++ r) := by
  refine ⟨hl, fun x => ?_⟩
  have hnot := (List.nodup_cons.mp (List.nodup_middle.mp h.linked.nodup)).1
  rw [he.free_iff, ← h.mem_iff, List.perm_middle.mem_iff, List.mem_cons]
  simp only [Set.mem_singleton_iff, Set.mem_empty_iff_false, or_false]
  exact ⟨fun hx => ⟨.inr hx, fun e => hnot (e ▸ hx)⟩, fun hx => hx.1.resolve_left hx.2⟩

theorem popAndMark_inv (h : Inv p) (hl : FreeList p (pa :: xs)) :
    ∃ p', popAndMark p = some (p', pa) ∧ Inv p' := by
  obtain ⟨hi, -, hbit⟩ := hl.clear List.mem_cons_self
  obtain ⟨h0, hhead, hrec, -⟩ := hl.frame
  obtain ⟨hpop, hlinked⟩ := popNode_linked hl.linked
  have hlo := popNode_listOnly p
  have hle := clearBits_card_le p
  rw [← h.counted] at hle
  have hbytes := p.bytes_eq
  have hr : (popNode p).1.freelistReady = p.freelistReady := by
    simp only [popNode]
    split <;> rfl
  obtain ⟨p', hp', hready, hlinked'⟩ : ∃ p', popAndMark p = some (p', pa) ∧
      p'.freelistReady = true ∧ Linked p' xs := by
    unfold popAndMark
    simp only [hpop, hlo.geometry, hlo.bitmap, hlo.freeFrames, h.counted.pred hi hbit]
    rw [kassert_pos (by omega), kassert_pos hbit, kassert_pos (by omega)]
    exact ⟨_, rfl, hr.trans h.ready, hlinked⟩
  have he := (popAndMark_effect hp' (by rwa [hhead]) (by rwa [hhead])).2
  exact ⟨p', hp', hready, he.counted h.counted, xs, FreeList.remove (l := []) hl he hlinked'⟩

/-- Taking a frame fails only when none is free. -/
theorem pmmTakeFreeFrame_inv (h : Inv p) :
    (p.freeFrames = 0 ∧ pmmTakeFreeFrame p = some (p, 0)) ∨
    ∃ p' pa, pmmTakeFreeFrame p = some (p', pa) ∧ pa ≠ 0 ∧ Inv p' := by
  obtain ⟨xs, hl⟩ := h.list
  cases xs with
  | nil =>
    have hhead : p.freelistHead = 0 := hl.linked.head_eq
    refine .inl ⟨?_, by simp [pmmTakeFreeFrame, hhead]⟩
    rw [h.counted, Finset.card_eq_zero, Finset.eq_empty_iff_forall_notMem]
    intro i hi
    cases (hl.mem_iff _).mpr (isFreeFrame_iff_clearBits.mpr ⟨i, hi, rfl⟩)
  | cons pa ys =>
    obtain ⟨h0, hhead, hrec, hnrec⟩ := hl.frame
    obtain ⟨p', hp', hinv⟩ := popAndMark_inv h hl
    refine .inr ⟨p', pa, ?_, h0, hinv⟩
    unfold pmmTakeFreeFrame
    simp only [hhead, h0, hrec, hnrec, if_true, if_false, hp']

/-! ## Marking -/

/-- Marking a free frame unlinks it; no rebuild is asked for. -/
theorem markFrame_inv {b b' : Bool} (h : markFrame p b pfn = some (p', b'))
    (h1 : p.pfnBase ≤ pfn) (h2 : pfn < p.pfnEnd) (hinv : Inv p) : Inv p' ∧ b' = b := by
  obtain ⟨hi, hadr, hpa, -⟩ := frame_of_pfn h1 h2
  have he := markFrame_effect h h1 h2
  rcases markFrame_cases h with ⟨-, rfl, rfl⟩ | ⟨hb, q, rfl, h'⟩
  · exact ⟨hinv, rfl⟩
  · obtain ⟨xs, hl⟩ := hinv.list
    have hmem : pfnToPa pfn ∈ xs := by
      rw [hl.mem_iff, hpa, ← hadr, isFreeFrame_frameAddr hi, hb]
      rfl
    -- both links of a linked frame are recorded, so the node can be unlinked in place
    have hrec : ∀ y, y = 0 ∨ y ∈ xs → pmmIsRecorded p y = true := by
      rintro y (rfl | hy)
      · rfl
      · exact pmmIsRecorded_of_free ((hl.mem_iff y).mp hy)
    rcases h' with ⟨hr, -⟩ | ⟨rfl, rfl⟩ | ⟨-, hbad⟩
    · rw [hinv.ready] at hr
      cases hr
    · refine ⟨⟨?_, he.counted hinv.counted, ?_⟩, rfl⟩
      · simp only [unlinkNode]
        split <;> split <;> exact hinv.ready
      · have hfree : {pfnToPa pfn} ⊆ free p :=
          Set.singleton_subset_iff.mpr ((hl.mem_iff _).mp hmem)
        rw [← hpa, Set.inter_eq_right.mpr hfree] at he
        obtain ⟨l, r, rfl⟩ := List.append_of_mem hmem
        exact ⟨l ++ r, hl.remove he (unlinkNode_linked hl.linked)⟩
    · exact absurd ⟨hrec _ (hl.linked.prev_mem hmem), hrec _ (hl.linked.next_mem hmem)⟩ hbad

theorem pmmMarkRange_inv {start fin : Nat}
    (h : pmmMarkRange p start fin = some (p', e)) (hinv : Inv p) : Inv p' := by
  rcases pmmMarkRange_cases h with ⟨rfl, -⟩ | ⟨n, ⟨q, c⟩, h1, h2, -, hq, rfl⟩
  · exact hinv
  · have hkeep : Inv q ∧ c = false :=
      (markFrames_effect (I := fun p b => Inv p ∧ b = false) (fun hm h1 h2 hi => by
        obtain ⟨hinv', rfl⟩ := markFrame_inv hm h1 h2 hi.1
        exact ⟨hinv', hi.2⟩) hq h1 h2 ⟨hinv, rfl⟩).2
    obtain ⟨hinv', rfl⟩ := hkeep
    exact hinv'

/-- Under a true count no assertion of the marking loop fails. -/
theorem markFrame_total (b : Bool) (h1 : p.pfnBase ≤ pfn) (h2 : pfn < p.pfnEnd)
    (hc : Counted p) : ∃ r, markFrame p b pfn = some r := by
  obtain ⟨-, -, -, hbyte⟩ := frame_of_pfn h1 h2
  have hle := clearBits_card_le p
  rw [← hc] at hle
  unfold markFrame
  simp only
  rw [kassert_pos hbyte]
  split
  · exact ⟨_, rfl⟩
  · rw [kassert_pos (by omega)]
    split
    · split <;> exact ⟨_, rfl⟩
    · exact ⟨_, rfl⟩

/-! ## Unmarking and freeing -/

/-- Pushing a frame that was allocated, once its bit is cleared and counted. -/
theorem pushNode_inv (hinv : Inv p) (hi : i < p.totalFrames) (hb : p.bitmap.testBit i = true)
    (h0 : frameAddr p.toGeometry i ≠ 0) :
    Inv (pushNode { p with bitmap := p.bitmap.clearBit i, freeFrames := p.freeFrames + 1 }
      (frameAddr p.toGeometry i)) := by
  obtain ⟨xs, hl⟩ := hinv.list
  have hnot : frameAddr p.toGeometry i ∉ xs := by
    rw [hl.mem_iff, isFreeFrame_frameAddr hi, hb]
    simp
  have he : Accounted p ∅ {frameAddr p.toGeometry i} (pushNode { p with
      bitmap := p.bitmap.clearBit i
      freeFrames := p.freeFrames + 1 } (frameAddr p.toGeometry i)) :=
    WithBits.effect_clear ⟨rfl, rfl⟩ hi hb fun _ => rfl
  refine ⟨hinv.ready, he.counted hinv.counted, _, IsDList.push hl.linked h0 hnot, fun x => ?_⟩
  rw [he.free_iff, ← hl.mem_iff, List.mem_cons, or_comm]
  simp

theorem unmarkFrame_inv (h : unmarkFrame p pfn = some p') (h1 : p.pfnBase ≤ pfn)
    (h2 : pfn < p.pfnEnd) (h0 : pfn ≠ 0) (hinv : Inv p) : Inv p' := by
  obtain ⟨hi, hadr, hpa, -⟩ := frame_of_pfn h1 h2
  rcases unmarkFrame_cases h with ⟨-, rfl⟩ | ⟨hb, q, rfl, rfl⟩
  · exact hinv
  · rw [if_pos hinv.ready, if_pos (hinv.counted.lt_total hi hb), hpa, ← hadr]
    refine pushNode_inv hinv hi hb ?_
    rw [hadr]
    unfold pageSize
    omega

theorem pmmUnmarkRange_inv {start fin : Nat}
    (h : pmmUnmarkRange p start fin = some (p', e)) (h0 : 0 < p.pfnBase ∨ pageSize ≤ start)
    (hinv : Inv p) : Inv p' := by
  rcases pmmUnmarkRange_cases h with ⟨rfl, -⟩ | ⟨n, _, h1, h2, -, hq, rfl⟩
  · exact hinv
  · have hpos : 1 ≤ start / pageSize := by
      unfold pageSize at *
      omega
    exact (unmarkFrames_effect (fun hu h1 h2 h0 => unmarkFrame_inv hu h1 h2 (by omega)) hq h1 h2
      hpos hinv).2

theorem pmmFreeFrame_inv (h : pmmFreeFrame p pa = some p') (h0 : pa ≠ 0) (hinv : Inv p) :
    Inv p' := by
  obtain ⟨i, hi, rfl, hb, rfl⟩ := pmmFreeFrame_cases h
  exact pushNode_inv hinv hi hb h0

/-! ## The allocators -/

section Keeps
variable {I : PmmState → Prop}

theorem scatter_keeps (htake : ∀ {p p' pa}, pmmTakeFreeFrame p = some (p', pa) → I p → I p') :
    ∀ {n : Nat} {p : PmmState} {out : List Nat}, scatter p n = some (p', out) → I p → I p' := by
  intro n
  induction n with
  | zero =>
    intro p out h hi
    cases h
    exact hi
  | succ n ih =>
    intro p out h hi
    obtain ⟨⟨q, pa⟩, hq, hrest⟩ := Option.bind_eq_some_iff.mp h
    have hi' := htake hq hi
    split at hrest
    · cases hrest
      exact hi'
    · obtain ⟨⟨q', out'⟩, hq', he⟩ := Option.map_eq_some_iff.mp hrest
      cases he
      exact ih hq' hi'

/-- The operation neither gives a frame back nor writes to one. -/
def Op.Takes : Op → Prop
  | .unmarkRange .. | .freeFrame _ | .write .. => False
  | _ => True

/-- The operations that take frames keep what marking and taking keep. -/
theorem stepOp_keeps
    (hmark : ∀ {p p' start fin e}, pmmMarkRange p start fin = some (p', e) → I p → I p')
    (htake : ∀ {p p' pa}, pmmTakeFreeFrame p = some (p', pa) → I p → I p')
    {op : Op} (h : stepOp p op = some (p', out)) (ht : op.Takes) (hi : I p) : I p' := by
  cases op with
  | markRange start fin =>
    obtain ⟨⟨q, e⟩, hq, he⟩ := Option.map_eq_some_iff.mp h
    cases he
    exact hmark hq hi
  | allocFrame =>
    obtain ⟨⟨q, pa⟩, hq, he⟩ := Option.map_eq_some_iff.mp h
    cases he
    exact htake hq hi
  | allocFramesContig n =>
    obtain ⟨⟨q, pa⟩, hq, he⟩ := Option.map_eq_some_iff.mp h
    cases he
    exact (pmmAllocFramesContig_cases hq).keeps hmark hi
  | allocFramesContigAligned n a =>
    obtain ⟨⟨q, pa⟩, hq, he⟩ := Option.map_eq_some_iff.mp h
    cases he
    exact (pmmAllocFramesContigAligned_cases hq).keeps hmark hi
  | allocFramesScattered n outAddrs =>
    simp only [stepOp, pmmAllocFramesScattered] at h
    split at h
    · cases h
      exact hi
    · simp only [kassert_eq_some] at h
      exact scatter_keeps htake h.2.2 hi
  | unmarkRange => exact ht.elim
  | freeFrame => exact ht.elim
  | write => exact ht.elim

end Keeps

/-! ## Rebuilding the list at boot -/

/-- The loop of the rebuild links exactly the free frames it has passed. -/
theorem foldl_rebuildFrame_list (h0 : isFreeFrame p 0 = false) (hh : p.freelistHead = 0) :
    ∀ n ≤ p.totalFrames, ∃ xs, Linked ((List.range n).foldl rebuildFrame p) xs ∧
      ∀ x, x ∈ xs ↔ ∃ i < n, p.bitmap.testBit i = false ∧ x = frameAddr p.toGeometry i := by
  intro n
  induction n with
  | zero => exact fun _ => ⟨[], ⟨hh, List.nodup_nil, by simp, trivial⟩, by simp⟩
  | succ n ih =>
    intro hn
    obtain ⟨xs, hl, hm⟩ := ih (by omega)
    have hlo := foldl_rebuildFrame_listOnly (List.range n) p
    rw [List.range_succ, List.foldl_append]
    generalize (List.range n).foldl rebuildFrame p = q at hl hlo
    simp only [List.foldl_cons, List.foldl_nil, rebuildFrame, hlo.bitmap, Nat.exists_lt_succ_right,
      ← hm]
    split
    · rename_i hb
      exact ⟨xs, hl, by simp [hb]⟩
    · rename_i hb
      have hb' : p.bitmap.testBit n = false := by simpa using hb
      have hadr : pfnToPa (q.pfnBase + n) = frameAddr p.toGeometry n := by
        rw [hlo.geometry]
        rfl
      rw [hadr]
      refine ⟨frameAddr p.toGeometry n :: xs, pushNode_linked hl ?_ ?_, by simp [hb', or_comm]⟩
      · intro e
        have := isFreeFrame_frameAddr (p := p) (i := n) (by omega)
        rw [e, h0, hb'] at this
        cases this
      · rw [hm]
        rintro ⟨i, hi, -, he⟩
        have := (frameAddr_inj p.toGeometry (by omega) (by omega)).mp he
        omega

theorem pmmRebuildFreelist_inv (hc : Counted p) (h0 : isFreeFrame p 0 = false) :
    Inv (pmmRebuildFreelist p) := by
  obtain ⟨xs, hl, hm⟩ := foldl_rebuildFrame_list (p := { p with freelistHead := 0 }) h0 rfl
    p.totalFrames le_rfl
  refine ⟨rfl, hc.listOnly (pmmRebuildFreelist_listOnly p), xs, hl, fun x => ?_⟩
  rw [(pmmRebuildFreelist_listOnly p).withBits.isFreeFrame_eq, isFreeFrame_iff]
  exact hm x

/-! ## Boot -/

/-- Under a true count no assertion fails when an allocated frame is freed. -/
theorem pmmFreeFrame_total (hi : i < p.totalFrames) (hc : Counted p)
    (ha : isFreeFrame p (frameAddr p.toGeometry i) = false) :
    ∃ p', pmmFreeFrame p (frameAddr p.toGeometry i) = some p' := by
  rw [isFreeFrame_frameAddr hi] at ha
  have hb : p.bitmap.testBit i = true := by simpa using ha
  have hlt := hc.lt_total hi hb
  have := p.total_eq
  have := p.bytes_eq
  have hpfn : paToPfn (frameAddr p.toGeometry i) = p.pfnBase + i := by
    rw [frameAddr_eq _ hi.le]
    unfold paToPfn pageSize
    omega
  have hpage : frameAddr p.toGeometry i % pageSize = 0 := by
    rw [frameAddr_eq _ hi.le]
    unfold pageSize
    omega
  simp only [pmmFreeFrame, hpfn, Nat.add_sub_cancel_left, hb, if_true]
  rw [kassert_pos hpage, kassert_pos (by omega), kassert_pos (by omega), kassert_pos (by omega),
    kassert_pos (by omega)]
  exact ⟨_, rfl⟩

theorem markFrames_total : ∀ {n pfn : Nat} {p : PmmState} (b : Bool), p.pfnBase ≤ pfn →
    pfn + n ≤ p.pfnEnd → Counted p → ∃ r, markFrames p b pfn n = some r := by
  intro n
  induction n with
  | zero => exact fun b _ _ _ => ⟨_, rfl⟩
  | succ n ih =>
    intro pfn p b h1 h2 hc
    obtain ⟨⟨q, c⟩, hq⟩ := markFrame_total b h1 (by omega) hc
    have he := markFrame_effect hq h1 (by omega)
    have hg := he.geometry
    have hcq := he.counted hc
    have hb : q.pfnBase ≤ pfn + 1 := by rw [hg]; omega
    obtain ⟨r, hr⟩ := ih c hb (by rw [hg]; omega) hcq
    exact ⟨r, by simp only [markFrames, hq, Option.bind_some, hr]⟩

section Contig
variable {n : Nat} {ok : Nat → Bool} {no : Prop}

theorem takeRun_total (hc : Counted p) (hn : 0 < n) :
    ∃ r, takeRun p n (contigScan p n ok p.totalFrames 0 0 0) = some r := by
  have hrun := contigScan_total p ok hn
  cases hscan : contigScan p n ok p.totalFrames 0 0 0 with
  | none => exact ⟨_, rfl⟩
  | some s =>
    rw [hscan] at hrun
    have hs := hrun.1.inside
    simp only [takeRun, pmmMarkRange]
    cases hr : frameRange p.toGeometry (pfnToPa (p.pfnBase + s))
        (pfnToPa (p.pfnBase + s + n)) with
    | none => exact ⟨_, rfl⟩
    | some ab =>
      obtain ⟨a, b⟩ := ab
      obtain ⟨h1, h2, -⟩ := frameRange_some hr
      have htot := p.total_eq
      obtain ⟨r, hmark⟩ : ∃ r, markFrames p false a (b - a) = some r := by
        by_cases hab : a ≤ b
        · exact markFrames_total false h1 (by omega) hc
        · rw [Nat.sub_eq_zero_of_le (by omega)]
          exact ⟨_, rfl⟩
      simp only [hmark, Option.bind_some, kassert_pos (show p.pfnEnd > p.pfnBase by omega)]
      split <;> exact ⟨_, rfl⟩

/-- A contiguous allocation never trips an assertion. -/
theorem pmmAllocFramesContig_total (n : Nat) (hc : Counted p) :
    ∃ r, pmmAllocFramesContig p n = some r := by
  have hle := clearBits_card_le p
  rw [← hc] at hle
  unfold pmmAllocFramesContig
  split
  · exact ⟨_, rfl⟩
  · rw [kassert_pos hle, kassert_pos (by omega)]
    exact takeRun_total hc (by omega)

theorem pmmAllocFramesContigAligned_total (n a : Nat) (hc : Counted p) :
    ∃ r, pmmAllocFramesContigAligned p n a = some r := by
  unfold pmmAllocFramesContigAligned
  split
  · exact ⟨_, rfl⟩
  dsimp only
  generalize (if a = 0 then 1 else a) = a'
  split
  · exact ⟨_, rfl⟩
  split
  · exact ⟨_, rfl⟩
  · exact takeRun_total hc (by omega)

/-- The frames of a run are counted as free. -/
theorem IsRun.le_freeFrames {s : Nat} (h : IsRun p n ok s) (hc : Counted p) :
    n ≤ p.freeFrames := by
  have hsub : (Finset.range n).image (s + ·) ⊆ clearBits p := by
    intro i hi
    obtain ⟨j, hj, rfl⟩ := Finset.mem_image.mp hi
    have hj := Finset.mem_range.mp hj
    have := h.inside
    exact mem_clearBits.mpr ⟨by omega, h.clear j hj⟩
  have hcard := Finset.card_le_card hsub
  rwa [Finset.card_image_of_injective _ (add_right_injective s), Finset.card_range,
    ← hc] at hcard

/-- An allocator that refuses only what is not there finds the lowest run. -/
theorem Contig.firstFit (h : Contig p n ok no p' pa) (hc : Counted p)
    (hno : no → n = 0 ∨ p.freeFrames < n) : FirstFit p n ok p' pa := by
  cases h with
  | refused h =>
    refine .inl ⟨fun s hs => ?_, rfl, rfl⟩
    have := hs.pos
    have := hs.le_freeFrames hc
    have := hno h
    omega
  | scanned hn h => exact takeRun_firstFit hn h

/-- A run that is taken does not start at the address that reports failure. -/
theorem FirstFit.null_iff (h : FirstFit p n ok p' pa) (h0 : isFreeFrame p 0 = false) :
    pa = 0 ↔ ∀ s, ¬IsRun p n ok s := by
  rcases h with ⟨hno, rfl, -⟩ | ⟨s, hs, rfl, he⟩
  · exact ⟨fun _ => hno, fun _ => rfl⟩
  · refine ⟨fun hz => ?_, fun hno => absurd hs.1 (hno s)⟩
    have hpos := hs.1.pos
    have hin := hs.1.inside
    rw [frameAddr_eq _ (by omega)] at hz
    have hfree := he.took_free 0 ⟨rfl, show p.pfnBase + s ≤ 0 by omega,
      show 0 < p.pfnBase + s + n by omega⟩
    rw [h0] at hfree
    cases hfree

end Contig

/-- Both contiguous allocators return, and take the lowest run of free frames at a place they
allow; they return PA_NULL exactly when there is none. An alignment that is not a power of two is
refused. -/
theorem contig_first_fit (h : Inv p) (n a : Nat) :
    (∃ p' pa, pmmAllocFramesContig p n = some (p', pa) ∧
      FirstFit p n (fun _ => true) p' pa ∧ (pa = 0 ↔ ∀ s, ¬IsRun p n (fun _ => true) s)) ∧
    ∃ p' pa, pmmAllocFramesContigAligned p n a = some (p', pa) ∧
      (a = 0 ∨ a.isPowerOfTwo → FirstFit p n (alignedTo p.toGeometry a) p' pa ∧
        (pa = 0 ↔ ∀ s, ¬IsRun p n (alignedTo p.toGeometry a) s)) ∧
      (¬(a = 0 ∨ a.isPowerOfTwo) → pa = 0 ∧ p' = p) := by
  obtain ⟨⟨p₁, pa₁⟩, h₁⟩ := pmmAllocFramesContig_total n h.counted
  obtain ⟨⟨p₂, pa₂⟩, h₂⟩ := pmmAllocFramesContigAligned_total n a h.counted
  have hfit₁ := (pmmAllocFramesContig_cases h₁).firstFit h.counted id
  have hcases := pmmAllocFramesContigAligned_cases h₂
  refine ⟨⟨p₁, pa₁, h₁, hfit₁, hfit₁.null_iff h.zero⟩, p₂, pa₂, h₂, fun ha => ?_, fun ha => ?_⟩
  · have hpow : (if a = 0 then 1 else a).isPowerOfTwo := by
      split
      · exact ⟨0, rfl⟩
      · exact ha.resolve_left ‹_›
    have hfit := hcases.firstFit h.counted fun hno => hno.resolve_right fun hn => hn hpow
    exact ⟨hfit, hfit.null_iff h.zero⟩
  · rw [not_or] at ha
    have hand : a &&& (a - 1) ≠ 0 := fun he =>
      ha.2 ((Nat.and_sub_one_eq_zero_iff_isPowerOfTwo ha.1).mp he)
    simp only [pmmAllocFramesContigAligned, if_neg ha.1, if_pos hand, ite_self] at h₂
    cases h₂
    exact ⟨rfl, rfl⟩

/-- One free frame, number 3. -/
def oneFrame : PmmState :=
  pmmRebuildFreelist
    { pfnBase := 3, pfnEnd := 4, totalFrames := 1, bitmapBytes := 1
      base_le := by decide, end_lt := by decide, total_eq := rfl, bytes_eq := rfl
      freeFrames := 1, bitmap := fun _ => 0
      freelistHead := 0, freelistReady := false, next := fun _ => 0, prev := fun _ => 0 }

theorem oneFrame_inv : Inv oneFrame := pmmRebuildFreelist_inv rfl rfl

/-- Seven free frames, numbers 3 to 9. -/
def sevenFrames : PmmState :=
  pmmRebuildFreelist
    { pfnBase := 3, pfnEnd := 10, totalFrames := 7, bitmapBytes := 1
      base_le := by decide, end_lt := by decide, total_eq := rfl, bytes_eq := rfl
      freeFrames := 7, bitmap := fun _ => 0
      freelistHead := 0, freelistReady := false, next := fun _ => 0, prev := fun _ => 0 }

theorem sevenFrames_inv : Inv sevenFrames := pmmRebuildFreelist_inv rfl rfl

/-- Three frames are found at number 3, and at number 4 if they have to be aligned to four. -/
theorem contig_first_fit_seven :
    (∃ p', pmmAllocFramesContig sevenFrames 3 = some (p', 3 * pageSize) ∧
      FirstFit sevenFrames 3 (fun _ => true) p' (3 * pageSize)) ∧
    ∃ p', pmmAllocFramesContigAligned sevenFrames 3 4 = some (p', 4 * pageSize) ∧
      FirstFit sevenFrames 3 (alignedTo sevenFrames.toGeometry 4) p' (4 * pageSize) := by
  obtain ⟨⟨p₁, pa₁, h₁, hfit₁, -⟩, p₂, pa₂, h₂, hfit₂, -⟩ := contig_first_fit sevenFrames_inv 3 4
  have hpa₁ : (pmmAllocFramesContig sevenFrames 3).map Prod.snd = some (3 * pageSize) := by
    decide +kernel
  have hpa₂ : (pmmAllocFramesContigAligned sevenFrames 3 4).map Prod.snd =
      some (4 * pageSize) := by
    decide +kernel
  rw [h₁] at hpa₁
  rw [h₂] at hpa₂
  cases hpa₁
  cases hpa₂
  exact ⟨⟨p₁, h₁, hfit₁⟩, p₂, h₂, (hfit₂ (.inr ⟨2, rfl⟩)).1⟩

/-- Frame 3 is a run aligned to 3, and yet the request is refused. -/
theorem aligned_to_three_refused :
    Inv oneFrame ∧ IsRun oneFrame 1 (alignedTo oneFrame.toGeometry 3) 0 ∧
      pmmAllocFramesContigAligned oneFrame 1 3 = some (oneFrame, 0) :=
  ⟨oneFrame_inv, ⟨by decide, by decide, by decide, by decide⟩, rfl⟩

/-- Reserving keeps the count, frees no frame and marks every accepted range. -/
theorem reserveRegions_spec {rs : List (Nat × Nat)} : ∀ {p : PmmState},
    reserveRegions p rs = some p' → Counted p →
    p'.toGeometry = p.toGeometry ∧ Counted p' ∧ ∀ x, isFreeFrame p' x = true →
      isFreeFrame p x = true ∧ ∀ r ∈ rs, x ∉ rangeSpan p.toGeometry r.1 r.2 := by
  induction rs with
  | nil =>
    intro p h hc
    cases h
    exact ⟨rfl, hc, fun x hx => ⟨hx, by simp⟩⟩
  | cons r rs ih =>
    intro p h hc
    obtain ⟨⟨q, e⟩, hq, hrest⟩ := Option.bind_eq_some_iff.mp h
    have he := pmmMarkRange_effect hq
    obtain ⟨hg, hc', hx'⟩ := ih hrest (he.counted hc)
    refine ⟨hg.trans he.geometry, hc', fun x hx => ?_⟩
    obtain ⟨hf, hrs⟩ := hx' x hx
    obtain ⟨hfp, hnot⟩ := ((he.free_iff x).mp hf).resolve_right (by simp)
    refine ⟨hfp, fun r' hr' => ?_⟩
    rcases List.mem_cons.mp hr' with rfl | hr'
    · exact fun hm => hnot ⟨hfp, hm⟩
    · rw [← he.geometry]
      exact hrs r' hr'

/-- Frame 0 is outside managed RAM, or one of the boot ranges that
`PmmMarkRange` accepts starts in it. -/
def BootKeepsZero (l : RamLayout) (b : BootInfo) : Prop :=
  0 < paToPfn l.ramStart ∨ ∃ r ∈ bootRegions l b, r.1 < r.2 ∧ r.1 < pageSize ∧
    0 < paToPfn (alignUp r.2 pageSize) ∧ paToPfn (alignUp r.2 pageSize) ≤ paToPfn l.ramEnd

/-- A frame with a positive number is not frame 0. -/
theorem zero_not_free_of_base (h : 0 < p.pfnBase) : isFreeFrame p 0 = false := by
  unfold isFreeFrame paToPfn
  simp only [Nat.zero_div]
  rw [decide_eq_false (by omega)]
  simp

section
variable {next : Nat → Nat} (h : pmmInit l b next prev = some p)
include h

/-- Boot reserves the boot regions and then builds the list. -/
theorem pmmInit_spec : ∃ q, p = pmmRebuildFreelist q ∧
      q.toGeometry = l.geometry ∧ Counted q ∧ ∀ x, isFreeFrame q x = true →
        isFreeFrame (freshState l next prev) x = true ∧
        ∀ r ∈ bootRegions l b, x ∉ rangeSpan l.geometry r.1 r.2 := by
  simp only [pmmInit, kassert_eq_some] at h
  obtain ⟨-, -, h⟩ := h
  obtain ⟨q, hq, rfl⟩ := Option.map_eq_some_iff.mp h
  have hc : Counted (freshState l next prev) := by
    unfold Counted clearBits freshState
    simp
  exact ⟨q, rfl, reserveRegions_spec hq hc⟩

theorem pmmInit_geometry : p.toGeometry = l.geometry := by
  obtain ⟨q, rfl, hg, -⟩ := pmmInit_spec h
  exact (pmmRebuildFreelist_listOnly q).geometry.trans hg

theorem pmmInit_inv (hz : BootKeepsZero l b) : Inv p := by
  obtain ⟨q, rfl, hg, hcq, hfree⟩ := pmmInit_spec h
  refine pmmRebuildFreelist_inv hcq ?_
  by_contra hf
  obtain ⟨h0, hrs⟩ := hfree 0 (by simpa using hf)
  rcases hz with hb | ⟨r, hr, h1, h2, h3, h4⟩
  · rw [zero_not_free_of_base (p := freshState l next prev) hb] at h0
    cases h0
  · refine hrs r hr ?_
    have hbase : l.geometry.pfnBase = 0 := by
      by_contra hb
      rw [zero_not_free_of_base (p := freshState l next prev) (Nat.pos_of_ne_zero hb)] at h0
      cases h0
    have hr' : frameRange l.geometry r.1 r.2 =
        some (0, paToPfn (alignUp r.2 pageSize)) := by
      have hd : paToPfn (alignDown r.1 pageSize) = 0 := by
        unfold alignDown paToPfn pageSize at *
        omega
      unfold frameRange
      rw [if_neg (by omega)]
      simp only [hd]
      rw [if_neg (by rw [hbase]; exact not_or.mpr ⟨by omega, not_lt.mpr h4⟩)]
    unfold rangeSpan
    rw [hr']
    exact ⟨rfl, Nat.zero_le _, h3⟩

end

/-! ## Runs -/

/-- The operation does not put frame 0 among the free frames. -/
def OpKeepsZero (g : Geometry) (op : Op) : Prop :=
  0 < g.pfnBase ∨ match op with
    | .unmarkRange start _ => pageSize ≤ start
    | .freeFrame addr => addr ≠ 0
    | _ => True

/-- The frame allocator keeps the invariant on the way to a frame. -/
theorem pmmTakeFreeFrame_keeps (h : pmmTakeFreeFrame p = some (p', pa)) (hinv : Inv p) : Inv p' := by
  rcases pmmTakeFreeFrame_inv hinv with ⟨-, ht⟩ | ⟨q', pa', ht, -, hinv'⟩
  all_goals
    rw [ht] at h
    cases h
    assumption

section
variable {op : Op} (h : stepOp p op = some (p', out))
include h

theorem stepOp_inv (hz : OpKeepsZero p.toGeometry op) (hinv : Inv p) : Inv p' := by
  cases op with
  | unmarkRange start fin =>
    obtain ⟨⟨q, e⟩, hq, he⟩ := Option.map_eq_some_iff.mp h
    cases he
    exact pmmUnmarkRange_inv hq hz hinv
  | freeFrame addr =>
    obtain ⟨q, hq, he⟩ := Option.map_eq_some_iff.mp h
    cases he
    refine pmmFreeFrame_inv hq ?_ hinv
    rcases hz with hb | h0
    · -- frames of RAM that starts above 0 do not have address 0
      rintro rfl
      simp only [pmmFreeFrame, kassert_eq_some, paToPfn, Nat.zero_div] at hq
      omega
    · exact h0
  | write pa next prev =>
    simp only [stepOp] at h
    split at h
    · cases h
    · rename_i hf
      cases h
      obtain ⟨xs, hl⟩ := hinv.list
      have hnot : pa ∉ xs := fun hm => hf ((hl.mem_iff pa).mp hm)
      exact ⟨hinv.ready, hinv.counted, xs, hl.linked.write hnot next prev, hl.mem_iff⟩
  | _ => exact stepOp_keeps pmmMarkRange_inv pmmTakeFreeFrame_keeps h trivial hinv

/-- An operation that hands out frames gives none back. -/
theorem stepOp_out {x : Nat} (hx : x ∈ out) (g : Geometry) : op.frees g = ∅ := by
  cases op with
  | unmarkRange start fin =>
    obtain ⟨_, _, he⟩ := Option.map_eq_some_iff.mp h
    cases he
    cases hx
  | freeFrame addr =>
    obtain ⟨_, _, he⟩ := Option.map_eq_some_iff.mp h
    cases he
    cases hx
  | _ => rfl

end

/-- The allocator is a pool of frames: an operation takes what it hands out and
gives back what it was asked to free. -/
theorem system_refines_pool (l : RamLayout) (b : BootInfo) :
    (system l b).Refines Pool.system (fun p => p.toGeometry = l.geometry) free
      fun o => ⟨{x | x ∈ o.2}, o.1.frees l.geometry⟩ where
  step {p o p'} hg hs := by
    obtain ⟨took, he, hout⟩ := stepOp_effect hs
    refine ⟨he.geometry.trans hg, fun x hx => he.took_free x (hout x hx), fun x hx => ?_⟩
    rw [← hg]
    rcases (he.free_iff x).mp hx with ⟨hf, hn⟩ | hgave
    · exact .inl ⟨hf, fun ho => hn (hout x ho)⟩
    · exact .inr hgave

/-- Bitmap, counter and free list describe the same set of frames. -/
structure Consistent (p : PmmState) : Prop where
  /-- The free list is well linked, and each managed frame is on it once if its
  bit is clear and not at all otherwise. -/
  list : ∃ xs, IsDList 0 p.next p.prev p.freelistHead xs ∧
    (∀ x ∈ xs, ∃ i < p.totalFrames, x = frameAddr p.toGeometry i) ∧
    ∀ i < p.totalFrames, xs.count (frameAddr p.toGeometry i) =
      if p.bitmap.testBit i then 0 else 1
  count : p.freeFrames = (clearBits p).card

theorem Inv.consistent (h : Inv p) : Consistent p := by
  obtain ⟨xs, hl⟩ := h.list
  refine ⟨⟨xs, hl.linked, fun x hx => ?_, fun i hi => ?_⟩, h.counted⟩
  · obtain ⟨hi, he, -⟩ := hl.clear hx
    exact ⟨_, hi, he⟩
  · have hm := hl.mem_iff (frameAddr p.toGeometry i)
    rw [isFreeFrame_frameAddr hi] at hm
    split
    · rename_i hb
      rw [hb] at hm
      exact List.count_eq_zero.mpr fun hx => by simp at hm; exact hm hx
    · rename_i hb
      have hx : frameAddr p.toGeometry i ∈ xs := hm.mpr (by simpa using hb)
      exact List.count_eq_one_of_mem hl.linked.nodup hx

/-- Frame 0 cannot be free in a consistent state: its address ends the list. -/
theorem Consistent.zero_allocated (h : Consistent p) (hb : p.pfnBase = 0)
    (ht : 0 < p.totalFrames) : p.bitmap.testBit 0 = true := by
  obtain ⟨xs, hl, -, hc⟩ := h.list
  have h0 : frameAddr p.toGeometry 0 = 0 := by
    rw [frameAddr_eq _ ht.le, hb]
  by_contra hbit
  have := hc 0 ht
  rw [h0, if_neg hbit] at this
  exact hl.null_notMem (List.count_pos_iff.mp (by omega))

/-- No frame is handed out twice along a trace without being given back between. -/
def NoDoubleHandout (g : Geometry) (trace : List (Op × List Nat)) : Prop :=
  ∀ t₁ o₁ t₂ o₂ t₃, trace = t₁ ++ o₁ :: t₂ ++ o₂ :: t₃ → ∀ x ∈ o₁.2, x ∈ o₂.2 →
    ∃ o ∈ t₂, x ∈ o.1.frees g

theorem run_noDoubleHandout {trace : List (Op × List Nat)}
    (h : (system l b).Run p trace p') (hg : p.toGeometry = l.geometry) :
    NoDoubleHandout l.geometry trace := by
  rintro t₁ o₁ t₂ o₂ t₃ rfl x h₁ h₂
  have hpool := (system_refines_pool l b).run h hg
  simp only [List.map_append, List.map_cons] at hpool
  rcases Pool.acquire_twice hpool h₁ h₂ with hgave | ⟨e, he, hgave⟩
  · -- the first allocation itself frees nothing
    rw [List.append_assoc] at h
    obtain ⟨m, -, hm⟩ := h.split
    cases hm with
    | cons hs _ =>
      rw [stepOp_out hs h₁] at hgave
      cases hgave
  · obtain ⟨o, ho, rfl⟩ := List.mem_map.mp he
    exact ⟨o, ho, hgave⟩

/-- The system without the operations that free frame 0. -/
def zeroKeptSystem (l : RamLayout) (b : BootInfo) : LTS PmmState (Op × List Nat) :=
  (system l b).restrict (fun _ => BootKeepsZero l b) fun p o => OpKeepsZero p.toGeometry o.1

theorem zeroKeptSystem_inv (l : RamLayout) (b : BootInfo) :
    (zeroKeptSystem l b).Inductive fun p => Inv p ∧ p.toGeometry = l.geometry where
  init {_} h := by
    obtain ⟨⟨next, prev, hi⟩, hz⟩ := h
    exact ⟨pmmInit_inv hi hz, pmmInit_geometry hi⟩
  step {_ _ _} hi hs := by
    obtain ⟨took, he, -⟩ := stepOp_effect hs.1
    exact ⟨stepOp_inv hs.1 hs.2 hi.1, he.geometry.trans hi.2⟩

/-- As long as frame 0 is not managed, or is reserved at boot and never freed,
the allocator's bitmap, counter and free list agree in every state reached, a
frame is taken whenever one is free, and no frame is handed out twice. -/
theorem frames_consistent_of_zero_kept {l : RamLayout} {b : BootInfo} {p₀ p : PmmState}
    {trace : List (Op × List Nat)} (hinit : (zeroKeptSystem l b).init p₀)
    (hrun : (zeroKeptSystem l b).Run p₀ trace p) :
    Consistent p ∧ NoDoubleHandout l.geometry trace ∧
      (p.freeFrames ≠ 0 → ∃ p' pa, pmmAllocFrame p = some (p', pa) ∧ pa ≠ 0) := by
  have h₀ := (zeroKeptSystem_inv l b).init hinit
  have h := hrun.preserves (zeroKeptSystem_inv l b).step h₀
  refine ⟨h.1.consistent, run_noDoubleHandout hrun.of_restrict h₀.2, ?_⟩
  intro hne
  rcases pmmTakeFreeFrame_inv h.1 with ⟨hf, -⟩ | ⟨q, pa, ht, h0, -⟩
  · exact absurd hf hne
  · exact ⟨q, pa, ht, h0⟩

/-- RAM from address 0 with the kernel at `0x8000`, as on rpi4 (`bsp/arm/rpi4`). -/
def lowRam : RamLayout where
  ramStart := 0
  ramEnd := 0x10000
  dtbStartPa := 0xD000
  kernelStartPa := 0x8000
  kernelEndPa := 0x9000
  stackBasePa := 0xB000
  ram_le := by decide
  ram_lt := by decide

/-- Boot data for `lowRam` with the given device-tree reservations. -/
def lowBoot (reservedMem : List (Nat × Nat)) : BootInfo where
  bootStart := 0x8000
  bootEnd := 0x8100
  stackRegionBase := 0xB000
  stackRegionEnd := 0xC000
  fdtTotalSize := 0x800
  reservedMem := reservedMem
  initrd := none

/-- With frame 0 reserved by the device tree, a frame is taken and freed again. -/
theorem frames_consistent_lowRam_reserved :
    ∃ p₀ p trace, trace.length = 2 ∧
      (zeroKeptSystem lowRam (lowBoot [(0, 0x1000)])).Run p₀ trace p ∧ Consistent p ∧
      NoDoubleHandout lowRam.geometry trace := by
  have hrun : ((pmmInit lowRam (lowBoot [(0, 0x1000)]) id id).bind fun p₀ =>
      (stepOp p₀ .allocFrame).bind fun r => (stepOp r.1 (.freeFrame 0xF000)).bind fun r' =>
      some (r'.2 == [])) = some true := by
    decide +kernel
  obtain ⟨p₀, h₀, h⟩ := Option.bind_eq_some_iff.mp hrun
  obtain ⟨⟨p₁, out⟩, h₁, h⟩ := Option.bind_eq_some_iff.mp h
  obtain ⟨⟨p₂, out'⟩, h₂, h⟩ := Option.bind_eq_some_iff.mp h
  have hz : BootKeepsZero lowRam (lowBoot [(0, 0x1000)]) := by
    refine .inr ⟨(0, 0x1000), ?_, ?_⟩ <;> decide
  have hr : (zeroKeptSystem lowRam (lowBoot [(0, 0x1000)])).Run p₀
      [(.allocFrame, out), (.freeFrame 0xF000, out')] p₂ :=
    .cons ⟨h₁, .inr trivial⟩ (.single ⟨h₂, .inr (show 0xF000 ≠ 0 by decide)⟩)
  have := frames_consistent_of_zero_kept ⟨⟨id, id, h₀⟩, hz⟩ hr
  exact ⟨p₀, p₂, _, rfl, hr, this.1, this.2.1⟩

/-- RAM that starts at address 0 and does not reserve frame 0: right after boot
frame 0 is free by the bitmap and the counter but not on the free list. -/
theorem lowRam_frame_zero_lost :
    ∃ p₀, (system lowRam (lowBoot [])).init p₀ ∧ p₀.bitmap.testBit 0 = false ∧ ¬Consistent p₀ := by
  have h : (pmmInit lowRam (lowBoot []) id id).map (fun p => p.bitmap.testBit 0) = some false := by
    decide +kernel
  obtain ⟨p₀, h₀, hb⟩ := Option.map_eq_some_iff.mp h
  refine ⟨p₀, ⟨id, id, h₀⟩, hb, fun hc => ?_⟩
  have hg := pmmInit_geometry h₀
  have := hc.zero_allocated (by rw [hg]; rfl) (by rw [hg]; decide)
  rw [hb] at this
  cases this

end Zuzu.L1.Pmm
