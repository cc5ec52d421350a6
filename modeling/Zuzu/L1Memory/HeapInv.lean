import Zuzu.L1Memory.HeapBlocks

/-!
# Heap operations keep the invariant

`Inv h bs` is kept by `KMalloc`, `KFree` and growth: the blocks `bs` are linked
and tile the grown segments, and the segments lie in frames that the frame
allocator does not count as free. Each operation has one spec lemma
(`heapGrow_spec`, `kMalloc_spec`, `kFree_spec`), which also says that it returns.
-/
namespace Zuzu.L1.Heap
open Zuzu.Core Zuzu.L1.Pmm
open Function (update)
variable {m : Mem} {h h' : KHeap} {b req : Nat} {bs bs' : List Nat}

/-! ## The search -/

/-- A free block large enough for the request. -/
def Fits (m : Mem) (req b : Nat) : Prop := blkState m b = kblockFree ∧ req ≤ blkSize m b

/-- With more turns than blocks the search ends, at the first block that fits if
there is one. -/
theorem findFit_spec {prev : Nat → Nat} {p : Nat} : ∀ {xs : List Nat} {turns : Nat},
    Seg (blkNext m) prev p xs 0 → 0 ∉ xs → xs.length < turns →
    ∃ res, findFit m req turns (xs.headD 0) = some res ∧
      (∀ b, res = some b → b ∈ xs ∧ Fits m req b) ∧ (res = none → ∀ b ∈ xs, ¬ Fits m req b) := by
  intro xs
  induction xs generalizing p with
  | nil =>
    intro turns _ _ ht
    cases turns with
    | zero => exact absurd ht (by simp)
    | succ turns => exact ⟨none, by simp [findFit], by simp, by simp⟩
  | cons a xs ih =>
    intro turns hseg hz ht
    obtain ⟨-, hnext, hrest⟩ := hseg
    obtain ⟨ha, hz'⟩ : 0 ≠ a ∧ 0 ∉ xs := by simpa using hz
    cases turns with
    | zero => exact absurd ht (by simp)
    | succ turns =>
      rw [List.headD_cons, Heap.findFit, if_neg (Ne.symm ha)]
      split
      · rw [hnext]
        obtain ⟨res, he, hs, hn⟩ := ih hrest hz' (by simpa using ht)
        refine ⟨res, he, fun b hb => ?_, fun hb c hc => ?_⟩
        · exact ⟨List.mem_cons_of_mem _ (hs b hb).1, (hs b hb).2⟩
        · rcases List.mem_cons.mp hc with rfl | hc
          · unfold Fits
            omega
          · exact hn hb c hc
      · rename_i hfit
        obtain ⟨hstate, hsize⟩ := not_or.mp hfit
        refine ⟨_, rfl, fun b hb => ?_, by simp⟩
        cases hb
        exact ⟨List.mem_cons_self, not_not.mp hstate, by omega⟩

/-! ## The invariant -/

/-- The frame that holds the byte at a direct-map address. -/
def frameOf (vaOffset x : Nat) : Nat := (x - vaOffset) / pageSize * pageSize

/-- mirrors bsp/arm/virt/layout.h:15 (`IOREMAP_BASE`): the direct map ends
below it. -/
def ioremapBase : Nat := 0xF0000000

/-- What holds between heap operations: the block list, and that the segments lie
in frames the heap owns, inside the recorded bounds. -/
structure Inv (h : KHeap) (bs : List Nat) : Prop where
  blocks : Blocks h bs
  counted : Counted h.pmm
  offset_page : h.vaOffset % pageSize = 0
  linear : h.pmm.pfnEnd * pageSize + h.vaOffset ≤ ioremapBase
  owned : ∀ x ∈ segSet h.segs, h.vaOffset ≤ x ∧ x < h.pmm.pfnEnd * pageSize + h.vaOffset ∧
    isFreeFrame h.pmm (frameOf h.vaOffset x) = false
  low : (h.startPa = 0 ∧ h.segs = []) ∨ (h.startPa ≠ 0 ∧ h.startVa = h.startPa + h.vaOffset)
  high : (h.endPa = 0 ∧ h.segs = []) ∨ h.endVa = h.endPa + h.vaOffset
  within : ∀ s ∈ h.segs, h.startVa ≤ s.1 ∧ s.1 + s.2 ≤ h.endVa

/-- A block and all its bytes lie in the segments. -/
theorem Blocks.mem_segSet (hB : Blocks h bs) (hb : b ∈ bs) {x : Nat} (h1 : b ≤ x)
    (h2 : x < b + extent h.mem b) : x ∈ segSet h.segs := (hB.tiles.cover x).mpr ⟨b, hb, h1, h2⟩

theorem Blocks.extent_ge (hB : Blocks h bs) (hb : b ∈ bs) : 32 ≤ extent h.mem b := by
  have := (hB.shape b hb).size_ge
  unfold extent hdr
  omega

/-- The list is shorter than the search's number of turns. -/
theorem Inv.length_lt (hI : Inv h bs) : bs.length < maxBlocks := by
  have hinj : (bs.map (· / 16)).Nodup := by
    refine List.Nodup.map_on (fun x hx y hy hxy => ?_) hI.blocks.list.nodup
    have h1 := (hI.blocks.shape x hx).aligned
    have h2 := (hI.blocks.shape y hy).aligned
    omega
  have hsub : bs.map (· / 16) ⊆ List.range (2 ^ 28) := by
    intro y hy
    obtain ⟨x, hx, rfl⟩ := List.mem_map.mp hy
    have hge := hI.blocks.extent_ge hx
    have := (hI.owned x (hI.blocks.mem_segSet hx le_rfl (by omega))).2.1
    have hlin := hI.linear
    rw [List.mem_range]
    unfold ioremapBase at hlin
    omega
  have := (hinj.subperm hsub).length_le
  rw [List.length_map, List.length_range] at this
  unfold maxBlocks
  omega

theorem Inv.findFit (hI : Inv h bs) (req : Nat) :
    ∃ res, findFit h.mem req maxBlocks h.head = some res ∧
      (∀ b, res = some b → b ∈ bs ∧ Fits h.mem req b) ∧
      (res = none → ∀ b ∈ bs, ¬ Fits h.mem req b) := by
  rw [hI.blocks.list.head_eq]
  exact findFit_spec hI.blocks.list.seg hI.blocks.list.null_notMem hI.length_lt

/-! ## Edits that leave the frames alone -/

/-- `h'` differs from `h` at most in memory and in `heap_tail`. -/
def ListEdit (h h' : KHeap) : Prop := h' = { h with mem := h'.mem, tail := h'.tail }

theorem ListEdit.inv (he : ListEdit h h') (hI : Inv h bs) (hB : Blocks h' bs') : Inv h' bs' := by
  obtain ⟨-, h2, h3, h4, h5, h6, h7, h8⟩ := hI
  refine ⟨hB, ?_, ?_, ?_, ?_, ?_, ?_, ?_⟩ <;> rw [he] <;> assumption

theorem heapMerge_listEdit (h : KHeap) (b : Nat) : ListEdit h (heapMerge h b) := by
  simp only [heapMerge, ListEdit]
  repeat' split
  all_goals rfl

theorem splitBlock_listEdit (h : KHeap) (b req : Nat) : ListEdit h (splitBlock h b req) := by
  simp only [splitBlock, ListEdit]
  split <;> rfl

/-! ## Growing -/

/-- The heap does not depend on frames it does not own. -/
theorem Inv.withPmm {p' : PmmState} {took gave : Set Nat} (hI : Inv h bs)
    (he : Accounted h.pmm took gave p')
    (hgave : ∀ x ∈ segSet h.segs, frameOf h.vaOffset x ∉ gave) :
    Inv { h with pmm := p' } bs := by
  have hend : p'.pfnEnd = h.pmm.pfnEnd := congrArg Geometry.pfnEnd he.geometry
  refine ⟨⟨hI.blocks.list, hI.blocks.tail, hI.blocks.shape, hI.blocks.tiles⟩, he.counted hI.counted,
    hI.offset_page,
    ?_, fun x hx => ?_, hI.low, hI.high, hI.within⟩
  · show p'.pfnEnd * _ + _ ≤ _
    rw [hend]
    exact hI.linear
  · obtain ⟨h1, h2, h3⟩ := hI.owned x hx
    refine ⟨h1, ?_, ?_⟩
    · show x < p'.pfnEnd * _ + _
      rw [hend]
      exact h2
    · rw [Bool.eq_false_iff]
      intro hf
      rcases (he.free_iff _).mp hf with ⟨hold, -⟩ | hg
      · rw [h3] at hold
        cases hold
      · exact hgave x hx hg

theorem growPages_pos (k : Nat) : 16 ≤ growPages k := by
  simp only [growPages]
  split
  · decide
  · rename_i hlt
    unfold heapGrowMinPages at hlt
    omega

/-- The largest request whose rounding and header fit in 32 bits. -/
def maxRequest : Nat := 0xFFFFEFE0

theorem growPages_fits {k : Nat} (hk : k ≤ maxRequest) : k + 32 ≤ growPages k * pageSize := by
  simp only [growPages]
  unfold maxRequest at hk
  unfold heapGrowMinPages alignUp pageSize hdr minPayload wordSize
  split <;> omega

/-- A run of frames lies in the direct map, in frames `[a, a + n)`. -/
theorem frameOf_mem_span {off a n x : Nat} (h1 : a * pageSize + off ≤ x)
    (h2 : x < a * pageSize + off + n * pageSize) : frameOf off x ∈ frameSpan a (a + n) := by
  unfold frameSpan frameOf paToPfn pageSize at *
  simp only [Set.mem_ofPred_eq]
  omega

/-- The bounds and the owned frames after growing by the run of `n` frames at
index `s`. -/
theorem grown_inv {p' : PmmState} {pa s n : Nat} (hI : Inv { h with pmm := p' } bs)
    (hB : Blocks (grown h p' pa (n * pageSize)) bs') (h0 : pa ≠ 0)
    (hpa : pa = (h.pmm.pfnBase + s) * 4096) (hs : s + n ≤ h.pmm.totalFrames)
    (hspan : ∀ x, pa + h.vaOffset ≤ x → x < pa + h.vaOffset + n * pageSize →
      frameOf h.vaOffset x ∈ frameSpan (h.pmm.pfnBase + s) (h.pmm.pfnBase + s + n))
    (he : Effect h.pmm (frameSpan (h.pmm.pfnBase + s) (h.pmm.pfnBase + s + n)) ∅ p') :
    Inv (grown h p' pa (n * pageSize)) bs' := by
  have hend : p'.pfnEnd = h.pmm.pfnEnd := congrArg Geometry.pfnEnd he.geometry
  have htot := h.pmm.total_eq
  refine ⟨hB, hI.counted, hI.offset_page, hI.linear, fun x hx => ?_, ?_, ?_, fun t ht => ?_⟩
  · have hx' : x ∈ segSet h.segs ∪
        {x | pa + h.vaOffset ≤ x ∧ x < pa + h.vaOffset + n * pageSize} := by
      rwa [← segSet_append]
    rcases hx' with hx' | ⟨h1, h2⟩
    · exact hI.owned x hx'
    · refine ⟨?_, ?_, ?_⟩
      · show h.vaOffset ≤ x
        omega
      · show x < p'.pfnEnd * pageSize + h.vaOffset
        unfold pageSize at *
        omega
      · show isFreeFrame p' (frameOf h.vaOffset x) = false
        rw [Bool.eq_false_iff]
        intro hf
        rcases (he.free_iff _).mp hf with ⟨-, hn⟩ | hg
        · exact hn (hspan x h1 h2)
        · exact hg
  · have hlow : (h.startPa = 0 ∧ h.segs = []) ∨
        (h.startPa ≠ 0 ∧ h.startVa = h.startPa + h.vaOffset) := hI.low
    simp only [grown]
    split
    · exact .inr ⟨h0, rfl⟩
    · exact .inr (hlow.resolve_left (by tauto))
  · have hhigh : (h.endPa = 0 ∧ h.segs = []) ∨ h.endVa = h.endPa + h.vaOffset := hI.high
    simp only [grown]
    split
    · exact .inr (by omega)
    · exact .inr (hhigh.resolve_left (by omega))
  · have hlow : (h.startPa = 0 ∧ h.segs = []) ∨
        (h.startPa ≠ 0 ∧ h.startVa = h.startPa + h.vaOffset) := hI.low
    have hhigh : (h.endPa = 0 ∧ h.segs = []) ∨ h.endVa = h.endPa + h.vaOffset := hI.high
    have hwithin : ∀ s ∈ h.segs, h.startVa ≤ s.1 ∧ s.1 + s.2 ≤ h.endVa := hI.within
    simp only [grown, List.mem_append, List.mem_singleton] at ht ⊢
    rcases ht with ht | rfl
    · have := hwithin t ht
      have hne : h.segs ≠ [] := List.ne_nil_of_mem ht
      have h1 := hlow.resolve_left (fun e => hne e.2)
      have h2 := hhigh.resolve_left (fun e => hne e.2)
      constructor <;> split <;> omega
    · constructor <;> dsimp only <;> split <;> omega

/-- `HeapGrow` reports failure only when the allocator had no run of frames; it
always returns. -/
theorem heapGrow_spec {k : Nat} (hI : Inv h bs) (hk : k ≤ maxRequest) :
    ∃ h' ok, heapGrow h k = some (h', ok) ∧
      ((ok = false ∧ (∃ p', h' = { h with pmm := p' } ∧
          pmmAllocFramesContig h.pmm (growPages k) = some (p', 0)) ∧ Inv h' bs) ∨
        (ok = true ∧ ∃ b, Inv h' (bs ++ [b]) ∧ Keeps h bs 0 h' (bs ++ [b]) ∧ b ∉ bs ∧
          Fits h'.mem k b)) := by
  obtain ⟨⟨p', pa⟩, hp⟩ := pmmAllocFramesContig_total (growPages k) hI.counted
  have hg : ∃ r, heapGrow h k = some r := by
    simp only [heapGrow, hp, Option.map_some]
    exact ⟨_, rfl⟩
  obtain ⟨⟨h', ok⟩, hg⟩ := hg
  refine ⟨h', ok, hg, ?_⟩
  obtain ⟨p₁, pa₁, hp₁, hcases⟩ := heapGrow_cases hg
  rw [hp] at hp₁
  cases hp₁
  have hn := growPages_pos k
  -- the two ways to get address 0: no run, or the run that starts at frame 0
  have hInv : Inv { h with pmm := p' } bs := by
    rcases (pmmAllocFramesContig_cases hp).effect with ⟨-, rfl⟩ | ⟨s, -, -, he⟩
    · exact hI
    · exact hI.withPmm he (by simp)
  rcases hcases with ⟨rfl, rfl, rfl⟩ | ⟨h0, rfl, rfl⟩
  · exact .inl ⟨rfl, ⟨p', rfl, hp⟩, hInv⟩
  · refine .inr ⟨rfl, pa + h.vaOffset, ?_⟩
    rcases (pmmAllocFramesContig_cases hp).effect with ⟨hz, -⟩ | ⟨s, hs, hpa, he⟩
    · exact absurd hz h0
    rw [frameAddr_eq _ (by omega)] at hpa
    have hspan : ∀ x, pa + h.vaOffset ≤ x → x < pa + h.vaOffset + growPages k * pageSize →
        frameOf h.vaOffset x ∈ frameSpan (h.pmm.pfnBase + s) (h.pmm.pfnBase + s + growPages k) := by
      intro x h1 h2
      rw [hpa] at h1 h2
      exact frameOf_mem_span h1 h2
    have hout : ∀ x ∈ segSet h.segs,
        ¬(pa + h.vaOffset ≤ x ∧ x < pa + h.vaOffset + growPages k * pageSize) := by
      intro x hx hin
      have hfree := he.took_free _ (hspan x hin.1 hin.2)
      rw [(hI.owned x hx).2.2] at hfree
      cases hfree
    have hoff := hI.offset_page
    have hfit := growPages_fits hk
    obtain ⟨hB, hK, hstate, hsize⟩ := grown_blocks p' hI.blocks rfl
      (by unfold pageSize at hoff; omega) (by omega) (n := growPages k * pageSize)
      (by unfold pageSize; omega) (by unfold pageSize; omega) hout
    have hnot : pa + h.vaOffset ∉ bs := by
      intro hm
      have hge := hI.blocks.extent_ge hm
      exact hout _ (hI.blocks.mem_segSet hm le_rfl (by omega)) ⟨le_rfl, by unfold pageSize; omega⟩
    refine ⟨?_, hK, hnot, hstate, ?_⟩
    · exact grown_inv hInv hB h0 hpa hs hspan he.toEffect
    · rw [hsize]
      unfold hdr
      omega

/-! ## `KMalloc` -/

/-- What an edit keeps apart from a free block, it keeps altogether. -/
theorem Keeps.of_free (hk : Keeps h bs b h' bs') (hf : blkState h.mem b = kblockFree) (x : Nat) :
    Keeps h bs x h' bs' := by
  intro c hc _ hs
  refine hk c hc (fun e => ?_) hs
  rw [e, hf] at hs
  exact absurd hs (by decide)

theorem Keeps.of_zero (hk : Keeps h bs 0 h' bs') (hB : Blocks h bs) (x : Nat) :
    Keeps h bs x h' bs' := by
  intro c hc _ hs
  exact hk c hc (fun e => hB.list.null_notMem (e ▸ hc)) hs

/-- `b` is handed out: it was not allocated before, now it is, and no other
allocated block changed. -/
structure Gives (h : KHeap) (bs : List Nat) (req : Nat) (h' : KHeap) (bs' : List Nat)
    (b : Nat) : Prop where
  inv : Inv h' bs'
  keeps : Keeps h bs 0 h' bs'
  mem : b ∈ bs'
  allocated : blkState h'.mem b = kblockAllocated
  size : req ≤ blkSize h'.mem b
  fresh : b ∈ bs → blkState h.mem b ≠ kblockAllocated

theorem Gives.after {h₀ : KHeap} {bs₀ : List Nat} (hk : Keeps h₀ bs₀ 0 h bs) (h0 : Blocks h₀ bs₀)
    (hg : Gives h bs req h' bs' b) : Gives h₀ bs₀ req h' bs' b := by
  refine ⟨hg.inv, hk.trans hg.keeps, hg.mem, hg.allocated, hg.size, fun hb hs => ?_⟩
  obtain ⟨hb', hs', -⟩ := hk b hb (fun e => h0.list.null_notMem (e ▸ hb)) hs
  exact hg.fresh hb' hs'

/-- Marking a free block of the right size allocated. -/
theorem gives_of_fits (hI : Inv h bs) (hb : b ∈ bs) (hf : Fits h.mem req b) :
    Gives h bs req { h with mem := setState h.mem b kblockAllocated } bs b := by
  obtain ⟨hB, hK, hstate, hsize⟩ := setState_blocks hI.blocks hb (.inr rfl)
  refine ⟨ListEdit.inv rfl hI hB, hK.of_free hf.1 0, hb, hstate, ?_, fun _ hs => ?_⟩
  · show req ≤ blkSize (setState h.mem b kblockAllocated) b
    rw [hsize]
    exact hf.2
  · rw [hf.1] at hs
    exact absurd hs (by decide)

theorem takeBlock_spec (hI : Inv h bs) (hb : b ∈ bs) (hf : Fits h.mem req b)
    (hreq : req % 16 = 0) (hr16 : 16 ≤ req) :
    ∃ bs', (takeBlock h b req).2 = b + hdr ∧ Gives h bs req (takeBlock h b req).1 bs' b := by
  simp only [takeBlock]
  split
  · rename_i hle
    obtain ⟨l, r, rfl⟩ := List.append_of_mem hb
    obtain ⟨hB, hK, hstate, hsize⟩ := splitBlock_blocks hI.blocks hreq hr16
      (by unfold hdr minPayload alignment at hle; omega) hf.1
    have hI' := (splitBlock_listEdit h b req).inv hI hB
    exact ⟨_, trivial, (gives_of_fits hI' (by simp) ⟨hstate, hsize.ge⟩).after hK hI.blocks⟩
  · exact ⟨bs, trivial, gives_of_fits hI hb hf⟩

theorem alignUp_spec {size : Nat} (h0 : size ≠ 0) (hs : size ≤ maxRequest) :
    alignUp size alignment % 16 = 0 ∧ 16 ≤ alignUp size alignment ∧ size ≤ alignUp size alignment ∧
      alignUp size alignment ≤ maxRequest := by
  unfold alignUp alignment wordSize maxRequest at *
  omega

/-- Why `KMalloc` returned NULL: the request was empty, or the frame allocator
refused the pages to grow by. -/
def Refused (h : KHeap) (size : Nat) (h' : KHeap) : Prop :=
  (size = 0 ∧ h' = h) ∨ ∃ p', h' = { h with pmm := p' } ∧
    pmmAllocFramesContig h.pmm (growPages (alignUp size alignment)) = some (p', 0)

/-- `KMalloc` returns; it hands out a block that was not allocated, or refuses. -/
theorem kMalloc_spec {size : Nat} (hI : Inv h bs) (hsize : size ≤ maxRequest) :
    ∃ h' p, kMalloc h size = some (h', p) ∧
      ((p = 0 ∧ Inv h' bs ∧ Keeps h bs 0 h' bs ∧ Refused h size h') ∨
        ∃ bs' b, p = b + hdr ∧ Gives h bs size h' bs' b) := by
  unfold kMalloc
  split
  · rename_i h0
    exact ⟨h, 0, rfl, .inl ⟨rfl, hI, fun c hc _ hs => ⟨hc, hs, rfl, fun _ _ _ => rfl⟩,
      .inl ⟨h0, rfl⟩⟩⟩
  rename_i h0
  obtain ⟨hmod, h16, hle, hmax⟩ := alignUp_spec h0 hsize
  have hit : ∀ {k : KHeap} {ks : List Nat} {b : Nat}, Inv k ks → b ∈ ks →
      Fits k.mem (alignUp size alignment) b →
      ∃ ks', (takeBlock k b (alignUp size alignment)).2 = b + hdr ∧
        Gives k ks size (takeBlock k b (alignUp size alignment)).1 ks' b := by
    intro k ks b hk hb hf
    obtain ⟨ks', h1, h2⟩ := takeBlock_spec hk hb hf hmod h16
    exact ⟨ks', h1, ⟨h2.inv, h2.keeps, h2.mem, h2.allocated, hle.trans h2.size, h2.fresh⟩⟩
  obtain ⟨res, hres, hsome, hnone⟩ := hI.findFit (alignUp size alignment)
  simp only [kMallocPass, hres, Option.bind_some]
  cases res with
  | some b =>
    obtain ⟨hb, hf⟩ := hsome b rfl
    obtain ⟨ks', h1, h2⟩ := hit hI hb hf
    exact ⟨_, _, rfl, .inr ⟨ks', b, h1, h2⟩⟩
  | none =>
    obtain ⟨h₁, ok, hg, hcases⟩ := heapGrow_spec hI hmax
    simp only [hg, Option.bind_some]
    rcases hcases with ⟨rfl, ⟨p', rfl, hp⟩, hI'⟩ | ⟨rfl, b, hI', hK, hnot, hf⟩
    · exact ⟨_, 0, rfl, .inl ⟨rfl, hI', fun c hc _ hs => ⟨hc, hs, rfl, fun _ _ _ => rfl⟩,
        .inr ⟨p', rfl, hp⟩⟩⟩
    · -- the second pass finds a block: the new one fits
      obtain ⟨res', hres', hsome', hnone'⟩ := hI'.findFit (alignUp size alignment)
      simp only [if_true, hres', Option.bind_some]
      cases res' with
      | none => exact absurd hf (hnone' rfl b (by simp))
      | some c =>
        obtain ⟨hc, hcf⟩ := hsome' c rfl
        obtain ⟨ks', h1, h2⟩ := hit hI' hc hcf
        exact ⟨_, _, rfl, .inr ⟨ks', c, h1, h2.after hK hI.blocks⟩⟩

/-! ## `KFree` -/

theorem Inv.free_guards (hI : Inv h bs) (hb : b ∈ bs) :
    b + hdr ≠ 0 ∧ (b + hdr) % alignment = 0 ∧ ¬(b + hdr < h.startVa + hdr ∨ b + hdr ≥ h.endVa) := by
  have hal := (hI.blocks.shape b hb).aligned
  have hge := hI.blocks.extent_ge hb
  obtain ⟨s, hs, h1, h2⟩ := hI.blocks.mem_segSet hb le_rfl (by omega)
  obtain ⟨t, ht, h3, h4⟩ := hI.blocks.mem_segSet hb (x := b + hdr) (by omega)
    (by unfold hdr at *; omega)
  have hw := hI.within s hs
  have hw' := hI.within t ht
  unfold hdr alignment at *
  omega

/-- Freeing an allocated block keeps every other one. -/
theorem kFree_spec (hI : Inv h bs) (hb : b ∈ bs) (hs : blkState h.mem b = kblockAllocated) :
    ∃ bs', Inv (kFree h (b + hdr)) bs' ∧ Keeps h bs b (kFree h (b + hdr)) bs' := by
  obtain ⟨g1, g2, g3⟩ := hI.free_guards hb
  have hsub : b + hdr - hdr = b := Nat.add_sub_cancel _ _
  simp only [kFree, if_neg g1, if_neg (not_not.mpr g2), if_neg g3, hsub, hs, ne_eq,
    not_true_eq_false, if_false]
  rw [if_neg (by decide)]
  obtain ⟨hB₁, hK₁, hst₁, -⟩ := setState_blocks hI.blocks hb (v := kblockFree) (.inl rfl)
  have hI₁ : Inv { h with mem := setState h.mem b kblockFree } bs := ListEdit.inv rfl hI hB₁
  obtain ⟨bs₂, hB₂, hK₂, hb₂, hst₂, -⟩ := heapMerge_blocks hB₁ hb hst₁
  have hI₂ := (heapMerge_listEdit _ b).inv hI₁ hB₂
  have hK := hK₁.trans (hK₂.of_zero hB₁ b)
  split
  · rename_i hp
    have hmem := (hB₂.list.prev_mem hb₂).resolve_left hp.1
    obtain ⟨bs₃, hB₃, hK₃, -, -, -⟩ := heapMerge_blocks hB₂ hmem hp.2
    exact ⟨bs₃, (heapMerge_listEdit _ _).inv hI₂ hB₃, hK.trans (hK₃.of_zero hB₂ b)⟩
  · exact ⟨bs₂, hI₂, hK⟩

end Zuzu.L1.Heap
