import Zuzu.L1Memory.HeapInv

/-!
# The heap over whole runs

The heap as a transition system: allocations of at most `2^31` bytes, frees of
live payloads, stores into live payloads, and whatever else happens to the frame
allocator, starting from `KHeapInit` on a booted board.

Results: `heap_sound`, which holds in every reachable state. Blocks tile the
grown segments together but not one by one: adjacent free blocks are merged
across a segment boundary too (`block_spans_two_segments`).
-/
namespace Zuzu.L1.Heap
open Function Zuzu.Core Zuzu.L1.Pmm
open Function (update)

variable {m : Mem} {h h' : KHeap} {b v : Nat} {bs bs' : List Nat}

/-! ## The transition system -/

/-- Where the kernel is booted. `early.c` cuts RAM down to what the direct map
can hold. -/
structure Platform where
  layout : RamLayout
  boot : BootInfo
  vaOffset : Nat
  offset_page : vaOffset % pageSize = 0
  linear : layout.ramEnd + vaOffset ≤ ioremapBase

/-- The heap with the payloads in use: address and requested size. -/
structure HeapState where
  heap : KHeap
  live : List (Nat × Nat)

/-- Uses of the heap, stores into live payloads, and what other users do with the
frame allocator meanwhile. -/
inductive Op
  | kmalloc (size : Nat)
  | kfree (ptr : Nat)
  | store (addr val : Nat)
  | frames (op : Pmm.Op)

/-- One operation with the pointer it returns. Sizes are at most `2^31`, only live
payloads are freed and written, and nobody else frees the heap's frames. -/
inductive Step : HeapState → Op × Nat → HeapState → Prop
  | kmalloc {s : HeapState} {size p : Nat} {h' : KHeap} (hsize : size ≤ 2 ^ 31)
      (h : kMalloc s.heap size = some (h', p)) :
      Step s (.kmalloc size, p) ⟨h', if p = 0 then s.live else (p, size) :: s.live⟩
  | kfree {s : HeapState} {p n : Nat} (hp : (p, n) ∈ s.live) :
      Step s (.kfree p, 0) ⟨kFree s.heap p, s.live.filter (·.1 ≠ p)⟩
  | store {s : HeapState} {p n addr v : Nat} (hp : (p, n) ∈ s.live) (h1 : p ≤ addr)
      (h2 : addr < p + n) :
      Step s (.store addr v, 0) ⟨{ s.heap with mem := update s.heap.mem addr v }, s.live⟩
  | frames {s : HeapState} {op : Pmm.Op} {p' : PmmState} {out : List Nat}
      (h : stepOp s.heap.pmm op = some (p', out))
      (hkeep : ∀ x ∈ segSet s.heap.segs,
        frameOf s.heap.vaOffset x ∉ op.frees s.heap.pmm.toGeometry) :
      Step s (.frames op, 0) ⟨{ s.heap with pmm := p' }, s.live⟩

/-- The heap set up by `KHeapInit` at some point after `PmmInit`, then used at will. -/
def system (P : Platform) : LTS HeapState (Op × Nat) where
  init s := ∃ pmm mem, (Pmm.system P.layout P.boot).Reachable pmm ∧
    kHeapInit pmm P.vaOffset mem = some s.heap ∧ s.live = []
  step := Step

/-- The live payloads are the payloads of different allocated blocks. -/
structure Live (h : KHeap) (bs : List Nat) (live : List (Nat × Nat)) : Prop where
  block : ∀ e ∈ live, ∃ b ∈ bs, e.1 = b + hdr ∧ blkState h.mem b = kblockAllocated ∧
    e.2 ≤ blkSize h.mem b
  nodup : (live.map Prod.fst).Nodup

theorem Live.keeps {live : List (Nat × Nat)} (hL : Live h bs live) (hK : Keeps h bs 0 h' bs')
    (hB : Blocks h bs) : Live h' bs' live := by
  refine ⟨fun e he => ?_, hL.nodup⟩
  obtain ⟨b, hb, h1, h2, h3⟩ := hL.block e he
  obtain ⟨k1, k2, k3, -⟩ := hK b hb (fun e => hB.list.null_notMem (e ▸ hb)) h2
  exact ⟨b, k1, h1, k2, k3 ▸ h3⟩

def SInv (s : HeapState) : Prop := ∃ bs, Inv s.heap bs ∧ Live s.heap bs s.live

/-- A store into the payload of a block changes no header and no other payload. -/
theorem store_spec {x : Nat} (hI : Inv h bs) (hb : b ∈ bs) (h1 : b + hdr ≤ x)
    (h2 : x < b + hdr + blkSize h.mem b) :
    Inv { h with mem := update h.mem x v } bs ∧
    ∀ c ∈ bs, hdrAt (update h.mem x v) c = hdrAt h.mem c := by
  have hkey : ∀ c ∈ bs, ∀ k < 16, c + k ≠ x := by
    intro c hc k hk
    by_cases hcb : c = b
    · unfold hdr at h1
      omega
    · have := hI.blocks.tiles.apart hc hb hcb
      unfold Apart extent hdr at *
      omega
  have hh : ∀ c ∈ bs, hdrAt (update h.mem x v) c = hdrAt h.mem c := by
    intro c hc
    have k0 : c ≠ x := hkey c hc 0 (by decide)
    have k4 := hkey c hc 4 (by decide)
    have k8 := hkey c hc 8 (by decide)
    have k12 := hkey c hc 12 (by decide)
    unfold hdrAt blkSize blkNext blkPrev blkState
    rw [update_of_ne k0, update_of_ne k4, update_of_ne k8,
      update_of_ne k12]
  have hsize : ∀ c ∈ bs, blkSize (update h.mem x v) c = blkSize h.mem c :=
    fun c hc => congrArg Header.size (hh c hc)
  refine ⟨ListEdit.inv rfl hI ⟨hI.blocks.list.congr (fun c hc => congrArg Header.next (hh c hc))
    fun c hc => congrArg Header.prev (hh c hc), hI.blocks.tail, fun c hc => ?_,
    hI.blocks.tiles.congr fun c hc => ?_⟩, hh⟩
  · have hs := hI.blocks.shape c hc
    have hst : blkState (update h.mem x v) c = blkState h.mem c := congrArg Header.state (hh c hc)
    exact ⟨hs.aligned, (hsize c hc).symm ▸ hs.size_mod, (hsize c hc).symm ▸ hs.size_ge,
      hst.symm ▸ hs.state⟩
  · unfold extent
    rw [hsize c hc]

/-- What one operation leaves alone: the live payloads other than the one it frees
keep their size and all words but the one it stores. -/
def Untouched (s : HeapState) (o : Op) (s' : HeapState) : Prop :=
  ∀ e ∈ s.live, o ≠ .kfree e.1 → e ∈ s'.live ∧
    blkSize s'.heap.mem (e.1 - hdr) = blkSize s.heap.mem (e.1 - hdr) ∧
    ∀ w, e.1 ≤ w → w < e.1 + blkSize s.heap.mem (e.1 - hdr) → (∀ v, o ≠ .store w v) →
      s'.heap.mem w = s.heap.mem w

theorem Keeps.untouched {s s' : HeapState} {o : Op} {x : Nat} (hL : Live s.heap bs s.live)
    (hK : Keeps s.heap bs x s'.heap bs') (hlive : ∀ e ∈ s.live, o ≠ .kfree e.1 → e ∈ s'.live ∧
      e.1 ≠ x + hdr) : Untouched s o s' := by
  intro e he ho
  obtain ⟨b, hb, h1, h2, -⟩ := hL.block e he
  obtain ⟨hl, hx⟩ := hlive e he ho
  obtain ⟨-, -, k3, k4⟩ := hK b hb (fun e => hx (by rw [h1, e])) h2
  have hsub : e.1 - hdr = b := by
    rw [h1]
    exact Nat.add_sub_cancel _ _
  rw [hsub]
  refine ⟨hl, k3, fun w hw1 hw2 _ => k4 w ?_ ?_⟩
  · unfold hdr at h1
    omega
  · unfold hdr at h1
    omega

theorem Live.ne_hdr {live : List (Nat × Nat)} {e : Nat × Nat} (hL : Live h bs live)
    (hB : Blocks h bs) (he : e ∈ live) : e.1 ≠ 0 + hdr := by
  obtain ⟨b, hb, h1, -⟩ := hL.block e he
  have h0 : b ≠ 0 := fun e => hB.list.null_notMem (e ▸ hb)
  omega

/-- One operation keeps the invariant and the other live payloads. -/
theorem step_sound {s s' : HeapState} {o : Op × Nat} (hS : SInv s) (hstep : Step s o s') :
    SInv s' ∧ Untouched s o.1 s' := by
  obtain ⟨bs, hI, hL⟩ := hS
  cases hstep with
  | @kmalloc size p h' hsize hm =>
    obtain ⟨h₁, p₁, hm₁, hcases⟩ := kMalloc_spec hI (hsize.trans (by decide))
    rw [hm] at hm₁
    cases hm₁
    rcases hcases with ⟨rfl, hI', hK, -⟩ | ⟨bs', b, rfl, hg⟩
    · rw [if_pos rfl]
      exact ⟨⟨bs, hI', hL.keeps hK hI.blocks⟩,
        hK.untouched hL fun e he _ => ⟨he, hL.ne_hdr hI.blocks he⟩⟩
    · rw [if_neg (by unfold hdr; omega)]
      refine ⟨⟨bs', hg.inv, fun e he => ?_, ?_⟩, hg.keeps.untouched hL fun e he _ =>
        ⟨List.mem_cons_of_mem _ he, hL.ne_hdr hI.blocks he⟩⟩
      · rcases List.mem_cons.mp he with rfl | he
        · exact ⟨b, hg.mem, rfl, hg.allocated, hg.size⟩
        · exact (hL.keeps hg.keeps hI.blocks).block e he
      · -- the new payload is none of the live ones: its block was not allocated
        refine List.nodup_cons.mpr ⟨fun hmem => ?_, hL.nodup⟩
        obtain ⟨e, he, hep⟩ := List.mem_map.mp hmem
        obtain ⟨c, hc, h1, h2, -⟩ := hL.block e he
        have hcb : c = b := Nat.add_right_cancel (h1.symm.trans hep)
        exact hg.fresh (hcb ▸ hc) (hcb ▸ h2)
  | @kfree p n hp =>
    obtain ⟨b, hb, h1, h2, -⟩ := hL.block _ hp
    subst h1
    obtain ⟨bs', hI', hK⟩ := kFree_spec hI hb h2
    refine ⟨⟨bs', hI', fun e he => ?_, ?_⟩, hK.untouched hL fun e he ho => ?_⟩
    · obtain ⟨he, hne⟩ := List.mem_filter.mp he
      obtain ⟨c, hc, h1, h2, h3⟩ := hL.block e he
      have hcb : c ≠ b := by
        intro e
        subst e
        simp [h1] at hne
      obtain ⟨k1, k2, k3, -⟩ := hK c hc hcb h2
      exact ⟨c, k1, h1, k2, k3 ▸ h3⟩
    · exact hL.nodup.sublist ((List.filter_sublist).map _)
    · have hne : e.1 ≠ b + hdr := fun e => ho (by rw [e])
      exact ⟨List.mem_filter.mpr ⟨he, by simpa using hne⟩, hne⟩
  | @store p n addr v hp h1 h2 =>
    obtain ⟨b, hb, hpb, hst, hn⟩ := hL.block _ hp
    subst hpb
    obtain ⟨hI', hh⟩ := store_spec (v := v) hI hb h1 (by omega)
    refine ⟨⟨bs, hI', fun e he => ?_, hL.nodup⟩, fun e he _ => ?_⟩
    · obtain ⟨c, hc, k1, k2, k3⟩ := hL.block e he
      have hsize : blkSize (update s.heap.mem addr v) c = blkSize s.heap.mem c :=
        congrArg Header.size (hh c hc)
      exact ⟨c, hc, k1, (congrArg Header.state (hh c hc)).trans k2, hsize.symm ▸ k3⟩
    · obtain ⟨c, hc, k1, -⟩ := hL.block e he
      have hsub : e.1 - hdr = c := by
        rw [k1]
        exact Nat.add_sub_cancel _ _
      rw [hsub]
      refine ⟨he, congrArg Header.size (hh c hc), fun w _ _ hw => ?_⟩
      exact update_of_ne (fun e : w = addr => hw v (by rw [e])) _ _
  | @frames op p' out hs hkeep =>
    obtain ⟨took, he, -⟩ := stepOp_effect hs
    have hI' := hI.withPmm he hkeep
    exact ⟨⟨bs, hI', hL.block, hL.nodup⟩, fun e he _ => ⟨he, rfl, fun _ _ _ _ => rfl⟩⟩

theorem kHeapInit_inv {pmm : PmmState} {off : Nat} (hi : kHeapInit pmm off m = some h)
    (hc : Counted pmm) (hoff : off % pageSize = 0)
    (hlin : pmm.pfnEnd * pageSize + off ≤ ioremapBase) : ∃ bs, Inv h bs := by
  have h0 : Inv { pmm, vaOffset := off, mem := m, head := 0, tail := 0, startPa := 0, startVa := 0,
                  endPa := 0, endVa := 0, segs := [] } [] := by
    have hempty : segSet [] = ∅ := by
      ext x
      simp [segSet]
    refine ⟨⟨IsDList.nil, rfl, by simp, ?_⟩, hc, hoff, hlin, ?_, .inl ⟨rfl, rfl⟩, .inl ⟨rfl, rfl⟩,
      by simp⟩
    · rw [hempty]
      exact Tiles.nil
    · simp [segSet]
  simp only [kHeapInit] at hi
  obtain ⟨h', ok, hg, hcases⟩ := heapGrow_spec (k := heapInitialSize - hdr) h0 (by decide)
  rw [hg, Option.bind_some] at hi
  rcases hcases with ⟨rfl, -, -⟩ | ⟨rfl, b, hI, -⟩
  · cases hi
  · cases hi
    exact ⟨_, hI⟩

theorem pmm_counted {P : Platform} {p : PmmState}
    (hp : (Pmm.system P.layout P.boot).Reachable p) :
    Counted p ∧ p.toGeometry = P.layout.geometry := by
  refine LTS.Inductive.reachable (I := fun p => Counted p ∧ p.toGeometry = P.layout.geometry)
    ⟨?_, ?_⟩ hp
  · rintro p ⟨next, prev, hi⟩
    obtain ⟨q, rfl, hg, hc, -⟩ := pmmInit_spec hi
    have hl := pmmRebuildFreelist_listOnly q
    exact ⟨hc.listOnly hl, hl.geometry.trans hg⟩
  · rintro p o p' ⟨hc, hg⟩ hs
    obtain ⟨took, he, -⟩ := stepOp_effect hs
    exact ⟨he.counted hc, he.geometry.trans hg⟩

theorem system_inv (P : Platform) : (system P).Inductive SInv := by
  refine ⟨?_, fun hS hstep => (step_sound hS hstep).1⟩
  rintro s ⟨pmm, mem, hp, hi, hl⟩
  obtain ⟨hc, hg⟩ := pmm_counted hp
  have hlin : pmm.pfnEnd * pageSize + P.vaOffset ≤ ioremapBase := by
    have := P.linear
    have hend : pmm.pfnEnd = P.layout.ramEnd / pageSize := by
      rw [hg]
      rfl
    rw [hend]
    unfold pageSize
    omega
  obtain ⟨bs, hI⟩ := kHeapInit_inv hi hc P.offset_page hlin
  exact ⟨bs, hI, by simp [hl], by simp [hl]⟩

/-! ## The heap is sound in every reachable state -/

theorem Blocks.head_mem (hB : Blocks h bs) (hh : h.head ≠ 0) : h.head ∈ bs := by
  rw [hB.list.head_eq] at hh ⊢
  cases bs with
  | nil => exact absurd rfl hh
  | cons a bs => exact List.mem_cons_self

/-- No `n` managed frames in a row are free. -/
def NoRun (p : PmmState) (n : Nat) : Prop :=
  ∀ s, s + n ≤ p.totalFrames → ∃ j < n, p.bitmap.testBit (s + j) = true

/-- PA_NULL from the contiguous allocator means that there is no run, unless
frame 0 is free: a run that starts there is reported as PA_NULL too. -/
theorem noRun_of_refused {p p' : PmmState} {n : Nat} (hp : pmmAllocFramesContig p n = some (p', 0))
    (hn : 0 < n) (hc : Counted p) (h0 : isFreeFrame p 0 = false) : NoRun p n := by
  have hno := (((pmmAllocFramesContig_cases hp).firstFit hc id).null_iff h0).mp rfl
  intro s hs
  by_contra hall
  exact hno s ⟨hn, rfl, hs, by simpa using hall⟩

def PayloadsApart (m : Mem) (e f : Nat × Nat) : Prop :=
  e.1 + blkSize m (e.1 - hdr) ≤ f.1 ∨ f.1 + blkSize m (f.1 - hdr) ≤ e.1

structure Sound (s : HeapState) (bs : List Nat) : Prop where
  blocks : Blocks s.heap bs
  live : Live s.heap bs s.live
  aligned : ∀ e ∈ s.live, e.1 % 16 = 0
  apart : s.live.Pairwise (PayloadsApart s.heap.mem)

theorem SInv.sound {s : HeapState} (hS : SInv s) : ∃ bs, Sound s bs := by
  obtain ⟨bs, hI, hL⟩ := hS
  refine ⟨bs, hI.blocks, hL, fun e he => ?_, ?_⟩
  · obtain ⟨b, hb, h1, -⟩ := hL.block e he
    have := (hI.blocks.shape b hb).aligned
    unfold hdr at h1
    omega
  · refine (List.pairwise_map.mp hL.nodup).imp_of_mem fun {e f} he hf hne => ?_
    obtain ⟨b, hb, h1, -⟩ := hL.block e he
    obtain ⟨c, hc, k1, -⟩ := hL.block f hf
    have hbc : b ≠ c := fun e => hne (by rw [h1, k1, e])
    have hap := hI.blocks.tiles.apart hb hc hbc
    unfold PayloadsApart
    rw [h1, k1, Nat.add_sub_cancel, Nat.add_sub_cancel]
    unfold Apart extent at hap
    omega

/-- In every state that a run can reach the block list is linked with `heap_tail`
last, its blocks tile the grown segments, and the live payloads are aligned, large
enough and disjoint. An operation leaves the other live payloads alone. `KMalloc`
returns, and returns NULL only for an empty request or when the frame allocator
had no run of the pages asked for. -/
theorem heap_sound (P : Platform) {s : HeapState} (hs : (system P).Reachable s) :
    (∃ bs, Sound s bs) ∧
    (∀ o s', (system P).step s o s' → Untouched s o.1 s') ∧
    ∀ size ≤ 2 ^ 31, ∃ h' p, kMalloc s.heap size = some (h', p) ∧
      (p = 0 → Refused s.heap size h' ∧ (size ≠ 0 → isFreeFrame s.heap.pmm 0 = false →
        NoRun s.heap.pmm (growPages (alignUp size alignment)))) := by
  have hS := (system_inv P).reachable hs
  refine ⟨hS.sound, fun o s' hstep => (step_sound hS hstep).2, fun size hsize => ?_⟩
  obtain ⟨bs, hI, -⟩ := hS
  obtain ⟨h', p, hm, hcases⟩ := kMalloc_spec hI (hsize.trans (by decide))
  refine ⟨h', p, hm, fun hp => ?_⟩
  rcases hcases with ⟨-, -, -, href⟩ | ⟨bs', b, rfl, -⟩
  · refine ⟨href, fun hne h0 => ?_⟩
    rcases href with ⟨he, -⟩ | ⟨p', -, hno⟩
    · exact absurd he hne
    · have hpos := growPages_pos (alignUp size alignment)
      exact noRun_of_refused hno (by omega) hI.counted h0
  · unfold hdr at hp
    omega

def smallBoard : Platform where
  layout :=
    { ramStart := 0x40000000
      ramEnd := 0x40060000
      dtbStartPa := 0x40004000
      kernelStartPa := 0x40000000
      kernelEndPa := 0x40001000
      stackBasePa := 0x40003000
      ram_le := by decide
      ram_lt := by decide }
  boot :=
    { bootStart := 0x40000000
      bootEnd := 0x40000100
      stackRegionBase := 0x40003000
      stackRegionEnd := 0x40004000
      fdtTotalSize := 0x800
      reservedMem := []
      initrd := none }
  vaOffset := 0x80000000
  offset_page := by decide
  linear := by decide

/-- What a first allocation on `smallBoard` returns, and the size of its block. -/
theorem smallBoard_first (size : Nat) {q n : Nat}
    (hrun : ((pmmInit smallBoard.layout smallBoard.boot id id).bind fun p =>
      (kHeapInit p smallBoard.vaOffset id).bind fun h => (kMalloc h size).map fun r =>
      (r.2, blkSize r.1.mem (r.2 - hdr))) = some (q, n)) :
    ∃ h₀ h₁, (system smallBoard).Reachable ⟨h₀, []⟩ ∧ kMalloc h₀ size = some (h₁, q) ∧
      blkSize h₁.mem (q - hdr) = n := by
  obtain ⟨p, hp, hrun⟩ := Option.bind_eq_some_iff.mp hrun
  obtain ⟨h₀, hh, hrun⟩ := Option.bind_eq_some_iff.mp hrun
  obtain ⟨⟨h₁, r⟩, hm, hr⟩ := Option.map_eq_some_iff.mp hrun
  cases hr
  exact ⟨h₀, h₁, LTS.Reachable.init ⟨p, id, LTS.Reachable.init ⟨id, id, hp⟩, hh, rfl⟩, hm, rfl⟩

theorem heap_sound_smallBoard : ∃ s, (system smallBoard).Reachable s ∧ s.live.length = 1 ∧
    ∃ bs, Sound s bs := by
  obtain ⟨h₀, h₁, hr₀, hm, -⟩ := smallBoard_first 100 (q := 0xC0005010) (n := 112) (by decide +kernel)
  have hr : (system smallBoard).Reachable ⟨h₁, [(0xC0005010, 100)]⟩ :=
    hr₀.step (Step.kmalloc (s := ⟨h₀, []⟩) (by decide) hm)
  exact ⟨_, hr, rfl, (heap_sound smallBoard hr).1⟩

/-- The whole first segment is allocated, a second allocation grows the heap by the
frames right behind it, and both are freed: the two blocks are merged, and no set of
blocks tiles the first segment by itself. -/
theorem block_spans_two_segments : ∃ s, (system smallBoard).Reachable s ∧
    ∀ bs, Blocks s.heap bs → ∃ seg ∈ s.heap.segs,
      ¬∃ ys, ys ⊆ bs ∧ Tiles (extent s.heap.mem) ys (segSet [seg]) := by
  have hrun : ((pmmInit smallBoard.layout smallBoard.boot id id).bind fun p =>
      (kHeapInit p smallBoard.vaOffset id).bind fun h₀ => (kMalloc h₀ 266224).bind fun r₁ =>
      (kMalloc r₁.1 16).bind fun r₂ =>
      let h₄ := kFree (kFree r₂.1 r₁.2) r₂.2
      some (r₁.2, r₂.2, h₄.segs, h₄.head, blkSize h₄.mem h₄.head)) =
      some (0xC0005010, 0xC0046010, [(0xC0005000, 266240), (0xC0046000, 65536)], 0xC0005000,
        331760) := by
    decide +kernel
  obtain ⟨p, hp, hrun⟩ := Option.bind_eq_some_iff.mp hrun
  obtain ⟨h₀, hh, hrun⟩ := Option.bind_eq_some_iff.mp hrun
  obtain ⟨⟨h₁, p₁⟩, hm₁, hrun⟩ := Option.bind_eq_some_iff.mp hrun
  obtain ⟨⟨h₂, p₂⟩, hm₂, hrun⟩ := Option.bind_eq_some_iff.mp hrun
  simp only [Option.some.injEq, Prod.mk.injEq] at hrun
  obtain ⟨rfl, rfl, hsegs, hhead, hsize⟩ := hrun
  have hr₀ : (system smallBoard).Reachable ⟨h₀, []⟩ :=
    LTS.Reachable.init ⟨p, id, LTS.Reachable.init ⟨id, id, hp⟩, hh, rfl⟩
  have hr₁ : (system smallBoard).Reachable ⟨h₁, [(0xC0005010, 266224)]⟩ :=
    hr₀.step (Step.kmalloc (s := ⟨h₀, []⟩) (by decide) hm₁)
  have hr₂ : (system smallBoard).Reachable ⟨h₂, [(0xC0046010, 16), (0xC0005010, 266224)]⟩ :=
    hr₁.step (Step.kmalloc (s := ⟨h₁, _⟩) (by decide) hm₂)
  have hr₃ := hr₂.step (Step.kfree (p := 0xC0005010) (n := 266224) (by simp))
  have hr₄ := hr₃.step (Step.kfree (p := 0xC0046010) (n := 16) (by simp))
  refine ⟨_, hr₄, fun bs hB => ⟨(0xC0005000, 266240), ?_, ?_⟩⟩
  · show _ ∈ (kFree (kFree h₂ 0xC0005010) 0xC0046010).segs
    rw [hsegs]
    simp
  · rintro ⟨ys, hsub, hT⟩
    have hext : extent (kFree (kFree h₂ 0xC0005010) 0xC0046010).mem 0xC0005000 = 331776 := by
      unfold extent
      rw [hhead] at hsize
      rw [hsize]
      rfl
    have hmem : 0xC0005000 ∈ bs := by
      have := hB.head_mem (by rw [hhead]; decide)
      rwa [hhead] at this
    -- whatever block covers the first byte is the merged one, which reaches too far
    obtain ⟨a, ha, h1, h2⟩ := (hT.cover 0xC0005000).mp
      ⟨_, List.mem_singleton_self _, by decide, by decide⟩
    have hab : a = 0xC0005000 := by
      by_contra hne
      have := hB.tiles.apart (hsub ha) hmem hne
      unfold Apart at this
      omega
    subst hab
    obtain ⟨t, ht, -, h4⟩ := (hT.cover (0xC0005000 + 266240)).mpr
      ⟨0xC0005000, ha, by decide, by rw [hext]; decide⟩
    rw [List.mem_singleton.mp ht] at h4
    exact absurd h4 (by decide)

end Zuzu.L1.Heap
