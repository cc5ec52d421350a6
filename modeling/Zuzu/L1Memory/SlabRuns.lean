import Zuzu.L1Memory.SlabInv
import Zuzu.L1Memory.HeapRuns

/-!
# Slab caches over whole runs

A cache as a transition system: allocations, frees of live objects, stores into
live objects, and whatever the rest of the kernel does with the frame allocator
and with memory outside the cache's pages.

Results: `slab_sound`, which holds in every reachable state.
-/
namespace Zuzu.L1.Slab
open Zuzu.Core Zuzu.L1.Pmm
open Function (update)

variable {m : Headers} {s : SlabState} {live ps fs : List Nat} {e : Nat}

/-- A cache with the objects in use. -/
structure CacheState where
  mem : SlabState
  live : List Nat

/-- Uses of the cache, stores into live objects, and what the rest of the kernel
does meanwhile. -/
inductive Op
  | alloc
  | free (ptr : Nat)
  | store (ptr val : Nat)
  | other (op : Pmm.Op)

/-- One operation with the pointer it returns. Only live objects are freed and
written. Other users of the frame allocator do not free the cache's frames and do
not write to its pages. -/
inductive Step : CacheState → Op × Nat → CacheState → Prop
  | alloc {s : CacheState} {p : Nat} {m' : SlabState} (h : kSlabAlloc s.mem = some (m', p)) :
      Step s (.alloc, p) ⟨m', if p = 0 then s.live else p :: s.live⟩
  | free {s : CacheState} {p : Nat} {m' : SlabState} (hp : p ∈ s.live)
      (h : kSlabFree s.mem p = some m') : Step s (.free p, 0) ⟨m', s.live.erase p⟩
  | store {s : CacheState} {p v : Nat} (hp : p ∈ s.live) :
      Step s (.store p v, 0) ⟨{ s.mem with word := update s.mem.word p v }, s.live⟩
  | other {s : CacheState} {op : Pmm.Op} {p' : PmmState} {out : List Nat} {slab : Headers}
      {word : Nat → Nat} (h : stepOp s.mem.pmm op = some (p', out))
      (hkeep : ∀ a ∈ s.mem.pages, a - s.mem.vaOffset ∉ op.frees s.mem.pmm.toGeometry)
      (hslab : ∀ a ∈ s.mem.pages, slab a = s.mem.slab a)
      (hword : ∀ x, alignDown x pageSize ∈ s.mem.pages → word x = s.mem.word x) :
      Step s (.other op, 0) ⟨{ s.mem with pmm := p', slab, word }, s.live⟩

/-- A cache at `addr`, set up for objects of `size` bytes at some point after
`PmmInit`, then used at will. -/
def system (P : Heap.Platform) (addr size : Nat) : LTS CacheState (Op × Nat) where
  init s := ∃ pmm slab word cache, (Pmm.system P.layout P.boot).Reachable pmm ∧
    createSlabCache addr size = some cache ∧ s = ⟨⟨pmm, P.vaOffset, slab, word, cache, []⟩, []⟩
  step := Step

/-- The invariant of a run. -/
def SInv (s : CacheState) : Prop := ∃ ps fs, Inv s.mem s.live ps fs 0

/-- What is written outside the cache's pages and free lists does not matter. -/
theorem Inv.rewrite {word : Nat → Nat} (h : Inv s live ps fs e)
    (hm : ∀ a ∈ s.pages, m a = s.slab a)
    (hw : ∀ a ∈ s.pages, ∀ x, IsSlot s.cache.objSize a x → x ∉ live → word x = s.word x) :
    Inv { s with slab := m, word := word } live ps fs e := by
  have hps : ∀ a ∈ ps, m a = s.slab a := fun a ha => hm a (h.lists.mem_iff.mpr (.inl ha))
  have hfs : ∀ a ∈ fs, m a = s.slab a := fun a ha => hm a (h.lists.mem_iff.mpr (.inr (.inl ha)))
  refine ⟨⟨?_, ?_, h.lists.perm, h.lists.nodup⟩, ⟨fun a ha => ?_, fun a ha => ?_,
    h.core.live_slot, h.core.live_nodup, h.core.size, h.core.offset, h.core.counted⟩,
    fun a ha => ?_, fun a ha => ?_, fun a ha => ?_⟩
  · exact h.lists.part.congr (fun a ha => congrArg KSlab.next (hps a ha))
      fun a ha => congrArg KSlab.prev (hps a ha)
  · exact h.lists.full.congr (fun a ha => congrArg KSlab.next (hfs a ha))
      fun a ha => congrArg KSlab.prev (hfs a ha)
  · obtain ⟨h1, h2, h3, h4⟩ := h.core.page a ha
    exact ⟨h1, h2, h3, h4⟩
  · obtain ⟨xs, hx⟩ := h.core.slab a ha
    have he := hm a ha
    refine ⟨xs, ?_, ?_, ?_, hx.nodup, hx.free_iff, ?_, hx.room⟩
    all_goals dsimp only
    all_goals rw [he]
    · exact hx.owner
    · exact hx.capacity
    · exact hx.thread.congr fun x hmem =>
        hw a ha x ((hx.free_iff x).mp hmem).1 ((hx.free_iff x).mp hmem).2
    · exact hx.used
  · dsimp only
    rw [hps a ha]
    exact h.sorted.part a ha
  · dsimp only
    rw [hfs a ha]
    exact h.sorted.full a ha
  · dsimp only
    rw [hm a (h.lists.mem_iff.mpr (.inr (.inr ha)))]
    exact h.sorted.held a ha

theorem step_inv {s s' : CacheState} {o : Op × Nat} (hS : SInv s) (hstep : Step s o s') :
    SInv s' := by
  obtain ⟨ps, fs, hI⟩ := hS
  cases hstep with
  | @alloc p m' h =>
    rcases slabAlloc_inv hI h with ⟨h0, ps', fs', h'⟩ | ⟨h0, -, ps', fs', h'⟩
    · exact ⟨ps', fs', by rwa [if_pos h0]⟩
    · exact ⟨ps', fs', by rwa [if_neg h0]⟩
  | @free p m' hp h =>
    obtain ⟨t, ht, ps', fs', h'⟩ := slabFree_inv hI hp
    have h0 := (hI.core.live_page hp).2.ne_zero
    rw [kSlabFree, if_pos h0, ht] at h
    cases h
    exact ⟨ps', fs', h'⟩
  | @store p v hp =>
    refine ⟨ps, fs, hI.rewrite (fun a _ => rfl) fun a ha x hx hl => ?_⟩
    exact Function.update_of_ne (fun e : x = p => hl (e ▸ hp)) _ _
  | @other op p' out slab word h hkeep hslab hword =>
    obtain ⟨took, he, -⟩ := stepOp_effect h
    have hI' := hI.rewrite hslab fun a ha x hx _ =>
      hword x ((hx.page (hI.core.aligned ha)).symm ▸ ha)
    exact ⟨ps, fs, hI'.withPmm he hkeep⟩

theorem system_inv (P : Heap.Platform) (addr size : Nat) :
    (system P addr size).Inductive SInv := by
  refine ⟨?_, step_inv⟩
  rintro s ⟨pmm, slab, word, cache, hp, hc, rfl⟩
  obtain ⟨hcount, -⟩ := Heap.pmm_counted hp
  simp only [createSlabCache, kassert_eq_some] at hc
  obtain ⟨hsize, hc⟩ := hc
  cases hc
  refine ⟨[], [], ⟨IsDList.nil, IsDList.nil, by simp [KSlabCache.held], by simp⟩,
    ⟨by simp, by simp, by simp, by simp, hsize, P.offset_page, hcount⟩, by simp, by simp,
    by simp [KSlabCache.held]⟩

/-- The lists are sorted by use, and free and live objects share out the slots. -/
structure Sound (s : CacheState) (ps fs : List Nat) : Prop where
  lists : Lists s.mem ps fs
  part_iff : ∀ a ∈ s.mem.pages,
    a ∈ ps ↔ 0 < (s.mem.slab a).used ∧ (s.mem.slab a).used < (s.mem.slab a).capacity
  full_iff : ∀ a ∈ s.mem.pages, a ∈ fs ↔ (s.mem.slab a).used = (s.mem.slab a).capacity
  empty_iff : ∀ a ∈ s.mem.pages, a = s.mem.cache.emptyHold ↔ (s.mem.slab a).used = 0
  slots : ∀ a ∈ s.mem.pages, ∃ xs, SlabOk s.mem s.live a xs
  live_slot : ∀ p ∈ s.live, ∃ a ∈ s.mem.pages, IsSlot s.mem.cache.objSize a p
  apart : s.live.Pairwise fun p q =>
    p + s.mem.cache.objSize ≤ q ∨ q + s.mem.cache.objSize ≤ p
  headers : ∀ p ∈ s.live, ∀ a ∈ s.mem.pages, a + slabHdr ≤ p ∨ p + s.mem.cache.objSize ≤ a

theorem Inv.sound {s : CacheState} (h : Inv s.mem s.live ps fs 0) : Sound s ps fs := by
  have hz : 0 ∉ ps := h.lists.part.null_notMem
  have hpart : ∀ a ∈ ps, 0 < (s.mem.slab a).used ∧
      (s.mem.slab a).used < (s.mem.slab a).capacity := fun a ha =>
    ⟨(h.sorted.part a ha).1.resolve_left fun e => hz (e ▸ ha), (h.sorted.part a ha).2⟩
  have hroom : ∀ a ∈ s.mem.pages, 0 < (s.mem.slab a).capacity := by
    intro a ha
    obtain ⟨xs, hx⟩ := h.core.slab a ha
    rw [hx.capacity]
    exact hx.room
  have hheld : ∀ a ∈ s.mem.pages, a ∈ s.mem.cache.held ↔ a = s.mem.cache.emptyHold := by
    intro a ha
    have h0 := h.core.page_ne_zero ha
    unfold KSlabCache.held
    split
    · next he => simp [he, h0]
    · simp
  refine ⟨h.lists, fun a ha => ?_, fun a ha => ?_, fun a ha => ?_, h.core.slab, h.core.live_slot,
    h.core.live_nodup.imp_of_mem fun {p q} hp hq hne => ?_, fun p hp a ha => ?_⟩
  · refine ⟨hpart a, fun hu => ?_⟩
    rcases h.lists.mem_iff.mp ha with hp | hf | hh
    · exact hp
    · have := h.sorted.full a hf
      omega
    · have := h.sorted.held a hh
      omega
  · refine ⟨h.sorted.full a, fun hu => ?_⟩
    have := hroom a ha
    rcases h.lists.mem_iff.mp ha with hp | hf | hh
    · have := (hpart a hp).2
      omega
    · exact hf
    · have := h.sorted.held a hh
      omega
  · refine ⟨fun he => h.sorted.held a ((hheld a ha).mpr he), fun hu => (hheld a ha).mp ?_⟩
    have := hroom a ha
    rcases h.lists.mem_iff.mp ha with hp | hf | hh
    · have := (hpart a hp).1
      omega
    · have := h.sorted.full a hf
      omega
    · exact hh
  · obtain ⟨a, ha, hslot⟩ := h.core.live_slot p hp
    obtain ⟨b, hb, hslot'⟩ := h.core.live_slot q hq
    exact slots_apart hslot hslot' (h.core.aligned ha) (h.core.aligned hb) hne
  · obtain ⟨b, hb, hslot⟩ := h.core.live_slot p hp
    exact slot_header_apart hslot (h.core.aligned hb) (h.core.aligned ha)

/-- In every state that a run can reach, slabs with free and used objects are on the
partial list, those without free objects on the full list, and the only one without
used objects is the spare. `SlabAlloc` returns no live object, `SlabFree` takes every
live one back. The page of a live object stays allocated, and a page that leaves the
cache holds no live object. -/
theorem slab_sound (P : Heap.Platform) (addr size : Nat) {s : CacheState}
    (hs : (system P addr size).Reachable s) :
    (∃ ps fs, Sound s ps fs) ∧
    (∀ m' p, kSlabAlloc s.mem = some (m', p) → p ∉ s.live) ∧
    (∀ p ∈ s.live, ∃ m', kSlabFree s.mem p = some m') ∧
    (∀ p ∈ s.live, isFreeFrame s.mem.pmm (alignDown p pageSize - s.mem.vaOffset) = false) ∧
    ∀ o s', (system P addr size).step s o s' → ∀ a ∈ s.mem.pages, a ∉ s'.mem.pages →
      ∀ p ∈ s'.live, alignDown p pageSize ≠ a := by
  obtain ⟨ps, fs, hI⟩ := (system_inv P addr size).reachable hs
  refine ⟨⟨ps, fs, hI.sound⟩, fun m' p ha => ?_, fun p hp => ?_, fun p hp => ?_,
    fun o s' hstep a ha ha' p hp e => ?_⟩
  · rcases slabAlloc_inv hI ha with ⟨rfl, -⟩ | ⟨-, hl, -⟩
    · exact fun hl => (hI.core.live_page hl).2.ne_zero rfl
    · exact hl
  · obtain ⟨m', hm, -⟩ := slabFree_inv hI hp
    exact ⟨m', by rw [kSlabFree, if_pos (hI.core.live_page hp).2.ne_zero, hm]⟩
  · exact (hI.core.page _ (hI.core.live_page hp).1).allocated
  · obtain ⟨ps', fs', hI'⟩ := step_inv ⟨ps, fs, hI⟩ hstep
    exact ha' (e ▸ (hI'.core.live_page hp).1)

/-- Two objects of 2000 bytes fill a slab on the small board. -/
theorem slab_sound_smallBoard : ∃ s, (system Heap.smallBoard 0xC0000800 2000).Reachable s ∧
    s.live = [0xC005F018, 0xC005F7E8] ∧ ∃ ps fs, Sound s ps fs := by
  have hrun : ((pmmInit Heap.smallBoard.layout Heap.smallBoard.boot id id).bind fun p =>
      (createSlabCache 0xC0000800 2000).bind fun c =>
      (kSlabAlloc ⟨p, Heap.smallBoard.vaOffset, fun _ => ⟨0, 0, 0, 0, 0, 0⟩, id, c, []⟩).bind
      fun r₁ => (kSlabAlloc r₁.1).bind fun r₂ => some (r₁.2, r₂.2)) =
      some (0xC005F7E8, 0xC005F018) := by
    decide +kernel
  obtain ⟨p, hp, hrun⟩ := Option.bind_eq_some_iff.mp hrun
  obtain ⟨c, hc, hrun⟩ := Option.bind_eq_some_iff.mp hrun
  obtain ⟨⟨m₁, q₁⟩, hm₁, hrun⟩ := Option.bind_eq_some_iff.mp hrun
  obtain ⟨⟨m₂, q₂⟩, hm₂, hq⟩ := Option.bind_eq_some_iff.mp hrun
  cases hq
  have hr₀ := LTS.Reachable.init (L := system Heap.smallBoard 0xC0000800 2000)
    ⟨p, fun _ => ⟨0, 0, 0, 0, 0, 0⟩, id, c, LTS.Reachable.init ⟨id, id, hp⟩, hc, rfl⟩
  have hr₁ := hr₀.step (Step.alloc hm₁)
  have hr₂ := hr₁.step (Step.alloc (s := ⟨m₁, _⟩) hm₂)
  exact ⟨_, hr₂, rfl, (slab_sound _ _ _ hr₂).1⟩

end Zuzu.L1.Slab
