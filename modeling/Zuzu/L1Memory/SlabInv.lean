import Zuzu.L1Memory.Slab

/-!
# Slab caches keep their slabs sorted by use

`Inv` ties a cache's two lists, the spare and the header of each slab to the
objects in use: a slab's free list runs through exactly the slots that are not
live. `slabTake_inv` and `slabPut_inv` are the two edits of one slab,
and `slabAlloc_inv` and `slabFree_inv` put them together.

Results: `slabAlloc_inv`, `slabFree_inv`.
-/
namespace Zuzu.L1.Slab
open Function Zuzu.Core Zuzu.L1.Pmm
open Function (update)

variable {m m' : Headers} {head a b v n x : Nat} {xs ys l r : List Nat}
variable {w : Nat → Nat} {p' : PmmState} {ns : List Nat} {i p : Nat} {k : KSlab}

/-! ## The slab lists -/

def nextOf (m : Headers) : Nat → Nat := fun a => (m a).next
def prevOf (m : Headers) : Nat → Nat := fun a => (m a).prev

/-- A header without its list links. -/
def KSlab.body (h : KSlab) : KSlab := { h with next := 0, prev := 0 }

theorem nextOf_update : nextOf (update m a k) = update (nextOf m) a k.next := comp_update ..

theorem prevOf_update : prevOf (update m a k) = update (prevOf m) a k.prev := comp_update ..

@[simp] theorem nextOf_setNext : nextOf (setNext m a v) = update (nextOf m) a v := nextOf_update

@[simp] theorem prevOf_setPrev : prevOf (setPrev m a v) = update (prevOf m) a v := prevOf_update

@[simp] theorem prevOf_setNext : prevOf (setNext m a v) = prevOf m :=
  prevOf_update.trans (update_eq_self a (prevOf m))

@[simp] theorem nextOf_setPrev : nextOf (setPrev m a v) = nextOf m :=
  nextOf_update.trans (update_eq_self a (nextOf m))

/-- Only links change, and only those of the slabs in `ns`. -/
structure Relinks (m : Headers) (ns : List Nat) (m' : Headers) : Prop where
  frame : ∀ x ∉ ns, m' x = m x
  body : ∀ x, (m' x).body = (m x).body

theorem Relinks.refl (m : Headers) (ns : List Nat) : Relinks m ns m :=
  ⟨fun _ _ => rfl, fun _ => rfl⟩

theorem Relinks.set (h : Relinks m ns m') (ha : a ∈ ns) (hk : k.body = (m' a).body) :
    Relinks m ns (update m' a k) := by
  refine ⟨fun x hx => ?_, fun x => ?_⟩
  · rw [← h.frame x hx]
    exact update_of_ne (fun e : x = a => hx (e ▸ ha)) _ _
  · rw [← h.body x]
    by_cases hx : x = a
    · subst hx
      rw [update_self, hk]
    · rw [update_of_ne hx]

theorem Relinks.setNext (h : Relinks m ns m') (ha : a ∈ ns) : Relinks m ns (setNext m' a v) :=
  h.set ha rfl

theorem Relinks.setPrev (h : Relinks m ns m') (ha : a ∈ ns) : Relinks m ns (setPrev m' a v) :=
  h.set ha rfl

/-- A list of slabs in memory. -/
def SlabList (m : Headers) (head : Nat) (xs : List Nat) : Prop :=
  IsDList 0 (nextOf m) (prevOf m) head xs

/-- A list is untouched when only other slabs are relinked. -/
theorem SlabList.frame (h : SlabList m head xs) (hr : Relinks m ns m')
    (hd : ∀ x ∈ xs, x ∉ ns) : SlabList m' head xs :=
  IsDList.congr h (fun x hx => congrArg KSlab.next (hr.frame x (hd x hx)))
    fun x hx => congrArg KSlab.prev (hr.frame x (hd x hx))

theorem SlabList.head_mem (h : SlabList m head xs) (h0 : head ≠ 0) : head ∈ xs := by
  have := h.head_eq
  cases xs with
  | nil => exact absurd this h0
  | cons a xs => exact this ▸ List.mem_cons_self

theorem SlabList.eq_nil (h : SlabList m 0 xs) : xs = [] := by
  have he := h.head_eq
  cases xs with
  | nil => rfl
  | cons a xs => exact absurd (he ▸ List.mem_cons_self) h.null_notMem

theorem slabListPush_spec (h : SlabList m head xs) (h0 : a ≠ 0) (ha : a ∉ xs) :
    SlabList (slabListPush m head a).1 (slabListPush m head a).2 (a :: xs) ∧
    Relinks m (a :: xs) (slabListPush m head a).1 := by
  have hp := IsDList.push h h0 ha
  simp only [slabListPush, SlabList]
  have hr : Relinks m (a :: xs) (setNext (setPrev m a 0) a head) :=
    ((Relinks.refl m _).setPrev (by simp)).setNext (by simp)
  split
  · next hh =>
    rw [if_pos hh] at hp
    simp only [nextOf_setPrev, nextOf_setNext, prevOf_setPrev, prevOf_setNext]
    exact ⟨hp, hr.setPrev (List.mem_cons_of_mem _ (h.head_mem hh))⟩
  · next hh =>
    rw [if_neg hh] at hp
    simp only [nextOf_setPrev, nextOf_setNext, prevOf_setPrev, prevOf_setNext]
    exact ⟨hp, hr⟩

theorem slabListRemove_spec (h : SlabList m head (l ++ a :: r)) :
    SlabList (slabListRemove m head a).1 (slabListRemove m head a).2 (l ++ r) ∧
    Relinks m (l ++ a :: r) (slabListRemove m head a).1 := by
  have hu := IsDList.unlink h
  have hmem : a ∈ l ++ a :: r := by simp
  have hnot : a ∉ l ++ r := by
    have := List.nodup_middle.mp h.nodup
    exact (List.nodup_cons.mp this).1
  have hw := hu.write hnot 0 0
  have hp : (m a).prev ≠ 0 → (m a).prev ∈ l ++ a :: r := (IsDList.prev_mem h hmem).resolve_left
  have hn : (m a).next ≠ 0 → (m a).next ∈ l ++ a :: r := (IsDList.next_mem h hmem).resolve_left
  have r0 := Relinks.refl m (l ++ a :: r)
  simp only [slabListRemove, SlabList]
  refine ⟨?_, Relinks.setPrev (Relinks.setNext ?_ hmem) hmem⟩
  · by_cases h1 : (m a).prev = 0 <;> by_cases h2 : (m a).next = 0 <;>
      simpa [h1, h2, prevOf, nextOf] using hw
  · split <;> split
    · next h1 h2 => exact (r0.setNext (hp h2)).setPrev (hn h1)
    · next h1 _ => exact r0.setPrev (hn h1)
    · next h2 => exact r0.setNext (hp h2)
    · exact r0

/-- A slab goes from one list to the front of another. -/
theorem slabListMove_spec {head' : Nat} (hx : SlabList m head (l ++ a :: r))
    (hy : SlabList m head' ys) (hd : ∀ x ∈ l ++ a :: r, x ∉ ys) :
    let rm := slabListRemove m head a
    let p := slabListPush rm.1 head' a
    SlabList p.1 rm.2 (l ++ r) ∧ SlabList p.1 p.2 (a :: ys) ∧ ∀ x, (p.1 x).body = (m x).body := by
  obtain ⟨h1, k1⟩ := slabListRemove_spec hx
  have hy' := hy.frame k1 fun x hxy hxl => hd x hxl hxy
  have hnot := List.nodup_cons.mp (List.nodup_middle.mp hx.nodup)
  have h0 : a ≠ 0 := fun e => hx.null_notMem (by simp [e])
  obtain ⟨h2, k2⟩ := slabListPush_spec hy' h0 (hd a (by simp))
  refine ⟨h1.frame k2 fun x hxl hxy => ?_, h2, fun x => (k2.body x).trans (k1.body x)⟩
  rcases List.mem_cons.mp hxy with rfl | hxy
  · exact hnot.1 hxl
  · refine hd x ?_ hxy
    rcases List.mem_append.mp hxl with h | h <;> simp [h]

/-! ## Slots -/

/-- The address of one of the objects of slab `a`. -/
def IsSlot (objSize a x : Nat) : Prop := ∃ i < slabCapacity objSize, x = slotAddr a objSize i

theorem slot_end (hi : i < slabCapacity n) : slabHdr + (i + 1) * n ≤ pageSize := by
  have h := Nat.div_mul_le_self (pageSize - slabHdr) n
  have h' : (i + 1) * n ≤ slabCapacity n * n := Nat.mul_le_mul_right n hi
  unfold slabCapacity slabHdr pageSize at *
  omega

theorem size_pos_of_slot (hi : i < slabCapacity n) : 0 < n := by
  refine Nat.pos_of_ne_zero fun e => ?_
  subst e
  simp [slabCapacity] at hi

/-- A slot lies behind the header of its page and ends inside the page. -/
theorem IsSlot.bounds (h : IsSlot n a x) : a + slabHdr ≤ x ∧ x + n ≤ a + pageSize ∧ 0 < n := by
  obtain ⟨i, hi, rfl⟩ := h
  have h1 := slot_end hi
  have h2 := size_pos_of_slot hi
  rw [Nat.add_mul] at h1
  unfold slotAddr
  omega

theorem IsSlot.page (h : IsSlot n a x) (ha : a % pageSize = 0) : alignDown x pageSize = a := by
  have := h.bounds
  unfold alignDown pageSize slabHdr at *
  omega

theorem IsSlot.ne_zero (h : IsSlot n a x) : x ≠ 0 := by
  have := h.bounds
  unfold slabHdr at this
  omega

/-- Slots do not overlap, be they of one slab or of two. -/
theorem slots_apart {y : Nat} (hx : IsSlot n a x) (hy : IsSlot n b y) (ha : a % pageSize = 0)
    (hb : b % pageSize = 0) (hne : x ≠ y) : x + n ≤ y ∨ y + n ≤ x := by
  have h1 := hx.bounds
  have h2 := hy.bounds
  by_cases hab : a = b
  · subst hab
    obtain ⟨i, -, rfl⟩ := hx
    obtain ⟨j, -, rfl⟩ := hy
    unfold slotAddr at *
    rcases Nat.lt_trichotomy i j with h | h | h
    · have := Nat.mul_le_mul_right n h
      rw [Nat.succ_mul] at this
      omega
    · subst h
      exact absurd rfl hne
    · have := Nat.mul_le_mul_right n h
      rw [Nat.succ_mul] at this
      omega
  · unfold pageSize slabHdr at *
    omega

/-- No slot reaches into the header of a slab. -/
theorem slot_header_apart (hx : IsSlot n a x) (ha : a % pageSize = 0) (hb : b % pageSize = 0) :
    b + slabHdr ≤ x ∨ x + n ≤ b := by
  have := hx.bounds
  unfold pageSize slabHdr at *
  omega

theorem slotAddr_inj {j : Nat} (hn : 0 < n) (h : slotAddr a n i = slotAddr a n j) : i = j :=
  Nat.eq_of_mul_eq_mul_right hn (Nat.add_left_cancel h)

/-! ## The invariant -/

/-- The slab at `a` with its free list `xs`: the slots that are not live. -/
structure SlabOk (s : SlabState) (live : List Nat) (a : Nat) (xs : List Nat) : Prop where
  owner : (s.slab a).ownerCache = s.cache.addr
  capacity : (s.slab a).capacity = slabCapacity s.cache.objSize
  thread : Thread 0 s.word (s.slab a).freeHead xs
  nodup : xs.Nodup
  free_iff : ∀ x, x ∈ xs ↔ IsSlot s.cache.objSize a x ∧ x ∉ live
  used : (s.slab a).used + xs.length = slabCapacity s.cache.objSize
  room : 0 < slabCapacity s.cache.objSize

/-- A page of the cache: an allocated frame seen through the direct map. -/
structure PageOk (s : SlabState) (a : Nat) : Prop where
  aligned : a % pageSize = 0
  above : s.vaOffset < a
  allocated : isFreeFrame s.pmm (a - s.vaOffset) = false
  managed : ∃ i < s.pmm.totalFrames, a - s.vaOffset = frameAddr s.pmm.toGeometry i

/-- The spare slab, if there is one. -/
def KSlabCache.held (c : KSlabCache) : List Nat := if c.emptyHold = 0 then [] else [c.emptyHold]

/-- The two lists and the spare hold each page once. -/
structure Lists (s : SlabState) (ps fs : List Nat) : Prop where
  part : SlabList s.slab s.cache.partialList ps
  full : SlabList s.slab s.cache.fullList fs
  perm : s.pages.Perm (ps ++ fs ++ s.cache.held)
  nodup : s.pages.Nodup

/-- The pages and the objects in them, whatever list a slab is on. -/
structure Core (s : SlabState) (live : List Nat) : Prop where
  page : ∀ a ∈ s.pages, PageOk s a
  slab : ∀ a ∈ s.pages, ∃ xs, SlabOk s live a xs
  live_slot : ∀ p ∈ live, ∃ a ∈ s.pages, IsSlot s.cache.objSize a p
  live_nodup : live.Nodup
  size : s.cache.objSize ≤ pageSize - slabHdr
  offset : s.vaOffset % pageSize = 0
  counted : Counted s.pmm

/-- Slabs are on the list that fits their use. Slab `e` may be on the partial list
without a live object: it has just been put there, or is about to leave it. -/
structure Sorted (s : SlabState) (ps fs : List Nat) (e : Nat) : Prop where
  part : ∀ a ∈ ps, (a = e ∨ 0 < (s.slab a).used) ∧ (s.slab a).used < (s.slab a).capacity
  full : ∀ a ∈ fs, (s.slab a).used = (s.slab a).capacity
  held : ∀ a ∈ s.cache.held, (s.slab a).used = 0

/-- The cache invariant; `e = 0` between operations. -/
structure Inv (s : SlabState) (live ps fs : List Nat) (e : Nat) : Prop where
  lists : Lists s ps fs
  core : Core s live
  sorted : Sorted s ps fs e

variable {s s' : SlabState} {live live' ps fs ps' fs' : List Nat} {e : Nat}

theorem Lists.nodup_all (h : Lists s ps fs) : (ps ++ fs ++ s.cache.held).Nodup :=
  h.perm.nodup_iff.mp h.nodup

theorem Lists.mem_iff (h : Lists s ps fs) :
    a ∈ s.pages ↔ a ∈ ps ∨ a ∈ fs ∨ a ∈ s.cache.held := by
  rw [h.perm.mem_iff]
  simp

theorem Lists.apart (h : Lists s ps fs) : ∀ x ∈ ps, x ∉ fs := by
  intro x hx hf
  have := (List.nodup_append.mp (List.nodup_append.mp h.nodup_all).1).2.2
  exact this x hx x hf rfl

theorem SlabOk.body_eq {h : KSlab} (hb : h.body = (s.slab a).body) :
    h.ownerCache = (s.slab a).ownerCache ∧ h.capacity = (s.slab a).capacity ∧
    h.freeHead = (s.slab a).freeHead ∧ h.used = (s.slab a).used := by
  simp only [KSlab.body, KSlab.mk.injEq] at hb
  obtain ⟨-, -, h1, h2, h3, h4⟩ := hb
  exact ⟨h1, h3, h4, h2⟩

/-- A change that is confined to slab `a`, links apart. -/
structure Local (s : SlabState) (live : List Nat) (a : Nat) (s' : SlabState) (live' : List Nat) :
    Prop where
  objSize : s'.cache.objSize = s.cache.objSize
  addr : s'.cache.addr = s.cache.addr
  body : ∀ b ∈ s.pages, b ≠ a → (s'.slab b).body = (s.slab b).body
  word : ∀ b ∈ s.pages, b ≠ a → ∀ x, IsSlot s.cache.objSize b x → s'.word x = s.word x
  live : ∀ b ∈ s.pages, b ≠ a → ∀ x, IsSlot s.cache.objSize b x → (x ∈ live' ↔ x ∈ live)

/-- The other slabs are as they were. -/
theorem Local.slabOk (h : Local s live a s' live') (hb : b ∈ s.pages) (hne : b ≠ a)
    (hs : SlabOk s live b xs) : SlabOk s' live' b xs := by
  obtain ⟨h1, h2, h3, h4⟩ := SlabOk.body_eq (h.body b hb hne)
  refine ⟨?_, ?_, ?_, hs.nodup, fun x => ?_, ?_, h.objSize ▸ hs.room⟩
  · rw [h1, h.addr, hs.owner]
  · rw [h2, h.objSize, hs.capacity]
  · rw [h3]
    exact hs.thread.congr fun x hx => h.word b hb hne x ((hs.free_iff x).mp hx).1
  · rw [hs.free_iff, h.objSize]
    exact and_congr_right fun hx => not_congr (h.live b hb hne x hx).symm
  · rw [h4, h.objSize]
    exact hs.used

theorem Core.aligned (h : Core s live) (ha : a ∈ s.pages) : a % pageSize = 0 :=
  (h.page a ha).aligned

theorem Core.page_ne_zero (h : Core s live) (ha : a ∈ s.pages) : a ≠ 0 :=
  Nat.ne_of_gt (Nat.lt_of_le_of_lt (Nat.zero_le _) (h.page a ha).above)

/-- Slots of different pages differ. -/
theorem Core.slot_ne {y : Nat} (h : Core s live) (ha : a ∈ s.pages) (hb : b ∈ s.pages)
    (hne : b ≠ a) (hx : IsSlot s.cache.objSize a x) (hy : IsSlot s.cache.objSize b y) : y ≠ x := by
  intro e
  subst e
  exact hne ((hy.page (h.aligned hb)).symm.trans (hx.page (h.aligned ha)))

/-- Relinking slabs changes no page and no object. -/
theorem Core.relink (h : Core s live) {c : KSlabCache} (hm : ∀ x, (m x).body = (s.slab x).body)
    (hsize : c.objSize = s.cache.objSize) (haddr : c.addr = s.cache.addr) :
    Core { s with slab := m, cache := c } live := by
  refine ⟨fun a ha => ?_, fun a ha => ?_, ?_, h.live_nodup, hsize ▸ h.size, h.offset, h.counted⟩
  · obtain ⟨h1, h2, h3, h4⟩ := h.page a ha
    exact ⟨h1, h2, h3, h4⟩
  · obtain ⟨xs, hx⟩ := h.slab a ha
    obtain ⟨h1, h2, h3, h4⟩ := SlabOk.body_eq (hm a)
    refine ⟨xs, ?_, ?_, ?_, hx.nodup, ?_, ?_, hsize ▸ hx.room⟩
    · exact (h1.trans hx.owner).trans haddr.symm
    · exact (h2.trans hx.capacity).trans (congrArg _ hsize.symm)
    · exact h3 ▸ hx.thread
    · exact hsize ▸ hx.free_iff
    · show (m a).used + xs.length = slabCapacity c.objSize
      rw [h4, hsize]
      exact hx.used
  · exact hsize ▸ h.live_slot

theorem body_update_of_ne {h : KSlab} (hne : b ≠ a) : (update m a h b).body = (m b).body := by
  rw [update_of_ne hne]

/-- A change confined to slab `a` keeps the pages and objects in order when it keeps
those of `a`. -/
theorem Core.edit (h : Core s live)
    (hL : Local s live a { s with slab := update s.slab a k, word := w } live')
    (ha : SlabOk { s with slab := update s.slab a k, word := w } live' a l)
    (hlive : ∀ p ∈ live', ∃ a ∈ s.pages, IsSlot s.cache.objSize a p) (hnd : live'.Nodup) :
    Core { s with slab := update s.slab a k, word := w } live' := by
  refine ⟨fun b hb => ?_, fun b hb => ?_, hlive, hnd, h.size, h.offset, h.counted⟩
  · obtain ⟨h1, h2, h3, h4⟩ := h.page b hb
    exact ⟨h1, h2, h3, h4⟩
  · by_cases hba : b = a
    · exact ⟨l, hba ▸ ha⟩
    · obtain ⟨ys, hy⟩ := h.slab b hb
      exact ⟨ys, hL.slabOk hb hba hy⟩

/-- An edit of a header that leaves its links alone leaves the lists alone. -/
theorem Lists.edit (h : Lists s ps fs)
    (h1 : k.next = (s.slab a).next) (h2 : k.prev = (s.slab a).prev) :
    Lists { s with slab := update s.slab a k, word := w } ps fs := by
  have hn : nextOf (update s.slab a k) = nextOf s.slab := by
    rw [nextOf_update, h1]
    exact update_eq_self a (nextOf s.slab)
  have hp : prevOf (update s.slab a k) = prevOf s.slab := by
    rw [prevOf_update, h2]
    exact update_eq_self a (prevOf s.slab)
  exact ⟨h.part.congr (fun x _ => congrFun hn x) fun x _ => congrFun hp x,
    h.full.congr (fun x _ => congrFun hn x) fun x _ => congrFun hp x, h.perm, h.nodup⟩

theorem capacity_lt (n : Nat) : slabCapacity n < wordSize := by
  have := Nat.div_le_self (pageSize - slabHdr) n
  unfold slabCapacity pageSize slabHdr wordSize at *
  omega

/-! ## Taking and putting back an object -/

/-- Taking the first free object `x` of slab `a`, before the lists are looked at. -/
theorem take_core (h : Core s live) (ha : a ∈ s.pages) (hs : SlabOk s live a (x :: ys)) :
    let k := (s.slab a).take (s.word x)
    Core { s with slab := update s.slab a k } (x :: live) ∧ x ∉ live ∧
    IsSlot s.cache.objSize a x ∧ k.used = (s.slab a).used + 1 ∧
    k.used + ys.length = (s.slab a).capacity ∧ (s.word x = 0 ↔ ys = []) := by
  intro k
  obtain ⟨-, -, ht⟩ := hs.thread
  obtain ⟨hxs, hys⟩ := List.nodup_cons.mp hs.nodup
  obtain ⟨hslot, hlive⟩ := (hs.free_iff x).mp (by simp)
  have hu := hs.used
  have hcap := capacity_lt s.cache.objSize
  rw [List.length_cons] at hu
  have hused : k.used = (s.slab a).used + 1 := by
    show ((s.slab a).used + 1) % wordSize = _
    rw [Nat.mod_eq_of_lt (by omega)]
  refine ⟨Core.edit (l := ys) h ⟨rfl, rfl, fun b _ hne => body_update_of_ne hne,
    fun _ _ _ _ _ => rfl, fun b hb hne y hy => ?_⟩
    ⟨?_, ?_, ?_, hys, fun y => ?_, ?_, hs.room⟩ ?_ ?_, hlive, hslot, hused, ?_, ht.eq_nil_iff⟩
  · have := h.slot_ne ha hb hne hslot hy
    simp [this]
  · simpa [k, KSlab.take] using hs.owner
  · simpa [k, KSlab.take] using hs.capacity
  · simpa [k, KSlab.take] using ht
  · have := hs.free_iff y
    by_cases hyx : y = x
    · subst hyx
      simp [hxs]
    · simpa [hyx] using this
  · simp only [update_self]
    omega
  · intro p hp
    rcases List.mem_cons.mp hp with rfl | hp
    · exact ⟨a, ha, hslot⟩
    · exact h.live_slot p hp
  · exact List.nodup_cons.mpr ⟨hlive, h.live_nodup⟩
  · rw [hs.capacity]
    omega

/-- The lists after slab `a` has moved from the partial to the full one. -/
theorem Lists.toFull (h : Lists s (l ++ a :: r) fs) :
    let rm := slabListRemove s.slab s.cache.partialList a
    let p := slabListPush rm.1 s.cache.fullList a
    Lists { s with slab := p.1, cache := { s.cache with partialList := rm.2, fullList := p.2 } }
      (l ++ r) (a :: fs) ∧ ∀ x, (p.1 x).body = (s.slab x).body := by
  obtain ⟨h1, h2, h3⟩ := slabListMove_spec h.part h.full h.apart
  refine ⟨⟨h1, h2, h.perm.trans ?_, h.nodup⟩, h3⟩
  refine List.Perm.append_right _ ?_
  rw [List.append_assoc, List.append_assoc]
  exact List.Perm.append_left l List.perm_middle.symm

theorem Lists.toPartial (h : Lists s ps (l ++ a :: r)) :
    let rm := slabListRemove s.slab s.cache.fullList a
    let p := slabListPush rm.1 s.cache.partialList a
    Lists { s with slab := p.1, cache := { s.cache with fullList := rm.2, partialList := p.2 } }
      (a :: ps) (l ++ r) ∧ ∀ x, (p.1 x).body = (s.slab x).body := by
  obtain ⟨h1, h2, h3⟩ := slabListMove_spec h.full h.part fun x hx hp => h.apart x hp hx
  refine ⟨⟨h2, h1, h.perm.trans ?_, h.nodup⟩, h3⟩
  refine List.Perm.append_right _ ?_
  rw [← List.append_assoc, List.cons_append, ← List.append_assoc]
  exact List.perm_middle

/-- `Sorted` looks at the use of each slab only. -/
theorem Sorted.relink (h : Sorted s ps fs e) {c : KSlabCache}
    (hm : ∀ x, (m x).body = (s.slab x).body) (hc : c.held = s.cache.held) :
    Sorted { s with slab := m, cache := c } ps fs e := by
  have hb := fun a => SlabOk.body_eq (hm a)
  refine ⟨fun a ha => ?_, fun a ha => ?_, fun a ha => ?_⟩
  · show (a = e ∨ 0 < (m a).used) ∧ (m a).used < (m a).capacity
    rw [(hb a).2.1, (hb a).2.2.2]
    exact h.part a ha
  · show (m a).used = (m a).capacity
    rw [(hb a).2.1, (hb a).2.2.2]
    exact h.full a ha
  · show (m a).used = 0
    rw [(hb a).2.2.2]
    exact h.held a (hc ▸ ha)

theorem Sorted.weaken (h : Sorted s ps fs 0) (hl : Lists s ps fs) (a : Nat) :
    Sorted s ps fs a := by
  refine ⟨fun b hb => ?_, h.full, h.held⟩
  obtain ⟨h1, h2⟩ := h.part b hb
  exact ⟨.inr (h1.resolve_left fun e => hl.part.null_notMem (e ▸ hb)), h2⟩

/-- The header of slab `a` is replaced and the lists are rearranged around `a`. -/
theorem Sorted.edit (h : Sorted s ps fs a) (hheld : a ∉ s.cache.held)
    (hps : ∀ b ∈ ps', b ≠ a → b ∈ ps) (hfs : ∀ b ∈ fs', b ≠ a → b ∈ fs)
    (hkp : a ∈ ps' → (a = e ∨ 0 < k.used) ∧ k.used < k.capacity)
    (hkf : a ∈ fs' → k.used = k.capacity) :
    Sorted { s with slab := update s.slab a k, word := w } ps' fs' e := by
  have hother : ∀ b ≠ a, update s.slab a k b = s.slab b := fun b hb => update_of_ne hb _ _
  refine ⟨fun b hb => ?_, fun b hb => ?_, fun b hb => ?_⟩
  all_goals dsimp only
  · by_cases hba : b = a
    · subst hba
      rw [update_self]
      exact hkp hb
    · rw [hother b hba]
      have := h.part b (hps b hb hba)
      exact ⟨.inr (this.1.resolve_left hba), this.2⟩
  · by_cases hba : b = a
    · subst hba
      rw [update_self]
      exact hkf hb
    · rw [hother b hba]
      exact h.full b (hfs b hb hba)
  · rw [hother b fun e => hheld (e ▸ hb)]
    exact h.held b hb

theorem Lists.not_held (h : Lists s ps fs) (ha : a ∈ ps ∨ a ∈ fs) : a ∉ s.cache.held := by
  intro hb
  have := (List.nodup_append.mp h.nodup_all).2.2
  exact this a (List.mem_append.mpr ha) a hb rfl

theorem mem_of_mem_sides (h : b ∈ l ++ r) : b ∈ l ++ a :: r := by
  rcases List.mem_append.mp h with h | h <;> simp [h]

/-- The slab that may be empty leaves the partial list. -/
theorem Sorted.remove (h : Sorted s (l ++ a :: r) fs a) (hnot : a ∉ l ++ r) :
    Sorted s (l ++ r) fs 0 := by
  refine ⟨fun b hb => ?_, h.full, h.held⟩
  have := h.part b (mem_of_mem_sides hb)
  exact ⟨.inr (this.1.resolve_left fun e => hnot (e ▸ hb)), this.2⟩

/-- The first free object of a partial slab is taken, and the slab is full when it
was the last. -/
theorem slabTake_inv (h : Inv s live ps fs a) (ha : a ∈ ps) :
    let t := slabTake s a
    t.2 ∉ live ∧ t.2 ≠ 0 ∧ ∃ ps' fs', Inv t.1 (t.2 :: live) ps' fs' 0 := by
  have hpage : a ∈ s.pages := h.lists.mem_iff.mpr (.inl ha)
  have hheld := h.lists.not_held (.inl ha)
  obtain ⟨xs, hs⟩ := h.core.slab a hpage
  obtain ⟨-, hroom⟩ := h.sorted.part a ha
  cases xs with
  | nil =>
    have := hs.used
    rw [hs.capacity, List.length_nil] at *
    omega
  | cons x ys =>
    obtain ⟨hx, hx0, -⟩ := hs.thread
    obtain ⟨hcore, hlive, -, hu, hcap, hnil⟩ := take_core h.core hpage hs
    have hlists : Lists { s with slab := update s.slab a ((s.slab a).take (s.word x)) } ps fs :=
      h.lists.edit rfl rfl
    simp only [slabTake, hx, update_self]
    split
    · next hz =>
      -- that was the last free object
      obtain ⟨l, r, rfl⟩ := List.append_of_mem ha
      have hnot := List.nodup_cons.mp (List.nodup_middle.mp h.lists.part.nodup)
      have hys := hnil.mp hz
      obtain ⟨h1, h2⟩ := hlists.toFull
      refine ⟨hlive, hx0, _, _, h1, hcore.relink h2 rfl rfl, (h.sorted.edit hheld
        (fun b hb _ => mem_of_mem_sides hb) (fun b hb hne => ?_) (fun hb => ?_)
        fun _ => ?_).relink h2 rfl⟩
      · exact (List.mem_cons.mp hb).resolve_left hne
      · exact absurd hb hnot.1
      · rw [hys] at hcap
        exact hcap
    · next hz =>
      have hlen : ys.length ≠ 0 := fun e => hz (hnil.mpr (List.eq_nil_of_length_eq_zero e))
      refine ⟨hlive, hx0, ps, fs, hlists, hcore, h.sorted.edit hheld (fun b hb _ => hb)
        (fun b hb _ => hb) (fun _ => ⟨.inr (by omega), ?_⟩) fun hb => ?_⟩
      · show ((s.slab a).take (s.word x)).used < (s.slab a).capacity
        omega
      · exact absurd hb (h.lists.apart a ha)

/-- Different slots of one slab are at most as many as it has. -/
theorem slots_length_le (hnd : xs.Nodup) (h : ∀ x ∈ xs, IsSlot n a x) :
    xs.length ≤ slabCapacity n := by
  have hsub : xs ⊆ (List.range (slabCapacity n)).map (slotAddr a n) := by
    intro x hx
    obtain ⟨i, hi, rfl⟩ := h x hx
    exact List.mem_map.mpr ⟨i, List.mem_range.mpr hi, rfl⟩
  simpa using (hnd.subperm hsub).length_le

/-- A slab with a live object is not all free. -/
theorem SlabOk.length_lt (hs : SlabOk s live a xs) (hslot : IsSlot s.cache.objSize a x)
    (hlive : x ∈ live) : x ∉ xs ∧ xs.length < slabCapacity s.cache.objSize := by
  have hxs : x ∉ xs := fun hx => ((hs.free_iff x).mp hx).2 hlive
  refine ⟨hxs, slots_length_le (a := a) (List.nodup_cons.mpr ⟨hxs, hs.nodup⟩) fun y hy => ?_⟩
  rcases List.mem_cons.mp hy with rfl | hy
  · exact hslot
  · exact ((hs.free_iff y).mp hy).1

/-- The object `x` is back on the free list of slab `a`, before the lists are looked at. -/
theorem put_core (h : Core s live) (ha : a ∈ s.pages) (hs : SlabOk s live a xs)
    (hslot : IsSlot s.cache.objSize a x) (hlive : x ∈ live) :
    let k := (s.slab a).put x
    Core { s with slab := update s.slab a k, word := update s.word x (s.slab a).freeHead }
      (live.erase x) ∧ k.used + 1 = (s.slab a).used ∧ k.used < k.capacity := by
  intro k
  obtain ⟨hxs, hlen⟩ := hs.length_lt hslot hlive
  have hu := hs.used
  have hused : k.used = (s.slab a).used - 1 := if_neg (by omega)
  have hmem : ∀ y, y ∈ live.erase x ↔ y ≠ x ∧ y ∈ live := fun y => h.live_nodup.mem_erase_iff
  refine ⟨Core.edit (l := x :: xs) h ⟨rfl, rfl, fun b _ hne => body_update_of_ne hne,
    fun b hb hne y hy => ?_, fun b hb hne y hy => ?_⟩ ⟨?_, ?_, ?_, ?_, fun y => ?_, ?_, hs.room⟩
    ?_ ?_, by omega, ?_⟩
  · exact update_of_ne (h.slot_ne ha hb hne hslot hy) _ _
  · have := h.slot_ne ha hb hne hslot hy
    simp [hmem, this]
  · simpa [k, KSlab.put] using hs.owner
  · simpa [k, KSlab.put] using hs.capacity
  · simpa [k, KSlab.put] using hs.thread.push hslot.ne_zero hxs
  · exact List.nodup_cons.mpr ⟨hxs, hs.nodup⟩
  · have := hs.free_iff y
    by_cases hyx : y = x
    · subst hyx
      simp [hmem, hslot]
    · simpa [hmem, hyx] using this
  · simp only [update_self, List.length_cons]
    omega
  · exact fun p hp => h.live_slot p ((hmem p).mp hp).2
  · exact h.live_nodup.erase x
  · show k.used < (s.slab a).capacity
    rw [hs.capacity]
    omega

/-- A live object is put back, and its slab is no longer full. -/
theorem slabPut_inv (h : Inv s live ps fs 0) (ha : a ∈ s.pages)
    (hslot : IsSlot s.cache.objSize a x) (hlive : x ∈ live) :
    ∃ ps' fs', Inv (slabPut s a x) (live.erase x) ps' fs' a ∧ a ∈ ps' := by
  obtain ⟨xs, hs⟩ := h.core.slab a ha
  obtain ⟨hcore, hu, hroom⟩ := put_core h.core ha hs hslot hlive
  have hlists : Lists { s with slab := update s.slab a ((s.slab a).put x),
                               word := update s.word x (s.slab a).freeHead } ps fs :=
    h.lists.edit rfl rfl
  have hnil := hs.thread.eq_nil_iff
  have hused := hs.used
  have hwhere : a ∈ ps ∧ xs ≠ [] ∨ a ∈ fs ∧ xs = [] := by
    rcases h.lists.mem_iff.mp ha with hp | hf | hh
    · have := (h.sorted.part a hp).2
      rw [hs.capacity] at this
      exact .inl ⟨hp, fun e => by rw [e, List.length_nil] at hused; omega⟩
    · have := h.sorted.full a hf
      rw [hs.capacity] at this
      exact .inr ⟨hf, List.eq_nil_of_length_eq_zero (by omega)⟩
    · have := h.sorted.held a hh
      omega
  simp only [slabPut]
  rcases hwhere with ⟨hp, hne⟩ | ⟨hf, he⟩
  · rw [if_neg (fun e => hne (hnil.mp e))]
    refine ⟨ps, fs, ⟨hlists, hcore, (h.sorted.weaken h.lists a).edit (h.lists.not_held (.inl hp))
      (fun b hb _ => hb) (fun b hb _ => hb) (fun _ => ⟨.inl rfl, hroom⟩) fun hb => ?_⟩, hp⟩
    exact absurd hb (h.lists.apart a hp)
  · rw [if_pos (hnil.mpr he)]
    obtain ⟨l, r, rfl⟩ := List.append_of_mem hf
    have hnot := List.nodup_cons.mp (List.nodup_middle.mp h.lists.full.nodup)
    obtain ⟨h1, h2⟩ := hlists.toPartial
    refine ⟨_, _, ⟨h1, hcore.relink h2 rfl rfl, ((h.sorted.weaken h.lists a).edit
      (h.lists.not_held (.inr hf)) (fun b hb hne => ?_) (fun b hb _ => mem_of_mem_sides hb)
      (fun _ => ⟨.inl rfl, hroom⟩) fun hb => ?_).relink h2 rfl⟩, List.mem_cons_self⟩
    · exact (List.mem_cons.mp hb).resolve_left hne
    · exact absurd hb hnot.1

/-! ## Growing -/

/-- The loop of `SlabGrow` threads the first `k` slots, last slot first. -/
theorem growSlots_spec (h0 : (m a).freeHead = 0) (hn : 0 < n) : ∀ k : Nat,
    let st := (List.range k).foldl (growSlot a n) (m, w)
    Thread 0 st.2 (st.1 a).freeHead ((List.range k).map (slotAddr a n)).reverse ∧
    (∃ f, st.1 = update m a { m a with freeHead := f }) ∧
    ∀ x, (∀ i < k, x ≠ slotAddr a n i) → st.2 x = w x := by
  intro k
  induction k with
  | zero =>
    refine ⟨by simpa using h0, ⟨(m a).freeHead, ?_⟩, fun x _ => rfl⟩
    simp
  | succ k ih =>
    intro st
    obtain ⟨ht, ⟨f, hf⟩, hw⟩ := ih
    have hst : st = growSlot a n ((List.range k).foldl (growSlot a n) (m, w)) k := by
      simp only [st, List.range_succ, List.foldl_append, List.foldl_cons, List.foldl_nil]
    have hnew : slotAddr a n k ∉ ((List.range k).map (slotAddr a n)).reverse := by
      simp only [List.mem_reverse, List.mem_map, List.mem_range, not_exists, not_and]
      intro i hi he
      have := slotAddr_inj hn he
      omega
    have hne : slotAddr a n k ≠ 0 := by
      unfold slotAddr slabHdr
      omega
    rw [hst]
    refine ⟨?_, ⟨slotAddr a n k, ?_⟩, fun x hx => ?_⟩
    · simp only [growSlot, update_self, List.range_succ, List.map_append, List.map_cons,
        List.map_nil, List.reverse_append, List.reverse_cons, List.reverse_nil, List.nil_append,
        List.singleton_append]
      exact ht.push hne hnew
    · simp only [growSlot, hf, update_self, update_idem]
    · simp only [growSlot]
      rw [update_of_ne (hx k (by omega))]
      exact hw x fun i hi => hx i (by omega)

/-- Frames move, but none of the cache's comes free. -/
theorem Core.withPmm {took gave : Set Nat} (h : Core s live)
    (he : Accounted s.pmm took gave p')
    (hgave : ∀ a ∈ s.pages, a - s.vaOffset ∉ gave) : Core { s with pmm := p' } live := by
  refine ⟨fun a ha => ?_, fun a ha => ?_, h.live_slot, h.live_nodup, h.size, h.offset,
    he.counted h.counted⟩
  · obtain ⟨h1, h2, h3, i, hi, h4⟩ := h.page a ha
    refine ⟨h1, h2, ?_, i, ?_, ?_⟩
    · rw [Bool.eq_false_iff]
      intro hf
      rcases (he.free_iff _).mp hf with ⟨hold, -⟩ | hg
      · rw [h3] at hold
        cases hold
      · exact hgave a ha hg
    · show i < p'.totalFrames
      rw [he.geometry]
      exact hi
    · show _ = frameAddr p'.toGeometry i
      rw [he.geometry]
      exact h4
  · obtain ⟨xs, hx⟩ := h.slab a ha
    exact ⟨xs, hx.owner, hx.capacity, hx.thread, hx.nodup, hx.free_iff, hx.used, hx.room⟩

/-- The new page: its frame was free, so it is none of the cache's. -/
theorem PageOk.fresh {pa : Nat} {took : Set Nat} (h : Core s live)
    (he : Effect s.pmm took ∅ p') (h0 : pa ≠ 0) (hpa : pa ∈ took) :
    PageOk { s with pmm := p' } (pa + s.vaOffset) ∧ pa + s.vaOffset ∉ s.pages := by
  have hfree := he.took_free pa hpa
  obtain ⟨i, hi, -, hadr⟩ := isFreeFrame_iff.mp hfree
  have hoff := h.offset
  have hal : (pa + s.vaOffset) % pageSize = 0 := by
    rw [hadr, frameAddr_eq _ hi.le]
    unfold pageSize at *
    omega
  refine ⟨⟨hal, by dsimp only; omega, ?_, i, ?_, ?_⟩, fun hmem => ?_⟩
  · rw [Nat.add_sub_cancel, Bool.eq_false_iff]
    intro hf
    rcases (he.free_iff _).mp hf with ⟨-, hnot⟩ | hg
    · exact hnot hpa
    · exact hg
  · show i < p'.totalFrames
    rw [he.geometry]
    exact hi
  · show pa + s.vaOffset - s.vaOffset = frameAddr p'.toGeometry i
    rw [he.geometry, Nat.add_sub_cancel, hadr]
  · have := (h.page _ hmem).allocated
    rw [Nat.add_sub_cancel, hfree] at this
    cases this

theorem capacity_pos (h : n ≤ pageSize - slabHdr) (hn : 0 < n) : 0 < slabCapacity n :=
  Nat.div_pos h hn

/-- What formatting a page does to the headers and words. -/
theorem slabFormat_spec (hn : 0 < s.cache.objSize) :
    (∃ f, (slabFormat s a).slab a = { s.slab a with
      ownerCache := s.cache.addr, capacity := slabCapacity s.cache.objSize, used := 0,
      freeHead := f }) ∧
    (∀ b ≠ a, (slabFormat s a).slab b = s.slab b) ∧
    (∀ x, ¬IsSlot s.cache.objSize a x → (slabFormat s a).word x = s.word x) ∧
    Thread 0 (slabFormat s a).word ((slabFormat s a).slab a).freeHead
      ((List.range (slabCapacity s.cache.objSize)).map (slotAddr a s.cache.objSize)).reverse := by
  obtain ⟨ht, ⟨f, hf⟩, hw⟩ := growSlots_spec (m := update s.slab a { s.slab a with
    ownerCache := s.cache.addr, capacity := slabCapacity s.cache.objSize, used := 0,
    freeHead := 0 }) (a := a) (w := s.word) (by simp) hn (slabCapacity s.cache.objSize)
  refine ⟨⟨f, ?_⟩, fun b hb => ?_, fun x hx => hw x fun i hi e => hx ⟨i, hi, e⟩, ht⟩
  · simp only [slabFormat, hf, update_self]
  · simp only [slabFormat, hf, update_of_ne hb]

/-- A page whose slots are all threaded joins the cache. -/
theorem slabFormat_core (h : Core s live) (hp : PageOk s a) (ha : a ∉ s.pages)
    (hn : 0 < s.cache.objSize) : Core (slabFormat s a) live := by
  obtain ⟨⟨f, hf⟩, hother, hword, ht⟩ := slabFormat_spec (a := a) hn
  -- a slot of the new page is no slot of another
  have hslots : ∀ b ∈ s.pages, ∀ x, IsSlot s.cache.objSize b x → ¬IsSlot s.cache.objSize a x := by
    intro b hb x hx hxa
    exact ha (((hxa.page hp.aligned).symm.trans (hx.page (h.aligned hb))) ▸ hb)
  have hL : Local s live a (slabFormat s a) live :=
    ⟨rfl, rfl, fun b _ hne => congrArg KSlab.body (hother b hne),
      fun b hb _ x hx => hword x (hslots b hb x hx), fun _ _ _ _ _ => Iff.rfl⟩
  refine ⟨fun b hb => ?_, fun b hb => ?_, fun p hq => ?_, h.live_nodup, h.size, h.offset, h.counted⟩
  · have : PageOk s b := by
      rcases List.mem_cons.mp hb with rfl | hb
      · exact hp
      · exact h.page b hb
    exact ⟨this.aligned, this.above, this.allocated, this.managed⟩
  · rcases List.mem_cons.mp hb with rfl | hb
    · refine ⟨_, congrArg KSlab.ownerCache hf, congrArg KSlab.capacity hf, ht, ?_, fun x => ?_, ?_,
        capacity_pos h.size hn⟩
      · exact List.nodup_reverse.mpr (List.nodup_range.map_on fun i _ j _ e => slotAddr_inj hn e)
      · simp only [List.mem_reverse, List.mem_map, List.mem_range]
        constructor
        · rintro ⟨i, hi, rfl⟩
          refine ⟨⟨i, hi, rfl⟩, fun hl => ?_⟩
          obtain ⟨d, hd, hslot⟩ := h.live_slot _ hl
          exact hslots d hd _ hslot ⟨i, hi, rfl⟩
        · rintro ⟨⟨i, hi, rfl⟩, -⟩
          exact ⟨i, hi, rfl⟩
      · rw [hf]
        simp [slabFormat]
    · obtain ⟨ys, hy⟩ := h.slab b hb
      exact ⟨ys, hL.slabOk hb (fun e => ha (e ▸ hb)) hy⟩
  · obtain ⟨d, hd, hslot⟩ := h.live_slot p hq
    exact ⟨d, List.mem_cons_of_mem _ hd, hslot⟩

theorem Inv.withPmm {took gave : Set Nat} (h : Inv s live ps fs e)
    (he : Accounted s.pmm took gave p')
    (hgave : ∀ a ∈ s.pages, a - s.vaOffset ∉ gave) : Inv { s with pmm := p' } live ps fs e :=
  ⟨⟨h.lists.part, h.lists.full, h.lists.perm, h.lists.nodup⟩, h.core.withPmm he hgave,
    h.sorted.part, h.sorted.full, h.sorted.held⟩

/-- A formatted page joins the empty partial list. -/
theorem format_push_inv (h : Inv s live [] fs 0) (hheld : s.cache.held = []) (hp : PageOk s a)
    (ha : a ∉ s.pages) (hn : 0 < s.cache.objSize) :
    let t := slabFormat s a
    let p := slabListPush t.slab t.cache.partialList a
    Inv { t with slab := p.1, cache := { t.cache with partialList := p.2 } } live [a] fs a := by
  intro t p
  obtain ⟨⟨f, hf⟩, hother, -, -⟩ := slabFormat_spec (a := a) hn
  have hcore := slabFormat_core h.core hp ha hn
  have hfs : ∀ b ∈ fs, b ≠ a := fun b hb e => ha (e ▸ h.lists.mem_iff.mpr (.inr (.inl hb)))
  have hne : a ≠ 0 := Nat.ne_of_gt (Nat.lt_of_le_of_lt (Nat.zero_le _) hp.above)
  have hpart : SlabList t.slab t.cache.partialList [] := by
    have he : t.cache.partialList = 0 := h.lists.part.head_eq
    rw [he]
    exact IsDList.nil
  obtain ⟨hl1, hl2⟩ := slabListPush_spec hpart hne (by simp)
  have hfull : SlabList t.slab t.cache.fullList fs :=
    h.lists.full.congr (fun b hb => congrArg KSlab.next (hother b (hfs b hb)))
      fun b hb => congrArg KSlab.prev (hother b (hfs b hb))
  have hsorted : Sorted t [a] fs a := by
    refine ⟨fun b hb => ?_, fun b hb => ?_, fun b hb => ?_⟩
    · rw [List.mem_singleton.mp hb]
      refine ⟨.inl rfl, ?_⟩
      rw [hf]
      exact capacity_pos h.core.size hn
    · rw [hother b (hfs b hb)]
      exact h.sorted.full b hb
    · rw [show t.cache.held = [] from hheld] at hb
      cases hb
  refine ⟨⟨hl1, hfull.frame hl2 fun b hb hb' => hfs b hb (by simpa using hb'), ?_,
    List.nodup_cons.mpr ⟨ha, h.lists.nodup⟩⟩, hcore.relink hl2.body rfl rfl,
    hsorted.relink hl2.body rfl⟩
  exact h.lists.perm.cons a

theorem slabGrow_inv (h : Inv s live [] fs 0) (hheld : s.cache.held = [])
    (hg : slabGrow s = some (s', a)) :
    (a = 0 ∧ Inv s' live [] fs 0) ∨ (a ≠ 0 ∧ Inv s' live [a] fs a) := by
  obtain ⟨⟨p', pa⟩, hp, hg⟩ := Option.bind_eq_some_iff.mp hg
  rcases pmmTakeFreeFrame_effect hp with ⟨rfl, hl⟩ | ⟨h0, he⟩
  · cases hg
    exact .inl ⟨rfl, h.withPmm hl.effect (by simp)⟩
  · rw [if_neg h0, kassert_eq_some] at hg
    obtain ⟨hn, hg⟩ := hg
    cases hg
    obtain ⟨hpage, hnew⟩ := PageOk.fresh h.core he.toEffect h0 rfl
    exact .inr ⟨by omega, format_push_inv (h.withPmm he (by simp)) hheld hpage hnew
      (Nat.pos_of_ne_zero hn)⟩

/-- `SlabAlloc` finds a slab with a free object, or there is no frame. -/
theorem slabPick_inv (h : Inv s live ps fs 0) (hp : slabPick s = some (s', a)) :
    (a = 0 ∧ ∃ ps', Inv s' live ps' fs 0) ∨ (a ≠ 0 ∧ ∃ ps', a ∈ ps' ∧ Inv s' live ps' fs a) := by
  unfold slabPick at hp
  split at hp
  · next hne =>
    cases hp
    exact .inr ⟨hne, ps, h.lists.part.head_mem hne, h.lists, h.core, h.sorted.weaken h.lists _⟩
  · next hz =>
    have hz : s.cache.partialList = 0 := not_not.mp hz
    have hps : ps = [] := SlabList.eq_nil (hz ▸ h.lists.part)
    subst hps
    split at hp
    · next hh =>
      cases hp
      have hheld : s.cache.held = [s.cache.emptyHold] := if_neg hh
      have hin : s.cache.emptyHold ∈ s.cache.held := by simp [hheld]
      have hnot : s.cache.emptyHold ∉ fs := fun hf => h.lists.not_held (.inr hf) hin
      obtain ⟨h1, h2⟩ := slabListPush_spec h.lists.part hh (by simp)
      have hsorted : Sorted { s with cache := { s.cache with emptyHold := 0 } }
          [s.cache.emptyHold] fs s.cache.emptyHold := by
        refine ⟨fun b hb => ?_, h.sorted.full, by simp [KSlabCache.held]⟩
        rw [List.mem_singleton.mp hb]
        obtain ⟨xs, hs⟩ := h.core.slab _ (h.lists.mem_iff.mpr (.inr (.inr hin)))
        refine ⟨.inl rfl, ?_⟩
        rw [h.sorted.held _ hin, hs.capacity]
        exact hs.room
      refine .inr ⟨hh, _, List.mem_singleton_self _, ⟨h1, h.lists.full.frame h2 ?_, ?_,
        h.lists.nodup⟩, h.core.relink h2.body rfl rfl, hsorted.relink h2.body rfl⟩
      · intro b hb hb'
        exact hnot ((by simpa using hb' : b = _) ▸ hb)
      · have := h.lists.perm
        rw [hheld] at this
        simpa [KSlabCache.held] using this.trans List.perm_append_comm
    · next hh =>
      have hheld : s.cache.held = [] := if_pos (not_not.mp hh)
      rcases slabGrow_inv h hheld hp with ⟨h0, h1⟩ | ⟨h0, h1⟩
      · exact .inl ⟨h0, _, h1⟩
      · exact .inr ⟨h0, _, by simp, h1⟩

theorem slabAlloc_inv (h : Inv s live ps fs 0) (ha : slabAlloc s = some (s', p)) :
    (p = 0 ∧ ∃ ps' fs', Inv s' live ps' fs' 0) ∨
    (p ≠ 0 ∧ p ∉ live ∧ ∃ ps' fs', Inv s' (p :: live) ps' fs' 0) := by
  obtain ⟨⟨s₁, a⟩, hp, he⟩ := Option.map_eq_some_iff.mp ha
  rcases slabPick_inv h hp with ⟨h0, ps', h1⟩ | ⟨h0, ps', hmem, h1⟩
  · rw [if_pos h0] at he
    cases he
    exact .inl ⟨rfl, ps', fs, h1⟩
  · rw [if_neg h0] at he
    obtain ⟨hl, hne, hI⟩ := slabTake_inv h1 hmem
    rw [he] at hl hne hI
    exact .inr ⟨hne, hl, hI⟩

/-! ## Freeing -/

/-- A slab without used objects has no live ones. -/
theorem SlabOk.not_live (hs : SlabOk s live a xs) (hu : (s.slab a).used = 0)
    (hx : IsSlot s.cache.objSize a x) : x ∉ live := by
  intro hl
  have hlen := (hs.length_lt hx hl).2
  have := hs.used
  omega

/-- An empty slab leaves the partial list and becomes the spare. -/
theorem hold_inv (h : Inv s live ps fs a) (ha : a ∈ ps) (hu : (s.slab a).used = 0)
    (hh : s.cache.emptyHold = 0) :
    let rm := slabListRemove s.slab s.cache.partialList a
    ∃ ps', Inv { s with slab := rm.1, cache := { s.cache with
      partialList := rm.2, emptyHold := a } } live ps' fs 0 := by
  intro rm
  have h0 := h.core.page_ne_zero (h.lists.mem_iff.mpr (.inl ha))
  obtain ⟨l, r, rfl⟩ := List.append_of_mem ha
  have hnot := List.nodup_cons.mp (List.nodup_middle.mp h.lists.part.nodup)
  obtain ⟨h1, h2⟩ := slabListRemove_spec h.lists.part
  have hheld : s.cache.held = [] := if_pos hh
  have hheld' : ({ s.cache with partialList := rm.2, emptyHold := a } : KSlabCache).held = [a] :=
    if_neg h0
  have hsorted : Sorted { s with cache := { s.cache with partialList := rm.2, emptyHold := a } }
      (l ++ r) fs 0 := by
    refine ⟨(h.sorted.remove hnot.1).part, h.sorted.full, fun b hb => ?_⟩
    rw [hheld'] at hb
    rw [List.mem_singleton.mp hb]
    exact hu
  refine ⟨l ++ r, ⟨h1, h.lists.full.frame h2 fun b hb hb' => h.lists.apart b hb' hb, ?_,
    h.lists.nodup⟩, h.core.relink h2.body rfl rfl, hsorted.relink h2.body rfl⟩
  show s.pages.Perm (l ++ r ++ fs ++ _)
  rw [hheld']
  refine h.lists.perm.trans ?_
  rw [hheld, List.append_nil]
  exact (List.perm_middle.append_right fs).trans (List.perm_append_singleton a _).symm

/-- A page without live objects leaves the cache. -/
theorem Core.dropPage (h : Core s live) (hs : SlabOk s live a xs) (hu : (s.slab a).used = 0) :
    Core { s with pages := s.pages.erase a } live := by
  refine ⟨fun b hb => ?_, fun b hb => ?_, fun p hp => ?_, h.live_nodup, h.size, h.offset, h.counted⟩
  · obtain ⟨h1, h2, h3, h4⟩ := h.page b (List.mem_of_mem_erase hb)
    exact ⟨h1, h2, h3, h4⟩
  · obtain ⟨ys, hy⟩ := h.slab b (List.mem_of_mem_erase hb)
    exact ⟨ys, hy.owner, hy.capacity, hy.thread, hy.nodup, hy.free_iff, hy.used, hy.room⟩
  · obtain ⟨b, hb, hslot⟩ := h.live_slot p hp
    refine ⟨b, ?_, hslot⟩
    have hba : b ≠ a := by
      rintro rfl
      exact hs.not_live hu hslot hp
    exact (List.mem_erase_of_ne hba).mpr hb

/-- An empty slab leaves the partial list and its page goes back. -/
theorem release_inv (h : Inv s live ps fs a) (ha : a ∈ ps)
    (hu : (s.slab a).used = 0) (hp : pmmFreeFrame s.pmm (a - s.vaOffset) = some p') :
    let rm := slabListRemove s.slab s.cache.partialList a
    ∃ ps', Inv { s with
      slab := rm.1
      cache := { s.cache with partialList := rm.2 }
      pmm := p'
      pages := s.pages.erase a } live ps' fs 0 := by
  intro rm
  have hpage := h.lists.mem_iff.mpr (.inl ha)
  obtain ⟨xs, hs⟩ := h.core.slab a hpage
  obtain ⟨l, r, rfl⟩ := List.append_of_mem ha
  have hnot := List.nodup_cons.mp (List.nodup_middle.mp h.lists.part.nodup)
  obtain ⟨h1, h2⟩ := slabListRemove_spec h.lists.part
  obtain ⟨-, heff⟩ := pmmFreeFrame_effect hp
  have hcore := (h.core.dropPage hs hu).withPmm heff (by
    intro b hb e
    have hba : b ≠ a := fun e => h.lists.nodup.not_mem_erase (e ▸ hb)
    have h1 := (h.core.page b (List.mem_of_mem_erase hb)).above
    have h2 := (h.core.page a hpage).above
    have e : b - s.vaOffset = a - s.vaOffset := e
    omega)
  have hS := (h.sorted.remove hnot.1).relink (c := { s.cache with partialList := rm.2 }) h2.body rfl
  refine ⟨l ++ r, ⟨h1, h.lists.full.frame h2 fun b hb hb' => h.lists.apart b hb' hb, ?_,
    h.lists.nodup.erase a⟩, hcore.relink h2.body rfl rfl, hS.part, hS.full, hS.held⟩
  have hperm : s.pages.Perm (a :: (l ++ r ++ fs ++ s.cache.held)) := by
    refine h.lists.perm.trans ?_
    rw [List.append_assoc _ fs, List.append_assoc _ fs]
    exact List.perm_middle.append_right _
  exact (List.perm_cons_erase hpage).symm.trans hperm |>.cons_inv

/-- A live object is in the page its address lies in. -/
theorem Core.live_page (h : Core s live) (hp : p ∈ live) :
    alignDown p pageSize ∈ s.pages ∧ IsSlot s.cache.objSize (alignDown p pageSize) p := by
  obtain ⟨a, ha, hslot⟩ := h.live_slot p hp
  have he := hslot.page (h.aligned ha)
  rw [he]
  exact ⟨ha, hslot⟩

/-- Freeing a live object trips no assertion. -/
theorem slabFree_inv (h : Inv s live ps fs 0) (hp : p ∈ live) :
    ∃ s', slabFree s p = some s' ∧ ∃ ps' fs', Inv s' (live.erase p) ps' fs' 0 := by
  obtain ⟨hpage, hslot⟩ := h.core.live_page hp
  obtain ⟨xs, hs⟩ := h.core.slab _ hpage
  obtain ⟨ps₁, fs₁, h₁, hmem⟩ := slabPut_inv h hpage hslot hp
  simp only [slabFree]
  rw [kassert_pos hslot.ne_zero, kassert_pos hs.owner]
  generalize slabPut s (alignDown p pageSize) p = t at h₁
  generalize alignDown p pageSize = a at *
  split
  · next hu =>
    split
    · next hh =>
      obtain ⟨ps', hI⟩ := hold_inv h₁ hmem hu hh
      exact ⟨_, rfl, ps', fs₁, hI⟩
    · next hh =>
      have hP := h₁.core.page a (h₁.lists.mem_iff.mpr (.inl hmem))
      obtain ⟨i, hi, hadr⟩ := hP.managed
      obtain ⟨p', hfree⟩ := pmmFreeFrame_total hi h₁.core.counted (hadr ▸ hP.allocated)
      rw [← hadr] at hfree
      obtain ⟨ps', hI⟩ := release_inv h₁ hmem hu hfree
      refine ⟨_, by rw [hfree]; rfl, ps', fs₁, hI⟩
  · next hu =>
    refine ⟨t, rfl, ps₁, fs₁, h₁.lists, h₁.core, fun b hb => ?_, h₁.sorted.full, h₁.sorted.held⟩
    obtain ⟨k1, k2⟩ := h₁.sorted.part b hb
    refine ⟨.inr (k1.elim (fun e => ?_) id), k2⟩
    subst e
    exact Nat.pos_of_ne_zero hu

end Zuzu.L1.Slab
