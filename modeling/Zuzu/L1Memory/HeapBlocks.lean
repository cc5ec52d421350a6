import Zuzu.L1Memory.Heap

/-!
# The heap's block list

`Blocks h bs` is the invariant of the list: the blocks `bs` are linked in order
with `heap_tail` the last of them, every block is 16-byte aligned with a payload
that is a multiple of 16, and the blocks tile the segments the heap has grown
by. Each edit of the list (changing a state, splitting, merging, appending) has
one lemma, which also says what it keeps: `Keeps` is that every other allocated
block stays in the list with its size and its payload words.
-/
namespace Zuzu.L1.Heap
open Function Zuzu.Core Zuzu.L1.Pmm
open Function (update)

variable {m : Mem} {h h' : KHeap} {b c v : Nat} {bs bs' l r : List Nat}

/-! ## Header words -/

/-- The four words of a header. -/
structure Header where
  size : Nat
  next : Nat
  prev : Nat
  state : Nat

/-- The header at an address. -/
def hdrAt (m : Mem) (b : Nat) : Header := ⟨blkSize m b, blkNext m b, blkPrev m b, blkState m b⟩

@[simp] theorem hdrAt_size : (hdrAt m b).size = blkSize m b := rfl
@[simp] theorem hdrAt_next : (hdrAt m b).next = blkNext m b := rfl
@[simp] theorem hdrAt_prev : (hdrAt m b).prev = blkPrev m b := rfl
@[simp] theorem hdrAt_state : (hdrAt m b).state = blkState m b := rfl

section Aligned
variable (hb : b % 16 = 0) (hc : c % 16 = 0)
include hb hc

/-- A write to one header leaves every other header alone. -/
theorem hdrAt_update_of_ne {k : Nat} (hk : k < 16) (hne : c ≠ b) :
    hdrAt (update m (b + k) v) c = hdrAt m c := by
  unfold hdrAt blkSize blkNext blkPrev blkState
  rw [update_of_ne (by omega), update_of_ne (by omega),
    update_of_ne (by omega), update_of_ne (by omega)]

theorem hdrAt_setSize : hdrAt (setSize m b v) c =
    { hdrAt m c with size := if c = b then v else (hdrAt m c).size } := by
  split
  · subst c
    simp [hdrAt, setSize, blkSize, blkNext, blkPrev, blkState]
  · exact hdrAt_update_of_ne hb hc (k := 0) (by decide) ‹_›

theorem hdrAt_setNext : hdrAt (setNext m b v) c =
    { hdrAt m c with next := if c = b then v else (hdrAt m c).next } := by
  split
  · subst c
    simp [hdrAt, setNext, blkSize, blkNext, blkPrev, blkState]
  · exact hdrAt_update_of_ne hb hc (k := 4) (by decide) ‹_›

theorem hdrAt_setPrev : hdrAt (setPrev m b v) c =
    { hdrAt m c with prev := if c = b then v else (hdrAt m c).prev } := by
  split
  · subst c
    simp [hdrAt, setPrev, blkSize, blkNext, blkPrev, blkState]
  · exact hdrAt_update_of_ne hb hc (k := 8) (by decide) ‹_›

theorem hdrAt_setState : hdrAt (setState m b v) c =
    { hdrAt m c with state := if c = b then v else (hdrAt m c).state } := by
  split
  · subst c
    simp [hdrAt, setState, blkSize, blkNext, blkPrev, blkState]
  · exact hdrAt_update_of_ne hb hc (k := 12) (by decide) ‹_›

end Aligned

/-- Only words in the headers of `bs` differ. -/
def HeaderWrites (bs : List Nat) (m m' : Mem) : Prop :=
  ∀ x, (∀ b ∈ bs, x < b ∨ b + 16 ≤ x) → m' x = m x

theorem HeaderWrites.refl (bs : List Nat) (m : Mem) : HeaderWrites bs m m := fun _ _ => rfl

/-- One more word of a header is written. -/
theorem HeaderWrites.set {m' : Mem} (h : HeaderWrites bs m m') (k : Nat) (hb : b ∈ bs)
    (hk : k < 16 := by decide) : HeaderWrites bs m (update m' (b + k) v) := by
  intro x hx
  have := hx b hb
  rw [update_of_ne (by omega), h x hx]

/-! ## The invariant of the list -/

/-- The bytes of the segments. -/
def segSet (segs : List (Nat × Nat)) : Set Nat := {x | ∃ s ∈ segs, s.1 ≤ x ∧ x < s.1 + s.2}

/-- Bytes that a block takes up. -/
def extent (m : Mem) (b : Nat) : Nat := hdr + blkSize m b

/-- A block of the list. -/
structure BlockShape (m : Mem) (b : Nat) : Prop where
  aligned : b % 16 = 0
  size_mod : blkSize m b % 16 = 0
  size_ge : 16 ≤ blkSize m b
  state : blkState m b = kblockFree ∨ blkState m b = kblockAllocated

theorem BlockShape.congr {m' : Mem} (hs : BlockShape m b)
    (h : blkSize m' b = blkSize m b ∧ blkState m' b = blkState m b) : BlockShape m' b :=
  ⟨hs.aligned, h.1 ▸ hs.size_mod, h.1 ▸ hs.size_ge, h.2 ▸ hs.state⟩

/-- The block list of `h` is `bs`. -/
structure Blocks (h : KHeap) (bs : List Nat) : Prop where
  list : IsDList 0 (blkNext h.mem) (blkPrev h.mem) h.head bs
  tail : h.tail = bs.getLastD 0
  shape : ∀ b ∈ bs, BlockShape h.mem b
  tiles : Tiles (extent h.mem) bs (segSet h.segs)

/-- Every allocated block but `x` is still there, with its size and its payload. -/
def Keeps (h : KHeap) (bs : List Nat) (x : Nat) (h' : KHeap) (bs' : List Nat) : Prop :=
  ∀ c ∈ bs, c ≠ x → blkState h.mem c = kblockAllocated → c ∈ bs' ∧
    blkState h'.mem c = kblockAllocated ∧ blkSize h'.mem c = blkSize h.mem c ∧
    ∀ w, c + 16 ≤ w → w < c + 16 + blkSize h.mem c → h'.mem w = h.mem w

theorem Keeps.trans {h'' : KHeap} {bs'' : List Nat} {x : Nat} (hk : Keeps h bs x h' bs')
    (hk' : Keeps h' bs' x h'' bs'') : Keeps h bs x h'' bs'' := by
  intro c hc hx hs
  obtain ⟨h1, h2, h3, h4⟩ := hk c hc hx hs
  obtain ⟨k1, k2, k3, k4⟩ := hk' c h1 hx h2
  refine ⟨k1, k2, k3.trans h3, fun w hw1 hw2 => ?_⟩
  rw [k4 w hw1 (by rw [h3]; exact hw2), h4 w hw1 hw2]

/-- Header writes never reach the payload of a block of the list. -/
theorem Blocks.keeps_payload (hB : Blocks h' bs') (hw : HeaderWrites bs' h.mem h'.mem)
    (hc : c ∈ bs') {w : Nat} (h1 : c + 16 ≤ w) (h2 : w < c + 16 + blkSize h'.mem c) :
    h'.mem w = h.mem w := by
  refine hw w fun b hb => ?_
  by_cases hbc : b = c
  · subst hbc
    exact .inr h1
  · have := hB.tiles.apart hb hc hbc
    unfold Apart extent hdr at this
    omega

/-- What an edit keeps, from the headers it leaves alone. -/
theorem Blocks.keeps {x : Nat} (hB : Blocks h' bs') (hw : HeaderWrites bs' h.mem h'.mem)
    (hh : ∀ c ∈ bs, c ≠ x → blkState h.mem c = kblockAllocated → c ∈ bs' ∧
      blkState h'.mem c = kblockAllocated ∧ blkSize h'.mem c = blkSize h.mem c) :
    Keeps h bs x h' bs' := by
  intro c hc hx hs
  obtain ⟨h1, h2, h3⟩ := hh c hc hx hs
  exact ⟨h1, h2, h3, fun w hw1 hw2 => hB.keeps_payload hw h1 hw1 (by rw [h3]; exact hw2)⟩

/-! ## Changing a state -/

theorem setState_blocks (hB : Blocks h bs) (hb : b ∈ bs)
    (hv : v = kblockFree ∨ v = kblockAllocated) :
    Blocks { h with mem := setState h.mem b v } bs ∧
    Keeps h bs b { h with mem := setState h.mem b v } bs ∧
    blkState (setState h.mem b v) b = v ∧ blkSize (setState h.mem b v) b = blkSize h.mem b := by
  have hal := (hB.shape b hb).aligned
  have key : ∀ c ∈ bs, hdrAt (setState h.mem b v) c =
      { hdrAt h.mem c with state := if c = b then v else blkState h.mem c } :=
    fun c hc => hdrAt_setState hal (hB.shape c hc).aligned
  have hsize : ∀ c ∈ bs, blkSize (setState h.mem b v) c = blkSize h.mem c :=
    fun c hc => congrArg Header.size (key c hc)
  have hstate : ∀ c ∈ bs, blkState (setState h.mem b v) c =
      if c = b then v else blkState h.mem c := fun c hc => congrArg Header.state (key c hc)
  have hB' : Blocks { h with mem := setState h.mem b v } bs := by
    refine ⟨hB.list.congr (fun c hc => congrArg Header.next (key c hc))
      fun c hc => congrArg Header.prev (key c hc), hB.tail, fun c hc => ?_, ?_⟩
    · have hs := hB.shape c hc
      refine ⟨hs.aligned, by rw [hsize c hc]; exact hs.size_mod,
        by rw [hsize c hc]; exact hs.size_ge, ?_⟩
      rw [hstate c hc]
      split
      · exact hv
      · exact hs.state
    · exact hB.tiles.congr fun c hc => congrArg (hdr + ·) (hsize c hc)
  refine ⟨hB', hB'.keeps ((HeaderWrites.refl _ _).set 12 hb) fun c hc hx hs => ?_, ?_, hsize b hb⟩
  · refine ⟨hc, ?_, hsize c hc⟩
    show blkState (setState h.mem b v) c = _
    rw [hstate c hc, if_neg hx, hs]
  · rw [hstate b hb, if_pos rfl]

theorem mem_middle : c ∈ l ++ b :: r ↔ c = b ∨ c ∈ l ++ r := by
  simp [or_left_comm]

theorem mem_after {n : Nat} : c ∈ l ++ b :: n :: r ↔ c = n ∨ c ∈ l ++ b :: r := by
  simp only [mem_middle, or_left_comm]

theorem ne_of_mem_sides (h : (l ++ b :: r).Nodup) (hc : c ∈ l ++ r) : c ≠ b := by
  intro e
  subst e
  exact (List.nodup_cons.mp (List.nodup_middle.mp h)).1 hc

/-- A free block is none of the allocated ones. -/
theorem ne_of_free (hb : blkState m b = kblockFree) (hc : blkState m c = kblockAllocated) :
    c ≠ b := by
  rintro rfl
  exact absurd (hb.symm.trans hc) (by decide)

/-! ## Splitting -/

theorem Blocks.next_eq (hB : Blocks h (l ++ b :: r)) : blkNext h.mem b = r.headD 0 :=
  (seg_append.mp hB.list.seg).2.2.1

/-- An edit at `b` that puts `x` in its place moves the tail only if `b` is the last block. -/
theorem Blocks.tail_edit (hB : Blocks h (l ++ b :: r)) (l' : List Nat) (x : Nat) :
    (if blkNext h.mem b ≠ 0 then h.tail else x) = (l' ++ x :: r).getLastD 0 := by
  rw [hB.tail, hB.next_eq]
  cases r with
  | nil => simp
  | cons a r =>
    have ha : a ≠ 0 := fun e => hB.list.null_notMem (by simp [e])
    simp [ha, List.getLast?_cons]

/-- The successor of a block is another block or none. -/
theorem Blocks.next_aligned (hB : Blocks h bs) (hb : b ∈ bs) : blkNext h.mem b % 16 = 0 := by
  rcases hB.list.next_mem hb with h0 | hm
  · rw [h0]
  · exact (hB.shape _ hm).aligned

variable {req : Nat}

/-- The memory after a split, as one sequence of header writes. -/
def splitMem (m : Mem) (b req : Nat) : Mem :=
  let n := b + hdr + req
  let nx := blkNext m b
  let m' := setState (setSize m n (alignDown (blkSize m b - req - hdr) alignment)) n kblockFree
  let m' := setPrev (setNext m' n nx) n b
  let m' := if nx ≠ 0 then setPrev m' nx n else m'
  setSize (setNext m' b n) b req

theorem splitBlock_eq (hb : b % 16 = 0) (hreq : req % 16 = 0) :
    splitBlock h b req = { h with
      mem := splitMem h.mem b req
      tail := if blkNext h.mem b ≠ 0 then h.tail else b + hdr + req } := by
  have hn16 : (b + hdr + req) % 16 = 0 := by unfold hdr; omega
  have hne : b ≠ b + hdr + req := by unfold hdr; omega
  have e1 : ∀ (m : Mem) v w, blkNext (setState (setSize m (b + hdr + req) v) (b + hdr + req) w) b =
      blkNext m b := fun m v w =>
    (congrArg Header.next (hdrAt_setState hn16 hb)).trans
      (congrArg Header.next (hdrAt_setSize hn16 hb))
  have e2 : ∀ (m : Mem) v w, blkNext (setPrev (setNext m (b + hdr + req) v) (b + hdr + req) w) b =
      blkNext m b := fun m v w =>
    (congrArg Header.next (hdrAt_setPrev hn16 hb)).trans
      ((congrArg Header.next (hdrAt_setNext hn16 hb)).trans (if_neg hne))
  simp only [splitBlock, splitMem, e1, e2]
  split <;> rfl

/-- The headers after a split. -/
theorem splitMem_hdrAt (hb : b % 16 = 0) (hreq : req % 16 = 0) (hnx : blkNext m b % 16 = 0)
    (hc : c % 16 = 0) :
    let n := b + hdr + req
    hdrAt (splitMem m b req) c =
      ⟨update (update (blkSize m) n (alignDown (blkSize m b - req - hdr) alignment)) b req c,
        update (update (blkNext m) n (blkNext m b)) b n c,
        (if blkNext m b ≠ 0 then update (update (blkPrev m) n b) (blkNext m b) n
          else update (blkPrev m) n b) c,
        update (blkState m) n kblockFree c⟩ := by
  have hn : (b + hdr + req) % 16 = 0 := by unfold hdr; omega
  simp only [splitMem]
  split <;>
    simp only [hdrAt_setSize hb hc, hdrAt_setNext hb hc, hdrAt_setPrev hnx hc, hdrAt_setPrev hn hc,
      hdrAt_setNext hn hc, hdrAt_setState hn hc, hdrAt_setSize hn hc, update_apply] <;>
    rfl

theorem splitMem_writes (hb : b ∈ bs)
    (hn : b + hdr + req ∈ bs) (hnx : blkNext m b = 0 ∨ blkNext m b ∈ bs) :
    HeaderWrites bs m (splitMem m b req) := by
  simp only [splitMem]
  split
  · rename_i h0
    exact (((((((HeaderWrites.refl bs m).set 0 hn).set 12 hn).set 4 hn).set 8 hn).set 8
      (hnx.resolve_left h0)).set 4 hb).set 0 hb
  · exact ((((((HeaderWrites.refl bs m).set 0 hn).set 12 hn).set 4 hn).set 8 hn).set 4 hb).set 0 hb

/-- An address inside a block is no block itself. -/
theorem Blocks.inside_notMem (hB : Blocks h bs) (hb : b ∈ bs) (hn : b < c)
    (hlt : c < b + extent h.mem b) : c ∉ bs := by
  intro hm
  have := hB.tiles.apart hb hm (by omega)
  unfold Apart at this
  omega

section Split
variable (hB : Blocks h (l ++ b :: r)) (hreq : req % 16 = 0) (hr16 : 16 ≤ req)
  (hle : req + 47 ≤ blkSize h.mem b)
include hB hreq hr16 hle

theorem Blocks.split_notMem : b + hdr + req ∉ l ++ b :: r :=
  hB.inside_notMem (b := b) (by simp) (by unfold hdr; omega) (by unfold extent; omega)

theorem Blocks.split_list :
    IsDList 0 (blkNext (splitMem h.mem b req)) (blkPrev (splitMem h.mem b req)) h.head
      (l ++ b :: (b + hdr + req) :: r) := by
  have hal := (hB.shape b (by simp)).aligned
  have key : ∀ c ∈ l ++ b :: (b + hdr + req) :: r, _ := fun c hc =>
    splitMem_hdrAt hal hreq (hB.next_aligned (b := b) (by simp)) (c := c) (by
      rcases mem_after.mp hc with rfl | hc
      · unfold hdr
        omega
      · exact (hB.shape c hc).aligned)
  exact (hB.list.insertAfter (by unfold hdr; omega) (hB.split_notMem hreq hr16 hle)).congr
    (fun c hc => congrArg Header.next (key c hc)) fun c hc => congrArg Header.prev (key c hc)

/-- The sizes and states after a split. -/
theorem Blocks.split_sizes :
    (blkSize (splitMem h.mem b req) b = req ∧
      blkState (splitMem h.mem b req) b = blkState h.mem b) ∧
    (blkSize (splitMem h.mem b req) (b + hdr + req) = blkSize h.mem b - req - hdr ∧
      blkState (splitMem h.mem b req) (b + hdr + req) = kblockFree) ∧
    ∀ c ∈ l ++ r, blkSize (splitMem h.mem b req) c = blkSize h.mem c ∧
      blkState (splitMem h.mem b req) c = blkState h.mem c := by
  have hsh := hB.shape b (by simp)
  have hal := hsh.aligned
  have hsz := hsh.size_mod
  have hne : b + hdr + req ≠ b := by unfold hdr; omega
  have hd : alignDown (blkSize h.mem b - req - hdr) alignment = blkSize h.mem b - req - hdr := by
    unfold alignDown alignment hdr
    omega
  have key : ∀ c, c % 16 = 0 → _ := fun c => splitMem_hdrAt (c := c) hal hreq
    (hB.next_aligned (b := b) (by simp))
  have hb := key b hal
  have hn := key (b + hdr + req) (by unfold hdr; omega)
  simp only [hdrAt, Header.mk.injEq, update_self, update_of_ne hne, update_of_ne hne.symm, hd]
    at hb hn
  refine ⟨⟨hb.1, hb.2.2.2⟩, ⟨hn.1, hn.2.2.2⟩, fun c hc => ?_⟩
  have hold : c ∈ l ++ b :: r := mem_middle.mpr (.inr hc)
  have hcb : c ≠ b := ne_of_mem_sides hB.list.nodup hc
  have hcn : c ≠ b + hdr + req := fun e => hB.split_notMem hreq hr16 hle (e ▸ hold)
  have hk := key c (hB.shape c hold).aligned
  simp only [hdrAt, Header.mk.injEq, update_of_ne hcb, update_of_ne hcn] at hk
  exact ⟨hk.1, hk.2.2.2⟩

/-- Splitting a free block in two. -/
theorem splitBlock_blocks (hfree : blkState h.mem b = kblockFree) :
    Blocks (splitBlock h b req) (l ++ b :: (b + hdr + req) :: r) ∧
    Keeps h (l ++ b :: r) 0 (splitBlock h b req) (l ++ b :: (b + hdr + req) :: r) ∧
    blkState (splitBlock h b req).mem b = kblockFree ∧
    blkSize (splitBlock h b req).mem b = req := by
  have hsh := hB.shape b (by simp)
  have hal := hsh.aligned
  have hsz := hsh.size_mod
  obtain ⟨⟨hbsize, hbstate⟩, ⟨hnsize, hnstate⟩, hother⟩ := hB.split_sizes hreq hr16 hle
  rw [hfree] at hbstate
  rw [splitBlock_eq hal hreq]
  have htail : (if blkNext h.mem b ≠ 0 then h.tail else b + hdr + req) =
      (l ++ b :: (b + hdr + req) :: r).getLastD 0 := by
    simpa using hB.tail_edit (l ++ [b]) (b + hdr + req)
  have hshape : ∀ c ∈ l ++ b :: (b + hdr + req) :: r, BlockShape (splitMem h.mem b req) c := by
    intro c hc
    rw [mem_middle, mem_middle] at hc
    rcases hc with rfl | rfl | hc'
    · exact ⟨hal, by omega, by omega, .inl hbstate⟩
    · unfold hdr at *
      exact ⟨by omega, by omega, by omega, .inl hnstate⟩
    · exact (hB.shape c (mem_middle.mpr (.inr hc'))).congr (hother c hc')
  have htiles : Tiles (extent (splitMem h.mem b req)) (l ++ b :: (b + hdr + req) :: r)
      (segSet h.segs) := by
    refine hB.tiles.cut (by unfold hdr; omega) ?_ ?_ ?_ fun c hc => ?_
    · unfold extent hdr; omega
    · unfold extent; omega
    · unfold extent; rw [hnsize]; unfold hdr; omega
    · unfold extent
      rw [(hother c hc).1]
  have hB' : Blocks { h with
        mem := splitMem h.mem b req
        tail := if blkNext h.mem b ≠ 0 then h.tail else b + hdr + req }
      (l ++ b :: (b + hdr + req) :: r) :=
    ⟨hB.split_list hreq hr16 hle, htail, hshape, htiles⟩
  refine ⟨hB', hB'.keeps (splitMem_writes (by simp) (by simp) ((hB.list.next_mem
    (by simp)).imp_right fun hm => mem_after.mpr (.inr hm))) fun c hc _ hs => ?_, hbstate, hbsize⟩
  obtain ⟨h1, h2⟩ := hother c ((mem_middle.mp hc).resolve_left (ne_of_free hfree hs))
  exact ⟨mem_after.mpr (.inr hc), h2.trans hs, h1⟩

end Split

/-! ## Merging -/

/-- The memory after a merge of `b` with its successor `n`. -/
def mergeMem (m : Mem) (b n : Nat) : Mem :=
  let nn := blkNext m n
  let m' := setNext (setSize m b (blkSize m b + (hdr + blkSize m n))) b nn
  if nn ≠ 0 then setPrev m' nn b else m'

variable {n : Nat}

theorem mergeMem_writes (hb : b ∈ bs) (hnn : blkNext m n = 0 ∨ blkNext m n ∈ bs) :
    HeaderWrites bs m (mergeMem m b n) := by
  simp only [mergeMem]
  split
  · rename_i h0
    exact (((HeaderWrites.refl bs m).set 0 hb).set 4 hb).set 8 (hnn.resolve_left h0)
  · exact ((HeaderWrites.refl bs m).set 0 hb).set 4 hb

/-- What `HeapMerge` does to a block: nothing, or it takes in the free block behind it. -/
theorem heapMerge_cases (hB : Blocks h bs) (hb : b ∈ bs) :
    heapMerge h b = h ∨ ∃ l r n, bs = l ++ b :: n :: r ∧ blkState h.mem n = kblockFree ∧
      b + extent h.mem b = n ∧ heapMerge h b = { h with
        mem := mergeMem h.mem b n
        tail := if blkNext h.mem n ≠ 0 then h.tail else b } := by
  obtain ⟨l, r, rfl⟩ := List.append_of_mem hb
  have hnext := hB.next_eq
  simp only [heapMerge]
  split
  · exact .inl rfl
  rename_i hn
  split
  · exact .inl rfl
  obtain ⟨hn0, hnfree⟩ := not_or.mp hn
  cases r with
  | nil => exact absurd hnext hn0
  | cons n r =>
    simp only [List.headD_cons] at hnext
    have hkeep : blkNext (setSize h.mem b (blkSize h.mem b + (hdr + blkSize h.mem n))) n =
        blkNext h.mem n :=
      congrArg Header.next (hdrAt_setSize (hB.shape b hb).aligned (hB.shape n (by simp)).aligned)
    refine .inr ⟨l, r, n, rfl, not_not.mp (hnext ▸ hnfree), ?_, ?_⟩
    · unfold extent
      rw [← hnext]
      omega
    · rw [hnext, hkeep]
      simp only [mergeMem]
      split <;> rfl

section Merge
variable (hB : Blocks h (l ++ b :: n :: r))
include hB

/-- The headers after a merge. -/
theorem Blocks.merge_hdrAt (hc : c ∈ l ++ b :: n :: r) : hdrAt (mergeMem h.mem b n) c =
    ⟨update (blkSize h.mem) b (blkSize h.mem b + (hdr + blkSize h.mem n)) c,
      update (blkNext h.mem) b (blkNext h.mem n) c,
      (if blkNext h.mem n ≠ 0 then update (blkPrev h.mem) (blkNext h.mem n) b
        else blkPrev h.mem) c,
      blkState h.mem c⟩ := by
  have hb := (hB.shape b (by simp)).aligned
  have hnn := hB.next_aligned (b := n) (by simp)
  replace hc := (hB.shape c hc).aligned
  simp only [mergeMem]
  split <;>
    simp only [hdrAt_setPrev hnn hc, hdrAt_setNext hb hc, hdrAt_setSize hb hc, update_apply] <;>
    rfl

theorem Blocks.merge_list :
    IsDList 0 (blkNext (mergeMem h.mem b n)) (blkPrev (mergeMem h.mem b n)) h.head
      (l ++ b :: r) := by
  have hprev : blkPrev h.mem n = b := (seg_append.mp hB.list.seg).2.2.2.1
  have hb0 : b ≠ 0 := fun e => hB.list.null_notMem (by simp [e])
  have hlist : IsDList 0 (blkNext h.mem) (blkPrev h.mem) h.head ((l ++ [b]) ++ n :: r) := by
    simpa using hB.list
  have hun := hlist.unlink
  rw [hprev, if_pos hb0, if_pos hb0, List.append_assoc] at hun
  exact hun.congr (fun c hc => congrArg Header.next (hB.merge_hdrAt (mem_after.mpr (.inr hc))))
    fun c hc => congrArg Header.prev (hB.merge_hdrAt (mem_after.mpr (.inr hc)))

end Merge

/-- Merging a free block with its successor, if that is free and adjacent. -/
theorem heapMerge_blocks (hB : Blocks h bs) (hb : b ∈ bs) (hfree : blkState h.mem b = kblockFree) :
    ∃ bs', Blocks (heapMerge h b) bs' ∧ Keeps h bs 0 (heapMerge h b) bs' ∧ b ∈ bs' ∧
      blkState (heapMerge h b).mem b = kblockFree ∧ bs'.Sublist bs := by
  rcases heapMerge_cases hB hb with hm | ⟨l, r, n, rfl, hnfree, hadj, hm⟩
  · rw [hm]
    exact ⟨bs, hB, fun c hc _ hs => ⟨hc, hs, rfl, fun _ _ _ => rfl⟩, hb, hfree, .refl _⟩
  rw [hm]
  have hB₂ : Blocks h ((l ++ [b]) ++ n :: r) := by simpa using hB
  have hnext := hB₂.next_eq
  have hbs := hB.shape b (by simp)
  have hns := hB.shape n (by simp)
  have hself := hB.merge_hdrAt (c := b) (by simp)
  simp only [hdrAt, Header.mk.injEq, update_self] at hself
  obtain ⟨hbsize, -, -, hbstate⟩ := hself
  rw [hfree] at hbstate
  have hother : ∀ c ∈ l ++ r, blkSize (mergeMem h.mem b n) c = blkSize h.mem c ∧
      blkState (mergeMem h.mem b n) c = blkState h.mem c := by
    intro c hc
    have hk := hB.merge_hdrAt (mem_after.mpr (.inr (mem_middle.mpr (.inr hc))))
    have hcb : c ≠ b := ne_of_mem_sides hB.list.nodup (mem_middle.mpr (.inr hc))
    simp only [hdrAt, Header.mk.injEq, update_of_ne hcb] at hk
    exact ⟨hk.1, hk.2.2.2⟩
  have hshape : ∀ c ∈ l ++ b :: r, BlockShape (mergeMem h.mem b n) c := by
    intro c hc
    rcases mem_middle.mp hc with rfl | hc'
    · have h1 := hbs.size_mod
      have h2 := hns.size_mod
      unfold hdr at hbsize
      exact ⟨hbs.aligned, by omega, by omega, .inl hbstate⟩
    · exact (hB.shape c (mem_after.mpr (.inr hc))).congr (hother c hc')
  have htiles : Tiles (extent (mergeMem h.mem b n)) (l ++ b :: r) (segSet h.segs) := by
    refine hB.tiles.join hadj ?_ fun c hc => ?_
    · unfold extent
      omega
    · unfold extent
      rw [(hother c hc).1]
  have hB' : Blocks { h with
        mem := mergeMem h.mem b n
        tail := if blkNext h.mem n ≠ 0 then h.tail else b } (l ++ b :: r) :=
    ⟨hB.merge_list, hB₂.tail_edit l b, hshape, htiles⟩
  refine ⟨l ++ b :: r, hB', hB'.keeps (mergeMem_writes (by simp) ?_) ?_, by simp, hbstate, by simp⟩
  · rw [hnext]
    cases r with
    | nil => exact .inl rfl
    | cons a r => exact .inr (by simp)
  · intro c hc _ hs
    rw [mem_middle, mem_middle] at hc
    have hc' := (hc.resolve_left (ne_of_free hfree hs)).resolve_left (ne_of_free hnfree hs)
    obtain ⟨h1, h2⟩ := hother c hc'
    exact ⟨mem_middle.mpr (.inr hc'), h2.trans hs, h1⟩

/-! ## Growing -/

/-- The memory after a block of `n` bytes at `b` is set up and appended. -/
def growMem (m : Mem) (head tail b n : Nat) : Mem :=
  let m' := setState (setSize m b (alignDown (n - hdr) alignment)) b kblockFree
  let m' := setPrev (setNext m' b 0) b 0
  let m' := setPrev (setNext m' b 0) b tail
  if head = 0 then m' else setNext m' tail b

/-- A heap with one more segment, of `n` bytes at the physical address `pa`. -/
def grown (h : KHeap) (pmm : PmmState) (pa n : Nat) : KHeap :=
  let va := pa + h.vaOffset
  { h with
    pmm
    mem := growMem h.mem h.head h.tail va n
    head := if h.head = 0 then va else h.head
    tail := va
    startPa := if h.startPa = 0 ∨ pa < h.startPa then pa else h.startPa
    startVa := if h.startPa = 0 ∨ pa < h.startPa then va else h.startVa
    endPa := if pa + n > h.endPa then pa + n else h.endPa
    endVa := if pa + n > h.endPa then va + n else h.endVa
    segs := h.segs ++ [(va, n)] }

theorem heapGrow_cases {k : Nat} {ok : Bool} (hg : heapGrow h k = some (h', ok)) :
    ∃ p' pa, pmmAllocFramesContig h.pmm (growPages k) = some (p', pa) ∧
      ((pa = 0 ∧ ok = false ∧ h' = { h with pmm := p' }) ∨
        (pa ≠ 0 ∧ ok = true ∧ h' = grown h p' pa (growPages k * pageSize))) := by
  simp only [heapGrow] at hg
  obtain ⟨⟨p', pa⟩, hp, hg⟩ := Option.map_eq_some_iff.mp hg
  refine ⟨p', pa, hp, ?_⟩
  split at hg
  · rename_i h0
    cases hg
    exact .inl ⟨h0, rfl, rfl⟩
  · rename_i h0
    cases hg
    refine .inr ⟨h0, rfl, ?_⟩
    simp only [heapAppendBlk, grown, growMem]
    split <;> rfl

variable {n : Nat}

theorem growMem_writes {head tail : Nat} (hb : b ∈ bs) (ht : head ≠ 0 → tail ∈ bs) :
    HeaderWrites bs m (growMem m head tail b n) := by
  simp only [growMem]
  split
  · exact ((((((HeaderWrites.refl bs m).set 0 hb).set 12 hb).set 4 hb).set 8 hb).set 4 hb).set 8 hb
  · rename_i h0
    exact (((((((HeaderWrites.refl bs m).set 0 hb).set 12 hb).set 4 hb).set 8 hb).set 4 hb).set 8
      hb).set 4 (ht h0)

theorem segSet_append {segs : List (Nat × Nat)} :
    segSet (segs ++ [(b, n)]) = segSet segs ∪ {x | b ≤ x ∧ x < b + n} := by
  ext x
  simp only [segSet, Set.mem_ofPred_eq, Set.mem_union, List.mem_append, List.mem_singleton,
    or_and_right, exists_or, exists_eq_left]

/-- The head of the list is null when the list is empty, and only then. -/
theorem Blocks.head_eq_zero (hB : Blocks h bs) : h.head = 0 ↔ bs = [] := by
  rw [hB.list.head_eq]
  cases bs with
  | nil => simp
  | cons a bs =>
    have ha : a ≠ 0 := fun e => hB.list.null_notMem (by simp [e])
    simp [ha]

theorem Blocks.tail_mem (hB : Blocks h bs) (hh : h.head ≠ 0) : h.tail ∈ bs := by
  rw [hB.tail]
  rcases List.eq_nil_or_concat bs with rfl | ⟨l, a, rfl⟩
  · exact absurd (hB.head_eq_zero.mpr rfl) hh
  · rw [List.concat_eq_append, List.getLastD_concat]
    simp

section Grow
variable (p' : PmmState) {pa : Nat} (hB : Blocks h bs) (hva : b = pa + h.vaOffset)
  (hal : b % 16 = 0) (h0 : b ≠ 0) (hn16 : n % 16 = 0) (hn : 32 ≤ n)
  (hout : ∀ x ∈ segSet h.segs, ¬(b ≤ x ∧ x < b + n))
include hB

include hn hout in
theorem Blocks.grow_notMem : b ∉ bs := by
  intro hm
  have hpos := hB.tiles.pos b hm
  exact hout b ((hB.tiles.cover b).mpr ⟨b, hm, le_rfl, by omega⟩) ⟨le_rfl, by omega⟩

include hal in
/-- The headers after growing. -/
theorem Blocks.grow_hdrAt (hc : c ∈ bs ++ [b]) : hdrAt (growMem h.mem h.head h.tail b n) c =
    ⟨update (blkSize h.mem) b (alignDown (n - hdr) alignment) c,
      (if h.head ≠ 0 then update (update (blkNext h.mem) b 0) h.tail b
        else update (blkNext h.mem) b 0) c,
      update (blkPrev h.mem) b h.tail c, update (blkState h.mem) b kblockFree c⟩ := by
  have htail : h.tail % 16 = 0 := by
    rw [hB.tail]
    rcases List.eq_nil_or_concat bs with rfl | ⟨l, a, rfl⟩
    · rfl
    · rw [List.concat_eq_append, List.getLastD_concat]
      exact (hB.shape a (by simp)).aligned
  have hcal : c % 16 = 0 := by
    rcases List.mem_append.mp hc with hc | hc
    · exact (hB.shape c hc).aligned
    · rw [List.mem_singleton.mp hc]
      exact hal
  simp only [growMem, ite_not]
  split <;>
    simp only [hdrAt_setNext htail hcal, hdrAt_setPrev hal hcal, hdrAt_setNext hal hcal,
      hdrAt_setState hal hcal, hdrAt_setSize hal hcal, update_apply] <;>
    by_cases hcb : c = b <;> simp [hcb]

include hal h0 hn hout in
theorem Blocks.grow_list :
    IsDList 0 (blkNext (growMem h.mem h.head h.tail b n))
      (blkPrev (growMem h.mem h.head h.tail b n)) (if h.head = 0 then b else h.head)
      (bs ++ [b]) := by
  have happ := hB.list.append h0 (hB.grow_notMem hn hout)
  rw [← hB.tail, ite_not _ h.head] at happ
  exact happ.congr (fun c hc => congrArg Header.next (hB.grow_hdrAt hal hc))
    fun c hc => congrArg Header.prev (hB.grow_hdrAt hal hc)

include hal hn hout in
/-- The sizes and states after growing. -/
theorem Blocks.grow_other (hc : c ∈ bs) :
    blkSize (growMem h.mem h.head h.tail b n) c = blkSize h.mem c ∧
    blkState (growMem h.mem h.head h.tail b n) c = blkState h.mem c := by
  have hcb : c ≠ b := fun e => hB.grow_notMem hn hout (e ▸ hc)
  have hk := hB.grow_hdrAt (n := n) hal (List.mem_append_left _ hc)
  simp only [hdrAt, Header.mk.injEq, update_of_ne hcb] at hk
  exact ⟨hk.1, hk.2.2.2⟩

include hva hal h0 hn16 hn hout in
/-- Growing by a segment that meets no other. -/
theorem grown_blocks :
    Blocks (grown h p' pa n) (bs ++ [b]) ∧ Keeps h bs 0 (grown h p' pa n) (bs ++ [b]) ∧
    blkState (grown h p' pa n).mem b = kblockFree ∧ blkSize (grown h p' pa n).mem b = n - hdr := by
  have hd : alignDown (n - hdr) alignment = n - hdr := by
    unfold alignDown alignment hdr
    omega
  have hself := hB.grow_hdrAt (n := n) hal (c := b) (by simp)
  simp only [hdrAt, Header.mk.injEq, update_self, hd] at hself
  obtain ⟨hsize, -, -, hstate⟩ := hself
  have hshape : ∀ c ∈ bs ++ [b], BlockShape (growMem h.mem h.head h.tail b n) c := by
    intro c hc
    have hsplit : c = b ∨ c ∈ bs := by simpa [or_comm] using hc
    rcases hsplit with rfl | hc'
    · unfold hdr at hsize
      exact ⟨hal, by omega, by omega, .inl hstate⟩
    · exact (hB.shape c hc').congr (hB.grow_other hal hn hout hc')
  have hext : extent (growMem h.mem h.head h.tail b n) b = n := by
    unfold extent
    rw [hsize]
    unfold hdr
    omega
  have htiles : Tiles (extent (growMem h.mem h.head h.tail b n)) (bs ++ [b])
      (segSet (h.segs ++ [(b, n)])) := by
    have hold : Tiles (extent (growMem h.mem h.head h.tail b n)) bs (segSet h.segs) :=
      hB.tiles.congr fun c hc => by
        unfold extent
        rw [(hB.grow_other hal hn hout hc).1]
    have := hold.add (a := b) (by omega) (by rwa [hext])
    rwa [hext, ← segSet_append] at this
  subst hva
  have hB' : Blocks (grown h p' pa n) (bs ++ [pa + h.vaOffset]) :=
    ⟨hB.grow_list hal h0 hn hout, by simp [grown], hshape, htiles⟩
  refine ⟨hB', hB'.keeps (growMem_writes (by simp) ?_) fun c hc _ hs => ?_, hstate, hsize⟩
  · exact fun hh => List.mem_append_left _ (hB.tail_mem hh)
  · obtain ⟨h1, h2⟩ := hB.grow_other hal hn hout hc
    exact ⟨by simp [hc], h2.trans hs, h1⟩

end Grow

end Zuzu.L1.Heap
