import Zuzu.L1Memory.HeapRuns

/-!
# How much a request is worth

`KMalloc` rounds a request up to 16 bytes, and `HeapGrow` adds a header and rounds to
pages, all of it on 32-bit words. From `maxRequest` on one of these sums wraps: a
request of more than 0xFFFFFFF0 bytes is rounded to 0 and is given the first free block
with a payload of 0 bytes, and a smaller one makes the heap grow by pages that cannot
hold it.

**Results.** `alloc_ample_iff`: up to `maxRequest`, and only up to there, no sum wraps
and every block handed out is as large as asked for.
-/
namespace Zuzu.L1.Heap
open Zuzu.Core Zuzu.L1.Pmm

variable {h : KHeap} {bs : List Nat} {b size nmemb : Nat}

/-- The sums of `HeapGrow`, before they are cut to 32 bits. -/
def growSums (k : Nat) : List Nat :=
  [k + hdr + minPayload, k + hdr + minPayload + (pageSize - 1), growPages k * pageSize]

/-- The sums of `KMalloc`; a second pass would grow by the same ones. -/
def kMallocSums (h : KHeap) (size : Nat) : List Nat :=
  if size = 0 then []
  else (size + (alignment - 1)) ::
    match findFit h.mem (alignUp size alignment) maxBlocks h.head with
    | some none => growSums (alignUp size alignment)
    | _ => []

/-- The product and the sums of `KCalloc`. -/
def kCallocSums (h : KHeap) (nmemb size : Nat) : List Nat :=
  if nmemb ≠ 0 ∧ size > (wordSize - 1) / nmemb then []
  else nmemb * size :: kMallocSums h (nmemb * size % wordSize)

/-- Nothing wraps, and a block that is handed out has room for `want` bytes. -/
structure Ample (want : Nat) (sums : List Nat) (res : Option (KHeap × Nat)) : Prop where
  room : ∀ h p, res = some (h, p) → p ≠ 0 → want ≤ blkSize h.mem (p - hdr)
  exact : ∀ x ∈ sums, x < wordSize

/-- Blocks lie below the direct map's end. -/
theorem Inv.size_lt (hI : Inv h bs) (hb : b ∈ bs) : blkSize h.mem b < ioremapBase := by
  have hge := hI.blocks.extent_ge hb
  have hx := (hI.owned (b + extent h.mem b - 1)
    (hI.blocks.mem_segSet hb (by omega) (by omega))).2.1
  have := hI.linear
  unfold extent hdr at *
  omega

/-- Some sum wraps as soon as the request is too large: no block fits it. -/
theorem kMallocSums_exact (hI : Inv h bs) (hs : size < wordSize) :
    (∀ x ∈ kMallocSums h size, x < wordSize) ↔ size ≤ maxRequest := by
  obtain ⟨res, hres, hsome, -⟩ := hI.findFit (alignUp size alignment)
  unfold kMallocSums
  rw [hres]
  constructor
  · intro hall
    by_contra hbig
    unfold wordSize maxRequest at *
    rw [if_neg (by omega)] at hall
    have h16 := hall _ List.mem_cons_self
    have hreq : 0xFFFFEFF0 ≤ alignUp size alignment := by
      unfold alignUp alignment wordSize at *
      omega
    cases res with
    | some b =>
      obtain ⟨hb, -, hfit⟩ := hsome b rfl
      have := hI.size_lt hb
      unfold ioremapBase at this
      omega
    | none =>
      have := hall (alignUp size alignment + hdr + minPayload + (pageSize - 1)) (by simp [growSums])
      unfold hdr minPayload pageSize at this
      omega
  · intro hle x hx
    split at hx
    · cases hx
    rename_i h0
    obtain ⟨-, -, -, hmax⟩ := alignUp_spec h0 hle
    unfold maxRequest at *
    rcases List.mem_cons.mp hx with rfl | hx
    · unfold alignment wordSize
      omega
    cases res with
    | some b => cases hx
    | none =>
      simp only [growSums, growPages, List.mem_cons, List.not_mem_nil, or_false] at hx
      unfold hdr minPayload pageSize heapGrowMinPages alignUp wordSize at *
      rcases hx with rfl | rfl | rfl
      · omega
      · omega
      · split <;> omega

theorem kMalloc_room (hI : Inv h bs) (hle : size ≤ maxRequest) {h' : KHeap} {p : Nat}
    (hm : kMalloc h size = some (h', p)) (hp : p ≠ 0) : size ≤ blkSize h'.mem (p - hdr) := by
  obtain ⟨h₁, p₁, hm₁, ⟨h0, -⟩ | ⟨bs', b, rfl, hg⟩⟩ := kMalloc_spec hI hle
  · cases hm.symm.trans hm₁
    exact absurd h0 hp
  · cases hm.symm.trans hm₁
    rw [Nat.add_sub_cancel]
    exact hg.size

/-- Clearing the payload leaves the header alone. -/
theorem kZAlloc_room (hI : Inv h bs) (hle : size ≤ maxRequest) {h' : KHeap} {p : Nat}
    (hm : kZAlloc h size = some (h', p)) (hp : p ≠ 0) : size ≤ blkSize h'.mem (p - hdr) := by
  obtain ⟨⟨h₁, q⟩, hm₁, hr⟩ := Option.map_eq_some_iff.mp hm
  split at hr
  · cases hr
    have hlt : q - hdr < q := Nat.sub_lt (Nat.pos_of_ne_zero hp) (by decide)
    have hroom := kMalloc_room hI hle hm₁ hp
    simpa [blkSize, zeroBytes, Nat.not_le.mpr hlt] using hroom
  · cases hr
    exact kMalloc_room hI hle hm₁ hp

theorem kZAlloc_ample (hI : Inv h bs) (hs : size < wordSize) :
    Ample size (kMallocSums h size) (kZAlloc h size) ↔ size ≤ maxRequest :=
  ⟨fun ha => (kMallocSums_exact hI hs).mp ha.exact,
    fun hle => ⟨fun _ _ => kZAlloc_room hI hle, (kMallocSums_exact hI hs).mpr hle⟩⟩

/-- `KCalloc` refuses the products that do not fit in 32 bits. -/
theorem kCalloc_refuses : nmemb ≠ 0 ∧ size > (wordSize - 1) / nmemb ↔ wordSize ≤ nmemb * size := by
  rcases Nat.eq_zero_or_pos nmemb with rfl | hn
  · simp [wordSize]
  · rw [gt_iff_lt, Nat.div_lt_iff_lt_mul hn, Nat.mul_comm size]
    unfold wordSize
    omega

/-- Requests of up to `maxRequest` bytes, and no others, are served without a sum that wraps and
from blocks that hold them; `KCalloc` also refuses what does not fit in 32 bits. -/
theorem alloc_ample_iff (hI : Inv h bs) (hs : size < wordSize) (nmemb : Nat) :
    (Ample size (kMallocSums h size) (kMalloc h size) ↔ size ≤ maxRequest) ∧
    (Ample size (kMallocSums h size) (kZAlloc h size) ↔ size ≤ maxRequest) ∧
    (Ample (nmemb * size) (kCallocSums h nmemb size) (kCalloc h nmemb size) ↔
      nmemb * size ≤ maxRequest ∨ wordSize ≤ nmemb * size) := by
  refine ⟨⟨fun ha => (kMallocSums_exact hI hs).mp ha.exact, fun hle =>
    ⟨fun _ _ => kMalloc_room hI hle, (kMallocSums_exact hI hs).mpr hle⟩⟩, kZAlloc_ample hI hs, ?_⟩
  unfold kCallocSums kCalloc
  simp only [kCalloc_refuses]
  split
  · rename_i hbig
    refine ⟨fun _ => .inr hbig, fun _ => ⟨fun h p hr hp => ?_, by simp⟩⟩
    cases hr
    exact absurd rfl hp
  · rename_i hfit
    rw [Nat.mod_eq_of_lt (Nat.not_le.mp hfit), or_iff_left hfit,
      ← kZAlloc_ample hI (Nat.not_le.mp hfit)]
    exact ⟨fun ha => ⟨ha.room, fun x hx => ha.exact x (List.mem_cons_of_mem _ hx)⟩,
      fun ha => ⟨ha.room, List.forall_mem_cons.mpr ⟨Nat.not_le.mp hfit, ha.exact⟩⟩⟩

theorem alloc_ample_iff_smallBoard : ∃ h : KHeap, Ample 100 (kMallocSums h 100) (kMalloc h 100) := by
  obtain ⟨h₀, h₁, hr, -⟩ :=
    smallBoard_first 100 (q := 0xC0005010) (n := 112) (by decide +kernel)
  obtain ⟨bs, hI, -⟩ := (system_inv smallBoard).reachable hr
  exact ⟨h₀, (alloc_ample_iff hI (by decide) 0).1.mpr (by decide)⟩

/-- Rounded up, 0xFFFFFFF1 is 0: the first free block is handed out, cut to 0 bytes. -/
theorem huge_request_gets_nothing : ∃ s h', (system smallBoard).Reachable s ∧
    kMalloc s.heap 0xFFFFFFF1 = some (h', 0xC0005010) ∧ blkSize h'.mem 0xC0005000 = 0 := by
  obtain ⟨h₀, h₁, hr, hm, hn⟩ :=
    smallBoard_first 0xFFFFFFF1 (q := 0xC0005010) (n := 0) (by decide +kernel)
  exact ⟨_, h₁, hr, hm, hn⟩

end Zuzu.L1.Heap
