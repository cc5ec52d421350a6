import Zuzu.L3Kernel.Regions
import Zuzu.L4Loader.KernelLoad

/-!
# What the loader does with memory to spare

A segment is looked at when all before it are loaded. Apart from memory that takes only the
image: `ZxfSegment.plan` has the checks of the loader that no allocator decides (the size of the
segment, where its pages go, which regions `VmmAddRegion` accepts) and the regions that they
leave; `planned` goes over the segments.

`VmmAddRegion` computes the end of a region in 32 bits. A region whose end wraps is taken in over
its right neighbours; the others (`regular`) stay apart (`Stacked`).
-/
namespace Zuzu.L4
open Zuzu.Core Zuzu.L3

variable {m m' : Mem} {sp : SpaceId} {a : AddressSpace} {r x : Region} {rs rs' : List Region}

/-! ## Regions -/

/-- The regions after `VmmAddRegion` with room for one more. -/
def addRegion (rs : List Region) (r : Region) : Option (List Region) :=
  if r.size = 0 then none
  else
    let newEnd := (r.vaddrStart + r.size) % wordSize
    let ins := upperBound (fun x => x.vaddrStart ≤ r.vaddrStart) rs
    if ins > 0 ∧ rs[ins - 1]?.any fun x =>
        (x.vaddrStart + x.size) % wordSize > r.vaddrStart then none
    else if rs[ins]?.any fun x => newEnd > x.vaddrStart then none
    else some (insertRegion rs r)

theorem vmmAddRegion_iff {ok : Bool} (has : m.as sp = some a) (hb : r.backing = none) :
    vmmAddRegion m sp r ok = (m', true) ↔ ok = true ∧ ∃ rs, addRegion a.regions r = some rs ∧
      m' = m.setAs sp (some { a with regions := rs }) := by
  simp only [vmmAddRegion, addRegion, has, hb]
  split_ifs with h0 hleft hright hok
  · simp
  · simp
  · simp
  · simp [hok, insertRegion, insertAt, eq_comm]
  · simp [hok]

/-- Regions in the order of their starts. Each ends before the next, unless its end wraps. -/
def Stacked (rs : List Region) : Prop :=
  rs.Pairwise fun x y => x.vaddrStart ≤ y.vaddrStart ∧ (x.stop < wordSize → x.stop ≤ y.vaddrStart)

/-- The regions whose end does not wrap. -/
def regular (rs : List Region) : List Region := rs.filter fun r => r.stop < wordSize

theorem mem_regular : x ∈ regular rs ↔ x ∈ rs ∧ x.stop < wordSize := by
  simp [regular]

theorem stop_mod (h : r.stop < wordSize) : (r.vaddrStart + r.size) % wordSize = r.stop :=
  Nat.mod_eq_of_lt h

/-- The place of a region that is accepted. -/
structure Placed (rs : List Region) (r : Region) : Prop where
  before : ∀ x ∈ rs.take (insertAt rs r),
    x.vaddrStart ≤ r.vaddrStart ∧ (x.stop < wordSize → x.stop ≤ r.vaddrStart)
  behind : ∀ x ∈ rs.drop (insertAt rs r),
    r.vaddrStart ≤ x.vaddrStart ∧ (r.stop < wordSize → r.stop ≤ x.vaddrStart)

theorem Stacked.placed (h : Stacked rs) (hadd : addRegion rs r = some rs') :
    rs' = insertRegion rs r ∧ Placed rs r := by
  have hmono : rs.Pairwise fun x y => decide (y.vaddrStart ≤ r.vaddrStart) = true →
      decide (x.vaddrStart ≤ r.vaddrStart) = true :=
    h.imp fun {x y} hxy => by simp only [decide_eq_true_eq]; omega
  obtain ⟨hlen, htake, hdrop⟩ := upperBound_spec hmono
  change insertAt rs r ≤ rs.length at hlen
  change ∀ x ∈ rs.take (insertAt rs r), _ at htake
  change ∀ x ∈ rs.drop (insertAt rs r), _ at hdrop
  simp only [decide_eq_true_eq, decide_eq_false_iff_not, Nat.not_le] at htake hdrop
  unfold addRegion at hadd
  dsimp only at hadd
  rw [show upperBound _ rs = insertAt rs r from rfl] at hadd
  split_ifs at hadd with h0 hleft hright
  cases hadd
  refine ⟨rfl, ⟨fun x hx => ⟨htake x hx, fun hshort => ?_⟩,
    fun x hx => ⟨(hdrop x hx).le, fun hshort => ?_⟩⟩⟩
  · obtain ⟨j, hj, rfl⟩ := List.mem_take_iff_getElem.mp hx
    have hlt : insertAt rs r - 1 < rs.length := by omega
    rw [List.getElem?_eq_getElem hlt] at hleft
    simp only [Option.any_some, decide_eq_true_eq, not_and, Nat.not_lt] at hleft
    rcases Nat.lt_or_eq_of_le (show j ≤ insertAt rs r - 1 by omega) with hji | rfl
    · -- a region further left ends before the neighbour starts
      have hz := htake _ (List.mem_take_iff_getElem.mpr ⟨insertAt rs r - 1, by omega, rfl⟩)
      exact ((List.pairwise_iff_getElem.mp h j _ (by omega) hlt hji).2 hshort).trans hz
    · have := hleft (by omega)
      rwa [stop_mod hshort] at this
  · obtain ⟨j, hj, rfl⟩ := List.mem_drop_iff_getElem.mp hx
    have hlt : insertAt rs r < rs.length := by omega
    rw [List.getElem?_eq_getElem hlt] at hright
    simp only [Option.any_some, decide_eq_true_eq, Nat.not_lt] at hright
    rw [stop_mod hshort] at hright
    refine le_trans hright ?_
    rcases Nat.eq_zero_or_pos j with rfl | hpos
    · exact Nat.le_refl _
    · exact (List.pairwise_iff_getElem.mp h _ (insertAt rs r + j) hlt (by omega)
        (by omega)).1

theorem Stacked.insert (h : Stacked rs) (hp : Placed rs r) : Stacked (insertRegion rs r) := by
  have hs : (rs.take (insertAt rs r) ++ rs.drop (insertAt rs r)).Pairwise _ :=
    (List.take_append_drop (insertAt rs r) rs).symm ▸ h
  rw [List.pairwise_append] at hs
  refine List.pairwise_append.mpr
    ⟨hs.1, List.pairwise_cons.mpr ⟨hp.behind, hs.2.1⟩, fun x hx y hy => ?_⟩
  rcases List.mem_cons.mp hy with rfl | hy
  · exact hp.before x hx
  · exact hs.2.2 x hx y hy

/-- Regions that do not wrap are apart. -/
theorem Placed.fits (h : Placed rs r) (hr : r.stop < wordSize) : Fits (regular rs) r := by
  intro x hx
  obtain ⟨hx, hshort⟩ := mem_regular.mp hx
  rw [← List.take_append_drop (insertAt rs r) rs] at hx
  rcases List.mem_append.mp hx with hx | hx
  · exact .inl ((h.before x hx).2 hshort)
  · exact .inr ((h.behind x hx).2 hr)

theorem regular_insert (h : x ∈ regular rs) : x ∈ regular (insertRegion rs r) := by
  obtain ⟨hx, hshort⟩ := mem_regular.mp h
  exact mem_regular.mpr ⟨mem_insertRegion.mpr (.inr hx), hshort⟩

/-! ## Segments -/

variable {size page : Nat} {s : ZxfSegment}

/-- `VmmMapUserPage` takes the first `n` pages of the segment. -/
def ZxfSegment.Mappable (s : ZxfSegment) (n : Nat) : Prop :=
  0 < n → s.va % pageSize = 0 ∧ s.va + n * pageSize ≤ userVaTop ∧
    ¬(s.prot &&& protWrite ≠ 0 ∧ s.prot &&& protExec ≠ 0)

instance (s : ZxfSegment) (n : Nat) : Decidable (s.Mappable n) :=
  inferInstanceAs (Decidable (_ → _))

/-- mirrors kernel/task/kernel_load.c:199-221 -/
def ZxfSegment.addFile (s : ZxfSegment) (rs : List Region) : Option (List Region) :=
  if pagesFor s.fileSize > 0 then
    addRegion rs (segRegion s.va (pagesFor s.fileSize * pageSize % wordSize) s.prot)
  else some rs

/-- mirrors kernel/task/kernel_load.c:223-238 -/
def ZxfSegment.addBss (s : ZxfSegment) (rs : List Region) : Option (List Region) :=
  if pagesFor s.memSize > pagesFor s.fileSize then
    addRegion rs (segRegion ((s.va + pagesFor s.fileSize * pageSize) % wordSize)
      ((pagesFor s.memSize - pagesFor s.fileSize) * pageSize % wordSize) s.prot)
  else some rs

/-- The loader takes the segment to be inside the image.
mirrors kernel/task/kernel_load.c:128 -/
def ZxfSegment.Sized (size : Nat) (s : ZxfSegment) : Prop :=
  (s.fileOffset + s.fileSize) % wordSize ≤ size

instance (size : Nat) (s : ZxfSegment) : Decidable (s.Sized size) :=
  inferInstanceAs (Decidable (_ ≤ _))

/-- The regions of a space after those of the segment, if memory is all it can be refused for. -/
def ZxfSegment.plan (size : Nat) (rs : List Region) (s : ZxfSegment) : Option (List Region) :=
  if s.Sized size ∧ s.Mappable (pagesFor s.fileSize) then (s.addFile rs).bind s.addBss else none

/-- The same after the first `i` segments of the image. -/
def planned (d : Bytes) (size : Nat) (img : ZxfImage) : Nat → Option (List Region)
  | 0 => some (initialRegions userMmapBase)
  | i + 1 => (planned d size img i).bind fun rs => (img.seg d i).plan size rs

/-! ## Images that can be loaded -/

/-- What the loader can read of the segment is in the image. Each page is read before it is
mapped. -/
def ZxfSegment.ReadsInside (size : Nat) (s : ZxfSegment) : Prop :=
  s.Sized size → ∀ page < pagesFor s.fileSize, s.Mappable page →
    s.pageOffset page + s.pageBytes page ≤ size

/-- The segment is in the part of the address space that a space has. -/
def ZxfSegment.InSpace (s : ZxfSegment) : Prop :=
  s.fileSize ≤ s.memSize → 0 < s.memSize → s.va + s.memSize ≤ userVaTop

/-- The segments that can be reached are read inside the image. -/
def Guarded (d : Bytes) (size : Nat) (img : ZxfImage) : Prop :=
  ∀ i < img.segCount, (planned d size img i).isSome → (img.seg d i).ReadsInside size

/-- Of an image that the parser and the check for overlaps accept, every segment that can be
reached is read inside the image, and if all can be loaded they are in the space. -/
def ImageOk (d : Bytes) (size : Nat) : Prop :=
  ∀ img, (zxfParse d size).1 = some img → (segsApart img d (segPairs img.segCount)).1 = true →
    Guarded d size img ∧
    ((planned d size img img.segCount).isSome → ∀ i < img.segCount, (img.seg d i).InSpace)

end Zuzu.L4
