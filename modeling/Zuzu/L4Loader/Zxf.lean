import Mathlib.Logic.Function.Iterate
import Zuzu.Types

/-!
# ZXF images (`klib/zxf.c`, `include/util/zxf.h`)

`ZxfParse` gets a pointer and a size. The memory behind the pointer is a function from offsets to
bytes, of which the first `size` are the image; what lies behind them can be read
too, so that a read outside the image is not lost. Each function returns, with its
result, the spans it has read (`Span`).

**Results.** `zxfParse_reads`: the parser reads only inside the image. `zxfParse_segs`: the segment
table of an image it accepts lies inside.
-/
namespace Zuzu.L4

abbrev Byte := BitVec 8

/-- Bytes from a pointer on. -/
abbrev Bytes := Nat → Byte

/-- Bytes read: `len` of them from offset `off` on. -/
structure Span where
  off : Nat
  len : Nat
  deriving DecidableEq, Repr

variable (d : Bytes) (size : Nat)

def Span.Within (s : Span) : Prop := s.off + s.len ≤ size

instance (s : Span) : Decidable (s.Within size) :=
  inferInstanceAs (Decidable (_ ≤ _))

/-- A little-endian number of `n` bytes. -/
def le (d : Bytes) (off : Nat) : Nat → Nat
  | 0 => 0
  | n + 1 => (d off).toNat + 256 * le d (off + 1) n

/-! ## Formats -/

def zxfHeaderSize : Nat := 64
def zxfSegmentSize : Nat := 24
def zxfBlockSize : Nat := 12

/-- mirrors include/util/zxf.h:22-37, the fields the parser looks at -/
structure ZxfHeader where
  magic : List Byte
  version : Nat
  arch : Nat
  entry : Nat
  segCount : Nat
  blockCount : Nat
  segTableOffset : Nat
  blockTableOffset : Nat
  checksum : Nat

def zxfHeader : ZxfHeader where
  magic := [d 0, d 1, d 2, d 3]
  version := le d 4 1
  arch := le d 5 1
  entry := le d 8 8
  segCount := le d 28 2
  blockCount := le d 30 2
  segTableOffset := le d 32 4
  blockTableOffset := le d 36 4
  checksum := le d 40 4

/-- mirrors include/util/zxf.h:40-48 without the alignment, which nothing reads -/
structure ZxfSegment where
  fileOffset : Nat
  fileSize : Nat
  vaddr : Nat
  memSize : Nat
  flags : BitVec 8

def zxfSegmentAt (off : Nat) : ZxfSegment where
  fileOffset := le d off 4
  fileSize := le d (off + 4) 4
  vaddr := le d (off + 8) 8
  memSize := le d (off + 16) 4
  flags := d (off + 20)

/-- mirrors include/util/zxf.h:51-57; `segs` is the table's offset -/
structure ZxfImage where
  size : Nat
  entry : Nat
  segCount : Nat
  segs : Nat
  deriving DecidableEq, Repr

/-- mirrors include/util/zxf.h:60-66 -/
def archArm32 : Nat := 1

/-- mirrors include/util/zxf.h:78-81 -/
def blockOptional : Nat := 0
def blockRequired : Nat := 1

/-- mirrors klib/zxf.c:49-51 -/
def zxfMagic : List Byte := [0x7a#8, 0x5a#8, 0x58#8, 0x46#8]

/-! ## Checksum -/

/-- mirrors klib/zxf.c:27-31 -/
def crcShift (crc : BitVec 32) : BitVec 32 :=
  if crc &&& 1#32 ≠ 0 then (crc >>> 1) ^^^ 0xEDB88320#32 else crc >>> 1

/-- mirrors klib/zxf.c:21-35 -/
def zxfCrc32Partial (len : Nat) (crc : BitVec 32) : BitVec 32 :=
  (List.range len).foldl (fun crc i => crcShift^[8] (crc ^^^ (d i).setWidth 32)) crc

/-- The image's checksum, with its own field taken as zero.
mirrors klib/zxf.c:59-64 -/
def zxfChecksum : BitVec 32 :=
  let crc := zxfCrc32Partial d 40 0xFFFFFFFF#32
  let crc := zxfCrc32Partial (fun _ => 0#8) 4 crc
  let crc := zxfCrc32Partial (fun i => d (44 + i)) (size - 44) crc
  crc ^^^ 0xFFFFFFFF#32

/-! ## Parser -/

/-- mirrors klib/zxf.c:86-107: no type of block is understood, so that a block which is not
optional ends the loop -/
def zxfBlocks (d : Bytes) (table : Nat) : List Nat → Bool × List Span
  | [] => (true, [])
  | i :: is =>
    let span : Span := ⟨table + i * zxfBlockSize, zxfBlockSize⟩
    let flags := le d (table + i * zxfBlockSize + 2) 2
    if flags = blockRequired then (false, [span])
    else if flags = blockOptional then
      let r := zxfBlocks d table is
      (r.1, span :: r.2)
    else (false, [span])

/-- mirrors klib/zxf.c:37-110 -/
def zxfParse : Option ZxfImage × List Span :=
  if size < zxfHeaderSize then (none, [])
  else
    let hdr := zxfHeader d
    let reads : List Span := [⟨0, zxfHeaderSize⟩]
    if hdr.magic ≠ zxfMagic ∨ hdr.version ≠ 1 ∨ hdr.arch ≠ archArm32 then (none, reads)
    else
      let reads := reads ++ [⟨0, 40⟩, ⟨44, size - 44⟩]
      if (zxfChecksum d size).toNat ≠ hdr.checksum then (none, reads)
      else if hdr.segTableOffset > size then (none, reads)
      else if hdr.segCount * zxfSegmentSize > size - hdr.segTableOffset then (none, reads)
      else if hdr.blockTableOffset > size then (none, reads)
      else if hdr.blockCount * zxfBlockSize > size - hdr.blockTableOffset then (none, reads)
      else
        match zxfBlocks d hdr.blockTableOffset (List.range hdr.blockCount) with
        | (false, more) => (none, reads ++ more)
        | (true, more) =>
          (some ⟨size, hdr.entry % wordSize, hdr.segCount, hdr.segTableOffset⟩, reads ++ more)

/-! ## Bounds -/

theorem zxfBlocks_reads (d : Bytes) {table n size : Nat} (h : table + n * zxfBlockSize ≤ size) :
    ∀ is : List Nat, (∀ i ∈ is, i < n) → ∀ s ∈ (zxfBlocks d table is).2, s.Within size
  | [], _, s, hs => by simp [zxfBlocks] at hs
  | i :: is, hi, s, hs => by
    have hin : i < n := hi i List.mem_cons_self
    have hspan : (⟨table + i * zxfBlockSize, zxfBlockSize⟩ : Span).Within size := by
      unfold Span.Within zxfBlockSize at *
      simp only
      omega
    unfold zxfBlocks at hs
    dsimp only at hs
    split at hs
    · rw [List.mem_singleton.mp hs]
      exact hspan
    · split at hs
      · rcases List.mem_cons.mp hs with rfl | hs
        · exact hspan
        · exact zxfBlocks_reads d h is (fun j hj => hi j (List.mem_cons_of_mem i hj)) s hs
      · rw [List.mem_singleton.mp hs]
        exact hspan

theorem zxfParse_reads : ∀ s ∈ (zxfParse d size).2, s.Within size := by
  unfold zxfParse
  dsimp only
  split
  · simp
  · rename_i hsize
    have hhdr : ∀ s ∈ [(⟨0, zxfHeaderSize⟩ : Span)], s.Within size := by
      intro s hs
      rw [List.mem_singleton.mp hs]
      unfold Span.Within
      simp only
      omega
    have hcrc : ∀ s ∈ [(⟨0, zxfHeaderSize⟩ : Span)] ++ [⟨0, 40⟩, ⟨44, size - 44⟩],
        s.Within size := by
      have h64 : zxfHeaderSize = 64 := rfl
      simp only [List.mem_append, List.mem_cons, List.not_mem_nil, or_false, Span.Within]
      rintro s (rfl | rfl | rfl) <;> simp only <;> omega
    split
    · exact hhdr
    · split
      · exact hcrc
      · split
        · exact hcrc
        · split
          · exact hcrc
          · split
            · exact hcrc
            · split
              · exact hcrc
              · rename_i hoff hcount
                have htable : (zxfHeader d).blockTableOffset +
                    (zxfHeader d).blockCount * zxfBlockSize ≤ size := by omega
                have hblocks := zxfBlocks_reads d htable (List.range (zxfHeader d).blockCount)
                  fun i hi => List.mem_range.mp hi
                split
                all_goals
                  rename_i more hmore
                  rw [hmore] at hblocks
                  intro s hs
                  exact (List.mem_append.mp hs).elim (hcrc s) (hblocks s)

/-- What is known of an image that is accepted. -/
theorem zxfParse_segs {d : Bytes} {size : Nat} {img : ZxfImage}
    (h : (zxfParse d size).1 = some img) :
    img.size = size ∧ img.segs + img.segCount * zxfSegmentSize ≤ size := by
  unfold zxfParse at h
  dsimp only at h
  split_ifs at h
  split at h
  · cases h
  · cases h
    exact ⟨rfl, by dsimp only; omega⟩

end Zuzu.L4
