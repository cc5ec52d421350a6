import Zuzu.L1Memory.PageTable

/-!
# Descriptors

What the fields of the descriptors built by arch/arm/mmu/mmu.c read back as:
type, base address and attributes of a section, of a small page, of a pointer to
an L2 table, and of the pages of a section that has been broken up.

Results: `l1SectionDesc_spec`, `l2PageDesc_spec`, `archMmuMakeL1Pte_spec`,
`brokenPage_spec`.
-/
namespace Zuzu.L1.PageTable

variable {e x a : Word} {pa : Nat} {prot : MemProt} {memtype : VirtMemType}

/-- Masking off the low `n` bits. -/
theorem toNat_and_mask (e : Word) {n : Nat} {m : Word} (hm : m = BitVec.allOnes 32 <<< n) :
    (e &&& m).toNat = e.toNat / 2 ^ n * 2 ^ n := by
  subst hm
  apply Nat.eq_of_testBit_eq
  intro i
  simp only [Nat.testBit_mul_two_pow, Nat.testBit_div_two_pow, BitVec.testBit_toNat,
    BitVec.getLsbD_and, BitVec.getLsbD_shiftLeft, BitVec.getLsbD_allOnes]
  by_cases hn : n ≤ i
  · rw [Nat.sub_add_cancel hn]
    by_cases hi : i < 32
    · simp [hn, hi, show i - n < 32 by omega]
    · simp [hn, hi, BitVec.getLsbD_of_ge e i (Nat.not_lt.mp hi)]
  · simp [hn]

theorem sectionBase_toNat (e : Word) :
    (e &&& l1SectionBaseMask).toNat = e.toNat / sectionSize * sectionSize :=
  toNat_and_mask e (n := 20) (by decide)

theorem smallBase_toNat (e : Word) :
    (e &&& l2SmallBaseMask).toNat = e.toNat / pageSize * pageSize :=
  toNat_and_mask e (n := 12) (by decide)

/-- Neither the base nor the bits reach into the field `c`: it holds what the tag has there. -/
theorem tag_and {m t b c : Word} (hm : m &&& c = 0#32) (hb : b &&& c = 0#32) (x : Word) :
    ((x &&& m) ||| t ||| b) &&& c = t &&& c := by
  rw [BitVec.and_or_distrib_right, BitVec.and_or_distrib_right, hb, BitVec.and_assoc, hm,
    BitVec.and_zero, BitVec.zero_or, BitVec.or_zero]

/-- A base address of the right alignment passes through a descriptor. -/
theorem toNat_base {n : Nat} {m t b : Word} (hm : m = BitVec.allOnes 32 <<< n)
    (ht : t &&& m = 0#32) (hb : b &&& m = 0#32) (hpa : pa < wordSize) (hal : pa % 2 ^ n = 0) :
    (((BitVec.ofNat 32 pa &&& m) ||| t ||| b) &&& m).toNat = pa := by
  have h1 : ((BitVec.ofNat 32 pa &&& m) ||| t ||| b) &&& m = BitVec.ofNat 32 pa &&& m := by
    rw [BitVec.and_or_distrib_right, BitVec.and_or_distrib_right, ht, hb, BitVec.or_zero,
      BitVec.or_zero, BitVec.and_assoc, BitVec.and_self]
  rw [h1, toNat_and_mask _ hm, BitVec.toNat_ofNat, Nat.mod_eq_of_lt (show pa < 2 ^ 32 from hpa),
    Nat.div_mul_cancel (Nat.dvd_of_mod_eq_zero hal)]

/-! ## Pointers to L2 tables -/

theorem archMmuMakeL1Pte_spec (h0 : pa ≠ 0) (hpa : pa < wordSize) (hal : pa % l2TableSize = 0) :
    descType (archMmuMakeL1Pte pa) = descL2 ∧ l2Base (archMmuMakeL1Pte pa) = pa := by
  unfold archMmuMakeL1Pte
  rw [if_neg h0, ← BitVec.or_zero (x := _ ||| descL2)]
  constructor
  · rw [descType, tag_and (by decide) (by decide)]
    decide
  · exact toNat_base (n := 10) (by decide) (by decide) (by decide) hpa hal

/-! ## Sections and pages -/

/-- The attribute bits that do not come from the address. -/
theorem apBits_cases (prot : MemProt) :
    prot &&& vmProtUser ≠ 0 ∧ (apBits prot = 0x3#32 ∨ apBits prot = 0x2#32) ∨
      prot &&& vmProtUser = 0 ∧ apBits prot = 0x1#32 := by
  unfold apBits
  split
  · rename_i h
    refine .inl ⟨h, ?_⟩
    split
    · exact .inl rfl
    · exact .inr rfl
  · rename_i h
    exact .inr ⟨not_not.mp h, rfl⟩

/-- The attributes a mapping with `prot` and `memtype` gets. -/
def attrsOf (prot : MemProt) (memtype : VirtMemType) : Attrs where
  xn := if prot &&& protExec = 0 then 1#32 else 0#32
  cb := match memtype with
    | .device => 1#32
    | .normalNc => 0#32
    | .normal => 3#32
  ap := apBits prot
  tex := match memtype with
    | .device => 0#32
    | _ => 1#32
  ap2 := 0#32
  ng := if prot &&& vmProtUser ≠ 0 then 1#32 else 0#32
  s := match memtype with
    | .device => 0#32
    | _ => 1#32

/-- Neither the base nor the tag reaches into the field: it holds what the bits have there. -/
theorem field_or {k : Nat} {m mask tag : Word} (h : ((mask ||| tag) >>> k) &&& m = 0#32)
    (x a : Word) : (((x &&& mask) ||| tag ||| a) >>> k) &&& m = (a >>> k) &&& m := by
  apply BitVec.eq_of_getLsbD_eq
  intro i _
  have h0 := congrArg (BitVec.getLsbD · i) h
  simp only [BitVec.getLsbD_and, BitVec.getLsbD_ushiftRight, BitVec.getLsbD_or,
    BitVec.getLsbD_zero] at h0 ⊢
  cases hm : m.getLsbD i with
  | false => simp
  | true =>
    simp only [hm, Bool.and_true, Bool.or_eq_false_iff] at h0
    simp [h0.1, h0.2]

theorem sectionAttrs_or (x a : Word) :
    sectionAttrs ((x &&& l1SectionBaseMask) ||| descSection ||| a) = sectionAttrs a := by
  unfold sectionAttrs
  congr 1 <;> exact field_or (by decide) x a

theorem pageAttrs_or (x a : Word) :
    pageAttrs ((x &&& l2SmallBaseMask) ||| l2SmallTag ||| a) = pageAttrs a := by
  unfold pageAttrs
  congr 1 <;> exact field_or (by decide) x a

theorem l1SectionDesc_spec (prot : MemProt) (memtype : VirtMemType) (hpa : pa < wordSize)
    (hal : pa % sectionSize = 0) :
    descType (l1SectionDesc pa prot memtype) = descSection ∧
      (l1SectionDesc pa prot memtype &&& l1SectionBaseMask).toNat = pa ∧
      sectionAttrs (l1SectionDesc pa prot memtype) = attrsOf prot memtype := by
  unfold l1SectionDesc
  generalize hb : ((apBits prot <<< 10) ||| _ ||| _ ||| _ : Word) = bits
  have hbits : bits &&& descTypeMask = 0#32 ∧ bits &&& l1SectionBaseMask = 0#32 ∧
      sectionAttrs bits = attrsOf prot memtype := by
    subst hb
    unfold attrsOf
    rcases apBits_cases prot with ⟨hu, ha | ha⟩ | ⟨hu, ha⟩ <;>
      by_cases he : prot &&& protExec = 0 <;> cases memtype <;>
      simp only [ha, hu, he, ne_eq, not_true_eq_false, not_false_eq_true, if_true, if_false] <;>
      decide
  refine ⟨?_, ?_, ?_⟩
  · rw [descType, tag_and (by decide) hbits.1]
    decide
  · exact toNat_base (n := 20) (by decide) (by decide) hbits.2.1 hpa hal
  · rw [sectionAttrs_or]
    exact hbits.2.2

theorem l2PageDesc_spec (prot : MemProt) (memtype : VirtMemType) (hpa : pa < wordSize)
    (hal : pa % pageSize = 0) :
    l2PageDesc pa prot memtype &&& l2SmallTag ≠ 0 ∧
      (l2PageDesc pa prot memtype &&& l2SmallBaseMask).toNat = pa ∧
      pageAttrs (l2PageDesc pa prot memtype) = attrsOf prot memtype := by
  unfold l2PageDesc
  generalize hb : ((apBits prot <<< 4) ||| _ ||| _ ||| _ : Word) = bits
  have hbits : bits &&& l2SmallTag = 0#32 ∧ bits &&& l2SmallBaseMask = 0#32 ∧
      pageAttrs bits = attrsOf prot memtype := by
    subst hb
    unfold attrsOf
    rcases apBits_cases prot with ⟨hu, ha | ha⟩ | ⟨hu, ha⟩ <;>
      by_cases he : prot &&& protExec = 0 <;> cases memtype <;>
      simp only [ha, hu, he, ne_eq, not_true_eq_false, not_false_eq_true, if_true, if_false] <;>
      decide
  refine ⟨?_, ?_, ?_⟩
  · rw [tag_and (by decide) hbits.1]
    decide
  · exact toNat_base (n := 12) (by decide) (by decide) hbits.2.1 hpa hal
  · rw [pageAttrs_or]
    exact hbits.2.2

/-! ## Breaking up a section -/

/-- A field that was placed elsewhere is not seen. -/
theorem field_apart {f m : Word} {j k : Nat} (h : ((f <<< j) >>> k) &&& m = 0#32) (x : Word) :
    (((x &&& f) <<< j) >>> k) &&& m = 0#32 := by
  rw [BitVec.shiftLeft_and_distrib, BitVec.ushiftRight_and_distrib, BitVec.and_assoc, h,
    BitVec.and_zero]

/-- A field is read back where it was placed. -/
theorem field_own {f : Word} {j : Nat} (h : (f <<< j) >>> j = f) (x : Word) :
    (((x &&& f) <<< j) >>> j) &&& f = x &&& f := by
  apply BitVec.eq_of_getLsbD_eq
  intro i hi
  have hf := congrArg (BitVec.getLsbD · i) h
  simp only [BitVec.getLsbD_ushiftRight, BitVec.getLsbD_shiftLeft, BitVec.getLsbD_and] at hf ⊢
  grind

/-- The fields a section is broken up into are those of the section. -/
theorem pageBits_spec (e : Word) :
    pageAttrs (sectionAttrs e).pageBits = sectionAttrs e ∧
      (sectionAttrs e).pageBits &&& l2SmallTag = 0#32 ∧
      (sectionAttrs e).pageBits &&& l2SmallBaseMask = 0#32 := by
  have hz : ∀ m : Word, (sectionAttrs e).pageBits &&& m = ((sectionAttrs e).pageBits >>> 0) &&& m :=
    fun m => by rw [BitVec.ushiftRight_zero]
  rw [hz, hz]
  unfold pageAttrs Attrs.pageBits sectionAttrs
  simp only [BitVec.ushiftRight_or_distrib, BitVec.and_or_distrib_right]
  simp (disch := decide) only [field_apart, field_own, BitVec.or_zero, BitVec.zero_or, and_self]

theorem brokenPage_spec (e : Word) {i : Nat} (hi : i < 256) :
    brokenPage e i &&& l2SmallTag ≠ 0 ∧
      (brokenPage e i &&& l2SmallBaseMask).toNat =
        (e &&& l1SectionBaseMask).toNat + i * pageSize ∧
      pageAttrs (brokenPage e i) = sectionAttrs e := by
  obtain ⟨h1, h2, h3⟩ := pageBits_spec e
  have hbase : (((e &&& l1SectionBaseMask) + BitVec.ofNat 32 (i * pageSize))).toNat =
      (e &&& l1SectionBaseMask).toNat + i * pageSize := by
    rw [BitVec.toNat_add, BitVec.toNat_ofNat, sectionBase_toNat]
    unfold sectionSize pageSize
    omega
  unfold brokenPage
  refine ⟨?_, ?_, ?_⟩
  · rw [tag_and (by decide) h2]
    decide
  · generalize hx : (e &&& l1SectionBaseMask) + BitVec.ofNat 32 (i * pageSize) = x
    rw [hx] at hbase
    have hal : x.toNat % 2 ^ 12 = 0 := by
      rw [hbase, sectionBase_toNat]
      unfold sectionSize pageSize
      omega
    have hx' : x = BitVec.ofNat 32 x.toNat := by simp
    rw [hx', toNat_base (n := 12) (by decide) (by decide) h3 x.isLt hal, hbase]
  · rw [pageAttrs_or, h1]

end Zuzu.L1.PageTable
