import Zuzu.L1Memory.PageTableRuns

/-!
# Page tables refine a partial map

`ArchMmuTranslate` walks the tables and sees `view`: the frame and attributes of
each page (`translate_eq`). With the step lemma of `PageTableRuns` this turns what
the operations do to descriptors into what they do to addresses.

**Results.**
* `pageTables_refine`: a successful `ArchMmuMap` makes the range translate to the
  frames it was given and leaves every other address alone, also those of a section
  it breaks up; `ArchMmuUnmap` of such a range makes it translate to 0, whatever
  happened elsewhere in between; and an `ArchMmuMap` that fails over an unmapped
  range changes nothing.
-/
namespace Zuzu.L1.PageTable
open Zuzu.Core
open Function (update)

variable {s s' : Mmu} {as bs : Space} {t u va pa size x : Nat} {E : Set Nat} {env : Env}
  {prot : MemProt} {memtype : VirtMemType}

/-! ## The walk -/

def Space.bytes (as : Space) : Nat := l1EntryCount as.type * sectionSize

/-- The attributes that an address is mapped with. -/
def attrsAt (s : Mmu) (as : Space) (x : Nat) : Option Attrs :=
  (view s as (x / pageSize)).map Prod.snd

theorem descType_cases (e : Word) : descType e = descFault ∨ descType e = descL2 ∨
    descType e = descSection ∨ descType e = descSupersection := by
  have h : (descType e).toNat = e.toNat % 4 := by
    rw [descType, BitVec.toNat_and]
    exact Nat.and_two_pow_sub_one_eq_mod e.toNat 2
  have key : ∀ d : Word, (descType e).toNat = d.toNat → descType e = d := fun d h =>
    BitVec.eq_of_toNat_eq h
  have : e.toNat % 4 = 0 ∨ e.toNat % 4 = 1 ∨ e.toNat % 4 = 2 ∨ e.toNat % 4 = 3 := by omega
  rw [← h] at this
  exact this.imp (key descFault) (Or.imp (key descL2) (Or.imp (key descSection)
    (key descSupersection)))

theorem or_offset {n b o : Nat} (h : o < 2 ^ n) : b / 2 ^ n * 2 ^ n ||| o = b / 2 ^ n * 2 ^ n + o := by
  rw [Nat.mul_comm, Nat.two_pow_add_eq_or_of_lt h]

/-- `ArchMmuTranslate` sees the view. -/
theorem translate_eq (hroot : as.ptRoot ≠ 0) (hx : x < as.bytes) :
    archMmuTranslate s as.ptRoot x =
      ((view s as (x / pageSize)).map fun m => m.1 + x % pageSize).getD 0 := by
  have hlt : x < wordSize := hx.trans_le (by cases h : as.type <;> simp [Space.bytes, h] <;> decide)
  obtain ⟨h1, h2⟩ := idx_of_page rfl hlt
  have hl1 : s.mem (as.ptRoot + 4 * l1Idx x) = l1At s as (x / pageSize / 256) := by
    rw [h1]
    rfl
  simp only [archMmuTranslate, hroot, if_false, hl1, view, row, leaf, h2]
  rcases descType_cases (l1At s as (x / pageSize / 256)) with h | h | h | h
  · simp [h]
  · simp only [h, show descL2 ≠ descFault by decide, if_false, if_true,
      show ¬(descL2 = descSection ∨ descL2 = descSupersection) by decide]
    split
    · rfl
    · rw [smallBase_toNat]
      exact or_offset (n := 12) (Nat.mod_lt _ (by decide))
  all_goals
    have hsec : (l1At s as (x / pageSize / 256) &&& l1SectionBaseMask).toNat ||| x % sectionSize =
        (l1At s as (x / pageSize / 256) &&& l1SectionBaseMask).toNat +
          x / pageSize % 256 * pageSize + x % pageSize := by
      rw [sectionBase_toNat]
      refine (or_offset (n := 20) (Nat.mod_lt _ (by decide))).trans ?_
      unfold sectionSize pageSize
      omega
    simp only [h, hsec]
    simp [descSection, descSupersection, descFault, descL2]

/-- Translations and attributes outside a range of space `t`, and in all other spaces. -/
def SameOutside (s s' : Mmu) (t va size : Nat) : Prop :=
  ∀ u bs x, s.spaces u = some bs → x < bs.bytes → (u = t → x < va ∨ va + size ≤ x) →
    archMmuTranslate s' bs.ptRoot x = archMmuTranslate s bs.ptRoot x ∧
      attrsAt s' bs x = attrsAt s bs x

theorem page_lt (hx : x < as.bytes) : x / pageSize / 256 < l1EntryCount as.type := by
  unfold Space.bytes sectionSize at hx
  unfold pageSize
  omega

theorem Frame.sameOutside (h : Frame s s' (pageRange t (va / pageSize) (size / pageSize)))
    (hinv : Layout s) (hva : va % pageSize = 0) (hsize : size % pageSize = 0) :
    SameOutside s s' t va size := by
  intro u bs x hu hx hne
  have hroot : bs.ptRoot ≠ 0 := Nat.ne_of_gt (hinv.root u bs hu).1
  have hv : view s' bs (x / pageSize) = view s bs (x / pageSize) := by
    refine (h.page hu (page_lt hx) fun hut => ?_).1
    have := hne hut
    unfold pageSize at *
    omega
  rw [translate_eq hroot hx, translate_eq hroot hx, attrsAt, attrsAt, hv]
  exact ⟨rfl, rfl⟩

theorem Frame.sameOutside_none (h : Frame s s' noPage) (hinv : Layout s) :
    SameOutside s s' t 0 0 :=
  Frame.sameOutside (h.mono fun _ _ _ _ hX => hX.elim) hinv rfl rfl

theorem page_bytes {p : Nat} (h : p / 256 < l1EntryCount as.type) :
    (p + 1) * pageSize ≤ as.bytes := by
  unfold Space.bytes sectionSize pageSize
  omega

/-- A page all of whose bytes translate to 0 is not mapped. -/
theorem view_none_of_translate (hroot : as.ptRoot ≠ 0) {p : Nat} (hp : (p + 1) * pageSize ≤ as.bytes)
    (h : ∀ o < pageSize, archMmuTranslate s as.ptRoot (p * pageSize + o) = 0) :
    view s as p = none := by
  have h1 := h 1 (by decide)
  have hp1 : (p * pageSize + 1) / pageSize = p ∧ (p * pageSize + 1) % pageSize = 1 := by
    unfold pageSize
    omega
  rw [translate_eq hroot (by unfold pageSize at *; omega), hp1.1, hp1.2] at h1
  cases hv : view s as p with
  | none => rfl
  | some m =>
    rw [hv] at h1
    cases h1

/-! ## Operations elsewhere -/

/-- The operation leaves the range of space `t` alone. -/
def Op.Spares (t va size : Nat) : Op → Prop
  | .destroy u _ => u ≠ t
  | .map u va' _ size' _ _ _ | .unmap u va' size' => u = t → va' + size' ≤ va ∨ va + size ≤ va'
  | .unmapPage u va' => u = t → va' < va ∨ va + size ≤ va'
  | .create _ _ _ _ | .other _ _ => True

theorem Op.Spares.not_touches {op : Op} (h : op.Spares t va size) (hva : va % pageSize = 0)
    (hsize : size % pageSize = 0) {u k j : Nat} (ht : op.touches u k j) :
    ¬pageRange t (va / pageSize) (size / pageSize) u k j := by
  rintro ⟨rfl, h1, h2⟩
  cases op with
  | create | other => exact ht
  | destroy v regions => exact h ht.symm
  | map v va' pa' size' prot memtype env | unmap v va' size' =>
    obtain ⟨rfl, h3, h4⟩ := ht
    have := h rfl
    unfold pageSize at *
    omega
  | unmapPage v va' =>
    obtain ⟨rfl, h3, h4⟩ := ht
    have := h rfl
    unfold pageSize at *
    omega

/-- **Run lemma.** Operations that spare a range leave its pages as they are. -/
theorem frame_of_spares {ops : List Op} (hrun : system.Run s ops s')
    (hva : va % pageSize = 0) (hsize : size % pageSize = 0) (hinv : ∃ E, Inv E s)
    (hops : ∀ op ∈ ops, op.Spares t va size) :
    (∃ E, Inv E s') ∧
      Frame s s' fun u k j => ¬pageRange t (va / pageSize) (size / pageSize) u k j := by
  induction hrun with
  | nil => exact ⟨hinv, Frame.refl _ _⟩
  | cons hs _ ih =>
    obtain ⟨E, hinv⟩ := hinv
    obtain ⟨⟨E', -, hinv'⟩, hframe, -⟩ := Step.spec hinv hs
    obtain ⟨hfin, hrest⟩ := ih ⟨E', hinv'⟩ fun op hop => hops op (List.mem_cons_of_mem _ hop)
    refine ⟨hfin, (hframe.trans hrest).mono ?_⟩
    rintro u k j - (ht | hX)
    · exact (hops _ List.mem_cons_self).not_touches hva hsize ht
    · exact hX

/-! ## Refinement -/

theorem InSpace.page_of (h : InSpace as va size) (hva : va % pageSize = 0)
    (hsize : size % pageSize = 0) {o : Nat} (ho : o < size) :
    va + o < as.bytes ∧ (va + o) / pageSize = va / pageSize + o / pageSize ∧
      o / pageSize < size / pageSize := by
  refine ⟨Nat.lt_of_lt_of_le (Nat.add_lt_add_left ho va) h, ?_⟩
  unfold pageSize at *
  omega

theorem Mapped.translate (h : Mapped E s t as va pa size (attrsOf prot memtype) s')
    (hroot : as.ptRoot ≠ 0) (hva : va % pageSize = 0) (hsize : size % pageSize = 0)
    (hpa : pa % pageSize = 0) (hfit : pa + size ≤ wordSize) {o : Nat} (ho : o < size) :
    archMmuTranslate s' as.ptRoot (va + o) = pa + o ∧
      attrsAt s' as (va + o) = some (attrsOf prot memtype) := by
  obtain ⟨hx, hp, hq⟩ := h.inSpace.page_of hva hsize ho
  have hv := h.view _ hq
  rw [addOff_of_lt (by unfold pageSize at *; omega)] at hv
  rw [translate_eq hroot hx, attrsAt, hp, hv]
  refine ⟨?_, rfl⟩
  show pa + o / pageSize * pageSize + (va + o) % pageSize = pa + o
  unfold pageSize at *
  omega

/-- A range that is mapped and then left alone can be unmapped. -/
theorem Mapped.unmap {s₂ : Mmu} {attrs : Attrs} (h : Mapped E s t as va pa size attrs s')
    (ht : s.spaces t = some as) (h0 : size ≠ 0) (hva : va % pageSize = 0)
    (hsize : size % pageSize = 0) (hinv : Inv E₂ s₂)
    (hframe : Frame s' s₂ fun u k j => ¬pageRange t (va / pageSize) (size / pageSize) u k j) :
    (∀ o < size, archMmuTranslate (archMmuUnmap s₂ as va size).1 as.ptRoot (va + o) = 0) ∧
      SameOutside s₂ (archMmuUnmap s₂ as va size).1 t va size := by
  have ht' : s'.spaces t = some as := h.kept.spaces ▸ ht
  have hw := h.inSpace.within hva hsize
  have hpos : 0 < size / pageSize := by
    unfold pageSize at *
    omega
  have hX : ∀ q < size / pageSize, ¬¬pageRange t (va / pageSize) (size / pageSize) t
      ((va / pageSize + q) / 256) ((va / pageSize + q) % 256) := by
    intro q hq hn
    refine hn ⟨rfl, ?_, ?_⟩ <;> rw [page_split] <;> omega
  have ht₂ : s₂.spaces t = some as :=
    (hframe t as _ _ ht' (hw.idx_lt hpos) (Nat.mod_lt _ (by decide)) (hX 0 hpos)).1
  obtain ⟨-, hframe', -, -, hnone⟩ := hinv.unmap ht₂ h.inSpace
  refine ⟨fun o ho => ?_, hframe'.sameOutside hinv.toLayout hva hsize⟩
  obtain ⟨hx, hp, hq⟩ := h.inSpace.page_of hva hsize ho
  have hsmall := h.small.imp_right fun hs q hq => (hframe t as _ _ ht' (hw.idx_lt hq)
    (Nat.mod_lt _ (by decide)) (hX q hq)).2.2 (hs q hq)
  rw [translate_eq (Nat.ne_of_gt (hinv.root t as ht₂).1) hx, hp, hnone hva hsize hsmall _ hq]
  rfl

/-- **Page tables are a partial map.** -/
theorem pageTables_refine (h : system.Reachable s) (ht : s.spaces t = some as)
    (hva : va % pageSize = 0) (hpa : pa % pageSize = 0) (hsize : size % pageSize = 0)
    (hvafit : va + size ≤ wordSize) (hpafit : pa + size ≤ wordSize) (prot : MemProt)
    (memtype : VirtMemType) (env : Env) :
    ((archMmuMap s as va pa size prot memtype env).2 = true →
      (∀ o < size,
        archMmuTranslate (archMmuMap s as va pa size prot memtype env).1 as.ptRoot (va + o) =
          pa + o ∧
        attrsAt (archMmuMap s as va pa size prot memtype env).1 as (va + o) =
          some (attrsOf prot memtype)) ∧
      SameOutside s (archMmuMap s as va pa size prot memtype env).1 t va size ∧
      ∀ ops s₂, system.Run (archMmuMap s as va pa size prot memtype env).1 ops s₂ →
        (∀ op ∈ ops, op.Spares t va size) →
        (∀ o < size, archMmuTranslate (archMmuUnmap s₂ as va size).1 as.ptRoot (va + o) = 0) ∧
        SameOutside s₂ (archMmuUnmap s₂ as va size).1 t va size) ∧
    ((archMmuMap s as va pa size prot memtype env).2 = false →
      (∀ o < size, va + o < as.bytes → archMmuTranslate s as.ptRoot (va + o) = 0) →
      SameOutside s (archMmuMap s as va pa size prot memtype env).1 t 0 0) := by
  obtain ⟨E, hinv⟩ := system_inv.reachable h
  have hroot : as.ptRoot ≠ 0 := Nat.ne_of_gt (hinv.root t as ht).1
  rcases hinv.map ht hvafit pa prot memtype env with ⟨s', he, hm⟩ | ⟨s', he, hm⟩
  · rw [he]
    refine ⟨fun _ => ⟨fun o ho => hm.translate hroot hva hsize hpa hpafit ho,
      hm.frame.sameOutside hinv.toLayout hva hsize, fun ops s₂ hrun hops => ?_⟩,
      fun hf => by cases hf⟩
    obtain ⟨⟨E₂, hinv₂⟩, hframe⟩ := frame_of_spares hrun hva hsize ⟨_, hm.inv⟩ hops
    by_cases h0 : size = 0
    · subst h0
      refine ⟨fun o ho => absurd ho (Nat.not_lt_zero o), ?_⟩
      simp only [archMmuUnmap, if_true]
      exact fun u bs x _ _ _ => ⟨rfl, rfl⟩
    · exact hm.unmap ht h0 hva hsize hinv₂ hframe
  · rw [he]
    refine ⟨fun hf => (by cases hf), fun _ hun => ?_⟩
    have hnone := hm.undone fun q hq hidx => view_none_of_translate hroot (page_bytes hidx)
      fun o ho => ?_
    · exact hnone.sameOutside_none hinv.toLayout
    · have hlt := page_bytes hidx
      have hx : (va / pageSize + q) * pageSize + o = va + (q * pageSize + o) := by
        unfold pageSize at *
        omega
      rw [hx]
      refine hun _ ?_ ?_ <;> unfold pageSize at * <;> omega

/-- The page mapped in `onePage` translates to its frame; once unmapped it does not. -/
theorem pageTables_refine_onePage :
    archMmuTranslate onePage 0x4000 0x7F000123 = 0x20123 ∧
      archMmuTranslate (archMmuUnmap onePage ⟨0x4000, .kernel⟩ 0x7F000000 0x1000).1 0x4000
        0x7F000123 = 0 := by
  have h := (pageTables_refine (.init boot_bootMmu)
    (show bootMmu.spaces 0 = some ⟨0x4000, .kernel⟩ from rfl)
    (show 0x7F000000 % pageSize = 0 by decide) (show 0x20000 % pageSize = 0 by decide)
    (show 0x1000 % pageSize = 0 by decide) (by decide) (by decide) (protRead ||| protWrite) .normal
    ⟨fun _ => 0x10000, fun _ => true⟩).1 (by decide +kernel)
  exact ⟨(h.1 0x123 (by decide)).1,
    (h.2.2 [] _ (.nil _) (fun op hop => by cases hop)).1 0x123 (by decide)⟩

end Zuzu.L1.PageTable
