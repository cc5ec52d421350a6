import Zuzu.Core.Generation
import Zuzu.L2Object.HandleTable

/-!
# Handle tables never confuse handles

`slot t i` reads the two-level table as a flat one (a block that is not
allocated reads as zeroed entries), so that allocating a block changes nothing
and every operation is a write to at most one slot. On that view:

* `Inv`: the bitmap bit of a slot is set exactly when the slot is in use, and
  generations stay below `2^21`;
* `system_refines_generations`: a slot's generation advances exactly when the
  slot is freed;
* `handles_never_confused`: in every reachable table a new handle differs from
  every live one, and a closed handle does not resolve again before its slot
  has been freed `2^21` times, for all 32-bit values.
-/
namespace Zuzu.L2.Handles
open Zuzu.Core

variable {t t' : HandleTable} {i j : Nat} {h : Handle}

/-! ## Packed values -/

theorem handleIndex_eq (h : Handle) : handleIndex h = h.toNat % 1024 := by
  unfold handleIndex
  rw [BitVec.toNat_and]
  exact Nat.and_two_pow_sub_one_eq_mod h.toNat 10

theorem handleGen_eq (h : Handle) : handleGen h = h.toNat / 1024 := by
  unfold handleGen
  rw [BitVec.toNat_ushiftRight, Nat.shiftRight_eq_div_pow]

theorem handleIndex_lt (h : Handle) : handleIndex h < maxSlots := by
  rw [handleIndex_eq]
  exact Nat.mod_lt _ (by decide)

theorem handlePack_toNat {index gen : Nat} (hi : index < maxSlots) (hg : gen < genModulus) :
    (handlePack index gen).toNat = gen * 1024 + index := by
  unfold maxSlots at hi
  unfold genModulus at hg
  have hand : (BitVec.ofNat 32 index &&& 1023#32).toNat = index := by
    rw [BitVec.toNat_and, BitVec.toNat_ofNat, Nat.mod_eq_of_lt (by omega)]
    exact (Nat.and_two_pow_sub_one_eq_mod index 10).trans (Nat.mod_eq_of_lt hi)
  unfold handlePack
  rw [BitVec.toNat_or, hand, BitVec.toNat_shiftLeft, BitVec.toNat_ofNat,
    Nat.mod_eq_of_lt (a := gen) (by omega), Nat.shiftLeft_eq,
    Nat.mod_eq_of_lt (by omega), ← Nat.shiftLeft_eq,
    ← Nat.shiftLeft_add_eq_or_of_lt (by omega), Nat.shiftLeft_eq]

/-- A packed value gives back its index and its generation. -/
theorem handlePack_unpack {index gen : Nat} (hi : index < maxSlots) (hg : gen < genModulus) :
    handleIndex (handlePack index gen) = index ∧ handleGen (handlePack index gen) = gen := by
  rw [handleIndex_eq, handleGen_eq, handlePack_toNat hi hg]
  unfold maxSlots at hi
  omega

/-! ## The flat view -/

/-- The entry of a slot; zeroed where the block is not allocated. -/
def slot (t : HandleTable) (i : Nat) : Entry := (handleTableGet t i).getD Entry.zero

/-- The block of a slot is allocated. -/
def Backed (t : HandleTable) (i : Nat) : Prop := (handleTableGet t i).isSome = true

theorem Backed.get (h : Backed t i) : handleTableGet t i = some (slot t i) := by
  unfold slot
  obtain ⟨e, he⟩ := Option.isSome_iff_exists.mp h
  rw [he]
  rfl

theorem slot_of_not_backed (h : ¬Backed t i) : slot t i = Entry.zero := by
  unfold Backed at h
  unfold slot
  rw [Option.not_isSome_iff_eq_none] at h
  rw [h]
  rfl

theorem backed_of_used (hu : (slot t i).type ≠ .free) : Backed t i := by
  by_contra hn
  rw [slot_of_not_backed hn] at hu
  exact hu rfl

/-! ## What an operation changes -/

/-- `t'` is `t` with entry `e` in slot `i` and the bitmap bit to match. -/
structure Wrote (t : HandleTable) (i : Nat) (e : Entry) (t' : HandleTable) : Prop where
  slot_eq : ∀ j, slot t' j = if j = i then e else slot t j
  bit_eq : ∀ j, t'.slotBitmap.testBit j =
    if j = i then decide (e.type ≠ .free) else t.slotBitmap.testBit j

/-- Nothing visible changed (a block may have been allocated). -/
structure SameView (t t' : HandleTable) : Prop where
  slot_eq : slot t' = slot t
  bitmap_eq : t'.slotBitmap = t.slotBitmap

theorem SameView.refl (t : HandleTable) : SameView t t := ⟨rfl, rfl⟩

theorem slot_setEntry (hb : Backed t i) (e : Entry) (j : Nat) :
    slot (t.setEntry i e) j = if j = i then e else slot t j := by
  unfold Backed handleTableGet at hb
  unfold slot handleTableGet HandleTable.setEntry
  split at hb
  · cases hb
  · obtain ⟨blk, hblk⟩ : ∃ blk, t.blocks (i / blockSlots) = some blk := by
      cases hx : t.blocks (i / blockSlots) with
      | none => simp [hx] at hb
      | some blk => exact ⟨blk, rfl⟩
    by_cases hj : j ≥ maxSlots
    · rw [if_pos hj, if_neg (by omega), if_pos hj]
    · rw [if_neg hj, if_neg hj]
      by_cases hd : j / blockSlots = i / blockSlots
      · by_cases hm : j % blockSlots = i % blockSlots
        · have hji := (Bitmap.index_eq_iff i j).mp ⟨hd, hm⟩
          simp [hji, hblk]
        · have hji : j ≠ i := fun e => hm (by rw [e])
          simp [hd, hm, hji, hblk]
      · have hji : j ≠ i := fun e => hd (by rw [e])
        simp [hd, hji]

theorem slotBitmap_setEntry (e : Entry) : (t.setEntry i e).slotBitmap = t.slotBitmap := rfl

/-- Allocating a block changes neither the entries nor the bitmap. -/
theorem handleBlockEnsure_spec (t : HandleTable) (ok : Bool) (hi : i < maxSlots) :
    SameView t (handleBlockEnsure t i ok).1 ∧
      ((handleBlockEnsure t i ok).2 = true → Backed (handleBlockEnsure t i ok).1 i) := by
  unfold handleBlockEnsure
  split
  · rename_i hs
    refine ⟨.refl t, fun _ => ?_⟩
    unfold Backed handleTableGet
    rw [if_neg (by omega)]
    simpa using hs
  · rename_i hs
    split
    · refine ⟨⟨?_, rfl⟩, fun _ => ?_⟩
      · funext j
        have hn : t.blocks (i / blockSlots) = none := by simpa using hs
        unfold slot handleTableGet
        by_cases hj : j ≥ maxSlots
        · rw [if_pos hj, if_pos hj]
        · rw [if_neg hj, if_neg hj]
          by_cases hd : j / blockSlots = i / blockSlots
          · simp [hd, hn]
          · simp [hd]
      · unfold Backed handleTableGet
        rw [if_neg (by omega)]
        simp
    · exact ⟨.refl t, by simp⟩

theorem slotBitmap_handleEntryClaim (hi : i < maxSlots) (j : Nat) :
    (handleEntryClaim t i).slotBitmap.testBit j = (decide (j = i) || t.slotBitmap.testBit j) := by
  unfold handleEntryClaim
  rw [if_pos hi]
  exact Bitmap.testBit_setBit _ _ _ (by decide)

theorem handleTableGet_handleEntryClaim (j : Nat) :
    handleTableGet (handleEntryClaim t i) j = handleTableGet t j := by
  unfold handleEntryClaim
  split <;> rfl

/-- Claiming a backed slot and filling it in. -/
theorem wrote_claim {t₁ : HandleTable} {e : Entry} (hv : SameView t t₁) (hi : i < maxSlots)
    (hb : Backed t₁ i) (he : e.type ≠ .free) :
    Wrote t i e ((handleEntryClaim t₁ i).setEntry i e) := by
  have hb' : Backed (handleEntryClaim t₁ i) i := by
    unfold Backed
    rw [handleTableGet_handleEntryClaim]
    exact hb
  refine ⟨fun j => ?_, fun j => ?_⟩
  · rw [slot_setEntry hb']
    have : slot (handleEntryClaim t₁ i) j = slot t₁ j := by
      unfold slot
      rw [handleTableGet_handleEntryClaim]
    rw [this, hv.slot_eq]
  · rw [slotBitmap_setEntry, slotBitmap_handleEntryClaim hi, hv.bitmap_eq]
    by_cases hj : j = i <;> simp [hj, he]

/-- No slot is found, or a free one with its block allocated, ready to be claimed. -/
theorem handleTableFindFree_cases (t : HandleTable) (ok : Bool) :
    (∃ t₁, SameView t t₁ ∧ handleTableFindFree t ok = (t₁, none)) ∨
    ∃ t₁ i, handleTableFindFree t ok = (t₁, some i) ∧ i < maxSlots ∧
      t.slotBitmap.testBit i = false ∧ handleTableGet t₁ i = some (slot t i) ∧
      ∀ e : Entry, e.type ≠ .free → Wrote t i e ((handleEntryClaim t₁ i).setEntry i e) := by
  unfold handleTableFindFree
  cases hf : t.slotBitmap.findFirstZero maxSlots with
  | none => exact .inl ⟨t, .refl t, rfl⟩
  | some i =>
    obtain ⟨hi, hbit⟩ := Bitmap.findFirstZero_spec t.slotBitmap i (by decide) (n := 32) hf
    obtain ⟨hv, hb⟩ := handleBlockEnsure_spec t ok hi
    dsimp only
    split
    · rename_i hr
      refine .inr ⟨_, i, rfl, hi, hbit, ?_, fun e => wrote_claim hv hi (hb hr)⟩
      rw [(hb hr).get, hv.slot_eq]
    · exact .inl ⟨_, hv, rfl⟩

/-- A table operation hands out at most one handle, made from the generation
that the slot has. -/
theorem issue_spec (t : HandleTable) (ok : Bool) (fill : Entry → Entry)
    (hf : ∀ e, (fill e).type ≠ .free) (hg : ∀ e, (fill e).generation = e.generation) :
    (SameView t (issue t ok fill).1 ∧ (issue t ok fill).2 = none) ∨
    ∃ i < maxSlots, t.slotBitmap.testBit i = false ∧
      Wrote t i (fill (slot t i)) (issue t ok fill).1 ∧
      (issue t ok fill).2 = some (handlePack i (slot t i).generation) := by
  unfold issue
  obtain ⟨t₁, hv, h⟩ | ⟨t₁, i, h, hi, hbit, hget, hw⟩ := handleTableFindFree_cases t ok
  · rw [h]
    exact .inl ⟨hv, rfl⟩
  · simp only [h, hget]
    exact .inr ⟨i, hi, hbit, hw _ (hf _), by rw [hg]⟩

theorem handleCopyInto_spec (t : HandleTable) (ok : Bool) (src : Entry) (perms : Perms)
    (marker : Marker) :
    (SameView t (handleCopyInto t ok src perms marker).1 ∧
      ∃ e, (handleCopyInto t ok src perms marker).2 = .error e) ∨
    ∃ i < maxSlots, src.type ≠ .free ∧ t.slotBitmap.testBit i = false ∧
      Wrote t i (fillCopy src perms marker (slot t i)) (handleCopyInto t ok src perms marker).1 ∧
      (handleCopyInto t ok src perms marker).2 = .ok (handlePack i (slot t i).generation) := by
  unfold handleCopyInto
  split
  · exact .inl ⟨.refl t, _, rfl⟩
  · rename_i hsrc
    obtain ⟨t₁, hv, h⟩ | ⟨t₁, i, h, hi, hbit, hget, hw⟩ := handleTableFindFree_cases t ok
    · rw [h]
      exact .inl ⟨hv, _, rfl⟩
    · simp only [h, hget]
      exact .inr ⟨i, hi, hsrc, hbit, hw _ hsrc, rfl⟩

/-- The entry that a freed slot is left with. -/
def freedEntry (e : Entry) : Entry :=
  { Entry.zero with generation := (e.generation + 1) % genModulus }

theorem handleRelease_spec (hu : (slot t i).type ≠ .free) :
    i < maxSlots ∧ Wrote t i (freedEntry (slot t i)) (handleRelease t i) := by
  have hb := backed_of_used hu
  have hi : i < maxSlots := by
    by_contra hn
    unfold Backed handleTableGet at hb
    rw [if_pos (by omega)] at hb
    cases hb
  have hb' : Backed { t with slotBitmap := t.slotBitmap.clearBit i } i := hb
  refine ⟨hi, ?_⟩
  unfold handleRelease handleEntryFree
  simp only [hb.get, if_neg hu]
  refine ⟨fun j => slot_setEntry hb' _ j, fun j => ?_⟩
  rw [slotBitmap_setEntry]
  show (t.slotBitmap.clearBit i).testBit j = _
  rw [Bitmap.testBit_clearBit _ _ _ (by decide)]
  by_cases hj : j = i <;> simp [hj, freedEntry, Entry.zero]

/-- A resolving handle value is the packed value of a slot in use. -/
theorem handleTableLookup_eq_some :
    handleTableLookup t h = some i ↔
      i = handleIndex h ∧ (slot t i).type ≠ .free ∧ (slot t i).generation = handleGen h := by
  unfold handleTableLookup
  cases hg : handleTableGet t (handleIndex h) with
  | none =>
    have hz : slot t (handleIndex h) = Entry.zero := by
      unfold slot
      rw [hg]
      rfl
    simp only [reduceCtorEq, false_iff, not_and]
    rintro rfl hne
    rw [hz] at hne
    exact absurd rfl hne
  | some e =>
    have he : slot t (handleIndex h) = e := by
      unfold slot
      rw [hg]
      rfl
    simp only
    split
    · rename_i hbad
      simp only [reduceCtorEq, false_iff, not_and]
      rintro rfl hne
      rw [he] at hne ⊢
      exact hbad.resolve_left hne
    · rename_i hok
      rw [not_or, not_not] at hok
      constructor
      · rintro hi
        cases hi
        rw [he]
        exact ⟨rfl, hok⟩
      · rintro ⟨rfl, -⟩
        rfl

/-! ## The table as a transition system -/

/-- What the kernel does to one table: `create` is a new object's first handle
(or an adopted DMA buffer's), `copy` a duplicate, a grant or a transfer into
this table, `close` goes by handle value and `release` by slot (teardown);
`restrict` and `setMappedVa` edit an entry in place. -/
inductive Op
  | create (type : HandleType) (obj : Nat) (perms : Perms) (ok : Bool)
  | copy (src : Entry) (perms : Perms) (marker : Marker) (ok : Bool)
  | close (h : Handle)
  | release (i : Nat)
  | restrict (h : Handle) (perms : Perms)
  | setMappedVa (h : Handle) (va : Nat)

/-- The handle an operation gave out and the slot it freed. -/
structure Outcome where
  issued : Option Handle
  freed : Option Nat
  deriving DecidableEq, Repr

/-- An edit of the entry that a handle resolves to. -/
def editEntry (t : HandleTable) (h : Handle) (f : Entry → Entry) : HandleTable :=
  match handleTableLookup t h with
  | none => t
  | some i => t.setEntry i (f (slot t i))

/-- One operation. `SvcCreate` never makes a `HANDLE_FREE` entry. -/
def stepOp (t : HandleTable) : Op → HandleTable × Outcome
  | .create type obj perms ok =>
    if type = .free then (t, ⟨none, none⟩)
    else
      let r := issue t ok (fillNew type obj perms)
      (r.1, ⟨r.2, none⟩)
  | .copy src perms marker ok =>
    let r := handleCopyInto t ok src perms marker
    (r.1, ⟨r.2.toOption, none⟩)
  | .close h =>
    match handleTableLookup t h with
    | none => (t, ⟨none, none⟩)
    | some i => (handleRelease t i, ⟨none, some i⟩)
  | .release i =>
    if (slot t i).type = .free then (t, ⟨none, none⟩) else (handleRelease t i, ⟨none, some i⟩)
  | .restrict h perms =>
    (editEntry t h fun e => { e with perms := e.perms &&& perms }, ⟨none, none⟩)
  | .setMappedVa h va => (editEntry t h fun e => { e with mappedVa := va }, ⟨none, none⟩)

/-- Tables from an empty one, or from the root service's table with its device
objects, on. -/
def system : LTS HandleTable (Op × Outcome) where
  init t := ∃ devs, t = injectDeviceObjects handleTableInit 0 devs
  step t o t' := stepOp t o.1 = (t', o.2)

/-- The four ways in which one operation can change a table. -/
inductive Change (t : HandleTable) : Outcome → HandleTable → Prop
  | same {t' : HandleTable} : SameView t t' → Change t ⟨none, none⟩ t'
  | issued {i : Nat} {e : Entry} {t' : HandleTable} : i < maxSlots →
      t.slotBitmap.testBit i = false → e.type ≠ .free →
      e.generation = (slot t i).generation → Wrote t i e t' →
      Change t ⟨some (handlePack i e.generation), none⟩ t'
  | freed {i : Nat} {t' : HandleTable} : i < maxSlots → (slot t i).type ≠ .free →
      Wrote t i (freedEntry (slot t i)) t' → Change t ⟨none, some i⟩ t'
  | edited {i : Nat} {e : Entry} {t' : HandleTable} : e.type = (slot t i).type →
      e.generation = (slot t i).generation →
      (∀ j, slot t' j = if j = i then e else slot t j) → t'.slotBitmap = t.slotBitmap →
      Change t ⟨none, none⟩ t'

theorem editEntry_change (t : HandleTable) (h : Handle) {f : Entry → Entry}
    (hf : ∀ e, (f e).type = e.type ∧ (f e).generation = e.generation) :
    Change t ⟨none, none⟩ (editEntry t h f) := by
  unfold editEntry
  cases hl : handleTableLookup t h with
  | none => exact .same (.refl t)
  | some i =>
    obtain ⟨-, hu, -⟩ := handleTableLookup_eq_some.mp hl
    exact .edited (hf _).1 (hf _).2 (slot_setEntry (backed_of_used hu) _) rfl

theorem stepOp_change {op : Op} {out : Outcome} (h : stepOp t op = (t', out)) :
    Change t out t' := by
  cases op with
  | create type obj perms ok =>
    simp only [stepOp] at h
    split at h
    · cases h
      exact .same (.refl t)
    · rename_i hty
      cases h
      rcases issue_spec t ok (fillNew type obj perms) (fun _ => hty) (fun _ => rfl) with
        ⟨hv, hr⟩ | ⟨i, hlt, hbit, hw, hr⟩
      · rw [hr]
        exact .same hv
      · rw [hr]
        exact .issued hlt hbit (e := fillNew type obj perms (slot t i)) hty rfl hw
  | copy src perms marker ok =>
    cases h
    rcases handleCopyInto_spec t ok src perms marker with
      ⟨hv, e, hr⟩ | ⟨i, hlt, hsrc, hbit, hw, hr⟩
    · simp only [hr]
      exact .same hv
    · simp only [hr]
      exact .issued hlt hbit (e := fillCopy src perms marker (slot t i)) hsrc rfl hw
  | close v =>
    simp only [stepOp] at h
    cases hl : handleTableLookup t v with
    | none =>
      rw [hl] at h
      cases h
      exact .same (.refl t)
    | some i =>
      rw [hl] at h
      cases h
      obtain ⟨-, hu, -⟩ := handleTableLookup_eq_some.mp hl
      obtain ⟨hi, hw⟩ := handleRelease_spec hu
      exact .freed hi hu hw
  | release i =>
    simp only [stepOp] at h
    split at h
    · cases h
      exact .same (.refl t)
    · rename_i hu
      cases h
      obtain ⟨hi, hw⟩ := handleRelease_spec hu
      exact .freed hi hu hw
  | restrict v perms =>
    cases h
    exact editEntry_change t v fun _ => ⟨rfl, rfl⟩
  | setMappedVa v va =>
    cases h
    exact editEntry_change t v fun _ => ⟨rfl, rfl⟩

/-! ## The invariant -/

/-- The bitmap marks the slots in use, and generations fit their field. -/
structure Inv (t : HandleTable) : Prop where
  bit_iff : ∀ i < maxSlots, t.slotBitmap.testBit i = true ↔ (slot t i).type ≠ .free
  gen_lt : ∀ i, (slot t i).generation < genModulus

theorem Inv.of_sameView (h : Inv t) (hv : SameView t t') : Inv t' := by
  refine ⟨fun i hi => ?_, fun i => ?_⟩
  · rw [hv.bitmap_eq, hv.slot_eq]
    exact h.bit_iff i hi
  · rw [hv.slot_eq]
    exact h.gen_lt i

theorem Inv.of_wrote (h : Inv t) {e : Entry} (hw : Wrote t i e t')
    (hg : e.generation < genModulus) : Inv t' := by
  refine ⟨fun j hj => ?_, fun j => ?_⟩
  · rw [hw.slot_eq, hw.bit_eq]
    by_cases hji : j = i
    · simp [hji]
    · simpa [hji] using h.bit_iff j hj
  · rw [hw.slot_eq]
    split
    · exact hg
    · exact h.gen_lt j

theorem freedEntry_gen_lt (e : Entry) : (freedEntry e).generation < genModulus :=
  Nat.mod_lt _ (by decide)

theorem Change.inv {out : Outcome} (h : Change t out t') (hi : Inv t) : Inv t' := by
  cases h with
  | same hv => exact hi.of_sameView hv
  | @issued i e _ hlt hbit hty hg hw => exact hi.of_wrote hw (hg ▸ hi.gen_lt i)
  | freed hlt hu hw => exact hi.of_wrote hw (freedEntry_gen_lt _)
  | @edited i e _ hty hg hs hb =>
    refine ⟨fun j hj => ?_, fun j => ?_⟩
    · rw [hs, hb, hi.bit_iff j hj]
      by_cases hji : j = i
      · subst hji
        simp [hty]
      · simp [hji]
    · rw [hs]
      split
      · exact hg ▸ hi.gen_lt i
      · exact hi.gen_lt j

theorem handleTableInit_inv : Inv handleTableInit := by
  have hs : ∀ i, slot handleTableInit i = Entry.zero := by
    intro i
    unfold slot handleTableGet handleTableInit
    split <;> rfl
  refine ⟨fun i _ => ?_, fun i => ?_⟩
  · rw [hs]
    simp [handleTableInit, Entry.zero]
  · rw [hs]
    decide

theorem handleTableGetOrAlloc_spec (t : HandleTable) (i : Nat) (ok : Bool) :
    SameView t (handleTableGetOrAlloc t i ok).1 ∧
      ∀ e, (handleTableGetOrAlloc t i ok).2 = some e →
        i < maxSlots ∧ Backed (handleTableGetOrAlloc t i ok).1 i ∧ e = slot t i := by
  unfold handleTableGetOrAlloc
  split
  · exact ⟨.refl t, by simp⟩
  · obtain ⟨hv, hb⟩ := handleBlockEnsure_spec t ok (i := i) (by omega)
    refine ⟨hv, fun e he => ?_⟩
    dsimp only at he
    split at he
    · rename_i hr
      rw [(hb hr).get, hv.slot_eq] at he
      exact ⟨by omega, hb hr, (Option.some.inj he).symm⟩
    · cases he

theorem handleEntryClaim_setEntry (e : Entry) :
    handleEntryClaim (t.setEntry i e) i = (handleEntryClaim t i).setEntry i e := by
  unfold handleEntryClaim
  split <;> rfl

theorem injectDeviceObject_inv {ok : Bool} {mem : Option Nat} (hi : Inv t) :
    Inv (injectDeviceObject t i ok mem) := by
  unfold injectDeviceObject
  obtain ⟨hv, he⟩ := handleTableGetOrAlloc_spec t i ok
  cases hr : handleTableGetOrAlloc t i ok with
  | mk t₁ r =>
    rw [hr] at hv he
    cases r with
    | none => exact hi.of_sameView hv
    | some e =>
      cases mem with
      | none => exact hi.of_sameView hv
      | some m =>
        obtain ⟨hlt, hb, rfl⟩ := he e rfl
        simp only [handleEntryClaim_setEntry]
        refine hi.of_wrote (wrote_claim hv hlt hb ?_) (hi.gen_lt i)
        simp [fillNew]

theorem injectDeviceObjects_inv {devs : List (Bool × Option Nat)} :
    ∀ {t : HandleTable} {index : Nat}, Inv t → Inv (injectDeviceObjects t index devs) := by
  induction devs with
  | nil => exact fun h => h
  | cons d ds ih => exact fun h => ih (injectDeviceObject_inv h)

theorem system_inv : system.Inductive Inv where
  init {_} h := by
    obtain ⟨devs, rfl⟩ := h
    exact injectDeviceObjects_inv handleTableInit_inv
  step {_ _ _} hi hs := (stepOp_change hs).inv hi

/-! ## Generations and stale handles -/

/-- A slot's generation advances when the slot is freed, and only then. -/
theorem system_refines_generations :
    system.Refines (Generation.system fun g => (g + 1) % genModulus) (fun _ => True)
      (fun t i => (slot t i).generation) fun o => o.2.freed where
  step {t o t'} _ hs := by
    refine ⟨trivial, ?_⟩
    have hc : Change t o.2 t' := stepOp_change hs
    generalize o.2 = out at hc
    have hkeep : ∀ {i : Nat} {e : Entry}, e.generation = (slot t i).generation →
        (∀ j, slot t' j = if j = i then e else slot t j) →
        (fun j => (slot t' j).generation) = fun j => (slot t j).generation := by
      intro i e hg hs
      funext j
      rw [hs]
      split
      · rename_i hj
        rw [hg, hj]
      · rfl
    cases hc with
    | same hv => exact funext fun j => by rw [hv.slot_eq]
    | issued _ _ _ hg hw => exact hkeep hg hw.slot_eq
    | @freed i _ _ _ hw =>
      refine funext fun j => ?_
      simp only [hw.slot_eq, Function.update_apply]
      split <;> rfl
    | edited _ hg hs' _ => exact hkeep hg hs'

/-- Of all 32-bit values, a slot in use is reached by its packed value only, and
that one is not negative. -/
theorem handleTableLookup_packed (hinv : Inv t) (hl : handleTableLookup t h = some i) :
    h = handlePack i (slot t i).generation ∧ h.toNat < 2 ^ 31 := by
  obtain ⟨rfl, -, hg⟩ := handleTableLookup_eq_some.mp hl
  have hlt := handleIndex_lt h
  have hgen := hinv.gen_lt (handleIndex h)
  have hp := handlePack_toNat hlt hgen
  have hi := handleIndex_eq h
  have hd := handleGen_eq h
  unfold genModulus at hgen
  refine ⟨BitVec.eq_of_toNat_eq ?_, ?_⟩ <;> omega

/-- In every table that can arise: the bitmap marks exactly the slots in use; a
handle that an operation gives out resolves and differs from every value that
resolved before; a slot in use is reached by one value only, and never by a
negative one; and a value whose slot was freed does not resolve again until the
slot has been freed `2^21` times. -/
theorem handles_never_confused {t : HandleTable} (hreach : system.Reachable t) :
    (∀ i < maxSlots, t.slotBitmap.testBit i = true ↔ (slot t i).type ≠ .free) ∧
    (∀ v i, handleTableLookup t v = some i →
      v = handlePack i (slot t i).generation ∧ v.toNat < 2 ^ 31) ∧
    (∀ op t' out v, stepOp t op = (t', out) → out.issued = some v →
      (handleTableLookup t' v).isSome ∧ ∀ w, (handleTableLookup t w).isSome → w ≠ v) ∧
    (∀ v o t' trace t'', (handleTableLookup t v).isSome → system.step t o t' →
      o.2.freed = some (handleIndex v) → system.Run t' trace t'' →
      1 + (trace.map fun o => o.2.freed).count (some (handleIndex v)) < 2 ^ 21 →
      handleTableLookup t'' v = none) := by
  have hinv := system_inv.reachable hreach
  refine ⟨hinv.bit_iff, fun v i => handleTableLookup_packed hinv, ?_, ?_⟩
  · intro op t' out v hstep hout
    have hc := stepOp_change hstep
    cases hc with
    | same _ => cases hout
    | freed _ _ _ => cases hout
    | edited _ _ _ _ => cases hout
    | @issued i e _ hlt hbit hty hg hw =>
      cases hout
      have hgen : e.generation < genModulus := hg ▸ hinv.gen_lt i
      obtain ⟨hidx, hgn⟩ := handlePack_unpack hlt hgen
      refine ⟨Option.isSome_iff_exists.mpr ⟨i, ?_⟩, ?_⟩
      · rw [handleTableLookup_eq_some, hidx, hgn, hw.slot_eq, if_pos rfl]
        exact ⟨rfl, hty, rfl⟩
      · -- the new slot was free, and a live value names a slot in use
        rintro w hw' rfl
        obtain ⟨k, hk⟩ := Option.isSome_iff_exists.mp hw'
        obtain ⟨rfl, hu, -⟩ := handleTableLookup_eq_some.mp hk
        rw [hidx] at hu
        rw [(hinv.bit_iff i hlt).mpr hu] at hbit
        cases hbit
  · intro v o t' trace t'' hlive hstep hfreed hrun hcount
    obtain ⟨k, hk⟩ := Option.isSome_iff_exists.mp hlive
    obtain ⟨rfl, -, hg⟩ := handleTableLookup_eq_some.mp hk
    have hgens := Generation.run_gen
      (system_refines_generations.run (.cons hstep hrun) trivial) (handleIndex v)
    rw [List.map_cons, hfreed, List.count_cons_self] at hgens
    by_contra hsome
    obtain ⟨k', hk'⟩ := Option.ne_none_iff_exists'.mp hsome
    obtain ⟨rfl, -, hg'⟩ := handleTableLookup_eq_some.mp hk'
    rw [hg', ← hg] at hgens
    exact Generation.iterate_succ_mod_ne (hinv.gen_lt _) (Nat.succ_pos _)
      (by rw [Nat.add_comm] at hcount; exact hcount) hgens.symm

/-- A port handle that is created in an empty table and closed stays closed. -/
theorem handles_never_confused_closed :
    handleTableLookup (stepOp (stepOp handleTableInit (.create .port 7 permAll true)).1
      (.close (handlePack 0 0))).1 (handlePack 0 0) = none := by
  have hstep : system.step handleTableInit
      (.create .port 7 permAll true, (stepOp handleTableInit (.create .port 7 permAll true)).2)
      (stepOp handleTableInit (.create .port 7 permAll true)).1 := rfl
  have hreach := (LTS.Reachable.init (L := system) ⟨[], rfl⟩).step hstep
  exact (handles_never_confused hreach).2.2.2 (handlePack 0 0) (.close (handlePack 0 0), _) _ [] _
    (by decide +kernel) rfl (by decide +kernel) (.nil _) (by decide)

end Zuzu.L2.Handles
