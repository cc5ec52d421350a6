import Zuzu.L3Kernel.MapObj

/-!
# Releasing a mapped handle (`HandleRelease`)

`VmmMapMemObj` registers a device with its size rounded up to pages. `MemObjUnmapAndDrop`
asks `VmmRemoveRegion` for the size as it is, and `VmmRemoveRegion` refuses a size that is
not the region's. Nobody looks at the answer: the reference of the handle is dropped, and
the region stays with its pages.

**Results.** `release_unmaps_iff`: the release of a mapped handle takes the region and its
translations away exactly if the size of the object is a multiple of the page size.
-/
namespace Zuzu.L3
open Zuzu.Core Zuzu.L2.Handles

variable {k k' : K} {m m' m'' : Mem} {a : AddressSpace} {sp : SpaceId} {i j n size : Nat}
  {e : Entry} {r : Region} {o : MemId} {env : Env}

/-! ## Dropping a reference comes to an end -/

/-- The objects of two states are of the same kinds and have the same DMA mappings. -/
def SameKinds (m m' : Mem) : Prop :=
  ∀ o, (m'.objs o).kind = (m.objs o).kind ∧ (m'.objs o).dmaMaps = (m.objs o).dmaMaps

theorem SameKinds.trans (h : SameKinds m m') (h' : SameKinds m' m'') : SameKinds m m'' :=
  fun o => ⟨(h' o).1.trans (h o).1, (h' o).2.trans (h o).2⟩

theorem SameKinds.modObj {f : MemObj → MemObj} (hk : ∀ x, (f x).kind = x.kind)
    (hd : ∀ x, (f x).dmaMaps = x.dmaMaps) : SameKinds m (m.modObj o f) := by
  intro p
  rw [Mem.modObj_objs, Function.update_apply]
  split
  · rename_i h
    rw [h]
    exact ⟨hk _, hd _⟩
  · exact ⟨rfl, rfl⟩

/-- DMA mappings are of shared objects, as `MemObjDmaMap` checks. -/
def DmaShared (m : Mem) : Prop := ∀ o, ∀ d ∈ (m.objs o).dmaMaps, (m.objs d.mem).kind ≠ .device

theorem DmaShared.same (h : DmaShared m) (hs : SameKinds m m') : DmaShared m' := by
  intro o d hd
  rw [(hs o).2] at hd
  rw [(hs d.mem).1]
  exact h o d hd

/-- One level of nesting for each level of DMA mappings. -/
theorem memObjUnref_of_maps (h : ∀ m', SameKinds m m' → ∃ m'', (if (m'.objs o).kind = .device then
      (m'.objs o).dmaMaps else []).foldlM (fun m d => memObjUnref n m d.mem) m' = some m'' ∧
      SameKinds m' m'') : ∃ m', memObjUnref (n + 1) m o = some m' ∧ SameKinds m m' := by
  rw [memObjUnref]
  dsimp only
  have hdec := SameKinds.modObj (m := m) (o := o)
    (f := fun x => { x with refCount := x.refCount - 1 }) (fun _ => rfl) (fun _ => rfl)
  split
  · exact ⟨_, rfl, hdec⟩
  · generalize m.modObj o _ = m₁ at hdec
    have hpages : SameKinds m₁ (if (m₁.objs o).kind = .shared then memObjFreePages m₁ o
        else m₁) := by
      intro p
      split
      · rw [memObjFreePages_keeps (f := Mem.objs) fun _ _ => rfl]
        exact ⟨rfl, rfl⟩
      · exact ⟨rfl, rfl⟩
    obtain ⟨m₂, h₂, hs⟩ := h _ (hdec.trans hpages)
    refine ⟨_, by rw [h₂]; rfl, (hdec.trans hpages).trans (hs.trans ?_)⟩
    exact .modObj (fun _ => rfl) (fun _ => rfl)

theorem memObjUnref_total (h : DmaShared m) (n : Nat) (o : MemId) :
    ∃ m', memObjUnref (n + 2) m o = some m' ∧ SameKinds m m' := by
  have hflat : ∀ {m o}, (m.objs o).kind ≠ .device →
      ∃ m', memObjUnref (n + 1) m o = some m' ∧ SameKinds m m' := by
    intro m o hk
    refine memObjUnref_of_maps fun m' hs => ⟨m', ?_, fun _ => ⟨rfl, rfl⟩⟩
    rw [if_neg (by rw [(hs o).1]; exact hk)]
    rfl
  have hfold : ∀ (ds : List DmaMapping) {m : Mem}, (∀ d ∈ ds, (m.objs d.mem).kind ≠ .device) →
      ∃ m', ds.foldlM (fun m d => memObjUnref (n + 1) m d.mem) m = some m' ∧ SameKinds m m' := by
    intro ds
    induction ds with
    | nil => exact fun _ => ⟨_, rfl, fun _ => ⟨rfl, rfl⟩⟩
    | cons d ds ih =>
      intro m hd
      obtain ⟨m₁, h₁, hs₁⟩ := hflat (hd d List.mem_cons_self)
      obtain ⟨m₂, h₂, hs₂⟩ := ih (m := m₁) fun x hx => by
        rw [(hs₁ _).1]
        exact hd x (List.mem_cons_of_mem _ hx)
      exact ⟨m₂, by rw [List.foldlM_cons, h₁]; exact h₂, hs₁.trans hs₂⟩
  refine memObjUnref_of_maps fun m' hs => hfold _ fun d hd => ?_
  split at hd
  · exact h.same hs o d hd
  · cases hd

/-! ## The region -/

theorem RegionsOk.steered_start {rs : List Region} (h : RegionsOk rs) (va : Nat) :
    Steered (regionCmpStart va) rs := by
  refine h.strict.imp fun {x y} hxy => ?_
  simp only [regionCmpStart]
  split_ifs <;> simp <;> omega

/-- The space without the region at index `j`. -/
def AddressSpace.without (a : AddressSpace) (j : Nat) (r : Region) : AddressSpace :=
  { vmmUnmapRange a r.vaddrStart r.size with regions := a.regions.eraseIdx j }

/-- `VmmRemoveRegion` at the start of a region does something only for the region's own size. -/
theorem vmmRemoveRegion_at (has : m.as sp = some a) (hok : RegionsOk a.regions)
    (hj : a.regions[j]? = some r) : vmmRemoveRegion n m sp r.vaddrStart size =
      if r.size ≠ size then some (m, false)
      else (memObjUnrefOpt n (m.setAs sp (some (a.without j r))) r.backing).map (·, true) := by
  have hpos := hok.nonempty r (List.mem_of_getElem? hj)
  have hfind : bsearch (regionCmpStart r.vaddrStart) a.regions = some j :=
    (bsearch_eq_some (hok.steered_start _)).mpr ⟨r, hj, by simp [regionCmpStart]⟩
  simp only [vmmRemoveRegion, has, hfind, hj]
  by_cases h : r.size = size
  · subst h
    rw [if_neg (Nat.ne_of_gt hpos), if_neg (not_not_intro rfl), if_neg (not_not_intro rfl)]
    simp only [AddressSpace.without, vmmUnmapRange_regions]
  · rw [if_pos h, if_pos h]
    exact ite_self _

/-- No region starts where `r` did, and no address of `r` is translated. -/
def Gone (m : Mem) (sp : SpaceId) (r : Region) : Prop :=
  ∃ a, m.as sp = some a ∧ (∀ x ∈ a.regions, x.vaddrStart ≠ r.vaddrStart) ∧
    ∀ va, r.Contains va → a.pages (va / pageSize) = none

/-- Slot `i` holds a memory handle `e` that is mapped, and `r` is its region: at `mappedVa`, and of
the size of the object rounded up to pages (kernel/mm/vmm/vmm_user.c:80-141). -/
structure Mapping (k : K) (sp : SpaceId) (i : Nat) (e : Entry) (a : AddressSpace) (r : Region) :
    Prop where
  entry : handleTableGet (k.tables sp) i = some e
  type : e.type = .mem
  mapped : e.mappedVa ≠ 0
  space : k.mem.as sp = some a
  regions : RegionsOk a.regions
  region : r ∈ a.regions
  start : r.vaddrStart = e.mappedVa ∧ e.mappedVa % pageSize = 0
  size : r.size = alignUp (memObjBytes k.mem e.obj) pageSize
  word : memObjBytes k.mem e.obj < wordSize
  dma : DmaShared k.mem

/-- An address that `VmmMapMemObj` takes is on a page boundary inside the window. -/
theorem mapBase_ok {hint lo hi va : Nat} (h : mapBase m sp hint size lo hi = .ok va)
    (has : m.as sp = some a) (hok : RegionsOk a.regions)
    (hend : ∀ r ∈ a.regions, r.stop < wordSize - pageSize) (hlo : lo % pageSize = 0) :
    va ≠ 0 ∧ va % pageSize = 0 ∧ va + size ≤ hi := by
  unfold mapBase at h
  split at h
  · simp only [has, Option.map_some] at h
    split at h
    · cases h
    · cases h
    · rename_i x hne hx
      cases h
      cases hx
      have hs : 0 < size := by
        refine Nat.pos_of_ne_zero fun h0 => hne ?_
        simp [vmmFindFreeVa, h0]
      have hspec : LowestGap a.regions lo hi size (vmmFindFreeVa a lo hi size) :=
        vmmFindFreeVa_spec hok hend hlo hs
      rcases hspec with ⟨hg, -⟩ | ⟨h0, -⟩
      · exact ⟨hne, hg.aligned, hg.below⟩
      · exact absurd h0 hne
  · rename_i hne
    split at h
    · cases h
    split at h
    · cases h
    · rename_i halign hin
      cases h
      exact ⟨hne, not_not.mp halign, by omega⟩

/-- What `VmmAddRegion` leaves when it accepts a region. -/
theorem vmmAddRegion_true {ok : Bool} (has : m.as sp = some a) (hok : RegionsOk a.regions)
    (hr : r.stop < wordSize) (h : vmmAddRegion m sp r ok = (m', true)) :
    (∃ a', m'.as sp = some a' ∧ RegionsOk a'.regions ∧ r.stored ∈ a'.regions) ∧
      SameKinds m m' ∧ ∀ o, memObjBytes m' o = memObjBytes m o := by
  rcases vmmAddRegion_spec ok has hok hr with ⟨he, h0, hf, -⟩ | ⟨he, -⟩
  · rw [he] at h
    cases h
    refine ⟨⟨_, by rw [withRegion_as, Function.update_self], hok.insert h0 hr hf,
      mem_insertRegion.mpr (.inl rfl)⟩, ?_, fun o => ?_⟩
    · unfold Mem.withRegion
      cases r.backing with
      | none => exact fun _ => ⟨rfl, rfl⟩
      | some o => exact .modObj (m := m.setAs sp _) (fun _ => rfl) (fun _ => rfl)
    · unfold Mem.withRegion
      cases r.backing with
      | none => rfl
      | some p =>
        simp only [memObjBytes, memObjRef, Mem.modObj_objs, Mem.setAs_objs, Function.update_apply]
        split
        · rename_i hp
          rw [hp]
        · rfl
  · rw [he] at h
    cases h

theorem vmmMapRange_regions {va pa : Nat} {prot : MemProt} {device : Bool}
    {table : Nat → Option Nat} :
    (vmmMapRange a va pa size prot device table).1.regions = a.regions := by
  unfold vmmMapRange
  split
  · rfl
  split
  · rfl
  split <;> rfl

theorem alignUp_bytes (h : size % pageSize = 0) (hw : size < wordSize) :
    alignUp size pageSize = size := by
  unfold alignUp pageSize wordSize at *
  omega

theorem mapShared_ok {prot limit : MemProt} {hint va : Nat} {alloc : Alloc}
    (h : mapShared m sp o prot limit hint alloc = (m', .ok va)) :
    ∃ r ok, r.vaddrStart = va ∧ r.size = (m.objs o).pageCount * pageSize % wordSize ∧
      mapBase m sp hint r.size userMmapBase userDeviceBase = .ok va ∧
      vmmAddRegion m sp r ok = (m', true) := by
  simp only [mapShared] at h
  split at h
  · cases h
  split at h
  · cases h
  rename_i hbase
  split at h
  · rename_i hadd
    cases h
    exact ⟨_, _, rfl, rfl, hbase, hadd⟩
  · cases h

theorem mapDevice_ok {prot limit : MemProt} {hint va : Nat} {alloc : Alloc}
    (has : m.as sp = some a) (h : mapDevice m sp o prot limit hint alloc = (m', .ok va)) :
    ∃ a₁ r ok, a₁.regions = a.regions ∧ r.vaddrStart = va ∧
      r.size = alignUp (m.objs o).size pageSize ∧
      mapBase m sp hint r.size userDeviceBase userDeviceLimit = .ok va ∧
      vmmAddRegion (m.setAs sp (some a₁)) sp r ok = (m', true) := by
  simp only [mapDevice, has] at h
  split at h
  · cases h
  rename_i va₁ hbase
  split at h
  · cases h
  rename_i a₁ hmap
  split at h
  · rename_i hadd
    cases h
    have hregs : a₁.regions = a.regions := by
      rw [← vmmMapRange_regions (a := a), hmap]
    exact ⟨a₁, _, _, hregs, rfl, rfl, hbase, hadd⟩
  · cases h

theorem handleTableGet_setEntry {t : HandleTable} {e' : Entry} (h : handleTableGet t i = some e) :
    handleTableGet (t.setEntry i e') i = some e' := by
  unfold handleTableGet HandleTable.setEntry at *
  split at h
  · cases h
  · obtain ⟨blk, hblk, -⟩ := Option.map_eq_some_iff.mp h
    rename_i hi
    rw [if_neg hi]
    simp [hblk]

section
variable {m₁ : Mem} {a₁ : AddressSpace} {va : Nat} {ok : Bool}

/-- A region that was added at `va` for the object of a handle makes a mapping of it. -/
theorem Mapping.of_add (hget : handleTableGet (k.tables sp) i = some e) (ht : e.type = .mem)
    (hdma : DmaShared k.mem) (hword : memObjBytes k.mem e.obj < wordSize)
    (hobjs : m₁.objs = k.mem.objs) (has : m₁.as sp = some a₁) (hok : RegionsOk a₁.regions)
    (hva : va ≠ 0 ∧ va % pageSize = 0 ∧ va + r.size ≤ userVaTop) (hstart : r.vaddrStart = va)
    (hsize : r.size = alignUp (memObjBytes k.mem e.obj) pageSize)
    (hadd : vmmAddRegion m₁ sp r ok = (m', true)) :
    ∃ a', Mapping ((k.setMem m').setEntry sp i { e with mappedVa := va }) sp i
      { e with mappedVa := va } a' r.stored := by
  have hstop : r.stop < wordSize := by
    unfold Region.stop
    rw [hstart]
    exact Nat.lt_of_le_of_lt hva.2.2 (by decide)
  obtain ⟨⟨a', has', hok', hmem⟩, hsame, hbytes⟩ := vmmAddRegion_true has hok hstop hadd
  have hb : memObjBytes m' e.obj = memObjBytes k.mem e.obj := by
    rw [hbytes]
    simp only [memObjBytes, hobjs]
  have hdma' : DmaShared m' := by
    refine DmaShared.same (m := m₁) ?_ hsame
    unfold DmaShared
    rw [hobjs]
    exact hdma
  refine ⟨a', ⟨?_, ht, hva.1, has', hok', hmem, ⟨hstart, hva.2.1⟩, ?_, ?_, hdma'⟩⟩
  · simp only [K.setEntry, K.setTable_tables, K.setMem_tables, Function.update_self]
    exact handleTableGet_setEntry hget
  · exact hsize.trans (congrArg (alignUp · pageSize) hb.symm)
  · exact hb.trans_lt hword

/-- A successful `VmmMapMemObj` makes a mapping, in a space whose regions are in order and away
from the top of memory. -/
theorem Mapping.of_map {prot : MemProt} {hint : Nat} {alloc : Alloc}
    (hget : handleTableGet (k.tables sp) i = some e) (ht : e.type = .mem)
    (has : k.mem.as sp = some a) (hok : RegionsOk a.regions)
    (hend : ∀ r ∈ a.regions, r.stop < wordSize - pageSize)
    (hword : memObjBytes k.mem e.obj < wordSize) (hdma : DmaShared k.mem)
    (h : vmmMapMemObj k sp i e prot hint alloc = (k', .ok va)) :
    ∃ a' r, Mapping k' sp i { e with mappedVa := va } a' r := by
  simp only [vmmMapMemObj] at h
  split at h
  · cases h
  split at h
  · cases h
  split at h
  · cases h
  rename_i va' hr
  cases h
  have hbase {lo hi x : Nat} (hlo : lo % pageSize = 0) (hhi : hi ≤ userVaTop)
      (hb : mapBase k.mem sp hint x lo hi = .ok va) :
      va ≠ 0 ∧ va % pageSize = 0 ∧ va + x ≤ userVaTop := by
    obtain ⟨h1, h2, h3⟩ := mapBase_ok hb has hok hend hlo
    exact ⟨h1, h2, h3.trans hhi⟩
  cases hkind : (k.mem.objs e.obj).kind with
  | none =>
    rw [hkind] at hr
    cases hr
  | shared =>
    simp only [hkind] at hr ⊢
    obtain ⟨r, ok, hstart, hsize, hb, hadd⟩ := mapShared_ok (Prod.ext rfl hr)
    have hbytes : memObjBytes k.mem e.obj = r.size := by
      rw [memObjBytes, if_neg (by rw [hkind]; exact fun hc => by cases hc), hsize]
    have hpages : r.size % pageSize = 0 := by
      rw [hsize]
      unfold pageSize wordSize
      omega
    obtain ⟨a', hm⟩ := Mapping.of_add hget ht hdma hword rfl has hok
      (hbase (by decide) (by decide) hb) hstart
      (by rw [hbytes, alignUp_bytes hpages (hbytes ▸ hword)]) hadd
    exact ⟨a', _, hm⟩
  | device =>
    simp only [hkind] at hr ⊢
    obtain ⟨a₁, r, ok, hregs, hstart, hsize, hb, hadd⟩ := mapDevice_ok has (Prod.ext rfl hr)
    obtain ⟨a', hm⟩ := Mapping.of_add hget ht hdma hword
      (rfl : (k.mem.setAs sp (some a₁)).objs = k.mem.objs)
      (by rw [Mem.setAs_as, Function.update_self]) (hregs ▸ hok)
      (hbase (by decide) (by decide) hb) hstart
      (by rw [memObjBytes, if_pos hkind, hsize]) hadd
    exact ⟨a', _, hm⟩

end

theorem without_gone (hok : RegionsOk a.regions) (hj : a.regions[j]? = some r)
    (hs : r.vaddrStart % pageSize = 0) (hz : r.size % pageSize = 0)
    (hm : m.as sp = some (a.without j r)) : Gone m sp r := by
  have hpos := hok.nonempty r (List.mem_of_getElem? hj)
  refine ⟨_, hm, fun x hx => ?_, fun va hva => ?_⟩
  · -- the starts of the regions differ
    obtain ⟨i, hij, hi⟩ := List.mem_eraseIdx_iff_getElem?.mp hx
    obtain ⟨hil, rfl⟩ := List.getElem?_eq_some_iff.mp hi
    obtain ⟨hjl, rfl⟩ := List.getElem?_eq_some_iff.mp hj
    rcases Nat.lt_or_gt_of_ne hij with hlt | hgt
    · exact Nat.ne_of_lt (List.pairwise_iff_getElem.mp hok.strict _ _ hil hjl hlt)
    · exact Nat.ne_of_gt (List.pairwise_iff_getElem.mp hok.strict _ _ hjl hil hgt)
  · have hin : inRange r.vaddrStart r.size (va / pageSize) = true := by
      rw [inRange_iff]
      unfold Region.Contains Region.stop at hva
      unfold pageSize at *
      omega
    unfold AddressSpace.without vmmUnmapRange
    rw [if_neg (by omega)]
    dsimp only
    split <;> exact if_pos hin

/-- The size is rounded when the region is made and not when it is asked for. -/
theorem Mapping.size_iff (h : Mapping k sp i e a r) :
    r.size = memObjBytes k.mem e.obj ↔ memObjBytes k.mem e.obj % pageSize = 0 := by
  have hword := h.word
  rw [h.size]
  unfold alignUp pageSize wordSize at *
  omega

theorem memObjUnmapAndDrop_spec (h : Mapping k sp i e a r) (n : Nat) :
    ∃ m, memObjUnmapAndDrop (n + 2) k.mem sp e.mappedVa e.obj = some m ∧
      (Gone m sp r ↔ memObjBytes k.mem e.obj % pageSize = 0) := by
  obtain ⟨j, hj⟩ := List.mem_iff_getElem?.mp h.region
  unfold memObjUnmapAndDrop
  rw [if_pos h.mapped, ← h.start.1, vmmRemoveRegion_at h.space h.regions hj, ← h.size_iff]
  split
  · rename_i hne
    obtain ⟨m, hm, -⟩ := memObjUnref_total h.dma n e.obj
    refine ⟨m, hm, fun ⟨a', ha', hno, _⟩ => absurd rfl (hno r ?_), fun heq => absurd heq hne⟩
    rw [memObjUnref_as hm, h.space] at ha'
    cases ha'
    exact h.region
  · rename_i heq
    have heq := not_not.mp heq
    have hdrop : ∃ m, memObjUnrefOpt (n + 2) (k.mem.setAs sp (some (a.without j r))) r.backing =
        some m ∧ DmaShared m := by
      cases r.backing with
      | none => exact ⟨_, rfl, h.dma⟩
      | some o =>
        obtain ⟨m, hm, hs⟩ := memObjUnref_total (m := k.mem.setAs sp _) h.dma n o
        exact ⟨m, hm, DmaShared.same (m := k.mem.setAs sp _) h.dma hs⟩
    obtain ⟨m₁, h₁, hd₁⟩ := hdrop
    obtain ⟨m₂, h₂, -⟩ := memObjUnref_total hd₁ n e.obj
    refine ⟨m₂, by rw [h₁]; exact h₂, fun _ => heq, fun _ => ?_⟩
    have hz := h.size_iff.mp heq
    refine without_gone h.regions hj (by rw [h.start.1]; exact h.start.2) (by rw [heq]; exact hz) ?_
    rw [memObjUnref_as h₂, memObjUnrefOpt_as h₁, Mem.setAs_as, Function.update_self]

theorem withMem_mem {point : Nat} (h : k.withMem env point m = some k') : k'.mem = m := by
  unfold K.withMem at h
  split at h
  · obtain ⟨s, -, rfl⟩ := Option.map_eq_some_iff.mp h
    rfl
  · cases h
    rfl

/-- What `HandleRelease` does to memory. -/
theorem handleRelease_mem (hget : handleTableGet (k.tables sp) i = some e) (ht : e.type = .mem)
    (h : k.handleRelease env sp i = some k') :
    memObjUnmapAndDrop env.fuel k.mem sp e.mappedVa e.obj = some k'.mem := by
  simp only [K.handleRelease, hget, ht, reduceCtorEq, if_false] at h
  obtain ⟨k₁, h₁, rfl⟩ := Option.map_eq_some_iff.mp h
  simp only [objUnref, ht] at h₁
  obtain ⟨m, hm, h₂⟩ := Option.bind_eq_some_iff.mp h₁
  obtain ⟨k₂, hk, h₃⟩ := Option.bind_eq_some_iff.mp h₂
  rw [hm, ← withMem_mem hk]
  split at h₃
  · obtain ⟨s, -, rfl⟩ := Option.map_eq_some_iff.mp h₃
    rfl
  · cases h₃
    rfl

/-- The release of a mapped handle takes its region and the translations of the region away exactly
if the size of the object is a multiple of the page size. -/
theorem release_unmaps_iff (h : Mapping k sp i e a r) (hf : 2 ≤ env.fuel) :
    ∃ m, memObjUnmapAndDrop env.fuel k.mem sp e.mappedVa e.obj = some m ∧
      (∀ k', k.handleRelease env sp i = some k' → k'.mem = m) ∧
      (Gone m sp r ↔ memObjBytes k.mem e.obj % pageSize = 0) := by
  obtain ⟨n, hn⟩ := Nat.exists_eq_add_of_le' hf
  obtain ⟨m, hm, hg⟩ := memObjUnmapAndDrop_spec h n
  rw [← hn] at hm
  refine ⟨m, hm, fun k' hk => ?_, hg⟩
  exact Option.some.inj ((handleRelease_mem h.entry h.type hk).symm.trans hm)

/-- A kernel entry without incidents. -/
def calmEntry : Env :=
  { Env.calm with fuel := 2 }

/-- A device of one page is mapped and released: its region, which was there, is gone with its
page. -/
theorem release_unmaps_page : ∃ k' r, oneMapped.handleRelease calmEntry 0 16 = some k' ∧
    r ∈ regionsOf oneMapped.mem 0 ∧ r.vaddrStart = userDeviceBase ∧ Gone k'.mem 0 r := by
  let e := (handleTableGet (twoDevices.state.tables 0) 16).getD Entry.zero
  have hcall : (vmmMapMemObj twoDevices.state 0 16 e (protRead ||| protWrite) userDeviceBase
      roomy).2 = .ok userDeviceBase := by
    decide +kernel
  obtain ⟨a, r, h⟩ : ∃ a r, Mapping oneMapped 0 16 { e with mappedVa := userDeviceBase } a r :=
    Mapping.of_map (a := initialAs 0x40005000 0x40006000 poolTables) (e := e)
      (by decide +kernel) (by decide +kernel) rfl
      ⟨by decide +kernel, by decide +kernel, by decide +kernel⟩ (by decide +kernel)
      (by decide +kernel)
      (by
        intro o d hd
        rcases o with - | - | o <;> cases hd)
      (Prod.ext rfl hcall)
  obtain ⟨k', hk'⟩ : ∃ k', oneMapped.handleRelease calmEntry 0 16 = some k' :=
    Option.isSome_iff_exists.mp (by decide +kernel)
  obtain ⟨m, -, hm, hg⟩ := release_unmaps_iff h (show 2 ≤ calmEntry.fuel by decide)
  refine ⟨k', r, hk', ?_, h.start.1, ?_⟩
  · rw [regionsOf_eq h.space]
    exact h.region
  · rw [hm k' hk']
    exact hg.mpr (by decide +kernel)

/-- A root service with one device, of a page and four bytes. -/
def oddDevice : Boot := { twoDevices with devices := [⟨true, some (0x09000000, 0x1004, 33)⟩] }

/-- It is mapped and released, and its registers can still be reached. -/
theorem odd_device_stays :
    let r := mapSlot oddDevice.state 16 userDeviceBase roomy
    r.2 = .ok userDeviceBase ∧ (r.1.handleRelease calmEntry 0 16).map (fun k =>
      (translate k userDeviceBase, (regionsOf k.mem 0).any (·.vaddrStart = userDeviceBase))) =
      some (some ⟨0x09000000, true⟩, true) := by
  decide +kernel

end Zuzu.L3
