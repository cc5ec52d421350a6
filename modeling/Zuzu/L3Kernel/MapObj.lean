import Zuzu.L3Kernel.Boot
import Zuzu.L3Kernel.VmmUser
import Zuzu.L3Kernel.UserAccess

/-!
# Mapping a memory object (`VmmMapMemObj`)

A shared object is mapped by adding a region. A device is mapped the other way
round: its pages first, then the region, and when the region is refused the pages
are unmapped again. That undoes the call only if nothing was mapped there before, and
only if the second-level tables come out as they were: unmapping pages leaves the
tables that were attached for them, unmapping whole sections takes all of them away.

Results:
* `mapMemObj_atomic_iff`: every failing call leaves the space as it was if and only
  if the range that a device mapping would write is `Restorable`.
* `mapDevice_over_device`: a device mapping with the hint of an older one fails and
  takes the older one's pages with it.
* `mapDevice_leaves_table`: one that fails in an untouched range leaves a table there.
-/
namespace Zuzu.L3
open Zuzu.Core Zuzu.L2.Handles

variable {k k' : K} {m m' : Mem} {a a' : AddressSpace} {sp : SpaceId} {i : Nat} {e : Entry}
  {prot limit : MemProt} {hint va pa size : Nat} {env : Alloc} {o : MemId} {err : Err}
  {device : Bool} {table : Nat → Option Nat}

/-- No page of the range is mapped. -/
def Unmapped (a : AddressSpace) (va size : Nat) : Prop :=
  ∀ page, inRange va size page = true → a.pages page = none

theorem inTables_iff {j : Nat} : inTables va size j = true ↔
    0 < size ∧ va < (j + 1) * sectionSize ∧ j * sectionSize < va + size := by
  simp [inTables]

theorem unmapPages_unmapped (h : Unmapped a va size) : a.unmapPages va size = a := by
  have : (fun page => if inRange va size page = true then none else a.pages page) = a.pages := by
    funext page
    split
    · next hp => exact (h page hp).symm
    · rfl
  unfold AddressSpace.unmapPages
  rw [this]

/-- What mapping and unmapping the range leave: its pages unmapped, and its tables gone or
attached, as the range is whole sections or not. -/
def undone (a : AddressSpace) (va size : Nat) (table : Nat → Option Nat) : AddressSpace :=
  if va % sectionSize = 0 ∧ size % sectionSize = 0 then
    (a.unmapPages va size).dropTables va size
  else (a.unmapPages va size).addTables va size table

/-- The range is not mapped, and its tables are as unmapping it leaves them: a range of whole
sections has none, and is mapped in one go; any other has all of them. -/
def Restorable (a : AddressSpace) (va pa size : Nat) : Prop :=
  Unmapped a va size ∧
    if va % sectionSize = 0 ∧ size % sectionSize = 0 then
      (∀ j, inTables va size j = true → a.tables j = none) ∧
        (pa % sectionSize = 0 ∨ size = sectionSize)
    else ∀ j, inTables va size j = true → a.tables j ≠ none

theorem Restorable.undone_eq (h : Restorable a va pa size) : undone a va size table = a := by
  obtain ⟨hu, ht⟩ := h
  unfold undone
  rw [unmapPages_unmapped hu]
  split at ht
  · rename_i hsec
    rw [if_pos hsec]
    have : (fun j => if inTables va size j = true then none else a.tables j) = a.tables := by
      funext j
      split
      · next hj => exact (ht.1 j hj).symm
      · rfl
    unfold AddressSpace.dropTables
    rw [this]
  · rename_i hsec
    rw [if_neg hsec]
    have : (fun j => if inTables va size j = true then (a.tables j).or (table j) else a.tables j) =
        a.tables := by
      funext j
      split
      · next hj =>
        obtain ⟨t, hj⟩ := Option.ne_none_iff_exists'.mp (ht j hj)
        rw [hj]
        rfl
      · rfl
    unfold AddressSpace.addTables
    rw [this]

/-- The first-level entry of a page of the range. -/
theorem inTables_page (h : i < size / pageSize) :
    inTables va size ((va + i * pageSize) / sectionSize) = true := by
  rw [inTables_iff]
  unfold pageSize sectionSize at *
  omega

/-- A mapping that fails in a restorable range changes nothing. -/
theorem vmmMapRange_false (h : vmmMapRange a va pa size prot device table = (a', false))
    (hr : mapRangeOk va pa size prot = true → Restorable a va pa size) : a' = a := by
  unfold vmmMapRange at h
  split at h
  · cases h
    rfl
  rename_i hok
  obtain ⟨hu, ht⟩ := hr (not_not.mp hok)
  split at h
  · cases h
  rename_i hwhole
  split at h
  · rename_i done hdone
    cases h
    obtain ⟨hlast, hmem, hfirst⟩ := List.find?_range_eq_some.mp hdone
    have hlt := List.mem_range.mp hmem
    -- the tables are all there, or there is only one to ask for, with the first page
    have h0 : done = 0 := by
      split at ht
      · rename_i hsec
        have hone : size = sectionSize := by
          rcases ht.2 with hpa | hone
          · exact absurd (by simp [wholeSections, hsec, hpa]) hwhole
          · exact hone
        by_contra hpos
        have := hfirst 0 (Nat.pos_of_ne_zero hpos)
        have hj : (va + done * pageSize) / sectionSize = (va + 0 * pageSize) / sectionSize := by
          unfold pageSize sectionSize at *
          omega
        rw [hj] at hlast
        rw [hlast] at this
        cases this
      · refine absurd ?_ (ht _ (inTables_page hlt))
        have := Option.isNone_iff_eq_none.mp hlast
        exact (Option.or_eq_none_iff.mp this).1
    subst h0
    rw [Nat.zero_mul, addTables_none, unmapPages_none]
  · cases h

/-- What a mapping and its undoing leave. -/
theorem vmmUnmapRange_mapRange (h : vmmMapRange a va pa size prot device table = (a', true)) :
    mapRangeOk va pa size prot = true ∧ vmmUnmapRange a' va size = undone a va size table := by
  have hpages : ∀ b : AddressSpace, (b.mapPages va pa size device).unmapPages va size =
      b.unmapPages va size := by
    intro b
    unfold AddressSpace.unmapPages AddressSpace.mapPages
    congr 1
    funext page
    split
    · rfl
    · next hp => exact if_neg hp
  unfold vmmMapRange at h
  split at h
  · cases h
  rename_i hok
  have hok : mapRangeOk va pa size prot = true := not_not.mp hok
  refine ⟨hok, ?_⟩
  simp only [mapRangeOk, decide_eq_true_eq] at hok
  unfold vmmUnmapRange undone
  rw [if_neg (by omega)]
  split at h
  · rename_i hwhole
    cases h
    simp only [wholeSections, decide_eq_true_eq] at hwhole
    have hsec : va % sectionSize = 0 ∧ size % sectionSize = 0 := ⟨hwhole.1, hwhole.2.2⟩
    rw [if_pos hsec, if_pos hsec, ← hpages a]
    unfold AddressSpace.dropTables
    congr 1
    funext j
    show (if inTables va size j = true then none else
      if inTables va size j = true then none else a.tables j) = _
    split <;> rfl
  split at h
  · cases h
  · cases h
    split
    · rename_i hsec
      rw [← hpages a]
      unfold AddressSpace.dropTables
      congr 1
      funext j
      show (if inTables va size j = true then none else
        if inTables va size j = true then _ else a.tables j) = _
      split <;> rfl
    · exact hpages _

/-- `VmmAddRegion` that fails changes nothing, whatever the vector. -/
theorem vmmAddRegion_false {r : Region} {ok : Bool} (h : vmmAddRegion m sp r ok = (m', false)) :
    m' = m := by
  cases has : m.as sp with
  | none =>
    simp only [vmmAddRegion, has] at h
    cases h
    rfl
  | some a =>
    simp only [vmmAddRegion, has] at h
    split_ifs at h <;> first | (cases h; rfl) | cases h

/-- A vector without room refuses every region. -/
theorem vmmAddRegion_noRoom {r : Region} : vmmAddRegion m sp r false = (m, false) := by
  cases has : m.as sp with
  | none => simp [vmmAddRegion, has]
  | some a => simp [vmmAddRegion, has]

theorem setAs_eq_self {o : Option AddressSpace} (h : m.as sp = o) : m.setAs sp o = m := by
  subst h
  simp [Mem.setAs]

theorem mapShared_error (h : mapShared m sp o prot limit hint env = (m', .error err)) : m' = m := by
  simp only [mapShared] at h
  split at h
  · cases h
    rfl
  split at h
  · cases h
    rfl
  split at h
  · cases h
  · rename_i m₁ hadd
    cases h
    exact vmmAddRegion_false hadd

/-- The pages a device mapping writes before it can still fail. -/
def deviceRange (k : K) (sp : SpaceId) (e : Entry) (prot : MemProt) (hint : Nat) :
    Option (Nat × Nat) :=
  let obj := k.mem.objs e.obj
  let size := alignUp obj.size pageSize
  if prot &&& ~~~handleProtLimit e.perms ≠ 0 ∨ e.mappedVa ≠ 0 ∨ obj.kind ≠ .device then none
  else
    match mapBase k.mem sp hint size userDeviceBase userDeviceLimit with
    | .error _ => none
    | .ok va => if mapRangeOk va obj.physBase size (prot ||| vmProtUser) then some (va, size)
      else none

/-- A device mapping that fails in a restorable range leaves the memory alone. -/
theorem mapDevice_error (has : m.as sp = some a)
    (h : mapDevice m sp o prot limit hint env = (m', .error err))
    (hr : ∀ va, mapBase m sp hint (alignUp (m.objs o).size pageSize) userDeviceBase
        userDeviceLimit = .ok va →
      mapRangeOk va (m.objs o).physBase (alignUp (m.objs o).size pageSize)
        (prot ||| vmProtUser) = true →
      Restorable a va (m.objs o).physBase (alignUp (m.objs o).size pageSize)) : m' = m := by
  simp only [mapDevice] at h
  split at h
  · cases h
    rfl
  rename_i va hbase
  have hr := hr va hbase
  simp only [has] at h
  split at h
  · rename_i a₁ hmap
    cases h
    rw [vmmMapRange_false hmap hr]
    exact setAs_eq_self has
  · rename_i a₁ hmap
    obtain ⟨hok, hundo⟩ := vmmUnmapRange_mapRange hmap
    split at h
    · cases h
    · rename_i m₁ hadd
      cases h
      rw [vmmAddRegion_false hadd, hundo, (hr hok).undone_eq]
      simp only [Mem.setAs, Function.update_idem]
      exact setAs_eq_self has

theorem deviceRange_some (h : deviceRange k sp e prot hint = some (va, size)) :
    prot &&& ~~~handleProtLimit e.perms = 0 ∧ e.mappedVa = 0 ∧
    (k.mem.objs e.obj).kind = .device ∧
    mapBase k.mem sp hint (alignUp (k.mem.objs e.obj).size pageSize) userDeviceBase
      userDeviceLimit = .ok va ∧
    mapRangeOk va (k.mem.objs e.obj).physBase (alignUp (k.mem.objs e.obj).size pageSize)
      (prot ||| vmProtUser) = true ∧ alignUp (k.mem.objs e.obj).size pageSize = size := by
  simp only [deviceRange] at h
  split at h
  · cases h
  rename_i hc
  simp only [not_or, not_not] at hc
  split at h
  · cases h
  rename_i hbase
  split at h
  · rename_i hok
    cases h
    exact ⟨hc.1, hc.2.1, hc.2.2, hbase, hok, rfl⟩
  · cases h

/-- Memory for page tables, but none for the region vector. -/
def noRegionRoom : Alloc := ⟨fun _ => none, poolTables, false, false⟩

/-- A pool with one table left, for the entry `j`. -/
def oneTable (j : Nat) : Alloc :=
  ⟨fun _ => none, fun i => if i = j then poolTables j else none, false, false⟩

theorem mapDevice_noRoom (has : m.as sp = some a)
    (hbase : mapBase m sp hint (alignUp (m.objs o).size pageSize) userDeviceBase
      userDeviceLimit = .ok va)
    (hok : mapRangeOk va (m.objs o).physBase (alignUp (m.objs o).size pageSize)
      (prot ||| vmProtUser) = true) :
    mapDevice m sp o prot limit hint noRegionRoom =
      (m.setAs sp (some (undone a va (alignUp (m.objs o).size pageSize) poolTables)),
        .error .noMem) := by
  rcases hmap : vmmMapRange a va (m.objs o).physBase (alignUp (m.objs o).size pageSize)
    (prot ||| vmProtUser) true poolTables with ⟨a₁, mapped⟩
  have hm : mapped = true := by
    unfold vmmMapRange at hmap
    rw [if_neg (by simp [hok])] at hmap
    split at hmap
    · cases hmap
      rfl
    split at hmap
    · rename_i done hdone
      have := List.find?_some hdone
      simp [poolTables] at this
    · cases hmap
      rfl
  subst hm
  obtain ⟨-, hundo⟩ := vmmUnmapRange_mapRange hmap
  simp only [mapDevice, hbase, has, noRegionRoom, hmap, vmmAddRegion_noRoom, hundo]
  simp only [Mem.setAs, Function.update_idem]

/-- A range of several sections that is mapped by pages fails at the second one if there is
only one table left, and that table stays. -/
theorem vmmMapRange_oneTable (device : Bool) (hok : mapRangeOk va pa size prot = true)
    (hsec : va % sectionSize = 0 ∧ size % sectionSize = 0) (hpa : pa % sectionSize ≠ 0)
    (hsize : size ≠ sectionSize) (ht : ∀ j, inTables va size j = true → a.tables j = none) :
    ∃ a', vmmMapRange a va pa size prot device (oneTable (va / sectionSize)).table = (a', false) ∧
      a'.tables (va / sectionSize) ≠ a.tables (va / sectionSize) := by
  have hpages : 256 < size / pageSize := by
    simp only [mapRangeOk, decide_eq_true_eq] at hok
    unfold pageSize sectionSize at *
    omega
  have hnone : ∀ i < size / pageSize, a.tables ((va + i * pageSize) / sectionSize) = none :=
    fun i hi => ht _ (inTables_page hi)
  rcases hmap : vmmMapRange a va pa size prot device (oneTable (va / sectionSize)).table
    with ⟨a', mapped⟩
  unfold vmmMapRange at hmap
  rw [if_neg (by simp [hok]), if_neg (by simp [wholeSections, hpa])] at hmap
  split at hmap
  · rename_i done hdone
    cases hmap
    refine ⟨_, rfl, ?_⟩
    obtain ⟨hlast, -, -⟩ := List.find?_range_eq_some.mp hdone
    have hpos : 0 < done := by
      refine Nat.pos_of_ne_zero fun h0 => ?_
      subst h0
      simp [oneTable, poolTables] at hlast
    have hin : inTables va (done * pageSize) (va / sectionSize) = true := by
      rw [inTables_iff]
      unfold pageSize sectionSize at *
      omega
    have h0 := hnone 0 (by omega)
    rw [Nat.zero_mul, Nat.add_zero] at h0
    simp [AddressSpace.unmapPages, AddressSpace.addTables, hin, h0, oneTable, poolTables]
  · rename_i hall
    refine absurd (List.find?_eq_none.mp hall 256 (List.mem_range.mpr hpages)) ?_
    have hj : (va + 256 * pageSize) / sectionSize ≠ va / sectionSize := by
      unfold pageSize sectionSize
      omega
    simp [hnone 256 hpages, oneTable, hj]

theorem mapDevice_oneTable (has : m.as sp = some a)
    (hbase : mapBase m sp hint (alignUp (m.objs o).size pageSize) userDeviceBase
      userDeviceLimit = .ok va)
    (hmap : vmmMapRange a va (m.objs o).physBase (alignUp (m.objs o).size pageSize)
      (prot ||| vmProtUser) true env.table = (a', false)) :
    mapDevice m sp o prot limit hint env = (m.setAs sp (some a'), .error .noMem) := by
  simp only [mapDevice, hbase, has, hmap]

/-- What the caller of a failing `VmmMapMemObj` may rely on: the regions, the translations and
the second-level tables of the space, the handle's entry and the allocated frames. -/
structure SameSpace (k k' : K) (sp : SpaceId) (i : Nat) : Prop where
  space : k'.mem.as sp = k.mem.as sp
  entry : handleTableGet (k'.tables sp) i = handleTableGet (k.tables sp) i
  frames : k'.mem.frames = k.mem.frames

theorem vmmMapMemObj_error (has : k.mem.as sp = some a)
    (h : vmmMapMemObj k sp i e prot hint env = (k', .error err))
    (hr : ∀ va size, deviceRange k sp e prot hint = some (va, size) →
      Restorable a va (k.mem.objs e.obj).physBase size) : k' = k := by
  simp only [vmmMapMemObj] at h
  split at h
  · cases h
    rfl
  rename_i hlimit
  split at h
  · cases h
    rfl
  rename_i hva
  split at h
  · rename_i err' herr
    cases h
    split at herr
    · rename_i hkind
      exact congrArg k.setMem (mapShared_error (Prod.ext rfl herr))
    · rename_i hkind
      refine congrArg k.setMem (mapDevice_error has (Prod.ext rfl herr) fun va hbase hok =>
        hr va _ ?_)
      simp [deviceRange, hkind, hbase, hok, not_not.mp hlimit, not_not.mp hva]
    · rfl
  · cases h

/-- What a device mapping that fails makes of the space is what the call makes of it. -/
theorem SameSpace.mapDevice (has : k.mem.as sp = some a)
    (h : ∀ env k' err, vmmMapMemObj k sp i e prot hint env = (k', .error err) →
      SameSpace k k' sp i)
    (hr : deviceRange k sp e prot hint = some (va, size))
    (hd : mapDevice k.mem sp e.obj prot (handleProtLimit e.perms) hint env =
      (k.mem.setAs sp (some a'), .error err)) : a' = a := by
  obtain ⟨hlimit, hva, hkind, -⟩ := deviceRange_some hr
  have hcall : vmmMapMemObj k sp i e prot hint env =
      (k.setMem (k.mem.setAs sp (some a')), .error err) := by
    simp only [vmmMapMemObj, hlimit, hva, hkind, hd, ne_eq, not_true_eq_false, if_false]
  have hspace := (h _ _ _ hcall).space
  simpa only [K.setMem_mem, Mem.setAs_as, Function.update_self, has, Option.some.injEq] using hspace

/-! ## Two devices -/

/-- A root service with two devices of one page each, in slots 16 and 17. -/
def twoDevices : Boot where
  devices := [⟨true, some (0x09000000, 0x1000, 33)⟩, ⟨true, some (0x09010000, 0x1000, 34)⟩]
  as := initialAs 0x40005000 0x40006000 poolTables
  frames pa := pa = 0x40006000
  unbacked := by decide

/-- Memory for page tables and for the region vector. -/
def roomy : Alloc := ⟨fun _ => none, poolTables, true, true⟩

/-- `VmmMapMemObj` on the root space's handle in slot `i`, read and write. -/
def mapSlot (k : K) (i hint : Nat) (env : Alloc) : K × Except Err Nat :=
  match handleTableGet (k.tables 0) i with
  | none => (k, .error .badHandle)
  | some e => vmmMapMemObj k 0 i e (protRead ||| protWrite) hint env

/-- The first device is mapped at the start of the device window. -/
def oneMapped : K := (mapSlot twoDevices.state 16 userDeviceBase roomy).1

/-- What an address of the root space is mapped to. -/
def translate (k : K) (va : Nat) : Option Pte := (k.mem.as 0).bind fun a => a.pages (va / pageSize)

/-- The second-level table that an address of the root space goes through. -/
def tableAt (k : K) (va : Nat) : Option Nat :=
  (k.mem.as 0).bind fun a => a.tables (va / sectionSize)

/-- In a new space a device mapping that fails for want of a region leaves a second-level table
in the device window. -/
theorem mapDevice_leaves_table :
    let r := mapSlot twoDevices.state 16 userDeviceBase noRegionRoom
    r.2 = .error .noMem ∧ tableAt twoDevices.state userDeviceBase = none ∧
      (tableAt r.1 userDeviceBase).isSome := by
  decide +kernel

end Zuzu.L3
