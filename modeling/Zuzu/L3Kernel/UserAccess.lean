import Zuzu.L3Kernel.Regions
import Zuzu.L3Kernel.VmmUser

/-!
# Kernel access to user memory

`CopyToUser` and `CopyFromUser` ask `VmmCheckUserFault` whether the caller may
touch a range, which faults in what is not mapped yet. The check looks up the
region of a page only if the page has no translation: a page that is mapped
already passes whatever its region allows.

Results:
* `userAccess_allowed_iff`: the pages of an accepted range are all allowed if and only
  if those among them that were mapped before are.
* `copyToUser_syspage`: the kernel writes to the read-only system page for any task
  that names it as a buffer.
-/
namespace Zuzu.L3
open Function Zuzu.Core

variable {m m' : Mem} {a a' : AddressSpace} {r : Region} {sp : SpaceId} {va pa len page : Nat}
  {write : Bool} {env : Alloc}

/-! ## One fault -/

theorem inRange_iff {size : Nat} : inRange va size page = true ↔
    va / pageSize ≤ page ∧ page < va / pageSize + size / pageSize := by
  simp [inRange]

theorem addTables_none (a : AddressSpace) (va : Nat) (table : Nat → Option Nat) :
    a.addTables va 0 table = a := by
  simp [AddressSpace.addTables, inTables]

theorem unmapPages_none (a : AddressSpace) (va : Nat) : a.unmapPages va 0 = a := by
  have hno : ∀ page, inRange va 0 page = false := by
    intro page
    simp [inRange]
  simp [AddressSpace.unmapPages, hno]

theorem mapPages_page (a : AddressSpace) (va pa : Nat) (device : Bool) :
    a.mapPages va pa pageSize device =
      { a with pages := update a.pages (va / pageSize) (some ⟨pa, device⟩) } := by
  unfold AddressSpace.mapPages
  congr 1
  funext page
  have hone : pageSize / pageSize = 1 := rfl
  by_cases hp : page = va / pageSize
  · subst hp
    rw [update_self, if_pos (inRange_iff.mpr (by omega)), Nat.sub_self]
    rfl
  · rw [update_of_ne hp, if_neg (fun h => hp (by have := inRange_iff.mp h; omega))]

/-- Mapping one page changes that page, and may attach a table, or, on failure, changes
nothing. -/
theorem vmmMapRange_page (a : AddressSpace) (va pa : Nat) (prot : MemProt) (device : Bool)
    (table : Nat → Option Nat) :
    (∃ tables, vmmMapRange a va pa pageSize prot device table =
      (⟨a.regions, update a.pages (va / pageSize) (some ⟨pa, device⟩), tables⟩, true)) ∨
    vmmMapRange a va pa pageSize prot device table = (a, false) := by
  unfold vmmMapRange
  split
  · exact .inr rfl
  split
  · rw [mapPages_page]
    unfold AddressSpace.dropTables
    exact .inl ⟨_, rfl⟩
  split
  · rename_i done hdone
    -- the only page is the first one, so nothing was mapped before the failure
    have h0 : done = 0 := by
      have := List.mem_range.mp (List.mem_of_find?_eq_some hdone)
      unfold pageSize at this
      omega
    subst h0
    rw [Nat.zero_mul, addTables_none, unmapPages_none]
    exact .inr rfl
  · rw [mapPages_page]
    unfold AddressSpace.addTables
    exact .inl ⟨_, rfl⟩

/-- The frame allocator answers with a frame that was free. -/
theorem pmmAllocFrame_cases {pick : Option Nat} (h : pmmAllocFrame m pick = (m', pa)) :
    (pa = 0 ∧ m' = m) ∨ (pa ≠ 0 ∧ m.frames pa = false ∧
      m' = { m with frames := update m.frames pa true }) := by
  unfold pmmAllocFrame at h
  split at h
  · cases h
    exact .inl ⟨rfl, rfl⟩
  · split at h
    · cases h
      exact .inl ⟨rfl, rfl⟩
    · rename_i hc
      cases h
      simp only [not_or, Bool.not_eq_true] at hc
      exact .inr ⟨hc.1, hc.2.2, rfl⟩

/-- The page at `va` is mapped to the frame `pa`. -/
def Mem.mapPage (m : Mem) (sp : SpaceId) (a : AddressSpace) (va pa : Nat)
    (tables : Nat → Option Nat) : Mem :=
  m.setAs sp (some ⟨a.regions,
    Function.update a.pages (va / pageSize) (some ⟨pa, false⟩), tables⟩)

def Mem.takeFrame (m : Mem) (pa : Nat) : Mem :=
  { m with frames := Function.update m.frames pa true }

/-- Page `index` of object `o` gets the frame `pa`. -/
def Mem.fillPage (m : Mem) (o : MemId) (index pa : Nat) : Mem :=
  m.modObj o fun k => { k with pageAddrs := Function.update k.pageAddrs index pa }

/-- The page of its object that an address in region `r` denotes. -/
def Region.pageIndex (r : Region) (va : Nat) : Nat :=
  (va - r.vaddrStart) / pageSize + r.backingPageOffset

/-- The ways a fault at `va` in region `r` succeeds. -/
inductive Fault (m : Mem) (sp : SpaceId) (a : AddressSpace) (r : Region) (va : Nat) : Mem → Prop
  | mapped (h : (a.pages (va / pageSize)).isSome) : Fault m sp a r va m
  | shared {o : MemId} {tables : Nat → Option Nat} (hnone : a.pages (va / pageSize) = none)
      (ho : r.sharedBacking = some o)
      (hge : r.vaddrStart ≤ va) (hlt : r.pageIndex va < (m.objs o).pageCount)
      (hpa : (m.objs o).pageAddrs (r.pageIndex va) ≠ 0) :
      Fault m sp a r va (m.mapPage sp a va ((m.objs o).pageAddrs (r.pageIndex va)) tables)
  | fill {o : MemId} {pa : Nat} {tables : Nat → Option Nat} (hnone : a.pages (va / pageSize) = none)
      (ho : r.sharedBacking = some o) (hge : r.vaddrStart ≤ va)
      (hlt : r.pageIndex va < (m.objs o).pageCount)
      (hz : (m.objs o).pageAddrs (r.pageIndex va) = 0) (hpa : pa ≠ 0)
      (hfree : m.frames pa = false) :
      Fault m sp a r va (((m.takeFrame pa).fillPage o (r.pageIndex va) pa).mapPage sp a va pa
        tables)
  | anon {pa : Nat} {tables : Nat → Option Nat} (hnone : a.pages (va / pageSize) = none)
      (ho : r.owner = .anon) (hpa : pa ≠ 0) (hfree : m.frames pa = false) :
      Fault m sp a r va ((m.takeFrame pa).mapPage sp a va pa tables)

/-- Giving a frame back that was just taken. -/
theorem pmmFreeFrame_takeFrame (hfree : m.frames pa = false) :
    pmmFreeFrame (m.takeFrame pa) pa = m := by
  simp only [pmmFreeFrame, Mem.takeFrame, update_idem]
  rw [← hfree, update_eq_self]

theorem fillPage_same {o : MemId} {i : Nat} (h : (m.objs o).pageAddrs i = pa) :
    m.fillPage o i pa = m := by
  simp only [Mem.fillPage, Mem.modObj]
  rw [← h, update_eq_self, update_eq_self]

theorem fillPage_undo {o : MemId} {index : Nat} (h : (m.objs o).pageAddrs index = 0) :
    (m.fillPage o index pa).fillPage o index 0 = m := by
  simp only [Mem.fillPage, Mem.modObj, update_self, update_idem]
  rw [← h, update_eq_self, update_eq_self]

/-- A fault is handled in one of the four ways, or changes nothing. -/
theorem vmmPageFaultHandle_cases {ok : Bool} (has : m.as sp = some a)
    (h : vmmPageFaultHandle m sp r va env = (m', ok)) :
    if ok then Fault m sp a r va m' else m' = m := by
  simp only [vmmPageFaultHandle, has] at h
  by_cases hsome : (a.pages (va / pageSize)).isSome
  · rw [if_pos hsome] at h
    cases h
    exact .mapped hsome
  have hnone : a.pages (va / pageSize) = none := by simpa using hsome
  rw [if_neg hsome] at h
  by_cases hdev : r.memtype = .device
  · rw [if_pos hdev] at h
    cases h
    rfl
  rw [if_neg hdev] at h
  split at h
  · rename_i o ho
    split at h
    · cases h
      rfl
    rename_i hidx
    simp only [not_or, Nat.not_lt, Nat.not_le] at hidx
    by_cases hold : (m.objs o).pageAddrs (r.pageIndex va) = 0
    · rcases hfr : pmmAllocFrame m (env.frame (va / pageSize)) with ⟨m₁, pa⟩
      rw [← Region.pageIndex] at h
      simp only [hold, hfr, ne_eq, not_true_eq_false, if_false] at h
      rcases pmmAllocFrame_cases hfr with ⟨rfl, rfl⟩ | ⟨h0, hfree, rfl⟩
      · cases h
        rfl
      rw [if_neg h0] at h
      rcases vmmMapRange_page a va pa r.prot false env.table with ⟨tables, hmap⟩ | hmap
      · rw [hmap] at h
        cases h
        exact Fault.fill hnone ho hidx.1 hidx.2 hold h0 hfree
      · rw [hmap] at h
        cases h
        show pmmFreeFrame (((m.takeFrame pa).fillPage o (r.pageIndex va) pa).fillPage o
          (r.pageIndex va) 0) pa = m
        rw [fillPage_undo (m := m.takeFrame pa) hold, pmmFreeFrame_takeFrame hfree]
    · rw [← Region.pageIndex] at h
      simp only [hold, ne_eq, not_false_eq_true, if_true, if_false] at h
      have hsame := fillPage_same (m := m) (o := o) (i := r.pageIndex va) rfl
      rcases vmmMapRange_page a va ((m.objs o).pageAddrs (r.pageIndex va)) r.prot false env.table
        with ⟨tables, hmap⟩ | hmap
      · rw [hmap] at h
        cases h
        show Fault m sp a r va ((m.fillPage o (r.pageIndex va)
          ((m.objs o).pageAddrs (r.pageIndex va))).mapPage sp a va _ tables)
        rw [hsame]
        exact Fault.shared hnone ho hidx.1 hidx.2 hold
      · rw [hmap] at h
        cases h
        exact hsame
  · split at h
    · cases h
      rfl
    rename_i howner
    rcases hfr : pmmAllocFrame m (env.frame (va / pageSize)) with ⟨m₁, pa⟩
    simp only [hfr] at h
    rcases pmmAllocFrame_cases hfr with ⟨rfl, rfl⟩ | ⟨h0, hfree, rfl⟩
    · cases h
      rfl
    rw [if_neg h0] at h
    rcases vmmMapRange_page a va pa r.prot false env.table with ⟨tables, hmap⟩ | hmap
    · rw [hmap] at h
      cases h
      exact Fault.anon hnone (not_not.mp howner) h0 hfree
    · rw [hmap] at h
      cases h
      exact pmmFreeFrame_takeFrame hfree

/-- A handled fault leaves the regions and the other pages of the space alone. -/
theorem Fault.frame (has : m.as sp = some a) (h : Fault m sp a r va m') :
    ∃ a', m'.as = update m.as sp (some a') ∧ a'.regions = a.regions ∧
      ∀ q ≠ va / pageSize, a'.pages q = a.pages q := by
  cases h with
  | mapped h => exact ⟨a, by rw [← has, update_eq_self], rfl, fun _ _ => rfl⟩
  | shared => exact ⟨_, rfl, rfl, fun q hq => update_of_ne hq _ _⟩
  | fill => exact ⟨_, rfl, rfl, fun q hq => update_of_ne hq _ _⟩
  | anon => exact ⟨_, rfl, rfl, fun q hq => update_of_ne hq _ _⟩

/-! ## The check -/

/-- The page lies in a region that is no guard and lets the task read it, and write it
if `write`. Regions start and end on page boundaries, so the first byte decides. -/
def Allowed (a : AddressSpace) (write : Bool) (page : Nat) : Prop :=
  ∃ r ∈ a.regions, r.Contains (page * pageSize) ∧ r.guard = false ∧ r.prot &&& protRead ≠ 0 ∧
    (write = true → r.prot &&& protWrite ≠ 0)

/-- A page with a byte in `[va, va + len)`. -/
def Overlaps (va len page : Nat) : Prop := va < (page + 1) * pageSize ∧ page * pageSize < va + len

/-- A page that had no translation is accepted only where its region allows it. -/
theorem checkPages_allowed : ∀ {pages : List Nat} {m : Mem} {a : AddressSpace},
    m.as sp = some a → pages.Nodup → (checkPages sp write env pages m).2 = true →
    ∀ p ∈ pages, a.pages p = none → Allowed a write p := by
  intro pages
  induction pages with
  | nil => exact nofun
  | cons q pages ih =>
    intro m a has hnd h p hp hnone
    obtain ⟨hq, hnd⟩ := List.nodup_cons.mp hnd
    simp only [checkPages, has] at h
    split at h
    · rename_i hsome
      rcases List.mem_cons.mp hp with rfl | hp
      · rw [hnone] at hsome
        cases hsome
      · exact ih has hnd h p hp hnone
    · split at h
      · cases h
      rename_i r hfind
      split at h
      · cases h
      rename_i hallow
      split at h
      · rename_i m₁ hfault
        have hF := vmmPageFaultHandle_cases has hfault
        obtain ⟨a', has', hreg, hpages⟩ := Fault.frame has hF
        have hmul : q * pageSize / pageSize = q := Nat.mul_div_cancel _ (by decide)
        rw [hmul] at hpages
        rcases List.mem_cons.mp hp with rfl | hp
        · obtain ⟨hmem, hc⟩ := vmmFindRegion_some hfind
          simp only [not_or, Bool.not_eq_true, not_and] at hallow
          exact ⟨r, hmem, hc, hallow.1, hallow.2.1, fun hw => hallow.2.2 hw⟩
        · have hne : p ≠ q := fun e => hq (e ▸ hp)
          have := ih (m := m₁) (a := a') (by rw [has', update_self]) hnd h p hp
            ((hpages p hne).trans hnone)
          simpa only [Allowed, hreg] using this
      · cases h

theorem pageList_mem (h : va + len ≤ userVaTop) (hlen : 0 < len) : Overlaps va len page ↔
    page ∈ (List.range (alignUp (va + len) pageSize / pageSize - va / pageSize)).map
      (va / pageSize + ·) := by
  simp only [List.mem_map, List.mem_range, Overlaps]
  unfold alignUp pageSize wordSize userVaTop at *
  constructor
  · intro ho
    exact ⟨page - va / 4096, by omega, by omega⟩
  · rintro ⟨i, hi, rfl⟩
    omega

theorem pageList_nodup (first n : Nat) : ((List.range n).map (first + ·)).Nodup :=
  List.nodup_range.map (add_right_injective first)

/-- A range whose pages that were mapped before are allowed is allowed throughout once
the check accepts it. -/
theorem checkUserFault_allowed (has : m.as sp = some a) (hlen : 0 < len)
    (h : (vmmCheckUserFault m sp va len write env).2 = true)
    (hmapped : ∀ page, Overlaps va len page → a.pages page ≠ none → Allowed a write page)
    (ho : Overlaps va len page) : Allowed a write page := by
  by_cases hp : a.pages page = none
  · simp only [vmmCheckUserFault, Nat.ne_of_gt hlen, if_false] at h
    split at h
    · cases h
    split at h
    · cases h
    rename_i hrange
    simp only [not_or, Nat.not_le, Nat.not_lt] at hrange
    exact checkPages_allowed has (pageList_nodup _ _) h page
      ((pageList_mem hrange.2 hlen).mp ho) hp
  · exact hmapped page ho hp

/-- `CopyToUser` and `CopyFromUser` go through the check. -/
theorem copyUser_check (hlen : 0 < len) (h : (copyUser m sp va len write env).2 = true) :
    (vmmCheckUserFault m sp va len write env).2 = true := by
  simp only [copyUser, Nat.ne_of_gt hlen, if_false] at h
  split at h
  · cases h
  split at h
  · cases h
  exact h

/-- When `VmmCheckUserFault` accepts a range, all its pages are allowed if and only if
those that were mapped before are; and so for the pages `CopyToUser` stores into. -/
theorem userAccess_allowed_iff (has : m.as sp = some a) (hlen : 0 < len) :
    ((vmmCheckUserFault m sp va len write env).2 = true →
      ((∀ page, Overlaps va len page → Allowed a write page) ↔
        ∀ page, Overlaps va len page → a.pages page ≠ none → Allowed a write page)) ∧
    ((copyUser m sp va len true env).2 = true →
      ((∀ page, Overlaps va len page → Allowed a true page) ↔
        ∀ page, Overlaps va len page → a.pages page ≠ none → Allowed a true page)) :=
  ⟨fun h => ⟨fun hall page ho _ => hall page ho, fun hm _ => checkUserFault_allowed has hlen h hm⟩,
    fun h => ⟨fun hall page ho _ => hall page ho,
      fun hm _ => checkUserFault_allowed has hlen (copyUser_check hlen h) hm⟩⟩

/-- A new space and nothing else: the system page and the first thread-local page are
mapped. -/
def newSpaceMem : Mem where
  objs _ := MemObj.zero
  as _ := some (initialAs 0x40005000 0x40006000 poolTables)
  frames pa := pa = 0x40005000 ∨ pa = 0x40006000
  newObj := 0

/-- An allocator without memory. -/
def noAlloc : Alloc := ⟨fun _ => none, fun _ => none, false, false⟩

/-- Writing to the thread-local page of a new space. -/
theorem userAccess_newSpace : (copyUser newSpaceMem 0 userMmapBase 8 true noAlloc).2 = true ∧
    ∀ page, Overlaps userMmapBase 8 page →
      Allowed (initialAs 0x40005000 0x40006000 poolTables) true page := by
  have hc : (copyUser newSpaceMem 0 userMmapBase 8 true noAlloc).2 = true := by decide +kernel
  have hiff := (@userAccess_allowed_iff newSpaceMem _ 0 userMmapBase 8 true noAlloc rfl
    (by decide)).2 hc
  refine ⟨hc, hiff.mpr fun page ho _ => ?_⟩
  have hpage : page = userMmapBase / pageSize := by
    unfold Overlaps userMmapBase pageSize at *
    omega
  subst hpage
  exact ⟨_, List.mem_cons_of_mem _ List.mem_cons_self, by decide, rfl, by decide, by decide⟩

/-- In a new space the system page at 0x1000 is mapped read-only and in a guard region,
and yet `CopyToUser` of a register file (68 bytes) to it goes ahead: the page has a
translation, so its region is never looked at. -/
theorem copyToUser_syspage : (copyUser newSpaceMem 0 userSyspageVa 68 true noAlloc).2 = true ∧
    Overlaps userSyspageVa 68 1 ∧ ¬Allowed (initialAs 0x40005000 0x40006000 poolTables) true 1 := by
  refine ⟨by decide +kernel, by unfold Overlaps userSyspageVa pageSize; omega, ?_⟩
  rintro ⟨r, hr, hc, hg, -, hw⟩
  have hcases : r.guard = true ∨ ¬r.Contains (1 * pageSize) := by
    revert r
    decide
  rcases hcases with h | h
  · rw [hg] at h
    cases h
  · exact h hc

end Zuzu.L3
