import Zuzu.L3Kernel.UserAccess
import Zuzu.L4Loader.LoadPlan

/-!
# Memory of a space that is being loaded

Every page of the new space but the system page has a frame of its own (`SpaceOk`), so that
filling a fresh frame changes no other page. A page is mapped before its region is
added; `extra` are the pages in between. `Keeps` says what a step of the loader leaves alone: all
addresses in regions of the space, outside the system page and the stack.
-/
namespace Zuzu.L4
open Function Zuzu.Core Zuzu.L3

variable {extra : Nat → Prop} {m m' : Mem} {sp : SpaceId} {a a' a'' : AddressSpace}
  {pa page q : Nat} {ram ram' ram'' : Ram} {r : Region} {va : Nat} {tables : Nat → Option Nat}

/-! ## Bytes -/

theorem Ram.write_outside {len : Nat} {src : Bytes} {x : Nat} (h : x < pa ∨ pa + len ≤ x) :
    ram.write pa len src x = ram x := by
  rw [Ram.write, if_neg (by omega)]

theorem Ram.write_inside {len i : Nat} {src : Bytes} (h : i < len) :
    ram.write pa len src (pa + i) = src i := by
  rw [Ram.write, if_pos (by omega), Nat.add_sub_cancel_left]

/-- The byte at an address; a page that is not mapped reads as zero. -/
def byteIn (a : AddressSpace) (ram : Ram) (va : Nat) : Byte :=
  match a.pages (va / pageSize) with
  | none => 0#8
  | some e => ram (e.pa + va % pageSize)

theorem byteAt_eq (h : m.as sp = some a) (hva : va < userVaTop)
    (hr : ∃ r ∈ a.regions, r.owner = .anon ∧ r.Contains va) :
    byteAt m ram sp va = some (byteIn a ram va) := by
  have hany : (a.regions.any fun r =>
      r.owner = .anon ∧ r.vaddrStart ≤ va ∧ va < r.vaddrStart + r.size) = true := by
    obtain ⟨r, hr, hanon, hc⟩ := hr
    exact List.any_eq_true.mpr ⟨r, hr, decide_eq_true ⟨hanon, hc⟩⟩
  rw [byteAt, if_neg (Nat.not_le.mpr hva), h, Option.bind_some, byteIn]
  split
  · rename_i he
    rw [he]
  · rename_i he
    rw [he, if_pos hany]

/-- A page that is mapped as before, with the contents it had. -/
structure SamePage (a a' : AddressSpace) (ram ram' : Ram) (page : Nat) : Prop where
  pages : a'.pages page = a.pages page
  bytes : ∀ e, a.pages page = some e → ∀ i < pageSize, ram' (e.pa + i) = ram (e.pa + i)

theorem SamePage.byteIn_eq (h : SamePage a a' ram ram' (va / pageSize)) :
    byteIn a' ram' va = byteIn a ram va := by
  unfold byteIn
  rw [h.pages]
  cases he : a.pages (va / pageSize) with
  | none => rfl
  | some e => exact h.bytes e he _ (Nat.mod_lt _ (by decide))

/-! ## The space -/

def syspage : Nat := userSyspageVa / pageSize

def Covered (a : AddressSpace) (page : Nat) : Prop :=
  ∃ r ∈ regular a.regions, r.vaddrStart ≤ page * pageSize ∧ (page + 1) * pageSize ≤ r.stop

structure SpaceOk (extra : Nat → Prop) (m : Mem) (sp : SpaceId) (a : AddressSpace) : Prop where
  as : m.as sp = some a
  regions : Stacked a.regions
  sys : ∃ r ∈ regular a.regions, r.vaddrStart = userSyspageVa ∧ r.stop = userSyspageVa + pageSize
  stack : ∃ r ∈ regular a.regions, r.vaddrStart = userStackBase ∧ r.stop = userStackTop
  anon : ∀ r ∈ a.regions, r.stop ≤ userStackBase ∨ r.owner = .anon
  covered : ∀ page e, a.pages page = some e → Covered a page ∨ extra page
  owned : ∀ page e, a.pages page = some e → page ≠ syspage →
    m.frames e.pa = true ∧ e.pa % pageSize = 0
  inj : ∀ p q e f, a.pages p = some e → a.pages q = some f → p ≠ syspage → q ≠ syspage →
    e.pa = f.pa → p = q

/-- Nothing is left without a region. -/
abbrev SpaceOk' : Mem → SpaceId → AddressSpace → Prop := SpaceOk fun _ => False

theorem SpaceOk.absorb (h : SpaceOk extra m sp a) (he : ∀ page, extra page → Covered a page) :
    SpaceOk' m sp a :=
  ⟨h.as, h.regions, h.sys, h.stack, h.anon,
    fun page e hp => .inl ((h.covered page e hp).elim id (he page)), h.owned, h.inj⟩

/-- A page of the space is mapped to a frame. -/
def mapTo (a : AddressSpace) (page pa : Nat) (tables : Nat → Option Nat) : AddressSpace :=
  ⟨a.regions, Function.update a.pages page (some ⟨pa, false⟩), tables⟩

theorem mapTo_pages : (mapTo a page pa tables).pages = update a.pages page (some ⟨pa, false⟩) :=
  rfl

theorem SpaceOk.mapFresh (h : SpaceOk extra m sp a) (hfree : m.frames pa = false)
    (hpa : pa % pageSize = 0) (page : Nat) (tables : Nat → Option Nat) :
    SpaceOk (fun q => extra q ∨ q = page)
      ((m.takeFrame pa).setAs sp (some (mapTo a page pa tables))) sp (mapTo a page pa tables) := by
  have hold : ∀ q e, q ≠ page → (mapTo a page pa tables).pages q = some e → a.pages q = some e := by
    intro q e hq he
    rwa [mapTo_pages, update_of_ne hq] at he
  have hnew : ∀ e, (mapTo a page pa tables).pages page = some e → e.pa = pa := by
    intro e he
    rw [mapTo_pages, update_self] at he
    cases he
    rfl
  have hne : ∀ q e, a.pages q = some e → q ≠ syspage → e.pa ≠ pa := by
    intro q e he hq heq
    have := (h.owned q e he hq).1
    rw [heq, hfree] at this
    cases this
  refine ⟨update_self _ _ _, h.regions, h.sys, h.stack, h.anon, fun q e he => ?_,
    fun q e he hq => ?_, fun p q e f he hf hp hq heq => ?_⟩
  · by_cases hqp : q = page
    · exact .inr (.inr hqp)
    · exact (h.covered q e (hold q e hqp he)).imp_right Or.inl
  · by_cases hqp : q = page
    · rw [hnew e (hqp ▸ he)]
      exact ⟨update_self _ _ _, hpa⟩
    · obtain ⟨h1, h2⟩ := h.owned q e (hold q e hqp he) hq
      refine ⟨?_, h2⟩
      show update m.frames pa true e.pa = true
      rw [update_of_ne (hne q e (hold q e hqp he) hq), h1]
  · by_cases hpp : p = page
    · by_cases hqp : q = page
      · rw [hpp, hqp]
      · rw [hnew e (hpp ▸ he)] at heq
        exact absurd heq.symm (hne q f (hold q f hqp hf) hq)
    · by_cases hqp : q = page
      · rw [hnew f (hqp ▸ hf)] at heq
        exact absurd heq (hne p e (hold p e hpp he) hp)
      · exact h.inj p q e f (hold p e hpp he) (hold q f hqp hf) hp hq heq

/-- Two frames have no address in common. -/
theorem frames_apart {pb i : Nat} (ha : pa % pageSize = 0) (hb : pb % pageSize = 0) (hne : pa ≠ pb)
    (hi : i < pageSize) : pa + i < pb ∨ pb + pageSize ≤ pa + i := by
  have h4 : pageSize = 4096 := rfl
  rw [h4] at ha hb hi ⊢
  omega

/-- The other pages keep their contents, whatever is written to the fresh frame. -/
theorem SpaceOk.samePage_mapFresh (h : SpaceOk extra m sp a) (hfree : m.frames pa = false)
    (hpa : pa % pageSize = 0) (hq : q ≠ page) (hsys : q ≠ syspage)
    (hram : ∀ x, x < pa ∨ pa + pageSize ≤ x → ram' x = ram x) :
    SamePage a (mapTo a page pa tables) ram ram' q := by
  refine ⟨update_of_ne hq _ _, fun e he i hi => hram _ ?_⟩
  obtain ⟨h1, h2⟩ := h.owned q e he hsys
  refine frames_apart h2 hpa ?_ hi
  rintro rfl
  rw [hfree] at h1
  cases h1

/-! ## What a step leaves alone -/

/-- An address in a region of the space, outside the system page and the stack. -/
structure Own (a : AddressSpace) (va : Nat) : Prop where
  region : ∃ r ∈ regular a.regions, r.owner = .anon ∧ r.Contains va
  sys : va / pageSize ≠ syspage
  stack : ¬(userStackBase ≤ va ∧ va < userStackTop)

structure Keeps (a a' : AddressSpace) (ram ram' : Ram) : Prop where
  regions : ∀ r ∈ regular a.regions, r ∈ regular a'.regions
  bytes : ∀ va, Own a va → byteIn a' ram' va = byteIn a ram va

theorem Own.mono (h : Own a va) (hr : ∀ r ∈ regular a.regions, r ∈ regular a'.regions) :
    Own a' va := by
  obtain ⟨r, hm, hc⟩ := h.region
  exact ⟨⟨r, hr r hm, hc⟩, h.sys, h.stack⟩

theorem Keeps.refl : Keeps a a ram ram := ⟨fun _ hr => hr, fun _ _ => rfl⟩

theorem Keeps.trans (h : Keeps a a' ram ram') (h' : Keeps a' a'' ram' ram'') :
    Keeps a a'' ram ram'' :=
  ⟨fun r hr => h'.regions r (h.regions r hr), fun va hva =>
    (h'.bytes va (hva.mono h.regions)).trans (h.bytes va hva)⟩

/-- A new region that fits is disjoint from the system page and the stack. -/
theorem SpaceOk.own_of_fits (h : SpaceOk extra m sp a) (hf : Fits (regular a.regions) r)
    (hc : r.Contains va) (hanon : r.owner = .anon) (hm : r.stored ∈ regular a'.regions) :
    Own a' va := by
  obtain ⟨x, hx, hx1, hx2⟩ := h.sys
  obtain ⟨y, hy, hy1, hy2⟩ := h.stack
  have h1 := hf x hx
  have h2 := hf y hy
  rw [hx1, hx2] at h1
  rw [hy1, hy2] at h2
  obtain ⟨h3, h4⟩ := hc
  refine ⟨⟨r.stored, hm, hanon, h3, h4⟩, ?_, by omega⟩
  have h5 : userSyspageVa = 4096 := rfl
  have h6 : pageSize = 4096 := rfl
  have h7 : syspage = 1 := rfl
  rw [h5, h6] at h1
  rw [h6, h7]
  omega

/-- No page is mapped at an address in a region that fits. -/
theorem SpaceOk.unmapped_of_fits (h : SpaceOk' m sp a) (hf : Fits (regular a.regions) r)
    (hc : r.Contains va) : a.pages (va / pageSize) = none := by
  cases he : a.pages (va / pageSize) with
  | none => rfl
  | some e =>
    obtain ⟨x, hx, h1, h2⟩ := (h.covered _ e he).resolve_right id
    have h3 := hf x hx
    obtain ⟨h4, h5⟩ := hc
    have h6 : pageSize = 4096 := rfl
    rw [h6] at h1 h2
    omega

/-! ## Adding a region -/

/-- A region that `VmmAddRegion` accepts takes in the pages that had none yet. -/
theorem SpaceOk.addRegion {rs : List Region} (h : SpaceOk extra m sp a) (hanon : r.owner = .anon)
    (hadd : L4.addRegion a.regions r = some rs) (hin : ∀ q, extra q → r.stop < wordSize ∧
      r.vaddrStart ≤ q * pageSize ∧ (q + 1) * pageSize ≤ r.stop) :
    (r.stop < wordSize → Fits (regular a.regions) r ∧ r.stored ∈ regular rs) ∧
      (∀ x ∈ regular a.regions, x ∈ regular rs) ∧
      SpaceOk' (m.setAs sp (some { a with regions := rs })) sp { a with regions := rs } := by
  obtain ⟨rfl, hplace⟩ := h.regions.placed hadd
  have hkeep : ∀ x ∈ regular a.regions, x ∈ regular (insertRegion a.regions r) :=
    fun x hx => regular_insert hx
  have hnew : r.stop < wordSize → r.stored ∈ regular (insertRegion a.regions r) :=
    fun hshort => mem_regular.mpr ⟨mem_insertRegion.mpr (.inl rfl), hshort⟩
  refine ⟨fun hshort => ⟨hplace.fits hshort, hnew hshort⟩, hkeep, update_self _ _ _,
    h.regions.insert hplace, ?_, ?_, fun x hx => ?_, fun page e he => .inl ?_, h.owned, h.inj⟩
  · obtain ⟨x, hx, hs⟩ := h.sys
    exact ⟨x, hkeep x hx, hs⟩
  · obtain ⟨x, hx, hs⟩ := h.stack
    exact ⟨x, hkeep x hx, hs⟩
  · rcases mem_insertRegion.mp hx with rfl | hx
    · exact .inr hanon
    · exact h.anon x hx
  · rcases h.covered page e he with ⟨x, hx, hs⟩ | hextra
    · exact ⟨x, hkeep x hx, hs⟩
    · obtain ⟨hshort, hpage⟩ := hin page hextra
      exact ⟨r.stored, hnew hshort, hpage⟩

/-! ## The stack -/

/-- A page of the stack reserve. -/
def StackPage (page : Nat) : Prop :=
  userStackBase ≤ page * pageSize ∧ (page + 1) * pageSize ≤ userStackTop

theorem StackPage.covered (h : StackPage page) (hok : SpaceOk extra m sp a) : Covered a page := by
  obtain ⟨r, hr, h1, h2⟩ := hok.stack
  exact ⟨r, hr, h1 ▸ h.1, h2 ▸ h.2⟩

theorem StackPage.ne_syspage (h : StackPage page) : page ≠ syspage := by
  rintro rfl
  exact absurd h.1 (by decide)

/-- No address outside the stack is in a page of it. -/
theorem StackPage.ne (h : StackPage page) (hva : Own a va) : va / pageSize ≠ page := by
  rintro rfl
  have h4 : pageSize = 4096 := rfl
  obtain ⟨h1, h2⟩ := h
  rw [h4] at h1 h2
  exact hva.stack (by omega)

theorem pmmAllocFrame_aligned {pick : Option Nat} (h : pmmAllocFrame m pick = (m', pa)) :
    pa % pageSize = 0 := by
  unfold pmmAllocFrame at h
  split at h
  · cases h
    rfl
  · split at h
    · cases h
      rfl
    · rename_i hc
      cases h
      simp only [not_or, not_not] at hc
      exact hc.2.1

/-- A fault in an anonymous region of plain memory. -/
theorem vmmPageFaultHandle_anon {env : Alloc} (has : m.as sp = some a) (hr : r.owner = .anon)
    (hnone : a.pages (va / pageSize) = none)
    (h : vmmPageFaultHandle m sp r va env = (m', true)) :
    ∃ pa tables, m.frames pa = false ∧ pa % pageSize = 0 ∧
      m' = (m.takeFrame pa).setAs sp (some (mapTo a (va / pageSize) pa tables)) := by
  have hback : r.sharedBacking = none := by
    rw [Region.sharedBacking, if_neg (by rw [hr]; simp)]
  simp only [vmmPageFaultHandle, has, hnone, hback, hr] at h
  simp only [Option.isSome_none, Bool.false_eq_true, if_false, ne_eq, not_true_eq_false] at h
  split at h
  · cases h
  rcases hfr : pmmAllocFrame m (env.frame (va / pageSize)) with ⟨m₁, pa⟩
  have hal := pmmAllocFrame_aligned hfr
  rw [hfr] at h
  rcases pmmAllocFrame_cases hfr with ⟨rfl, rfl⟩ | ⟨h0, hfree, rfl⟩
  · cases h
  rw [if_neg h0] at h
  rcases vmmMapRange_page a va pa r.prot false env.table with ⟨tables, hmap⟩ | hmap
  · rw [hmap] at h
    cases h
    exact ⟨pa, tables, hfree, hal, rfl⟩
  · rw [hmap] at h
    cases h

/-- The check of one page of the stack maps it, unless it is mapped. -/
theorem checkPages_stack {env : Alloc} (h : SpaceOk extra m sp a) (hp : StackPage page)
    (hc : checkPages sp true env [page] m = (m', true)) :
    (a.pages page ≠ none ∧ m' = m) ∨ (a.pages page = none ∧ ∃ pa tables,
      m.frames pa = false ∧ pa % pageSize = 0 ∧
      m' = (m.takeFrame pa).setAs sp (some (mapTo a page pa tables))) := by
  have hdiv : page * pageSize / pageSize = page := Nat.mul_div_cancel _ (by decide)
  simp only [checkPages, h.as] at hc
  split at hc
  · rename_i hsome
    cases hc
    exact .inl ⟨by simpa [Option.isSome_iff_ne_none] using hsome, rfl⟩
  rename_i hnone
  have hnone : a.pages page = none := by simpa using hnone
  split at hc
  · cases hc
  rename_i r hfind
  -- the region that is found need not be that of the stack, but it is plain memory
  obtain ⟨hr, -, hstop⟩ := vmmFindRegion_some hfind
  have hanon : r.owner = .anon :=
    (h.anon r hr).resolve_left (Nat.not_le.mpr (lt_of_le_of_lt hp.1 hstop))
  refine .inr ⟨hnone, ?_⟩
  split at hc
  · cases hc
  · split at hc
    · rename_i m₁ hfault
      cases hc
      have := vmmPageFaultHandle_anon h.as hanon (by rwa [hdiv]) hfault
      rwa [hdiv] at this
    · cases hc

theorem faultPages_keeps {env : Alloc} : ∀ {pages : List Nat} {m : Mem} {ram : Ram}
    {a : AddressSpace}, SpaceOk' m sp a → (∀ p ∈ pages, StackPage p) →
    faultPages sp env pages (m, ram) = ((m', ram'), true) →
    ∃ a', SpaceOk' m' sp a' ∧ Keeps a a' ram ram'
  | [], m, ram, a, h, _, hf => by
    cases hf
    exact ⟨a, h, .refl⟩
  | page :: pages, m, ram, a, h, hp, hf => by
    have hpage := hp page List.mem_cons_self
    have hrest : ∀ p ∈ pages, StackPage p := fun p hm => hp p (List.mem_cons_of_mem page hm)
    unfold faultPages at hf
    split at hf
    · cases hf
    · rename_i m₁ hc
      rw [h.as, Option.bind_some] at hf
      rcases checkPages_stack h hpage hc with ⟨hsome, rfl⟩ | ⟨hnone, pa, tables, hfree, hal, rfl⟩
      · obtain ⟨e, he⟩ := Option.ne_none_iff_exists'.mp hsome
        rw [he] at hf
        exact faultPages_keeps h hrest hf
      · -- a fresh frame, zeroed
        have hnew : (mapTo a page pa tables).pages page = some ⟨pa, false⟩ := by
          rw [mapTo_pages, update_self]
        rw [hnone, Mem.setAs_as, update_self, Option.bind_some, hnew] at hf
        have hmap := h.mapFresh hfree hal page tables
        have hok := hmap.absorb fun q hq => by
          rw [hq.resolve_left id]
          exact hpage.covered hmap
        have hkeep : Keeps a (mapTo a page pa tables) ram (ram.write pa pageSize zeros) :=
          ⟨fun r hr => hr, fun va hva => (h.samePage_mapFresh hfree hal (hpage.ne hva) hva.sys
            fun x hx => Ram.write_outside hx).byteIn_eq⟩
        obtain ⟨a', hok', hkeep'⟩ := faultPages_keeps hok hrest hf
        exact ⟨a', hok', hkeep.trans hkeep'⟩

/-- What is written below the end of the stack goes to pages of the stack. -/
theorem addrSpaceCopyOut_keeps (h : SpaceOk' m sp a) : ∀ {fuel : Nat} {ram : Ram} {va : Nat}
    {src : Bytes} {len : Nat} {ok : Bool}, userStackBase ≤ va → va + len ≤ userStackTop →
    addrSpaceCopyOut m sp fuel ram va src len = (ram', ok) → Keeps a a ram ram'
  | 0, ram, va, src, len, ok, _, _, hc => by
    cases hc
    exact .refl
  | fuel + 1, ram, va, src, len, ok, h1, h2, hc => by
    unfold addrSpaceCopyOut at hc
    split at hc
    · cases hc
      exact .refl
    · rename_i hlen
      rw [h.as, Option.bind_some] at hc
      split at hc
      · cases hc
        exact .refl
      · rename_i e he
        have h4 : pageSize = 4096 := rfl
        have hpage : StackPage (va / pageSize) := by
          have h5 : userStackBase = 0x7F800000 := rfl
          have h6 : userStackTop = 0x80000000 := rfl
          unfold StackPage
          rw [h5] at h1
          rw [h6] at h2
          rw [h4, h5, h6]
          omega
        refine Keeps.trans ⟨fun r hr => hr, fun va' hva => ?_⟩
          (addrSpaceCopyOut_keeps h (by omega) (by omega) hc)
        refine SamePage.byteIn_eq ⟨rfl, fun f hf i hi => Ram.write_outside ?_⟩
        obtain ⟨-, ha1⟩ := h.owned _ e he hpage.ne_syspage
        obtain ⟨-, ha2⟩ := h.owned _ f hf hva.sys
        have hne : f.pa ≠ e.pa := fun heq =>
          hpage.ne hva (h.inj _ _ f e hf he hva.sys hpage.ne_syspage heq)
        have happ := frames_apart ha2 ha1 hne hi
        omega

end Zuzu.L4
