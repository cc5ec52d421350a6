import Zuzu.L4Loader.LoadMem

/-!
# A loaded space holds its image

The size check of the loader adds offset and size of a segment in 32 bits, and so does
`VmmAddRegion` with the end of a region. Where the reads of the segments that can be reached are
inside the image (`Guarded`), and so do not wrap, the loader is right: the step lemma
`loadSegment_spec` says that a segment's bytes are in place, what was loaded before is kept and
the regions are as planned, `loadSegments_spec` carries it over all segments.

**Results.** `ImageOk.loadSafe`: an image that meets `ImageOk` is read inside, and a space that is
returned has at each address of a segment the byte of the file, or zero behind the file's end.
-/
namespace Zuzu.L4
open Zuzu.Core Zuzu.L3

variable {extra : Nat → Prop} {m m' : Mem} {sp : SpaceId} {a a' : AddressSpace}
  {ram ram' : Ram} {d : Bytes} {s : ZxfSegment} {l l' : Loader}

variable {size i argc pa : Nat} {img : ZxfImage} {env : LoadEnv} {a₀ : AddressSpace} {ram₀ : Ram}

/-! ## A new space -/

theorem initialRegions_ok : Stacked (initialRegions userMmapBase) := by
  unfold Stacked
  decide

theorem initialRegions_regular :
    regular (initialRegions userMmapBase) = initialRegions userMmapBase :=
  List.filter_eq_self.mpr (by decide)

theorem initialRegions_sys : ∃ r ∈ regular (initialRegions userMmapBase),
    r.vaddrStart = userSyspageVa ∧ r.stop = userSyspageVa + pageSize := by
  rw [initialRegions_regular]
  exact ⟨_, List.mem_cons_self, rfl, rfl⟩

theorem initialRegions_stack : ∃ r ∈ regular (initialRegions userMmapBase),
    r.vaddrStart = userStackBase ∧ r.stop = userStackTop := by
  rw [initialRegions_regular]
  exact ⟨_, List.mem_of_getElem? (i := 3) rfl, rfl, rfl⟩

theorem initialRegions_anon : ∀ r ∈ initialRegions userMmapBase,
    r.stop ≤ userStackBase ∨ r.owner = .anon := by
  decide

theorem initialAs_pages {syspagePa tcbPa page : Nat} {table : Nat → Option Nat} {e : Pte}
    (h : (initialAs syspagePa tcbPa table).pages page = some e) (hs : page ≠ syspage) :
    page = userMmapBase / pageSize ∧ e.pa = tcbPa := by
  simp only [initialAs] at h
  split at h
  · rename_i hp
    exact absurd hp hs
  · split at h
    · rename_i hp
      cases h
      exact ⟨hp, rfl⟩
    · cases h

theorem initialAs_covered {syspagePa tcbPa page : Nat} {table : Nat → Option Nat} {e : Pte}
    (h : (initialAs syspagePa tcbPa table).pages page = some e) :
    Covered (initialAs syspagePa tcbPa table) page := by
  unfold Covered initialAs
  rw [initialRegions_regular]
  by_cases hs : page = syspage
  · rw [hs]
    exact ⟨_, List.mem_cons_self, by decide, by decide⟩
  · rw [(initialAs_pages h hs).1]
    exact ⟨_, List.mem_cons_of_mem _ List.mem_cons_self, by decide, by decide⟩

theorem loadCreate_ok (h : loadCreate env m ram sp = some (m', ram')) :
    ∃ a, SpaceOk' m' sp a ∧ a.regions = initialRegions userMmapBase := by
  unfold loadCreate createAs at h
  split at h
  · rename_i hcreate _ _
    split at hcreate
    · cases hcreate
    · split at hcreate
      · cases hcreate
      · rename_i m₁ pa h0 hfr
        cases hcreate
        have hal := pmmAllocFrame_aligned hfr
        rcases pmmAllocFrame_cases hfr with ⟨rfl, -⟩ | ⟨-, -, rfl⟩
        · exact absurd rfl h0
        split at h
        · cases h
        · cases h
          refine ⟨initialAs env.syspagePa pa env.create.table, ⟨Function.update_self _ _ _,
            initialRegions_ok, initialRegions_sys, initialRegions_stack, initialRegions_anon,
            fun page e he => .inl (initialAs_covered he), fun page e he hs => ?_,
            fun p q e f he hf hp hq _ => ?_⟩, rfl⟩
          · rw [(initialAs_pages he hs).2]
            exact ⟨Function.update_self _ _ _, hal⟩
          · rw [(initialAs_pages he hp).1, (initialAs_pages hf hq).1]
  · cases h

/-! ## Arguments -/

/-- The strings and the pointers to them are in the stack reserve. -/
theorem argvLayout_bounds {argbuf : List Byte} {strings argv : Nat}
    (h : argvLayout argbuf argc = some (strings, argv)) :
    userStackBase ≤ argv ∧ argv + (argc + 1) * 4 ≤ strings ∧ strings + argbuf.length ≤ usrSp := by
  have h5 : userStackBase = 0x7F800000 := rfl
  have h6 : usrSp = 0x7FFFE000 := rfl
  unfold argvLayout at h
  dsimp only at h
  split_ifs at h with h1 h2 h3 h4 hlen hfit hlow
  cases h
  omega

theorem writeArgv_keeps (h : SpaceOk' m sp a) {argv : Nat} (hlow : userStackBase ≤ argv)
    (hhigh : argv + (argc + 1) * 4 ≤ userStackTop) : ∀ {as : List Nat} {strVa : Nat}
    {rest : List Byte} {ram : Ram} {ok : Bool}, (∀ i ∈ as, i ≤ argc) →
    writeArgv m sp argv argc as strVa rest ram = (ram', ok) → Keeps a a ram ram'
  | [], _, _, ram, ok, _, hw => by
    cases hw
    exact .refl
  | i :: as, strVa, rest, ram, ok, hi, hw => by
    have hile := hi i List.mem_cons_self
    have hrest : ∀ j ∈ as, j ≤ argc := fun j hj => hi j (List.mem_cons_of_mem i hj)
    unfold writeArgv at hw
    dsimp only at hw
    split at hw
    · rename_i hc
      cases hw
      exact addrSpaceCopyOut_keeps h (by omega) (by omega) hc
    · rename_i hc
      have hkeep := addrSpaceCopyOut_keeps h (by omega) (by omega) hc
      split at hw
      · exact hkeep.trans (writeArgv_keeps h hlow hhigh hrest hw)
      · exact hkeep.trans (writeArgv_keeps h hlow hhigh hrest hw)

theorem loadArgs_keeps {env : Alloc} {argbuf : Option (List Byte)} {x y : Nat}
    (h : SpaceOk' m sp a) (hl : loadArgs sp env argbuf argc m ram = some (m', ram', x, y)) :
    ∃ a', m'.as sp = some a' ∧ Keeps a a' ram ram' := by
  unfold loadArgs at hl
  dsimp only at hl
  split at hl
  · cases hl
  split at hl
  · cases hl
    exact ⟨a, h.as, .refl⟩
  split at hl
  · cases hl
  rename_i strings argv hlay
  obtain ⟨h1, h2, h3⟩ := argvLayout_bounds hlay
  have h5 : userStackBase = 0x7F800000 := rfl
  have h6 : usrSp = 0x7FFFE000 := rfl
  have h7 : userStackTop = 0x80000000 := rfl
  split at hl
  · cases hl
  rename_i m₁ ram₁ hfault
  have hpages : ∀ p ∈ (List.range (usrSp / pageSize - argv / pageSize)).map (argv / pageSize + ·),
      StackPage p := by
    intro p hp
    obtain ⟨i, hi, rfl⟩ := List.mem_map.mp hp
    have hi := List.mem_range.mp hi
    have h4 : pageSize = 4096 := rfl
    unfold StackPage
    rw [h4, h6] at hi
    rw [h4, h5, h7]
    omega
  obtain ⟨a₁, hok, hkeep⟩ := faultPages_keeps h hpages hfault
  split at hl
  · cases hl
  rename_i ram₂ hcopy
  have hkeep₂ := addrSpaceCopyOut_keeps hok (by omega) (by omega) hcopy
  split at hl
  · cases hl
  rename_i ram₃ hargv
  cases hl
  have hkeep₃ := writeArgv_keeps hok h1 (by omega)
    (fun i hi => Nat.le_of_lt_succ (List.mem_range.mp hi)) hargv
  exact ⟨a₁, hok.as, (hkeep.trans hkeep₂).trans hkeep₃⟩

/-! ## Pages of a segment -/

theorem ZxfSegment.va_lt (s : ZxfSegment) : s.va < wordSize := Nat.mod_lt _ (by decide)

/-- Every page of the file starts before the file's end. -/
theorem page_lt_of_pagesFor {page : Nat} (hs : size < wordSize) (h : page < pagesFor size) :
    page * pageSize < size := by
  have h4 : pageSize = 4096 := rfl
  have h5 : wordSize = 4294967296 := rfl
  unfold pagesFor at h
  rw [h4, h5] at h
  rw [h4]
  omega

/-- The pages of a segment in the space hold it, and no more than a page besides. -/
theorem pagesFor_bounds (h : size ≤ userVaTop) :
    size ≤ pagesFor size * pageSize ∧ pagesFor size * pageSize < size + pageSize := by
  have h4 : pageSize = 4096 := rfl
  have h5 : wordSize = 4294967296 := rfl
  have h6 : userVaTop = 0x80000000 := rfl
  unfold pagesFor
  rw [h6] at h
  rw [h4, h5]
  omega

/-- Some page is needed only if the rounding up does not wrap. -/
theorem le_pagesFor (hs : size < wordSize) (h : 0 < pagesFor size) :
    size ≤ pagesFor size * pageSize := by
  have h4 : pageSize = 4096 := rfl
  have h5 : wordSize = 4294967296 := rfl
  unfold pagesFor at h ⊢
  rw [h5] at hs
  rw [h4, h5] at h ⊢
  omega

theorem le_lt_wordSize (d : Bytes) (off : Nat) : le d off 4 < wordSize := by
  have h5 : wordSize = 4294967296 := rfl
  simp only [le]
  omega

/-- If every page of the file is read inside the image, so is the file. -/
theorem fileEnd_le (hsize : size < wordSize) (ho : s.fileOffset < wordSize)
    (hfs : s.fileSize < wordSize) (hpos : 0 < pagesFor s.fileSize)
    (h : ∀ page < pagesFor s.fileSize, s.pageOffset page + s.pageBytes page ≤ size) :
    s.fileOffset + s.fileSize ≤ size := by
  have hcap := le_pagesFor hfs hpos
  have hstart : ∀ k < pagesFor s.fileSize, s.fileOffset + k * pageSize < wordSize := by
    intro k hk
    induction k with
    | zero => omega
    | succ k ih =>
      have hpage := h k (by omega)
      have hlt := page_lt_of_pagesFor hfs hk
      rw [Nat.succ_mul] at hlt ⊢
      rw [ZxfSegment.pageOffset, Nat.mod_eq_of_lt (ih (by omega)), ZxfSegment.pageBytes,
        Nat.min_eq_right (by omega)] at hpage
      omega
  have hlast := h (pagesFor s.fileSize - 1) (by omega)
  have hlt := page_lt_of_pagesFor hfs (show pagesFor s.fileSize - 1 < _ by omega)
  have hend : pagesFor s.fileSize * pageSize = (pagesFor s.fileSize - 1) * pageSize + pageSize := by
    rw [← Nat.succ_mul, Nat.succ_eq_add_one, Nat.sub_add_cancel hpos]
  rw [ZxfSegment.pageOffset, Nat.mod_eq_of_lt (hstart _ (by omega)), ZxfSegment.pageBytes,
    Nat.min_eq_left (by omega)] at hlast
  omega

theorem SamePage.trans {ram'' : Ram} {a'' : AddressSpace} {q : Nat} (h : SamePage a a' ram ram' q)
    (h' : SamePage a' a'' ram' ram'' q) : SamePage a a'' ram ram'' q :=
  ⟨h'.pages.trans h.pages, fun e he i hi =>
    (h'.bytes e (h.pages.trans he) i hi).trans (h.bytes e he i hi)⟩

theorem byteIn_congr {va : Nat} (h : a'.pages = a.pages) : byteIn a' ram va = byteIn a ram va := by
  rw [byteIn, byteIn, h]

/-- The first `k` pages of the segment are in place, and no other page has changed since `a₀`. -/
structure Filling (d : Bytes) (s : ZxfSegment) (sp : SpaceId) (a₀ : AddressSpace) (ram₀ : Ram)
    (k : Nat) (l : Loader) (a : AddressSpace) : Prop where
  ok : SpaceOk (fun q => ∃ j < k, q = s.va / pageSize + j) l.mem sp a
  regions : a.regions = a₀.regions
  filled : ∀ o < k * pageSize, (s.va + o) / pageSize ≠ syspage →
    byteIn a l.ram (s.va + o) = if o < s.fileSize then d (s.fileOffset + o) else 0#8
  kept : ∀ q, q ≠ syspage → (∀ j < k, q ≠ s.va / pageSize + j) → SamePage a₀ a ram₀ l.ram q

theorem prot_user (p : MemProt) {w : MemProt} (hw : vmProtUser &&& w = 0) :
    (p ||| vmProtUser) &&& w = p &&& w := by
  rw [BitVec.and_comm, BitVec.and_or_distrib_left, BitVec.and_comm w vmProtUser, hw,
    show (0 : MemProt) = 0#32 from rfl, BitVec.or_zero, BitVec.and_comm]

theorem vmmMapUserPage_true {va : Nat} {prot : MemProt} {table : Nat → Option Nat}
    (h : vmmMapUserPage a pa va prot table = (a', true)) :
    mapRangeOk va pa pageSize (prot ||| vmProtUser) = true ∧
      ∃ tables, a' = mapTo a (va / pageSize) pa tables := by
  unfold vmmMapUserPage at h
  split at h
  · cases h
  refine ⟨?_, ?_⟩
  · unfold vmmMapRange at h
    split at h
    · cases h
    · rename_i hok
      exact not_not.mp hok
  · rcases vmmMapRange_page a va pa (prot ||| vmProtUser) false table with ⟨tables, hmap⟩ | hmap
    · exact ⟨tables, congrArg Prod.fst (h.symm.trans hmap)⟩
    · cases h.symm.trans hmap

namespace ZxfSegment

variable {k n : Nat}

theorem Mappable.mono (h : s.Mappable n) (hk : k ≤ n) : s.Mappable k := by
  intro hpos
  obtain ⟨h1, h2, h3⟩ := h (by omega)
  exact ⟨h1, (Nat.add_le_add_left (Nat.mul_le_mul_right _ hk) _).trans h2, h3⟩

/-- The address of the next page does not wrap. -/
theorem Mappable.addr (h : s.Mappable k) :
    (s.va + k * pageSize) % wordSize = s.va + k * pageSize := by
  refine Nat.mod_eq_of_lt ?_
  rcases Nat.eq_zero_or_pos k with rfl | hpos
  · have := s.va_lt
    omega
  · exact (h hpos).2.1.trans_lt (by decide)

/-- One more page can be mapped exactly if `VmmMapRange` takes its address. -/
theorem mappable_succ_iff (hpa : pa % pageSize = 0) :
    mapRangeOk (s.va + k * pageSize) pa pageSize (s.prot ||| vmProtUser) = true ↔
      s.Mappable (k + 1) := by
  have h4 : pageSize = 4096 := rfl
  have hal : (s.va + k * pageSize) % pageSize = s.va % pageSize := Nat.add_mul_mod_self_right _ _ _
  simp only [mapRangeOk, Mappable, decide_eq_true_eq, hal, hpa,
    prot_user s.prot (show vmProtUser &&& protWrite = 0 by decide),
    prot_user s.prot (show vmProtUser &&& protExec = 0 by decide), Nat.succ_mul]
  constructor
  · rintro ⟨-, h1, -, -, h2, -, h3⟩ -
    exact ⟨h1, by omega, h2⟩
  · intro hm
    obtain ⟨h1, h2, h3⟩ := hm (Nat.succ_pos k)
    exact ⟨by decide, h1, trivial, by decide, h3, by omega, by omega⟩

theorem Mappable.of_map {table : Nat → Option Nat} (h : s.Mappable k)
    (hpa : pa % pageSize = 0)
    (hmap : vmmMapUserPage a pa ((s.va + k * pageSize) % wordSize) s.prot table = (a', true)) :
    s.Mappable (k + 1) := by
  rw [h.addr] at hmap
  exact (mappable_succ_iff hpa).mp (vmmMapUserPage_true hmap).1

end ZxfSegment

/-- The contents of a fresh frame after `memcpy` and `memset`. -/
theorem page_bytes (hs : s.fileOffset + s.fileSize < wordSize) {page : Nat}
    (hpage : page < pagesFor s.fileSize) (hi : i < pageSize) :
    ((ram.write pa (s.pageBytes page) fun i => d (s.pageOffset page + i)).write
      (pa + s.pageBytes page) (pageSize - s.pageBytes page) zeros) (pa + i) =
      if page * pageSize + i < s.fileSize then d (s.fileOffset + (page * pageSize + i))
      else 0#8 := by
  have hlt := page_lt_of_pagesFor (by omega) hpage
  have hoff : s.pageOffset page = s.fileOffset + page * pageSize := Nat.mod_eq_of_lt (by omega)
  by_cases hin : i < s.pageBytes page
  · have hfs : page * pageSize + i < s.fileSize := by
      unfold ZxfSegment.pageBytes at hin
      omega
    rw [Ram.write_outside (by omega), Ram.write_inside hin, if_pos hfs, hoff, Nat.add_assoc]
  · have hfs : ¬page * pageSize + i < s.fileSize := by
      unfold ZxfSegment.pageBytes at hin
      omega
    rw [if_neg hfs, show pa + i = pa + s.pageBytes page + (i - s.pageBytes page) by omega,
      Ram.write_inside (by omega)]
    rfl

theorem Filling.step {k : Nat} {reads : List Span} {prot : MemProt} {table : Nat → Option Nat}
    (hs : s.fileOffset + s.fileSize < wordSize) (hk : k < pagesFor s.fileSize)
    (hm : s.Mappable (k + 1)) (h : Filling d s sp a₀ ram₀ k l a) (hfree : l.mem.frames pa = false)
    (hpa : pa % pageSize = 0)
    (hmap : vmmMapUserPage a pa ((s.va + k * pageSize) % wordSize) prot table = (a', true)) :
    Filling d s sp a₀ ram₀ (k + 1) ⟨(l.mem.takeFrame pa).setAs sp (some a'),
      (l.ram.write pa (s.pageBytes k) fun i => d (s.pageOffset k + i)).write
        (pa + s.pageBytes k) (pageSize - s.pageBytes k) zeros, reads⟩ a' := by
  have h4 : pageSize = 4096 := rfl
  have hn : s.pageBytes k ≤ pageSize := min_le_right _ _
  obtain ⟨-, tables, rfl⟩ := vmmMapUserPage_true hmap
  obtain ⟨hal', -, -⟩ := hm (Nat.succ_pos k)
  rw [(hm.mono (Nat.le_succ k)).addr]
  have hdiv : (s.va + k * pageSize) / pageSize = s.va / pageSize + k :=
    Nat.add_mul_div_right _ _ (by decide)
  rw [hdiv]
  -- all but the fresh frame is as it was
  have hram : ∀ x, x < pa ∨ pa + pageSize ≤ x →
      ((l.ram.write pa (s.pageBytes k) fun i => d (s.pageOffset k + i)).write
        (pa + s.pageBytes k) (pageSize - s.pageBytes k) zeros) x = l.ram x := by
    intro x hx
    rw [Ram.write_outside (by omega), Ram.write_outside (by omega)]
  have hsame : ∀ q, q ≠ s.va / pageSize + k → q ≠ syspage →
      SamePage a (mapTo a _ pa tables) l.ram _ q :=
    fun q hq hsys => h.ok.samePage_mapFresh hfree hpa hq hsys hram
  refine ⟨?_, h.regions, fun o ho hsys => ?_, fun q hq hj => ?_⟩
  · have hok := h.ok.mapFresh hfree hpa (s.va / pageSize + k) tables
    refine ⟨hok.as, hok.regions, hok.sys, hok.stack, hok.anon, fun q e he => ?_, hok.owned,
      hok.inj⟩
    refine (hok.covered q e he).imp_right ?_
    rintro (⟨j, hj, rfl⟩ | rfl)
    · exact ⟨j, by omega, rfl⟩
    · exact ⟨k, by omega, rfl⟩
  · by_cases hok : o < k * pageSize
    · rw [← h.filled o hok hsys]
      refine (hsame _ ?_ hsys).byteIn_eq
      rw [h4] at hok hal' ⊢
      omega
    · have hpage : (s.va + o) / pageSize = s.va / pageSize + k := by
        rw [h4] at hok ho hal' ⊢
        omega
      have hmod : (s.va + o) % pageSize = o - k * pageSize := by
        rw [h4] at hok ho hal' ⊢
        omega
      have hi : o - k * pageSize < pageSize := by
        rw [← hmod]
        exact Nat.mod_lt _ (by decide)
      rw [byteIn, hpage, mapTo_pages, Function.update_self]
      dsimp only
      rw [hmod, page_bytes hs hk hi, Nat.add_sub_cancel' (Nat.not_lt.mp hok)]
  · exact (h.kept q hq fun j hjk => hj j (by omega)).trans (hsame q (hj k (by omega)) hq)

theorem loadPages_cons {env : Alloc} {page : Nat} {pages : List Nat} (has : l.mem.as sp = some a)
    (h : loadPages d sp s env (page :: pages) l = (l', true)) : ∃ pa a', l.mem.frames pa = false ∧
      pa % pageSize = 0 ∧
      vmmMapUserPage a pa ((s.va + page * pageSize) % wordSize) s.prot env.table = (a', true) ∧
      loadPages d sp s env pages ⟨(l.mem.takeFrame pa).setAs sp (some a'),
        (l.ram.write pa (s.pageBytes page) fun i => d (s.pageOffset page + i)).write
          (pa + s.pageBytes page) (pageSize - s.pageBytes page) zeros,
        l.reads ++ [⟨s.pageOffset page, s.pageBytes page⟩]⟩ = (l', true) := by
  unfold loadPages at h
  split at h
  · cases h
  rename_i m pa h0 hfr
  have hal := pmmAllocFrame_aligned hfr
  rcases pmmAllocFrame_cases hfr with ⟨rfl, -⟩ | ⟨-, hfree, rfl⟩
  · exact absurd rfl h0
  rw [has] at h
  dsimp only at h
  split at h
  · cases h
  · rename_i a' hmap
    exact ⟨pa, a', hfree, hal, hmap, h⟩

theorem loadPages_mappable {env : Alloc} : ∀ {n k : Nat} {l : Loader} {a : AddressSpace},
    l.mem.as sp = some a → s.Mappable k →
    loadPages d sp s env (List.range' k n) l = (l', true) → s.Mappable (k + n)
  | 0, _, _, _, _, hm, _ => hm
  | n + 1, k, l, a, has, hm, hl => by
    obtain ⟨pa, a', -, hal, hmap, hl⟩ := loadPages_cons has hl
    rw [show k + (n + 1) = k + 1 + n by omega]
    exact loadPages_mappable (Function.update_self _ _ _) (hm.of_map hal hmap) hl

theorem loadPages_filling {env : Alloc} (hm : s.Mappable (pagesFor s.fileSize))
    (hs : 0 < pagesFor s.fileSize → s.fileOffset + s.fileSize < wordSize) :
    ∀ {n k : Nat} {l : Loader} {a : AddressSpace}, k + n ≤ pagesFor s.fileSize →
    Filling d s sp a₀ ram₀ k l a →
    loadPages d sp s env (List.range' k n) l = (l', true) →
    ∃ a', Filling d s sp a₀ ram₀ (k + n) l' a'
  | 0, k, l, a, _, h, hl => by
    cases hl
    exact ⟨a, h⟩
  | n + 1, k, l, a, hk, h, hl => by
    obtain ⟨pa, a', hfree, hal, hmap, hl⟩ := loadPages_cons h.ok.as hl
    rw [show k + (n + 1) = k + 1 + n by omega]
    exact loadPages_filling hm hs (by omega)
      (h.step (hs (by omega)) (by omega) (hm.mono (by omega)) hfree hal hmap) hl

/-! ## A segment -/

/-- The segment's bytes are in place, at addresses the rest of the load leaves alone. -/
def SegLoaded (d : Bytes) (s : ZxfSegment) (a : AddressSpace) (ram : Ram) : Prop :=
  s.fileSize ≤ s.memSize → s.va + s.memSize ≤ userVaTop → ∀ o < s.memSize, Own a (s.va + o) ∧
    byteIn a ram (s.va + o) = if o < s.fileSize then d (s.fileOffset + o) else 0#8

theorem SegLoaded.keep (h : SegLoaded d s a ram) (hk : Keeps a a' ram ram') :
    SegLoaded d s a' ram' := by
  intro hle htop o ho
  obtain ⟨hown, hbyte⟩ := h hle htop o ho
  exact ⟨hown.mono hk.regions, (hk.bytes _ hown).trans hbyte⟩

theorem loadFileRegion_spec {env : Alloc} (hm : s.Mappable (pagesFor s.fileSize))
    (h : Filling d s sp a₀ ram₀ (pagesFor s.fileSize) l a)
    (hr : loadFileRegion sp s env l.mem = (m', true)) :
    ∃ a', SpaceOk' m' sp a' ∧ Keeps a₀ a' ram₀ l.ram ∧ a'.pages = a.pages ∧
      s.addFile a₀.regions = some a'.regions ∧
      ∀ o < pagesFor s.fileSize * pageSize, Own a' (s.va + o) := by
  have h4 : pageSize = 4096 := rfl
  unfold loadFileRegion at hr
  unfold ZxfSegment.addFile
  split at hr
  · rename_i hpos
    obtain ⟨hal, htop, -⟩ := hm hpos
    have hword : s.va + pagesFor s.fileSize * pageSize < wordSize := htop.trans_lt (by decide)
    obtain ⟨-, rs, hadd, rfl⟩ := (vmmAddRegion_iff h.ok.as rfl).mp hr
    rw [if_pos hpos, ← h.regions, hadd]
    rw [Nat.mod_eq_of_lt (by omega)] at hadd
    generalize hreg : segRegion s.va (pagesFor s.fileSize * pageSize) s.prot = r at hadd
    have hstart : r.vaddrStart = s.va := by rw [← hreg]; rfl
    have hstop : r.stop = s.va + pagesFor s.fileSize * pageSize := by rw [← hreg]; rfl
    have hanon : r.owner = .anon := by rw [← hreg]; rfl
    have hshort : r.stop < wordSize := by rwa [hstop]
    have hin : ∀ q, (∃ j < pagesFor s.fileSize, q = s.va / pageSize + j) → r.stop < wordSize ∧
        r.vaddrStart ≤ q * pageSize ∧ (q + 1) * pageSize ≤ r.stop := by
      rintro q ⟨j, hj, rfl⟩
      refine ⟨hshort, ?_⟩
      rw [hstart, hstop]
      rw [h4] at hal ⊢
      omega
    obtain ⟨hnew, hregs, hok⟩ := h.ok.addRegion hanon hadd hin
    obtain ⟨hfit, hmem⟩ := hnew hshort
    refine ⟨_, hok, ⟨fun x hx => hregs x (h.regions ▸ hx), fun va hva => ?_⟩, rfl, rfl,
      fun o ho => ?_⟩
    · show byteIn a l.ram va = _
      refine (h.kept _ hva.sys fun j hj heq => ?_).byteIn_eq
      obtain ⟨x, hx, -, hx1, hx2⟩ := hva.region
      have := hfit x (h.regions ▸ hx)
      rw [hstart, hstop] at this
      rw [h4] at hal heq this
      omega
    · have hc : r.Contains (s.va + o) := ⟨by omega, by omega⟩
      exact h.ok.own_of_fits hfit hc hanon hmem
  · rename_i hneg
    cases hr
    have hzero : pagesFor s.fileSize = 0 := by omega
    rw [if_neg hneg]
    refine ⟨a, h.ok.absorb ?_, ⟨fun x hx => h.regions ▸ hx, fun va hva => ?_⟩, rfl,
      by rw [h.regions], ?_⟩
    · rintro q ⟨j, hj, -⟩
      omega
    · exact (h.kept _ hva.sys fun j hj => by omega).byteIn_eq
    · intro o ho
      rw [hzero, Nat.zero_mul] at ho
      exact absurd ho (Nat.not_lt_zero o)

/-- The region behind the file is empty. -/
theorem loadBssRegion_spec {ok : Bool} (h : SpaceOk' m sp a)
    (hr : loadBssRegion sp s ok m = (m', true)) :
    ∃ a', SpaceOk' m' sp a' ∧ a'.pages = a.pages ∧
      (∀ x ∈ regular a.regions, x ∈ regular a'.regions) ∧ s.addBss a.regions = some a'.regions ∧
      (s.va + s.memSize ≤ userVaTop → ∀ o < s.memSize, pagesFor s.fileSize * pageSize ≤ o →
        Own a' (s.va + o) ∧ a.pages ((s.va + o) / pageSize) = none) := by
  unfold loadBssRegion at hr
  unfold ZxfSegment.addBss
  dsimp only at hr
  split at hr
  · rename_i hgt
    obtain ⟨-, rs, hadd, rfl⟩ := (vmmAddRegion_iff h.as rfl).mp hr
    rw [if_pos hgt, hadd]
    obtain ⟨hnew, hregs, hok⟩ := h.addRegion rfl hadd fun q hq => hq.elim
    refine ⟨_, hok, rfl, hregs, rfl, fun htop o ho hlow => ?_⟩
    obtain ⟨hcap, hmem⟩ := pagesFor_bounds (show s.memSize ≤ userVaTop by omega)
    have hmul : pagesFor s.fileSize * pageSize ≤ pagesFor s.memSize * pageSize :=
      Nat.mul_le_mul_right _ hgt.le
    have hsub : (pagesFor s.memSize - pagesFor s.fileSize) * pageSize =
        pagesFor s.memSize * pageSize - pagesFor s.fileSize * pageSize := Nat.sub_mul _ _ _
    have hword : userVaTop + pageSize < wordSize := by decide
    rw [Nat.mod_eq_of_lt (by omega), hsub, Nat.mod_eq_of_lt (by omega)] at hadd hnew
    generalize hreg : segRegion (s.va + pagesFor s.fileSize * pageSize)
      (pagesFor s.memSize * pageSize - pagesFor s.fileSize * pageSize) s.prot = r at hadd hnew
    have hstart : r.vaddrStart = s.va + pagesFor s.fileSize * pageSize := by rw [← hreg]; rfl
    have hstop : r.stop = s.va + pagesFor s.fileSize * pageSize +
        (pagesFor s.memSize * pageSize - pagesFor s.fileSize * pageSize) := by rw [← hreg]; rfl
    have hanon : r.owner = .anon := by rw [← hreg]; rfl
    obtain ⟨hfit, hmem⟩ := hnew (by omega)
    have hc : r.Contains (s.va + o) := ⟨by omega, by omega⟩
    exact ⟨h.own_of_fits hfit hc hanon hmem, h.unmapped_of_fits hfit hc⟩
  · rename_i hle
    cases hr
    rw [if_neg hle]
    refine ⟨a, h, rfl, fun _ hx => hx, rfl, fun htop o ho hlow => ?_⟩
    obtain ⟨hcap, -⟩ := pagesFor_bounds (show s.memSize ≤ userVaTop by omega)
    have := Nat.mul_le_mul_right pageSize (Nat.not_lt.mp hle)
    omega

/-- A segment that is loaded is in place, what was there before is kept, and the regions are as
planned. -/
theorem loadSegment_spec (hsize : size < wordSize) (h : SpaceOk' l.mem sp a)
    (hs : (img.seg d i).ReadsInside size) (hl : loadSegment d size sp env img i l = (l', true)) :
    ∃ a', SpaceOk' l'.mem sp a' ∧ Keeps a a' l.ram l'.ram ∧
      SegLoaded d (img.seg d i) a' l'.ram ∧
      (img.seg d i).plan size a.regions = some a'.regions := by
  unfold loadSegment at hl
  dsimp only at hl
  split at hl
  · cases hl
  rename_i hcheck
  have hsized : (img.seg d i).Sized size := Nat.not_lt.mp hcheck
  split at hl
  · cases hl
  split at hl
  · cases hl
  rename_i l₁ hload
  rw [List.range_eq_range'] at hload
  have hmap := loadPages_mappable
    (show Mem.as (Loader.mem { l with reads := l.reads ++ [img.segSpan i] }) sp = some a from h.as)
    (fun h0 => absurd h0 (Nat.lt_irrefl 0)) hload
  rw [Nat.zero_add] at hmap
  have hfit : 0 < pagesFor (img.seg d i).fileSize →
      (img.seg d i).fileOffset + (img.seg d i).fileSize < wordSize := fun hpos =>
    (fileEnd_le hsize (le_lt_wordSize _ _) (le_lt_wordSize _ _) hpos fun page hp =>
      hs hsized page hp (hmap.mono hp.le)).trans_lt hsize
  have hstart : Filling d (img.seg d i) sp a l.ram 0
      { l with reads := l.reads ++ [img.segSpan i] } a := by
    refine ⟨⟨h.as, h.regions, h.sys, h.stack, h.anon, fun q e he => ?_, h.owned, h.inj⟩, rfl,
      fun o ho => by simp at ho, fun q _ _ => ⟨rfl, fun _ _ _ _ => rfl⟩⟩
    exact .inl ((h.covered q e he).resolve_right id)
  obtain ⟨a₁, hfill⟩ := loadPages_filling hmap hfit (by omega) hstart hload
  rw [Nat.zero_add] at hfill
  split at hl
  · cases hl
  rename_i m₁ hfile
  obtain ⟨a₂, hok₂, hkeep, hpages₂, hplan₂, hown⟩ := loadFileRegion_spec hmap hfill hfile
  rcases hbss : loadBssRegion sp (img.seg d i) (env.bss i) m₁ with ⟨m₂, ok⟩
  rw [hbss] at hl
  cases hl
  obtain ⟨a₃, hok₃, hpages₃, hregs, hplan₃, hrest⟩ := loadBssRegion_spec hok₂ hbss
  have hkeep₃ : Keeps a₂ a₃ l₁.ram l₁.ram := ⟨hregs, fun va _ => byteIn_congr hpages₃⟩
  have hplan : (img.seg d i).plan size a.regions = some a₃.regions := by
    rw [ZxfSegment.plan, if_pos ⟨hsized, hmap⟩, hplan₂, Option.bind_some, hplan₃]
  refine ⟨a₃, hok₃, hkeep.trans hkeep₃, fun hle htop o ho => ?_, hplan⟩
  by_cases hin : o < pagesFor (img.seg d i).fileSize * pageSize
  · have hso := hown o hin
    refine ⟨hso.mono hregs, ?_⟩
    rw [byteIn_congr hpages₃, byteIn_congr hpages₂]
    exact hfill.filled o hin hso.sys
  · obtain ⟨hso, hnone⟩ := hrest htop o ho (Nat.not_lt.mp hin)
    have hcap := (pagesFor_bounds (show (img.seg d i).fileSize ≤ userVaTop by omega)).1
    refine ⟨hso, ?_⟩
    rw [byteIn, hpages₃, hnone, if_neg (by omega)]

theorem Guarded.reads (h : Guarded d size img) (hi : i < img.segCount)
    (hp : planned d size img i = some a.regions) : (img.seg d i).ReadsInside size :=
  h i hi (by rw [hp]; rfl)

theorem loadSegments_spec (hsize : size < wordSize) (hg : Guarded d size img) : ∀ {n k : Nat}
    {l : Loader} {a : AddressSpace}, k + n ≤ img.segCount → SpaceOk' l.mem sp a →
    planned d size img k = some a.regions →
    loadSegments d size sp env img (List.range' k n) l = (l', true) →
    ∃ a', SpaceOk' l'.mem sp a' ∧ Keeps a a' l.ram l'.ram ∧
      planned d size img (k + n) = some a'.regions ∧
      ∀ i, k ≤ i → i < k + n → SegLoaded d (img.seg d i) a' l'.ram
  | 0, k, l, a, _, h, hp, hl => by
    cases hl
    exact ⟨a, h, .refl, hp, fun i h1 h2 => by omega⟩
  | n + 1, k, l, a, hk, h, hp, hl => by
    rw [List.range'_succ] at hl
    unfold loadSegments at hl
    split at hl
    · cases hl
    · rename_i l₁ hseg
      obtain ⟨a₁, hok₁, hkeep₁, hseg₁, hplan⟩ :=
        loadSegment_spec hsize h (hg.reads (by omega) hp) hseg
      obtain ⟨a₂, hok₂, hkeep₂, hp₂, hsegs⟩ := loadSegments_spec hsize hg (by omega) hok₁
        (by rw [planned, hp, Option.bind_some, hplan]) hl
      rw [show k + (n + 1) = k + 1 + n by omega]
      refine ⟨a₂, hok₂, hkeep₁.trans hkeep₂, hp₂, fun i h1 h2 => ?_⟩
      rcases Nat.eq_or_lt_of_le h1 with rfl | h1
      · exact hseg₁.keep hkeep₂
      · exact hsegs i h1 h2

/-! ## Reads -/

/-- All reads so far are inside the image. -/
def Inside (size : Nat) (reads : List Span) : Prop := ∀ x ∈ reads, x.Within size

theorem Inside.append {xs ys : List Span} (h : Inside size xs) (h' : Inside size ys) :
    Inside size (xs ++ ys) := fun x hx => (List.mem_append.mp hx).elim (h x) (h' x)

theorem Inside.singleton {x : Span} (h : x.Within size) : Inside size [x] :=
  fun y hy => by rwa [List.mem_singleton.mp hy]

theorem segSpan_within (hi : i < img.segCount)
    (h : img.segs + img.segCount * zxfSegmentSize ≤ size) : (img.segSpan i).Within size := by
  have h24 : zxfSegmentSize = 24 := rfl
  show img.segs + i * zxfSegmentSize + zxfSegmentSize ≤ size
  rw [h24] at h ⊢
  omega

theorem segsApart_inside
    (h : img.segs + img.segCount * zxfSegmentSize ≤ size) : ∀ {ps : List (Nat × Nat)},
    (∀ p ∈ ps, p.1 < img.segCount ∧ p.2 < img.segCount) → Inside size (segsApart img d ps).2
  | [], _ => by simp [segsApart, Inside]
  | (i, j) :: ps, hp => by
    obtain ⟨hi, hj⟩ := hp (i, j) List.mem_cons_self
    have hpair : Inside size [img.segSpan i, img.segSpan j] :=
      (Inside.singleton (segSpan_within hi h)).append (.singleton (segSpan_within hj h))
    unfold segsApart
    split
    · exact hpair
    · exact hpair.append (segsApart_inside h fun p hm => hp p (List.mem_cons_of_mem _ hm))

theorem mem_segPairs {n : Nat} {p : Nat × Nat} (h : p ∈ segPairs n) : p.1 < n ∧ p.2 < n := by
  obtain ⟨i, hi, hp⟩ := List.mem_flatMap.mp h
  obtain ⟨j, hj, rfl⟩ := List.mem_map.mp hp
  have hi := List.mem_range.mp hi
  rw [List.mem_range'_1] at hj
  exact ⟨hi, by dsimp only; omega⟩

/-- The bytes copied into pages are inside the image. -/
theorem loadPages_inside {env : Alloc} (hs : ∀ page < pagesFor s.fileSize, s.Mappable page →
    s.pageOffset page + s.pageBytes page ≤ size) : ∀ {n k : Nat} {l : Loader},
    k + n ≤ pagesFor s.fileSize → s.Mappable k → Inside size l.reads →
    Inside size (loadPages d sp s env (List.range' k n) l).1.reads
  | 0, _, _, _, _, h => h
  | n + 1, k, l, hk, hm, h => by
    have hspan : (⟨s.pageOffset k, s.pageBytes k⟩ : Span).Within size := hs k (by omega) hm
    have hreads := h.append (.singleton hspan)
    rw [List.range'_succ]
    unfold loadPages
    split
    · exact h
    · rename_i m pa h0 hfr
      split
      · exact hreads
      · split
        · exact hreads
        · rename_i a' hmap
          exact loadPages_inside hs (by omega) (hm.of_map (pmmAllocFrame_aligned hfr) hmap) hreads

theorem loadSegment_inside (hs : (img.seg d i).ReadsInside size)
    (hi : (img.segSpan i).Within size) (h : Inside size l.reads) :
    Inside size (loadSegment d size sp env img i l).1.reads := by
  have hreads := h.append (.singleton hi)
  unfold loadSegment
  dsimp only
  split
  · exact hreads
  rename_i hcheck
  split
  · exact hreads
  generalize hl₁ : { l with reads := l.reads ++ [img.segSpan i] } = l₁
  have hreads₁ : Inside size l₁.reads := hl₁ ▸ hreads
  have hpages : Inside size (loadPages d sp (img.seg d i) (env.seg i)
      (List.range (pagesFor (img.seg d i).fileSize)) l₁).1.reads := by
    rw [List.range_eq_range']
    exact loadPages_inside (hs (Nat.not_lt.mp hcheck)) (by omega)
      (fun h0 => absurd h0 (Nat.lt_irrefl 0)) hreads₁
  split
  · rename_i l₂ hload
    rwa [hload] at hpages
  · rename_i l₂ hload
    rw [hload] at hpages
    split
    · exact hpages
    · exact hpages

theorem loadSegments_inside (hsize : size < wordSize) (hg : Guarded d size img)
    (htable : img.segs + img.segCount * zxfSegmentSize ≤ size) : ∀ {n k : Nat}
    {l : Loader} {a : AddressSpace}, k + n ≤ img.segCount → SpaceOk' l.mem sp a →
    planned d size img k = some a.regions → Inside size l.reads →
    Inside size (loadSegments d size sp env img (List.range' k n) l).1.reads
  | 0, _, _, _, _, _, _, h => h
  | n + 1, k, l, a, hk, hok, hp, h => by
    have hread := hg.reads (show k < _ by omega) hp
    have hseg : Inside size (loadSegment d size sp env img k l).1.reads :=
      loadSegment_inside hread (segSpan_within (by omega) htable) h
    rw [List.range'_succ]
    unfold loadSegments
    split
    · rename_i l₁ hload
      rwa [hload] at hseg
    · rename_i l₁ hload
      rw [hload] at hseg
      obtain ⟨a₁, hok₁, -, -, hplan⟩ := loadSegment_spec hsize hok hread hload
      exact loadSegments_inside hsize hg htable (by omega) hok₁
        (by rw [planned, hp, Option.bind_some, hplan]) hseg

/-! ## The loader -/

/-- What a space with segment `s` of the image in place holds. -/
def Holds (m : Mem) (ram : Ram) (sp : SpaceId) (d : Bytes) (s : ZxfSegment) : Prop :=
  s.fileSize ≤ s.memSize → ∀ o < s.memSize, byteAt m ram sp ((s.vaddr + o) % wordSize) =
    some (if o < s.fileSize then d (s.fileOffset + o) else 0#8)

theorem addr_mod {o : Nat} (h : s.va + o < wordSize) : (s.vaddr + o) % wordSize = s.va + o := by
  rw [← Nat.mod_add_mod]
  exact Nat.mod_eq_of_lt h

theorem SegLoaded.holds (h : SegLoaded d s a ram) (has : m.as sp = some a) (hin : s.InSpace) :
    Holds m ram sp d s := by
  intro hle o ho
  have htop := hin hle (by omega)
  have hword : userVaTop < wordSize := by decide
  obtain ⟨hown, hbyte⟩ := h hle htop o ho
  obtain ⟨r, hr, hc⟩ := hown.region
  rw [addr_mod (by omega), byteAt_eq has (by omega) ⟨r, (mem_regular.mp hr).1, hc⟩, hbyte]

/-- Parser and loader read only inside the image, and a space that is returned holds every
segment. -/
def LoadSafe (env : LoadEnv) (m : Mem) (ram : Ram) (sp : SpaceId) (d : Bytes) (size : Nat)
    (argbuf : Option (List Byte)) (argc : Nat) : Prop :=
  (∀ x ∈ (zxfParse d size).2 ++ (kernelSpaceLoad env m ram sp d size argbuf argc).2,
    x.Within size) ∧
  ∀ res, (kernelSpaceLoad env m ram sp d size argbuf argc).1 = some res →
    ∃ img, (zxfParse d size).1 = some img ∧
      ∀ i < img.segCount, Holds res.mem res.ram sp d (img.seg d i)

theorem ImageOk.loadSafe (h : ImageOk d size) (hsize : size < wordSize) (env : LoadEnv) (m : Mem)
    (ram : Ram) (sp : SpaceId) (argbuf : Option (List Byte)) (argc : Nat) :
    LoadSafe env m ram sp d size argbuf argc := by
  have hparse : Inside size (zxfParse d size).2 := zxfParse_reads d size
  suffices hload : Inside size (kernelSpaceLoad env m ram sp d size argbuf argc).2 ∧
      ∀ res, (kernelSpaceLoad env m ram sp d size argbuf argc).1 = some res →
        ∃ img, (zxfParse d size).1 = some img ∧
          ∀ i < img.segCount, Holds res.mem res.ram sp d (img.seg d i) from
    ⟨hparse.append hload.1, hload.2⟩
  unfold kernelSpaceLoad
  unfold ImageOk at h
  have hsegs := @zxfParse_segs d size
  generalize zxfParse d size = parsed at h hparse hsegs ⊢
  rcases parsed with ⟨_ | img, reads⟩
  · exact ⟨hparse, fun res hres => by cases hres⟩
  · obtain ⟨-, htable⟩ := hsegs rfl
    dsimp only
    split
    · exact ⟨hparse, fun res hres => by cases hres⟩
    rename_i m₁ ram₁ hcreate
    have hspans := segsApart_inside (d := d) htable fun p hp => mem_segPairs hp
    specialize h img rfl
    split
    · rename_i more happ
      rw [happ] at hspans
      exact ⟨hparse.append hspans, fun res hres => by cases hres⟩
    rename_i more happ
    rw [happ] at hspans h
    obtain ⟨hg, hin⟩ := h rfl
    obtain ⟨a₁, hok₁, hregs⟩ := loadCreate_ok hcreate
    have hplan : planned d size img 0 = some a₁.regions := by rw [hregs, planned]
    rw [List.range_eq_range']
    have hinside : Inside size (loadSegments d size sp env img (List.range' 0 img.segCount)
        ⟨m₁, ram₁, reads ++ more⟩).1.reads :=
      loadSegments_inside hsize hg htable (by omega) hok₁ hplan (hparse.append hspans)
    split
    · rename_i l hload
      rw [hload] at hinside
      exact ⟨hinside, fun res hres => by cases hres⟩
    rename_i l hload
    rw [hload] at hinside
    split
    · exact ⟨hinside, fun res hres => by cases hres⟩
    rename_i m₂ ram₂ stackPtr argvVa hargs
    refine ⟨hinside, fun res hres => ⟨img, rfl, fun i hi => ?_⟩⟩
    cases hres
    obtain ⟨a₂, hok₂, -, hp₂, hloaded⟩ := loadSegments_spec hsize hg (by omega) hok₁ hplan hload
    rw [Nat.zero_add] at hp₂ hloaded
    obtain ⟨a₃, has₃, hkeep⟩ := loadArgs_keeps hok₂ hargs
    exact ((hloaded i (Nat.zero_le i) hi).keep hkeep).holds has₃ (hin (by rw [hp₂]; rfl) i hi)

end Zuzu.L4
