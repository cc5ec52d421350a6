import Zuzu.L1Memory.PageTableSteps

/-!
# Mapping and unmapping

What the functions of arch/arm/mmu/mmu.c do to the pages of an address space:
one specification for each function, over the small steps of
`PageTableSteps`. Pages are numbered through the address space; page `p` is
entry `p % 256` of the `p / 256`-th MiB.
-/
namespace Zuzu.L1.PageTable
open Function
open Function (update)

variable {s s' : Mmu} {as bs : Space} {t u i j k n va pa : Nat} {E : Set Nat} {env : Env}
  {prot : MemProt} {memtype : VirtMemType}

variable {size p m x q : Nat} {s'' : Mmu}

/-- The pages `p … p + n - 1` of space `t`. -/
def pageRange (t p n : Nat) : Nat → Nat → Nat → Prop :=
  fun u k j => u = t ∧ p ≤ k * 256 + j ∧ k * 256 + j < p + n

/-! ## One page -/

/-- A word of zeros maps nothing. -/
theorem zero_and_tag : (0 : Word) &&& l2SmallTag = 0 := by decide

/-- A new table is linked in place of an L1 entry that said the same about each page. -/
theorem Allocated.link {T : Nat} {g : Nat → Word} (h : Allocated E s T g s')
    (ht : s.spaces t = some as) (hi : i < l1EntryCount as.type)
    (hold : descType (l1At s as i) ≠ descL2)
    (hrow : ∀ j < 256, row s as i j =
      if g j &&& l2SmallTag = 0 then none
      else some ((g j &&& l2SmallBaseMask).toNat, pageAttrs (g j))) :
    Inv E (s'.store (as.l1Addr i) (archMmuMakeL1Pte T)) ∧
      Frame s (s'.store (as.l1Addr i) (archMmuMakeL1Pte T)) noPage ∧
      descType (l1At (s'.store (as.l1Addr i) (archMmuMakeL1Pte T)) as i) = descL2 := by
  have ht' : s'.spaces t = some as := h.spaces ▸ ht
  have hT : T ∈ insert T E := Set.mem_insert _ _
  have hU := h.inv.orphan T hT
  obtain ⟨-, -, -, -, hal, h0, hlt, -⟩ := h.inv.pool.table hU
  obtain ⟨htype, hbase⟩ := archMmuMakeL1Pte_spec (Nat.ne_of_gt h0) hlt hal
  have hlink := h.inv.link ht' hi hT (h.l1 t as i ht hi ▸ hold)
  rw [Set.insert_sdiff_self_of_notMem h.fresh] at hlink
  have hat : l1At (s'.store (as.l1Addr i) (archMmuMakeL1Pte T)) as i = archMmuMakeL1Pte T :=
    l1At_store_self
  refine ⟨hlink, ?_, (congrArg descType hat).trans htype⟩
  refine (h.frame.trans (h.inv.frame_storeL1 ht' hi)).patch fun u bs k j hu _ hj hX => ?_
  obtain ⟨rfl, rfl⟩ := hX.resolve_left id
  cases ht.symm.trans hu
  refine ⟨ht', ?_, fun hL => absurd hL hold⟩
  have hword : (s'.store (as.l1Addr k) (archMmuMakeL1Pte T)).mem (T + 4 * j) = g j :=
    (update_of_ne (h.inv.l1_ne_l2 ht' hi hU hj).symm _ _).trans (h.words j hj)
  rw [hrow j hj, row, hat, leaf, htype, hbase]
  simp only [show descL2 ≠ descFault by decide, if_false, if_true, hword]

/-- What `ensureTable` leaves behind when it succeeds. -/
structure Ensured (E : Set Nat) (s : Mmu) (as : Space) (i : Nat) (s' : Mmu) : Prop where
  inv : Inv E s'
  frame : Frame s s' noPage
  spaces : s'.spaces = s.spaces
  table : descType (l1At s' as i) = descL2
  pages : ∀ p ∈ s.pool.map (·.pagePa), p ∈ s'.pool.map (·.pagePa)

/-- The L1 entry of a page comes to point to a table; every page stays as it is. -/
theorem Inv.ensureTable (h : Inv E s) (ht : s.spaces t = some as)
    (hi : i < l1EntryCount as.type) (env : Env) :
    ensureTable s as i env = (s, false) ∨
      ∃ s', ensureTable s as i env = (s', true) ∧ Ensured E s as i s' := by
  have hat : s.mem (as.l1Addr i) = l1At s as i := rfl
  simp only [PageTable.ensureTable, archMmuBreakSection, hat]
  split
  · rename_i htype
    rcases h.alloc env with he | ⟨s', T, he, ha⟩
    · simp [he]
    · have hold : descType (l1At s as i) ≠ descL2 := by
        rw [htype]
        decide
      obtain ⟨hinv, hframe, hL⟩ := ha.link ht hi hold fun j _ => by
        rw [row, leaf, if_pos htype, if_pos zero_and_tag]
      simp only [he, ha.pos, if_false]
      exact .inr ⟨_, rfl, hinv, hframe, ha.spaces, hL, ha.pages⟩
  · rename_i hfault
    split
    · rename_i hL
      exact .inr ⟨s, rfl, h, Frame.refl _ _, rfl, hL, fun _ => id⟩
    · rename_i hL
      rcases h.alloc env with he | ⟨s', T, he, ha⟩
      · simp [he]
      · obtain ⟨hinv, hframe, hL'⟩ := (ha.fill (brokenPage (l1At s as i))).link ht hi hL
          fun j hj => by
            obtain ⟨h1, h2, h3⟩ := brokenPage_spec (l1At s as i) hj
            rw [row, leaf, if_neg hfault, if_neg hL, if_neg h1, h2, h3]
        simp only [he, ha.pos, if_false]
        exact .inr ⟨_, rfl, hinv, hframe, ha.spaces, hL', ha.pages⟩

/-- What mapping one page does. -/
structure PageMapped (E : Set Nat) (s : Mmu) (t : Nat) (as : Space) (va : Nat)
    (m : Option (Nat × Attrs)) (s' : Mmu) : Prop where
  inv : Inv E s'
  frame : Frame s s' fun u k j => u = t ∧ k = l1Idx va ∧ j = l2Idx va
  spaces : s'.spaces = s.spaces
  row : row s' as (l1Idx va) (l2Idx va) = m
  pages : ∀ p ∈ s.pool.map (·.pagePa), p ∈ s'.pool.map (·.pagePa)

theorem l2Idx_lt (va : Nat) : l2Idx va < 256 := Nat.mod_lt _ (by decide)

/-- A write to the table of a page. -/
theorem Inv.writePage (h : Inv E s) (ht : s.spaces t = some as)
    (hi : l1Idx va < l1EntryCount as.type) (hL : descType (l1At s as (l1Idx va)) = descL2)
    (w : Word) :
    PageMapped E s t as va
      (if w &&& l2SmallTag = 0 then none else some ((w &&& l2SmallBaseMask).toNat, pageAttrs w))
      (s.store (l2Base (l1At s as (l1Idx va)) + 4 * l2Idx va) w) := by
  have hP : Points s t (l1Idx va) (l2Base (l1At s as (l1Idx va))) := ⟨as, ht, hi, hL, rfl⟩
  have hU := (h.points _ _ _ hP).1
  obtain ⟨hinv, hframe⟩ := h.storeL2 (w := w) hP (l2Idx_lt va)
  refine ⟨hinv, hframe, rfl, ?_, fun _ => id⟩
  have hat : l1At (s.store (l2Base (l1At s as (l1Idx va)) + 4 * l2Idx va) w) as (l1Idx va) =
      l1At s as (l1Idx va) :=
    update_of_ne (h.l1_ne_l2 ht hi hU (l2Idx_lt va)) _ _
  rw [PageTable.row, hat, leaf, hL]
  simp only [show descL2 ≠ descFault by decide, if_false, if_true, Mmu.store,
    update_self]

theorem Inv.mapPage (h : Inv E s) (ht : s.spaces t = some as) (va : Nat) (prot : MemProt)
    (memtype : VirtMemType) (env : Env) (hpa : pa < wordSize) (hal : pa % pageSize = 0) :
    archMmuMapPage s as va pa memtype prot env = (s, false) ∨
      ∃ s', archMmuMapPage s as va pa memtype prot env = (s', true) ∧
        l1Idx va < l1EntryCount as.type ∧
        PageMapped E s t as va (some (pa, attrsOf prot memtype)) s' ∧
        descType (l1At s' as (l1Idx va)) = descL2 := by
  unfold archMmuMapPage
  split
  · exact .inl rfl
  · split
    · exact .inl rfl
    · rename_i hi
      have hi : l1Idx va < l1EntryCount as.type := Nat.not_le.mp hi
      rcases h.ensureTable ht hi env with he | ⟨s', he, hen⟩
      · exact .inl (by simp [he])
      · simp only [he, Bool.true_eq_false, if_false]
        have ht' : s'.spaces t = some as := hen.spaces ▸ ht
        obtain ⟨h1, h2, h3⟩ := l2PageDesc_spec prot memtype hpa hal
        obtain ⟨hinv, hframe, hs, hrow, hpages⟩ := hen.inv.writePage ht' hi hen.table
          (l2PageDesc pa prot memtype)
        rw [if_neg h1, h2, h3] at hrow
        refine .inr ⟨_, rfl, hi, ⟨hinv, (hen.frame.trans hframe).mono fun u k j _ hX =>
          hX.elim False.elim id, hs.trans hen.spaces, hrow, fun p hp => hpages p (hen.pages p hp)⟩,
          ?_⟩
        have hP : Points s' t (l1Idx va) _ := ⟨as, ht', hi, hen.table, rfl⟩
        have hU := (hen.inv.points _ _ _ hP).1
        exact (congrArg descType (update_of_ne (hen.inv.l1_ne_l2 ht' hi hU (l2Idx_lt va))
          _ _)).trans hen.table

/-- Unmapping a page of a MiB of small pages; a section stays as it is. -/
theorem Inv.unmapPage (h : Inv E s) (ht : s.spaces t = some as)
    (hi : l1Idx va < l1EntryCount as.type) :
    Inv E (archMmuUnmapPage s as va).1 ∧
      Frame s (archMmuUnmapPage s as va).1 (fun u k j => u = t ∧ k = l1Idx va ∧ j = l2Idx va) ∧
      (archMmuUnmapPage s as va).1.spaces = s.spaces ∧
      (archMmuUnmapPage s as va).1.pool = s.pool ∧
      (archMmuUnmapPage s as va).1.frames = s.frames ∧
      (descType (l1At s as (l1Idx va)) = descL2 →
        row (archMmuUnmapPage s as va).1 as (l1Idx va) (l2Idx va) = none) := by
  have hat : s.mem (as.l1Addr (l1Idx va)) = l1At s as (l1Idx va) := rfl
  simp only [archMmuUnmapPage, hat]
  split
  · rename_i hL
    exact ⟨h, Frame.refl _ _, rfl, rfl, rfl, fun hL' => absurd hL' hL⟩
  · rename_i hL
    have hL := not_not.mp hL
    split
    · rename_i h0
      refine ⟨h, Frame.refl _ _, rfl, rfl, rfl, fun _ => ?_⟩
      rw [row, leaf, hL]
      simp only [show descL2 ≠ descFault by decide, if_false, if_true, h0, zero_and_tag]
    · obtain ⟨hinv, hframe, hs, hrow, -⟩ := h.writePage ht hi hL 0
      exact ⟨hinv, hframe, hs, rfl, rfl, fun _ => by rw [hrow, if_pos zero_and_tag]⟩

/-! ## Pages by number -/

/-- The indices of page `p`. -/
theorem idx_of_page (hx : x / pageSize = p) (hlt : x < wordSize) :
    l1Idx x = p / 256 ∧ l2Idx x = p % 256 := by
  unfold l1Idx l2Idx sectionSize pageSize wordSize at *
  omega

theorem addOff_of_lt {o : Nat} (h : x + o < wordSize) : addOff x o = x + o :=
  Nat.mod_eq_of_lt h

/-- The `q`-th page from an aligned address on. -/
theorem page_addOff (hal : va % pageSize = 0) (hfit : va + (n + 1) * pageSize ≤ wordSize) :
    l1Idx (addOff va (n * pageSize)) = (va / pageSize + n) / 256 ∧
      l2Idx (addOff va (n * pageSize)) = (va / pageSize + n) % 256 := by
  have hlt : va + n * pageSize < wordSize := by
    unfold pageSize wordSize at *
    omega
  rw [addOff_of_lt hlt]
  refine idx_of_page ?_ hlt
  unfold pageSize at *
  omega

/-- How page `p` of a space is mapped. -/
def view (s : Mmu) (as : Space) (p : Nat) : Option (Nat × Attrs) := row s as (p / 256) (p % 256)

/-- Page `p` lies in a MiB of small pages. -/
def Small (s : Mmu) (as : Space) (p : Nat) : Prop := descType (l1At s as (p / 256)) = descL2

theorem page_split (p : Nat) : p / 256 * 256 + p % 256 = p := Nat.div_add_mod' p 256

/-- What a frame says about the page with number `p`. -/
theorem Frame.page (h : Frame s s' (pageRange t q n)) (hu : s.spaces u = some bs)
    (hp : p / 256 < l1EntryCount bs.type) (hne : u = t → p < q ∨ q + n ≤ p) :
    view s' bs p = view s bs p ∧ (Small s bs p → Small s' bs p) := by
  have hX : ¬pageRange t q n u (p / 256) (p % 256) := by
    rintro ⟨rfl, h1, h2⟩
    omega
  exact (h u bs _ _ hu hp (Nat.mod_lt _ (by decide)) hX).2

/-- The exception for one address is the one for its page. -/
theorem Frame.onePage (h : Frame s s' fun u k j => u = t ∧ k = l1Idx va ∧ j = l2Idx va)
    (hidx : l1Idx va = p / 256 ∧ l2Idx va = p % 256) : Frame s s' (pageRange t p 1) := by
  refine h.mono ?_
  rintro u k j - ⟨rfl, rfl, rfl⟩
  rw [hidx.1, hidx.2]
  refine ⟨rfl, ?_⟩
  rw [page_split]
  omega

theorem Frame.union (h : Frame s s' (pageRange t p n))
    (h' : Frame s' s'' (pageRange t (p + n) m)) : Frame s s'' (pageRange t p (n + m)) := by
  refine (h.trans h').mono ?_
  rintro u k j - (⟨rfl, h1, h2⟩ | ⟨rfl, h1, h2⟩)
  · exact ⟨rfl, h1, by omega⟩
  · exact ⟨rfl, by omega, by omega⟩

/-! ## The page loops -/

/-- The rest of what an operation that maps or unmaps pages keeps. -/
structure Kept (s s' : Mmu) : Prop where
  spaces : s'.spaces = s.spaces
  pages : ∀ p ∈ s.pool.map (·.pagePa), p ∈ s'.pool.map (·.pagePa)

theorem Kept.refl (s : Mmu) : Kept s s := ⟨rfl, fun _ => id⟩

theorem Kept.trans (h : Kept s s') (h' : Kept s' s'') : Kept s s'' :=
  ⟨h'.spaces.trans h.spaces, fun p hp => h'.pages p (h.pages p hp)⟩

/-- `n` pages from `va` on lie in the space. -/
def Within (as : Space) (va n : Nat) : Prop :=
  va % pageSize = 0 ∧ va + n * pageSize ≤ l1EntryCount as.type * sectionSize

theorem Within.le_wordSize (h : Within as va n) : va + n * pageSize ≤ wordSize := by
  refine h.2.trans ?_
  cases as.type <;> decide

theorem Within.mono (h : Within as va n) (hm : m ≤ n) : Within as va m := by
  refine ⟨h.1, le_trans ?_ h.2⟩
  exact Nat.add_le_add_left (Nat.mul_le_mul_right _ hm) _

theorem Within.idx_lt (h : Within as va n) (hq : q < n) :
    (va / pageSize + q) / 256 < l1EntryCount as.type := by
  obtain ⟨h1, h2⟩ := h
  unfold pageSize sectionSize at *
  omega

theorem Inv.unmapPages (h : Inv E s) (ht : s.spaces t = some as) :
    ∀ {n}, Within as va n →
      Inv E (unmapPages as va s n).1 ∧
      Frame s (unmapPages as va s n).1 (pageRange t (va / pageSize) n) ∧
      Kept s (unmapPages as va s n).1 ∧ (unmapPages as va s n).1.pool = s.pool ∧
      (unmapPages as va s n).1.frames = s.frames ∧
      ∀ q < n, Small s as (va / pageSize + q) →
        view (unmapPages as va s n).1 as (va / pageSize + q) = none := by
  intro n
  induction n with
  | zero => exact fun _ => ⟨h, Frame.refl _ _, .refl _, rfl, rfl, fun q hq => by omega⟩
  | succ n ih =>
    intro hw
    obtain ⟨hinv, hframe, hkept, hpool, hfr, hnone⟩ := ih (hw.mono (Nat.le_succ n))
    have hidx := page_addOff hw.1 hw.le_wordSize
    have ht' := hkept.spaces ▸ ht
    have hlt := hw.idx_lt (Nat.lt_succ_self n)
    obtain ⟨hinv', hframe', hs', hpool', hfr', hrow'⟩ :=
      hinv.unmapPage ht' (show l1Idx (addOff va (n * pageSize)) < _ from hidx.1 ▸ hlt)
    have hframe' := hframe'.onePage hidx
    simp only [PageTable.unmapPages]
    refine ⟨hinv', hframe.union hframe', hkept.trans ⟨hs', fun p hp => hpool' ▸ hp⟩,
      hpool'.trans hpool, hfr'.trans hfr, fun q hq hsm => ?_⟩
    by_cases hqn : q = n
    · subst hqn
      have hsm' := (hframe.page ht hlt fun _ => by omega).2 hsm
      rw [hidx.1, hidx.2] at hrow'
      exact hrow' hsm'
    · have hlt' := hw.idx_lt hq
      rw [(hframe'.page ht' hlt' fun _ => by omega).1]
      exact hnone q (by omega) hsm

/-- Unmapping pages leaves the L1 entries alone. -/
theorem unmapPages_small (h : Inv E s) (ht : s.spaces t = some as) (hw : Within as va n)
    (hk : k < l1EntryCount as.type) (hL : descType (l1At s as k) = descL2) :
    descType (l1At (unmapPages as va s n).1 as k) = descL2 := by
  induction n with
  | zero => exact hL
  | succ n ih =>
    have hw' := hw.mono (Nat.le_succ n)
    obtain ⟨hinv, -, hkept, -⟩ := h.unmapPages ht hw'
    have ht' := hkept.spaces ▸ ht
    have hidx := page_addOff hw.1 hw.le_wordSize
    have hlt := hw.idx_lt (Nat.lt_succ_self n)
    obtain ⟨-, hframe, -⟩ :=
      hinv.unmapPage ht' (show l1Idx (addOff va (n * pageSize)) < _ from hidx.1 ▸ hlt)
    -- some other page of the same MiB is not touched
    by_cases hj : l2Idx (addOff va (n * pageSize)) = 0
    · exact (hframe t as k 1 ht' hk (by decide) fun hX => by omega).2.2 (ih hw')
    · exact (hframe t as k 0 ht' hk (by decide) fun hX => hj hX.2.2.symm).2.2 (ih hw')

theorem addOff_aligned {o : Nat} (hx : x % pageSize = 0) (ho : o % pageSize = 0) :
    addOff x o < wordSize ∧ addOff x o % pageSize = 0 := by
  unfold addOff wordSize pageSize at *
  omega

/-- The loop either maps all its pages, or stops at one and unmaps what lies before it. -/
theorem Inv.mapPages (h : Inv E s) (ht : s.spaces t = some as) (prot : MemProt)
    (memtype : VirtMemType) (env : Env) (hw : Within as va (k + n)) (hpa : pa % pageSize = 0) :
    (∃ s', mapPages as va pa prot memtype env s k n = (s', true) ∧ Inv E s' ∧
      Frame s s' (pageRange t (va / pageSize + k) n) ∧ Kept s s' ∧
      ∀ q, k ≤ q → q < k + n →
        view s' as (va / pageSize + q) =
          some (addOff pa (q * pageSize), attrsOf prot memtype) ∧
        Small s' as (va / pageSize + q)) ∨
    ∃ s₁ m, mapPages as va pa prot memtype env s k n =
        ((PageTable.unmapPages as va s₁ (k + m)).1, false) ∧
      m < n ∧ Inv E s₁ ∧ Frame s s₁ (pageRange t (va / pageSize + k) m) ∧ Kept s s₁ ∧
      ∀ q, k ≤ q → q < k + m → Small s₁ as (va / pageSize + q) := by
  induction n generalizing s k with
  | zero =>
    exact .inl ⟨s, rfl, h, Frame.refl _ _, .refl _, fun q h1 h2 => by omega⟩
  | succ n ih =>
    have hidx := page_addOff hw.1 (hw.mono (m := k + 1) (by omega)).le_wordSize
    have hlt := hw.idx_lt (q := k) (by omega)
    obtain ⟨hpa1, hpa2⟩ := addOff_aligned hpa (Nat.mul_mod_left k pageSize)
    simp only [PageTable.mapPages]
    rcases h.mapPage ht (addOff va (k * pageSize)) prot memtype env hpa1 hpa2 with he | ⟨s', he, hi, hm, hL⟩
    · refine .inr ⟨s, 0, ?_, by omega, h, Frame.refl _ _, .refl _, fun q h1 h2 => by omega⟩
      simp [he]
    · obtain ⟨hinv, hframe, hs, hrow, hpages⟩ := hm
      have hframe := hframe.onePage hidx
      have ht' := hs ▸ ht
      have hview : view s' as (va / pageSize + k) =
          some (addOff pa (k * pageSize), attrsOf prot memtype) ∧
          Small s' as (va / pageSize + k) := by
        rw [hidx.1, hidx.2] at hrow
        refine ⟨hrow, ?_⟩
        rw [Small, ← hidx.1]
        exact hL
      simp only [he, Bool.true_eq_false, if_false]
      rcases ih hinv ht' (k := k + 1) (by rwa [Nat.add_right_comm, Nat.add_assoc] ) with
        ⟨s₂, he₂, hinv₂, hframe₂, hkept₂, hrest⟩ | ⟨s₁, m, he₁, hm, hinv₁, hframe₁, hkept₁, hrest⟩
      · refine .inl ⟨s₂, he₂, hinv₂, ?_, Kept.trans ⟨hs, hpages⟩ hkept₂, fun q h1 h2 => ?_⟩
        · rw [Nat.add_comm n 1]
          exact hframe.union hframe₂
        · by_cases hqk : q = k
          · subst hqk
            obtain ⟨hsame, hsmall⟩ := hframe₂.page ht' hlt fun _ => by omega
            exact ⟨hsame.trans hview.1, hsmall hview.2⟩
          · exact hrest q (by omega) (by omega)
      · refine .inr ⟨s₁, m + 1, ?_, by omega, hinv₁, ?_, Kept.trans ⟨hs, hpages⟩ hkept₁,
          fun q h1 h2 => ?_⟩
        · rw [he₁, Nat.add_comm m 1, Nat.add_assoc]
        · rw [Nat.add_comm m 1]
          exact hframe.union hframe₁
        · by_cases hqk : q = k
          · subst hqk
            exact (hframe₁.page ht' hlt fun _ => by omega).2 hview.2
          · exact hrest q (by omega) (by omega)

/-! ## The section loops -/

/-- `n` sections from `va` on lie in the space. -/
def WithinSections (as : Space) (va n : Nat) : Prop :=
  va % sectionSize = 0 ∧ va + n * sectionSize ≤ l1EntryCount as.type * sectionSize

theorem WithinSections.idx (h : WithinSections as va n) (hq : q < n) :
    l1Idx (addOff va (q * sectionSize)) = va / sectionSize + q ∧
      va / sectionSize + q < l1EntryCount as.type := by
  obtain ⟨h1, h2⟩ := h
  have hc : l1EntryCount as.type ≤ 4096 := by
    cases as.type <;> decide
  have hlt : va + q * sectionSize < wordSize := by
    unfold sectionSize wordSize at *
    omega
  rw [addOff_of_lt hlt]
  unfold l1Idx sectionSize at *
  omega

theorem WithinSections.mono (h : WithinSections as va n) (hm : m ≤ n) :
    WithinSections as va m := by
  refine ⟨h.1, le_trans ?_ h.2⟩
  exact Nat.add_le_add_left (Nat.mul_le_mul_right _ hm) _

/-- The exception for one MiB is the one for its pages. -/
theorem Frame.oneSection (h : Frame s s' (pagesOf t i)) :
    Frame s s' (pageRange t (i * 256) 256) := by
  refine h.mono ?_
  rintro u k j hj ⟨rfl, rfl⟩
  exact ⟨rfl, by omega, by omega⟩

/-- One section is mapped: its L1 entry is overwritten, and a table it pointed to is lost. -/
theorem Inv.mapSection (h : Inv E s) (ht : s.spaces t = some as) (prot : MemProt)
    (memtype : VirtMemType) (hi : i < l1EntryCount as.type) (hpa : pa < wordSize) (hal : pa % sectionSize = 0) :
    let s' := s.store (as.l1Addr i) (l1SectionDesc pa prot memtype)
    Inv (E ∪ {T | Points s t i T}) s' ∧ Frame s s' (pageRange t (i * 256) 256) ∧
      ∀ j < 256, row s' as i j = some (pa + j * pageSize, attrsOf prot memtype) := by
  intro s'
  obtain ⟨h1, h2, h3⟩ := l1SectionDesc_spec prot memtype hpa hal
  have hne : descType (l1SectionDesc pa prot memtype) ≠ descL2 := by
    rw [h1]
    decide
  refine ⟨h.storeL1 ht hi hne, (h.frame_storeL1 ht hi).oneSection, fun j hj => ?_⟩
  rw [row, l1At_store_self, leaf, if_neg (by rw [h1]; decide), if_neg hne, h2, h3]

/-- The tables that mapping `n` sections from section `i` on loses. -/
def lostTables (s : Mmu) (t i n : Nat) : Set Nat := {T | ∃ q < n, Points s t (i + q) T}

theorem Inv.mapSections (h : Inv E s) (ht : s.spaces t = some as) (prot : MemProt)
    (memtype : VirtMemType) (hw : WithinSections as va (k + n)) (hpa : pa % sectionSize = 0) :
    ∃ s', mapSections as va pa prot memtype s k n = (s', true) ∧
      Inv (E ∪ lostTables s t (va / sectionSize + k) n) s' ∧
      Frame s s' (pageRange t ((va / sectionSize + k) * 256) (n * 256)) ∧ Kept s s' ∧
      ∀ q, k ≤ q → q < k + n → ∀ j < 256, row s' as (va / sectionSize + q) j =
        some (addOff pa (q * sectionSize) + j * pageSize, attrsOf prot memtype) := by
  induction n generalizing s k E with
  | zero =>
    refine ⟨s, rfl, ?_, Frame.refl _ _, .refl _, fun q h1 h2 => by omega⟩
    have : lostTables s t (va / sectionSize + k) 0 = ∅ := by simp [lostTables]
    rwa [this, Set.union_empty]
  | succ n ih =>
    obtain ⟨hidx, hlt⟩ := hw.idx (q := k) (by omega)
    have hpal : addOff pa (k * sectionSize) < wordSize ∧
        addOff pa (k * sectionSize) % sectionSize = 0 := by
      unfold addOff wordSize sectionSize at *
      omega
    simp only [PageTable.mapSections, hidx, ge_iff_le, Nat.not_le.mpr hlt, if_false]
    obtain ⟨hinv, hframe, hrow⟩ := h.mapSection ht prot memtype hlt hpal.1 hpal.2
    obtain ⟨s', he, hinv', hframe', hkept', hrest⟩ := ih hinv ht (k := k + 1)
      (by rwa [Nat.add_right_comm, Nat.add_assoc])
    refine ⟨s', he, ?_, ?_, ?_, fun q h1 h2 j hj => ?_⟩
    · -- what the later sections lose, they lose of the tables of `s`
      have hlost : E ∪ {T | Points s t (va / sectionSize + k) T} ∪
          lostTables (s.store (as.l1Addr (va / sectionSize + k))
            (l1SectionDesc (addOff pa (k * sectionSize)) prot memtype)) t
            (va / sectionSize + (k + 1)) n =
          E ∪ lostTables s t (va / sectionSize + k) (n + 1) := by
        rw [Set.union_assoc]
        congr 1
        ext T
        constructor
        · rintro (hP | ⟨q, hq, hP⟩)
          · exact ⟨0, by omega, hP⟩
          · refine ⟨q + 1, by omega, ?_⟩
            rcases (h.points_store ht hlt).mp hP with ⟨⟨-, hc⟩, -⟩ | ⟨-, hP⟩
            · omega
            · have : va / sectionSize + (k + 1) + q = va / sectionSize + k + (q + 1) := by omega
              rwa [this] at hP
        · rintro ⟨q, hq, hP⟩
          by_cases hq0 : q = 0
          · subst hq0
            exact .inl hP
          · refine .inr ⟨q - 1, by omega, (h.points_store ht hlt).mpr (.inr ⟨by omega, ?_⟩)⟩
            have : va / sectionSize + (k + 1) + (q - 1) = va / sectionSize + k + q := by omega
            rwa [this]
      rwa [hlost] at hinv'
    · have e : (va / sectionSize + k) * 256 + 256 = (va / sectionSize + (k + 1)) * 256 := by
        omega
      rw [← e] at hframe'
      have := hframe.union hframe'
      rwa [show (n + 1) * 256 = 256 + n * 256 by omega]
    · exact ⟨hkept'.spaces, hkept'.pages⟩
    · by_cases hqk : q = k
      · subst hqk
        have hX : ¬pageRange t ((va / sectionSize + (q + 1)) * 256) (n * 256) t
            (va / sectionSize + q) j := by
          rintro ⟨-, hX, -⟩
          omega
        rw [(hframe' t as _ j ht hlt hj hX).2.1, hrow j hj]
      · exact hrest q (by omega) (by omega) j hj

/-- An operation that frees tables: the frames it gives back are those of the pool pages that
are gone. -/
structure Shrunk (s s' : Mmu) : Prop where
  frames : ∀ f, s'.frames f = true → s.frames f = true
  returned : ∀ p ∈ s.pool.map (·.pagePa), p ∉ s'.pool.map (·.pagePa) → s'.frames p = false

theorem Shrunk.refl (s : Mmu) : Shrunk s s := ⟨fun _ => id, fun _ h h' => absurd h h'⟩

theorem Shrunk.trans (h : Shrunk s s') (h' : Shrunk s' s'') : Shrunk s s'' := by
  refine ⟨fun f hf => h.frames f (h'.frames f hf), fun p hp hp'' => ?_⟩
  by_cases hp' : p ∈ s'.pool.map (·.pagePa)
  · exact h'.returned p hp' hp''
  · have hf := h.returned p hp hp'
    by_contra hc
    rw [h'.frames p (by simpa using hc)] at hf
    cases hf

theorem Inv.free_shrunk {T : Nat} (h : Inv E s) (hT : T ∈ E) : Shrunk s (l2PtPoolFree T s) := by
  obtain ⟨-, -, -, -, hfr⟩ := h.free hT
  refine ⟨fun f hf => ((hfr f).mp hf).1, fun p hp hp' => ?_⟩
  by_contra hc
  exact hp' (((hfr p).mp (by simpa using hc)).2 hp)

/-- Nothing is mapped where an L1 entry is zero. -/
theorem row_of_zero (h : l1At s as i = 0) : row s as i j = none := by
  rw [row, h, leaf, if_pos (by decide)]

theorem Inv.unmapSection (h : Inv E s) (ht : s.spaces t = some as)
    (hi : i < l1EntryCount as.type) :
    Inv E (unmapSection s as i).1 ∧
      Frame s (unmapSection s as i).1 (pageRange t (i * 256) 256) ∧
      (unmapSection s as i).1.spaces = s.spaces ∧ Shrunk s (unmapSection s as i).1 ∧
      ∀ j < 256, row (unmapSection s as i).1 as i j = none := by
  have hat : s.mem (as.l1Addr i) = l1At s as i := rfl
  simp only [PageTable.unmapSection, hat]
  split
  · rename_i h0
    exact ⟨h, Frame.refl _ _, rfl, .refl _, fun j _ => row_of_zero h0⟩
  · have hne : descType (0 : Word) ≠ descL2 := by decide
    have hframe := (h.frame_storeL1 (w := 0) ht hi).oneSection
    split
    · rename_i hL
      have hP : Points s t i (l2Base (l1At s as i)) := ⟨as, ht, hi, hL, rfl⟩
      have hclear := h.storeL1 (w := 0) ht hi hne
      have hmem : l2Base (l1At s as i) ∈ E ∪ {T | Points s t i T} := .inr hP
      obtain ⟨hinv, hmem', hs', -, -⟩ := hclear.free hmem
      have hset : (E ∪ {T | Points s t i T}) \ {l2Base (l1At s as i)} = E := by
        ext T
        constructor
        · rintro ⟨hE | hP', hne⟩
          · exact hE
          · obtain ⟨bs, hb, -, -, rfl⟩ := hP'
            cases ht.symm.trans hb
            exact absurd rfl hne
        · exact fun hE => ⟨.inl hE, fun e => (h.points t i _ hP).2 (e ▸ hE)⟩
      rw [hset] at hinv
      refine ⟨hinv, ?_, hs', ?_, fun j hj => row_of_zero ?_⟩
      · have hrest : Frame (s.store (as.l1Addr i) 0) (l2PtPoolFree (l2Base (l1At s as i))
            (s.store (as.l1Addr i) 0)) noPage :=
          Frame.of_words hs' (fun u bs k j hu hk _ _ => by rw [l1At, hmem']; rfl)
            fun u k j T _ _ _ => by rw [hmem']
        exact (hframe.trans hrest).mono fun u k j _ hX => hX.elim id False.elim
      · have hshr := hclear.free_shrunk hmem
        exact ⟨hshr.frames, hshr.returned⟩
      · rw [l1At, hmem']
        exact l1At_store_self
    · rename_i hL
      exact ⟨h.storeL1_of_ne ht hi hL hne, hframe, rfl,
        ⟨fun _ => id, fun p hp hp' => absurd hp hp'⟩, fun j _ => row_of_zero l1At_store_self⟩

theorem Inv.unmapSections (h : Inv E s) (ht : s.spaces t = some as) :
    ∀ {n}, WithinSections as va n →
      Inv E (unmapSections as va s n).1 ∧
      Frame s (unmapSections as va s n).1 (pageRange t (va / sectionSize * 256) (n * 256)) ∧
      (unmapSections as va s n).1.spaces = s.spaces ∧
      Shrunk s (unmapSections as va s n).1 ∧
      ∀ q < n, ∀ j < 256, row (unmapSections as va s n).1 as (va / sectionSize + q) j = none := by
  intro n
  induction n with
  | zero => exact fun _ => ⟨h, Frame.refl _ _, rfl, .refl _, fun q hq => by omega⟩
  | succ n ih =>
    intro hw
    obtain ⟨hinv, hframe, hs, hshr, hnone⟩ := ih (hw.mono (Nat.le_succ n))
    obtain ⟨hidx, hlt⟩ := hw.idx (Nat.lt_succ_self n)
    have ht' := hs ▸ ht
    obtain ⟨hinv', hframe', hs', hshr', hnone'⟩ := hinv.unmapSection ht' hlt
    simp only [PageTable.unmapSections, hidx]
    refine ⟨hinv', ?_, hs'.trans hs, hshr.trans hshr', fun q hq j hj => ?_⟩
    · rw [Nat.add_mul] at hframe'
      rw [show (n + 1) * 256 = n * 256 + 256 by omega]
      exact hframe.union hframe'
    · by_cases hqn : q = n
      · subst hqn
        exact hnone' j hj
      · obtain ⟨-, hlt'⟩ := hw.idx hq
        have hX : ¬pageRange t ((va / sectionSize + n) * 256) 256 t (va / sectionSize + q) j := by
          rintro ⟨-, h1, h2⟩
          omega
        rw [(hframe' t as _ j ht' hlt' hj hX).2.1]
        exact hnone q (by omega) j hj

/-! ## `ArchMmuMap` and `ArchMmuUnmap` -/

/-- The range lies in the address space; `size` bytes from `va` on do not wrap. -/
def InSpace (as : Space) (va size : Nat) : Prop :=
  va + size ≤ l1EntryCount as.type * sectionSize

theorem InSpace.within (h : InSpace as va size) (hva : va % pageSize = 0)
    (hsize : size % pageSize = 0) : Within as va (size / pageSize) := by
  refine ⟨hva, ?_⟩
  rwa [Nat.div_mul_cancel (Nat.dvd_of_mod_eq_zero hsize)]

theorem InSpace.withinSections (h : InSpace as va size)
    (hva : va % sectionSize = 0) (hsize : size % sectionSize = 0) :
    WithinSections as va (size / sectionSize) := by
  refine ⟨hva, ?_⟩
  rwa [Nat.div_mul_cancel (Nat.dvd_of_mod_eq_zero hsize)]

/-- An aligned range by sections and by pages. -/
theorem section_pages (hva : va % sectionSize = 0) (hsize : size % sectionSize = 0) :
    va / sectionSize * 256 = va / pageSize ∧ size / sectionSize * 256 = size / pageSize := by
  unfold sectionSize pageSize at *
  omega

/-- What unmapping a range of the space does. -/
theorem Inv.unmap (h : Inv E s) (ht : s.spaces t = some as)
    (hin : InSpace as va size) :
    Inv E (archMmuUnmap s as va size).1 ∧
      Frame s (archMmuUnmap s as va size).1
        (pageRange t (va / pageSize) (size / pageSize)) ∧
      (archMmuUnmap s as va size).1.spaces = s.spaces ∧
      Shrunk s (archMmuUnmap s as va size).1 ∧
      (va % pageSize = 0 → size % pageSize = 0 →
        (va % sectionSize = 0 ∧ size % sectionSize = 0 ∨
          ∀ q < size / pageSize, Small s as (va / pageSize + q)) →
        ∀ q < size / pageSize,
          view (archMmuUnmap s as va size).1 as (va / pageSize + q) = none) := by
  unfold archMmuUnmap
  split
  · rename_i h0
    subst h0
    exact ⟨h, Frame.refl _ _, rfl, .refl _, fun _ _ _ q hq => by simp at hq⟩
  · split
    · rename_i hsec
      obtain ⟨hva, hsize⟩ := hsec
      obtain ⟨hinv, hframe, hs, hshr, hnone⟩ := h.unmapSections ht (hin.withinSections hva hsize)
      obtain ⟨e1, e2⟩ := section_pages hva hsize
      rw [e1, e2] at hframe
      refine ⟨hinv, hframe, hs, hshr, fun _ _ _ q hq => ?_⟩
      have hq' : (va / pageSize + q) / 256 = va / sectionSize + q / 256 := by omega
      rw [view, hq']
      exact hnone _ (by omega) _ (Nat.mod_lt _ (by decide))
    · rename_i hsec
      split
      · rename_i hpg
        obtain ⟨hinv, hframe, hkept, hpool, hfr, hnone⟩ :=
          h.unmapPages ht (hin.within hpg.1 hpg.2)
        exact ⟨hinv, hframe, hkept.spaces, ⟨fun f hf => hfr ▸ hf,
          fun p hp hp' => absurd (hpool ▸ hp) hp'⟩,
          fun _ _ hor q hq => hnone q hq (hor.resolve_left hsec q hq)⟩
      · rename_i hpg
        exact ⟨h, Frame.refl _ _, rfl, .refl _, fun h1 h2 => absurd ⟨h1, h2⟩ hpg⟩

/-- The tables that `ArchMmuMap` loses: those whose L1 entries its section loop overwrites. -/
def overwritten (s : Mmu) (t va pa size : Nat) : Set Nat :=
  {T | (va % sectionSize = 0 ∧ pa % sectionSize = 0 ∧ size % sectionSize = 0) ∧
    T ∈ lostTables s t (va / sectionSize) (size / sectionSize)}

/-- Mapping succeeded. -/
structure Mapped (E : Set Nat) (s : Mmu) (t : Nat) (as : Space) (va pa size : Nat) (attrs : Attrs)
    (s' : Mmu) : Prop where
  inSpace : InSpace as va size
  inv : Inv (E ∪ overwritten s t va pa size) s'
  frame : Frame s s' (pageRange t (va / pageSize) (size / pageSize))
  kept : Kept s s'
  view : ∀ q < size / pageSize,
    view s' as (va / pageSize + q) = some (addOff pa (q * pageSize), attrs)
  small : va % sectionSize = 0 ∧ size % sectionSize = 0 ∨
    ∀ q < size / pageSize, Small s' as (va / pageSize + q)

/-- Mapping failed. Pages that were mapped before may be gone, but not if there were none. -/
structure NotMapped (E : Set Nat) (s : Mmu) (t : Nat) (as : Space) (va size : Nat) (s' : Mmu) :
    Prop where
  inv : Inv E s'
  frame : Frame s s' (pageRange t (va / pageSize) (size / pageSize))
  kept : Kept s s'
  undone : (∀ q < size / pageSize, (va / pageSize + q) / 256 < l1EntryCount as.type →
    PageTable.view s as (va / pageSize + q) = none) → Frame s s' noPage

theorem Inv.notMapped_refl (h : Inv E s) : NotMapped E s t as va size s :=
  ⟨h, Frame.refl _ _, .refl _, fun _ => Frame.refl _ _⟩

/-- The page loop fails: what it mapped is unmapped again. -/
theorem Inv.rollback {s₁ : Mmu} (hinv : Inv E s₁) (ht : s.spaces t = some as)
    (hm : m < size / pageSize) (hw : Within as va (size / pageSize))
    (hframe : Frame s s₁ (pageRange t (va / pageSize) m)) (hkept : Kept s s₁)
    (hsmall : ∀ q < m, Small s₁ as (va / pageSize + q)) :
    NotMapped E s t as va size (PageTable.unmapPages as va s₁ m).1 := by
  have ht' := hkept.spaces ▸ ht
  obtain ⟨hinv', hframe', hkept', -, -, hnone⟩ := hinv.unmapPages ht' (hw.mono (Nat.le_of_lt hm))
  have hboth : Frame s (PageTable.unmapPages as va s₁ m).1 (pageRange t (va / pageSize) m) :=
    (hframe.trans hframe').mono fun u k j _ hX => hX.elim id id
  refine ⟨hinv', hboth.mono ?_, hkept.trans hkept', fun hun => hboth.patch ?_⟩
  · rintro u k j - ⟨rfl, h1, h2⟩
    exact ⟨rfl, h1, by omega⟩
  · rintro u bs k j hu hk hj ⟨rfl, h1, h2⟩
    cases ht.symm.trans hu
    -- page `q` of the range
    obtain ⟨q, hq⟩ := Nat.exists_eq_add_of_le h1
    have hk' : (k * 256 + j) / 256 = k := by omega
    have hj' : (k * 256 + j) % 256 = j := by omega
    have hsm := hsmall q (by omega)
    have hn := hnone q (by omega) hsm
    have ho := hun q (by omega) (hw.idx_lt (by omega))
    rw [← hq, view, hk', hj'] at hn ho
    rw [← hq, Small, hk'] at hsm
    -- unmapping single pages keeps the tables
    exact ⟨(hkept.trans hkept').spaces ▸ ht, hn.trans ho.symm, fun _ =>
      unmapPages_small hinv ht' (hw.mono (Nat.le_of_lt hm)) hk hsm⟩

theorem Inv.map (h : Inv E s) (ht : s.spaces t = some as)
    (hfit : va + size ≤ wordSize) (pa : Nat) (prot : MemProt) (memtype : VirtMemType) (env : Env) :
    (∃ s', archMmuMap s as va pa size prot memtype env = (s', true) ∧
      Mapped E s t as va pa size (attrsOf prot memtype) s') ∨
    ∃ s', archMmuMap s as va pa size prot memtype env = (s', false) ∧
      NotMapped E s t as va size s' := by
  unfold archMmuMap
  split
  · exact .inr ⟨s, rfl, h.notMapped_refl⟩
  · split
    · exact .inr ⟨s, rfl, h.notMapped_refl⟩
    · rename_i h0 huser
      have hin : InSpace as va size := by
        unfold InSpace
        cases htype : as.type with
        | kernel => exact hfit
        | user =>
          simp only [htype, true_and, not_or] at huser
          unfold userVaTop at huser
          simp only [l1EntryCount, sectionSize]
          omega
      split
      · rename_i hsec
        obtain ⟨h1, h2, h3⟩ := hsec
        obtain ⟨s', he, hinv, hframe, hkept, hrow⟩ := h.mapSections (k := 0) ht
          prot memtype (by simpa using hin.withinSections h1 h3) h2
        obtain ⟨e1, e2⟩ := section_pages h1 h3
        rw [Nat.add_zero, e1, e2] at hframe
        refine .inl ⟨s', he, hin, ?_, hframe, hkept, fun q hq => ?_, .inl ⟨h1, h3⟩⟩
        · have hset : overwritten s t va pa size =
              lostTables s t (va / sectionSize + 0) (size / sectionSize) := by
            ext T
            simp [overwritten, h1, h2, h3]
          rwa [hset]
        · have hq1 : (va / pageSize + q) / 256 = va / sectionSize + q / 256 := by omega
          have hq2 : (va / pageSize + q) % 256 = q % 256 := by omega
          rw [PageTable.view, hq1, hq2, hrow (q / 256) (Nat.zero_le _) (by omega) (q % 256)
            (Nat.mod_lt _ (by decide))]
          have : addOff pa (q / 256 * sectionSize) + q % 256 * pageSize =
              addOff pa (q * pageSize) := by
            unfold addOff sectionSize pageSize wordSize at *
            omega
          rw [this]
      · rename_i hsec
        split
        · rename_i hpg
          obtain ⟨h1, h2, h3⟩ := hpg
          have hw := hin.within h1 h3
          have hover : overwritten s t va pa size = ∅ := by
            ext T
            simp only [overwritten, hsec, false_and]
            rfl
          rcases h.mapPages (k := 0) ht prot memtype env
            (by simpa using hw) h2 with ⟨s', he, hinv, hframe, hkept, hrow⟩ |
              ⟨s₁, m, he, hm, hinv, hframe, hkept, hsmall⟩
          · refine .inl ⟨s', he, hin, ?_, by simpa using hframe, hkept,
              fun q hq => (hrow q (Nat.zero_le _) (by omega)).1,
              .inr fun q hq => (hrow q (Nat.zero_le _) (by omega)).2⟩
            rwa [hover, Set.union_empty]
          · rw [Nat.zero_add] at he hsmall
            exact .inr ⟨_, he, hinv.rollback ht hm hw (by simpa using hframe) hkept
              fun q hq => hsmall q (Nat.zero_le _) hq⟩
        · exact .inr ⟨s, rfl, h.notMapped_refl⟩

end Zuzu.L1.PageTable
