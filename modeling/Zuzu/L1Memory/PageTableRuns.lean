import Zuzu.Core.LTS
import Zuzu.L1Memory.PageTableMap

/-!
# Address spaces over whole runs

Address spaces are created, mapped, unmapped and destroyed in any order, and the
rest of the kernel uses memory that holds no tables. `Step.spec` is the step
lemma: how the tables, the pool and the mappings of every space change.

**Results.**
* `pageTables_refine`: seen through `ArchMmuTranslate`, the tables of a space are
  a partial map from pages to frames and attributes. A successful map replaces
  the range and nothing else, an unmap of that range removes it and nothing else,
  and a map that fails over an unmapped range changes nothing.
* `l2Tables_sound`: if no section is mapped over an L1 entry that points to a
  table, then every table in use is pointed to by exactly one L1 entry of exactly
  one live space, and a frame of the pool goes back to the PMM exactly when its
  four tables are free.
* `section_over_table`: mapping a section over an emptied table loses the table.
-/
namespace Zuzu.L1.PageTable
open Function Zuzu.Core
open Function (update)

variable {s s' : Mmu} {as bs : Space} {t u i j k n va pa size : Nat} {E : Set Nat} {env : Env}
  {prot : MemProt} {memtype : VirtMemType}

variable {root : Nat} {type : AddressSpaceType}

/-! ## Pages of the pool -/

/-- A frame is a page of the pool exactly when one of its four tables is in use. -/
theorem PoolOk.page_iff {pool : List L2PtPoolEntry} (h : PoolOk pool) {p : Nat}
    (hp : p % pageSize = 0) :
    p ∈ pool.map (·.pagePa) ↔ ∃ k < 4, UsedIn pool (p + k * l2TableSize) := by
  constructor
  · intro hm
    obtain ⟨e, he, rfl⟩ := List.mem_map.mp hm
    have hok := h.entry e he
    have : ∃ k, e.usedMask.getLsbD k = true := by
      by_contra hc
      refine hok.used (BitVec.eq_of_getLsbD_eq fun k _ => ?_)
      simpa using fun hk => hc ⟨k, hk⟩
    obtain ⟨k, hk⟩ := this
    exact ⟨k, hok.slots k hk, e, he, k, hk, rfl⟩
  · rintro ⟨k, hk, hU⟩
    obtain ⟨e, he, -, -, -, -, -, hdown⟩ := h.table hU
    have : alignDown (p + k * l2TableSize) pageSize = p := by
      unfold alignDown l2TableSize pageSize at *
      omega
    exact List.mem_map.mpr ⟨e, he, hdown.symm.trans this⟩

theorem PoolOk.page_aligned {pool : List L2PtPoolEntry} (h : PoolOk pool) {p : Nat}
    (hp : p ∈ pool.map (·.pagePa)) : p % pageSize = 0 := by
  obtain ⟨e, he, rfl⟩ := List.mem_map.mp hp
  exact (h.entry e he).aligned

/-! ## Tearing down -/

/-- A space that is no longer live leaves its tables behind. -/
theorem Inv.drop (h : Inv E s) :
    Inv (E ∪ {T | ∃ i, Points s t i T}) { s with spaces := update s.spaces t none } := by
  have hsp : ∀ {u bs}, update s.spaces t none u = some bs → u ≠ t ∧ s.spaces u = some bs := by
    intro u bs hu
    by_cases hut : u = t
    · subst hut
      simp at hu
    · exact ⟨hut, by rwa [update_of_ne hut] at hu⟩
  have hpt : ∀ {u k T}, Points { s with spaces := update s.spaces t none } u k T ↔
      u ≠ t ∧ Points s u k T := by
    intro u k T
    constructor
    · rintro ⟨bs, hu, hk, hL, hT⟩
      obtain ⟨hut, hu⟩ := hsp hu
      exact ⟨hut, bs, hu, hk, hL, hT⟩
    · rintro ⟨hut, bs, hu, hk, hL, hT⟩
      exact ⟨bs, (update_of_ne hut _ _).trans hu, hk, hL, hT⟩
  refine ⟨⟨h.pool, h.pageTaken, fun u bs hu => h.root u bs (hsp hu).2,
    fun u bs f hu => h.rootTaken u bs f (hsp hu).2,
    fun u v bs cs hu hv => h.apart u v bs cs (hsp hu).2 (hsp hv).2,
    fun u bs hu => h.poolApart u bs (hsp hu).2⟩, fun u k T hP => ?_,
    fun u k v l T hP hQ => h.inj u k v l T (hpt.mp hP).2 (hpt.mp hQ).2, fun T hT => ?_,
    fun T hT => ?_⟩
  · obtain ⟨hut, hP⟩ := hpt.mp hP
    obtain ⟨hU, hE⟩ := h.points u k T hP
    refine ⟨hU, fun hT => hT.elim hE ?_⟩
    rintro ⟨i, hQ⟩
    exact hut (h.inj u k t i T hP hQ).1
  · rcases h.owned T hT with hE | ⟨u, k, hP⟩
    · exact .inl (.inl hE)
    · by_cases hut : u = t
      · exact .inl (.inr ⟨k, hut ▸ hP⟩)
      · exact .inr ⟨u, k, hpt.mpr ⟨hut, hP⟩⟩
  · rcases hT with hE | ⟨i, hP⟩
    · exact h.orphan T hE
    · exact (h.points t i T hP).1

/-- The tables that the entries from `n` on of an L1 table point to. -/
def tablesFrom (mem : Nat → Word) (as : Space) (n : Nat) : Set Nat :=
  {T | ∃ i, n ≤ i ∧ i < l1EntryCount as.type ∧ descType (mem (as.l1Addr i)) = descL2 ∧
    l2Base (mem (as.l1Addr i)) = T}

/-- No two entries of the L1 table point to the same table, and none into `E`. -/
def Distinct (mem : Nat → Word) (as : Space) (E : Set Nat) : Prop :=
  ∀ i < l1EntryCount as.type, descType (mem (as.l1Addr i)) = descL2 →
    l2Base (mem (as.l1Addr i)) ∉ E ∧
    ∀ j < l1EntryCount as.type, descType (mem (as.l1Addr j)) = descL2 →
      l2Base (mem (as.l1Addr j)) = l2Base (mem (as.l1Addr i)) → j = i

theorem Inv.freeL2Tables (h : Inv (E ∪ tablesFrom s.mem as 0) s) (hd : Distinct s.mem as E) :
    ∀ {n}, n ≤ l1EntryCount as.type →
      Inv (E ∪ tablesFrom s.mem as n) (freeL2Tables as s n) ∧
      (freeL2Tables as s n).mem = s.mem ∧ (freeL2Tables as s n).spaces = s.spaces ∧
      Shrunk s (freeL2Tables as s n) ∧
      ∀ X, UsedIn (freeL2Tables as s n).pool X → UsedIn s.pool X := by
  intro n
  induction n with
  | zero => exact fun _ => ⟨h, rfl, rfl, .refl _, fun _ => id⟩
  | succ n ih =>
    intro hn
    obtain ⟨hinv, hmem, hs, hshr, hused⟩ := ih (by omega)
    simp only [PageTable.freeL2Tables, hmem]
    split
    · rename_i hL
      obtain ⟨hE, hinj⟩ := hd n (by omega) hL
      have hT : l2Base (s.mem (as.l1Addr n)) ∈ E ∪ tablesFrom s.mem as n :=
        .inr ⟨n, le_rfl, by omega, hL, rfl⟩
      obtain ⟨hinv', hmem', hs', hused', -⟩ := hinv.free hT
      have hset : (E ∪ tablesFrom s.mem as n) \ {l2Base (s.mem (as.l1Addr n))} =
          E ∪ tablesFrom s.mem as (n + 1) := by
        ext T
        constructor
        · rintro ⟨hT | ⟨i, h1, h2, h3, h4⟩, hne⟩
          · exact .inl hT
          · have : i ≠ n := by
              rintro rfl
              exact hne h4.symm
            exact .inr ⟨i, by omega, h2, h3, h4⟩
        · rintro (hT | ⟨i, h1, h2, h3, h4⟩)
          · exact ⟨.inl hT, fun e => hE (e ▸ hT)⟩
          · refine ⟨.inr ⟨i, by omega, h2, h3, h4⟩, fun e => ?_⟩
            have := hinj i h2 h3 (h4.trans e)
            omega
      rw [hset] at hinv'
      exact ⟨hinv', hmem'.trans hmem, hs'.trans hs, hshr.trans (hinv.free_shrunk hT),
        fun X hX => hused X ((hused' X).mp hX).1⟩
    · rename_i hL
      have hset : tablesFrom s.mem as (n + 1) = tablesFrom s.mem as n := by
        ext T
        constructor
        · rintro ⟨i, h1, h2⟩
          exact ⟨i, by omega, h2⟩
        · rintro ⟨i, h1, h2, h3, h4⟩
          have : i ≠ n := by
            rintro rfl
            exact hL h3
          exact ⟨i, by omega, h2, h3, h4⟩
      rw [hset]
      exact ⟨hinv, hmem, hs, hshr, hused⟩

/-- The frames of an L1 table that no live space uses change hands. -/
theorem Inv.setRootFrames (h : Inv E s) (type : AddressSpaceType) (b : Bool)
    (hroot : root % pageSize = 0)
    (hsp : ∀ u bs, s.spaces u = some bs → root + l1TableBytes type ≤ bs.ptRoot ∨
      bs.ptRoot + l1TableBytes bs.type ≤ root)
    (hpool : ∀ p ∈ s.pool.map (·.pagePa), p + pageSize ≤ root ∨ root + l1TableBytes type ≤ p) :
    Inv E (setRootFrames s type root b) := by
  refine ⟨⟨h.pool, fun p hp => ?_, h.root, fun u bs f hu h1 h2 h3 => ?_, h.apart, h.poolApart⟩,
    h.points, h.inj, h.owned, h.orphan⟩
  · refine (if_neg ?_).trans (h.pageTaken p hp)
    have := hpool p hp
    unfold pageSize at *
    omega
  · refine (if_neg ?_).trans (h.rootTaken u bs f hu h1 h2 h3)
    have := hsp u bs hu
    omega

/-- Freeing the tables of a space that is no longer live. -/
theorem Inv.freeTables (as : Space) (h : Inv (E ∪ tablesFrom s.mem as 0) s) (hd : Distinct s.mem as E)
    (h0 : as.ptRoot ≠ 0) (hroot : as.ptRoot % pageSize = 0)
    (hsp : ∀ u bs, s.spaces u = some bs →
      as.ptRoot + l1TableBytes as.type ≤ bs.ptRoot ∨ bs.ptRoot + l1TableBytes bs.type ≤ as.ptRoot)
    (hpool : ∀ p ∈ s.pool.map (·.pagePa),
      p + pageSize ≤ as.ptRoot ∨ as.ptRoot + l1TableBytes as.type ≤ p) :
    Inv E (archMmuFreeTables s as) ∧ (archMmuFreeTables s as).mem = s.mem ∧
      (archMmuFreeTables s as).spaces = s.spaces ∧ Shrunk s (archMmuFreeTables s as) := by
  obtain ⟨hinv, hmem, hs, hshr, hused⟩ := h.freeL2Tables hd le_rfl
  have hnone : tablesFrom s.mem as (l1EntryCount as.type) = ∅ := by
    ext T
    simp only [tablesFrom, Set.mem_ofPred_eq, Set.mem_empty_iff_false, iff_false]
    rintro ⟨i, h1, h2, -⟩
    omega
  rw [hnone, Set.union_empty] at hinv
  have hsub : ∀ p ∈ (PageTable.freeL2Tables as s (l1EntryCount as.type)).pool.map (·.pagePa),
      p ∈ s.pool.map (·.pagePa) := by
    intro p hp
    have hal := hinv.pool.page_aligned hp
    obtain ⟨k, hk, hU⟩ := (hinv.pool.page_iff hal).mp hp
    exact (h.pool.page_iff hal).mpr ⟨k, hk, hused _ hU⟩
  unfold archMmuFreeTables
  rw [if_neg h0]
  refine ⟨hinv.setRootFrames _ false hroot (fun u bs hu => hsp u bs (hs ▸ hu))
    fun p hp => hpool p (hsub p hp), hmem, hs, ?_, fun p hp hp' => ?_⟩
  · intro f hf
    simp only [PageTable.setRootFrames] at hf
    split at hf
    · cases hf
    · exact hshr.frames f hf
  · simp only [PageTable.setRootFrames]
    split
    · rfl
    · exact hshr.returned p hp hp'

/-- The tables of a live space, from its L1 entries. -/
theorem points_tablesFrom (ht : s.spaces t = some as) :
    {T | ∃ i, Points s t i T} = tablesFrom s.mem as 0 := by
  ext T
  constructor
  · rintro ⟨i, bs, hs, hi, hL, hT⟩
    cases ht.symm.trans hs
    exact ⟨i, Nat.zero_le _, hi, hL, hT⟩
  · rintro ⟨i, -, hi, hL, hT⟩
    exact ⟨i, as, ht, hi, hL, hT⟩

theorem Inv.distinct (h : Inv E s) (ht : s.spaces t = some as) : Distinct s.mem as E := by
  intro i hi hL
  have hP : Points s t i (l2Base (s.mem (as.l1Addr i))) := ⟨as, ht, hi, hL, rfl⟩
  refine ⟨(h.points _ _ _ hP).2, fun j hj hL' e => ?_⟩
  exact (h.inj t j t i _ ⟨as, ht, hj, hL', e⟩ hP).2

/-- The teardown does not look at the live spaces. -/
def Mmu.withSpaces (s : Mmu) (sp : Nat → Option Space) : Mmu := { s with spaces := sp }

theorem withSpaces_mem (sp : Nat → Option Space) : (s.withSpaces sp).mem = s.mem := rfl

theorem l2PtPoolFree_eq {T : Nat} (s : Mmu) (h0 : T ≠ 0) :
    l2PtPoolFree T s =
      { s with
        pool := (poolPut (alignDown T pageSize) (T % pageSize / l2TableSize) s.pool).1
        frames := if (poolPut (alignDown T pageSize) (T % pageSize / l2TableSize) s.pool).2
          then update s.frames (alignDown T pageSize) false else s.frames } := by
  unfold l2PtPoolFree
  rw [if_neg h0]
  dsimp only
  split <;> rfl

theorem l2PtPoolFree_withSpaces (T : Nat) (sp : Nat → Option Space) :
    l2PtPoolFree T (s.withSpaces sp) = (l2PtPoolFree T s).withSpaces sp := by
  by_cases h0 : T = 0
  · simp [l2PtPoolFree, h0]
  · rw [l2PtPoolFree_eq _ h0, l2PtPoolFree_eq _ h0]
    rfl

theorem freeL2Tables_withSpaces (sp : Nat → Option Space) (n : Nat) :
    freeL2Tables as (s.withSpaces sp) n = (freeL2Tables as s n).withSpaces sp := by
  induction n with
  | zero => rfl
  | succ n ih =>
    simp only [freeL2Tables, ih, l2PtPoolFree_withSpaces, withSpaces_mem]
    by_cases hL : descType ((freeL2Tables as s n).mem (as.l1Addr n)) = descL2
    · rw [if_pos hL, if_pos hL]
    · rw [if_neg hL, if_neg hL]

theorem archMmuFreeTables_withSpaces (sp : Nat → Option Space) :
    archMmuFreeTables (s.withSpaces sp) as = (archMmuFreeTables s as).withSpaces sp := by
  unfold archMmuFreeTables
  split
  · rfl
  · rw [freeL2Tables_withSpaces]
    rfl

/-- The unmaps that precede the teardown. -/
theorem Inv.unmapRegions (h : Inv E s) (ht : s.spaces t = some as) :
    ∀ {regions : List (Nat × Nat)}, (∀ r ∈ regions, InSpace as r.1 r.2) →
      let s' := regions.foldl (fun s r => (archMmuUnmap s as r.1 r.2).1) s
      Inv E s' ∧ s'.spaces = s.spaces ∧ Shrunk s s' ∧ Frame s s' fun u _ _ => u = t := by
  intro regions
  induction regions generalizing s with
  | nil => exact fun _ => ⟨h, rfl, .refl _, Frame.refl _ _⟩
  | cons r regions ih =>
    intro hin
    obtain ⟨hinv, hframe, hs, hshr, -⟩ := h.unmap ht (hin r (by simp))
    obtain ⟨hinv', hs', hshr', hframe'⟩ := ih hinv (hs ▸ ht) fun x hx => hin x (by simp [hx])
    refine ⟨hinv', hs'.trans hs, hshr.trans hshr', (hframe.trans hframe').mono ?_⟩
    rintro u k j - (hX | hX)
    · exact hX.1
    · exact hX

/-- Destroying a space frees its tables and leaves the other spaces alone. -/
theorem Inv.destroy (h : Inv E s) (ht : s.spaces t = some as) {regions : List (Nat × Nat)}
    (hin : ∀ r ∈ regions, InSpace as r.1 r.2) :
    Inv E (addressSpaceDestroy s t as regions) ∧
      Frame s (addressSpaceDestroy s t as regions) (fun u _ _ => u = t) ∧
      Shrunk s (addressSpaceDestroy s t as regions) := by
  obtain ⟨hinv, hs, hshr, hframe⟩ := h.unmapRegions ht hin
  unfold addressSpaceDestroy
  generalize regions.foldl (fun s r => (archMmuUnmap s as r.1 r.2).1) s = s₁ at hinv hs hshr hframe
  have ht₁ : s₁.spaces t = some as := hs ▸ ht
  have hdrop := hinv.drop (t := t)
  rw [points_tablesFrom ht₁] at hdrop
  have hsp : ∀ u bs, update s₁.spaces t none u = some bs → u ≠ t ∧ s₁.spaces u = some bs := by
    intro u bs hu
    by_cases hut : u = t
    · subst hut
      simp at hu
    · exact ⟨hut, by rwa [update_of_ne hut] at hu⟩
  obtain ⟨hr0, hr1, -⟩ := hinv.root t as ht₁
  obtain ⟨hinv₂, hmem₂, hs₂, hshr₂⟩ := Inv.freeTables
    (s := s₁.withSpaces (update s₁.spaces t none)) as hdrop (hinv.distinct ht₁) (Nat.ne_of_gt hr0) hr1
    (fun u bs hu => hinv.apart t u as bs ht₁ (hsp u bs hu).2 (hsp u bs hu).1.symm)
    (hinv.poolApart t as ht₁)
  have heq : { archMmuFreeTables s₁ as with spaces := update s₁.spaces t none } =
      archMmuFreeTables (s₁.withSpaces (update s₁.spaces t none)) as :=
    (archMmuFreeTables_withSpaces _).symm
  simp only [heq]
  refine ⟨hinv₂, ?_, hshr.trans ⟨hshr₂.frames, hshr₂.returned⟩⟩
  refine (hframe.trans (Y := fun u _ _ => u = t) ?_).mono fun u k j _ hX => hX.elim id id
  intro u bs k j hu _ _ hX
  have hl : (archMmuFreeTables (s₁.withSpaces (update s₁.spaces t none)) as).spaces u = some bs := by
    rw [hs₂]
    exact (update_of_ne hX _ _).trans hu
  refine ⟨hl, ?_, fun hL => ?_⟩
  · rw [row, row, l1At, hmem₂]
    rfl
  · rw [l1At, hmem₂]
    exact hL

/-! ## Setting up -/

theorem l1TablePages_spec (type : AddressSpaceType) :
    l1TablePages type * pageSize = l1TableBytes type := by
  cases type <;> decide

/-- Free frames in a row lie outside every table. -/
theorem Layout.rootFree_apart (h : Layout s)
    (hf : rootFree s type root) :
    root % pageSize = 0 ∧
    (∀ u bs, s.spaces u = some bs → root + l1TableBytes type ≤ bs.ptRoot ∨
      bs.ptRoot + l1TableBytes bs.type ≤ root) ∧
    ∀ p ∈ s.pool.map (·.pagePa), p + pageSize ≤ root ∨ root + l1TableBytes type ≤ p := by
  obtain ⟨h0, hal, -, hfree⟩ := hf
  have hpages := l1TablePages_spec type
  have hroot : root % pageSize = 0 := by
    have := l1TableBytes_mod type
    exact Nat.mod_eq_zero_of_dvd
      (Nat.dvd_trans (Nat.dvd_of_mod_eq_zero this) (Nat.dvd_of_mod_eq_zero hal))
  -- a frame of the row that is taken would contradict `hfree`
  have htaken : ∀ f, f % pageSize = 0 → s.frames f = true →
      f < root ∨ root + l1TableBytes type ≤ f := by
    intro f hf1 hf2
    by_contra hc
    have hk : (f - root) / pageSize < l1TablePages type := by
      unfold pageSize at *
      omega
    have := hfree _ hk
    have e : root + (f - root) / pageSize * pageSize = f := by
      unfold pageSize at *
      omega
    rw [e, hf2] at this
    cases this
  refine ⟨hroot, fun u bs hu => ?_, fun p hp => ?_⟩
  · have h1 := h.root u bs hu
    have hb : 0 < l1TableBytes bs.type := by cases bs.type <;> decide
    have hb' : 0 < l1TableBytes type := by cases type <;> decide
    -- the first common frame of two rows that meet is the first of one of them
    have h3 := htaken bs.ptRoot h1.2.1 (h.rootTaken u bs _ hu le_rfl (by omega) h1.2.1)
    by_contra hc
    have h4 := h.rootTaken u bs root hu (by omega) (by omega) hroot
    have h5 := htaken root hroot h4
    omega
  · have := htaken p (h.pool.page_aligned hp) (h.pageTaken p hp)
    have hal := h.pool.page_aligned hp
    unfold pageSize at *
    omega

/-- A new L1 table: allocated, zeroed, not yet part of a space. -/
def Mmu.newRoot (s : Mmu) (type : AddressSpaceType) (root : Nat) : Mmu :=
  { setRootFrames s type root true with mem := fill s.mem root (l1TableBytes type) fun _ => 0 }

/-- Words outside the new table are as they were. -/
theorem newRoot_mem {a : Nat}
    (h : a < root ∨ root + l1TableBytes type ≤ a) : (s.newRoot type root).mem a = s.mem a :=
  if_neg (by omega)

theorem newRoot_l1At_self (hi : i < l1EntryCount type) :
    l1At (s.newRoot type root) ⟨root, type⟩ i = 0 := by
  have : 4 * i < l1TableBytes type := by
    rw [l1TableBytes_eq]
    omega
  exact (fill_word this : fill s.mem _ (l1TableBytes type) (fun _ => (0 : Word)) _ = 0)

theorem Layout.newRoot_l1At (h : Layout s)
    (hf : rootFree s type root) (hu : s.spaces u = some bs) (hk : k < l1EntryCount bs.type) :
    l1At (s.newRoot type root) bs k = l1At s bs k := by
  have := (h.rootFree_apart hf).2.1 u bs hu
  rw [l1TableBytes_eq bs.type] at this
  refine newRoot_mem ?_
  unfold Space.l1Addr
  omega

theorem Inv.newRoot (h : Inv E s)
    (hf : rootFree s type root) :
    Inv E (s.newRoot type root) ∧ Frame s (s.newRoot type root) noPage := by
  obtain ⟨hroot, hsp, hpool⟩ := h.rootFree_apart hf
  have hset := h.setRootFrames type true hroot hsp hpool
  have hl1 : ∀ u bs k, s.spaces u = some bs → k < l1EntryCount bs.type →
      l1At (s.newRoot type root) bs k = l1At s bs k := fun u bs k hu hk => h.newRoot_l1At hf hu hk
  refine ⟨hset.of_l1 rfl rfl rfl hl1, Frame.of_words rfl (fun u bs k j hu hk _ _ => hl1 u bs k hu hk)
    fun u k j T hP hj _ => newRoot_mem ?_⟩
  obtain ⟨e, he, h1, h2, -⟩ := h.pool.table (h.points u k T hP).1
  have := hpool e.pagePa (List.mem_map_of_mem he)
  unfold l2TableSize pageSize at *
  omega

/-- The new table becomes that of a space: it points nowhere. -/
theorem Inv.newSpace (h : Inv E s)
    (hf : rootFree s type root) (ht : s.spaces t = none) :
    Inv E ((s.newRoot type root).withSpaces (update s.spaces t (some ⟨root, type⟩))) := by
  obtain ⟨hroot, hsp, hpool⟩ := h.rootFree_apart hf
  have hinv := (h.newRoot hf).1
  obtain ⟨hpos, -, hlt, -⟩ := hf
  have hcase : ∀ {u bs}, update s.spaces t (some ⟨root, type⟩) u = some bs →
      u = t ∧ bs = ⟨root, type⟩ ∨ u ≠ t ∧ s.spaces u = some bs := by
    intro u bs hu
    by_cases hut : u = t
    · subst hut
      rw [update_self] at hu
      exact .inl ⟨rfl, (Option.some.inj hu).symm⟩
    · exact .inr ⟨hut, by rwa [update_of_ne hut] at hu⟩
  have hpt : ∀ {u k T}, Points ((s.newRoot type root).withSpaces
      (update s.spaces t (some ⟨root, type⟩))) u k T ↔ Points (s.newRoot type root) u k T := by
    intro u k T
    constructor
    · rintro ⟨bs, hu, hk, hL, hT⟩
      rcases hcase hu with ⟨rfl, rfl⟩ | ⟨-, hu⟩
      · have h0 : l1At (s.newRoot type root) ⟨root, type⟩ k = 0 := newRoot_l1At_self hk
        have hL' : descType (l1At (s.newRoot type root) ⟨root, type⟩ k) = descL2 := hL
        rw [h0] at hL'
        exact absurd hL' (by decide)
      · exact ⟨bs, hu, hk, hL, hT⟩
    · rintro ⟨bs, hu, hk, hL, hT⟩
      have hut : u ≠ t := by
        rintro rfl
        rw [show (s.newRoot type root).spaces u = s.spaces u from rfl, ht] at hu
        cases hu
      exact ⟨bs, (update_of_ne hut _ _).trans hu, hk, hL, hT⟩
  refine hinv.of_points ⟨hinv.pool, hinv.pageTaken, fun u bs hu => ?_,
    fun u bs f hu h1 h2 h3 => ?_, fun u v bs cs hu hv hne => ?_, fun u bs hu => ?_⟩ rfl hpt
  · rcases hcase hu with ⟨rfl, rfl⟩ | ⟨-, hu⟩
    · exact ⟨hpos, hroot, hlt⟩
    · exact hinv.root u bs hu
  · rcases hcase hu with ⟨rfl, rfl⟩ | ⟨-, hu⟩
    · exact if_pos ⟨h1, h2, h3⟩
    · exact hinv.rootTaken u bs f hu h1 h2 h3
  · rcases hcase hu with ⟨hut, hb⟩ | ⟨-, hu'⟩ <;> rcases hcase hv with ⟨hvt, hc⟩ | ⟨-, hv'⟩
    · exact absurd (hut.trans hvt.symm) hne
    · exact hb ▸ hsp v cs hv'
    · exact hc ▸ (hsp u bs hu').symm
    · exact h.apart u v bs cs hu' hv' hne
  · rcases hcase hu with ⟨rfl, rfl⟩ | ⟨-, hu⟩
    · exact hpool
    · exact h.poolApart u bs hu

/-- The frames an operation takes out of the pool go back to the PMM. -/
def Returned (s s' : Mmu) : Prop :=
  ∀ p ∈ s.pool.map (·.pagePa), p ∉ s'.pool.map (·.pagePa) → s'.frames p = false

/-- Creating a space leaves the others alone, whether or not it succeeds. -/
theorem Inv.create (h : Inv E s) (ht : s.spaces t = none) (type : AddressSpaceType) (root : Nat)
    (vec : Bool) :
    Inv E (addressSpaceCreate s t type root vec) ∧
      Frame s (addressSpaceCreate s t type root vec) noPage ∧
      Returned s (addressSpaceCreate s t type root vec) := by
  by_cases hf : rootFree s type root
  · obtain ⟨hinv, hframe⟩ := h.newRoot hf
    have hpos : root ≠ 0 := Nat.ne_of_gt hf.1
    have hcreate : archMmuCreateTables s type root = (s.newRoot type root, root) := if_pos hf
    simp only [addressSpaceCreate, hcreate, hpos, if_false]
    cases vec with
    | false =>
      simp only [if_true]
      obtain ⟨hroot, hsp, hpool⟩ := h.rootFree_apart hf
      have hzero : ∀ i < l1EntryCount type,
          descType ((s.newRoot type root).mem ((⟨root, type⟩ : Space).l1Addr i)) ≠ descL2 := by
        intro i hi
        rw [show (s.newRoot type root).mem _ = 0 from newRoot_l1At_self hi]
        decide
      have hnone : tablesFrom (s.newRoot type root).mem ⟨root, type⟩ 0 = ∅ := by
        ext T
        simp only [tablesFrom, Set.mem_ofPred_eq, Set.mem_empty_iff_false, iff_false]
        rintro ⟨i, -, hi, hL, -⟩
        exact hzero i hi hL
      obtain ⟨hinv', hmem', hs', hshr'⟩ := Inv.freeTables ⟨root, type⟩
        (by rwa [hnone, Set.union_empty]) (fun i hi hL => absurd hL (hzero i hi)) hpos hroot hsp
        hpool
      refine ⟨hinv', (hframe.trans (Y := noPage) ?_).mono fun u k j _ hX => hX.elim id id,
        hshr'.returned⟩
      exact Frame.of_words hs' (fun u bs k j hu hk _ _ => by rw [l1At, hmem']; rfl)
        fun u k j T _ _ _ => by rw [hmem']
    | true =>
      refine ⟨h.newSpace hf ht, fun u bs k j hu hk hj hX =>
        ⟨?_, (hframe u bs k j hu hk hj hX).2⟩, fun p hp hp' => absurd hp hp'⟩
      have hut : u ≠ t := by
        rintro rfl
        rw [ht] at hu
        cases hu
      exact (update_of_ne hut _ _).trans hu
  · have hcreate : archMmuCreateTables s type root = (s, 0) := if_neg hf
    simp only [addressSpaceCreate, hcreate, if_true]
    exact ⟨h, Frame.refl _ _, fun p hp hp' => absurd hp hp'⟩

/-! ## The system -/

inductive Op
  /-- Space `t` is created; its L1 table is at `root` if that can be had. -/
  | create (t : Nat) (type : AddressSpaceType) (root : Nat) (vec : Bool)
  | destroy (t : Nat) (regions : List (Nat × Nat))
  | map (t va pa size : Nat) (prot : MemProt) (memtype : VirtMemType) (env : Env)
  | unmap (t va size : Nat)
  | unmapPage (t va : Nat)
  /-- The rest of the kernel takes and gives frames and writes to memory. -/
  | other (frames : Nat → Bool) (mem : Nat → Word)

/-- Address `a` lies in a table. -/
def InTable (s : Mmu) (a : Nat) : Prop :=
  (∃ t as, s.spaces t = some as ∧ as.ptRoot ≤ a ∧ a < as.ptRoot + l1TableBytes as.type) ∨
    ∃ p ∈ s.pool.map (·.pagePa), p ≤ a ∧ a < p + pageSize

/-- One operation. Ranges that are mapped do not wrap, as `VmmMapRange` checks
(kernel/mm/vmm/vmm_map.c:24); those that are unmapped belong to the space. The rest of the kernel
keeps its hands off the tables. -/
inductive Step : Mmu → Op → Mmu → Prop
  | create {s : Mmu} {t : Nat} {type : AddressSpaceType} {root : Nat} {vec : Bool}
      (ht : s.spaces t = none) :
      Step s (.create t type root vec) (addressSpaceCreate s t type root vec)
  | destroy {s : Mmu} {t : Nat} {as : Space} {regions : List (Nat × Nat)}
      (ht : s.spaces t = some as) (hin : ∀ r ∈ regions, InSpace as r.1 r.2) :
      Step s (.destroy t regions) (addressSpaceDestroy s t as regions)
  | map {s : Mmu} {t va pa size : Nat} {as : Space} {prot : MemProt} {memtype : VirtMemType}
      {env : Env} (ht : s.spaces t = some as) (hfit : va + size ≤ wordSize) :
      Step s (.map t va pa size prot memtype env) (archMmuMap s as va pa size prot memtype env).1
  | unmap {s : Mmu} {t va size : Nat} {as : Space} (ht : s.spaces t = some as)
      (hin : InSpace as va size) : Step s (.unmap t va size) (archMmuUnmap s as va size).1
  | unmapPage {s : Mmu} {t va : Nat} {as : Space} (ht : s.spaces t = some as)
      (hin : InSpace as va 1) : Step s (.unmapPage t va) (archMmuUnmapPage s as va).1
  | other {s : Mmu} {frames : Nat → Bool} {mem : Nat → Word}
      (hfr : ∀ a, InTable s a → frames a = s.frames a) (hmem : ∀ a, InTable s a → mem a = s.mem a) :
      Step s (.other frames mem) { s with frames, mem }

/-- The kernel's space alone, with an L1 table that maps sections only, and an empty pool. -/
def Boot (s : Mmu) : Prop :=
  s.pool = [] ∧ ∃ root, s.spaces = update (fun _ => none) 0 (some ⟨root, .kernel⟩) ∧
    0 < root ∧ root % pageSize = 0 ∧ root + l1TableBytes .kernel ≤ wordSize ∧
    (∀ f, root ≤ f → f < root + l1TableBytes .kernel → s.frames f = true) ∧
    ∀ i < l1EntryCount .kernel, descType (l1At s ⟨root, .kernel⟩ i) ≠ descL2

def system : LTS Mmu Op := ⟨Boot, Step⟩

/-- The tables an operation loses. -/
def Op.loses (s : Mmu) : Op → Set Nat
  | .map t va pa size _ _ _ => overwritten s t va pa size
  | _ => ∅

/-- The pages an operation may change. -/
def Op.touches : Op → Nat → Nat → Nat → Prop
  | .create _ _ _ _ | .other _ _ => noPage
  | .destroy t _ => fun u _ _ => u = t
  | .map t va _ size _ _ _ | .unmap t va size => pageRange t (va / pageSize) (size / pageSize)
  | .unmapPage t va => pageRange t (va / pageSize) 1

theorem Boot.inv (h : Boot s) : Inv ∅ s := by
  obtain ⟨hpool, root, hsp, h0, hal, hlt, hfr, hsec⟩ := h
  have hcase : ∀ {u bs}, s.spaces u = some bs → u = 0 ∧ bs = ⟨root, .kernel⟩ := by
    intro u bs hu
    rw [hsp] at hu
    by_cases hu0 : u = 0
    · subst hu0
      exact ⟨rfl, (Option.some.inj hu).symm⟩
    · rw [update_of_ne hu0] at hu
      cases hu
  have hused : ∀ {T}, ¬UsedIn s.pool T := by
    rintro T ⟨e, he, -⟩
    rw [hpool] at he
    cases he
  have hpt : ∀ {u k T}, ¬Points s u k T := by
    rintro u k T ⟨bs, hu, hk, hL, -⟩
    obtain ⟨rfl, rfl⟩ := hcase hu
    exact hsec k hk hL
  refine ⟨⟨⟨fun e he => ?_, ?_⟩, fun p hp => ?_, fun u bs hu => ?_, fun u bs f hu h1 h2 _ => ?_,
    fun u v bs cs hu hv hne => ?_, fun u bs hu p hp => ?_⟩, fun u k T hP => absurd hP hpt,
    fun u k v l T hP => absurd hP hpt, fun T hT => absurd hT hused, fun T hT => hT.elim⟩
  · rw [hpool] at he
    cases he
  · rw [hpool]
    exact List.nodup_nil
  · rw [hpool] at hp
    cases hp
  · obtain ⟨-, rfl⟩ := hcase hu
    exact ⟨h0, hal, hlt⟩
  · obtain ⟨-, rfl⟩ := hcase hu
    exact hfr f h1 h2
  · exact absurd ((hcase hu).1.trans (hcase hv).1.symm) hne
  · rw [hpool] at hp
    cases hp

theorem InSpace.l1Idx_lt (h : InSpace as va 1) :
    l1Idx va < l1EntryCount as.type ∧ va < wordSize := by
  have hc : l1EntryCount as.type ≤ 4096 := by
    cases as.type <;> decide
  unfold InSpace l1Idx sectionSize wordSize at *
  omega

/-- The rest of the kernel does not touch the tables. -/
theorem Inv.other (h : Inv E s) {frames : Nat → Bool} {mem : Nat → Word}
    (hfr : ∀ a, InTable s a → frames a = s.frames a)
    (hmem : ∀ a, InTable s a → mem a = s.mem a) :
    Inv E { s with frames, mem } ∧ Frame s { s with frames, mem } noPage := by
  have hpage : ∀ p ∈ s.pool.map (·.pagePa), frames p = true := fun p hp =>
    (hfr p (.inr ⟨p, hp, le_rfl, Nat.lt_add_of_pos_right (by decide)⟩)).trans (h.pageTaken p hp)
  have hl1 : ∀ u bs k, s.spaces u = some bs → k < l1EntryCount bs.type →
      l1At { s with frames, mem } bs k = l1At s bs k := by
    intro u bs k hu hk
    refine hmem _ (.inl ⟨u, bs, hu, ?_, ?_⟩)
    · exact Nat.le_add_right _ _
    · rw [l1TableBytes_eq]
      unfold Space.l1Addr
      omega
  have hframes : Inv E { s with frames } :=
    ⟨⟨h.pool, hpage, h.root, fun u bs f hu h1 h2 h3 =>
      (hfr f (.inl ⟨u, bs, hu, h1, h2⟩)).trans (h.rootTaken u bs f hu h1 h2 h3), h.apart,
      h.poolApart⟩, h.points, h.inj, h.owned, h.orphan⟩
  refine ⟨hframes.of_l1 rfl rfl rfl hl1,
    Frame.of_words rfl (fun u bs k j hu hk _ _ => hl1 u bs k hu hk) fun u k j T hP hj _ => ?_⟩
  obtain ⟨e, he, h1, h2, -⟩ := h.pool.table (h.points u k T hP).1
  refine hmem _ (.inr ⟨e.pagePa, List.mem_map_of_mem he, by omega, ?_⟩)
  unfold l2TableSize at h2
  omega

/-- **Step lemma.** What every operation does to the tables, to the mappings and to the pool. -/
theorem Step.spec {op : Op} (h : Inv E s) (hs : Step s op s') :
    (∃ E', E' ⊆ E ∪ op.loses s ∧ Inv E' s') ∧ Frame s s' op.touches ∧ Returned s s' := by
  cases hs with
  | create ht =>
    obtain ⟨hinv, hframe, hret⟩ := h.create ht _ _ _
    exact ⟨⟨E, Set.subset_union_left, hinv⟩, hframe, hret⟩
  | destroy ht hin =>
    obtain ⟨hinv, hframe, hshr⟩ := h.destroy ht hin
    exact ⟨⟨E, Set.subset_union_left, hinv⟩, hframe, hshr.returned⟩
  | map ht hfit =>
    rcases h.map ht hfit _ _ _ _ with ⟨s', he, hm⟩ | ⟨s', he, hm⟩
    · rw [he]
      exact ⟨⟨_, subset_rfl, hm.inv⟩, hm.frame, fun p hp hp' => absurd (hm.kept.pages p hp) hp'⟩
    · rw [he]
      exact ⟨⟨E, Set.subset_union_left, hm.inv⟩, hm.frame,
        fun p hp hp' => absurd (hm.kept.pages p hp) hp'⟩
  | unmap ht hin =>
    obtain ⟨hinv, hframe, -, hshr, -⟩ := h.unmap ht hin
    exact ⟨⟨E, Set.subset_union_left, hinv⟩, hframe, hshr.returned⟩
  | unmapPage ht hin =>
    obtain ⟨hidx, hlt⟩ := hin.l1Idx_lt
    obtain ⟨hinv, hframe, -, hpool, -⟩ := h.unmapPage ht hidx
    exact ⟨⟨E, Set.subset_union_left, hinv⟩, hframe.onePage (idx_of_page rfl hlt),
      fun p hp hp' => absurd (hpool ▸ hp) hp'⟩
  | other hfr hmem =>
    obtain ⟨hinv, hframe⟩ := h.other hfr hmem
    exact ⟨⟨E, Set.subset_union_left, hinv⟩, hframe, fun p hp hp' => absurd hp hp'⟩

theorem system_inv : system.Inductive fun s => ∃ E, Inv E s where
  init h := ⟨∅, Boot.inv h⟩
  step h hs :=
    let ⟨_, h⟩ := h
    let ⟨⟨E', _, h'⟩, _⟩ := Step.spec h hs
    ⟨E', h'⟩

/-! ## Second-level tables -/

/-- No section is mapped over an L1 entry that points to a table. -/
def tableSafe (s : Mmu) : Op → Prop
  | .map t va pa size _ _ _ => va % sectionSize = 0 ∧ pa % sectionSize = 0 ∧ size % sectionSize = 0 →
    ∀ q < size / sectionSize, ∀ T, ¬Points s t (va / sectionSize + q) T
  | _ => True

/-- The runs in which no section is mapped over a pointer to a table. -/
def tableSafeSystem : LTS Mmu Op := system.restrict (fun _ => True) tableSafe

theorem tableSafe.loses {op : Op} (h : tableSafe s op) : op.loses s = ∅ := by
  cases op with
  | map t va pa size prot memtype env =>
    ext T
    simp only [Op.loses, overwritten, lostTables, Set.mem_ofPred_eq, Set.mem_empty_iff_false,
      iff_false]
    rintro ⟨hsec, q, hq, hP⟩
    exact h hsec q hq T hP
  | _ => rfl

theorem tableSafeSystem_inv : tableSafeSystem.Inductive (Inv ∅) where
  init h := Boot.inv h.1
  step h hs := by
    obtain ⟨⟨E', hsub, h'⟩, -⟩ := Step.spec h hs.1
    rw [tableSafe.loses hs.2, Set.union_empty] at hsub
    rwa [Set.subset_empty_iff.mp hsub] at h'

/-- **Tables are neither shared nor lost.** In every state of a run in which no section is mapped
over a pointer to a table: a table is in use exactly when an L1 entry of a live space points to
it, that entry is the only one, and in every next step of such a run a frame of the pool is given
back to the PMM exactly when its four tables are free. -/
theorem l2Tables_sound (h : tableSafeSystem.Reachable s) :
    (∀ T, UsedIn s.pool T ↔ ∃ t i, Points s t i T) ∧
    (∀ t i u j T, Points s t i T → Points s u j T → t = u ∧ i = j) ∧
    ∀ op s', tableSafeSystem.step s op s' → ∀ p ∈ s.pool.map (·.pagePa),
      s'.frames p = false ↔ ∀ k < 4, ¬UsedIn s'.pool (p + k * l2TableSize) := by
  have hinv := tableSafeSystem_inv.reachable h
  refine ⟨fun T => ⟨fun hT => (hinv.owned T hT).resolve_left (Set.notMem_empty T), ?_⟩, hinv.inj,
    fun op s' hs p hp => ?_⟩
  · rintro ⟨t, i, hP⟩
    exact (hinv.points t i T hP).1
  · have hinv' := tableSafeSystem_inv.step hinv hs
    obtain ⟨-, -, hret⟩ := Step.spec hinv hs.1
    have hiff := hinv'.pool.page_iff (hinv.pool.page_aligned hp)
    constructor
    · intro hf k hk hU
      have := hinv'.pageTaken p (hiff.mpr ⟨k, hk, hU⟩)
      rw [hf] at this
      cases this
    · intro hnone
      refine hret p hp fun hp' => ?_
      obtain ⟨k, hk, hU⟩ := hiff.mp hp'
      exact hnone k hk hU

/-- A machine that has just booted: the kernel's L1 table is at `0x4000`. -/
def bootMmu : Mmu where
  mem _ := 0
  pool := []
  frames f := decide (0x4000 ≤ f ∧ f < 0x8000)
  spaces := update (fun _ => none) 0 (some ⟨0x4000, .kernel⟩)

theorem boot_bootMmu : Boot bootMmu := by
  refine ⟨rfl, 0x4000, rfl, by decide, by decide, by decide, fun f h1 h2 => ?_, fun i _ => ?_⟩
  · exact decide_eq_true ⟨h1, h2⟩
  · show descType 0 ≠ descL2
    decide

/-- The page at `0x7F000000` is mapped; its table is the first of frame `0x10000`. -/
def onePage : Mmu :=
  (archMmuMap bootMmu ⟨0x4000, .kernel⟩ 0x7F000000 0x20000 0x1000 (protRead ||| protWrite) .normal
    ⟨fun _ => 0x10000, fun _ => true⟩).1

theorem onePage_step : system.step bootMmu
    (.map 0 0x7F000000 0x20000 0x1000 (protRead ||| protWrite) .normal
      ⟨fun _ => 0x10000, fun _ => true⟩) onePage :=
  .map rfl (by decide)

theorem l2Tables_sound_onePage :
    UsedIn onePage.pool 0x10000 ∧ ∃ t i, Points onePage t i 0x10000 := by
  have hboot : tableSafeSystem.Reachable bootMmu := .init ⟨boot_bootMmu, trivial⟩
  have hreach : tableSafeSystem.Reachable onePage :=
    hboot.step ⟨onePage_step, fun h => absurd h.2.1 (by decide)⟩
  have hused : UsedIn onePage.pool 0x10000 :=
    ⟨⟨0x10000, 0x1#8⟩, by decide +kernel, 0, by decide, rfl⟩
  exact ⟨hused, ((l2Tables_sound hreach).1 _).mp hused⟩

/-- The page is unmapped again and a section is mapped in its place: the emptied table stays in
use, and nothing points to it. -/
theorem section_over_table :
    ∃ s T, system.Reachable s ∧ UsedIn s.pool T ∧ ¬∃ t i, Points s t i T := by
  let s₁ := (archMmuUnmap onePage ⟨0x4000, .kernel⟩ 0x7F000000 0x1000).1
  have hreach : system.Reachable s₁ :=
    ((LTS.Reachable.init boot_bootMmu).step onePage_step).step
      (.unmap (t := 0) (by decide +kernel) (by unfold InSpace; decide))
  have hsp : s₁.spaces 0 = some ⟨0x4000, .kernel⟩ := by decide +kernel
  obtain ⟨E, hinv⟩ := system_inv.reachable hreach
  have hP : Points s₁ 0 0x7F0 0x10000 :=
    ⟨_, hsp, by decide, by decide +kernel, by decide +kernel⟩
  have hlost : 0x10000 ∈ overwritten s₁ 0 0x7F000000 0x100000 0x100000 :=
    ⟨by decide, 0, by decide, hP⟩
  rcases hinv.map hsp (show 0x7F000000 + 0x100000 ≤ wordSize by decide) 0x100000 protRead .normal
    ⟨fun _ => 0, fun _ => false⟩ with ⟨s', he, hm⟩ | ⟨s', he, -⟩
  · have hstep : system.step s₁ (.map 0 0x7F000000 0x100000 0x100000 protRead .normal
        ⟨fun _ => 0, fun _ => false⟩) s' := by
      rw [show s' = _ from (congrArg Prod.fst he).symm]
      exact .map hsp (by decide)
    refine ⟨s', 0x10000, hreach.step hstep, ?_, ?_⟩
    · exact hm.inv.orphan _ (.inr hlost)
    · rintro ⟨t, i, hP'⟩
      exact (hm.inv.points t i _ hP').2 (.inr hlost)
  · have : (archMmuMap s₁ ⟨0x4000, .kernel⟩ 0x7F000000 0x100000 0x100000 protRead .normal
        ⟨fun _ => 0, fun _ => false⟩).2 = true := by decide +kernel
    rw [he] at this
    cases this

end Zuzu.L1.PageTable
