import Zuzu.L1Memory.PageTableInv

/-!
# The small steps of the mapping code

One lemma for each thing the code does to the tables: write an L1 entry, make
one point to a table, write a table, take a table from the pool, give one back.
Each says which tables are in flight afterwards (the set of `Inv`) and which
pages may be mapped differently (the exceptions of `Frame`).
-/
namespace Zuzu.L1.PageTable
open Function
open Function (update)

variable {s s' : Mmu} {as bs : Space} {t u i j k T f : Nat} {e w : Word} {E : Set Nat}

/-- The pages of the `i`-th MiB of space `t`. -/
def pagesOf (t i : Nat) : Nat → Nat → Nat → Prop := fun u k _ => u = t ∧ k = i

/-! ## Writing L1 entries -/

theorem l1At_store_self : l1At (s.store (as.l1Addr i) w) as i = w := update_self _ _ _

theorem Layout.l1At_store (h : Layout s) (ht : s.spaces t = some as)
    (hi : i < l1EntryCount as.type) (hu : s.spaces u = some bs) (hk : k < l1EntryCount bs.type)
    (hne : ¬(u = t ∧ k = i)) : l1At (s.store (as.l1Addr i) w) bs k = l1At s bs k :=
  update_of_ne (h.l1_ne_l1 ht hu hi hk hne) _ _

/-- Who points where after L1 entry `i` of `t` has been written. -/
theorem Layout.points_store (h : Layout s) (ht : s.spaces t = some as)
    (hi : i < l1EntryCount as.type) : Points (s.store (as.l1Addr i) w) u k T ↔
      (u = t ∧ k = i) ∧ descType w = descL2 ∧ l2Base w = T ∨
      ¬(u = t ∧ k = i) ∧ Points s u k T := by
  by_cases hne : u = t ∧ k = i
  · obtain ⟨rfl, rfl⟩ := hne
    simp only [and_self, true_and, not_true_eq_false, false_and, or_false]
    constructor
    · rintro ⟨bs, hu, hk, h1, h2⟩
      rw [Option.some.inj (hu.symm.trans ht), l1At_store_self] at h1 h2
      exact ⟨h1, h2⟩
    · rintro ⟨h1, h2⟩
      exact ⟨as, ht, hi, by rwa [l1At_store_self], by rwa [l1At_store_self]⟩
  · simp only [hne, false_and, not_false_eq_true, true_and, false_or]
    constructor
    · rintro ⟨bs, hu, hk, h1, h2⟩
      rw [h.l1At_store ht hi hu hk hne] at h1 h2
      exact ⟨bs, hu, hk, h1, h2⟩
    · rintro ⟨bs, hu, hk, h1, h2⟩
      rw [← h.l1At_store (w := w) ht hi hu hk hne] at h1 h2
      exact ⟨bs, hu, hk, h1, h2⟩

section
variable (h : Inv E s) (ht : s.spaces t = some as) (hi : i < l1EntryCount as.type)
include h ht hi

/-- Writing an L1 entry concerns its own MiB only. -/
theorem Inv.frame_storeL1 : Frame s (s.store (as.l1Addr i) w) (pagesOf t i) := by
  refine Frame.of_words rfl (fun u bs k j hu hk _ hX => h.l1At_store ht hi hu hk hX)
    fun u k j T hP hj _ => update_of_ne ?_ _ _
  exact (h.l1_ne_l2 ht hi (h.points u k T hP).1 hj).symm

/-- An L1 entry that does not point to a table is written: the table the old one pointed to is
an orphan now. -/
theorem Inv.storeL1 (hw : descType w ≠ descL2) :
    Inv (E ∪ {T | Points s t i T}) (s.store (as.l1Addr i) w) := by
  have hpt : ∀ {u k T}, Points (s.store (as.l1Addr i) w) u k T ↔
      ¬(u = t ∧ k = i) ∧ Points s u k T := fun {u k T} => by
    rw [h.points_store ht hi]
    simp [hw]
  refine ⟨h.congr rfl rfl rfl, fun u k T hP => ?_, fun u k v l T hP hQ => ?_, fun T hT => ?_,
    fun T hT => ?_⟩
  · obtain ⟨hne, hP⟩ := hpt.mp hP
    obtain ⟨hU, hE⟩ := h.points u k T hP
    exact ⟨hU, fun hT => hT.elim hE fun hT => hne (h.inj u k t i T hP hT)⟩
  · exact h.inj u k v l T (hpt.mp hP).2 (hpt.mp hQ).2
  · rcases h.owned T hT with hE | ⟨u, k, hP⟩
    · exact .inl (.inl hE)
    · by_cases hne : u = t ∧ k = i
      · exact .inl (.inr (by rwa [hne.1, hne.2] at hP))
      · exact .inr ⟨u, k, hpt.mpr ⟨hne, hP⟩⟩
  · exact hT.elim (h.orphan T) fun hT => (h.points t i T hT).1

/-- The same when the old entry did not point to a table. -/
theorem Inv.storeL1_of_ne (hold : descType (l1At s as i) ≠ descL2)
    (hw : descType w ≠ descL2) : Inv E (s.store (as.l1Addr i) w) := by
  have hnone : {T | Points s t i T} = ∅ := by
    refine Set.eq_empty_of_forall_notMem ?_
    rintro T ⟨bs, hs, -, hL, -⟩
    exact hold (Option.some.inj (ht.symm.trans hs) ▸ hL)
  have := h.storeL1 (w := w) ht hi hw
  rwa [hnone, Set.union_empty] at this

/-- An orphan is linked from an L1 entry that pointed to no table. -/
theorem Inv.link (hT : T ∈ E) (hold : descType (l1At s as i) ≠ descL2) :
    Inv (E \ {T}) (s.store (as.l1Addr i) (archMmuMakeL1Pte T)) := by
  obtain ⟨-, -, -, -, hal, h0, hlt, -⟩ := h.pool.table (h.orphan T hT)
  obtain ⟨htype, hbase⟩ := archMmuMakeL1Pte_spec (Nat.ne_of_gt h0) hlt hal
  have hpt : ∀ {u k X}, Points (s.store (as.l1Addr i) (archMmuMakeL1Pte T)) u k X ↔
      (u = t ∧ k = i) ∧ X = T ∨ ¬(u = t ∧ k = i) ∧ Points s u k X := fun {u k X} => by
    rw [h.points_store ht hi]
    simp [htype, hbase, eq_comm]
  refine ⟨h.congr rfl rfl rfl, fun u k X hP => ?_, fun u k v l X hP hQ => ?_, fun X hX => ?_,
    fun X hX => h.orphan X hX.1⟩
  · rcases hpt.mp hP with ⟨-, rfl⟩ | ⟨-, hP⟩
    · exact ⟨h.orphan X hT, fun hX => hX.2 rfl⟩
    · obtain ⟨hU, hE⟩ := h.points u k X hP
      exact ⟨hU, fun hX => hE hX.1⟩
  · rcases hpt.mp hP with ⟨⟨hu, hk⟩, hX⟩ | ⟨-, hP⟩ <;>
      rcases hpt.mp hQ with ⟨⟨hv, hl⟩, hY⟩ | ⟨-, hQ⟩
    · exact ⟨hu.trans hv.symm, hk.trans hl.symm⟩
    · exact absurd (hX ▸ hT) (h.points _ _ _ hQ).2
    · exact absurd (hY ▸ hT) (h.points _ _ _ hP).2
    · exact h.inj u k v l X hP hQ
  · by_cases hXT : X = T
    · exact .inr ⟨t, i, hpt.mpr (.inl ⟨⟨rfl, rfl⟩, hXT⟩)⟩
    · rcases h.owned X hX with hE | ⟨u, k, hP⟩
      · exact .inl ⟨hE, hXT⟩
      · refine .inr ⟨u, k, hpt.mpr (.inr ⟨?_, hP⟩)⟩
        rintro ⟨rfl, rfl⟩
        obtain ⟨bs, hs, -, hL, -⟩ := hP
        exact hold (Option.some.inj (ht.symm.trans hs) ▸ hL)

end

/-! ## Writing L2 tables -/

/-- Words written to a table leave the L1 entries alone. -/
theorem Layout.l1At_fill (h : Layout s) (hT : UsedIn s.pool T) {g : Nat → Word}
    (hu : s.spaces u = some bs) (hk : k < l1EntryCount bs.type) :
    l1At { s with mem := fill s.mem T l2TableSize g } bs k = l1At s bs k := by
  obtain ⟨e, he, h1, h2, -⟩ := h.pool.table hT
  have := h.poolApart u bs hu e.pagePa (List.mem_map_of_mem he)
  rw [l1TableBytes_eq] at this
  refine if_neg ?_
  unfold Space.l1Addr l2TableSize pageSize at *
  omega

theorem fill_word {mem : Nat → Word} {g : Nat → Word} {base len : Nat} (hj : 4 * j < len) :
    fill mem base len g (base + 4 * j) = g j := by
  unfold fill
  rw [if_pos (by omega), Nat.add_sub_cancel_left, Nat.mul_div_cancel_left _ (by decide)]

/-- An orphan is written: nothing is mapped differently. -/
theorem Inv.fillTable (h : Inv E s) (hT : T ∈ E) (g : Nat → Word) :
    Inv E { s with mem := fill s.mem T l2TableSize g } ∧
      Frame s { s with mem := fill s.mem T l2TableSize g } noPage := by
  have hU := h.orphan T hT
  refine ⟨h.of_l1 rfl rfl rfl fun u bs k hu hk => h.l1At_fill hU hu hk,
    Frame.of_words rfl (fun u bs k j hu hk _ _ => h.l1At_fill hU hu hk) fun u k j X hP hj _ => ?_⟩
  obtain ⟨hX, hE⟩ := h.points u k X hP
  have hne : X ≠ T := fun e => hE (e ▸ hT)
  obtain ⟨-, -, -, -, h1, -⟩ := h.pool.table hU
  obtain ⟨-, -, -, -, h2, -⟩ := h.pool.table hX
  refine if_neg ?_
  unfold l2TableSize at *
  omega

/-- A table that is pointed to is written: one page is mapped differently. -/
theorem Inv.storeL2 (h : Inv E s) (hP : Points s t i T) (hj : j < 256) :
    Inv E (s.store (T + 4 * j) w) ∧
      Frame s (s.store (T + 4 * j) w) (fun u k l => u = t ∧ k = i ∧ l = j) := by
  have hU := (h.points t i T hP).1
  have hl1 : ∀ u bs k, s.spaces u = some bs → k < l1EntryCount bs.type →
      l1At (s.store (T + 4 * j) w) bs k = l1At s bs k := fun u bs k hu hk =>
    update_of_ne (h.l1_ne_l2 hu hk hU hj) _ _
  refine ⟨h.of_l1 rfl rfl rfl hl1, Frame.of_words rfl (fun u bs k l hu hk _ _ => hl1 u bs k hu hk)
    fun u k l X hP' hl hX => update_of_ne ?_ _ _⟩
  refine h.l2_ne_l2 hU (h.points u k X hP').1 hj hl ?_
  rintro ⟨rfl, rfl⟩
  obtain ⟨rfl, rfl⟩ := h.inj u k t i X hP' hP
  exact hX ⟨rfl, rfl, rfl⟩

/-! ## The pool -/

/-- One more table in use, no L1 entry written: it is an orphan. -/
theorem Inv.grow (h : Inv E s) (hlay : Layout s') (hs : s'.spaces = s.spaces)
    (hused : ∀ X, UsedIn s'.pool X ↔ X = T ∨ UsedIn s.pool X) (hnew : ¬UsedIn s.pool T)
    (hl1 : ∀ u bs k, s.spaces u = some bs → k < l1EntryCount bs.type →
      l1At s' bs k = l1At s bs k) : Inv (insert T E) s' := by
  have hpt : ∀ {t i X}, Points s' t i X ↔ Points s t i X := points_congr hs hl1
  refine ⟨hlay, fun u k X hP => ?_, fun u k v l X hP hQ => ?_, fun X hX => ?_, fun X hX => ?_⟩
  · obtain ⟨hU, hE⟩ := h.points u k X (hpt.mp hP)
    refine ⟨(hused X).mpr (.inr hU), fun hX => hX.elim (fun e => hnew (e ▸ hU)) hE⟩
  · exact h.inj u k v l X (hpt.mp hP) (hpt.mp hQ)
  · rcases (hused X).mp hX with rfl | hX
    · exact .inl (.inl rfl)
    · rcases h.owned X hX with hE | ⟨u, k, hP⟩
      · exact .inl (.inr hE)
      · exact .inr ⟨u, k, hpt.mpr hP⟩
  · exact (hused X).mpr (hX.imp id (h.orphan X))

/-- The first table of a new page is the only one in use. -/
theorem getLsbD_firstSlot : (0x1#8).getLsbD k = decide (k = 0) :=
  getLsbD_slot (k := 0) (by decide)

/-- A free frame lies outside every L1 table. -/
theorem Layout.apart_of_free (h : Layout s) (hal : f % pageSize = 0) (hfr : s.frames f = false)
    (hu : s.spaces u = some bs) :
    f + pageSize ≤ bs.ptRoot ∨ bs.ptRoot + l1TableBytes bs.type ≤ f := by
  have h1 := (h.root u bs hu).2.1
  by_contra hc
  have := h.rootTaken u bs f hu (by unfold pageSize at *; omega) (by omega) hal
  rw [hfr] at this
  cases this

/-- A free frame is not a page of the pool. -/
theorem Layout.page_ne_of_free (h : Layout s) (hfr : s.frames f = false) {e : L2PtPoolEntry}
    (he : e ∈ s.pool) : e.pagePa ≠ f := by
  rintro rfl
  have := h.pageTaken e.pagePa (List.mem_map_of_mem he)
  rw [hfr] at this
  cases this

theorem Layout.not_used_of_free (h : Layout s) (hal : f % pageSize = 0)
    (hfr : s.frames f = false) : ¬UsedIn s.pool f := by
  intro hU
  obtain ⟨e, he, -, -, -, -, -, hdown⟩ := h.pool.table hU
  refine h.page_ne_of_free hfr he (hdown.symm.trans ?_)
  exact Nat.div_mul_cancel (Nat.dvd_of_mod_eq_zero hal)

/-- A free frame joins the pool, with its first table in use. -/
def Mmu.addPage (s : Mmu) (f : Nat) : Mmu :=
  { s with
    frames := update s.frames f true
    mem := fill s.mem f pageSize fun _ => 0
    pool := ⟨f, 0x1#8⟩ :: s.pool }

theorem usedIn_addPage {X : Nat} : UsedIn (s.addPage f).pool X ↔ X = f ∨ UsedIn s.pool X := by
  unfold Mmu.addPage
  rw [usedIn_cons]
  refine or_congr_left ⟨?_, fun e => ⟨0, getLsbD_firstSlot.trans rfl, by simpa using e⟩⟩
  rintro ⟨k, hk, rfl⟩
  rw [getLsbD_firstSlot] at hk
  simp [of_decide_eq_true hk]

theorem Layout.l1At_addPage (h : Layout s) (hal : f % pageSize = 0) (hfr : s.frames f = false)
    (hu : s.spaces u = some bs) (hk : k < l1EntryCount bs.type) :
    l1At (s.addPage f) bs k = l1At s bs k := by
  have := h.apart_of_free hal hfr hu
  rw [l1TableBytes_eq] at this
  refine if_neg ?_
  unfold Space.l1Addr
  omega

theorem Layout.addPage (h : Layout s) (h0 : f ≠ 0) (hal : f % pageSize = 0)
    (hlt : f < wordSize) (hfr : s.frames f = false) : Layout (s.addPage f) := by
  have hpage : f ∉ s.pool.map (·.pagePa) := fun hm => by
    obtain ⟨e, he, hef⟩ := List.mem_map.mp hm
    exact h.page_ne_of_free hfr he hef
  refine ⟨⟨fun e he => ?_, ?_⟩, fun p hp => ?_, h.root, fun t as g ht h1 h2 h3 => ?_, h.apart,
    fun t as ht p hp => ?_⟩
  · rcases List.mem_cons.mp he with rfl | he
    · refine ⟨Nat.pos_of_ne_zero h0, hlt, hal, fun k hk => ?_,
        (by decide : (0x1#8 : BitVec 8) ≠ 0)⟩
      rw [getLsbD_firstSlot] at hk
      rw [of_decide_eq_true hk]
      decide
    · exact h.pool.entry e he
  · rw [Mmu.addPage, List.map_cons, List.nodup_cons]
    exact ⟨hpage, h.pool.nodup⟩
  · rcases List.mem_cons.mp hp with rfl | hp
    · exact update_self _ _ _
    · have hne : p ≠ f := fun e => hpage (e ▸ hp)
      exact (update_of_ne hne _ _).trans (h.pageTaken p hp)
  · by_cases hg : g = f
    · exact hg ▸ update_self _ _ _
    · exact (update_of_ne hg _ _).trans (h.rootTaken t as g ht h1 h2 h3)
  · rcases List.mem_cons.mp hp with rfl | hp
    · exact h.apart_of_free hal hfr ht
    · exact h.poolApart t as ht p hp

theorem Inv.addPage (h : Inv E s) (h0 : f ≠ 0) (hal : f % pageSize = 0) (hlt : f < wordSize)
    (hfr : s.frames f = false) :
    Inv (insert f E) (s.addPage f) ∧ Frame s (s.addPage f) noPage := by
  have hnew := fun e he => h.page_ne_of_free hfr (e := e) he
  refine ⟨h.grow (h.toLayout.addPage h0 hal hlt hfr) rfl (fun _ => usedIn_addPage)
    (h.not_used_of_free hal hfr) fun u bs k => h.l1At_addPage hal hfr, Frame.of_words rfl
      (fun u bs k j hu hk _ _ => h.l1At_addPage hal hfr hu hk) fun u k j X hP hj _ => if_neg ?_⟩
  · obtain ⟨e, he, h1, h2, -⟩ := h.pool.table (h.points u k X hP).1
    have hne := hnew e he
    have hea := (h.pool.entry e he).aligned
    unfold l2TableSize pageSize at *
    omega

/-- What a successful allocation from the pool has done: a table with the words `g` is in use
that nothing points to. -/
structure Allocated (E : Set Nat) (s : Mmu) (T : Nat) (g : Nat → Word) (s' : Mmu) : Prop where
  pos : T ≠ 0
  fresh : T ∉ E
  inv : Inv (insert T E) s'
  frame : Frame s s' noPage
  spaces : s'.spaces = s.spaces
  l1 : ∀ u bs k, s.spaces u = some bs → k < l1EntryCount bs.type → l1At s' bs k = l1At s bs k
  words : ∀ j < 256, s'.mem (T + 4 * j) = g j
  pages : ∀ p ∈ s.pool.map (·.pagePa), p ∈ s'.pool.map (·.pagePa)

/-- An allocation that finds a free table in the pool. -/
theorem Inv.takeTable (h : Inv E s) {pool' : List L2PtPoolEntry}
    (htake : poolTake s.pool = some (T, pool')) :
    Allocated E s T (fun _ => 0)
      { s with pool := pool', mem := fill s.mem T l2TableSize fun _ => 0 } := by
  obtain ⟨l, x, r, k, hpool, hk, hclear, rfl, rfl⟩ := poolTake_some htake
  obtain ⟨hok, hnew, hused⟩ := (hpool ▸ h.pool).take hk hclear
  have hpages : (l ++ { x with usedMask := x.usedMask ||| (1#8 <<< k) } :: r).map (·.pagePa) =
      s.pool.map (·.pagePa) := by simp [hpool]
  -- first the mark in the pool, then the words
  have hmark : Inv (insert (x.pagePa + k * l2TableSize) E)
      { s with pool := l ++ { x with usedMask := x.usedMask ||| (1#8 <<< k) } :: r } :=
    h.grow ⟨hok, hpages ▸ h.pageTaken, h.root, h.rootTaken, h.apart, hpages ▸ h.poolApart⟩ rfl
      (hpool ▸ hused) (hpool ▸ hnew) fun _ _ _ _ _ => rfl
  obtain ⟨hinv, hframe⟩ := hmark.fillTable (Set.mem_insert _ _) fun _ => 0
  have hT := hmark.orphan _ (Set.mem_insert _ _)
  obtain ⟨-, -, -, -, -, hpos, -⟩ := hmark.pool.table hT
  refine ⟨Nat.ne_of_gt hpos, fun hE => hnew (hpool ▸ h.orphan _ hE), hinv, hframe, rfl,
    fun u bs k hu hk => hmark.l1At_fill hT hu hk, fun j hj => ?_, fun p hp => hpages ▸ hp⟩
  have : 4 * j < l2TableSize := by
    unfold l2TableSize
    omega
  exact (fill_word this : fill s.mem _ l2TableSize (fun _ => (0 : Word)) _ = 0)

theorem Inv.alloc (h : Inv E s) (env : Env) :
    l2PtPoolAlloc env s = (s, 0) ∨
      ∃ s' T, l2PtPoolAlloc env s = (s', T) ∧ Allocated E s T (fun _ => 0) s' := by
  unfold l2PtPoolAlloc
  cases htake : poolTake s.pool with
  | some r => exact .inr ⟨_, r.1, rfl, h.takeTable htake⟩
  | none =>
    unfold pmmAllocFrame
    generalize env.frame s.frames = f
    by_cases hfree : f ≠ 0 ∧ f % pageSize = 0 ∧ f < wordSize ∧ s.frames f = false
    · obtain ⟨h0, hal, hlt, hfr⟩ := hfree
      simp only [h0, hal, hlt, hfr, ne_eq, not_false_eq_true, and_self, if_true, if_false]
      split
      · -- no memory for the pool's record: the frame goes back
        refine .inl ?_
        simp only [pmmFreeFrame, update_idem, ← hfr, update_eq_self]
      · obtain ⟨hinv, hframe⟩ := h.addPage h0 hal hlt hfr
        refine .inr ⟨s.addPage f, f, rfl, h0, fun hE => ?_, hinv, hframe, rfl,
          fun u bs k hu hk => h.l1At_addPage hal hfr hu hk, fun j hj => ?_,
          fun p hp => List.mem_cons_of_mem _ hp⟩
        · exact h.not_used_of_free hal hfr (h.orphan f hE)
        have : 4 * j < pageSize := by
          unfold pageSize
          omega
        exact (fill_word this : fill s.mem _ pageSize (fun _ => (0 : Word)) _ = 0)
    · left
      rw [if_neg hfree]
      rfl

/-- The new table is written. -/
theorem Allocated.fill {g : Nat → Word} (h : Allocated E s T g s') (g' : Nat → Word) :
    Allocated E s T g' { s' with mem := fill s'.mem T l2TableSize g' } := by
  have hT : T ∈ insert T E := Set.mem_insert _ _
  have hU := h.inv.orphan T hT
  obtain ⟨hinv, hframe⟩ := h.inv.fillTable hT g'
  refine ⟨h.pos, h.fresh, hinv, (h.frame.trans hframe).mono fun _ _ _ _ hX => hX.elim id id,
    h.spaces, fun u bs k hu hk => ?_, fun j hj => ?_, h.pages⟩
  · exact (h.inv.l1At_fill hU (h.spaces ▸ hu) hk).trans (h.l1 u bs k hu hk)
  · have : 4 * j < l2TableSize := by
      unfold l2TableSize
      omega
    exact fill_word this

/-- An orphan is given back to the pool. -/
theorem Inv.free (h : Inv E s) (hT : T ∈ E) :
    Inv (E \ {T}) (l2PtPoolFree T s) ∧ (l2PtPoolFree T s).mem = s.mem ∧
      (l2PtPoolFree T s).spaces = s.spaces ∧
      (∀ X, UsedIn (l2PtPoolFree T s).pool X ↔ UsedIn s.pool X ∧ X ≠ T) ∧
      ∀ f, (l2PtPoolFree T s).frames f = true ↔ s.frames f = true ∧
        (f ∈ s.pool.map (·.pagePa) → f ∈ (l2PtPoolFree T s).pool.map (·.pagePa)) := by
  have hU := h.orphan T hT
  obtain ⟨e, he, -, -, -, hpos, -, hdown⟩ := h.pool.table hU
  obtain ⟨pool', b, hput, hok, hused, hgone, hkept⟩ := h.pool.put hU
  have hfree : l2PtPoolFree T s =
      { s with pool := pool', frames := if b then update s.frames e.pagePa false else s.frames } := by
    unfold l2PtPoolFree
    rw [if_neg (Nat.ne_of_gt hpos)]
    simp only [hput]
    rw [hdown]
    cases b <;> rfl
  have hsub : ∀ p ∈ pool'.map (·.pagePa), p ∈ s.pool.map (·.pagePa) ∧
      (b = true → p ≠ e.pagePa) := by
    intro p hp
    cases b with
    | false => exact ⟨hkept rfl ▸ hp, fun hb => by cases hb⟩
    | true =>
      obtain ⟨y, hy, rfl⟩ := List.mem_map.mp hp
      obtain ⟨hy, hne⟩ := (hgone rfl y).mp hy
      exact ⟨List.mem_map_of_mem hy, fun _ => hdown ▸ hne⟩
  have hfr : ∀ {f}, f ≠ e.pagePa ∨ b = false →
      (if b then update s.frames e.pagePa false else s.frames) f = s.frames f := by
    intro f hf
    cases b with
    | false => rfl
    | true => exact update_of_ne (hf.resolve_right (by decide)) _ _
  rw [hfree]
  refine ⟨⟨⟨hok, fun p hp => ?_, h.root, fun t as g ht h1 h2 h3 => ?_, h.apart,
    fun t as ht p hp => h.poolApart t as ht p (hsub p hp).1⟩, fun u k X hP => ?_, h.inj,
    fun X hX => ?_, fun X hX => ?_⟩, rfl, rfl, hused, fun f => ?_⟩
  · obtain ⟨hp, hne⟩ := hsub p hp
    refine (hfr ?_).trans (h.pageTaken p hp)
    cases b with
    | false => exact .inr rfl
    | true => exact .inl (hne rfl)
  · refine (hfr (.inl ?_)).trans (h.rootTaken t as g ht h1 h2 h3)
    have := h.poolApart t as ht e.pagePa (List.mem_map_of_mem he)
    unfold pageSize at *
    omega
  · obtain ⟨hX, hE⟩ := h.points u k X hP
    exact ⟨(hused X).mpr ⟨hX, fun e => hE (e ▸ hT)⟩, fun hX => hE hX.1⟩
  · obtain ⟨hX, hne⟩ := (hused X).mp hX
    rcases h.owned X hX with hE | hP
    · exact .inl ⟨hE, hne⟩
    · exact .inr hP
  · exact (hused X).mpr ⟨h.orphan X hX.1, hX.2⟩
  · cases b with
    | false =>
      simp only [Bool.false_eq_true, if_false, hkept rfl]
      exact ⟨fun hf => ⟨hf, id⟩, fun hf => hf.1⟩
    | true =>
      by_cases hfe : f = e.pagePa
      · subst hfe
        simp only [if_true, update_self, Bool.false_eq_true, false_iff, not_and]
        exact fun _ hf => (hsub _ (hf (List.mem_map_of_mem he))).2 rfl rfl
      · simp only [if_true, update_of_ne hfe, iff_self_and]
        intro _ hf
        obtain ⟨y, hy, rfl⟩ := List.mem_map.mp hf
        exact List.mem_map_of_mem ((hgone rfl y).mpr ⟨hy, hdown ▸ hfe⟩)

end Zuzu.L1.PageTable
