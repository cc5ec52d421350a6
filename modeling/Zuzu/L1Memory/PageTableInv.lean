import Mathlib.Data.List.Nodup
import Mathlib.Order.BooleanAlgebra.Set
import Zuzu.L1Memory.PageTableDesc

/-!
# The tables in memory

Which L1 entry points to which L2 table, and where the tables lie. `Inv E s`
says that the tables of the live address spaces and the frames of the pool do
not overlap, that each L1 entry of type L2 points to a table in use and no two
point to the same one, and that every table in use is pointed to or is a member
of `E`: the tables in flight within an operation, or lost.

The functions of the code are sequences of a few small steps: take a table from
the pool, give one back, write an L1 entry, write an L2 entry. Each has one
lemma here, which says how `E` changes and what becomes of the mappings (`row`).
-/
namespace Zuzu.L1.PageTable
open Function (update)

variable {s s' : Mmu} {as bs : Space} {t u i j k T f : Nat} {e w : Word} {E : Set Nat}
variable {x : L2PtPoolEntry} {l r pool : List L2PtPoolEntry} {m : BitVec 8}
variable {X : Nat → Nat → Nat → Prop}

/-! ## Tables in use -/

/-- Table `T` is marked used in the pool. -/
def UsedIn (pool : List L2PtPoolEntry) (T : Nat) : Prop :=
  ∃ e ∈ pool, ∃ k, e.usedMask.getLsbD k = true ∧ T = e.pagePa + k * l2TableSize

/-- A pool entry as the pool keeps it: a page, with at least one of its four tables used. -/
structure EntryOk (e : L2PtPoolEntry) : Prop where
  pos : 0 < e.pagePa
  lt : e.pagePa < wordSize
  aligned : e.pagePa % pageSize = 0
  slots : ∀ k, e.usedMask.getLsbD k = true → k < 4
  used : e.usedMask ≠ 0

/-- The pool as a whole. -/
structure PoolOk (pool : List L2PtPoolEntry) : Prop where
  entry : ∀ e ∈ pool, EntryOk e
  nodup : (pool.map (·.pagePa)).Nodup

theorem usedIn_cons : UsedIn (x :: pool) T ↔
    (∃ k, x.usedMask.getLsbD k = true ∧ T = x.pagePa + k * l2TableSize) ∨ UsedIn pool T := by
  simp [UsedIn]

theorem usedIn_append :
    UsedIn (l ++ r) T ↔ UsedIn l T ∨ UsedIn r T := by
  simp [UsedIn, or_and_right, exists_or]

/-- A table in use lies in its page and is aligned. -/
theorem PoolOk.table (h : PoolOk pool) (hT : UsedIn pool T) :
    ∃ e ∈ pool, e.pagePa ≤ T ∧ T + l2TableSize ≤ e.pagePa + pageSize ∧ T % l2TableSize = 0 ∧
      0 < T ∧ T < wordSize ∧ alignDown T pageSize = e.pagePa := by
  obtain ⟨e, he, k, hk, rfl⟩ := hT
  obtain ⟨h0, hlt, hal, hs, -⟩ := h.entry e he
  have := hs k hk
  refine ⟨e, he, ?_⟩
  unfold l2TableSize alignDown pageSize wordSize at *
  omega

theorem freeSlot_some (h : freeSlot m = some k) :
    k < 4 ∧ m.getLsbD k = false := by
  have h1 := List.find?_some h
  have h2 := List.mem_of_find?_eq_some h
  exact ⟨List.mem_range.mp h2, by simpa using h1⟩

theorem getLsbD_slot (hk : k < 4) : (1#8 <<< k).getLsbD j = decide (j = k) := by
  simp only [BitVec.getLsbD_shiftLeft, BitVec.getLsbD_one]
  grind

theorem getLsbD_setSlot (hk : k < 4) :
    (m ||| (1#8 <<< k)).getLsbD j = (decide (j = k) || m.getLsbD j) := by
  rw [BitVec.getLsbD_or, getLsbD_slot hk, Bool.or_comm]

theorem getLsbD_clearSlot (hk : k < 4) :
    (m &&& ~~~(1#8 <<< k)).getLsbD j = (!decide (j = k) && m.getLsbD j) := by
  rw [BitVec.getLsbD_and, BitVec.getLsbD_not, getLsbD_slot hk]
  rcases Nat.lt_or_ge j 8 with hj | hj
  · simp [hj, Bool.and_comm]
  · simp [BitVec.getLsbD_of_ge m j hj]

/-- The pool with the mask of one entry changed. -/
theorem PoolOk.set
    (h : PoolOk (l ++ x :: r)) (hs : ∀ k, m.getLsbD k = true → k < 4) (h0 : m ≠ 0) :
    PoolOk (l ++ { x with usedMask := m } :: r) := by
  obtain ⟨h1, h2, h3, -, -⟩ := h.entry x (by simp)
  refine ⟨fun e he => ?_, by simpa using h.nodup⟩
  rcases List.mem_append.mp he with he | he
  · exact h.entry e (by simp [he])
  · rcases List.mem_cons.mp he with rfl | he
    · exact ⟨h1, h2, h3, hs, h0⟩
    · exact h.entry e (by simp [he])

/-- Where the search for a free table stops. -/
theorem poolTake_some {pool' : List L2PtPoolEntry} (h : poolTake pool = some (T, pool')) :
    ∃ l x r k, pool = l ++ x :: r ∧ k < 4 ∧ x.usedMask.getLsbD k = false ∧
      T = x.pagePa + k * l2TableSize ∧
      pool' = l ++ { x with usedMask := x.usedMask ||| (1#8 <<< k) } :: r := by
  induction pool generalizing pool' with
  | nil => cases h
  | cons e es ih =>
    unfold poolTake at h
    split at h
    · obtain ⟨⟨T', p⟩, hr, he⟩ := Option.map_eq_some_iff.mp h
      cases he
      obtain ⟨l, x, r, k, h1, h2, h3, h4, h5⟩ := ih hr
      exact ⟨e :: l, x, r, k, by simp [h1], h2, h3, h4, by simp [h5]⟩
    · rename_i k hk
      cases h
      split at hk
      · cases hk
      · obtain ⟨h1, h2⟩ := freeSlot_some hk
        exact ⟨[], e, es, k, rfl, h1, h2, rfl, rfl⟩

/-- Two tables at the same address are the same slot of the same entry. -/
theorem PoolOk.slot_inj {y : L2PtPoolEntry}
    (h : PoolOk (l ++ x :: r)) (hy : y ∈ l ++ x :: r) (hk : k < 4) (hj : j < 4)
    (e : x.pagePa + k * l2TableSize = y.pagePa + j * l2TableSize) :
    k = j ∧ x.pagePa = y.pagePa := by
  have hx := (h.entry x (by simp)).aligned
  have hy := (h.entry y hy).aligned
  unfold l2TableSize pageSize at *
  omega

/-- Taking a table marks it used, and nothing else. -/
theorem PoolOk.take (h : PoolOk (l ++ x :: r))
    (hk : k < 4) (hclear : x.usedMask.getLsbD k = false) :
    PoolOk (l ++ { x with usedMask := x.usedMask ||| (1#8 <<< k) } :: r) ∧
      ¬UsedIn (l ++ x :: r) (x.pagePa + k * l2TableSize) ∧
      ∀ T, UsedIn (l ++ { x with usedMask := x.usedMask ||| (1#8 <<< k) } :: r) T ↔
        T = x.pagePa + k * l2TableSize ∨ UsedIn (l ++ x :: r) T := by
  refine ⟨h.set (fun j hj => ?_) ?_, ?_, fun T => ?_⟩
  · rw [getLsbD_setSlot hk] at hj
    rcases (Bool.or_eq_true _ _).mp hj with hj | hj
    · exact of_decide_eq_true hj ▸ hk
    · exact (h.entry x (by simp)).slots j hj
  · intro h0
    have := getLsbD_setSlot (m := x.usedMask) (j := k) hk
    rw [h0] at this
    simp at this
  · rintro ⟨y, hy, j, hj, he⟩
    have hj4 := (h.entry y hy).slots j hj
    obtain ⟨rfl, hpage⟩ := h.slot_inj hy hk hj4 he
    have hxy : x = y := List.inj_on_of_nodup_map h.nodup (by simp) hy hpage
    rw [← hxy, hclear] at hj
    cases hj
  · simp only [usedIn_append, usedIn_cons, getLsbD_setSlot hk, Bool.or_eq_true,
      decide_eq_true_eq]
    constructor
    · rintro (hl | ⟨j, rfl | hj, rfl⟩ | hr)
      · exact .inr (.inl hl)
      · exact .inl rfl
      · exact .inr (.inr (.inl ⟨j, hj, rfl⟩))
      · exact .inr (.inr (.inr hr))
    · rintro (rfl | hl | ⟨j, hj, rfl⟩ | hr)
      · exact .inr (.inl ⟨k, .inl rfl, rfl⟩)
      · exact .inl hl
      · exact .inr (.inl ⟨j, .inr hj, rfl⟩)
      · exact .inr (.inr hr)

/-- Where the search for the page of a table stops, and what becomes of its entry. -/
theorem poolPut_spec
    (hl : ∀ y ∈ l, y.pagePa ≠ x.pagePa) :
    poolPut x.pagePa k (l ++ x :: r) =
      if x.usedMask &&& ~~~(1#8 <<< k) = 0 then (l ++ r, true)
      else (l ++ { x with usedMask := x.usedMask &&& ~~~(1#8 <<< k) } :: r, false) := by
  induction l with
  | nil =>
    simp only [List.nil_append, poolPut, ne_eq, not_true_eq_false, if_false]
  | cons y l ih =>
    have hy : y.pagePa ≠ x.pagePa := hl y (by simp)
    simp only [List.cons_append, poolPut, hy, ne_eq, not_false_eq_true, if_true,
      ih fun z hz => hl z (by simp [hz])]
    split <;> rfl

/-- Giving back a table in use marks it free, and nothing else; the page goes when it was the
last of its tables. -/
theorem PoolOk.put (h : PoolOk pool) (hT : UsedIn pool T) :
    ∃ pool' b, poolPut (alignDown T pageSize) (T % pageSize / l2TableSize) pool = (pool', b) ∧
      PoolOk pool' ∧ (∀ X, UsedIn pool' X ↔ UsedIn pool X ∧ X ≠ T) ∧
      (b = true → ∀ y, y ∈ pool' ↔ y ∈ pool ∧ y.pagePa ≠ alignDown T pageSize) ∧
      (b = false → pool'.map (·.pagePa) = pool.map (·.pagePa)) := by
  obtain ⟨x, hx, k, hk, rfl⟩ := hT
  obtain ⟨l, r, rfl⟩ := List.append_of_mem hx
  have hok := h.entry x hx
  have hk4 := hok.slots k hk
  have hpage : alignDown (x.pagePa + k * l2TableSize) pageSize = x.pagePa ∧
      (x.pagePa + k * l2TableSize) % pageSize / l2TableSize = k := by
    have := hok.aligned
    unfold alignDown l2TableSize pageSize at *
    omega
  have hnd := h.nodup
  rw [List.map_append, List.map_cons, List.nodup_middle, ← List.map_append, List.nodup_cons] at hnd
  obtain ⟨hno, hnd⟩ := hnd
  have hpages : ∀ y ∈ l ++ r, y.pagePa ≠ x.pagePa := fun y hy e =>
    hno (e ▸ List.mem_map_of_mem hy)
  have hrest : ∀ {y}, y ∈ l ++ r → y ∈ l ++ x :: r := fun hy =>
    ((List.sublist_cons_self x r).append_left l).subset hy
  -- a table of another page, or another slot of this one, is another table
  have hother : ∀ X, UsedIn (l ++ r) X → X ≠ x.pagePa + k * l2TableSize := by
    rintro _ ⟨y, hy, j, hj, rfl⟩ he
    have hp := h.slot_inj (hrest hy) hk4 ((h.entry y (hrest hy)).slots j hj) he.symm
    exact hpages y hy hp.2.symm
  have hclear : ∀ X, UsedIn (l ++ { x with usedMask := x.usedMask &&& ~~~(1#8 <<< k) } :: r) X ↔
      UsedIn (l ++ x :: r) X ∧ X ≠ x.pagePa + k * l2TableSize := by
    intro X
    have hX := hother X
    rw [usedIn_append] at hX
    simp only [usedIn_append, usedIn_cons, getLsbD_clearSlot hk4, Bool.and_eq_true,
      Bool.not_eq_true', decide_eq_false_iff_not]
    constructor
    · rintro (hl | ⟨j, ⟨hne, hj⟩, rfl⟩ | hr)
      · exact ⟨.inl hl, hX (.inl hl)⟩
      · refine ⟨.inr (.inl ⟨j, hj, rfl⟩), fun e => hne ?_⟩
        unfold l2TableSize at e
        omega
      · exact ⟨.inr (.inr hr), hX (.inr hr)⟩
    · rintro ⟨hl | ⟨j, hj, rfl⟩ | hr, hne⟩
      · exact .inl hl
      · exact .inr (.inl ⟨j, ⟨fun e => hne (by rw [e]), hj⟩, rfl⟩)
      · exact .inr (.inr hr)
  rw [hpage.1, hpage.2, poolPut_spec fun y hy => hpages y (List.mem_append_left r hy)]
  split
  · rename_i h0
    refine ⟨l ++ r, true, rfl, ⟨fun e he => h.entry e (hrest he), hnd⟩, fun X => ?_, fun _ y => ?_,
      nofun⟩
    · rw [← hclear X, h0]
      simp [usedIn_append, usedIn_cons]
    · refine ⟨fun hy => ⟨hrest hy, hpages y hy⟩, fun ⟨hy, hne⟩ => ?_⟩
      rw [List.mem_append, List.mem_cons] at hy
      rw [List.mem_append]
      exact hy.imp id fun hy => hy.resolve_left fun e => hne (by rw [e])
  · rename_i h0
    refine ⟨_, false, rfl, h.set (fun j hj => ?_) h0, hclear, nofun, fun _ => by simp⟩
    rw [getLsbD_clearSlot hk4] at hj
    exact hok.slots j ((Bool.and_eq_true _ _).mp hj).2

/-! ## Where the tables lie -/

/-- Entry `i` of the L1 table of a space. -/
def l1At (s : Mmu) (as : Space) (i : Nat) : Word := s.mem (as.l1Addr i)

/-- The tables of the live spaces and the pages of the pool are allocated and do not overlap. -/
structure Layout (s : Mmu) : Prop where
  pool : PoolOk s.pool
  pageTaken : ∀ p ∈ s.pool.map (·.pagePa), s.frames p = true
  root : ∀ t as, s.spaces t = some as → 0 < as.ptRoot ∧ as.ptRoot % pageSize = 0 ∧
    as.ptRoot + l1TableBytes as.type ≤ wordSize
  rootTaken : ∀ t as f, s.spaces t = some as → as.ptRoot ≤ f →
    f < as.ptRoot + l1TableBytes as.type → f % pageSize = 0 → s.frames f = true
  apart : ∀ t u as bs, s.spaces t = some as → s.spaces u = some bs → t ≠ u →
    as.ptRoot + l1TableBytes as.type ≤ bs.ptRoot ∨ bs.ptRoot + l1TableBytes bs.type ≤ as.ptRoot
  poolApart : ∀ t as, s.spaces t = some as → ∀ p ∈ s.pool.map (·.pagePa),
    p + pageSize ≤ as.ptRoot ∨ as.ptRoot + l1TableBytes as.type ≤ p

theorem Layout.congr (h : Layout s) (hs : s'.spaces = s.spaces) (hp : s'.pool = s.pool)
    (hf : s'.frames = s.frames) : Layout s' := by
  obtain ⟨h1, h2, h3, h4, h5, h6⟩ := h
  rw [← hp, ← hf, ← hs] at *
  exact ⟨h1, h2, h3, h4, h5, h6⟩

theorem l1TableBytes_mod (type : AddressSpaceType) : l1TableBytes type % pageSize = 0 := by
  cases type <;> decide

theorem l1TableBytes_eq (type : AddressSpaceType) :
    l1TableBytes type = l1EntryCount type * 4 := rfl

theorem Layout.l1_ne_l1 (h : Layout s) (ht : s.spaces t = some as) (hu : s.spaces u = some bs)
    (hi : i < l1EntryCount as.type) (hj : j < l1EntryCount bs.type) (hne : ¬(u = t ∧ j = i)) :
    bs.l1Addr j ≠ as.l1Addr i := by
  unfold Space.l1Addr
  by_cases htu : t = u
  · subst htu
    rw [ht] at hu
    cases hu
    omega
  · have := h.apart t u as bs ht hu htu
    rw [l1TableBytes_eq, l1TableBytes_eq] at this
    omega

theorem Layout.l1_ne_l2 (h : Layout s) (ht : s.spaces t = some as)
    (hi : i < l1EntryCount as.type) (hT : UsedIn s.pool T) (hj : j < 256) :
    as.l1Addr i ≠ T + 4 * j := by
  obtain ⟨e, he, h1, h2, -⟩ := h.pool.table hT
  have := h.poolApart t as ht e.pagePa (List.mem_map_of_mem he)
  rw [l1TableBytes_eq] at this
  unfold Space.l1Addr l2TableSize pageSize at *
  omega

theorem Layout.l2_ne_l2 {T' : Nat} (h : Layout s) (hT : UsedIn s.pool T)
    (hT' : UsedIn s.pool T') (hi : i < 256) (hj : j < 256) (hne : ¬(T' = T ∧ j = i)) :
    T' + 4 * j ≠ T + 4 * i := by
  obtain ⟨e, -, -, -, h1, -⟩ := h.pool.table hT
  obtain ⟨e', -, -, -, h2, -⟩ := h.pool.table hT'
  unfold l2TableSize at *
  omega

/-- L1 entry `i` of the live space `t` points to table `T`. -/
def Points (s : Mmu) (t i T : Nat) : Prop :=
  ∃ as, s.spaces t = some as ∧ i < l1EntryCount as.type ∧ descType (l1At s as i) = descL2 ∧
    l2Base (l1At s as i) = T

/-- The tables, with `E` the ones in use that no L1 entry points to. -/
structure Inv (E : Set Nat) (s : Mmu) : Prop extends Layout s where
  points : ∀ t i T, Points s t i T → UsedIn s.pool T ∧ T ∉ E
  inj : ∀ t i u j T, Points s t i T → Points s u j T → t = u ∧ i = j
  owned : ∀ T, UsedIn s.pool T → T ∈ E ∨ ∃ t i, Points s t i T
  orphan : ∀ T ∈ E, UsedIn s.pool T

/-- Only the L1 entries matter for who points where. -/
theorem points_congr (hs : s'.spaces = s.spaces)
    (hl1 : ∀ u bs k, s.spaces u = some bs → k < l1EntryCount bs.type →
      l1At s' bs k = l1At s bs k) : Points s' t i T ↔ Points s t i T := by
  unfold Points
  rw [hs]
  refine exists_congr fun as => and_congr_right fun h1 => and_congr_right fun h2 => ?_
  rw [hl1 t as i h1 h2]

/-- Who points where and which tables are in use decide the rest. -/
theorem Inv.of_points (h : Inv E s) (hlay : Layout s') (hp : s'.pool = s.pool)
    (hpt : ∀ {t i T}, Points s' t i T ↔ Points s t i T) : Inv E s' :=
  ⟨hlay, fun t i T hT => hp ▸ h.points t i T (hpt.mp hT),
    fun t i u j T hT hT' => h.inj t i u j T (hpt.mp hT) (hpt.mp hT'),
    fun T hT => (h.owned T (hp ▸ hT)).imp id fun ⟨t, i, hP⟩ => ⟨t, i, hpt.mpr hP⟩,
    fun T hT => hp ▸ h.orphan T hT⟩

/-- An edit of memory outside the L1 tables. -/
theorem Inv.of_l1 (h : Inv E s) (hs : s'.spaces = s.spaces) (hp : s'.pool = s.pool)
    (hf : s'.frames = s.frames)
    (hl1 : ∀ u bs k, s.spaces u = some bs → k < l1EntryCount bs.type →
      l1At s' bs k = l1At s bs k) : Inv E s' :=
  h.of_points (h.congr hs hp hf) hp (points_congr hs hl1)

/-! ## What the tables mean -/

/-- What an L1 descriptor says about the `j`-th of its 256 pages: the frame and the
attributes it is mapped with. -/
def leaf (mem : Nat → Word) (e : Word) (j : Nat) : Option (Nat × Attrs) :=
  if descType e = descFault then none
  else if descType e = descL2 then
    let w := mem (l2Base e + 4 * j)
    if w &&& l2SmallTag = 0 then none else some ((w &&& l2SmallBaseMask).toNat, pageAttrs w)
  else some ((e &&& l1SectionBaseMask).toNat + j * pageSize, sectionAttrs e)

/-- Page `j` of the `i`-th MiB of a space. -/
def row (s : Mmu) (as : Space) (i j : Nat) : Option (Nat × Attrs) := leaf s.mem (l1At s as i) j

/-- Page `j` of the `k`-th MiB of space `u` is as it was: its space stays, it is mapped as before,
and a MiB of small pages stays one. -/
def Same (s s' : Mmu) (u : Nat) (bs : Space) (k j : Nat) : Prop :=
  s'.spaces u = some bs ∧ row s' bs k j = row s bs k j ∧
    (descType (l1At s bs k) = descL2 → descType (l1At s' bs k) = descL2)

/-- From `s` to `s'` nothing changes for the pages outside `X` (space, L1 index, L2 index). -/
def Frame (s s' : Mmu) (X : Nat → Nat → Nat → Prop) : Prop :=
  ∀ u bs k j, s.spaces u = some bs → k < l1EntryCount bs.type → j < 256 → ¬X u k j →
    Same s s' u bs k j

theorem Frame.refl (s : Mmu) (X : Nat → Nat → Nat → Prop) : Frame s s X :=
  fun _ _ _ _ hu _ _ _ => ⟨hu, rfl, id⟩

theorem Frame.trans {s'' : Mmu} {Y : Nat → Nat → Nat → Prop} (h : Frame s s' X)
    (h' : Frame s' s'' Y) : Frame s s'' fun u k j => X u k j ∨ Y u k j := by
  intro u bs k j hu hk hj hXY
  rw [not_or] at hXY
  obtain ⟨hl, hr, hL⟩ := h u bs k j hu hk hj hXY.1
  obtain ⟨hl', hr', hL'⟩ := h' u bs k j hl hk hj hXY.2
  exact ⟨hl', hr'.trans hr, fun hd => hL' (hL hd)⟩

theorem Frame.mono {Y : Nat → Nat → Nat → Prop} (h : Frame s s' X)
    (hXY : ∀ u k j, j < 256 → X u k j → Y u k j) : Frame s s' Y :=
  fun u bs k j hu hk hj hY => h u bs k j hu hk hj fun hX => hY (hXY u k j hj hX)

/-- No page. -/
def noPage : Nat → Nat → Nat → Prop := fun _ _ _ => False

/-- The exceptions are as they were, too. -/
theorem Frame.patch (h : Frame s s' X) (hX : ∀ u bs k j, s.spaces u = some bs →
    k < l1EntryCount bs.type → j < 256 → X u k j → Same s s' u bs k j) :
    Frame s s' noPage := by
  intro u bs k j hu hk hj _
  by_cases hc : X u k j
  · exact hX u bs k j hu hk hj hc
  · exact h u bs k j hu hk hj hc

/-- A table that is pointed to decides the row. -/
theorem leaf_congr {mem mem' : Nat → Word} (h : descType e = descL2 →
    mem' (l2Base e + 4 * j) = mem (l2Base e + 4 * j)) : leaf mem' e j = leaf mem e j := by
  unfold leaf
  split
  · rfl
  · split
    · rename_i hL
      rw [h hL]
    · rfl

/-- An edit that keeps the spaces, the L1 entries outside `X` and the tables they point to. -/
theorem Frame.of_words (hs : s'.spaces = s.spaces)
    (hl1 : ∀ u bs k j, s.spaces u = some bs → k < l1EntryCount bs.type → j < 256 → ¬X u k j →
      l1At s' bs k = l1At s bs k)
    (hl2 : ∀ u k j T, Points s u k T → j < 256 → ¬X u k j →
      s'.mem (T + 4 * j) = s.mem (T + 4 * j)) : Frame s s' X := by
  intro u bs k j hu hk hj hX
  have hat := hl1 u bs k j hu hk hj hX
  refine ⟨hs ▸ hu, ?_, fun hL => hat ▸ hL⟩
  unfold row
  rw [hat]
  exact leaf_congr fun hL => hl2 u k j _ ⟨bs, hu, hk, hL, rfl⟩ hj hX

end Zuzu.L1.PageTable
