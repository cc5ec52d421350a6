import Zuzu.L3Kernel.Mem

/-!
# The region vector (`kernel/mm/vmm/vmm_region.c`)

An address space keeps its regions in a vector sorted by start address.
`RegionsOk` says that they are non-empty, in order and apart, and end below
`2^32`. Under it the two binary searches find what a look at every region would
find, `VmmAddRegion` accepts exactly the regions that overlap none, and the scan
of `VmmFindFreeVa` stops at the lowest gap.

Results:
* `regions_sound`: all of this holds after any adds and removes of regions that end
  below `2^32`.
* `regions_overlap_at_top`: a region that ends at `2^32` itself has end 0 in 32 bits,
  and the overlap test lets it in over its neighbours.
-/
namespace Zuzu.L3
open Function Zuzu.Core

variable {m m' : Mem} {a : AddressSpace} {r x : Region} {rs : List Region} {sp : SpaceId}
  {va lo hi size cand : Nat}

/-- The first address behind a region. -/
def Region.stop (r : Region) : Nat := r.vaddrStart + r.size

def Region.Contains (r : Region) (va : Nat) : Prop := r.vaddrStart ≤ va ∧ va < r.stop

instance (r : Region) (va : Nat) : Decidable (r.Contains va) :=
  inferInstanceAs (Decidable (_ ∧ _))

/-- Regions in order and apart, none of them empty, all below `2^32`. -/
structure RegionsOk (rs : List Region) : Prop where
  sorted : rs.Pairwise fun x y => x.stop ≤ y.vaddrStart
  nonempty : ∀ r ∈ rs, 0 < r.size
  below : ∀ r ∈ rs, r.stop < wordSize

theorem RegionsOk.nil : RegionsOk [] := ⟨.nil, by simp, by simp⟩

theorem RegionsOk.tail (h : RegionsOk (r :: rs)) : RegionsOk rs :=
  ⟨h.sorted.of_cons, fun x hx => h.nonempty x (by simp [hx]), fun x hx => h.below x (by simp [hx])⟩

theorem RegionsOk.sublist {rs' : List Region} (h : RegionsOk rs) (hs : rs'.Sublist rs) :
    RegionsOk rs' :=
  ⟨h.sorted.sublist hs, fun x hx => h.nonempty x (hs.subset hx),
    fun x hx => h.below x (hs.subset hx)⟩

/-- Start addresses rise strictly. -/
theorem RegionsOk.strict (h : RegionsOk rs) :
    rs.Pairwise fun x y => x.vaddrStart < y.vaddrStart := by
  refine h.sorted.imp_of_mem fun {x y} hx _ hxy => ?_
  have := h.nonempty x hx
  unfold Region.stop at hxy
  omega

/-! ## Searching -/

theorem regionContainsVa_eq : regionContainsVa va r = .eq ↔ r.Contains va := by
  simp only [regionContainsVa, Region.Contains, Region.stop]
  split_ifs <;> simp <;> omega

theorem regionContainsVa_lt : regionContainsVa va r = .lt ↔ va < r.vaddrStart := by
  simp only [regionContainsVa]
  split_ifs <;> simp <;> omega

theorem regionContainsVa_gt (h : 0 < r.size) : regionContainsVa va r = .gt ↔ r.stop ≤ va := by
  simp only [regionContainsVa, Region.stop]
  split_ifs <;> simp <;> omega

theorem RegionsOk.steered_contains (h : RegionsOk rs) (va : Nat) :
    Steered (regionContainsVa va) rs := by
  refine h.sorted.imp_of_mem fun {x y} hx hy hxy => ?_
  rw [ne_eq, ne_eq, regionContainsVa_lt, regionContainsVa_gt (h.nonempty x hx)]
  omega

/-- What the search returns contains the address, whatever the vector. -/
theorem vmmFindRegion_some (h : vmmFindRegion a va = some r) : r ∈ a.regions ∧ r.Contains va := by
  obtain ⟨i, hi, hr⟩ := Option.bind_eq_some_iff.mp h
  obtain ⟨x, hx, hc⟩ := bsearch_some hi
  rw [hr] at hx
  cases hx
  exact ⟨List.mem_of_getElem? hr, regionContainsVa_eq.mp hc⟩

theorem vmmFindRegion_eq_some (h : RegionsOk a.regions) :
    vmmFindRegion a va = some r ↔ r ∈ a.regions ∧ r.Contains va := by
  refine ⟨vmmFindRegion_some, fun ⟨hmem, hc⟩ => ?_⟩
  obtain ⟨i, hi⟩ := List.mem_iff_getElem?.mp hmem
  have := (bsearch_eq_some (h.steered_contains va)).mpr ⟨r, hi, regionContainsVa_eq.mpr hc⟩
  unfold vmmFindRegion
  rw [this, Option.bind_some, hi]

theorem vmmFindRegion_eq_none (h : RegionsOk a.regions) :
    vmmFindRegion a va = none ↔ ∀ r ∈ a.regions, ¬r.Contains va := by
  constructor
  · intro hn r hr hc
    rw [(vmmFindRegion_eq_some h).mpr ⟨hr, hc⟩] at hn
    cases hn
  · intro hn
    cases hf : vmmFindRegion a va with
    | none => rfl
    | some r =>
      obtain ⟨hr, hc⟩ := vmmFindRegion_some hf
      exact absurd hc (hn r hr)

/-! ## Adding -/

/-- The region `r` overlaps none of `rs`. -/
def Fits (rs : List Region) (r : Region) : Prop :=
  ∀ x ∈ rs, x.stop ≤ r.vaddrStart ∨ r.stop ≤ x.vaddrStart

/-- The regions of space `sp`; none if it has no address space. -/
def regionsOf (m : Mem) (sp : SpaceId) : List Region :=
  ((m.as sp).map AddressSpace.regions).getD []

/-- The place where a region goes: everything before it starts no later. -/
def insertAt (rs : List Region) (r : Region) : Nat :=
  upperBound (fun x => x.vaddrStart ≤ r.vaddrStart) rs

theorem RegionsOk.insertAt_spec (h : RegionsOk rs) (r : Region) :
    insertAt rs r ≤ rs.length ∧
    (∀ x ∈ rs.take (insertAt rs r), x.vaddrStart ≤ r.vaddrStart) ∧
    ∀ x ∈ rs.drop (insertAt rs r), r.vaddrStart < x.vaddrStart := by
  have hmono : rs.Pairwise fun x y => decide (y.vaddrStart ≤ r.vaddrStart) = true →
      decide (x.vaddrStart ≤ r.vaddrStart) = true :=
    h.strict.imp fun {x y} hxy => by simp only [decide_eq_true_eq]; omega
  obtain ⟨h1, h2, h3⟩ := upperBound_spec hmono
  exact ⟨h1, fun x hx => by simpa using h2 x hx, fun x hx => by simpa using h3 x hx⟩

/-- The left neighbour is the last region that starts no later: it decides for all. -/
theorem RegionsOk.left_iff (h : RegionsOk rs) (r : Region) :
    (insertAt rs r > 0 ∧ rs[insertAt rs r - 1]?.any fun x =>
      (x.vaddrStart + x.size) % wordSize > r.vaddrStart) ↔
    ∃ x ∈ rs.take (insertAt rs r), r.vaddrStart < x.stop := by
  obtain ⟨hlen, -, -⟩ := h.insertAt_spec r
  generalize insertAt rs r = i at *
  have hmod : ∀ x ∈ rs, (x.vaddrStart + x.size) % wordSize = x.stop :=
    fun x hx => Nat.mod_eq_of_lt (h.below x hx)
  constructor
  · rintro ⟨hpos, hany⟩
    have hlt : i - 1 < rs.length := by omega
    rw [List.getElem?_eq_getElem hlt] at hany
    refine ⟨rs[i - 1], List.mem_take_iff_getElem.mpr ⟨i - 1, by omega, rfl⟩, ?_⟩
    simpa [hmod _ (List.getElem_mem hlt)] using hany
  · rintro ⟨x, hx, hgt⟩
    obtain ⟨j, hj, rfl⟩ := List.mem_take_iff_getElem.mp hx
    have hlt : i - 1 < rs.length := by omega
    refine ⟨by omega, ?_⟩
    rw [List.getElem?_eq_getElem hlt]
    simp only [Option.any_some, decide_eq_true_eq, hmod _ (List.getElem_mem hlt)]
    -- a region further left ends before the neighbour starts
    rcases Nat.lt_or_eq_of_le (show j ≤ i - 1 by omega) with hji | rfl
    · have h1 := List.pairwise_iff_getElem.mp h.sorted j (i - 1) (by omega) hlt hji
      unfold Region.stop at *
      omega
    · exact hgt

theorem RegionsOk.right_iff (h : RegionsOk rs) (hr : r.stop < wordSize) :
    (rs[insertAt rs r]?.any fun x => (r.vaddrStart + r.size) % wordSize > x.vaddrStart) = true ↔
    ∃ x ∈ rs.drop (insertAt rs r), x.vaddrStart < r.stop := by
  generalize insertAt rs r = i at *
  rw [show (r.vaddrStart + r.size) % wordSize = r.stop from Nat.mod_eq_of_lt hr]
  rcases Nat.lt_or_ge i rs.length with hlt | hge
  · rw [List.getElem?_eq_getElem hlt, List.drop_eq_getElem_cons hlt]
    simp only [Option.any_some, decide_eq_true_eq]
    refine ⟨fun hgt => ⟨_, List.mem_cons_self, hgt⟩, ?_⟩
    rintro ⟨x, hx, hgt⟩
    rcases List.mem_cons.mp hx with rfl | hx
    · exact hgt
    · -- a region further right starts later still
      obtain ⟨j, hj, rfl⟩ := List.mem_drop_iff_getElem.mp hx
      have := List.pairwise_iff_getElem.mp h.strict i (i + 1 + j) hlt (by omega) (by omega)
      omega
  · rw [List.getElem?_eq_none hge, List.drop_eq_nil_of_le hge]
    simp

/-- The two neighbours decide whether a region fits. -/
theorem RegionsOk.fits_iff (h : RegionsOk rs) (hr : 0 < r.size) :
    Fits rs r ↔ (∀ x ∈ rs.take (insertAt rs r), x.stop ≤ r.vaddrStart) ∧
      ∀ x ∈ rs.drop (insertAt rs r), r.stop ≤ x.vaddrStart := by
  obtain ⟨-, h2, h3⟩ := h.insertAt_spec r
  constructor
  · intro hf
    refine ⟨fun x hx => (hf x (List.mem_of_mem_take hx)).resolve_right fun hle => ?_,
      fun x hx => (hf x (List.mem_of_mem_drop hx)).resolve_left fun hle => ?_⟩
    · have := h2 x hx
      unfold Region.stop at hle
      omega
    · have := h3 x hx
      unfold Region.stop at hle
      omega
  · rintro ⟨hl, hd⟩ x hx
    rw [← List.take_append_drop (insertAt rs r) rs] at hx
    rcases List.mem_append.mp hx with hx | hx
    · exact .inl (hl x hx)
    · exact .inr (hd x hx)

/-- The vector with the region put in its place. -/
def insertRegion (rs : List Region) (r : Region) : List Region :=
  rs.take (insertAt rs r) ++ r.stored :: rs.drop (insertAt rs r)

theorem mem_insertRegion : x ∈ insertRegion rs r ↔ x = r.stored ∨ x ∈ rs := by
  conv_rhs => rw [← List.take_append_drop (insertAt rs r) rs]
  simp only [insertRegion, List.mem_append, List.mem_cons]
  tauto

theorem RegionsOk.insert (h : RegionsOk rs) (hr : 0 < r.size) (hb : r.stop < wordSize)
    (hf : Fits rs r) : RegionsOk (insertRegion rs r) := by
  obtain ⟨hl, hd⟩ := (h.fits_iff hr).mp hf
  refine ⟨?_, fun x hx => ?_, fun x hx => ?_⟩
  · have hs := h.sorted
    rw [← List.take_append_drop (insertAt rs r) rs, List.pairwise_append] at hs
    refine List.pairwise_append.mpr ⟨hs.1, List.pairwise_cons.mpr ⟨hd, hs.2.1⟩, fun x hx y hy => ?_⟩
    rcases List.mem_cons.mp hy with rfl | hy
    · exact hl x hx
    · exact hs.2.2 x hx y hy
  · rcases mem_insertRegion.mp hx with rfl | hx
    · exact hr
    · exact h.nonempty x hx
  · rcases mem_insertRegion.mp hx with rfl | hx
    · exact hb
    · exact h.below x hx

/-- What `VmmAddRegion` leaves when it accepts the region. -/
def Mem.withRegion (m : Mem) (sp : SpaceId) (a : AddressSpace) (r : Region) : Mem :=
  match r.backing with
  | none => m.setAs sp (some { a with regions := insertRegion a.regions r })
  | some o => memObjRef (m.setAs sp (some { a with regions := insertRegion a.regions r })) o

/-- `VmmAddRegion` accepts a region that is not empty and overlaps none when the vector
has room, and changes nothing otherwise. -/
theorem vmmAddRegion_spec (ok : Bool) (has : m.as sp = some a) (h : RegionsOk a.regions)
    (hr : r.stop < wordSize) :
    vmmAddRegion m sp r ok = (m.withRegion sp a r, true) ∧ 0 < r.size ∧ Fits a.regions r ∧
      ok = true ∨
    vmmAddRegion m sp r ok = (m, false) ∧ ¬(0 < r.size ∧ Fits a.regions r ∧ ok = true) := by
  simp only [vmmAddRegion, has]
  by_cases h0 : r.size = 0
  · rw [if_pos h0]
    exact .inr ⟨rfl, by omega⟩
  have hpos : 0 < r.size := Nat.pos_of_ne_zero h0
  have hfit := h.fits_iff (r := r) hpos
  have hleft := h.left_iff r
  have hright := h.right_iff hr
  rw [if_neg h0]
  split
  · next hl =>
    obtain ⟨x, hx, hgt⟩ := hleft.mp hl
    refine .inr ⟨rfl, fun hc => ?_⟩
    have := (hfit.mp hc.2.1).1 x hx
    omega
  · next hl =>
    split
    · next hd =>
      obtain ⟨x, hx, hgt⟩ := hright.mp hd
      refine .inr ⟨rfl, fun hc => ?_⟩
      have := (hfit.mp hc.2.1).2 x hx
      omega
    · next hd =>
      have hF : Fits a.regions r := hfit.mpr ⟨fun x hx => Nat.not_lt.mp fun hgt =>
        hl (hleft.mpr ⟨x, hx, hgt⟩), fun x hx => Nat.not_lt.mp fun hgt =>
        hd (hright.mpr ⟨x, hx, hgt⟩)⟩
      cases ok with
      | false => exact .inr ⟨rfl, by simp⟩
      | true =>
        refine .inl ⟨?_, hpos, hF, rfl⟩
        unfold Mem.withRegion
        cases r.backing <;> rfl

/-! ## Removing -/

section Unref
variable {α : Type} {f : Mem → α} (hfree : ∀ m pa, f (pmmFreeFrame m pa) = f m)
include hfree

theorem memObjFreePages_keeps (m : Mem) (o : MemId) : f (memObjFreePages m o) = f m := by
  unfold memObjFreePages
  generalize List.range (m.objs o).pageCount = is
  induction is generalizing m with
  | nil => rfl
  | cons i is ih =>
    rw [List.foldl_cons]
    split
    · exact (ih _).trans (hfree m _)
    · exact ih m

/-- Dropping a reference changes reference counts and frames only. -/
theorem memObjUnref_keeps (hobj : ∀ (m : Mem) o (c : MemObj → Nat) (b : MemObj → Bool),
    f (m.modObj o fun x => { x with refCount := c x, freed := b x }) = f m) :
    ∀ {n : Nat} {m m' : Mem} {o : MemId}, memObjUnref n m o = some m' → f m' = f m := by
  intro n
  induction n with
  | zero => exact nofun
  | succ n ih =>
    intro m m' o h
    have hfold : ∀ (ds : List DmaMapping) (m m' : Mem),
        ds.foldlM (fun m d => memObjUnref n m d.mem) m = some m' → f m' = f m := by
      intro ds
      induction ds with
      | nil =>
        intro m m' h
        cases h
        rfl
      | cons d ds ihd =>
        intro m m' h
        obtain ⟨m₁, h1, h2⟩ := Option.bind_eq_some_iff.mp h
        exact (ihd m₁ m' h2).trans (ih h1)
    have hdec := hobj m o (fun x => x.refCount - 1) MemObj.freed
    simp only [memObjUnref] at h
    split at h
    · cases h
      exact hdec
    · obtain ⟨m₂, h2, rfl⟩ := Option.map_eq_some_iff.mp h
      refine (hobj m₂ o MemObj.refCount fun _ => true).trans ((hfold _ _ _ h2).trans ?_)
      split
      · exact (memObjFreePages_keeps hfree _ o).trans hdec
      · exact hdec

end Unref

theorem memObjUnref_as {n : Nat} {o : MemId} (h : memObjUnref n m o = some m') : m'.as = m.as :=
  memObjUnref_keeps (f := Mem.as) (fun _ _ => rfl) (fun _ _ _ _ => rfl) h

theorem memObjUnrefOpt_as {n : Nat} {o : Option MemId} (h : memObjUnrefOpt n m o = some m') :
    m'.as = m.as := by
  cases o with
  | none =>
    cases h
    rfl
  | some o => exact memObjUnref_as h

theorem vmmUnmapRange_regions (a : AddressSpace) (va size : Nat) :
    (vmmUnmapRange a va size).regions = a.regions := by
  unfold vmmUnmapRange
  split
  · rfl
  · split <;> rfl

/-- `VmmRemoveRegion` takes one region out, or does nothing. -/
theorem vmmRemoveRegion_regions {n : Nat} {b : Bool}
    (h : vmmRemoveRegion n m sp va size = some (m', b)) :
    m' = m ∨ ∃ a i, m.as sp = some a ∧ b = true ∧ ∃ pages tables,
      m'.as = update m.as sp (some ⟨a.regions.eraseIdx i, pages, tables⟩) := by
  unfold vmmRemoveRegion at h
  split at h
  · cases h
    exact .inl rfl
  · rename_i a has
    split at h
    · cases h
      exact .inl rfl
    split at h
    · cases h
      exact .inl rfl
    split at h
    · cases h
      exact .inl rfl
    split at h
    · cases h
      exact .inl rfl
    · rename_i i _ _ r _ _
      obtain ⟨m₁, h1, h2⟩ := Option.map_eq_some_iff.mp h
      cases h2
      refine .inr ⟨a, i, has, rfl, (vmmUnmapRange a va size).pages,
        (vmmUnmapRange a va size).tables, ?_⟩
      rw [memObjUnrefOpt_as h1]
      simp only [Mem.setAs, vmmUnmapRange_regions]

/-! ## Gaps -/

/-- The `size` bytes at `x` are page aligned, inside `[lo, hi)` and in no region. -/
structure Gap (rs : List Region) (lo hi size x : Nat) : Prop where
  aligned : x % pageSize = 0
  above : lo ≤ x
  below : x + size ≤ hi
  free : ∀ r ∈ rs, r.stop ≤ x ∨ x + size ≤ r.vaddrStart

/-- `x` is the lowest gap, or there is none and `x = 0`. -/
def LowestGap (rs : List Region) (lo hi size x : Nat) : Prop :=
  (Gap rs lo hi size x ∧ ∀ y, Gap rs lo hi size y → x ≤ y) ∨ (x = 0 ∧ ∀ y, ¬Gap rs lo hi size y)

theorem LowestGap.congr {rs' : List Region} {lo' x : Nat}
    (h : ∀ y, Gap rs lo hi size y ↔ Gap rs' lo' hi size y) (hx : LowestGap rs' lo' hi size x) :
    LowestGap rs lo hi size x := by
  unfold LowestGap
  simp only [h]
  exact hx

/-- Without regions in the way the candidate itself is the lowest gap, or too high. -/
theorem lowestGap_rest (hc : cand % pageSize = 0) (hs : 0 < size)
    (hrs : ∀ r ∈ rs, hi ≤ r.vaddrStart) :
    LowestGap rs cand hi size (if hi - cand ≥ size then cand else 0) := by
  split
  · exact .inl ⟨⟨hc, Nat.le_refl _, by omega, fun r hr => .inr (by have := hrs r hr; omega)⟩,
      fun y hy => hy.above⟩
  · refine .inr ⟨rfl, fun y hy => ?_⟩
    have := hy.above
    have := hy.below
    omega

/-- Rounding a region's end up to a page, away from the top of memory. -/
theorem roundEnd_spec (h : r.stop < wordSize - pageSize) :
    ∃ e, alignUp ((r.vaddrStart + r.size) % wordSize) pageSize = e ∧ e % pageSize = 0 ∧
      r.stop ≤ e ∧ e < r.stop + pageSize := by
  refine ⟨_, rfl, ?_⟩
  unfold alignUp Region.stop pageSize wordSize at *
  omega

theorem findFreeVaFrom_spec (hs : 0 < size) : ∀ {rs : List Region} {cand : Nat}, RegionsOk rs →
    (∀ r ∈ rs, r.stop < wordSize - pageSize) → cand % pageSize = 0 →
    LowestGap rs cand hi size (findFreeVaFrom hi size cand rs) := by
  intro rs
  induction rs with
  | nil => exact fun _ _ hc => lowestGap_rest hc hs (by simp)
  | cons r rs ih =>
    intro cand hok hend hc
    obtain ⟨e, he, he0, he1, he2⟩ := roundEnd_spec (hend r (by simp))
    have hsort := List.pairwise_cons.mp hok.sorted
    have hne := hok.nonempty r (by simp)
    have ih := fun c hc => @ih c hok.tail (fun x hx => hend x (by simp [hx])) hc
    simp only [findFreeVaFrom, he]
    have hstop : r.vaddrStart < r.stop := Nat.lt_add_of_pos_right hne
    -- no aligned address lies between a region's end and the page boundary behind it
    have hround : ∀ y, y % pageSize = 0 → r.stop ≤ y → e ≤ y := by
      intro y hy hle
      unfold pageSize at *
      omega
    split
    · next hle =>
      refine (ih cand hc).congr fun y => ⟨fun hy => ⟨hy.aligned, hy.above, hy.below,
        fun x hx => hy.free x (by simp [hx])⟩, fun hy => ⟨hy.aligned, hy.above, hy.below,
        fun x hx => ?_⟩⟩
      rcases List.mem_cons.mp hx with rfl | hx
      · have := hy.above
        exact .inl (by omega)
      · exact hy.free x hx
    · split
      · next hhi =>
        refine lowestGap_rest hc hs fun x hx => ?_
        rcases List.mem_cons.mp hx with rfl | hx
        · exact hhi
        · have := hsort.1 x hx
          omega
      · split
        · next hfit =>
          refine .inl ⟨⟨hc, Nat.le_refl _, by omega, fun x hx => .inr ?_⟩, fun y hy => hy.above⟩
          rcases List.mem_cons.mp hx with rfl | hx
          · omega
          · have := hsort.1 x hx
            omega
        · next hnofit =>
          -- a gap at or above the candidate lies behind this region
          have hbehind : ∀ y, Gap (r :: rs) cand hi size y → e ≤ y := by
            intro y hy
            refine hround y hy.aligned ((hy.free r (by simp)).resolve_right fun hle => ?_)
            have := hy.above
            omega
          split
          · next hbig =>
            refine .inr ⟨rfl, fun y hy => ?_⟩
            have := hbehind y hy
            have := hy.below
            omega
          · next hle _ _ =>
            refine (ih e he0).congr fun y => ⟨fun hy => ⟨hy.aligned, hbehind y hy, hy.below,
              fun x hx => hy.free x (by simp [hx])⟩, fun hy => ⟨hy.aligned, ?_, hy.below,
              fun x hx => ?_⟩⟩
            · have := hy.above
              omega
            · rcases List.mem_cons.mp hx with rfl | hx
              · have := hy.above
                exact .inl (by omega)
              · exact hy.free x hx

/-- `VmmFindFreeVa` returns the lowest gap, or 0 when there is none. -/
theorem vmmFindFreeVa_spec (hok : RegionsOk a.regions)
    (hend : ∀ r ∈ a.regions, r.stop < wordSize - pageSize) (hlo : lo % pageSize = 0)
    (hs : 0 < size) : LowestGap a.regions lo hi size (vmmFindFreeVa a lo hi size) := by
  unfold vmmFindFreeVa
  split
  · refine .inr ⟨rfl, fun y hy => ?_⟩
    have := hy.above
    have := hy.below
    omega
  · exact findFreeVaFrom_spec hs hok hend hlo

/-! ## Whole runs -/

/-- A change of the region vectors. -/
inductive RegionOp
  | add (sp : SpaceId) (r : Region) (ok : Bool)
  | remove (fuel : Nat) (sp : SpaceId) (va size : Nat)

/-- The end of a region that is added. -/
def RegionOp.EndsBelow (limit : Nat) : RegionOp → Prop
  | .add _ r _ => r.stop < limit
  | .remove .. => True

instance (limit : Nat) : (o : RegionOp) → Decidable (o.EndsBelow limit)
  | .add _ r _ => inferInstanceAs (Decidable (r.stop < limit))
  | .remove .. => inferInstanceAs (Decidable True)

/-- Adds and removes on empty region vectors. Regions end at `2^32` at most. -/
def regionSystem : LTS Mem RegionOp where
  init m := ∀ sp, regionsOf m sp = []
  step m o m' := o.EndsBelow (wordSize + 1) ∧
    match o with
    | .add sp r ok => m' = (vmmAddRegion m sp r ok).1
    | .remove n sp va size => ∃ b, vmmRemoveRegion n m sp va size = some (m', b)

/-- The runs in which no region ends at `2^32`. -/
def regionSystemBelow : LTS Mem RegionOp :=
  regionSystem.restrict (fun _ => True) fun _ o => o.EndsBelow wordSize

theorem regionsOf_eq (h : m.as sp = some a) : regionsOf m sp = a.regions := by
  simp [regionsOf, h]

theorem withRegion_as (m : Mem) (sp : SpaceId) (a : AddressSpace) (r : Region) :
    (m.withRegion sp a r).as =
      update m.as sp (some { a with regions := insertRegion a.regions r }) := by
  unfold Mem.withRegion
  cases r.backing <;> rfl

theorem vmmAddRegion_ok {ok : Bool} (h : ∀ sp, RegionsOk (regionsOf m sp))
    (hr : r.stop < wordSize) (sp' : SpaceId) :
    RegionsOk (regionsOf (vmmAddRegion m sp r ok).1 sp') := by
  cases has : m.as sp with
  | none =>
    have : (vmmAddRegion m sp r ok).1 = m := by simp [vmmAddRegion, has]
    rw [this]
    exact h sp'
  | some a =>
    have hok := h sp
    rw [regionsOf_eq has] at hok
    rcases vmmAddRegion_spec ok has hok hr with ⟨he, h0, hf, -⟩ | ⟨he, -⟩
    · rw [he]
      simp only [regionsOf, withRegion_as]
      by_cases hsp : sp' = sp
      · subst hsp
        rw [update_self]
        exact hok.insert h0 hr hf
      · rw [update_of_ne hsp]
        exact h sp'
    · rw [he]
      exact h sp'

theorem vmmRemoveRegion_ok {n : Nat} {b : Bool} (h : ∀ sp, RegionsOk (regionsOf m sp))
    (hr : vmmRemoveRegion n m sp va size = some (m', b)) (sp' : SpaceId) :
    RegionsOk (regionsOf m' sp') := by
  rcases vmmRemoveRegion_regions hr with rfl | ⟨a, i, has, -, pages, tables, he⟩
  · exact h sp'
  · simp only [regionsOf, he]
    by_cases hsp : sp' = sp
    · subst hsp
      rw [update_self]
      have hok := h sp'
      rw [regionsOf_eq has] at hok
      exact hok.sublist (List.eraseIdx_sublist _ _)
    · rw [update_of_ne hsp]
      exact h sp'

theorem regionSystemBelow_inv :
    regionSystemBelow.Inductive fun m => ∀ sp, RegionsOk (regionsOf m sp) := by
  refine ⟨fun {m} hi sp => ?_, fun {m o m'} h hstep sp' => ?_⟩
  · rw [hi.1 sp]
    exact RegionsOk.nil
  · obtain ⟨⟨-, hstep⟩, hend⟩ := hstep
    cases o with
    | add sp r ok =>
      cases hstep
      exact vmmAddRegion_ok h hend sp'
    | remove n sp va size =>
      obtain ⟨b, hr⟩ := hstep
      exact vmmRemoveRegion_ok h hr sp'

/-- After any adds and removes of regions that end below `2^32` the vector is strictly
sorted and its regions are apart. `VmmAddRegion` accepts exactly the non-empty regions
that overlap none, if the vector has room, and otherwise changes nothing;
`VmmFindRegion` finds the region around an address; `VmmFindFreeVa` finds the lowest
gap, where 0 stands for none and so cannot stand for a gap at address 0. -/
theorem regions_sound (hm : regionSystemBelow.Reachable m) (has : m.as sp = some a) :
    a.regions.Pairwise (fun x y => x.vaddrStart < y.vaddrStart ∧ x.stop ≤ y.vaddrStart) ∧
    (∀ r ok, r.stop < wordSize →
      ((vmmAddRegion m sp r ok).2 = true ↔ 0 < r.size ∧ Fits a.regions r ∧ ok = true) ∧
      ((vmmAddRegion m sp r ok).2 = false → (vmmAddRegion m sp r ok).1 = m)) ∧
    (∀ va r, vmmFindRegion a va = some r ↔ r ∈ a.regions ∧ r.Contains va) ∧
    (∀ va, vmmFindRegion a va = none ↔ ∀ r ∈ a.regions, ¬r.Contains va) ∧
    ((∀ r ∈ a.regions, r.stop < wordSize - pageSize) → ∀ lo hi size, lo % pageSize = 0 →
      hi % pageSize = 0 → size % pageSize = 0 → 0 < size →
      LowestGap a.regions lo hi size (vmmFindFreeVa a lo hi size) ∧
      (0 < lo → (vmmFindFreeVa a lo hi size = 0 ↔ ∀ x, ¬Gap a.regions lo hi size x))) := by
  have hok : RegionsOk a.regions := regionsOf_eq has ▸ regionSystemBelow_inv.reachable hm sp
  refine ⟨hok.strict.imp₂ (fun _ _ h1 h2 => ⟨h1, h2⟩) hok.sorted, fun r ok hr => ?_,
    fun va r => vmmFindRegion_eq_some hok, fun va => vmmFindRegion_eq_none hok,
    fun hend lo hi size hlo _ _ hs => ?_⟩
  · rcases vmmAddRegion_spec ok has hok hr with ⟨he, h⟩ | ⟨he, h⟩
    · exact ⟨⟨fun _ => h, fun _ => congrArg Prod.snd he⟩, fun hf => absurd hf (by simp [he])⟩
    · exact ⟨⟨fun ht => absurd ht (by simp [he]), fun hc => absurd hc h⟩,
        fun _ => congrArg Prod.fst he⟩
  · have hgap : LowestGap a.regions lo hi size (vmmFindFreeVa a lo hi size) :=
      vmmFindFreeVa_spec hok hend hlo hs
    refine ⟨hgap, fun hpos => ?_⟩
    rcases hgap with ⟨hg, -⟩ | ⟨h0, hno⟩
    · have := hg.above
      exact ⟨fun e => by omega, fun hno => absurd hg (hno _)⟩
    · exact ⟨fun _ => hno, fun _ => h0⟩

/-- A space with an empty region vector. -/
def bareMem : Mem where
  objs _ := MemObj.zero
  as _ := some ⟨[], fun _ => none, fun _ => none⟩
  frames _ := false
  newObj := 0

/-- An anonymous region without attributes. -/
def plainRegion (start size : Nat) : Region :=
  ⟨start, size, protRead, protRead, .normal, .anon, false, false, none, 0⟩

/-- Two regions with a page between them: the gap is found. -/
theorem regions_sound_two : ∃ m a, regionSystemBelow.Reachable m ∧ m.as 0 = some a ∧
    a.regions = [plainRegion 0x1000 0x1000, plainRegion 0x3000 0x1000] ∧
    LowestGap a.regions 0x1000 0x8000 0x1000 (vmmFindFreeVa a 0x1000 0x8000 0x1000) := by
  have h0 : regionSystemBelow.Reachable bareMem := LTS.Reachable.init ⟨fun _ => rfl, trivial⟩
  have h1 := h0.step (l := .add 0 (plainRegion 0x3000 0x1000) true)
    ⟨⟨by decide, rfl⟩, by decide⟩
  have h2 := h1.step (l := .add 0 (plainRegion 0x1000 0x1000) true)
    ⟨⟨by decide, rfl⟩, by decide⟩
  refine ⟨_, _, h2, rfl, rfl, ?_⟩
  exact ((regions_sound h2 (show Mem.as _ 0 = some _ from rfl)).2.2.2.2 (by decide) _ _ _
    (by decide) (by decide) (by decide) (by decide)).1

/-- The last page of the address space is a region, and a second region that ends
there as well is accepted on top of it. -/
theorem regions_overlap_at_top : ∃ m a x y, regionSystem.Reachable m ∧ m.as 0 = some a ∧
    a.regions = [x, y] ∧ x.Contains y.vaddrStart := by
  have h0 : regionSystem.Reachable bareMem := LTS.Reachable.init fun _ => rfl
  have h1 := h0.step (l := .add 0 (plainRegion 0xFFFFF000 0x1000) true) ⟨by decide, rfl⟩
  have h2 := h1.step (l := .add 0 (plainRegion 0xFFFFE000 0x2000) true) ⟨by decide, rfl⟩
  exact ⟨_, _, _, _, h2, rfl, rfl, by decide⟩

end Zuzu.L3
