import Zuzu.L3Kernel.Kernel

/-!
# Space identifiers (`kernel/space/space.c:22-61` and `173-180`)

`SpidAlloc` probes the table of spaces from the slot of a counter that runs from 1 to
`INT32_MAX` and then starts again at 1. Where it starts again it goes from slot
511 to slot 1, so a lap that wraps around leaves out slot 0.

**Results.** `spidAlloc_spec`: what a call does, slot by slot. `space_ids_sound_iff`: in every run
of creations and destructions, identifiers are positive, new and found again, and a failed
call means a full table exactly if `SpidRoom` holds. `space_id_refused`: a run after
which `SpidAlloc` fails with a free slot.
-/
namespace Zuzu.L3
open Function Zuzu.Core

inductive SpaceOp
  | create (parent : Option SpaceId) (ok : Bool)
  | destroy (sp : SpaceId)
  | other

/-- Creations and destructions of spaces. `SpaceDestroy` enters here with what it does to
the table (kernel/space/space.c:231-233); `other` is anything that touches neither the table
nor an identifier. -/
def spaceIds : LTS Sys SpaceOp where
  init s := (∀ i, s.spaceTable i = none) ∧ s.nextSpid = 1
  step s op s' :=
    match op with
    | .create parent ok => s' = (spaceCreate s parent ok).1
    | .destroy sp => sp < s.newSpace ∧ s' = spaceUnlist s sp
    | .other => s'.spaceTable = s.spaceTable ∧ s'.nextSpid = s.nextSpid ∧
        s'.newSpace = s.newSpace ∧ ∀ sp < s.newSpace, (s'.spaces sp).spid = (s.spaces sp).spid

/-- The lap does not wrap around, or slot 0 is not the only free one. -/
def SpidRoom (s : Sys) : Prop :=
  s.nextSpid ≤ 2 ^ 31 - maxSpaces ∨ s.spaceTable 0 ≠ none ∨
    ∃ i, 0 < i ∧ i < maxSpaces ∧ s.spaceTable i = none

variable {s s' : Sys} {table : Nat → Option SpaceId} {start n : Nat}

/-! ## The probe -/

theorem spidAdvance_of_lt (h : n + 1 < 2 ^ 31) : spidAdvance n = n + 1 := by
  have hmod : (n + 1) % wordSize = n + 1 := Nat.mod_eq_of_lt (h.trans (by decide))
  unfold spidAdvance
  rw [hmod]
  exact if_neg (by omega)

theorem spidAdvance_last (h : n + 1 = 2 ^ 31) : spidAdvance n = 1 := by
  unfold spidAdvance
  rw [h]
  decide

theorem spidAdvance_range (h : n < 2 ^ 31) : 1 ≤ spidAdvance n ∧ spidAdvance n < 2 ^ 31 := by
  by_cases hn : n + 1 < 2 ^ 31
  · rw [spidAdvance_of_lt hn]
    omega
  · rw [spidAdvance_last (by omega)]
    omega

/-- The probe ends at the first free slot of the `d + 1` from `n` on, or they are taken and it
ends where `rest` says. -/
def Probed (table : Nat → Option SpaceId) (n d probe rest : Nat) : Prop :=
  (∃ j ≤ d, table ((n + j) % maxSpaces) = none ∧ probe = n + j) ∨
    (∀ j ≤ d, table ((n + j) % maxSpaces) ≠ none) ∧ probe = rest

/-- The probe over `d` slots, none of them the starting slot: it ends at a free one, or goes on
behind the last one. -/
theorem spidScan_over (table : Nat → Option SpaceId) (start : Nat) :
    ∀ d fuel n : Nat, d < fuel → n + d < 2 ^ 31 →
    (∀ j, 0 < j → j ≤ d → (n + j) % maxSpaces ≠ start) →
    Probed table n d (spidScan table start fuel n)
      (if spidAdvance (n + d) % maxSpaces = start then spidAdvance (n + d)
        else spidScan table start (fuel - (d + 1)) (spidAdvance (n + d))) := by
  intro d
  induction d with
  | zero =>
    intro fuel n hfuel hlt hne
    obtain ⟨fuel, rfl⟩ : ∃ f, fuel = f + 1 := ⟨fuel - 1, by omega⟩
    rw [spidScan]
    split
    · rename_i hfree
      exact Or.inl ⟨0, le_refl 0, hfree, rfl⟩
    · rename_i htaken
      refine Or.inr ⟨fun j hj => ?_, rfl⟩
      obtain rfl : j = 0 := by omega
      exact htaken
  | succ d ih =>
    intro fuel n hfuel hlt hne
    obtain ⟨fuel, rfl⟩ : ∃ f, fuel = f + 1 := ⟨fuel - 1, by omega⟩
    rw [spidScan]
    split
    · rename_i hfree
      exact Or.inl ⟨0, Nat.zero_le _, hfree, rfl⟩
    · rename_i htaken
      rw [spidAdvance_of_lt (by omega), if_neg (hne 1 (by omega) (by omega))]
      have hshift : ∀ j, n + 1 + j = n + (j + 1) := by omega
      have := ih fuel (n + 1) (by omega) (by omega) (fun j h0 hj => by
        rw [hshift]
        exact hne (j + 1) (by omega) (by omega))
      simp only [Probed, hshift] at this
      rcases this with ⟨j, hj, hfree, hscan⟩ | ⟨hocc, hscan⟩
      · exact Or.inl ⟨j + 1, by omega, hfree, hscan⟩
      · refine Or.inr ⟨fun j hj => ?_, ?_⟩
        · cases j with
          | zero => exact htaken
          | succ j => exact hocc j (by omega)
        · rw [hscan, show fuel + 1 - (d + 1 + 1) = fuel - (d + 1) by omega]

theorem spidScan_lap (table : Nat → Option SpaceId) (start d fuel n : Nat) (hf : d < fuel)
    (hlt : n + d + 1 < 2 ^ 31) (hend : (n + d + 1) % maxSpaces = start)
    (hne : ∀ j, 0 < j → j ≤ d → (n + j) % maxSpaces ≠ start) :
    Probed table n d (spidScan table start fuel n) (n + d + 1) := by
  have := spidScan_over table start d fuel n hf (by omega) hne
  rwa [spidAdvance_of_lt hlt, if_pos hend] at this

/-- The probe over the `d + 1` slots up to the end of the counter's range. -/
theorem spidScan_wrap (table : Nat → Option SpaceId) (start d fuel n : Nat) (hf : d < fuel)
    (hend : n + d + 1 = 2 ^ 31) (hne : ∀ j, 0 < j → j ≤ d → (n + j) % maxSpaces ≠ start) :
    Probed table n d (spidScan table start fuel n)
      (if 1 = start then 1 else spidScan table start (fuel - (d + 1)) 1) := by
  have := spidScan_over table start d fuel n hf (by omega) hne
  rwa [spidAdvance_last hend] at this

theorem exists_add_mod (n : Nat) {i : Nat} (hi : i < maxSpaces) :
    ∃ k < maxSpaces, (n + k) % maxSpaces = i := by
  have hm : maxSpaces = 512 := rfl
  rw [hm] at hi
  refine ⟨(i + (512 - n % 512)) % 512, ?_, ?_⟩ <;> rw [hm] <;> omega

/-- Where the probe ends: at a free slot, or at its start with all slots taken that it has
seen. A lap that wraps around does not see slot 0. -/
theorem spidScan_spec (table : Nat → Option SpaceId) (h1 : 1 ≤ n) (h2 : n < 2 ^ 31) :
    ∃ m, spidScan table (n % maxSpaces) (2 * maxSpaces) n = m ∧ 1 ≤ m ∧ m < 2 ^ 31 ∧
      (2 ^ 31 - maxSpaces < n → m % maxSpaces ≠ 0) ∧
      (table (m % maxSpaces) ≠ none →
        ∀ i < maxSpaces, (n ≤ 2 ^ 31 - maxSpaces ∨ i ≠ 0) → table i ≠ none) := by
  have hm : maxSpaces = 512 := rfl
  rcases Nat.lt_trichotomy n (2 ^ 31 - maxSpaces) with hn | hn | hn
  · -- a plain lap
    rcases spidScan_lap table _ 511 (2 * maxSpaces) n (by omega) (by omega)
        (Nat.add_mod_right n maxSpaces) (fun j h0 hj => by rw [hm] at *; omega) with
      ⟨j, hj, hfree, hscan⟩ | ⟨hocc, hscan⟩
    · exact ⟨n + j, hscan, by omega, by omega, by omega, fun h => absurd hfree h⟩
    · refine ⟨n + maxSpaces, hscan, by omega, by omega, by omega, fun _ i hi _ => ?_⟩
      obtain ⟨k, hk, rfl⟩ := exists_add_mod n hi
      exact hocc k (Nat.le_of_lt_succ hk)
  · -- from slot 0 to the end, then once more from slot 1 to slot 0
    have hstart : n % maxSpaces = 0 := by rw [hn, hm]; rfl
    rw [hstart]
    rcases spidScan_wrap table 0 511 (2 * maxSpaces) n (by omega) (by omega)
        (fun j h0 hj => by rw [hm] at *; omega) with
      ⟨j, hj, hfree, hscan⟩ | ⟨hocc, hscan⟩
    · exact ⟨n + j, hscan, by omega, by omega, by omega, fun h => absurd hfree h⟩
    · have hall : ∀ i < maxSpaces, table i ≠ none := by
        intro i hi
        obtain ⟨k, hk, rfl⟩ := exists_add_mod n hi
        exact hocc k (Nat.le_of_lt_succ hk)
      rcases spidScan_lap table 0 510 maxSpaces 1 (by omega) (by omega) rfl
          (fun j h0 hj => by rw [hm]; omega) with
        ⟨j, hj, hfree, -⟩ | ⟨-, hscan'⟩
      · exact absurd hfree (hall _ (Nat.mod_lt _ (by decide)))
      · refine ⟨512, ?_, by omega, by omega, by omega, fun _ i hi _ => hall i hi⟩
        rw [hscan, if_neg (by decide)]
        exact hscan'
  · -- to the end, then on from slot 1 to the start: slot 0 is left out
    obtain ⟨k, hk⟩ : ∃ k, n = 2 ^ 31 - maxSpaces + k := ⟨n - (2 ^ 31 - maxSpaces), by omega⟩
    have hstart : n % maxSpaces = k := by rw [hm] at *; omega
    rw [hstart]
    rcases spidScan_wrap table k (511 - k) (2 * maxSpaces) n (by omega) (by omega)
        (fun j h0 hj => by rw [hm] at *; omega) with
      ⟨j, hj, hfree, hscan⟩ | ⟨hocc, hscan⟩
    · exact ⟨n + j, hscan, by omega, by omega, by rw [hm] at *; omega, fun h => absurd hfree h⟩
    · have hhigh : ∀ i < maxSpaces, k ≤ i → table i ≠ none := by
        intro i hi hki
        have := hocc (i - k) (by omega)
        rwa [show (n + (i - k)) % maxSpaces = i by rw [hm] at *; omega] at this
      by_cases hk1 : 1 = k
      · refine ⟨1, by rw [hscan, if_pos hk1], by omega, by omega, by rw [hm]; omega,
          fun _ i hi hor => ?_⟩
        exact hhigh i hi (by omega)
      · rw [if_neg hk1] at hscan
        rcases spidScan_lap table k (k - 2) (2 * maxSpaces - (511 - k + 1)) 1
            (by omega) (by omega) (by rw [hm]; omega)
            (fun j h0 hj => by rw [hm]; omega) with
          ⟨j, hj, hfree, hscan'⟩ | ⟨hocc', hscan'⟩
        · exact ⟨1 + j, hscan.trans hscan', by omega, by omega, by rw [hm]; omega,
            fun h => absurd hfree h⟩
        · refine ⟨1 + (k - 2) + 1, hscan.trans hscan', by omega, by omega, by rw [hm]; omega,
            fun _ i hi hor => ?_⟩
          by_cases hik : k ≤ i
          · exact hhigh i hi hik
          · have := hocc' (i - 1) (by omega)
            rwa [show (1 + (i - 1)) % maxSpaces = i by rw [hm]; omega] at this

def took (s : Sys) (m : Nat) (sp : SpaceId) : Sys :=
  { s with
    nextSpid := spidAdvance m
    spaceTable := update s.spaceTable (m % maxSpaces) (some sp) }

theorem spidAlloc_spec (h1 : 1 ≤ s.nextSpid) (h2 : s.nextSpid < 2 ^ 31) (sp : SpaceId) :
    (∃ m, 1 ≤ m ∧ m < 2 ^ 31 ∧ s.spaceTable (m % maxSpaces) = none ∧
      (2 ^ 31 - maxSpaces < s.nextSpid → m % maxSpaces ≠ 0) ∧
      spidAlloc s sp = (took s m sp, some (m : Int))) ∨
    ∃ m, 1 ≤ m ∧ m < 2 ^ 31 ∧ spidAlloc s sp = ({ s with nextSpid := m }, none) ∧
      ∀ i < maxSpaces, (s.nextSpid ≤ 2 ^ 31 - maxSpaces ∨ i ≠ 0) → s.spaceTable i ≠ none := by
  obtain ⟨m, hscan, hm1, hm2, hslot, hfull⟩ := spidScan_spec s.spaceTable h1 h2
  unfold spidAlloc
  rw [hscan]
  by_cases hfree : s.spaceTable (m % maxSpaces) = none
  · exact Or.inl ⟨m, hm1, hm2, hfree, hslot, if_neg (not_not.mpr hfree)⟩
  · exact Or.inr ⟨m, hm1, hm2, if_pos hfree, hfull hfree⟩

/-! ## Runs -/

/-- Each entry of the table is a space whose identifier leads to it. -/
structure SpidInv (s : Sys) : Prop where
  next : 1 ≤ s.nextSpid ∧ s.nextSpid < 2 ^ 31
  entry : ∀ i sp, s.spaceTable i = some sp → sp < s.newSpace ∧ 0 < (s.spaces sp).spid ∧
    i = ((s.spaces sp).spid % maxSpaces).toNat

theorem SpidInv.mono (h : SpidInv s) (hnext : 1 ≤ s'.nextSpid ∧ s'.nextSpid < 2 ^ 31)
    (htable : ∀ i sp, s'.spaceTable i = some sp → s.spaceTable i = some sp)
    (hnew : s.newSpace ≤ s'.newSpace)
    (hspid : ∀ sp < s.newSpace, (s'.spaces sp).spid = (s.spaces sp).spid) : SpidInv s' := by
  refine ⟨hnext, fun i sp hi => ?_⟩
  obtain ⟨hlt, hsp⟩ := h.entry i sp (htable i sp hi)
  rw [hspid sp hlt]
  exact ⟨hlt.trans_le hnew, hsp⟩

theorem SpidInv.unlist (h : SpidInv s) (sp : SpaceId) : SpidInv (spaceUnlist s sp) := by
  unfold spaceUnlist
  dsimp only
  split
  · refine h.mono h.next (fun i u hu => ?_) (Nat.le_refl _) fun _ _ => rfl
    simp only [update_apply] at hu
    split at hu
    · cases hu
    · exact hu
  · exact h

theorem SpidInv.create (h : SpidInv s) (parent : Option SpaceId) (ok : Bool) :
    SpidInv (spaceCreate s parent ok).1 := by
  cases ok with
  | false => exact h
  | true =>
    rcases spidAlloc_spec h.next.1 h.next.2 s.newSpace with
      ⟨m, hm1, hm2, hfree, -, halloc⟩ | ⟨m, hm1, hm2, halloc, -⟩
    · simp only [spaceCreate, not_true, if_false, halloc]
      refine ⟨spidAdvance_range hm2, fun i sp hi => ?_⟩
      replace hi : update s.spaceTable (m % maxSpaces) (some s.newSpace) i = some sp := hi
      rw [update_apply] at hi
      split at hi
      · cases hi
        rename_i hi
        refine ⟨Nat.lt_succ_self _, ?_, ?_⟩ <;> rw [Sys.modSpace_spaces, update_self]
        · exact Int.natCast_pos.mpr hm1
        · rw [hi]
          rfl
      · obtain ⟨hlt, hsp⟩ := h.entry i sp hi
        refine ⟨Nat.lt_succ_of_lt hlt, ?_⟩
        rw [Sys.modSpace_spaces, update_of_ne hlt.ne]
        exact hsp
    · simp only [spaceCreate, not_true, if_false, halloc]
      exact h.mono ⟨hm1, hm2⟩ (fun _ _ hi => hi) (Nat.le_refl _) fun _ _ => rfl

theorem spaceIds_inv : spaceIds.Inductive SpidInv where
  init h := ⟨by rw [h.2]; decide, fun i sp hi => by
    rw [h.1 i] at hi
    cases hi⟩
  step {s op s'} h hs := by
    cases op with
    | create parent ok =>
      obtain rfl : s' = _ := hs
      exact h.create parent ok
    | destroy sp =>
      obtain ⟨-, rfl⟩ : _ ∧ s' = _ := hs
      exact h.unlist sp
    | other =>
      obtain ⟨htable, hnext, hnew, hspid⟩ := hs
      exact h.mono (hnext ▸ h.next) (fun i u hu => by rwa [htable] at hu) hnew.ge hspid

/-- Where no lap can leave out the only free slot, a call that fails has seen them all; and
where it can, this one does. -/
theorem spidAlloc_full_iff (h : SpidInv s) (sp : SpaceId) :
    ((spidAlloc s sp).2 = none → ∀ i < maxSpaces, s.spaceTable i ≠ none) ↔ SpidRoom s := by
  rcases spidAlloc_spec h.next.1 h.next.2 sp with
    ⟨m, -, -, hfree, hslot, halloc⟩ | ⟨m, -, -, halloc, hfull⟩
  · rw [halloc]
    refine ⟨fun _ => ?_, fun _ he => by cases he⟩
    by_cases hn : s.nextSpid ≤ 2 ^ 31 - maxSpaces
    · exact Or.inl hn
    · exact Or.inr (Or.inr ⟨m % maxSpaces, Nat.pos_of_ne_zero (hslot (by omega)),
        Nat.mod_lt _ (by decide), hfree⟩)
  · rw [halloc]
    refine ⟨fun hall => Or.inr (Or.inl (hall rfl 0 (by decide))), fun hroom _ i hi => ?_⟩
    rcases hroom with hn | h0 | ⟨j, hj0, hj, hfree⟩
    · exact hfull i hi (Or.inl hn)
    · by_cases hi0 : i = 0
      · rw [hi0]
        exact h0
      · exact hfull i hi (Or.inr hi0)
    · exact absurd hfree (hfull j hj (Or.inr hj0.ne'))

/-- In every run, `SpidAlloc` returns a positive identifier that no live space has and enters
the space at its slot, every live space is found by its identifier, and the call fails only
with a full table, if and only if the lap cannot leave out the only free slot. -/
theorem space_ids_sound_iff (h : spaceIds.Reachable s) (sp : SpaceId) :
    ((∀ id, (spidAlloc s sp).2 = some id → 0 < id ∧
        (∀ i u, s.spaceTable i = some u → (s.spaces u).spid ≠ id) ∧
        (id % maxSpaces).toNat < maxSpaces ∧ s.spaceTable (id % maxSpaces).toNat = none ∧
        (spidAlloc s sp).1.spaceTable =
          Function.update s.spaceTable (id % maxSpaces).toNat (some sp)) ∧
      (∀ i u, s.spaceTable i = some u → i < maxSpaces ∧
        spaceFindBySpid s (s.spaces u).spid = some u) ∧
      ((spidAlloc s sp).2 = none → ∀ i < maxSpaces, s.spaceTable i ≠ none)) ↔ SpidRoom s := by
  have hinv := spaceIds_inv.reachable h
  rw [← spidAlloc_full_iff hinv sp]
  refine ⟨fun hall => hall.2.2, fun hfull => ⟨fun id hid => ?_, fun i u hu => ?_, hfull⟩⟩
  · rcases spidAlloc_spec hinv.next.1 hinv.next.2 sp with
      ⟨m, hm1, -, hfree, -, halloc⟩ | ⟨m, -, -, halloc, -⟩
    · rw [halloc] at hid ⊢
      cases hid
      have hslot : ((m : Int) % maxSpaces).toNat = m % maxSpaces := rfl
      rw [hslot]
      refine ⟨Int.natCast_pos.mpr hm1, fun i u hu he => ?_, Nat.mod_lt _ (by decide), hfree, rfl⟩
      obtain ⟨-, -, rfl⟩ := hinv.entry i u hu
      rw [he, hslot, hfree] at hu
      cases hu
    · rw [halloc] at hid
      cases hid
  · obtain ⟨-, -, hi⟩ := hinv.entry i u hu
    refine ⟨?_, ?_⟩
    · have := Int.emod_lt_of_pos (s.spaces u).spid (show (0 : Int) < maxSpaces by decide)
      have hpos : 0 < maxSpaces := by decide
      omega
    · have hslot : s.spaceTable ((s.spaces u).spid.emod maxSpaces).toNat = some u := hi ▸ hu
      unfold spaceFindBySpid
      rw [hslot]
      exact if_pos rfl

def twoSpaces : Sys := (spaceCreate (spaceCreate Sys.empty none true).1 none true).1

/-- With spaces 1 and 2 live, the next identifier is 3: neither of them has it, and both are
found by theirs. -/
theorem space_ids_sound_two : spaceIds.Reachable twoSpaces ∧
    twoSpaces.spaceTable 1 = some 0 ∧ twoSpaces.spaceTable 2 = some 1 ∧
    (spidAlloc twoSpaces 2).2 = some 3 ∧
    (∀ i u, twoSpaces.spaceTable i = some u → (twoSpaces.spaces u).spid ≠ 3) ∧
    spaceFindBySpid twoSpaces 1 = some 0 ∧ spaceFindBySpid twoSpaces 2 = some 1 := by
  have h0 : spaceIds.Reachable Sys.empty := .init ⟨fun _ => rfl, rfl⟩
  have h1 : spaceIds.Reachable (spaceCreate Sys.empty none true).1 :=
    h0.step (l := .create none true) rfl
  have h2 : spaceIds.Reachable twoSpaces := h1.step (l := .create none true) rfl
  have hroom : SpidRoom twoSpaces := Or.inl (by decide +kernel)
  have hid : (spidAlloc twoSpaces 2).2 = some 3 := by decide +kernel
  obtain ⟨hnew, hlive, -⟩ := (space_ids_sound_iff h2 2).mpr hroom
  exact ⟨h2, by decide +kernel, by decide +kernel, hid, (hnew 3 hid).2.1,
    (hlive 1 0 (by decide +kernel)).2, (hlive 2 1 (by decide +kernel)).2⟩

/-! ## The lap that leaves out slot 0 -/

theorem create_step (h : spaceIds.Reachable s) {m : Nat}
    (halloc : spidAlloc s s.newSpace = (took s m s.newSpace, some (m : Int))) :
    ∃ u, spaceIds.Reachable u ∧ u.nextSpid = spidAdvance m ∧ s.newSpace < u.newSpace ∧
      (u.spaces s.newSpace).spid = m ∧
      u.spaceTable = update s.spaceTable (m % maxSpaces) (some s.newSpace) := by
  obtain ⟨u, hu⟩ : ∃ u, u = (spaceCreate s none true).1 := ⟨_, rfl⟩
  refine ⟨u, h.step (l := .create none true) hu, ?_⟩
  simp only [spaceCreate, not_true, if_false, halloc] at hu
  subst hu
  refine ⟨rfl, Nat.lt_succ_self _, ?_, rfl⟩
  rw [Sys.modSpace_spaces, update_self]

/-- A creation in a free slot and the destruction of the new space: only the counter moves. -/
theorem create_destroy (h : spaceIds.Reachable s) {m : Nat}
    (hfree : s.spaceTable (m % maxSpaces) = none)
    (halloc : spidAlloc s s.newSpace = (took s m s.newSpace, some (m : Int))) :
    ∃ u, spaceIds.Reachable u ∧ u.nextSpid = spidAdvance m ∧ u.spaceTable = s.spaceTable := by
  obtain ⟨u, hu, hnext, hnew, hspid, htable⟩ := create_step h halloc
  have hslot : ((u.spaces s.newSpace).spid.emod maxSpaces).toNat = m % maxSpaces := by
    rw [hspid]
    rfl
  refine ⟨spaceUnlist u s.newSpace, hu.step (l := .destroy s.newSpace) ⟨hnew, rfl⟩, ?_, ?_⟩
  · unfold spaceUnlist
    dsimp only
    split <;> exact hnext
  · unfold spaceUnlist
    dsimp only
    rw [hslot, htable, update_self, if_pos rfl]
    show update (update s.spaceTable _ _) _ none = _
    rw [update_idem, ← hfree, update_eq_self]

theorem spidAlloc_here (h : s.spaceTable (s.nextSpid % maxSpaces) = none) (sp : SpaceId) :
    spidAlloc s sp = (took s s.nextSpid sp, some (s.nextSpid : Int)) := by
  have hscan : ∀ start, spidScan s.spaceTable start (2 * maxSpaces) s.nextSpid = s.nextSpid := by
    intro start
    show spidScan s.spaceTable start (1023 + 1) s.nextSpid = _
    rw [spidScan, if_pos h]
  unfold spidAlloc
  rw [hscan]
  exact if_neg (not_not.mpr h)

/-- Spaces come and go one after the other: the table stays empty, and the counter moves on. -/
theorem spin (n : Nat) : n + 1 < 2 ^ 31 → ∃ s, spaceIds.Reachable s ∧ s.nextSpid = n + 1 ∧
    ∀ i, s.spaceTable i = none := by
  induction n with
  | zero => exact fun _ => ⟨Sys.empty, .init ⟨fun _ => rfl, rfl⟩, rfl, fun _ => rfl⟩
  | succ n ih =>
    intro hn
    obtain ⟨s, hs, hnext, htable⟩ := ih (by omega)
    obtain ⟨u, hu, hnext', htable'⟩ := create_destroy hs (htable _) (spidAlloc_here (htable _) _)
    refine ⟨u, hu, ?_, htable' ▸ htable⟩
    rw [hnext', hnext, spidAdvance_of_lt (by omega)]

/-- From a multiple of 512 on, the next spaces take the slots from 1 on. -/
theorem fill {c : Nat} (hc : 512 * c + 513 < 2 ^ 31) (k : Nat) : k < maxSpaces →
    ∃ s, spaceIds.Reachable s ∧ s.nextSpid = 512 * c + (k + 1) ∧
      ∀ i, s.spaceTable i ≠ none ↔ 1 ≤ i ∧ i ≤ k := by
  have hm : maxSpaces = 512 := rfl
  induction k with
  | zero =>
    intro _
    obtain ⟨s, hs, hnext, htable⟩ := spin (512 * c) (by omega)
    refine ⟨s, hs, hnext, fun i => ?_⟩
    simp only [htable i, ne_eq, not_true, false_iff]
    omega
  | succ k ih =>
    intro hk
    obtain ⟨s, hs, hnext, htable⟩ := ih (by omega)
    have hslot : s.nextSpid % maxSpaces = k + 1 := by
      rw [hnext, hm]
      omega
    have hfree : s.spaceTable (s.nextSpid % maxSpaces) = none := by
      rw [hslot]
      by_contra hne
      have := (htable (k + 1)).mp hne
      omega
    obtain ⟨u, hu, hnext', -, -, htable'⟩ := create_step hs (spidAlloc_here hfree _)
    refine ⟨u, hu, ?_, fun i => ?_⟩
    · rw [hnext', hnext, spidAdvance_of_lt (by omega)]
      rfl
    · rw [htable', hslot, update_apply]
      have := htable i
      split
      · simp
        omega
      · rw [this]
        omega

/-- All slots but slot 0 are taken, and the counter is just behind the last multiple of 512. -/
theorem last_lap : ∃ s, spaceIds.Reachable s ∧ s.nextSpid = 2 ^ 31 - 511 ∧
    ∀ i < maxSpaces, s.spaceTable i = none ↔ i = 0 := by
  obtain ⟨s, hs, hnext, htable⟩ := fill (c := 2 ^ 22 - 2) (by decide) 511 (by decide)
  have hfree : s.spaceTable (s.nextSpid % maxSpaces) = none := by
    rw [hnext]
    exact not_not.mp fun hne => by
      have := (htable _).mp hne
      revert this
      decide
  obtain ⟨u, hu, hnext', htable'⟩ := create_destroy hs hfree (spidAlloc_here hfree _)
  refine ⟨u, hu, ?_, fun i hi => ?_⟩
  · rw [hnext', hnext]
    rfl
  · rw [htable', ← not_iff_not, ← ne_eq, htable i]
    unfold maxSpaces at hi
    omega

/-- `SpidAlloc` fails although slot 0 is free. -/
theorem space_id_refused : ∃ s, spaceIds.Reachable s ∧ (spidAlloc s s.newSpace).2 = none ∧
    s.spaceTable 0 = none := by
  obtain ⟨s, hs, hnext, htable⟩ := last_lap
  have hroom : ¬SpidRoom s := by
    rintro (hn | h0 | ⟨i, hi0, hi, hfree⟩)
    · rw [hnext] at hn
      revert hn
      decide
    · exact h0 ((htable 0 (by decide)).mpr rfl)
    · exact hi0.ne' ((htable i hi).mp hfree)
  rw [← spidAlloc_full_iff (spaceIds_inv.reachable hs) s.newSpace] at hroom
  exact ⟨s, hs, (Classical.not_imp.mp hroom).1, (htable 0 (by decide)).mpr rfl⟩

end Zuzu.L3
