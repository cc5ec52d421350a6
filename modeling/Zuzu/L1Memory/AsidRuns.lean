import Mathlib.Data.Finset.Card
import Zuzu.Core.LTS
import Zuzu.L1Memory.Asid

/-!
# Address spaces and their ASIDs

The address spaces of the kernel, each with the ASID token it holds, over the
allocator of `Asid`: creation and destruction
(kernel/mm/vmm/vmm_region.c:134-201), activation (kernel/mm/vmm/vmm_map.c:77-93
with arch/arm/mmu/mmu.c:400-432) and the bootstrap of the kernel's own space
(kernel/mm/vmm/vmm_boot.c:26-52). Between those the CPU may cache translations
of the running space under the loaded ASID, and drop cached ones; while a
switch is under way the context register holds 0 and anything may be cached
under ASID 0.

A creation that runs out of ASIDs starts a new generation while the caller
keeps running on its own, now old, token. Its ASID is kept out of the new
generation (`active_asid`), so this is harmless; the token is replaced by the
next switch to that space.

The 32-bit generation counter comes round after `2^32` rollovers. `Recent`
excludes that a token is kept that long.

**Results.** `asids_sound`: in every state of a run from boot whose steps start
in `Recent` states, no two live spaces with current tokens share an ASID, the
ASID of the running space is not handed out, a switch loads a current token,
and the TLB holds nothing of another space under an ASID that is claimed, held
or loaded.
-/
namespace Zuzu.L1.Asid
open Function Zuzu.Core
variable {s s' : State} {a : Asids} {i t : Nat} {as : AddressSpace} {type : AddressSpaceType}

/-- mirrors kernel/mm/vmm/vmm.h:86-91, without the page tables and the regions.
`epoch` is the epoch the token was handed out in, 0 for the zero token. -/
structure AddressSpace where
  type : AddressSpaceType
  asidToken : AsidToken
  epoch : Nat
  deriving DecidableEq, Repr

/-- The live address spaces, numbered in the order of their creation; 0 is
`g_kernel_as`, `current` is `g_current_addrspace`. -/
structure State where
  asids : Asids
  spaces : Nat → Option AddressSpace
  created : Nat
  current : Nat

/-- mirrors arch/arm/mmu/mmu.c:400-432 -/
def archMmuSwitch (t : Nat) (as : AddressSpace) (s : State) : State :=
  if as.asidToken.generation ≠ s.asids.generation then
    let r := asidAlloc (asidFree as.asidToken s.asids)
    { s with
      asids := asidSetActive r.1.asid r.2
      spaces := Function.update s.spaces t
        (some { as with asidToken := r.1, epoch := r.2.epoch }) }
  else { s with asids := asidSetActive as.asidToken.asid s.asids }

/-- mirrors kernel/mm/vmm/vmm_map.c:77-93, with the MMU on -/
def vmmActivateAddressSpace (t : Nat) (s : State) : Option State :=
  (s.spaces t).map fun as =>
    if t = s.current then s else { archMmuSwitch t as s with current := t }

/-- Flush the ASID of a token and give it back, unless it is the zero token
(kernel/mm/vmm/vmm_region.c:162-165, 184-196). -/
def dropToken (token : AsidToken) (s : Asids) : Asids :=
  if token.asid ≠ 0 then asidFree token (archMmuFlushTlbAsid token.asid s) else s

/-- mirrors kernel/mm/vmm/vmm_region.c:134-173: `mem` says whether the record and the
page tables can be allocated, `vec` whether the region vector can -/
def addressSpaceCreate (type : AddressSpaceType) (mem vec : Bool) (s : State) : State :=
  if mem = false then s
  else
    let r := if type = .user then asidAlloc s.asids else (⟨0, 0⟩, s.asids)
    let epoch := if type = .user then r.2.epoch else 0
    if type = .user ∧ r.1.asid = 0 then { s with asids := r.2 }
    else if vec = false then { s with asids := dropToken r.1 r.2 }
    else
      { s with
        asids := r.2
        spaces := Function.update s.spaces s.created (some ⟨type, r.1, epoch⟩)
        created := s.created + 1 }

/-- mirrors kernel/mm/vmm/vmm_region.c:175-201: destroying the active space panics -/
def addressSpaceDestroy (t : Nat) (s : State) : Option State :=
  (s.spaces t).bind fun as =>
    if t = s.current then none
    else some { s with
      asids := dropToken as.asidToken s.asids
      spaces := Function.update s.spaces t none }

def kernelSpace : AddressSpace := ⟨.kernel, ⟨0, 0⟩, 0⟩

/-- mirrors kernel/mm/vmm/vmm_boot.c:26-52: the first switch takes an ASID for the kernel
space, whose token is then set to zero -/
def vmmBootstrap : State :=
  let spaces := Function.update (fun _ => none) 0 (some kernelSpace)
  { archMmuSwitch 0 kernelSpace ⟨.reset, spaces, 1, 0⟩ with spaces }

inductive Op
  /-- A user space is created (the only kind kernel/space/space.c:78 asks for); the flags
  are those of `addressSpaceCreate`. -/
  | create (mem vec : Bool)
  | destroy (t : Nat)
  | activate (t : Nat)
  | cache (page : Nat)
  /-- Within a switch: a translation is cached under ASID 0. -/
  | cacheZero (t page : Nat)
  | evict (keep : TlbEntry → Bool)

def State.withTlb (s : State) (tlb : List TlbEntry) : State :=
  { s with asids := { s.asids with tlb } }

def step (s : State) : Op → Option State
  | .create mem vec => some (addressSpaceCreate .user mem vec s)
  | .destroy t => addressSpaceDestroy t s
  | .activate t => vmmActivateAddressSpace t s
  | .cache page => some (s.withTlb (⟨s.asids.activeAsid, s.current, page⟩ :: s.asids.tlb))
  | .cacheZero t page =>
    if (s.spaces t).isSome then some (s.withTlb (⟨0, t, page⟩ :: s.asids.tlb)) else none
  | .evict keep => some (s.withTlb (s.asids.tlb.filter keep))

def system : LTS State Op := .ofFun (· = vmmBootstrap) step

/-- No live token is `2^32 - 1` or more rollovers old. -/
def Recent (s : State) : Prop :=
  ∀ t as, s.spaces t = some as → s.asids.epoch + 1 < as.epoch + wordSize

/-- The runs in which the generation counter never comes round to a token still held. -/
def recentSystem : LTS State Op := system.restrict (fun _ => True) fun s _ => Recent s

/-! ## The invariant -/

/-- Space `t` holds ASID `a` in the current generation. -/
def Holds (s : State) (t a : Nat) : Prop :=
  ∃ as, s.spaces t = some as ∧ as.epoch = s.asids.epoch ∧ as.asidToken.asid = a

structure Inv (s : State) : Prop where
  generation : s.asids.generation = s.asids.epoch % wordSize
  next : s.asids.nextAsid < asidCount
  loaded : 0 < s.asids.activeAsid ∧ s.asids.bitmap.testBit s.asids.activeAsid = true
  token : ∀ t as, s.spaces t = some as → as.asidToken.generation = as.epoch % wordSize ∧
    as.epoch ≤ s.asids.epoch ∧ s.asids.epoch < as.epoch + wordSize
  held : ∀ t a, Holds s t a → 0 < a ∧ s.asids.bitmap.testBit a = true
  inj : ∀ t u a, Holds s t a → Holds s u a → t = u
  running : ∀ t a, Holds s t a → (a = s.asids.activeAsid ↔ t = s.current)
  cached : ∀ e ∈ s.asids.tlb, e.asid = 0 ∨ s.asids.bitmap.testBit e.asid = true ∧
    (e.asid = s.asids.activeAsid → e.owner = s.current) ∧ ∀ t, Holds s t e.asid → e.owner = t

structure Numbered (s : State) : Prop where
  below : ∀ t as, s.spaces t = some as → t < s.created
  current : (s.spaces s.current).isSome

/-- Within an invariant state, a token carries the current generation exactly when it was
handed out in the current epoch. -/
theorem Inv.generation_eq_iff (h : Inv s)
    (ht : s.spaces t = some as) :
    as.asidToken.generation = s.asids.generation ↔ as.epoch = s.asids.epoch := by
  obtain ⟨hg, hle, hlt⟩ := h.token t as ht
  rw [hg, h.generation]
  unfold wordSize at *
  omega

theorem Inv.withTlb (h : Inv s) {tlb : List TlbEntry}
    (hsub : ∀ e ∈ tlb, e ∈ s.asids.tlb ∨ e.asid = 0 ∨
      (e.asid = s.asids.activeAsid ∧ e.owner = s.current)) : Inv (s.withTlb tlb) := by
  refine ⟨h.generation, h.next, h.loaded, h.token, h.held, h.inj, h.running, fun e he => ?_⟩
  rcases hsub e he with hm | h0 | ⟨ha, ho⟩
  · exact h.cached e hm
  · exact .inl h0
  · refine .inr ⟨ha ▸ h.loaded.2, fun _ => ho, fun t ht => ?_⟩
    have : t = s.current := (h.running t _ ht).mp ha
    exact ho.trans this.symm

/-! ## Handing out and taking back an ASID -/

def State.give (s : State) (t : Nat) (type : AddressSpaceType) (i : Nat) (a : Asids) : State :=
  { s with
    asids := a
    spaces := Function.update s.spaces t (some ⟨type, ⟨i, a.generation⟩, a.epoch⟩) }

theorem Alloc.epoch_cases {s : Asids} (h : Alloc s i a) :
    a.activeAsid = s.activeAsid ∧
      (a.epoch = s.epoch ∧ a.generation = s.generation ∨
        a.epoch = s.epoch + 1 ∧ a.generation = (s.generation + 1) % wordSize) := by
  cases h with
  | current hc => exact ⟨hc.activeAsid, .inl ⟨hc.epoch, hc.generation⟩⟩
  | rollover hr hc _ =>
    exact ⟨hc.activeAsid.trans hr.activeAsid,
      .inr ⟨hc.epoch.trans hr.epoch, hc.generation.trans hr.generation⟩⟩

theorem Alloc.next_lt {s : Asids} (h : Alloc s i a) : a.nextAsid < asidCount := by
  cases h with
  | current hc => exact hc.next ▸ Nat.mod_lt _ (by decide)
  | rollover _ hc _ => exact hc.next ▸ Nat.mod_lt _ (by decide)

theorem Alloc.generation_mod {s : Asids} (h : Alloc s i a)
    (hg : s.generation = s.epoch % wordSize) : a.generation = a.epoch % wordSize := by
  rcases h.epoch_cases.2 with ⟨h1, h2⟩ | ⟨h1, h2⟩
  · rw [h2, h1, hg]
  · rw [h2, h1, hg, Nat.mod_add_mod]

/-- After an allocation the new holder holds the new ASID; whoever else holds one held it
before, in the same generation. -/
theorem holds_give (h : Inv s)
    (ha : Alloc s.asids i a) {u b : Nat} (hu : Holds (s.give t type i a) u b) :
    u = t ∧ b = i ∨ u ≠ t ∧ Holds s u b ∧ Claimed s.asids i a := by
  obtain ⟨as, hs, he, hb⟩ := hu
  by_cases hut : u = t
  · subst hut
    simp only [State.give, update_self, Option.some.injEq] at hs
    subst hs
    exact .inl ⟨rfl, hb.symm⟩
  · simp only [State.give, update_of_ne hut] at hs
    have hle := (h.token u as hs).2.1
    cases ha with
    | current hc => exact .inr ⟨hut, ⟨as, hs, he.trans hc.epoch, hb⟩, hc⟩
    | rollover hr hc _ =>
      have : as.epoch = s.asids.epoch + 1 := he.trans (hc.epoch.trans hr.epoch)
      omega

theorem Alloc.ne_active {s : Asids} (h : Alloc s i a) (h0 : 0 < i)
    (hact : s.bitmap.testBit s.activeAsid = true) : i ≠ s.activeAsid := by
  rintro rfl
  cases h with
  | current hc => simp [hc.clear] at hact
  | rollover hr hc _ =>
    have := hc.clear
    rw [(hr.bitmap _).mpr (.inr rfl)] at this
    cases this

theorem Inv.alloc_uncached (h : Inv s) (h0 : 0 < i)
    (ha : Alloc s.asids i a) : ∀ e ∈ a.tlb, e.asid ≠ i := by
  rintro e he rfl
  cases ha with
  | current hc =>
    rcases h.cached e (hc.tlb he) with hz | ⟨hb, -, -⟩
    · omega
    · simp [hc.clear] at hb
  | rollover hr hc _ =>
    have := hc.tlb he
    simp [hr.tlb] at this

theorem Inv.give (h : Inv s) (hrec : Recent s) (ht : t ≠ s.current) (h0 : 0 < i) (hlt : i < asidCount)
    (ha : Alloc s.asids i a) : Inv (s.give t type i a) := by
  obtain ⟨hact, hep⟩ := ha.epoch_cases
  have hne := ha.ne_active h0 h.loaded.2
  have hgen := ha.generation_mod h.generation
  have hbit : a.bitmap.testBit i = true ∧ a.bitmap.testBit s.asids.activeAsid = true := by
    cases ha with
    | current hc => exact ⟨by simp [hc.bitmap], by simp [hc.bitmap, h.loaded.2]⟩
    | rollover hr hc _ => exact ⟨by simp [hc.bitmap], by simp [hc.bitmap, (hr.bitmap _).mpr]⟩
  have hfresh : ∀ u, Holds s u i → ¬Claimed s.asids i a := fun u hu hc => by
    have := (h.held u i hu).2
    simp [hc.clear] at this
  refine ⟨hgen, ha.next_lt, ⟨hact ▸ h.loaded.1, hact ▸ hbit.2⟩, fun u as hu => ?_, fun u b hu => ?_,
    fun u v b hu hv => ?_, fun u b hu => ?_, fun e he => ?_⟩
  · by_cases hut : u = t
    · subst hut
      simp only [State.give, update_self, Option.some.injEq] at hu
      subst hu
      exact ⟨hgen, le_rfl, Nat.lt_add_of_pos_right (by decide)⟩
    · simp only [State.give, update_of_ne hut] at hu
      obtain ⟨h1, h2, -⟩ := h.token u as hu
      have := hrec u as hu
      refine ⟨h1, ?_, ?_⟩ <;> simp only [State.give] <;> omega
  · rcases holds_give h ha hu with ⟨-, rfl⟩ | ⟨-, hu', hc⟩
    · exact ⟨h0, hbit.1⟩
    · exact ⟨(h.held u b hu').1, by simp [State.give, hc.bitmap, (h.held u b hu').2]⟩
  · rcases holds_give h ha hu with ⟨rfl, rfl⟩ | ⟨-, hu', hc⟩
    · rcases holds_give h ha hv with ⟨rfl, -⟩ | ⟨-, hv', hc⟩
      · rfl
      · exact absurd hc (hfresh v hv')
    · rcases holds_give h ha hv with ⟨rfl, rfl⟩ | ⟨-, hv', -⟩
      · exact absurd hc (hfresh u hu')
      · exact h.inj u v b hu' hv'
  · rcases holds_give h ha hu with ⟨rfl, rfl⟩ | ⟨-, hu', -⟩
    · exact ⟨fun e => absurd (e.trans hact) hne, fun e => absurd e ht⟩
    · exact hact ▸ h.running u b hu'
  · have hun := h.alloc_uncached h0 ha e he
    cases ha with
    | rollover hr hc _ =>
      have := hc.tlb he
      simp [hr.tlb] at this
    | current hc =>
      rcases h.cached e (hc.tlb he) with hz | ⟨hb, hown, hhold⟩
      · exact .inl hz
      · refine .inr ⟨by simp [State.give, hc.bitmap, hb], fun e => hown (e.trans hact),
          fun u hu => ?_⟩
        rcases holds_give h (.current hc) hu with ⟨-, hb'⟩ | ⟨-, hu', -⟩
        · exact absurd hb' hun
        · exact hhold u hu'

def State.load (s : State) (t a : Nat) : State :=
  { s with asids := asidSetActive a s.asids, current := t }

theorem Inv.load (h : Inv s) {a : Nat} (ht : Holds s t a) : Inv (s.load t a) := by
  obtain ⟨h0, hbit⟩ := h.held t a ht
  refine ⟨h.generation, h.next, ⟨h0, hbit⟩, h.token, h.held, h.inj, fun u b hu => ?_,
    fun e he => ?_⟩
  · constructor
    · rintro rfl
      exact h.inj u t _ hu ht
    · rintro rfl
      obtain ⟨as, hs, -, rfl⟩ := hu
      obtain ⟨as', hs', -, rfl⟩ := ht
      rw [Option.some.inj (hs.symm.trans hs')]
      rfl
  · rcases h.cached e he with hz | ⟨hb, -, hhold⟩
    · exact .inl hz
    · exact .inr ⟨hb, fun (e' : e.asid = a) => hhold t (e' ▸ ht), hhold⟩

theorem dropToken_spec (token : AsidToken) (s : Asids) :
    (dropToken token s).generation = s.generation ∧ (dropToken token s).epoch = s.epoch ∧
    (dropToken token s).nextAsid = s.nextAsid ∧ (dropToken token s).activeAsid = s.activeAsid ∧
    (dropToken token s).tlb ⊆ s.tlb ∧
    ∀ a, (dropToken token s).bitmap.testBit a = s.bitmap.testBit a ∨
      a = token.asid ∧ token.generation = s.generation ∧
        ∀ e ∈ (dropToken token s).tlb, e.asid ≠ token.asid := by
  unfold dropToken asidFree archMmuFlushTlbAsid
  by_cases h0 : token.asid = 0
  · simp [h0]
  · by_cases hg : token.generation = s.generation
    · simp only [ne_eq, h0, not_false_eq_true, if_true, if_false, hg, not_true_eq_false,
        true_and]
      refine ⟨List.filter_sublist.subset, fun a => ?_⟩
      rw [Bitmap.testBit_clearBit _ _ _ (by decide)]
      by_cases ha : a = token.asid
      · exact .inr ⟨ha, by simp⟩
      · exact .inl (by simp [ha])
    · simp only [ne_eq, h0, not_false_eq_true, if_true, if_false, hg, true_and]
      exact ⟨List.filter_sublist.subset, fun a => .inl trivial⟩

def State.drop (s : State) (t : Nat) (token : AsidToken) : State :=
  { s with asids := dropToken token s.asids, spaces := Function.update s.spaces t none }

theorem Inv.drop (h : Inv s)
    (ht : s.spaces t = some as) (hne : t ≠ s.current) : Inv (s.drop t as.asidToken) := by
  obtain ⟨hgen, hep, hnext, hact, htlb, hbit⟩ := dropToken_spec as.asidToken s.asids
  have hcur := h.generation_eq_iff ht
  have hspaces : ∀ {u bs}, (s.drop t as.asidToken).spaces u = some bs →
      u ≠ t ∧ s.spaces u = some bs := by
    intro u bs hu
    by_cases hut : u = t
    · subst hut
      simp [State.drop] at hu
    · exact ⟨hut, by simpa only [State.drop, update_of_ne hut] using hu⟩
  have hholds : ∀ {u b}, Holds (s.drop t as.asidToken) u b → u ≠ t ∧ Holds s u b := by
    rintro u b ⟨bs, hu, he, hb⟩
    obtain ⟨hut, hu'⟩ := hspaces hu
    exact ⟨hut, bs, hu', he.trans hep, hb⟩
  have hmine : as.asidToken.generation = s.asids.generation → Holds s t as.asidToken.asid :=
    fun hg => ⟨as, ht, hcur.mp hg, rfl⟩
  refine ⟨?_, hnext ▸ h.next, ⟨hact ▸ h.loaded.1, ?_⟩, fun u bs hu => ?_, fun u b hu => ?_,
    fun u v b hu hv => h.inj u v b (hholds hu).2 (hholds hv).2,
    fun u b hu => hact ▸ h.running u b (hholds hu).2, fun e he => ?_⟩
  · exact hgen.trans (h.generation.trans (by rw [← hep]; rfl))
  · rcases hbit s.asids.activeAsid with hb | ⟨ha, hg, -⟩
    · simp only [State.drop, hact, hb, h.loaded.2]
    · exact absurd ((h.running t _ (hmine hg)).mp ha.symm) hne
  · have := h.token u bs (hspaces hu).2
    simpa only [State.drop, hep] using this
  · obtain ⟨hut, hu'⟩ := hholds hu
    refine ⟨(h.held u b hu').1, ?_⟩
    rcases hbit b with hb | ⟨rfl, hg, -⟩
    · simp only [State.drop, hb, (h.held u b hu').2]
    · exact absurd (h.inj u t _ hu' (hmine hg)) hut
  · rcases h.cached e (htlb he) with hz | ⟨hb, hown, hhold⟩
    · exact .inl hz
    · refine .inr ⟨?_, fun e' => hown (e'.trans hact), fun u hu => hhold u (hholds hu).2⟩
      rcases hbit e.asid with hb' | ⟨ha, -, hun⟩
      · simp only [State.drop, hb', hb]
      · exact absurd ha (hun e he)

/-! ## Steps and runs -/

theorem asidFree_of_ne {token : AsidToken} {s : Asids} (h : token.generation ≠ s.generation) :
    asidFree token s = s := by
  unfold asidFree
  split
  · rfl
  · rfl

/-- What an activation does: nothing, the switch alone, or a new token and the switch. -/
theorem vmmActivateAddressSpace_cases (h : Inv s)
    (hs : vmmActivateAddressSpace t s = some s') :
    (t = s.current ∧ s' = s) ∨ t ≠ s.current ∧ ∃ as, s.spaces t = some as ∧
      (as.asidToken.generation = s.asids.generation ∧ s' = s.load t as.asidToken.asid ∨
        as.asidToken.generation ≠ s.asids.generation ∧ ∃ i a, 0 < i ∧ i < asidCount ∧
          Alloc s.asids i a ∧ s' = (s.give t as.type i a).load t i) := by
  obtain ⟨as, has, rfl⟩ := Option.map_eq_some_iff.mp hs
  split
  · rename_i hcur
    exact .inl ⟨hcur, rfl⟩
  · rename_i hcur
    refine .inr ⟨hcur, as, has, ?_⟩
    unfold archMmuSwitch
    split
    · rename_i hg
      obtain ⟨i, h0, hlt, ha, htok⟩ := asidAlloc_spec h.next
      refine .inr ⟨hg, i, _, h0, hlt, ha, ?_⟩
      simp only [asidFree_of_ne hg, htok]
      rfl
    · rename_i hg
      exact .inl ⟨not_not.mp hg, rfl⟩

theorem Numbered.update_created (h : Numbered s) :
    update s.spaces s.created none = s.spaces := by
  refine update_eq_self_iff.mpr ?_
  cases hc : s.spaces s.created with
  | none => rfl
  | some as => exact absurd (h.below _ as hc) (lt_irrefl _)

theorem Numbered.created_ne (h : Numbered s) : s.created ≠ s.current := by
  intro e
  obtain ⟨as, has⟩ := Option.isSome_iff_exists.mp h.current
  have := h.below _ as has
  omega

/-- What a creation does: nothing, hand out an ASID and take it back, or a new space. -/
theorem addressSpaceCreate_cases (h : Inv s) (hn : Numbered s) (mem vec : Bool) :
    addressSpaceCreate .user mem vec s = s ∨
      ∃ i a, 0 < i ∧ i < asidCount ∧ Alloc s.asids i a ∧
        (addressSpaceCreate .user mem vec s =
            (s.give s.created .user i a).drop s.created ⟨i, a.generation⟩ ∨
          addressSpaceCreate .user mem vec s =
            { s.give s.created .user i a with created := s.created + 1 }) := by
  unfold addressSpaceCreate
  split
  · exact .inl rfl
  · obtain ⟨i, h0, hlt, ha, htok⟩ := asidAlloc_spec h.next
    refine .inr ⟨i, _, h0, hlt, ha, ?_⟩
    simp only [if_true, htok, Nat.ne_of_gt h0, and_false, if_false]
    split
    · refine .inl ?_
      simp only [State.drop, State.give, update_idem, hn.update_created]
    · exact .inr rfl

theorem addressSpaceCreate_user (hnext : s.asids.nextAsid < asidCount) :
    ∃ i a, 0 < i ∧ i < asidCount ∧ Alloc s.asids i a ∧
      addressSpaceCreate .user true true s =
        { s.give s.created .user i a with created := s.created + 1 } := by
  obtain ⟨i, h0, hlt, ha, htok⟩ := asidAlloc_spec hnext
  refine ⟨i, _, h0, hlt, ha, ?_⟩
  simp [addressSpaceCreate, htok, Nat.ne_of_gt h0, State.give]

theorem Inv.renumber (h : Inv s) (n : Nat) : Inv { s with created := n } :=
  ⟨h.generation, h.next, h.loaded, h.token, h.held, h.inj, h.running, h.cached⟩

theorem holds_give_self :
    Holds (s.give t type i a) t i :=
  ⟨_, update_self _ _ _, rfl, rfl⟩

theorem Numbered.step {op : Op} (h : Inv s) (hn : Numbered s)
    (hs : step s op = some s') : Numbered s' := by
  have hupd : ∀ {t : Nat} {v : Option AddressSpace}, (v.isSome → t < s.created) →
      ∀ u as, update s.spaces t v u = some as → u < s.created := by
    intro t v hv u as hu
    by_cases hut : u = t
    · subst hut
      rw [update_self] at hu
      exact hv (by simp [hu])
    · rw [update_of_ne hut] at hu
      exact hn.below u as hu
  have hcur : ∀ {t : Nat} {v : Option AddressSpace}, t ≠ s.current →
      (update s.spaces t v s.current).isSome := fun ht => by
    rw [update_of_ne (Ne.symm ht)]
    exact hn.current
  cases op with
  | create mem vec =>
    cases hs
    have hne : s.created ≠ s.current := hn.created_ne
    rcases addressSpaceCreate_cases h hn mem vec with he | ⟨i, a, -, -, -, he | he⟩
    · rw [he]
      exact hn
    · rw [he]
      refine ⟨?_, ?_⟩ <;>
        simp only [State.drop, State.give, update_idem, hn.update_created]
      · exact hn.below
      · exact hn.current
    · rw [he]
      refine ⟨fun u as hu => ?_, hcur hne⟩
      by_cases hut : u = s.created
      · exact hut ▸ Nat.lt_succ_self _
      · simp only [State.give, update_of_ne hut] at hu
        exact Nat.lt_succ_of_lt (hn.below u as hu)
  | destroy t =>
    obtain ⟨as, has, hs⟩ := Option.bind_eq_some_iff.mp hs
    split at hs
    · cases hs
    · rename_i hne
      cases hs
      exact ⟨hupd (by simp), hcur hne⟩
  | activate t =>
    rcases vmmActivateAddressSpace_cases h hs with ⟨-, rfl⟩ | ⟨hne, as, has, hcase⟩
    · exact hn
    · rcases hcase with ⟨-, rfl⟩ | ⟨-, i, a, -, -, -, rfl⟩
      · exact ⟨hn.below, by simp [State.load, has]⟩
      · exact ⟨hupd fun _ => hn.below t as has, by simp [State.load, State.give]⟩
  | cache page =>
    cases hs
    exact ⟨hn.below, hn.current⟩
  | cacheZero t page =>
    simp only [Asid.step] at hs
    split at hs
    · cases hs
      exact ⟨hn.below, hn.current⟩
    · cases hs
  | evict keep =>
    cases hs
    exact ⟨hn.below, hn.current⟩

theorem Inv.step {op : Op} (h : Inv s) (hn : Numbered s) (hrec : Recent s)
    (hs : step s op = some s') : Inv s' := by
  cases op with
  | create mem vec =>
    cases hs
    have hne : s.created ≠ s.current := hn.created_ne
    rcases addressSpaceCreate_cases h hn mem vec with he | ⟨i, a, h0, hlt, ha, he | he⟩
    · rw [he]
      exact h
    · rw [he]
      exact (h.give hrec hne h0 hlt ha).drop (update_self _ _ _) hne
    · rw [he]
      exact (h.give hrec hne h0 hlt ha).renumber _
  | destroy t =>
    obtain ⟨as, has, hs⟩ := Option.bind_eq_some_iff.mp hs
    split at hs
    · cases hs
    · rename_i hne
      cases hs
      exact h.drop has hne
  | activate t =>
    rcases vmmActivateAddressSpace_cases h hs with ⟨-, rfl⟩ | ⟨hne, as, has, hcase⟩
    · exact h
    · rcases hcase with ⟨hg, rfl⟩ | ⟨-, i, a, h0, hlt, ha, rfl⟩
      · exact h.load ⟨as, has, (h.generation_eq_iff has).mp hg, rfl⟩
      · exact (h.give hrec hne h0 hlt ha).load holds_give_self
  | cache page =>
    cases hs
    exact h.withTlb (by simp +contextual)
  | cacheZero t page =>
    simp only [Asid.step] at hs
    split at hs
    · cases hs
      exact h.withTlb (by simp +contextual)
    · cases hs
  | evict keep =>
    cases hs
    exact h.withTlb fun e he => .inl (List.mem_of_mem_filter he)

theorem vmmBootstrap_spaces (h : vmmBootstrap.spaces t = some as) :
    t = 0 ∧ as = kernelSpace := by
  by_cases h0 : t = 0
  · subst h0
    exact ⟨rfl, (Option.some.inj h).symm⟩
  · simp [vmmBootstrap, update_of_ne h0] at h

theorem inv_vmmBootstrap : Inv vmmBootstrap := by
  have hholds : ∀ {t a}, ¬Holds vmmBootstrap t a := by
    rintro t a ⟨as, ht, he, -⟩
    rw [(vmmBootstrap_spaces ht).2] at he
    cases he
  refine ⟨rfl, by decide, by decide, fun t as ht => ?_, fun t a ht => absurd ht hholds,
    fun t u a ht => absurd ht hholds, fun t a ht => absurd ht hholds, fun e he => ?_⟩
  · rw [(vmmBootstrap_spaces ht).2]
    decide
  · cases he

theorem numbered_vmmBootstrap : Numbered vmmBootstrap := by
  refine ⟨fun t as ht => ?_, rfl⟩
  rw [(vmmBootstrap_spaces ht).1]
  decide

theorem inv_inductive : recentSystem.Inductive fun s => Inv s ∧ Numbered s where
  init h := by
    cases h.1
    exact ⟨inv_vmmBootstrap, numbered_vmmBootstrap⟩
  step h hs := ⟨h.1.step h.2 hs.2 hs.1, h.2.step h.1 hs.1⟩

/-- What the ASIDs are for. -/
structure Sound (s : State) : Prop where
  /-- Live spaces with tokens of the current generation have different ASIDs. -/
  distinct : ∀ t as u bs, s.spaces t = some as → s.spaces u = some bs → t ≠ u →
    as.asidToken.generation = s.asids.generation → bs.asidToken.generation = s.asids.generation →
    as.asidToken.asid ≠ bs.asidToken.asid
  /-- The loaded ASID is not handed out, and nobody but the running space holds it. -/
  reserved : (asidAlloc s.asids).1.asid ≠ s.asids.activeAsid ∧
    ∀ t as, s.spaces t = some as → as.asidToken.generation = s.asids.generation →
      (as.asidToken.asid = s.asids.activeAsid ↔ t = s.current)
  /-- A switch loads a token of the current generation. -/
  switched : ∀ t s', vmmActivateAddressSpace t s = some s' → t ≠ s.current →
    s'.current = t ∧ ∃ as, s'.spaces t = some as ∧
      as.asidToken.generation = s'.asids.generation ∧ s'.asids.activeAsid = as.asidToken.asid
  /-- Nothing is cached under an ASID when it is claimed. -/
  flushed : ∀ e ∈ (asidAlloc s.asids).2.tlb, e.asid ≠ (asidAlloc s.asids).1.asid
  /-- What is cached under an ASID in use is of the space that uses it. -/
  cached : ∀ e ∈ s.asids.tlb, (e.asid = s.asids.activeAsid → e.owner = s.current) ∧
    ∀ t as, s.spaces t = some as → as.asidToken.generation = s.asids.generation →
      e.asid = as.asidToken.asid → e.owner = t

theorem Inv.sound (h : Inv s) : Sound s := by
  have hholds : ∀ {t as}, s.spaces t = some as → as.asidToken.generation = s.asids.generation →
      Holds s t as.asidToken.asid := fun ht hg => ⟨_, ht, (h.generation_eq_iff ht).mp hg, rfl⟩
  obtain ⟨i, h0, hlt, ha, htok⟩ := asidAlloc_spec h.next
  refine ⟨fun t as u bs ht hu hne hgt hgu e => ?_, ⟨?_, fun t as ht hg => ?_⟩,
    fun t s' hs hne => ?_, ?_, fun e he => ⟨fun hact => ?_, fun t as ht hg heq => ?_⟩⟩
  · exact hne (h.inj t u _ (hholds ht hgt) (e ▸ hholds hu hgu))
  · rw [htok]
    exact ha.ne_active h0 h.loaded.2
  · exact h.running t _ (hholds ht hg)
  · rcases vmmActivateAddressSpace_cases h hs with ⟨hcur, -⟩ | ⟨-, as, has, hcase⟩
    · exact absurd hcur hne
    · rcases hcase with ⟨hg, rfl⟩ | ⟨-, j, a, -, -, -, rfl⟩
      · exact ⟨rfl, as, has, hg, rfl⟩
      · exact ⟨rfl, _, update_self _ _ _, rfl, rfl⟩
  · rw [htok]
    exact h.alloc_uncached h0 ha
  · rcases h.cached e he with hz | ⟨-, hown, -⟩
    · have := h.loaded.1
      omega
    · exact hown hact
  · rcases h.cached e he with hz | ⟨-, -, hhold⟩
    · have := (h.held t _ (hholds ht hg)).1
      omega
    · exact hhold t (heq ▸ hholds ht hg)

/-- **Soundness of the ASIDs.** In every state of a run in which no live token gets `2^32`
rollovers old, an ASID in use names one address space, in the allocator and in the TLB. -/
theorem asids_sound {s : State} (h : recentSystem.Reachable s) : Sound s :=
  (inv_inductive.reachable h).1.sound

def firstSwitch : List Op := [.create true true, .activate 1, .create true true, .cache 7]

theorem recent_of_epoch (h : s.asids.epoch + 1 < wordSize) : Recent s :=
  fun _ _ _ => by omega

/-- From boot: two spaces, the first of which runs and has a page cached. -/
theorem asids_sound_firstSwitch :
    ∃ s, firstSwitch.foldlM step vmmBootstrap = some s ∧ s.current = 1 ∧
      (s.asids.tlb.map (·.asid)) = [2] ∧ Sound s := by
  refine ⟨_, rfl, rfl, rfl, asids_sound ⟨vmmBootstrap, firstSwitch, ⟨rfl, trivial⟩, ?_⟩⟩
  exact .cons ⟨rfl, recent_of_epoch (by decide)⟩ <| .cons ⟨rfl, recent_of_epoch (by decide)⟩ <|
    .cons ⟨rfl, recent_of_epoch (by decide)⟩ <| .cons ⟨rfl, recent_of_epoch (by decide)⟩ <| .nil _

/-! ## What fails without the conditions -/

def spawnAll : List Op := [.create true true, .activate 1] ++ List.replicate 254 (.create true true)

theorem spawnAll_old_token : ∃ s, spawnAll.foldlM step vmmBootstrap = some s ∧ s.current = 1 ∧
    s.spaces 1 = some ⟨.user, ⟨2, 1⟩, 1⟩ ∧ s.asids.activeAsid = 2 ∧ s.asids.generation = 2 := by
  have h : (spawnAll.foldlM step vmmBootstrap).any fun s => s.current = 1 ∧
      s.spaces 1 = some ⟨.user, ⟨2, 1⟩, 1⟩ ∧ s.asids.activeAsid = 2 ∧
      s.asids.generation = 2 := by decide +kernel
  obtain ⟨s, hs, hp⟩ := (Option.any_eq_true _ _).mp h
  exact ⟨s, hs, of_decide_eq_true hp⟩

def spare (s : Asids) : Finset Nat :=
  (Finset.range asidCount).filter fun a => s.bitmap.testBit a = false

theorem Claimed.spare_lt {s : Asids} (h : Claimed s i a) (hlt : i < asidCount) :
    (spare a).card < (spare s).card := by
  refine Finset.card_lt_card ⟨fun b hb => ?_, fun hsub => ?_⟩
  · simp only [spare, Finset.mem_filter, h.bitmap, Bool.or_eq_false_iff] at hb ⊢
    exact ⟨hb.1, hb.2.2⟩
  · have : i ∈ spare a := hsub (by simpa [spare, h.clear] using hlt)
    simp [spare, h.bitmap] at this

/-- Space 1 has never run since boot, its token is still the first it got. -/
structure Forgotten (s : State) : Prop where
  generation : s.asids.generation = s.asids.epoch % wordSize
  next : s.asids.nextAsid < asidCount
  active : s.asids.activeAsid = 1
  token : s.spaces 1 = some ⟨.user, ⟨2, 1⟩, 1⟩
  created : 1 < s.created

theorem Rolled.claim_two {s m : Asids} (h : Rolled s m) (hact : s.activeAsid = 1)
    (hc : Claimed m i a) (h0 : 0 < i) (hlow : ∀ b, 0 < b → b < i → m.bitmap.testBit b = true) :
    i = 2 := by
  have h1 : i ≠ 1 := by
    rintro rfl
    have := hc.clear
    rw [(h.bitmap 1).mpr (.inr hact.symm)] at this
    cases this
  by_contra hne
  have := (h.bitmap 2).mp (hlow 2 (by decide) (by omega))
  omega

/-- Creating spaces over and over brings about a rollover, after which the last of them has
ASID 2. -/
theorem Forgotten.rollover (h : Forgotten s) :
    ∃ ls s', system.Run s ls s' ∧ Forgotten s' ∧ s'.asids.epoch = s.asids.epoch + 1 ∧
      ∃ t, t ≠ 1 ∧ s'.spaces t = some ⟨.user, ⟨2, s'.asids.generation⟩, s'.asids.epoch⟩ := by
  -- Each creation within the generation leaves one ASID less.
  induction hk : (spare s.asids).card using Nat.strong_induction_on generalizing s with
  | _ k ih =>
    obtain ⟨i, a, h0, hlt, ha, he⟩ := addressSpaceCreate_user h.next
    have hstep : system.step s (.create true true)
        { s.give s.created .user i a with created := s.created + 1 } := congrArg some he
    obtain ⟨hact, hep⟩ := ha.epoch_cases
    have hne : (1 : Nat) ≠ s.created := Nat.ne_of_lt h.created
    have hforg : Forgotten { s.give s.created .user i a with created := s.created + 1 } := by
      refine ⟨?_, ha.next_lt, hact.trans h.active, ?_, Nat.lt_succ_of_lt h.created⟩
      · exact ha.generation_mod h.generation
      · simpa only [State.give, update_of_ne hne] using h.token
    cases ha with
    | current hc =>
      obtain ⟨ls, s', hrun, hf, hep', ht⟩ := ih _ (hk ▸ hc.spare_lt hlt) hforg rfl
      exact ⟨_, s', .cons hstep hrun, hf, hep'.trans (congrArg (· + 1) hc.epoch), ht⟩
    | rollover hr hc hlow =>
      refine ⟨_, _, .single hstep, hforg, hc.epoch.trans hr.epoch, s.created, hne.symm, ?_⟩
      rw [← hr.claim_two h.active hc h0 hlow]
      exact update_self _ _ _

theorem forgotten_rollovers (n : Nat) : ∃ s, system.Reachable s ∧ Forgotten s ∧
    s.asids.epoch = n + 2 ∧
      ∃ t, t ≠ 1 ∧ s.spaces t = some ⟨.user, ⟨2, s.asids.generation⟩, s.asids.epoch⟩ := by
  induction n with
  | zero =>
    have hstep : system.step vmmBootstrap (.create true true)
        (addressSpaceCreate .user true true vmmBootstrap) := rfl
    have hforg : Forgotten (addressSpaceCreate .user true true vmmBootstrap) :=
      ⟨by decide, by decide, by decide, rfl, by decide⟩
    obtain ⟨ls, s, hrun, hf, hep, ht⟩ := hforg.rollover
    exact ⟨s, (LTS.Reachable.init rfl).run (.cons hstep hrun), hf, hep, ht⟩
  | succ n ih =>
    obtain ⟨s, hreach, hf, hep, -⟩ := ih
    obtain ⟨ls, s', hrun, hf', hep', ht⟩ := hf.rollover
    exact ⟨s', hreach.run hrun, hf', by omega, ht⟩

/-- A space whose creation of another runs out of ASIDs goes on running on a token of the
old generation; and after `2^32` rollovers the generation of a forgotten token is current
again, so that it shares its ASID with a live space. -/
theorem asids_unsound :
    (∃ s as, system.Reachable s ∧ s.spaces s.current = some as ∧
      as.asidToken.asid = s.asids.activeAsid ∧
      as.asidToken.generation ≠ s.asids.generation) ∧
    ∃ s t as bs, system.Reachable s ∧ t ≠ 1 ∧ s.spaces 1 = some as ∧ s.spaces t = some bs ∧
      as.asidToken.generation = s.asids.generation ∧
      bs.asidToken.generation = s.asids.generation ∧
      as.asidToken.asid = bs.asidToken.asid := by
  constructor
  · obtain ⟨s, hs, hcur, hsp, hact, hg⟩ := spawnAll_old_token
    refine ⟨s, _, ⟨_, _, rfl, LTS.run_of_foldlM hs⟩, (congrArg s.spaces hcur).trans hsp,
      hact.symm, ?_⟩
    rw [hg]
    decide
  · obtain ⟨s, hreach, hf, hep, t, ht, hst⟩ := forgotten_rollovers (wordSize - 1)
    have hg : s.asids.generation = 1 := by
      rw [hf.generation, hep]
      decide
    exact ⟨s, t, _, _, hreach, ht, hf.token, hst, hg.symm, rfl, rfl⟩

end Zuzu.L1.Asid
