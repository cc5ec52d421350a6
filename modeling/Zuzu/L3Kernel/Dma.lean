import Zuzu.L3Kernel.Regions

/-!
# DMA mappings of a device (`kernel/mm/mem_object.c`)

A device object lists its mappings, newest first, and hands out their identifiers from a 32-bit
counter that leaves out 0. After `2^32 - 1` mappings the counter comes round, and nothing checks
that the mapping it named before is gone: from then on two mappings may have one identifier, and
`MemObjDmaFind` and `MemObjDmaUnmap` take the newer.

**Results.** `step_change`: what a call does to the list. `dma_ids_distinct`: identifiers are
distinct as long as no mapping is made under one that is in use. `dma_ranges`: a mapping
stays inside its object and below the device's limit, and the count is that of the list.
-/
namespace Zuzu.L3
open Function Zuzu.Core

variable {m m' : Mem} {dev mem o : MemId} {offset len dir bus id n : Nat} {ok : Bool} {e : Err}

/-! ## What a call does -/

/-- What the DMA calls use of a device. -/
structure DmaBook where
  kind : MemKind
  maps : List DmaMapping
  next : Nat
  count : Nat

def MemObj.dma (x : MemObj) : DmaBook := ⟨x.kind, x.dmaMaps, x.dmaNextId, x.dmaMapCount⟩

/-- The counter after `id`. -/
def succId (id : Nat) : Nat := if (id + 1) % wordSize = 0 then 1 else (id + 1) % wordSize

def DmaBook.add (b : DmaBook) (d : DmaMapping) : DmaBook :=
  { b with maps := d :: b.maps, next := succId d.id, count := b.count + 1 }

def DmaBook.drop (b : DmaBook) (d : DmaMapping) : DmaBook :=
  { b with maps := b.maps.erase d, count := b.count - 1 }

theorem modObj_dma {f : MemObj → MemObj} (hf : ∀ x, (f x).dma = x.dma) :
    ((m.modObj o f).objs dev).dma = (m.objs dev).dma := by
  rw [Mem.modObj_objs, update_apply]
  split
  · rename_i h
    rw [hf, h]
  · rfl

theorem memObjUnref_dma (h : memObjUnref n m o = some m') :
    (m'.objs dev).dma = (m.objs dev).dma :=
  memObjUnref_keeps (f := fun m => (m.objs dev).dma) (fun _ _ => rfl)
    (fun _ _ _ _ => modObj_dma fun _ => rfl) h

/-- The checks of `MemObjDmaMap`; `phys` and `bus` are where the mapping begins. -/
structure DmaOk (m : Mem) (dev mem : MemId) (offset len phys bus : Nat) : Prop where
  pos : 0 < len
  fits : offset < (m.objs mem).pageCount * pageSize % wordSize ∧
    len ≤ (m.objs mem).pageCount * pageSize % wordSize - offset
  phys_eq : phys = ((m.objs mem).pageAddrs 0 + offset) % wordSize
  bus_eq : bus = (phys + (m.objs dev).busOffset) % wordSize
  limit : len - 1 ≤ (m.objs dev).dmaLimit ∧ bus ≤ (m.objs dev).dmaLimit - (len - 1)

/-- What `MemObjDmaMap` returns. -/
inductive DmaMapped (m : Mem) (dev mem : MemId) (offset len dir : Nat) :
    Mem × Except Err (Nat × Nat) → Prop
  | refused (e : Err) : DmaMapped m dev mem offset len dir (m, .error e)
  | mapped {m' : Mem} {phys bus : Nat} (ok : DmaOk m dev mem offset len phys bus)
      (hd : (m'.objs dev).dma =
        (m.objs dev).dma.add ⟨(m.objs dev).dmaNextId, mem, offset, len, dir, bus⟩) :
      DmaMapped m dev mem offset len dir (m', .ok (bus, (m.objs dev).dmaNextId))

theorem memObjDmaMap_mapped (m : Mem) (dev mem : MemId) (offset len dir : Nat) (ok : Bool) :
    DmaMapped m dev mem offset len dir (memObjDmaMap m dev mem offset len dir ok) := by
  unfold memObjDmaMap
  dsimp only
  iterate 9 refine iteInduction (fun _ => .refused _) fun _ => ?_
  rename_i h4 _ h6 h7 _ _
  refine .mapped ⟨Nat.pos_of_ne_zero h4, not_not.mp h6, rfl, rfl, not_not.mp h7⟩ ?_
  have href : ((memObjRef m mem).objs dev).dma = (m.objs dev).dma := modObj_dma fun _ => rfl
  rw [Mem.modObj_objs, update_self, ← href]
  rfl

theorem memObjDmaUnmap_cases (h : memObjDmaUnmap n m dev id = some (m', e)) :
    (m' = m ∧ e ≠ .ok) ∨ e = .ok ∧ ∃ d, (m.objs dev).dmaMaps.find? (fun d => d.id = id) = some d ∧
      (m'.objs dev).dma = (m.objs dev).dma.drop d := by
  unfold memObjDmaUnmap at h
  split at h
  · cases h
    exact .inl ⟨rfl, nofun⟩
  · split at h
    · cases h
      exact .inl ⟨rfl, nofun⟩
    · rename_i d hd
      obtain ⟨m₁, h1, h2⟩ := Option.map_eq_some_iff.mp h
      cases h2
      refine .inr ⟨rfl, d, hd, (memObjUnref_dma h1).trans ?_⟩
      rw [Mem.modObj_objs, update_self]
      rfl

/-! ## Runs -/

/-- The calls on a device; `adopt` is the part of `SvcManageMemory` that finds a mapping and takes
a reference to its object, `unref` any reference that is dropped, the device's own included. -/
inductive DmaOp
  | map (mem : MemId) (offset len dir : Nat) (ok : Bool)
  | unmap (n id : Nat)
  | adopt (id : Nat) (spid : Int)
  | unref (n : Nat) (o : MemId)

def dmaSystem (dev : MemId) : LTS Mem DmaOp where
  init m := (m.objs dev).dma = ⟨.device, [], 1, 0⟩
  step m op m' := match op with
    | .map mem offset len dir ok => m' = (memObjDmaMap m dev mem offset len dir ok).1
    | .unmap n id => ∃ e, memObjDmaUnmap n m dev id = some (m', e)
    | .adopt id spid => ∃ d, memObjDmaFind m dev id = some d ∧
        m' = (memObjRef m d.mem).modObj d.mem fun x => { x with ownerSpid := spid }
    | .unref n o => memObjUnref n m o = some m'

inductive DmaChange (b : DmaBook) : DmaOp → DmaBook → Prop
  | same {op : DmaOp} : DmaChange b op b
  | mapped {mem : MemId} {offset len dir bus : Nat} {ok : Bool} :
      DmaChange b (.map mem offset len dir ok) (b.add ⟨b.next, mem, offset, len, dir, bus⟩)
  | unmapped {n id : Nat} {d : DmaMapping} (hd : d ∈ b.maps) : DmaChange b (.unmap n id) (b.drop d)

theorem step_change {op : DmaOp} (h : (dmaSystem dev).step m op m') :
    DmaChange (m.objs dev).dma op (m'.objs dev).dma := by
  cases op with
  | map mem offset len dir ok =>
    obtain rfl : m' = (memObjDmaMap m dev mem offset len dir ok).1 := h
    have hm := memObjDmaMap_mapped m dev mem offset len dir ok
    generalize memObjDmaMap .. = r at hm ⊢
    cases hm with
    | refused e => exact .same
    | mapped ok hd =>
      rw [hd]
      exact .mapped
  | unmap n id =>
    obtain ⟨e, h⟩ := h
    obtain ⟨rfl, -⟩ | ⟨-, d, hf, hd⟩ := memObjDmaUnmap_cases h
    · exact .same
    · rw [hd]
      exact .unmapped (List.mem_of_find?_eq_some hf)
  | adopt id spid =>
    obtain ⟨d, -, rfl⟩ := h
    have href : ((memObjRef m d.mem).objs dev).dma = (m.objs dev).dma := modObj_dma fun _ => rfl
    rw [modObj_dma (f := fun x => { x with ownerSpid := spid }) fun _ => rfl, href]
    exact .same
  | unref n o =>
    rw [memObjUnref_dma h]
    exact .same

def DmaBook.Counted (b : DmaBook) : Prop := b.count = b.maps.length

theorem counted_inductive (dev : MemId) :
    (dmaSystem dev).Inductive fun m => (m.objs dev).dma.Counted where
  init h := by
    rw [h]
    rfl
  step {m op m'} h hs := by
    have hc := step_change hs
    generalize (m'.objs dev).dma = b at hc
    cases hc with
    | same => exact h
    | mapped => exact congrArg Nat.succ h
    | unmapped hd =>
      simp only [DmaBook.Counted, DmaBook.drop, List.length_erase_of_mem hd] at h ⊢
      rw [h]

/-! ## Ranges -/

/-- The frames of an object made with `MEM_CONTIG`. -/
structure MemObj.Contig (o : MemObj) : Prop where
  frames : ∀ i < o.pageCount, o.pageAddrs i = o.pageAddrs 0 + i * pageSize
  top : o.pageAddrs 0 + o.pageCount * pageSize ≤ wordSize

/-- A physical byte of a frame of the object. -/
def MemObj.Holds (o : MemObj) (b : Nat) : Prop :=
  ∃ i < o.pageCount, o.pageAddrs i ≤ b ∧ b < o.pageAddrs i + pageSize

theorem MemObj.Contig.holds {o : MemObj} (h : o.Contig) {b : Nat} (h1 : o.pageAddrs 0 ≤ b)
    (h2 : b < o.pageAddrs 0 + o.pageCount * pageSize) : o.Holds b := by
  have hp : 0 < pageSize := by decide
  have hd := Nat.div_add_mod (b - o.pageAddrs 0) pageSize
  have hm := Nat.mod_lt (b - o.pageAddrs 0) hp
  rw [Nat.mul_comm] at hd
  have hi : (b - o.pageAddrs 0) / pageSize < o.pageCount :=
    Nat.div_lt_of_lt_mul (by rw [Nat.mul_comm]; omega)
  refine ⟨_, hi, ?_⟩
  rw [h.frames _ hi]
  omega

/-- mirrors kernel/mm/mem_object.c:196-209: where the range begins that a sync gives to the cache.
Bit 1 of a direction is `DMA_FROM_DEVICE`. -/
def memObjDmaSyncRange (m : Mem) (dev : MemId) (bus len op : Nat) : Option Nat :=
  if memObjDmaSync m dev bus len op ≠ .ok then none
  else
    ((m.objs dev).dmaMaps.find? fun d =>
      len ≤ d.len ∧ d.busAddr ≤ bus ∧ bus - d.busAddr ≤ d.len - len).bind fun d =>
      if (m.objs d.mem).flags &&& memUncached ≠ 0 then none
      else if op = 0 ∨ d.dir.testBit 1 then
        some (((m.objs d.mem).pageAddrs 0 + d.offset + (bus - d.busAddr)) % wordSize)
      else none

/-- Byte `k` of a mapping lies in the object, and the device reaches it at `bus + k`. -/
def Mem.MapsByte (m : Mem) (dev mem : MemId) (offset bus k : Nat) : Prop :=
  (m.objs mem).Holds ((m.objs mem).pageAddrs 0 + offset + k) ∧
  bus + k = ((m.objs mem).pageAddrs 0 + offset + k + (m.objs dev).busOffset) % wordSize ∧
  bus + k ≤ (m.objs dev).dmaLimit

theorem DmaOk.byte {phys k : Nat} (h : DmaOk m dev mem offset len phys bus)
    (hc : (m.objs mem).Contig) (hl : (m.objs dev).dmaLimit < wordSize) (hk : k < len) :
    m.MapsByte dev mem offset bus k := by
  have hsize := Nat.mod_le ((m.objs mem).pageCount * pageSize) wordSize
  obtain ⟨h1, h2⟩ := h.fits
  obtain ⟨h3, h4⟩ := h.limit
  have htop := hc.top
  refine ⟨hc.holds (by omega) (by omega), ?_, by omega⟩
  have hlt : bus + k < wordSize := by omega
  have hp : phys = (m.objs mem).pageAddrs 0 + offset :=
    h.phys_eq.trans (Nat.mod_eq_of_lt (by omega))
  rw [← Nat.mod_eq_of_lt hlt, h.bus_eq, hp, Nat.mod_add_mod, Nat.add_right_comm]

/-- The bytes from `bus` on, and those that a sync gives to the cache, are bytes of `d`. -/
def Mem.SyncsIn (m : Mem) (dev : MemId) (bus len : Nat) (d : DmaMapping) : Prop :=
  (d.busAddr ≤ bus ∧ bus + len ≤ d.busAddr + d.len) ∧
  ∀ op p, memObjDmaSyncRange m dev bus len op = some p → ∀ j < len, ∃ k < d.len,
    (p + j) % wordSize = ((m.objs d.mem).pageAddrs 0 + d.offset + k) % wordSize

theorem memObjDmaSyncRange_some {op p : Nat} (h : memObjDmaSyncRange m dev bus len op = some p) :
    ∃ d, (m.objs dev).dmaMaps.find? (fun d =>
        len ≤ d.len ∧ d.busAddr ≤ bus ∧ bus - d.busAddr ≤ d.len - len) = some d ∧
      p = ((m.objs d.mem).pageAddrs 0 + d.offset + (bus - d.busAddr)) % wordSize := by
  unfold memObjDmaSyncRange at h
  split at h
  · cases h
  obtain ⟨d, hd, h⟩ := Option.bind_eq_some_iff.mp h
  refine ⟨d, hd, ?_⟩
  split at h
  · cases h
  split at h
  · cases h
    rfl
  · cases h

theorem memObjDmaSync_ok {op : Nat} (h : memObjDmaSync m dev bus len op = .ok) :
    ∃ d ∈ (m.objs dev).dmaMaps, m.SyncsIn dev bus len d := by
  unfold memObjDmaSync at h
  split at h
  · cases h
  split at h
  · cases h
  split at h
  · cases h
  split at h
  · rename_i hany
    obtain ⟨d, hd⟩ := Option.isSome_iff_exists.mp
      ((List.find?_isSome.trans List.any_eq_true.symm).mpr hany)
    have hin := List.find?_some hd
    simp only [decide_eq_true_eq] at hin
    refine ⟨d, List.mem_of_find?_eq_some hd, ⟨hin.2.1, by omega⟩, fun op p hp j hj => ?_⟩
    obtain ⟨d', hd', rfl⟩ := memObjDmaSyncRange_some hp
    rw [hd] at hd'
    cases hd'
    exact ⟨bus - d.busAddr + j, by omega, by rw [Nat.mod_add_mod, Nat.add_assoc]⟩
  · cases h

/-- Ranges of a device's mappings: a mapping lies in the frames of its object and below the
device's limit, a sync stays inside one mapping, the mappings are counted, and a call that fails
changes nothing. -/
theorem dma_ranges (dev : MemId) :
    (∀ m mem offset len dir ok m' bus id, (m.objs mem).Contig → (m.objs dev).dmaLimit < wordSize →
      memObjDmaMap m dev mem offset len dir ok = (m', .ok (bus, id)) →
        ∀ k < len, m.MapsByte dev mem offset bus k) ∧
    (∀ m bus len op, memObjDmaSync m dev bus len op = .ok →
      ∃ d ∈ (m.objs dev).dmaMaps, m.SyncsIn dev bus len d) ∧
    (∀ m, (dmaSystem dev).Reachable m →
      (m.objs dev).dmaMapCount = (m.objs dev).dmaMaps.length) ∧
    (∀ m mem offset len dir ok m' e,
      memObjDmaMap m dev mem offset len dir ok = (m', .error e) → m' = m) ∧
    ∀ n m id m' e, memObjDmaUnmap n m dev id = some (m', e) → e ≠ .ok → m' = m := by
  refine ⟨fun m mem offset len dir ok m' bus id hc hl h k hk => ?_, fun _ _ _ _ => memObjDmaSync_ok,
    fun m h => (counted_inductive dev).reachable h, fun m mem offset len dir ok m' e h => ?_,
    fun n m id m' e h he => ?_⟩
  · have hm := memObjDmaMap_mapped m dev mem offset len dir ok
    rw [h] at hm
    cases hm with
    | mapped ok => exact ok.byte hc hl hk
  · have hm := memObjDmaMap_mapped m dev mem offset len dir ok
    rw [h] at hm
    cases hm
    rfl
  · exact ((memObjDmaUnmap_cases h).resolve_right fun h => he h.1).1

/-- A device 0 and a page 1 for its mappings. -/
def pair (d p : MemObj) : Mem :=
  ⟨update (update (fun _ => .zero) 1 p) 0 d, fun _ => none, fun _ => false, 2⟩

section
variable (d p : MemObj) (f : MemObj → MemObj)

@[simp] theorem pair_device : (pair d p).objs 0 = d := rfl

@[simp] theorem pair_page : (pair d p).objs 1 = p := rfl

@[simp] theorem pair_modDevice : (pair d p).modObj 0 f = pair (f d) p := by
  rw [Mem.modObj, pair_device, pair, update_idem]
  rfl

@[simp] theorem pair_modPage : (pair d p).modObj 1 f = pair d (f p) := by
  rw [Mem.modObj, pair_page, pair, update_comm (by decide), update_idem]
  rfl

end

def pageMap (id dir : Nat) : DmaMapping := ⟨id, 1, 0, pageSize, dir, pageSize⟩

def pageMaps (maps : List DmaMapping) (next : Nat) : Mem :=
  pair { MemObj.zero with
      kind := .device, dmaLimit := wordSize - 1, dmaMaps := maps, dmaNextId := next
      dmaMapCount := maps.length }
    { MemObj.zero with
      kind := .shared, refCount := maps.length + 1, pageCount := 1, flags := memContig
      pageAddrs := fun _ => pageSize }

/-- A page is mapped for a device: all its bytes are the object's, at the bus addresses that the
call returns. -/
theorem dma_ranges_page :
    ∃ m', memObjDmaMap (pageMaps [] 1) 0 1 0 pageSize 1 true = (m', .ok (pageSize, 1)) ∧
      ∀ k < pageSize, (pageMaps [] 1).MapsByte 0 1 0 pageSize k := by
  have hc : ((pageMaps [] 1).objs 1).Contig :=
    ⟨fun i hi => by rw [Nat.lt_one_iff.mp hi]; rfl, by decide⟩
  have hl : ((pageMaps [] 1).objs 0).dmaLimit < wordSize := by decide
  have h : (memObjDmaMap (pageMaps [] 1) 0 1 0 pageSize 1 true).2 = .ok (pageSize, 1) := rfl
  cases hm : memObjDmaMap (pageMaps [] 1) 0 1 0 pageSize 1 true with
  | mk m' r =>
    rw [hm] at h
    cases h
    exact ⟨_, rfl, (dma_ranges 0).1 _ 1 0 pageSize 1 true _ _ _ hc hl hm⟩

/-! ## Identifiers -/

/-- A mapping is made under an identifier that no mapping has. -/
def FreshId (dev : MemId) (m : Mem) : DmaOp → Prop
  | .map .. => ∀ d ∈ (m.objs dev).dmaMaps, d.id ≠ (m.objs dev).dmaNextId
  | _ => True

/-- The counter goes round in `2^32 - 1` steps. -/
theorem succId_iterate (h1 : 1 ≤ id) (h2 : id < wordSize) :
    ∀ k, succId^[k] id = (id - 1 + k) % (wordSize - 1) + 1
  | 0 => by
    unfold wordSize at *
    simp only [iterate_zero, id_eq]
    omega
  | k + 1 => by
    rw [iterate_succ_apply', succId_iterate h1 h2 k]
    unfold succId wordSize
    split <;> omega

theorem succId_iterate_ne {k : Nat} (h1 : 1 ≤ id) (h2 : id < wordSize) (hk : k + 1 < wordSize - 1) :
    succId^[k + 1] id ≠ id := by
  rw [succId_iterate h1 h2]
  unfold wordSize at *
  omega

theorem succId_range (id : Nat) : 1 ≤ succId id ∧ succId id < wordSize := by
  unfold succId wordSize
  split <;> omega

theorem next_inductive (dev : MemId) : (dmaSystem dev).Inductive fun m =>
    1 ≤ (m.objs dev).dma.next ∧ (m.objs dev).dma.next < wordSize where
  init h := by
    rw [h]
    decide
  step {m op m'} h hs := by
    have hc := step_change hs
    generalize (m'.objs dev).dma = b at hc
    cases hc with
    | same | unmapped => exact h
    | mapped => exact succId_range _

def DmaOp.isMap : DmaOp → Bool
  | .map .. => true
  | _ => false

/-- The mappings that are not in `base` are less than `n + 1` steps of the counter behind. -/
def DmaBook.MadeSince (base : List DmaMapping) (n : Nat) (b : DmaBook) : Prop :=
  ∀ d ∈ b.maps, d ∈ base ∨
    1 ≤ d.id ∧ d.id < wordSize ∧ ∃ k < n, b.next = succId^[k + 1] d.id

theorem DmaBook.MadeSince.mono {base : List DmaMapping} {b : DmaBook} {n' : Nat} (hn : n ≤ n')
    (h : b.MadeSince base n) : b.MadeSince base n' := by
  intro d hd
  refine (h d hd).imp_right fun ⟨h1, h2, k, hk, hnext⟩ => ⟨h1, h2, k, by omega, hnext⟩

theorem DmaChange.madeSince {base : List DmaMapping} {b b' : DmaBook} {op : DmaOp}
    (hc : DmaChange b op b') (hnext : 1 ≤ b.next ∧ b.next < wordSize) (h : b.MadeSince base n) :
    b'.MadeSince base (n + if op.isMap then 1 else 0) := by
  cases hc with
  | same => exact h.mono (Nat.le_add_right ..)
  | mapped =>
    intro d hd
    rcases List.mem_cons.mp hd with rfl | hd
    · exact .inr ⟨hnext.1, hnext.2, 0, Nat.succ_pos n, rfl⟩
    · refine (h d hd).imp_right fun ⟨h1, h2, k, hk, he⟩ => ⟨h1, h2, k + 1, Nat.succ_lt_succ hk, ?_⟩
      rw [iterate_succ_apply', ← he]
      rfl
  | unmapped => exact fun d hd => h d (List.mem_of_mem_erase hd)

theorem madeSince_run {base : List DmaMapping} {ls : List DmaOp}
    (hr : (dmaSystem dev).Run m ls m') : ∀ {n : Nat}, (dmaSystem dev).Reachable m →
    (m.objs dev).dma.MadeSince base n →
    (m'.objs dev).dma.MadeSince base (n + ls.countP DmaOp.isMap) := by
  induction hr with
  | nil => exact fun _ h => h
  | cons hs _ ih =>
    intro n hm h
    have h' := (step_change hs).madeSince ((next_inductive dev).reachable hm) h
    have := ih (hm.step hs) h'
    rwa [List.countP_cons, Nat.add_comm (List.countP ..), ← Nat.add_assoc]

/-- The next identifier is free if fewer than `2^32 - 1` mappings were made since the oldest live
one: all of them were made in a run from `m₀` on with no more mappings than that. -/
theorem freshId_of_few {m₀ : Mem} {ls : List DmaOp} {op : DmaOp}
    (h₀ : (dmaSystem dev).Reachable m₀) (hr : (dmaSystem dev).Run m₀ ls m)
    (hnew : ∀ d ∈ (m.objs dev).dmaMaps, d ∉ (m₀.objs dev).dmaMaps)
    (hfew : ls.countP DmaOp.isMap < wordSize - 1) : FreshId dev m op := by
  cases op with
  | map =>
    intro d hd he
    have hsince : (m₀.objs dev).dma.MadeSince (m₀.objs dev).dmaMaps 0 := fun _ hd => .inl hd
    obtain hold | ⟨h1, h2, k, hk, hnext⟩ := madeSince_run hr h₀ hsince d hd
    · exact hnew d hd hold
    · exact succId_iterate_ne h1 h2 (by omega) (hnext.symm.trans he.symm)
  | _ => trivial

structure DmaBook.Distinct (b : DmaBook) : Prop where
  device : b.kind = .device
  ids : (b.maps.map DmaMapping.id).Nodup

theorem distinct_inductive (dev : MemId) :
    ((dmaSystem dev).restrict (fun _ => True) (FreshId dev)).Inductive
      fun m => (m.objs dev).dma.Distinct where
  init h := by
    rw [h.1]
    exact ⟨rfl, .nil⟩
  step {m op m'} h hs := by
    obtain ⟨hs, hf⟩ := hs
    have hc := step_change hs
    generalize (m'.objs dev).dma = b at hc
    cases hc with
    | same => exact h
    | mapped =>
      refine ⟨h.device, List.nodup_cons.mpr ⟨fun hm => ?_, h.ids⟩⟩
      obtain ⟨d, hd, he⟩ := List.mem_map.mp hm
      exact hf d hd he
    | unmapped => exact ⟨h.device, h.ids.sublist (List.erase_sublist.map _)⟩

/-- The mapping under an identifier is the only one. -/
theorem find_of_distinct {ds : List DmaMapping} (h : (ds.map DmaMapping.id).Nodup)
    {d : DmaMapping} (hd : d ∈ ds) : ds.find? (fun x => x.id = d.id) = some d := by
  cases hf : ds.find? (fun x => x.id = d.id) with
  | none => exact absurd (List.find?_eq_none.mp hf d hd) (by simp)
  | some x =>
    have hx : x.id = d.id := by simpa using List.find?_some hf
    rw [List.inj_on_of_nodup_map h (List.mem_of_find?_eq_some hf) hd hx]

/-- In every run in which each mapping is made under an identifier that is not in use, the
identifiers of the live mappings are distinct, and a call by identifier acts on the mapping it was
returned for. -/
theorem dma_ids_distinct {m : Mem} {dev : MemId}
    (h : ((dmaSystem dev).restrict (fun _ => True) (FreshId dev)).Reachable m) :
    ((m.objs dev).dmaMaps.map DmaMapping.id).Nodup ∧
      (∀ d ∈ (m.objs dev).dmaMaps, memObjDmaFind m dev d.id = some d ∧
        ∀ n m', memObjDmaUnmap n m dev d.id = some (m', .ok) →
          (m'.objs dev).dmaMaps = (m.objs dev).dmaMaps.erase d) ∧
      ∀ mem offset len dir ok m' bus id,
        memObjDmaMap m dev mem offset len dir ok = (m', .ok (bus, id)) →
        (m'.objs dev).dmaMaps = ⟨id, mem, offset, len, dir, bus⟩ :: (m.objs dev).dmaMaps := by
  obtain ⟨hdev : (m.objs dev).kind = _, hids : ((m.objs dev).dmaMaps.map _).Nodup⟩ :=
    (distinct_inductive dev).reachable h
  refine ⟨hids, fun d hd => ⟨?_, fun n m' hu => ?_⟩, fun mem offset len dir ok m' bus id hm => ?_⟩
  · unfold memObjDmaFind
    rw [if_neg (not_not.mpr hdev)]
    exact find_of_distinct hids hd
  · obtain ⟨-, hne⟩ | ⟨-, x, hx, hdma⟩ := memObjDmaUnmap_cases hu
    · exact absurd rfl hne
    · rw [find_of_distinct hids hd] at hx
      cases hx
      exact congrArg DmaBook.maps hdma
  · have hd := memObjDmaMap_mapped m dev mem offset len dir ok
    rw [hm] at hd
    cases hd with
    | mapped _ hd => exact congrArg DmaBook.maps hd

theorem pageMaps_map {maps : List DmaMapping} (next : Nat) (hm : maps.length < dmaMaxMappings)
    (hd : dir = 1 ∨ dir = 2) : (dmaSystem 0).step (pageMaps maps next)
      (.map 1 0 pageSize dir true) (pageMaps (pageMap next dir :: maps) (succId next)) := by
  have hp : pageSize % wordSize = pageSize ∧ pageSize ≠ 0 ∧ pageSize - 1 ≤ wordSize - 1 ∧
      pageSize ≤ wordSize - 1 - (pageSize - 1) := by decide
  have hd' : dir = 1 ∨ dir = 2 ∨ dir = 3 := hd.imp_right .inl
  simp only [dmaSystem, pageMaps, memObjDmaMap, memObjRef, memContig, MemObj.zero, pair_device,
    pair_page, pair_modDevice, pair_modPage, hm, hd', hp, Nat.one_mul, Nat.add_zero, Nat.zero_mod,
    Nat.mod_self, Nat.sub_zero, Nat.pos_of_ne_zero hp.2.1]
  rfl

theorem pageMaps_unmap (id dir : Nat) (maps : List DmaMapping) (next : Nat) :
    (dmaSystem 0).step (pageMaps (pageMap id dir :: maps) next) (.unmap 1 id)
      (pageMaps maps next) := by
  refine ⟨.ok, ?_⟩
  simp [pageMaps, memObjDmaUnmap, memObjUnref, pageMap]

theorem reach_again {next : Nat} (h : (dmaSystem 0).Reachable (pageMaps [pageMap 1 2] next)) :
    (dmaSystem 0).Reachable (pageMaps [pageMap 1 2] (succId next)) :=
  (h.step (pageMaps_map next (by decide) (.inl rfl))).step (pageMaps_unmap ..)

/-- The counter goes through every identifier while the first mapping stays. -/
theorem reach_next : ∀ k, k + 2 < wordSize →
    (dmaSystem 0).Reachable (pageMaps [pageMap 1 2] (k + 2))
  | 0, _ =>
    have h0 : (dmaSystem 0).init (pageMaps [] 1) := rfl
    (LTS.Reachable.init h0).step (pageMaps_map 1 (by decide) (.inr rfl))
  | k + 1, hk => by
    have h := reach_again (reach_next k (by omega))
    rw [succId, Nat.mod_eq_of_lt hk, if_neg (by omega)] at h
    exact h

/-- After `2^32 - 1` mappings the identifier 1 is given again while its mapping is live. -/
theorem dma_ids_repeat : ∃ m a b, (dmaSystem 0).Reachable m ∧ (m.objs 0).dmaMaps = [a, b] ∧ a ≠ b ∧
    a.id = b.id ∧ memObjDmaFind m 0 b.id = some a :=
  have h : (dmaSystem 0).Reachable (pageMaps [pageMap 1 2] 1) :=
    reach_again (reach_next (wordSize - 3) (by decide))
  ⟨_, pageMap 1 1, pageMap 1 2, h.step (pageMaps_map 1 (by decide) (.inl rfl)), rfl, by decide, rfl,
    rfl⟩

/-- Two mappings of one page have two identifiers. -/
theorem dma_ids_distinct_two : ∃ m : Mem, (m.objs 0).dmaMaps.length = 2 ∧
    ((m.objs 0).dmaMaps.map DmaMapping.id).Nodup := by
  have h0 : (dmaSystem 0).Reachable (pageMaps [] 1) := .init rfl
  have hs1 : (dmaSystem 0).step (pageMaps [] 1) (.map 1 0 pageSize 1 true) _ :=
    pageMaps_map 1 (by decide) (.inl rfl)
  have hs2 : (dmaSystem 0).step (pageMaps [pageMap 1 1] (succId 1)) (.map 1 0 pageSize 1 true) _ :=
    pageMaps_map (succId 1) (by decide) (.inl rfl)
  have hr : ((dmaSystem 0).restrict (fun _ => True) (FreshId 0)).Reachable (pageMaps [] 1) :=
    .init ⟨rfl, trivial⟩
  -- one mapping since a state without any is far fewer than the counter has values
  have hf : FreshId 0 (pageMaps [pageMap 1 1] (succId 1)) (.map 1 0 pageSize 1 true) :=
    freshId_of_few h0 (.single hs1) (fun _ _ hd => by cases hd) (by decide)
  have h1 := hr.step ⟨hs1, fun d hd => by cases hd⟩
  exact ⟨_, rfl, (dma_ids_distinct (h1.step ⟨hs2, hf⟩)).1⟩

end Zuzu.L3
