import Zuzu.L5Net.Arp

/-!
# What the ARP cache does with waiting packets (`netd/link/arp.c`)

Every call is a sequence of small changes of the table (`Move`): an entry is created, cleared,
asked for, resolved, or a copy is put into its queue. The invariant `Sound` is kept by each of them.
Its first half is about the table, its second about the copies, which are in the custody of the
queues until they are freed (`Custody`). What becomes of one unresolved entry is followed call by
call (`Fate`) and then over a run (`run_fate`).

**Results.** `step_steps`: what a call can do. `arp_sound`: the invariant. `run_fate`: each request
that is due brings an unresolved entry closer to its end. `arp_cache_sound`: the cache as a whole.
Paths are relative to `user/services/`.
-/
namespace Zuzu.L5.Link
open Function Zuzu.Core
variable {k : Nat} {e : ArpEntry} {p : ArpPending} {a : ArpAccepted} {o : List ArpOut}

theorem ArpEntry.busy (h : e.state = .incomplete) : e.state ≠ .free := by
  rw [h]
  exact nofun

/-- A packet from a queue that was handed to the link. -/
def ArpOut.sent : ArpOut → Option (MacAddr × ArpPending)
  | .queued mac p => some (mac, p)
  | _ => none

/-- An entry with more packets in its queue. -/
def ArpEntry.more (e : ArpEntry) (q : List ArpPending) : ArpEntry :=
  { e with queue := e.queue ++ q }

theorem ArpEntry.more_nil (e : ArpEntry) : e.more [] = e := by
  unfold more
  rw [List.append_nil]

theorem ArpEntry.more_more (e : ArpEntry) (q q' : List ArpPending) :
    (e.more q).more q' = e.more (q ++ q') := by
  unfold more
  rw [List.append_assoc]

namespace Arp

variable {s s' : Arp} {i j : Nat} {ip : Ipv4Addr} {mac : MacAddr} {now : BitVec 32}

theorem setEntry_self : (s.setEntry i e).table i = e := update_self ..

theorem setEntry_ne (h : j ≠ i) : (s.setEntry i e).table j = s.table j :=
  update_of_ne h ..

/-- The packets from queues that were handed to the link, in this order. -/
def sent (s : Arp) : List (MacAddr × ArpPending) := s.out.filterMap ArpOut.sent

/-- The numbers of the packets that wait in an entry. -/
def waiting (s : Arp) (i : Nat) : List Nat := (s.table i).queue.map ArpPending.id

theorem waiting_set (ht : s'.table = update s.table i e) :
    s'.waiting = update s.waiting i (e.queue.map ArpPending.id) := by
  funext j
  unfold waiting
  rw [ht]
  exact apply_update (fun _ e => e.queue.map ArpPending.id) s.table i e j

/-- A packet is the copy that was made under its number, for the address `ip`. -/
def Genuine (s : Arp) (ip : Ipv4Addr) (p : ArpPending) : Prop :=
  s.accepted[p.id]? = some ⟨ip, p.ethertype, p.data⟩

/-- The address a packet was accepted for. -/
def dest (s : Arp) (p : ArpPending) : Option Ipv4Addr := s.accepted[p.id]?.map ArpAccepted.ip

theorem Genuine.dest (h : s.Genuine ip p) : s.dest p = some ip := by
  unfold Arp.dest
  rw [h]
  rfl

/-! ## The changes -/

/-- No entry is about the address. -/
def Unknown (s : Arp) (ip : Ipv4Addr) : Prop := ∀ i, (s.table i).state ≠ .free → (s.table i).ip ≠ ip

inductive Move (s : Arp) : Arp → Prop
  | quiet (mac : MacAddr) (ip : Ipv4Addr) (acd : Acd) (o : List ArpOut)
      (ho : ∀ x ∈ o, x.sent = none) : Move s { s with mac, ip, acd, out := s.out ++ o }
  | clear (i : Nat)
      (h : (s.table i).state = .incomplete → (s.table i).probes = arpMaxProbes) :
      Move s (s.arpFreeEntry i)
  | create (i : Nat) (ip : Ipv4Addr) (hi : i < arpMaxEntries) (hf : (s.table i).state = .free)
      (hn : s.Unknown ip) : Move s (s.create i ip)
  | enqueue (i : Nat) (ethertype : BitVec 16) (data : List (BitVec 8)) (memory : Bool)
      (h : (s.table i).state = .incomplete) : Move s (s.enqueue i ethertype data memory)
  | probe (i : Nat) (now : BitVec 32) (hp : (s.table i).probes < arpMaxProbes) :
      Move s (s.probe i now)
  | resolve (i : Nat) (mac : MacAddr) (now : BitVec 32) (h : (s.table i).state ≠ .free) :
      Move s (s.resolve i mac now)

abbrev Moves : Arp → Arp → Prop := Relation.ReflTransGen Move

theorem Moves.keeps {I : Arp → Prop} (hI : ∀ {s s'}, I s → Move s s' → I s') (h : Moves s s')
    (hs : I s) : I s' := by
  induction h with
  | refl => exact hs
  | tail _ hm ih => exact hI ih hm

/-! ## The table -/

/-- The entries of the table. -/
structure Tidy (s : Arp) : Prop where
  bound : ∀ i, (s.table i).state ≠ .free → i < arpMaxEntries
  unique : ∀ i j, (s.table i).state ≠ .free → (s.table j).state ≠ .free →
    (s.table i).ip = (s.table j).ip → i = j
  queues : ∀ i, (s.table i).queue ≠ [] → (s.table i).state = .incomplete
  room : ∀ i, (s.table i).queue.length ≤ arpMaxQueue
  tries : ∀ i, (s.table i).probes ≤ arpMaxProbes

/-- An entry is exchanged for one that stands for the same address, or for none. -/
theorem Tidy.set (h : Tidy s) (ht : s'.table = update s.table i e)
    (hb : e.state ≠ .free → i < arpMaxEntries)
    (hu : e.state ≠ .free → ∀ j, j ≠ i → (s.table j).state ≠ .free → (s.table j).ip ≠ e.ip)
    (hq : e.queue ≠ [] → e.state = .incomplete) (hr : e.queue.length ≤ arpMaxQueue)
    (hp : e.probes ≤ arpMaxProbes) : Tidy s' := by
  have hat : ∀ j, s'.table j = if j = i then e else s.table j := by
    intro j
    rw [ht, update_apply]
  refine ⟨fun j => ?_, fun j k => ?_, fun j => ?_, fun j => ?_, fun j => ?_⟩
  · rw [hat]
    split
    · rename_i hj
      rw [hj]
      exact hb
    · exact h.bound j
  · rw [hat, hat]
    split <;> split <;> rename_i hj hk
    · exact fun _ _ _ => hj.trans hk.symm
    · exact fun he hk' heq => absurd heq.symm (hu he k hk hk')
    · exact fun hj' he heq => absurd heq (hu he j hj hj')
    · exact h.unique j k
  · rw [hat]
    split
    · exact hq
    · exact h.queues j
  · rw [hat]
    split
    · exact hr
    · exact h.room j
  · rw [hat]
    split
    · exact hp
    · exact h.tries j

theorem Tidy.others (h : Tidy s) (hf : (s.table i).state ≠ .free) (hj : j ≠ i)
    (hjf : (s.table j).state ≠ .free) : (s.table j).ip ≠ (s.table i).ip :=
  fun he => hj (h.unique j i hjf hf he)

theorem Tidy.move (h : Tidy s) (hm : Move s s') : Tidy s' := by
  cases hm with
  | quiet => exact ⟨h.bound, h.unique, h.queues, h.room, h.tries⟩
  | clear i _ =>
    exact h.set (i := i) rfl (fun hf => absurd rfl hf) (fun hf => absurd rfl hf)
      (fun hq => absurd rfl hq) (Nat.zero_le _) (Nat.zero_le _)
  | create i ip hi hf hn =>
    exact h.set (i := i) rfl (fun _ => hi) (fun _ j _ hj => hn j hj) (fun _ => rfl)
      (Nat.zero_le _) (Nat.zero_le _)
  | enqueue i ethertype data memory hs =>
    have hf := ArpEntry.busy hs
    unfold enqueue
    dsimp only
    split
    · rename_i hq
      refine h.set (i := i) rfl (fun _ => h.bound i hf) (fun _ j hj hjf => h.others hf hj hjf)
        (fun _ => hs) ?_ (h.tries i)
      rw [List.length_append]
      exact hq.1
    · exact h
  | probe i now hp =>
    exact h.set (i := i) rfl (h.bound i) (fun hf j hj hjf => h.others hf hj hjf)
      (h.queues i) (h.room i) hp
  | resolve i mac now hf =>
    unfold resolve
    dsimp only
    split
    · exact h.set (i := i) rfl (fun _ => h.bound i hf) (fun _ j hj hjf => h.others hf hj hjf)
        (fun hq => absurd rfl hq) (Nat.zero_le _) (h.tries i)
    · exact h.set (i := i) rfl (fun _ => h.bound i hf) (fun _ j hj hjf => h.others hf hj hjf)
        (h.queues i) (h.room i) (h.tries i)

theorem Tidy.moves (h : Tidy s) (hm : Moves s s') : Tidy s' := hm.keeps Tidy.move h

/-! ## The copies -/

/-- The copies of the packets, those that wait and those that were handed to the link. -/
structure Books (s : Arp) : Prop where
  custody : Custody s.waiting s.freed s.accepted.length
  genuine : ∀ i, ∀ p ∈ (s.table i).queue, s.Genuine (s.table i).ip p
  once : (s.sent.map fun x => x.2.id).Sublist s.freed
  right : ∀ x ∈ s.sent, ∃ ip, s.Genuine ip x.2 ∧ (ip, x.1) ∈ s.learned
  order : s.sent.Pairwise fun x y => s.dest x.2 = s.dest y.2 → x.2.id < y.2.id
  ahead : ∀ x ∈ s.sent, ∀ i, ∀ p ∈ (s.table i).queue, s.dest x.2 = s.dest p → x.2.id < p.id

theorem Genuine.lt (h : s.Genuine ip p) : p.id < s.accepted.length :=
  (List.getElem?_eq_some_iff.mp h).1

theorem Genuine.mono (h : s.Genuine ip p) (ha : s.accepted <+: s'.accepted) :
    s'.Genuine ip p := by
  obtain ⟨l, hl⟩ := ha
  unfold Genuine
  rw [← hl, List.getElem?_append_left h.lt]
  exact h

theorem Tidy.waits (h : Tidy s) (hp : p ∈ (s.table i).queue) : (s.table i).state ≠ .free :=
  ArpEntry.busy (h.queues i (List.ne_nil_of_mem hp))

/-- What a change of entry `i` has to say: `gone` was sent from its queue, and what is in a queue
was there or is the newest copy. -/
theorem Books.change (h : Books s) (gone : List (MacAddr × ArpPending)) (old : List Nat)
    (hc : Custody s'.waiting s'.freed s'.accepted.length) (ha : s.accepted <+: s'.accepted)
    (hl : ∀ x ∈ s.learned, x ∈ s'.learned) (hs : s'.sent = s.sent ++ gone)
    (hf : s'.freed = s.freed ++ old) (hold : (gone.map fun x => x.2.id).Sublist old)
    (hg : (gone.map Prod.snd).Sublist (s.table i).queue)
    (hr : ∀ x ∈ gone, ((s.table i).ip, x.1) ∈ s'.learned)
    (hq : ∀ {j p}, p ∈ (s'.table j).queue →
      p ∈ (s.table j).queue ∧ (s'.table j).ip = (s.table j).ip ∧
        (gone ≠ [] → (s.table j).ip ≠ (s.table i).ip) ∨
      p.id = s.accepted.length ∧ s'.Genuine (s'.table j).ip p) : Books s' := by
  have hfrom : ∀ x ∈ gone, s.Genuine (s.table i).ip x.2 :=
    fun x hx => h.genuine i x.2 (hg.subset (List.mem_map_of_mem hx))
  have hdest : ∀ {ip p}, s.Genuine ip p → s'.dest p = s.dest p :=
    fun hp => (hp.mono ha).dest.trans hp.dest.symm
  have hsent : ∀ x ∈ s.sent ++ gone, ∃ ip, s.Genuine ip x.2 := by
    intro x hx
    rcases List.mem_append.mp hx with hx | hx
    · obtain ⟨ip, hgen, -⟩ := h.right x hx
      exact ⟨ip, hgen⟩
    · exact ⟨_, hfrom x hx⟩
  refine ⟨hc, fun j p hp => ?_, ?_, fun x hx => ?_, ?_, fun x hx j p hp => ?_⟩
  · rcases hq hp with ⟨hp, hip, -⟩ | ⟨-, hnew⟩
    · rw [hip]
      exact (h.genuine j p hp).mono ha
    · exact hnew
  · rw [hs, hf, List.map_append]
    exact h.once.append hold
  · rw [hs] at hx
    rcases List.mem_append.mp hx with hx | hx
    · obtain ⟨ip, hgen, hm⟩ := h.right x hx
      exact ⟨ip, hgen.mono ha, hl _ hm⟩
    · exact ⟨_, (hfrom x hx).mono ha, hr x hx⟩
  · -- the numbers in a queue grow
    have hids : (gone.map fun x => x.2.id).Pairwise (· < ·) := by
      have hsub := hg.map ArpPending.id
      rw [List.map_map] at hsub
      exact (h.custody.sorted i).sublist hsub
    rw [hs]
    refine (List.pairwise_append.mpr ⟨h.order, ?_, fun x hx y hy => h.ahead x hx i y.2
      (hg.subset (List.mem_map_of_mem hy))⟩).imp_of_mem fun hx hy hlt => ?_
    · refine (List.pairwise_map.mp hids).imp ?_
      exact fun hlt _ => hlt
    obtain ⟨_, hx⟩ := hsent _ hx
    obtain ⟨_, hy⟩ := hsent _ hy
    rw [hdest hx, hdest hy]
    exact hlt
  · rw [hs] at hx
    obtain ⟨_, hgx⟩ := hsent x hx
    rcases hq hp with ⟨hp, -, hne⟩ | ⟨hid, -⟩
    · have hgp := h.genuine j p hp
      rw [hdest hgx, hdest hgp]
      rcases List.mem_append.mp hx with hx | hx
      · exact h.ahead x hx j p hp
      · -- the packets of another entry are for another address
        rw [(hfrom x hx).dest, hgp.dest]
        exact fun hd => absurd (Option.some.inj hd).symm (hne (List.ne_nil_of_mem hx))
    · exact fun _ => hid ▸ hgx.lt

/-- No queue changes. -/
theorem Books.same (h : Books s) (ht : s'.table = update s.table i e)
    (hq : e.queue = (s.table i).queue) (hip : e.queue ≠ [] → e.ip = (s.table i).ip)
    (ho : s'.sent = s.sent) (ha : s'.accepted = s.accepted) (hf : s'.freed = s.freed)
    (hl : ∀ x ∈ s.learned, x ∈ s'.learned) : Books s' := by
  have hw : s'.waiting = s.waiting := by
    rw [waiting_set ht, hq]
    exact update_eq_self i s.waiting
  refine h.change (i := i) [] [] ?_ (ha ▸ List.prefix_rfl) hl (ho.trans (List.append_nil _).symm)
    (hf.trans (List.append_nil _).symm) .slnil (List.nil_sublist _) nofun fun {j p} hp => ?_
  · rw [hw, hf, ha]
    exact h.custody
  · by_cases hj : j = i
    · subst hj
      rw [ht, update_self] at hp ⊢
      exact .inl ⟨hq ▸ hp, hip (List.ne_nil_of_mem hp), fun hn => absurd rfl hn⟩
    · rw [ht, update_of_ne hj] at hp ⊢
      exact .inl ⟨hp, rfl, fun hn => absurd rfl hn⟩

/-- A queue is emptied; what was in it is sent, or not. -/
theorem Books.empty (h : Books s) (ht : Tidy s) (gone : List (MacAddr × ArpPending))
    (ht' : s'.table = update s.table i e) (hq : e.queue = [])
    (ho : s'.sent = s.sent ++ gone) (ha : s'.accepted = s.accepted)
    (hf : s'.freed = s.freed ++ s.waiting i) (hl : ∀ x ∈ s.learned, x ∈ s'.learned)
    (hg : (gone.map Prod.snd).Sublist (s.table i).queue)
    (hr : ∀ x ∈ gone, ((s.table i).ip, x.1) ∈ s'.learned) : Books s' := by
  have hids := hg.map ArpPending.id
  rw [List.map_map] at hids
  refine h.change gone _ ?_ (ha ▸ List.prefix_rfl) hl ho hf hids hg hr fun {j p} hp => ?_
  · rw [waiting_set ht', hq, hf, ha]
    exact h.custody.empty i
  · have hji : j ≠ i := by
      rintro rfl
      rw [ht', update_self, hq] at hp
      cases hp
    rw [ht', update_of_ne hji] at hp ⊢
    refine .inl ⟨hp, rfl, fun hne => ?_⟩
    obtain ⟨x, hx⟩ := List.exists_mem_of_ne_nil _ hne
    exact ht.others (ht.waits (hg.subset (List.mem_map_of_mem hx))) hji (ht.waits hp)

/-- A new copy is put into a queue. -/
theorem Books.take (h : Books s) (ht : s'.table = update s.table i
      ((s.table i).more [⟨s.accepted.length, a.ethertype, a.data⟩])) (ho : s'.out = s.out)
    (ha : s'.accepted = s.accepted ++ [a]) (hai : a.ip = (s.table i).ip)
    (hf : s'.freed = s.freed) (hl : s'.learned = s.learned) : Books s' := by
  have hso : s'.sent = s.sent := by
    unfold sent
    rw [ho]
  refine h.change (i := i) [] [] ?_ ⟨[a], ha.symm⟩ (fun x hx => hl ▸ hx)
    (hso.trans (List.append_nil _).symm) (hf.trans (List.append_nil _).symm) .slnil
    (List.nil_sublist _) nofun fun {j p} hp => ?_
  · rw [waiting_set ht, ArpEntry.more, List.map_append, hf, ha, List.length_append]
    exact h.custody.take i
  · by_cases hji : j = i
    · subst hji
      rw [ht, update_self] at hp ⊢
      rcases List.mem_append.mp hp with hp | hp
      · exact .inl ⟨hp, rfl, fun hn => absurd rfl hn⟩
      · rw [List.mem_singleton.mp hp]
        refine .inr ⟨rfl, ?_⟩
        unfold Genuine
        rw [ha, List.getElem?_concat_length, ArpEntry.more, ← hai]
    · rw [ht, update_of_ne hji] at hp ⊢
      exact .inl ⟨hp, rfl, fun hn => absurd rfl hn⟩

theorem sent_append (s : Arp) (o : List ArpOut) (h : s'.out = s.out ++ o) :
    s'.sent = s.sent ++ o.filterMap ArpOut.sent := by
  unfold sent
  rw [h, List.filterMap_append]

theorem filterMap_sent_eq_nil (h : ∀ x ∈ o, x.sent = none) :
    o.filterMap ArpOut.sent = [] := List.filterMap_eq_nil_iff.mpr h

theorem filterMap_sent_queued (mac : MacAddr) (q : List ArpPending) :
    (q.map (ArpOut.queued mac)).filterMap ArpOut.sent = q.map (Prod.mk mac) := by
  rw [List.filterMap_map, ← List.filterMap_eq_map]
  rfl

theorem Books.move (h : Books s) (ht : Tidy s) (hm : Move s s') : Books s' := by
  cases hm with
  | quiet mac ip acd o ho =>
    refine h.same (update_eq_self 0 s.table).symm rfl (fun _ => rfl) ?_ rfl rfl (fun _ => id)
    rw [sent_append s o rfl, filterMap_sent_eq_nil ho, List.append_nil]
  | clear i _ =>
    exact h.empty (i := i) ht [] rfl rfl (List.append_nil _).symm rfl rfl
      (fun _ => id) (List.nil_sublist _) (fun _ hx => by cases hx)
  | create i ip hi hf hn =>
    have hq : (s.table i).queue = [] := by
      by_contra hne
      rw [ht.queues i hne] at hf
      cases hf
    exact h.same rfl hq.symm (fun hne => absurd rfl hne) rfl rfl rfl (fun _ => id)
  | enqueue i ethertype data memory hs =>
    unfold enqueue
    dsimp only
    split
    · exact h.take (i := i) (a := ⟨(s.table i).ip, ethertype, data⟩) rfl rfl rfl rfl rfl rfl
    · exact h
  | probe i now hp =>
    refine h.same (i := i) rfl rfl (fun _ => rfl) ?_ rfl rfl (fun _ => id)
    exact (sent_append s _ rfl).trans (List.append_nil _)
  | resolve i mac now hf =>
    unfold resolve
    dsimp only
    split
    · refine h.empty (i := i) ht ((s.table i).queue.map (Prod.mk mac)) rfl rfl
        ?_ rfl rfl (fun _ => List.mem_append_left _) ?_ (fun x hx => ?_)
      · rw [← filterMap_sent_queued]
        exact sent_append s _ rfl
      · simp [Function.comp_def]
      · obtain ⟨p, -, rfl⟩ := List.mem_map.mp hx
        exact List.mem_append_right _ (List.mem_singleton_self _)
    · exact h.same (i := i) rfl rfl (fun _ => rfl) rfl rfl rfl (fun _ => List.mem_append_left _)

/-- The invariant of the cache. -/
structure Sound (s : Arp) : Prop where
  tidy : Tidy s
  books : Books s

theorem Sound.move (h : Sound s) (hm : Move s s') : Sound s' :=
  ⟨h.tidy.move hm, h.books.move h.tidy hm⟩

theorem Sound.moves (h : Sound s) (hm : Moves s s') : Sound s' := hm.keeps Sound.move h

theorem Sound.init (mac : MacAddr) (ip : Ipv4Addr) : Sound (arpInit mac ip) where
  tidy := ⟨fun _ hf => absurd rfl hf, fun _ _ hf => absurd rfl hf, fun _ hq => absurd rfl hq,
    fun _ => Nat.zero_le _, fun _ => Nat.zero_le _⟩
  books := ⟨.init Nat, nofun, .slnil, nofun, .nil, nofun⟩

/-! ## What a call can do -/

theorem arpFind_some (h : s.arpFind ip = some i) :
    i < arpMaxEntries ∧ (s.table i).state ≠ .free ∧ (s.table i).ip = ip := by
  have hp := List.find?_some h
  have hm := List.mem_of_find?_eq_some h
  exact ⟨List.mem_range.mp hm, of_decide_eq_true hp⟩

theorem arpFind_none (ht : Tidy s) (h : s.arpFind ip = none) : s.Unknown ip := by
  intro i hf he
  have hn := List.find?_eq_none.mp h i (List.mem_range.mpr (ht.bound i hf))
  exact hn (decide_eq_true ⟨hf, he⟩)

theorem freeSlot_some (h : s.freeSlot = some i) :
    i < arpMaxEntries ∧ (s.table i).state = .free := by
  have hp := List.find?_some h
  have hm := List.mem_of_find?_eq_some h
  exact ⟨List.mem_range.mp hm, of_decide_eq_true hp⟩

/-- Only resolved entries have to go. -/
theorem victim_some (h : s.victim = some i) :
    i < arpMaxEntries ∧ (s.table i).state = .reachable := by
  refine List.foldlRecOn (motive := fun v => ∀ j, v = some j →
    j < arpMaxEntries ∧ (s.table j).state = .reachable) slots _ (by simp)
    (fun v hv k hk j hj => ?_) i h
  split at hj
  · rename_i hr
    cases hj
    exact ⟨List.mem_range.mp hk, hr.1⟩
  · exact hv j hj

/-- The entry `i` is about `ip`: it was there, or it has taken the place of one that was not
waiting for an answer. -/
structure Opened (s : Arp) (ip : Ipv4Addr) (s' : Arp) (i : Nat) : Prop where
  moves : Moves s s'
  about : (s'.table i).ip = ip
  busy : (s'.table i).state ≠ .free
  others : ∀ j, j ≠ i → s'.table j = s.table j
  same : s'.table i = s.table i ∨
    (s.table i).state ≠ .incomplete ∧ s'.table i = { ip, state := .incomplete }

/-- An entry that waits for an answer is not touched, and is the one if it is about `ip`. -/
theorem Opened.entry (h : s.Opened ip s' i) (ht : Tidy s) (hj : (s.table j).state = .incomplete) :
    s'.table j = s.table j ∧ (j = i ↔ (s.table j).ip = ip) := by
  have hsame : s'.table j = s.table j := by
    by_cases hji : j = i
    · subst hji
      exact h.same.resolve_right fun hnew => hnew.1 hj
    · exact h.others j hji
  refine ⟨hsame, ?_, fun hip => ?_⟩
  · rintro rfl
    rw [← hsame]
    exact h.about
  · refine (ht.moves h.moves).unique j i ?_ h.busy ?_
    · rw [hsame]
      exact ArpEntry.busy hj
    · rw [hsame, hip, h.about]

/-- A free entry is taken for the address. -/
theorem Opened.create {s₁ : Arp} (hm : Moves s s₁) (hi : i < arpMaxEntries)
    (hf : (s₁.table i).state = .free) (hn : s₁.Unknown ip)
    (ho : ∀ j, j ≠ i → s₁.table j = s.table j) (hinc : (s.table i).state ≠ .incomplete) :
    s.Opened ip (s₁.create i ip) i where
  moves := hm.tail (.create i ip hi hf hn)
  about := congrArg ArpEntry.ip setEntry_self
  busy := by
    rw [Arp.create, setEntry_self]
    exact nofun
  others j hj := (setEntry_ne hj).trans (ho j hj)
  same := .inr ⟨hinc, setEntry_self⟩

theorem arpFindOrCreate_spec (ht : Tidy s) (h : s.arpFindOrCreate ip = (s', some i)) :
    s.Opened ip s' i := by
  unfold arpFindOrCreate at h
  split at h
  · rename_i k hk
    cases h
    obtain ⟨-, hf, hip⟩ := arpFind_some hk
    exact ⟨.refl, hip, hf, fun _ _ => rfl, .inl rfl⟩
  · rename_i hnone
    have hn := arpFind_none ht hnone
    split at h
    · rename_i k hk
      cases h
      obtain ⟨hi, hf⟩ := freeSlot_some hk
      exact .create .refl hi hf hn (fun _ _ => rfl) (by rw [hf]; exact nofun)
    · split at h
      · rename_i k hk
        cases h
        obtain ⟨hi, hr⟩ := victim_some hk
        have hinc : (s.table i).state ≠ .incomplete := by
          rw [hr]
          exact nofun
        have hgone : ((s.arpFreeEntry i).table i).state = .free :=
          congrArg ArpEntry.state setEntry_self
        refine .create (.single (.clear i fun h => absurd h hinc)) hi hgone (fun j hj => ?_)
          (fun j hj => setEntry_ne hj) hinc
        have hji : j ≠ i := by
          rintro rfl
          exact hj hgone
        rw [arpFreeEntry, setEntry_ne hji] at hj ⊢
        exact hn j hj
      · cases h

theorem arpFindOrCreate_none (h : s.arpFindOrCreate ip = (s', none)) : s' = s := by
  unfold arpFindOrCreate at h
  split at h
  · cases h
  · split at h
    · cases h
    · split at h
      · cases h
      · cases h
        rfl

theorem emit_nil (s : Arp) : s.emit [] = s := by
  unfold emit
  rw [List.append_nil]

theorem emit_moves (ho : ∀ x ∈ o, x.sent = none) : Moves s (s.emit o) :=
  .single (.quiet s.mac s.ip s.acd o ho)

/-- What is learned is dropped, or an entry is opened for it and resolved. -/
theorem arpLearn_cases (ht : Tidy s) (ip : Ipv4Addr) (mac : MacAddr) (now : BitVec 32) :
    s.arpLearn ip mac now = s ∨
      ∃ s₁ k, s.Opened ip s₁ k ∧ s.arpLearn ip mac now = s₁.resolve k mac now := by
  unfold arpLearn
  split
  · rename_i h
    exact .inl (arpFindOrCreate_none h)
  · rename_i s₁ k h
    exact .inr ⟨s₁, k, arpFindOrCreate_spec ht h, rfl⟩

theorem enqueue_others {ethertype : BitVec 16} {data : List (BitVec 8)} {memory : Bool}
    (hj : j ≠ i) : (s.enqueue i ethertype data memory).table j = s.table j := by
  unfold enqueue
  dsimp only
  split
  · exact setEntry_ne hj
  · rfl

theorem enqueue_self (s : Arp) (i : Nat) (ethertype : BitVec 16) (data : List (BitVec 8))
    (memory : Bool) : ∃ q, (s.enqueue i ethertype data memory).table i = (s.table i).more q := by
  unfold enqueue
  dsimp only
  split
  · exact ⟨_, setEntry_self⟩
  · exact ⟨[], (ArpEntry.more_nil _).symm⟩

/-- Every entry that waits for an answer has been asked for. -/
def Asked (s : Arp) : Prop := ∀ i, (s.table i).state = .incomplete → 0 < (s.table i).probes

/-- The entries that wait for an answer go on waiting, with the packets they have. -/
structure Calm (s s' : Arp) : Prop where
  moves : Moves s s'
  asked : Asked s'
  keeps : ∀ i, (s.table i).state = .incomplete → ∃ q, s'.table i = (s.table i).more q

theorem Calm.quiet (ha : Asked s) (hm : Moves s s') (ht : s'.table = s.table) : Calm s s' where
  moves := hm
  asked i := by
    rw [ht]
    exact ha i
  keeps i _ := ⟨[], by rw [ht, ArpEntry.more_nil]⟩

theorem Calm.refl (ha : Asked s) : Calm s s := .quiet ha .refl rfl

theorem Calm.trans {s₁ s₂ s₃ : Arp} (h : Calm s₁ s₂) (h' : Calm s₂ s₃) : Calm s₁ s₃ where
  moves := h.moves.trans h'.moves
  asked := h'.asked
  keeps i hi := by
    obtain ⟨q, hq⟩ := h.keeps i hi
    obtain ⟨q', hq'⟩ := h'.keeps i (by rw [hq]; exact hi)
    exact ⟨q ++ q', by rw [hq', hq, ArpEntry.more_more]⟩

theorem arpSendFrame_calm {ethertype : BitVec 16} {data : List (BitVec 8)} {memory : Bool}
    (ht : Tidy s) (ha : Asked s) : Calm s (s.arpSendFrame ip ethertype data memory now) := by
  unfold arpSendFrame
  split
  · exact .quiet ha (emit_moves (by simp [ArpOut.sent])) rfl
  · split
    · rename_i h
      rw [arpFindOrCreate_none h]
      exact .refl ha
    · rename_i s₁ i h
      have hi := arpFindOrCreate_spec ht h
      split
      · -- the address is known
        rename_i hr
        have hsame : s₁.table = s.table := by
          funext j
          by_cases hj : j = i
          · subst hj
            refine hi.same.resolve_right fun hnew => ?_
            rw [hnew.2] at hr
            cases hr
          · exact hi.others j hj
        exact .quiet ha (hi.moves.trans (emit_moves (by simp [ArpOut.sent]))) hsame
      · rename_i hr
        have hinc : (s₁.table i).state = .incomplete := by
          cases hs : (s₁.table i).state with
          | free => exact absurd hs hi.busy
          | incomplete => rfl
          | reachable => exact absurd hs hr
        obtain ⟨q, hq⟩ := enqueue_self s₁ i ethertype data memory
        have hothers : ∀ j, j ≠ i → (s₁.enqueue i ethertype data memory).table j = s.table j :=
          fun j hj => (enqueue_others hj).trans (hi.others j hj)
        have hmoves := hi.moves.tail (.enqueue i ethertype data memory hinc)
        dsimp only
        split
        · rename_i hp
          have hnew : (s.table i).state ≠ .incomplete := by
            intro hold
            rw [hq, (hi.entry ht hold).1] at hp
            exact absurd hp (Nat.ne_of_gt (ha i hold))
          refine ⟨hmoves.tail (.probe i now ?_), fun j hj => ?_, fun j hj => ?_⟩
          · rw [hp]
            decide
          · by_cases hji : j = i
            · subst hji
              rw [probe, setEntry_self]
              exact Nat.succ_pos _
            · rw [probe, setEntry_ne hji] at hj ⊢
              unfold arpRequest emit at hj ⊢
              rw [hothers j hji] at hj ⊢
              exact ha j hj
          · have hji : j ≠ i := by
              rintro rfl
              exact hnew hj
            refine ⟨[], ?_⟩
            rw [probe, setEntry_ne hji, ArpEntry.more_nil]
            exact hothers j hji
        · rename_i hp
          refine ⟨hmoves, fun j hj => ?_, fun j hj => ?_⟩
          · by_cases hji : j = i
            · subst hji
              exact Nat.pos_of_ne_zero hp
            · rw [hothers j hji] at hj ⊢
              exact ha j hj
          · by_cases hji : j = i
            · subst hji
              exact ⟨q, by rw [hq, (hi.entry ht hj).1]⟩
            · exact ⟨[], by rw [hothers j hji, ArpEntry.more_nil]⟩

theorem silent_moves (mac : MacAddr) (ip : Ipv4Addr) (acd : Acd) :
    Moves s { s with mac, ip, acd } := by
  have h := Move.quiet mac ip acd [] nofun (s := s)
  rw [List.append_nil] at h
  exact .single h

theorem inner_calm (ht : Tidy s) (ha : Asked s) (c : Inner) : Calm s (s.inner c) := by
  cases c with
  | send => exact arpSendFrame_calm ht ha
  | acdStart ip now => exact .quiet ha (silent_moves s.mac s.ip ⟨true, ip, 0, now⟩) rfl
  | netif mac ip => exact .quiet ha (silent_moves mac ip s.acd) rfl

theorem foldl_inner_calm : ∀ (cb : List Inner) {s : Arp}, Tidy s → Asked s → Calm s (cb.foldl inner s)
  | [], _, _, ha => .refl ha
  | c :: cb, _, ht, ha =>
    have h := inner_calm ht ha c
    h.trans (foldl_inner_calm cb (ht.moves h.moves) h.asked)

theorem arpAcdFinish_calm (cb : List Inner) (ht : Tidy s) (ha : Asked s) :
    Calm s (s.arpAcdFinish cb) := by
  unfold arpAcdFinish
  split
  · exact .refl ha
  · have hc : Calm s { s with acd.active := false } :=
      .quiet ha (silent_moves s.mac s.ip { s.acd with active := false }) rfl
    exact hc.trans (foldl_inner_calm cb (ht.moves hc.moves) hc.asked)

theorem acdTick_calm (now : BitVec 32) (cb : List Inner) (ht : Tidy s) (ha : Asked s) :
    Calm s (s.acdTick now cb) := by
  unfold acdTick
  split
  · split
    · exact .quiet ha (.single (.quiet s.mac s.ip _ _ (by simp [ArpOut.sent]))) rfl
    · exact arpAcdFinish_calm cb ht ha
  · exact .refl ha

theorem resolve_others (hj : j ≠ i) : (s.resolve i mac now).table j = s.table j := by
  unfold resolve
  dsimp only
  split <;> exact setEntry_ne hj

theorem resolve_state (s : Arp) (i : Nat) (mac : MacAddr) (now : BitVec 32) :
    ((s.resolve i mac now).table i).state = .reachable := by
  unfold resolve
  dsimp only
  split
  · exact congrArg ArpEntry.state setEntry_self
  · rename_i h
    exact (congrArg ArpEntry.state setEntry_self).trans (not_not.mp h)

/-- A tick finds the last request for an entry old enough. -/
def Due (s : Arp) (i : Nat) : Call → Prop
  | .tick now _ => arpProbeMs ≤ (now - (s.table i).lastTx).toInt
  | _ => False

instance (s : Arp) (i : Nat) : DecidablePred (s.Due i) := fun c => by
  cases c <;> unfold Due <;> infer_instance

/-- What a call makes of an entry that waits for an answer. `more` are the packets that came on the
way, sent by the callback of the conflict detection or by the call itself. -/
inductive Fate (s : Arp) (i : Nat) (c : Call) (s' : Arp) : Prop
  | waits (more : List ArpPending) (hd : ¬s.Due i c) (h : s'.table i = (s.table i).more more)
  | asked (more : List ArpPending) (now : BitVec 32) (hd : s.Due i c)
      (hp : (s.table i).probes < arpMaxProbes)
      (h : s'.table i =
        { (s.table i).more more with probes := (s.table i).probes + 1, lastTx := now })
  | resolved (more : List ArpPending) (len : Nat) (p : ArpPacket) (allow : Bool) (now : BitVec 32)
      (cb : List Inner) (hc : c = .rx len p allow now cb) (hip : p.spa = (s.table i).ip)
      (h : (s'.table i).state = .reachable)
      (hl : ((s.table i).ip, p.sha) ∈ s'.learned)
      (ho : ∃ o o', s'.out =
        o ++ ((s.table i).queue ++ more).map (ArpOut.queued p.sha) ++ o')
  | dropped (hd : s.Due i c) (hp : (s.table i).probes = arpMaxProbes) (h : s'.table i = {})

/-- What a call does: moves after which the entries that wait have been asked for. -/
structure Steps (s : Arp) (c : Call) (s' : Arp) : Prop where
  moves : Moves s s'
  asked : Asked s'
  fate : ∀ i, (s.table i).state = .incomplete → Fate s i c s'

theorem Calm.steps {c : Call} (h : Calm s s') (hd : ∀ i, ¬s.Due i c) : Steps s c s' where
  moves := h.moves
  asked := h.asked
  fate i hi := by
    obtain ⟨q, hq⟩ := h.keeps i hi
    exact .waits q (hd i) hq

/-- The entries that wait are those for other addresses than the one that is learned. -/
theorem Calm.learn {s₁ : Arp} {len : Nat} {p : ArpPacket} {allow : Bool} {cb : List Inner}
    (hc : Calm s s₁) (ht : Tidy s) (ho : ∀ x ∈ o, x.sent = none) :
    Steps s (.rx len p allow now cb) ((s₁.arpLearn p.spa p.sha now).emit o) := by
  have ht₁ := ht.moves hc.moves
  rcases arpLearn_cases ht₁ p.spa p.sha now with hl | ⟨s₂, k, hk, hl⟩
  · rw [hl]
    exact (hc.trans (.quiet hc.asked (emit_moves ho) rfl)).steps fun _ => id
  rw [hl]
  have hother : ∀ i, i ≠ k → ((s₂.resolve k p.sha now).emit o).table i = s₁.table i :=
    fun i hik => (resolve_others hik).trans (hk.others i hik)
  refine ⟨((hc.moves.trans hk.moves).tail (.resolve k p.sha now hk.busy)).trans (emit_moves ho),
    fun i hi => ?_, fun i hi => ?_⟩
  · have hik : i ≠ k := by
      rintro rfl
      exact absurd (hi.symm.trans (resolve_state ..)) nofun
    rw [hother i hik] at hi ⊢
    exact hc.asked i hi
  · obtain ⟨q, hq⟩ := hc.keeps i hi
    have hi₁ : (s₁.table i).state = .incomplete := by
      rw [hq]
      exact hi
    obtain ⟨hsame, hip⟩ := hk.entry ht₁ hi₁
    by_cases hik : i = k
    · rw [hq] at hsame hip
      refine .resolved q len p allow now cb rfl (hip.mp hik).symm (hik ▸ resolve_state ..) ?_
        ⟨s₂.out, o, ?_⟩
      · unfold emit resolve
        rw [← hik, hsame]
        dsimp only
        split <;> exact List.mem_append_right _ (List.mem_singleton_self _)
      · unfold emit resolve
        rw [← hik, hsame, if_pos (by rw [ArpEntry.more, hi]; exact nofun)]
        rfl
    · exact .waits q id ((hother i hik).trans hq)

/-! ## Ticks -/

/-- What a tick makes of an entry. -/
def ticked (now : BitVec 32) (e : ArpEntry) : ArpEntry :=
  if e.state = .incomplete then
    if arpProbeMs ≤ (now - e.lastTx).toInt then
      if e.probes < arpMaxProbes then { e with probes := e.probes + 1, lastTx := now } else {}
    else e
  else if e.state = .reachable ∧ 0 ≤ (now - e.expire).toInt then {} else e

theorem tickEntry_table (now : BitVec 32) (s : Arp) (i : Nat) :
    (tickEntry now s i).table = update s.table i (ticked now (s.table i)) := by
  unfold tickEntry
  split
  · rename_i hs
    rw [ticked, if_neg (by simp [hs]), if_neg (by simp [hs]), update_eq_self]
  · rename_i hs
    rw [ticked, if_pos hs]
    split
    · split <;> rfl
    · exact (update_eq_self i s.table).symm
  · rename_i hs
    have hni : ¬(s.table i).state = .incomplete := by simp [hs]
    unfold ticked
    rw [if_neg hni]
    split
    · rename_i hd
      rw [if_pos ⟨hs, hd⟩]
      rfl
    · rename_i hd
      rw [if_neg (fun h => hd h.2), update_eq_self]

theorem tickEntry_moves (ht : Tidy s) (i : Nat) : Moves s (tickEntry now s i) := by
  unfold tickEntry
  split
  · exact .refl
  · split
    · split
      · rename_i hp
        exact .single (.probe i now hp)
      · rename_i hp
        exact .single (.clear i fun _ => Nat.le_antisymm (ht.tries i) (Nat.le_of_not_lt hp))
    · exact .refl
  · rename_i hr
    split
    · refine .single (.clear i fun hinc => ?_)
      rw [hr] at hinc
      cases hinc
    · exact .refl

theorem foldl_tickEntry_moves (now : BitVec 32) : ∀ (l : List Nat) {s : Arp}, Tidy s →
    Moves s (l.foldl (tickEntry now) s)
  | [], _, _ => .refl
  | i :: l, _, ht =>
    have h := tickEntry_moves ht i
    h.trans (foldl_tickEntry_moves now l (ht.moves h))

/-- The loop goes over each entry once. -/
theorem foldl_tickEntry_table (now : BitVec 32) : ∀ (l : List Nat) (s : Arp), l.Nodup → ∀ i,
    (l.foldl (tickEntry now) s).table i = if i ∈ l then ticked now (s.table i) else s.table i
  | [], s, _, i => rfl
  | k :: l, s, hl, i => by
    obtain ⟨hk, hl⟩ := List.nodup_cons.mp hl
    rw [List.foldl_cons, foldl_tickEntry_table now l _ hl i, tickEntry_table,
      update_apply]
    by_cases hik : i = k
    · subst hik
      simp [hk]
    · simp [hik]

theorem ticked_asked (now : BitVec 32) (he : e.state = .incomplete → 0 < e.probes)
    (h : (ticked now e).state = .incomplete) : 0 < (ticked now e).probes := by
  unfold ticked at h ⊢
  split
  · rename_i hs
    split
    · split
      · exact Nat.succ_pos _
      · rename_i hd hp
        rw [if_pos hs, if_pos hd, if_neg hp] at h
        cases h
    · exact he hs
  · rename_i hs
    split
    · rename_i hd
      rw [if_neg hs, if_pos hd] at h
      cases h
    · rename_i hd
      rw [if_neg hs, if_neg hd] at h
      exact he h

theorem arpTick_table (s : Arp) (now : BitVec 32) (cb : List Inner) (hi : i < arpMaxEntries) :
    (s.arpTick now cb).table i = ticked now ((s.acdTick now cb).table i) := by
  unfold arpTick
  rw [foldl_tickEntry_table now slots _ List.nodup_range]
  exact if_pos (List.mem_range.mpr hi)

theorem arpTick_steps (cb : List Inner) (ht : Tidy s) (ha : Asked s) :
    Steps s (.tick now cb) (s.arpTick now cb) := by
  have hc := acdTick_calm now cb ht ha
  have hm : Moves s (s.arpTick now cb) :=
    hc.moves.trans (foldl_tickEntry_moves now slots (ht.moves hc.moves))
  refine ⟨hm, fun i hi => ?_, fun i hi => ?_⟩
  · have hib := (ht.moves hm).bound i (ArpEntry.busy hi)
    rw [arpTick_table s now cb hib] at hi ⊢
    exact ticked_asked now (hc.asked i) hi
  · obtain ⟨q, hq⟩ := hc.keeps i hi
    have ht' := arpTick_table s now cb (ht.bound i (ArpEntry.busy hi))
    rw [hq, ticked, if_pos (show ((s.table i).more q).state = .incomplete from hi)] at ht'
    split at ht'
    · rename_i hd
      split at ht'
      · rename_i hp
        exact .asked q now hd hp ht'
      · rename_i hp
        exact .dropped hd (Nat.le_antisymm (ht.tries i) (Nat.le_of_not_lt hp)) ht'
    · rename_i hd
      exact .waits q hd ht'

/-! ## The invariant -/

/-- The invariant between two calls. -/
structure Inv (s : Arp) : Prop extends Sound s where
  asked : Asked s

/-- The detection of conflicts, what is learned, and the answer. -/
theorem arpRx_steps (len : Nat) (p : ArpPacket) (allow : Bool) (now : BitVec 32) (cb : List Inner)
    (ht : Tidy s) (ha : Asked s) :
    Steps s (.rx len p allow now cb) (s.arpRx len p allow now cb).1 := by
  unfold arpRx
  split
  · exact (Calm.refl ha).steps fun _ => id
  · split
    · exact (Calm.refl ha).steps fun _ => id
    · have hc : Calm s (s.conflict p cb) := by
        unfold conflict
        split
        · exact arpAcdFinish_calm cb ht ha
        · exact .refl ha
      dsimp only
      split
      · exact hc.learn ht (by simp [ArpOut.sent])
      · rw [← emit_nil (arpLearn ..)]
        exact hc.learn ht nofun

theorem step_steps (ht : Tidy s) (ha : Asked s) (c : Call) : Steps s c (s.step c) := by
  cases c with
  | send ip ethertype data memory now => exact (arpSendFrame_calm ht ha).steps fun _ => id
  | rx len p allow now cb => exact arpRx_steps len p allow now cb ht ha
  | tick now cb => exact arpTick_steps cb ht ha
  | acdStart ip now => exact (inner_calm ht ha (.acdStart ip now)).steps fun _ => id
  | netif mac ip => exact (inner_calm ht ha (.netif mac ip)).steps fun _ => id

theorem Inv.step (h : Inv s) (c : Call) : Inv (s.step c) where
  toSound := h.toSound.moves (step_steps h.tidy h.asked c).moves
  asked := (step_steps h.tidy h.asked c).asked

end Arp

open Arp in
theorem arp_sound {s : Arp} (h : arpSystem.Reachable s) : Inv s := by
  refine LTS.Inductive.reachable (L := arpSystem) ⟨?_, ?_⟩ h
  · rintro s ⟨mac, ip, rfl⟩
    exact ⟨.init mac ip, nofun⟩
  · intro s c s' hs hst
    cases hst
    exact hs.step c

/-! ## The fate of an entry -/

namespace Arp
variable {s s' : Arp} {i : Nat}

theorem Move.freed (hm : Move s s') : s.freed ⊆ s'.freed := by
  cases hm with
  | quiet => exact List.Subset.refl _
  | clear i _ => exact List.subset_append_left _ _
  | create => exact List.Subset.refl _
  | enqueue i ethertype data memory _ =>
    unfold Arp.enqueue
    dsimp only
    split <;> exact List.Subset.refl _
  | probe => exact List.Subset.refl _
  | resolve i mac now _ =>
    unfold Arp.resolve
    dsimp only
    split
    · exact List.subset_append_left _ _
    · exact List.Subset.refl _

/-- A packet stays in its entry until it is freed. -/
theorem Move.kept (ht : Tidy s) (hm : Move s s') (h : k ∈ s.waiting i) :
    k ∈ s'.waiting i ∨ k ∈ s'.freed := by
  have hat : ∀ {n e}, (n = i → ∀ p ∈ (s.table i).queue, p ∈ e.queue) →
      k ∈ (s.setEntry n e).waiting i := by
    intro n e he
    refine List.map_subset _ (fun p hp => ?_) h
    by_cases hn : i = n
    · subst hn
      rw [setEntry_self]
      exact he rfl p hp
    · rw [setEntry_ne hn]
      exact hp
  cases hm with
  | quiet => exact .inl h
  | clear n _ =>
    by_cases hn : n = i
    · exact .inr (List.mem_append_right _ (hn ▸ h))
    · exact .inl (hat (e := {}) fun hni => absurd hni hn)
  | create n ip _ hf _ =>
    refine .inl (hat ?_)
    rintro rfl p hp
    rw [ht.queues n (List.ne_nil_of_mem hp)] at hf
    cases hf
  | enqueue n ethertype data memory _ =>
    unfold Arp.enqueue
    dsimp only
    split
    · exact .inl (hat fun hn p hp => List.mem_append_left _ (hn ▸ hp))
    · exact .inl h
  | probe n now _ => exact .inl (hat fun hn p hp => hn ▸ hp)
  | resolve n mac now _ =>
    unfold Arp.resolve
    dsimp only
    split
    · by_cases hn : n = i
      · exact .inr (List.mem_append_right _ (hn ▸ h))
      · exact .inl (hat fun hni => absurd hni hn)
    · exact .inl (hat fun hn p hp => hn ▸ hp)

theorem Moves.freed (hm : Moves s s') : s.freed ⊆ s'.freed :=
  hm.keeps (I := fun t => s.freed ⊆ t.freed) (fun h hmv => List.Subset.trans h hmv.freed) (List.Subset.refl _)

theorem Moves.kept (ht : Tidy s) (hm : Moves s s') (h : k ∈ s.waiting i) :
    k ∈ s'.waiting i ∨ k ∈ s'.freed := by
  have hboth : Tidy s' ∧ (k ∈ s'.waiting i ∨ k ∈ s'.freed) := by
    refine hm.keeps (I := fun t => Tidy t ∧ (k ∈ t.waiting i ∨ k ∈ t.freed)) ?_ ⟨ht, .inl h⟩
    rintro t t' ⟨ht, hk | hk⟩ hmv
    · exact ⟨ht.move hmv, hmv.kept ht hk⟩
    · exact ⟨ht.move hmv, .inr (hmv.freed hk)⟩
  exact hboth.2

/-- The ticks of a run that find the last request for an entry old enough. -/
def dueTicks (s : Arp) (i : Nat) : List Call → Nat
  | [] => 0
  | c :: cs => (if s.Due i c then 1 else 0) + (s.step c).dueTicks i cs

theorem Inv.run (cs : List Call) (h : Inv s) : Inv (cs.foldl Arp.step s) := by
  induction cs generalizing s with
  | nil => exact h
  | cons c cs ih => exact ih (h.step c)

theorem Inv.run_freed : ∀ (cs : List Call) {s : Arp}, Inv s → s.freed ⊆ (cs.foldl Arp.step s).freed
  | [], _, _ => List.Subset.refl _
  | c :: cs, _, hs =>
    List.Subset.trans (step_steps hs.tidy hs.asked c).moves.freed ((hs.step c).run_freed cs)

/-- An entry in which a packet waits is one that waits for an answer. -/
theorem Tidy.incomplete (ht : Tidy s) (hk : k ∈ s.waiting i) :
    (s.table i).state = .incomplete := by
  refine ht.queues i fun hq => ?_
  rw [waiting, hq] at hk
  cases hk

/-- A packet is freed, or it still waits and every tick that was due has cost a request. -/
theorem run_fate : ∀ (cs : List Call) {s : Arp}, Inv s → k ∈ s.waiting i →
    k ∈ (cs.foldl step s).freed ∨ k ∈ (cs.foldl step s).waiting i ∧
      ((cs.foldl step s).table i).probes = (s.table i).probes + s.dueTicks i cs
  | [], _, _, hk => .inr ⟨hk, rfl⟩
  | c :: cs, s, hs, hk => by
    have hs' := hs.step c
    rw [List.foldl_cons, dueTicks]
    rcases (step_steps hs.tidy hs.asked c).moves.kept hs.tidy hk with hw | hf
    · have hprobes : ((s.step c).table i).probes =
          (s.table i).probes + if s.Due i c then 1 else 0 := by
        have hinc := hs'.tidy.incomplete hw
        rcases (step_steps hs.tidy hs.asked c).fate i (hs.tidy.incomplete hk) with
          ⟨q, hd, ht⟩ | ⟨q, now, hd, -, ht⟩ | ⟨q, len, p, allow, now, cb, rfl, -, hr, -, -⟩ |
          ⟨-, -, ht⟩
        · rw [if_neg hd, ht]
          rfl
        · rw [if_pos hd, ht]
        · rw [hr] at hinc
          cases hinc
        · rw [ht] at hinc
          cases hinc
      refine (run_fate cs hs' hw).imp_right fun ⟨hk', hp⟩ => ⟨hk', ?_⟩
      rw [hp, hprobes, Nat.add_assoc]
    · exact .inl (hs'.run_freed cs hf)

/-- The copy with number `k` of the packet `a` waits, in one place. -/
def Waits (s : Arp) (k : Nat) (a : ArpAccepted) : Prop :=
  s.freed.count k = 0 ∧ (∀ x ∈ s.sent, x.2.id ≠ k) ∧
    ∃ i, ⟨k, a.ethertype, a.data⟩ ∈ (s.table i).queue ∧ (s.table i).ip = a.ip ∧
      ∀ j, k ∈ s.waiting j → j = i

/-- The copy with number `k` of the packet `a` was freed once, and it was handed to the link at most
once: as it was accepted, and to an address that was learned for it. -/
def Done (s : Arp) (k : Nat) (a : ArpAccepted) : Prop :=
  s.freed.count k = 1 ∧ (∀ i, k ∉ s.waiting i) ∧
    ((∀ x ∈ s.sent, x.2.id ≠ k) ∨
      ∃ mac, s.sent.filter (fun x => x.2.id = k) = [(mac, ⟨k, a.ethertype, a.data⟩)] ∧
        (a.ip, mac) ∈ s.learned)

/-- A packet is the one that was accepted under its number. -/
theorem Genuine.eq {ip : Ipv4Addr} (h : s.Genuine ip p)
    (ha : s.accepted[p.id]? = some a) : ip = a.ip ∧ p = ⟨p.id, a.ethertype, a.data⟩ := by
  unfold Genuine at h
  rw [ha] at h
  cases h
  exact ⟨rfl, rfl⟩

theorem Books.sent_once (h : Books s) (k : Nat) :
    (s.sent.filter fun x => x.2.id = k).length ≤ 1 := by
  have hn : (s.sent.map fun x => x.2.id).Nodup := h.once.nodup h.custody.once
  calc (s.sent.filter fun x => x.2.id = k).length
      = (s.sent.map fun x => x.2.id).count k := by
        rw [List.count, List.countP_map, List.countP_eq_length_filter]
        rfl
    _ ≤ 1 := List.nodup_iff_count_le_one.mp hn k

theorem Books.fate (h : Books s) (ha : s.accepted[k]? = some a) :
    s.Waits k a ∨ s.Done k a := by
  have hk := (List.getElem?_eq_some_iff.mp ha).1
  have hfreed : ∀ x ∈ s.sent, x.2.id ∈ s.freed :=
    fun x hx => h.once.subset (List.mem_map_of_mem (f := fun x : MacAddr × ArpPending => x.2.id) hx)
  rcases h.custody.fate hk with ⟨hone, hnone⟩ | ⟨hzero, i, hi, huniq⟩
  · refine .inr ⟨hone, hnone, ?_⟩
    cases hf : s.sent.filter (fun x => x.2.id = k) with
    | nil =>
      refine .inl fun x hx he => ?_
      exact List.filter_eq_nil_iff.mp hf x hx (decide_eq_true he)
    | cons x l =>
      have hl : l = [] := by
        have hle := h.sent_once k
        rw [hf] at hle
        exact List.eq_nil_of_length_eq_zero (Nat.le_zero.mp (Nat.le_of_succ_le_succ hle))
      have hx : x ∈ s.sent.filter (fun x => x.2.id = k) := hf ▸ List.mem_cons_self
      obtain ⟨hx, he⟩ := List.mem_filter.mp hx
      have he := of_decide_eq_true he
      obtain ⟨ip, hg, hm⟩ := h.right x hx
      obtain ⟨rfl, hp⟩ := hg.eq (he ▸ ha)
      refine .inr ⟨x.1, ?_, hm⟩
      rw [hl, ← he, ← hp]
  · refine .inl ⟨hzero, fun x hx he => ?_, i, ?_⟩
    · exact List.count_eq_zero.mp hzero (he ▸ hfreed x hx)
    · obtain ⟨p, hp, rfl⟩ := List.mem_map.mp hi
      obtain ⟨hip, heq⟩ := (h.genuine i p hp).eq ha
      exact ⟨heq ▸ hp, hip, fun j hj => huniq j hj⟩

end Arp

open Arp in
/-- After any sequence of calls there is one entry for an address, only entries that wait for an
answer have a queue, and each packet that was put into one waits there or was freed once and sent at
most once, in the order of the queue. An entry that waits is asked for at most `arpMaxProbes` times:
no call but the answer or the end of the requests ends it, and a packet of its queue outlives less
than `arpMaxProbes` ticks that are due. -/
theorem arp_cache_sound {s : Arp} (h : arpSystem.Reachable s) :
    (∀ i j, (s.table i).state ≠ .free → (s.table j).state ≠ .free →
      (s.table i).ip = (s.table j).ip → i = j) ∧
    (∀ i, (s.table i).queue ≠ [] → (s.table i).state = .incomplete) ∧
    (∀ i, (s.table i).queue.length ≤ arpMaxQueue) ∧
    (∀ k a, s.accepted[k]? = some a → s.Waits k a ∨ s.Done k a) ∧
    (s.sent.Pairwise fun x y => s.dest x.2 = s.dest y.2 → x.2.id < y.2.id) ∧
    (∀ i, (s.table i).state = .incomplete →
      0 < (s.table i).probes ∧ (s.table i).probes ≤ arpMaxProbes ∧ ∀ c, Fate s i c (s.step c)) ∧
    (∀ i, ∀ k ∈ s.waiting i, ∀ cs, k ∈ (cs.foldl Arp.step s).freed ∨
      k ∈ (cs.foldl Arp.step s).waiting i ∧ s.dueTicks i cs < arpMaxProbes) := by
  have hs := arp_sound h
  refine ⟨hs.tidy.unique, hs.tidy.queues, hs.tidy.room, fun k a => hs.books.fate, hs.books.order,
    fun i hi => ⟨hs.asked i hi, hs.tidy.tries i, fun c => (step_steps hs.tidy hs.asked c).fate i hi⟩,
    fun i k hk cs => ?_⟩
  refine (run_fate cs hs hk).imp_right fun ⟨hw, hp⟩ => ⟨hw, ?_⟩
  have hpos := hs.asked i (hs.tidy.incomplete hk)
  have hle := (hs.run cs).tidy.tries i
  omega

/-- Two packets wait for an answer that comes after the second request, a third for one that does
not come. -/
theorem arp_cache_sound_answered : ∃ s, arpSystem.Reachable s ∧
    s.sent = [(7, ⟨0, 0x0800, [1]⟩), (7, ⟨1, 0x0800, [2]⟩)] ∧ s.freed = [0, 1, 2] ∧
    ∀ k a, s.accepted[k]? = some a → s.Waits k a ∨ s.Done k a := by
  have hreach : ∃ s, arpSystem.Reachable s ∧
      s.sent = [(7, ⟨0, 0x0800, [1]⟩), (7, ⟨1, 0x0800, [2]⟩)] ∧ s.freed = [0, 1, 2] :=
    LTS.reaches_of_foldlM
      (fun s : Arp => s.sent = [(7, ⟨0, 0x0800, [1]⟩), (7, ⟨1, 0x0800, [2]⟩)] ∧ s.freed = [0, 1, 2])
      [.send 5 0x0800 [1] true 0, .send 5 0x0800 [2] true 10, .tick 500 [],
        .rx 28 ⟨1, 0x0800, 6, 4, 2, 7, 5, 9, 3⟩ true 600 [],
        .send 6 0x0800 [3] true 700, .tick 1200 [], .tick 1700 []]
      ⟨9, 3, rfl⟩ (by decide +kernel)
  obtain ⟨s, hr, hs, hf⟩ := hreach
  exact ⟨s, hr, hs, hf, (arp_cache_sound hr).2.2.2.1⟩

end Zuzu.L5.Link
