import Zuzu.L5Net.NetdMoves

/-!
# What sockets hold, along every run of netd

`Steady` is the invariant of the tables that no packet and no request can break: the blocks a
socket refers to are its own (`Held`), also while a socket is being closed, and sockets
have numbers below `made`. From it follows that the calls of one session leave the
sockets of the others and their blocks alone (`Apart`).

**Results.** `netd_steady`: the invariant holds in every state of every run in which no callback
finds a freed socket (`netdSound`). `step_apart`: what a call of a session leaves alone.
-/
namespace Zuzu.L5
open Function Zuzu.Core
variable {s : Socket} {k : Nat} {p ns : SockId} {q : List Nat}

namespace Netd

variable {n m : Netd} {i j : Nat} {o : SockId} {op : Op} {l : Call} {n₀ : Netd} {x y : Closing}

/-! ## Entry points -/

theorem Reason.opening (h : Reason l n₀ n x i op) : op.opening = false := by
  cases h with
  | timer t => cases t <;> rfl
  | _ => rfl

theorem target_active {k : Packet} (h : n.target k = some i) : (n.pcb i).active := by
  unfold target at h
  split at h
  · rename_i j hj
    cases h
    have hp := List.find?_some hj
    exact (of_decide_eq_true hp).2.2.2.2
  · split at h
    · have hp := List.find?_some h
      exact (of_decide_eq_true hp).1
    · cases h

theorem Reason.active (h : Reason l n₀ n x i op) (ho : n.opensBy i op) : (n.pcb i).active := by
  cases h with
  | packet k isn i hl hn ht => exact target_active ht
  | timer t => cases t <;> cases ho
  | _ => cases ho

/-- A block without a socket to call back changes no socket. -/
theorem exec_socks_alone (hctx : n.ctx i = none) (ho : n.opensBy i op = false) :
    (n.exec i op).socks = n.socks :=
  exec_socks_same ho fun o _ _ _ h => by
    rw [hctx] at h
    cases h

/-- Nor does one without callbacks. -/
theorem exec_socks_mute (hcb : (n.pcb i).cb = false) (ho : n.opensBy i op = false) :
    (n.exec i op).socks = n.socks :=
  exec_socks_same ho fun _ _ _ h => by
    rw [hcb] at h
    cases h

theorem exec_same_socks (n : Netd) (i : Nat) (op : Op) : SameSocks n (n.exec i op) := by
  have hmove := exec_socks n i op
  intro o
  generalize (n.exec i op).socks = socks at hmove ⊢
  have henq : ∀ s : Socket, (s.enqueue i).face = s.face := fun s => by
    unfold Socket.enqueue
    split <;> rfl
  have hforget : ∀ s : Socket, (s.forget i).face = s.face := fun s => by
    unfold Socket.forget
    split <;> rfl
  cases hmove with
  | same => rfl
  | opened o₁ => exact SameSocks.modSock n o₁ henq o
  | closed o₁ => exact SameSocks.modSock n o₁ hforget o

theorem SameSocks.none (h : SameSocks n m) (hs : n.socks o = none) : m.socks o = .none := by
  have ho := h o
  rw [hs] at ho
  exact Option.map_eq_none_iff.mp ho

theorem alloc_inactive (h : n.tcpPcbAlloc = some i) : (n.pcb i).active = false := by
  have := List.find?_some h
  simpa using this

/-! ## The invariant -/

/-- The tables of netd. While socket `o` is closed it is out of step: the blocks it had call back
nobody else. -/
structure Steady (n : Netd) (x : Closing) : Prop where
  sane : n.Sane
  made : ∀ o, n.made ≤ o → n.socks o = none
  held : ∀ o, (∀ s, x ≠ some (o, s)) → n.Held o
  closing : ∀ o s, x = some (o, s) → (∃ s', n.socks o = some s' ∧ s'.face = s.face) ∧
    ∀ i, s.Ties i → n.ctx i = some o ∨ n.ctx i = none

namespace Steady

/-- No socket refers to a block that is not in use. -/
theorem untied (h : Steady n none) (hi : (n.pcb i).active = false)
    (hs : n.socks o = some s) : ¬s.Ties i := by
  intro ht
  have hm := ((h.held o nofun) s hs).mine ht
  rw [hm.active] at hi
  cases hi

theorem exec (h : Steady n x) (hr : Reason l n₀ n x i op) : Steady (n.exec i op) x where
  sane := h.sane.exec i hr.opening
  made o ho := (exec_same_socks n i op).none (h.made o (by rw [← (exec_rest n i op).made]; exact ho))
  held o ho := (h.held o ho).exec h.sane hr.opening hr.active
  closing o s hx := by
    obtain ⟨⟨s', hs', he⟩, hties⟩ := h.closing o s hx
    have hopens : n.opensBy i op = false := by
      subst hx
      cases hr <;> rfl
    refine ⟨?_, fun j hj => ?_⟩
    · have hsame := exec_same_socks n i op o
      rw [hs', Option.map_some] at hsame
      obtain ⟨s₁, hs₁, he₁⟩ := Option.map_eq_some_iff.mp hsame
      exact ⟨s₁, hs₁, he₁.trans he⟩
    · by_cases hji : j = i
      · subst hji
        rw [exec_ctx_self, hopens]
        exact hties j hj
      · rw [exec_ctx_ne n op hji]
        exact hties j hj

section
variable (h : Steady n none)
include h

/-- A block that was not in use is taken. -/
theorem fresh (hi : (n.pcb i).active = false)
    (hslot : ∀ j, j ≠ i → m.slots j = n.slots j) (hsocks : m.socks = n.socks)
    (hmade : m.made = n.made) (hsound : (m.pcb i).active → (m.pcb i).Sound) : Steady m none where
  sane j hj := by
    by_cases hji : j = i
    · subst hji
      exact hsound hj
    · rw [pcb_congr (hslot j hji)] at hj ⊢
      exact h.sane j hj
  made o ho := by
    rw [hsocks]
    exact h.made o (hmade ▸ ho)
  held o ho := by
    refine (h.held o ho).frame (by rw [hsocks]) fun s j hs hj => hslot j ?_
    rintro rfl
    exact h.untied hi hs hj
  closing := nofun

/-- Nothing in the tables has changed. -/
theorem same (hslots : m.slots = n.slots) (hsocks : m.socks = n.socks)
    (hmade : m.made = n.made) : Steady m none where
  sane j hj := by
    rw [pcb_congr (congrFun hslots j)] at hj ⊢
    exact h.sane j hj
  made o ho := hsocks ▸ h.made o (hmade ▸ ho)
  held o ho := (h.held o ho).frame (congrFun hsocks o) fun _ j _ _ => congrFun hslots j
  closing := nofun

theorem answer (p : Nat) (k : Packet) (isn : Seq) (hi : n.tcpPcbAlloc = some i) :
    Steady ((n.answered p i k).exec i (.accept p k.seg isn)) none := by
  have hctx : (n.answered p i k).ctx i = none := ctx_setSlot_self ..
  have hsound := accept_after ((n.answered p i k).envFor i) ((n.answered p i k).cx i) p k.seg isn
  refine h.fresh (alloc_inactive hi) (fun j hj => ?_) ?_ (exec_rest ..).made fun _ => ?_
  · rw [exec_slots_ne _ _ hj]
    exact slots_setSlot_ne n _ hj
  · exact exec_socks_alone hctx rfl
  · rw [exec_pcb_self]
    obtain ⟨-, hst, hcb, -⟩ := hsound
    refine ⟨fun h' => ?_, fun h' => ?_, fun _ _ => ?_⟩
    · exact absurd (hst.symm.trans h') nofun
    · exact absurd (hst.symm.trans h') nofun
    · have hfresh : ((n.answered p i k).cx i).pcb.cb = false := by
        change ((n.answered p i k).pcb i).cb = false
        rw [answered, pcb_setSlot_self]
        rfl
      exact hcb.trans hfresh

/-- The block of a connect, whatever came of its SYN. -/
theorem dialled (ip port : Nat) (isn : Seq) (hi : n.tcpPcbAlloc = some i) :
    Steady ((n.dialled i ip port).exec i (.connect isn)) none ∧
      ((n.dialled i ip port).exec i (.connect isn)).socks = n.socks := by
  have hctx : (n.dialled i ip port).ctx i = none := ctx_setSlot_self ..
  have hsocks : ((n.dialled i ip port).exec i (.connect isn)).socks = n.socks :=
    exec_socks_alone hctx rfl
  refine ⟨h.fresh (alloc_inactive hi) (fun j hj => ?_) hsocks (exec_rest ..).made fun hact => ?_,
    hsocks⟩
  · rw [exec_slots_ne _ _ hj]
    exact slots_setSlot_ne _ _ hj
  · rw [exec_pcb_self] at hact ⊢
    obtain ⟨hface, hst, -⟩ := connect_after hact
    have hparent : ((n.dialled i ip port).after i (.connect isn)).parent = 0 := by
      refine (congrArg Face.parent hface).trans ?_
      change ((n.dialled i ip port).pcb i).parent = 0
      rw [Netd.dialled, pcb_setSlot_self]
      rfl
    exact ⟨fun h' => absurd (hst.symm.trans h') nofun, fun _ => hparent,
      fun h' => absurd (hst.symm.trans h') nofun⟩

theorem refuse (ip port : Nat) (hi : n.tcpPcbAlloc = some i) :
    Steady ((n.dialled i ip port).exec i .drop) none := by
  have hctx : (n.dialled i ip port).ctx i = none := ctx_setSlot_self ..
  refine h.fresh (alloc_inactive hi) (fun j hj => ?_) (exec_socks_alone hctx rfl)
    (exec_rest ..).made fun hact => ?_
  · rw [exec_slots_ne _ _ hj]
    exact slots_setSlot_ne _ _ hj
  · rw [exec_pcb_self] at hact
    cases hact

/-- A socket without blocks is given one that nobody refers to. -/
theorem tie {t : Socket} (hs : n.socks o = some s)
    (hactive : (m.pcb i).active) (hctx : m.ctx i = some o) (hcb : (m.pcb i).cb)
    (hspeak : t.listener = false → (m.pcb i).state ≠ .listening)
    (hsound : (m.pcb i).Sound) (hq : t.acceptQ = []) (hp : t.pcb = some i)
    (hfree : ∀ o s, n.socks o = some s → ¬s.Ties i)
    (hslot : ∀ j, j ≠ i → m.slots j = n.slots j) (hmade : m.made = n.made)
    (hself : m.socks o = some t) (hother : ∀ o', o' ≠ o → m.socks o' = n.socks o') :
    Steady m none where
  sane j hj := by
    by_cases hji : j = i
    · subst hji
      exact hsound
    · rw [pcb_congr (hslot j hji)] at hj ⊢
      exact h.sane j hj
  made o' ho' := by
    have hnone := h.made o' (hmade ▸ ho')
    have hoo : o' ≠ o := by
      rintro rfl
      rw [hs] at hnone
      cases hnone
    rw [hother o' hoo]
    exact hnone
  held o' _ := by
    by_cases hoo : o' = o
    · subst hoo
      intro s₁ hs₁
      rw [hself] at hs₁
      cases hs₁
      refine ⟨by rw [hq]; exact List.nodup_nil, fun j hj => ?_, fun j hj => ?_⟩
      · rw [hq] at hj
        cases hj
      · rw [hp] at hj
        cases hj
        exact ⟨⟨hactive, hctx, hcb⟩, hspeak⟩
    · refine (h.held o' nofun).frame (hother o' hoo) fun s₁ j hs₁ hj => hslot j ?_
      rintro rfl
      exact hfree o' s₁ hs₁ hj
  closing := nofun

/-- Only a listener has a queue. -/
theorem queue_nil (hs : n.socks o = some s) (hl : s.listener = false) : s.acceptQ = [] := by
  refine List.eq_nil_iff_forall_not_mem.mpr fun i hi => ?_
  have hq := (((h.held o nofun) s hs).queue i hi).listener
  rw [hl] at hq
  cases hq

theorem dial (ip port : Nat) (isn : Seq)
    (hi : n.tcpPcbAlloc = some i) (hs : n.socks o = some s) (hl : s.listener = false)
    (hact : (((n.dialled i ip port).exec i (.connect isn)).pcb i).active) :
    Steady (((n.dialled i ip port).exec i (.connect isn)).connected o i) none := by
  obtain ⟨h1, hsocks⟩ := h.dialled ip port isn hi
  have hcon := hact
  rw [exec_pcb_self] at hcon
  obtain ⟨-, hst, hcb⟩ := connect_after hcon
  generalize hn1 : (n.dialled i ip port).exec i (.connect isn) = n1 at h1 hsocks hact
  have hpcb : n1.pcb i = (n.dialled i ip port).after i (.connect isn) := by
    rw [← hn1, exec_pcb_self]
  have hcpcb : ∀ j, (n1.connected o i).pcb j = n1.pcb j := fun j => by
    rw [connected, pcb, slots_modSock]
    exact pcb_tcpSetCtx n1 i _ j
  have hs1 : n1.socks o = some s := hsocks ▸ hs
  have hq := h.queue_nil hs hl
  refine h1.tie (t := { s with pcb := some i }) hs1 ?_ ?_ ?_ ?_ ?_ hq rfl ?_ ?_ rfl ?_ ?_
  · rw [hcpcb]
    exact hact
  · exact ctx_tcpSetCtx_self n1 i _
  · rw [hcpcb, hpcb]
    exact hcb
  · rw [hcpcb, hpcb]
    exact fun _ h' => by cases hst.symm.trans h'
  · rw [hcpcb]
    exact h1.sane i hact
  · intro o' s' hs'
    exact h.untied (alloc_inactive hi) (hsocks ▸ hs')
  · exact fun j hj => slots_tcpSetCtx_ne n1 _ hj
  · change ((n1.tcpSetCtx i (some o)).modSock o _).socks o = _
    rw [socks_modSock_self, socks_tcpSetCtx, hs1]
    rfl
  · exact fun o' ho' => socks_modSock_ne _ _ ho'

theorem listen (port : Nat) (backlog : Int)
    (hi : n.tcpPcbAlloc = some i) (hs : n.socks o = some s) (hl : s.listener = false) :
    Steady (n.listens o i port backlog) none := by
  have hpcb : (n.listens o i port backlog).pcb i = { Pcb.fresh with
      localIp := n.ip
      localPort := port
      state := .listening
      backlog := if backlog > 0 then backlog.toNat else tcpListenBacklog
      cb := true } := by
    rw [listens, pcb, slots_modSock]
    exact pcb_setSlot_self ..
  have hq := h.queue_nil hs hl
  refine h.tie (t := { s with pcb := some i, listener := true }) hs ?_ ?_ ?_
    (fun h => by cases h) ?_ hq rfl ?_ ?_ rfl ?_ ?_
  · rw [hpcb]
    rfl
  · exact ctx_setSlot_self ..
  · rw [hpcb]
  · rw [hpcb]
    constructor <;> intro h <;> cases h
  · exact fun o' s' hs' => h.untied (alloc_inactive hi) hs'
  · exact fun j hj => slots_setSlot_ne n _ hj
  · change (Netd.modSock _ o _).socks o = _
    rw [socks_modSock_self]
    change (n.socks o).map _ = _
    rw [hs]
    rfl
  · exact fun o' ho' => socks_modSock_ne _ _ ho'

/-- A new socket refers to nothing. -/
theorem sockOpen (session : Nat) (kind : SockKind) : Steady (n.opened session kind) none where
  sane := h.sane
  made o ho := by
    have hlt : n.made < o := ho
    exact (update_of_ne (Nat.ne_of_gt hlt) ..).trans (h.made o (Nat.le_of_lt hlt))
  held o _ := by
    by_cases ho : o = n.made
    · subst ho
      intro s hs
      have hnew : (n.opened session kind).socks n.made =
          some { id := n.newId, session, kind } := update_self ..
      rw [hnew] at hs
      cases hs
      exact ⟨List.nodup_nil, nofun, nofun⟩
    · exact (h.held o nofun).frame (update_of_ne ho ..) fun _ _ _ _ => rfl
  closing := nofun

theorem bind (o : SockId) (ports : Ports) (port : Nat) : Steady (n.taken o ports port) none where
  sane := h.sane
  made o' ho' := by
    have hnone := h.made o' ho'
    by_cases hoo : o' = o
    · subst hoo
      change (Netd.modSock _ o' _).socks o' = _
      rw [socks_modSock_self]
      rw [hnone]
      rfl
    · exact (socks_modSock_ne _ _ hoo).trans hnone
  held o' _ := by
    by_cases hoo : o' = o
    · subst hoo
      intro s' hs'
      change (Netd.modSock _ o' _).socks o' = _ at hs'
      rw [socks_modSock_self] at hs'
      obtain ⟨s, hs, rfl⟩ := Option.map_eq_some_iff.mp hs'
      have hh := (h.held o' nofun) s hs
      exact ⟨hh.nodup, fun j hj => (hh.queue j hj).frame rfl (hh.queue j hj).other rfl,
        fun j hj => (hh.pcb j hj).frame rfl rfl⟩
    · exact (h.held o' nofun).frame (socks_modSock_ne _ _ hoo) fun _ _ _ _ => rfl
  closing := nofun

/-- A connection is handed from the queue of `p` to the socket `ns`. -/
theorem handed (hs : n.socks p = some s) (hq : s.acceptQ = i :: q) {t : Socket} (ht : n.socks ns = some t) :
    Steady (n.handed p ns i) none := by
  have hp := (h.held p nofun) s hs
  have hi := hp.queue i (by rw [hq]; exact List.mem_cons_self)
  have hnodup := hp.nodup
  rw [hq, List.nodup_cons] at hnodup
  have hpcb : ∀ j, (n.handed p ns i).pcb j = n.pcb j := fun j => pcb_tcpSetCtx _ i _ j
  have hslot : ∀ j, j ≠ i → (n.handed p ns i).slots j = n.slots j := fun j hj =>
    slots_tcpSetCtx_ne _ _ hj
  have hmine : Mine (n.handed p ns i) ns i :=
    ⟨by rw [hpcb]; exact hi.mine.active, ctx_tcpSetCtx_self .., by rw [hpcb]; exact hi.mine.cb⟩
  have hspeak : ((n.handed p ns i).pcb i).state ≠ .listening := by
    rw [hpcb]
    intro hl
    have hg := hi.grown
    rw [hl] at hg
    cases hg
  -- the queue without its head, and what the socket's own block becomes
  have hqueue : ∀ {s' : Socket}, s'.listener = s.listener → s'.acceptQ = q →
      (s'.pcb = s.pcb ∨ s'.pcb = some i) → ∀ j ∈ s'.acceptQ, Queued (n.handed p ns i) p s' j := by
    intro s' hl hq' hpcb' j hj
    rw [hq'] at hj
    have hji : j ≠ i := fun hji => hnodup.1 (hji ▸ hj)
    have hqj := hp.queue j (by rw [hq]; exact List.mem_cons_of_mem i hj)
    refine hqj.frame hl ?_ (hslot j hji)
    rcases hpcb' with h' | h'
    · rw [h']
      exact hqj.other
    · rw [h']
      exact fun h' => hji (Option.some.inj h').symm
  have hself : (n.handed p ns i).socks ns =
      ((n.modSock p fun s => { s with acceptQ := s.acceptQ.tail }).socks ns).map fun s =>
        { s with pcb := some i } := socks_modSock_self ..
  have hother : ∀ o, o ≠ ns → (n.handed p ns i).socks o =
      (n.modSock p fun s => { s with acceptQ := s.acceptQ.tail }).socks o := fun o ho =>
    socks_modSock_ne _ _ ho
  have hpself : (n.modSock p fun s => { s with acceptQ := s.acceptQ.tail }).socks p =
      some { s with acceptQ := q } := by
    rw [socks_modSock_self, hs, Option.map_some, hq]
    rfl
  refine ⟨fun j hj => ?_, fun o ho => ?_, fun o _ s' hs' => ?_, nofun⟩
  · rw [hpcb] at hj ⊢
    exact h.sane j hj
  · exact (SameSocks.handed n p ns i).none (h.made o ho)
  by_cases hons : o = ns
  · subst hons
    rw [hself] at hs'
    by_cases hop : o = p
    · subst hop
      rw [hpself] at hs'
      cases hs'
      exact ⟨hnodup.2, hqueue rfl rfl (.inr rfl),
        fun j hj => Option.some.inj hj ▸ ⟨hmine, fun _ => hspeak⟩⟩
    · rw [socks_modSock_ne n _ hop, ht] at hs'
      cases hs'
      have hh := (h.held o nofun) t ht
      refine ⟨hh.nodup, fun j hj => ?_, fun j hj => Option.some.inj hj ▸ ⟨hmine, fun _ => hspeak⟩⟩
      have hji : j ≠ i := by
        rintro rfl
        exact hop (Option.some.inj ((hh.queue j hj).mine.ctx.symm.trans hi.mine.ctx))
      exact (hh.queue j hj).frame rfl (fun h' => hji (Option.some.inj h').symm) (hslot j hji)
  · rw [hother o hons] at hs'
    by_cases hop : o = p
    · subst hop
      rw [hpself] at hs'
      cases hs'
      refine ⟨hnodup.2, hqueue rfl rfl (.inl rfl), fun j hj => (hp.pcb j hj).frame rfl (hslot j ?_)⟩
      rintro rfl
      exact hi.other hj
    · rw [socks_modSock_ne n _ hop] at hs'
      refine ((h.held o nofun) s' hs').frame fun j hj => hslot j ?_
      rintro rfl
      have hm := ((h.held o nofun) s' hs').mine hj
      exact hop (Option.some.inj (hm.ctx.symm.trans hi.mine.ctx))

theorem accept {session : Nat} (hs : n.socks p = some s) (hq : s.acceptQ = i :: q)
    (hns : (n.opened session .tcp).socketFor n.newId session = some ns) :
    Steady ((n.opened session .tcp).handed p ns i) none := by
  obtain ⟨t, ht, -⟩ := socketFor_spec hns
  have hp : p ≠ n.made := by
    rintro rfl
    rw [h.made _ (Nat.le_refl _)] at hs
    cases hs
  exact (h.sockOpen session .tcp).handed ((update_of_ne hp ..).trans hs) hq ht

/-- A socket begins to be closed. -/
theorem begin (hs : n.socks o = some s) : Steady n (some (o, s)) where
  sane := h.sane
  made := h.made
  held o' _ := h.held o' nofun
  closing o' s' hx := by
    obtain ⟨rfl, rfl⟩ := Prod.mk.inj (Option.some.inj hx)
    exact ⟨⟨s, hs, rfl⟩, fun i hi => .inl (((h.held o nofun) s hs).mine hi).ctx⟩

end

theorem letgo (h : Steady n (some (o, s))) (hi : s.Ties i) :
    Steady (n.tcpSetCtx i none) (some (o, s)) where
  sane j hj := by
    rw [pcb_tcpSetCtx] at hj ⊢
    exact h.sane j hj
  made := h.made
  held o' ho' := by
    refine (h.held o' ho').frame rfl fun s' j hs' hj => slots_tcpSetCtx_ne n _ ?_
    rintro rfl
    have hm := ((h.held o' ho') s' hs').mine hj
    rcases (h.closing o s rfl).2 j hi with hc | hc
    · rw [hm.ctx] at hc
      cases hc
      exact ho' s rfl
    · rw [hm.ctx] at hc
      cases hc
  closing o' s' hx := by
    obtain ⟨rfl, rfl⟩ := Prod.mk.inj (Option.some.inj hx)
    refine ⟨(h.closing o s rfl).1, fun j hj => ?_⟩
    by_cases hji : j = i
    · subst hji
      exact .inr (ctx_tcpSetCtx_self ..)
    · rw [ctx_congr (slots_tcpSetCtx_ne n none hji)]
      exact (h.closing o s rfl).2 j hj

theorem free (h : Steady n (some (o, s))) (port : Nat) :
    Steady (n.freed o port) none := by
  have hmade : (n.freed o port).made = n.made := by
    unfold freed
    split <;> rfl
  have hpcb : ∀ j, (n.freed o port).pcb j = n.pcb j := fun j => pcb_congr (by rw [slots_freed])
  refine ⟨fun j hj => ?_, fun o' ho' => ?_, fun o' _ => ?_, nofun⟩
  · rw [hpcb] at hj ⊢
    exact h.sane j hj
  · rw [socks_freed]
    by_cases hoo : o' = o
    · subst hoo
      exact update_self ..
    · exact (update_of_ne hoo ..).trans (h.made o' (hmade ▸ ho'))
  · by_cases hoo : o' = o
    · subst hoo
      intro s' hs'
      rw [socks_freed, update_self] at hs'
      cases hs'
    · have hne : ∀ s', some (o, s) ≠ some (o', s') := fun s' he =>
        hoo (Prod.mk.inj (Option.some.inj he)).1.symm
      refine (h.held o' hne).frame ?_ fun s' j _ _ => by rw [slots_freed]
      rw [socks_freed]
      exact update_of_ne hoo ..

/-- **Every move keeps the tables steady.** -/
theorem move (h : Steady n x) (hm : Move l n₀ n x m y) : Steady m y := by
  cases hm with
  | netif => exact h.same rfl rfl rfl
  | exec hr => exact h.exec hr
  | answer k isn p i _ _ _ _ _ hi => exact h.answer p k isn hi
  | refuse i ip port hi => exact h.refuse ip port hi
  | dialFailed i ip port isn hi => exact (h.dialled ip port isn hi).1
  | dial o s i ip port isn hi _ hs _ hl _ hact => exact h.dial ip port isn hi hs hl hact
  | listen _ _ o s i port backlog _ _ hi hs _ hl => exact h.listen port backlog hi hs hl
  | sockOpen session kind => exact h.sockOpen session kind
  | bindFailed => exact h.same rfl rfl rfl
  | bind _ _ o _ ports _ port => exact h.bind o ports port
  | accept _ _ _ _ p ns s i q _ _ hs _ _ hq hns => exact h.accept hs hq hns
  | begin o s _ _ hs => exact h.begin hs
  | letgo o s i hi => exact h.letgo hi
  | free o s => exact h.free s.port

theorem step (h : Steady n none) (l : Call) : Steady (n.step l) none :=
  (step_moves n l).keeps (I := Steady) (fun h hm => h.move hm) h

theorem boot (envs : Stream' Env) : Steady (Netd.boot envs) none where
  sane _ h := by cases h
  made _ _ := rfl
  held _ _ := nofun
  closing := nofun

end Steady

/-! ## What a session leaves alone -/

/-- Nothing that belongs to other sessions than `k` has changed: their sockets are the same, and
so are the blocks of these. -/
structure Apart (k : Nat) (n m : Netd) : Prop where
  keeps : ∀ o s, n.socks o = some s → s.session ≠ k →
    m.socks o = some s ∧ ∀ i, s.Ties i → m.slots i = n.slots i
  new : ∀ o s, m.socks o = some s → s.session ≠ k → n.socks o = some s

namespace Apart
variable {k : Nat}

theorem refl (k : Nat) (n : Netd) : Apart k n n :=
  ⟨fun _ _ hs _ => ⟨hs, fun _ _ => rfl⟩, fun _ _ hs _ => hs⟩

theorem trans {n' : Netd} (h : Apart k n m) (h' : Apart k m n') : Apart k n n' where
  keeps o s hs hk := by
    obtain ⟨hm, hi⟩ := h.keeps o s hs hk
    obtain ⟨hm', hi'⟩ := h'.keeps o s hm hk
    exact ⟨hm', fun i ht => (hi' i ht).trans (hi i ht)⟩
  new o s hs hk := h.new o s (h'.new o s hs hk) hk

/-- A block that no other session's socket refers to may change. -/
theorem slot (hsocks : m.socks = n.socks) (hslot : ∀ j, j ≠ i → m.slots j = n.slots j)
    (hi : ∀ o s, n.socks o = some s → s.session ≠ k → ¬s.Ties i) : Apart k n m where
  keeps o s hs hk := by
    refine ⟨hsocks ▸ hs, fun j hj => hslot j ?_⟩
    rintro rfl
    exact hi o s hs hk hj
  new o s hs _ := hsocks ▸ hs

/-- A socket of the session may change. -/
theorem sock (hslots : m.slots = n.slots) (hother : ∀ o', o' ≠ o → m.socks o' = n.socks o')
    (hn : ∀ s, n.socks o = some s → s.session = k)
    (hm : ∀ s, m.socks o = some s → s.session = k) : Apart k n m where
  keeps o' s hs hk := by
    have hoo : o' ≠ o := by
      rintro rfl
      exact hk (hn s hs)
    exact ⟨(hother o' hoo).trans hs, fun j _ => by rw [hslots]⟩
  new o' s hs hk := by
    have hoo : o' ≠ o := by
      rintro rfl
      exact hk (hm s hs)
    exact (hother o' hoo) ▸ hs

theorem modSock (hs : n.socks o = some s) (hk : s.session = k)
    {f : Socket → Socket} (hf : (f s).session = s.session) : Apart k n (n.modSock o f) := by
  refine .sock (o := o) rfl (fun o' ho' => socks_modSock_ne n f ho') (fun s' hs' => ?_)
    fun s' hs' => ?_
  · rw [hs] at hs'
    cases hs'
    exact hk
  · rw [socks_modSock_self, hs] at hs'
    cases hs'
    exact hf.trans hk

end Apart

/-- A block of the session's socket is none of another's. -/
theorem Steady.own (h : Steady n x) (hx : ∀ o s, x = some (o, s) → s.session = k)
    (hs : n.socks o = some s) (hk : s.session ≠ k) (ht : s.Ties i) : Mine n o i := by
  refine ((h.held o fun s' he => hk ?_) s hs).mine ht
  obtain ⟨s₁, hs₁, hface⟩ := (h.closing o s' he).1
  rw [hs] at hs₁
  cases hs₁
  exact (congrArg SockFace.session hface).trans (hx o s' he)

theorem isChild_mute (h : n.Sane) {p : Nat} (hc : n.isChild p i) : (n.pcb i).cb = false := by
  obtain ⟨hact, hst, hp⟩ := of_decide_eq_true hc
  exact (h i hact).waits hst (by rw [hp]; exact Nat.succ_ne_zero p)

/-- An entry point that runs for a session. -/
theorem Steady.apart_exec (h : Steady n x)
    (hx : ∀ o s, x = some (o, s) → s.session = k) (hl : l.session = some k)
    (hr : Reason l n₀ n x i op) : Apart k n (n.exec i op) := by
  have hmine : ∀ {o s}, n.socks o = some s → s.session ≠ k → s.Ties i → Mine n o i :=
    fun hs hk ht => h.own hx hs hk ht
  -- the block calls back a socket of the session, or none
  have hfree : ∀ {o s}, n.socks o = some s → s.session = k →
      (n.ctx i = some o ∨ n.ctx i = none) →
      ∀ o' s', n.socks o' = some s' → s'.session ≠ k → ¬s'.Ties i := by
    intro o s hs hk hctx o' s' hs' hk' ht
    rw [(hmine hs' hk' ht).ctx] at hctx
    rcases hctx with hctx | hctx
    · cases hctx
      rw [hs] at hs'
      cases hs'
      exact hk' hk
    · cases hctx
  have hslot : ∀ j, j ≠ i → (n.exec i op).slots j = n.slots j := fun j hj => exec_slots_ne n op hj
  have hloose : n.ctx i = none → ∀ o' s', n.socks o' = some s' → s'.session ≠ k →
      ¬s'.Ties i := by
    intro hctx o' s' hs' hk' ht
    rw [(hmine hs' hk' ht).ctx] at hctx
    cases hctx
  cases hr with
  | packet _ _ _ he =>
    rw [he] at hl
    cases hl
  | timer _ _ he =>
    rw [he] at hl
    cases hl
  | recv o s _ sz hs hp _ hserve =>
    have hctx := (((h.held o nofun) s hs).mine (.inr hp)).ctx
    exact .slot (exec_recv_socks ..) hslot (hfree hs (hserve k hl) (.inl hctx))
  | send _ o s _ data hs hp _ hserve hor =>
    refine .slot (exec_send_socks ..) hslot (hfree hs (hserve k hl) ?_)
    rcases hor with rfl | rfl
    · exact .inl (((h.held o nofun) s hs).mine (.inr hp)).ctx
    · exact (h.closing o s rfl).2 i (.inr hp)
  | close o s _ _ hctx => exact .slot (exec_socks_alone hctx rfl) hslot (hloose hctx)
  | listener o s _ _ hctx => exact .slot (exec_socks_alone hctx rfl) hslot (hloose hctx)
  | child o s p _ _ _ hc =>
    have hcb := isChild_mute h.sane hc
    refine .slot (exec_socks_mute hcb rfl) hslot fun o' s' hs' hk' ht => ?_
    have := (hmine hs' hk' ht).cb
    rw [hcb] at this
    cases this

/-- A block that nobody uses is nobody's. -/
theorem Steady.apart_fresh (h : Steady n none) (hi : (n.pcb i).active = false)
    (hsocks : m.socks = n.socks) (hslot : ∀ j, j ≠ i → m.slots j = n.slots j) : Apart k n m :=
  .slot hsocks hslot fun _ _ hs _ => h.untied hi hs

theorem dialled_exec_slots (n : Netd) (ip port : Nat) (op : Op) (hj : j ≠ i) :
    ((n.dialled i ip port).exec i op).slots j = n.slots j :=
  (exec_slots_ne _ _ hj).trans (slots_setSlot_ne _ _ hj)

theorem dialled_exec_socks (n : Netd) (i ip port : Nat) (ho : (n.dialled i ip port).opensBy i op
    = false) : ((n.dialled i ip port).exec i op).socks = n.socks :=
  exec_socks_alone (ctx_setSlot_self ..) ho

theorem Steady.apart_opened (h : Steady n none) {session : Nat} (kind : SockKind) :
    Apart session n (n.opened session kind) := by
  refine .sock (o := n.made) rfl (fun o ho => update_of_ne ho ..) (fun s hs => ?_)
    fun s hs => ?_
  · rw [h.made _ (Nat.le_refl _)] at hs
    cases hs
  · have hnew : (n.opened session kind).socks n.made = some { id := n.newId, session, kind } :=
      update_self ..
    rw [hnew] at hs
    cases hs
    rfl

section
variable (h : Steady n (some (o, s))) (hk : s.session = k)
include h hk

/-- The session of a socket that is being closed. -/
theorem Steady.closing_session {s' : Socket} (hs' : n.socks o = some s') : s'.session = k := by
  obtain ⟨s₁, hs₁, hface⟩ := (h.closing o s rfl).1
  rw [hs'] at hs₁
  cases hs₁
  exact (congrArg SockFace.session hface).trans hk

theorem Steady.apart_letgo (hi : s.Ties i) : Apart k n (n.tcpSetCtx i none) := by
  refine .slot rfl (fun j hj => slots_tcpSetCtx_ne n _ hj) fun o' s' hs' hk' ht => ?_
  have hm := h.own (k := k) (fun o₁ s₁ he => by
    obtain ⟨rfl, rfl⟩ := Prod.mk.inj (Option.some.inj he)
    exact hk) hs' hk' ht
  rcases (h.closing o s rfl).2 i hi with hc | hc
  · rw [hm.ctx] at hc
    cases hc
    exact hk' (h.closing_session hk hs')
  · rw [hm.ctx] at hc
    cases hc

theorem Steady.apart_free (port : Nat) : Apart k n (n.freed o port) := by
  refine .sock (o := o) (slots_freed ..) (fun o' ho' => ?_)
    (fun s' hs' => h.closing_session hk hs') fun s' hs' => ?_
  · rw [socks_freed]
    exact update_of_ne ho' ..
  · rw [socks_freed, update_self] at hs'
    cases hs'

end

theorem Steady.apart_accept {session : Nat}
    (h : Steady n none) (hs : n.socks p = some s) (hk : s.session = session)
    (hq : s.acceptQ = i :: q)
    (hns : (n.opened session .tcp).socketFor n.newId session = some ns) :
    Apart session n ((n.opened session .tcp).handed p ns i) := by
  have h1 := h.sockOpen session .tcp
  have hp : p ≠ n.made := by
    rintro rfl
    rw [h.made _ (Nat.le_refl _)] at hs
    cases hs
  have hs1 : (n.opened session .tcp).socks p = some s := (update_of_ne hp ..).trans hs
  obtain ⟨t, ht, -, htk, -⟩ := socketFor_spec hns
  have hctx := (((h1.held p nofun) s hs1).queue i (by rw [hq]; exact List.mem_cons_self)).mine.ctx
  refine (h.apart_opened .tcp).trans ?_
  generalize n.opened session .tcp = n1 at h1 hs1 ht hctx ⊢
  have hfirst : Apart session n1 (n1.modSock p fun s => { s with acceptQ := s.acceptQ.tail }) :=
    .modSock hs1 hk rfl
  have hns' : ∃ t', (n1.modSock p fun s => { s with acceptQ := s.acceptQ.tail }).socks ns =
      some t' ∧ t'.session = session := by
    by_cases hnp : ns = p
    · subst hnp
      rw [socks_modSock_self, hs1]
      exact ⟨_, rfl, hk⟩
    · rw [socks_modSock_ne n1 _ hnp]
      exact ⟨t, ht, htk⟩
  obtain ⟨t', ht', htk'⟩ := hns'
  have hsecond := hfirst.trans (.modSock (f := fun s => { s with pcb := some i }) ht' htk' rfl)
  refine hsecond.trans (.slot rfl (fun j hj => slots_tcpSetCtx_ne _ _ hj) fun o' s' hs' hk' htie => ?_)
  -- the block was in the queue of the listener
  have hold := hsecond.new o' s' hs' hk'
  have hm := (((h1.held o' nofun) s' hold).mine htie).ctx
  rw [hctx] at hm
  cases hm
  rw [hs1] at hold
  cases hold
  exact hk' hk

/-- **A move of a session's call.** -/
theorem Steady.apart (h : Steady n x) (hx : ∀ o s, x = some (o, s) → s.session = k)
    (hl : l.session = some k) (hm : Move l n₀ n x m y) :
    Apart k n m ∧ ∀ o s, y = some (o, s) → s.session = k := by
  cases hm with
  | netif _ _ he =>
    rw [hl] at he
    cases he
  | exec hr => exact ⟨h.apart_exec hx hl hr, hx⟩
  | answer _ _ _ _ he =>
    rw [he] at hl
    cases hl
  | refuse i ip port hi =>
    exact ⟨h.apart_fresh (alloc_inactive hi) (dialled_exec_socks n i ip port rfl) fun j hj =>
      dialled_exec_slots n ip port _ hj, nofun⟩
  | dialFailed i ip port isn hi =>
    exact ⟨h.apart_fresh (alloc_inactive hi) (dialled_exec_socks n i ip port rfl) fun j hj =>
      dialled_exec_slots n ip port _ hj, nofun⟩
  | dial o s i ip port isn hi _ hs _ _ hserve =>
    have hsocks : ((n.dialled i ip port).exec i (.connect isn)).socks = n.socks :=
      dialled_exec_socks n i ip port rfl
    have h1 : Apart k n (((n.dialled i ip port).exec i (.connect isn)).tcpSetCtx i (some o)) :=
      h.apart_fresh (alloc_inactive hi) hsocks fun j hj =>
        (slots_tcpSetCtx_ne _ _ hj).trans (dialled_exec_slots n ip port _ hj)
    exact ⟨h1.trans (.modSock (s := s) (hsocks ▸ hs) (hserve k hl) rfl), nofun⟩
  | listen _ _ o s i port backlog _ _ hi hs _ _ hserve =>
    have h1 : ∀ c f, (f s).session = s.session → Apart k n ((n.setSlot i c).modSock o f) :=
      fun c f hf => (h.apart_fresh (m := n.setSlot i c) (alloc_inactive hi) rfl fun j hj =>
        slots_setSlot_ne n c hj).trans (.modSock (n := n.setSlot i c) hs (hserve k hl) hf)
    exact ⟨h1 _ _ rfl, nofun⟩
  | sockOpen session kind he =>
    rw [hl] at he
    cases he
    exact ⟨h.apart_opened kind, nofun⟩
  | bindFailed => exact ⟨⟨fun _ _ hs _ => ⟨hs, fun _ _ => rfl⟩, fun _ _ hs _ => hs⟩, nofun⟩
  | bind _ _ o s ports _ port _ _ hs _ hserve =>
    have h1 : Apart k n { n with ports, udp := n.udp ++ [port] } :=
      ⟨fun _ _ hs _ => ⟨hs, fun _ _ => rfl⟩, fun _ _ hs _ => hs⟩
    refine ⟨h1.trans ?_, nofun⟩
    exact Apart.modSock (n := { n with ports, udp := n.udp ++ [port] }) hs (hserve k hl) rfl
  | accept session _ _ _ p ns s i q he _ hs _ hserve hq hns =>
    have hk := hserve k hl
    rw [he] at hl
    cases hl
    exact ⟨h.apart_accept hs hk hq hns, nofun⟩
  | begin o s _ hserve =>
    refine ⟨.refl k n, fun o' s' he => ?_⟩
    obtain ⟨rfl, rfl⟩ := Prod.mk.inj (Option.some.inj he)
    exact hserve k hl
  | letgo o s i hi => exact ⟨h.apart_letgo (hx o s rfl) hi, hx⟩
  | free o s => exact ⟨h.apart_free (hx o s rfl) s.port, nofun⟩

/-- **A call of a session** leaves the sockets of all others and their blocks alone. -/
theorem step_apart (h : Steady n none) (hl : l.session = some k) :
    Apart k n (n.step l) := by
  have hkeeps := (step_moves n l).keeps (I := fun m x => Steady m x ∧ Apart k n m ∧
    ∀ o s, x = some (o, s) → s.session = k) (fun ⟨hs, ha, hx⟩ hm => by
      obtain ⟨ha', hx'⟩ := hs.apart hx hl hm
      exact ⟨hs.move hm, ha.trans ha', hx'⟩) ⟨h, .refl k n, nofun⟩
  exact hkeeps.2.1

/-! ## Sockets come and go -/

/-- No socket has come, and those that are left are what they were. -/
def Fades (n m : Netd) : Prop :=
  ∀ o s', m.socks o = some s' → ∃ s, n.socks o = some s ∧ s'.face = s.face

theorem Fades.refl (n : Netd) : Fades n n := fun _ s hs => ⟨s, hs, rfl⟩

theorem Fades.trans {n' : Netd} (h : Fades n m) (h' : Fades m n') : Fades n n' := by
  intro o s hs
  obtain ⟨s₁, hs₁, he₁⟩ := h' o s hs
  obtain ⟨s₂, hs₂, he₂⟩ := h o s₁ hs₁
  exact ⟨s₂, hs₂, he₁.trans he₂⟩

theorem SameSocks.fades (h : SameSocks n m) : Fades n m := fun _ _ hs => h.was hs

theorem foldl_fades {α : Type} {f : Netd → α → Netd} (hf : ∀ n a, Fades n (f n a)) (as : List α)
    (n : Netd) : Fades n (as.foldl f n) := by
  induction as generalizing n with
  | nil => exact .refl n
  | cons a as ih => exact (hf n a).trans (ih _)

theorem tcpClose_fades (n : Netd) (i : Nat) : Fades n (n.tcpClose i) := by
  unfold tcpClose
  split
  · refine (foldl_fades (fun m j => ?_) slotList n).trans (exec_same_socks _ i _).fades
    split
    · exact (exec_same_socks m j _).fades
    · exact .refl m
  · exact (exec_same_socks n i _).fades

/-- Letting a block go and closing it. -/
theorem letgo_fades (n : Netd) (i : Nat) : Fades n ((n.tcpSetCtx i none).tcpClose i) :=
  Fades.trans (m := n.tcpSetCtx i none) (.refl n) (tcpClose_fades _ i)

/-- A socket that is closed is gone. -/
theorem socketClose_fades (n : Netd) (o : SockId) (s : Socket) (chunks : List (List Byte)) :
    Fades n (n.socketClose o s chunks) ∧ (n.socketClose o s chunks).socks o = none := by
  have hqueue : ∀ m, Fades m (m.closeQueue s.acceptQ) := fun m =>
    foldl_fades (fun m i => letgo_fades m i) s.acceptQ m
  have htx : ∀ m, Fades m (m.socketTcpTx s chunks) := fun m => by
    unfold socketTcpTx
    split
    · exact foldl_fades (fun m data => (exec_same_socks m _ _).fades) chunks m
    · exact .refl m
  have hpcb : ∀ m, Fades m (m.closePcb s.pcb) := fun m => by
    unfold closePcb
    split
    · exact letgo_fades m _
    · exact .refl m
  have hfree : ∀ m : Netd, Fades m ((if s.port ≠ 0 then
      { m.udpUnbind s.port with ports := m.ports.release s.port } else m).setSock o none) := by
    intro m o' s' hs'
    have hsocks : ((if s.port ≠ 0 then
        { m.udpUnbind s.port with ports := m.ports.release s.port } else m).setSock o none).socks =
        update m.socks o none := by split <;> rfl
    rw [hsocks] at hs'
    by_cases hoo : o' = o
    · subst hoo
      rw [update_self] at hs'
      cases hs'
    · rw [update_of_ne hoo] at hs'
      exact ⟨s', hs', rfl⟩
  refine ⟨?_, update_self ..⟩
  refine Fades.trans ?_ (hfree _)
  have hfirst : Fades n (if s.kind = .tcp then
      if s.listener then n.closeQueue s.acceptQ else n.socketTcpTx s chunks else n) := by
    split
    · split
      · exact hqueue n
      · exact htx n
    · exact .refl n
  refine hfirst.trans ?_
  split
  · exact hpcb _
  · exact .refl _

/-- One round of `SocketCloseAll`. -/
def closeRound (k : Nat) (chunks : SockId → List (List Byte)) (n : Netd) (o : SockId) : Netd :=
  match n.socks o with
  | some s => if s.session = k then n.socketClose o s (chunks o) else n
  | none => n

/-- **A session that is closed** has no sockets left. -/
theorem closeAll_gone (h : Steady n none) (k : Nat) (chunks : SockId → List (List Byte))
    (hs : (n.socketCloseAll k chunks).socks o = some s) : s.session ≠ k := by
  set f := closeRound k chunks with hf
  have hround : ∀ m o, Fades m (f m o) ∧ ∀ s, (f m o).socks o = some s → s.session ≠ k := by
    intro m o
    rw [hf, closeRound]
    split
    · rename_i s hs
      split
      · obtain ⟨hfade, hnone⟩ := socketClose_fades m o s (chunks o)
        refine ⟨hfade, fun s' hs' => ?_⟩
        rw [hnone] at hs'
        cases hs'
      · rename_i hk
        refine ⟨.refl m, fun s' hs' => ?_⟩
        rw [hs] at hs'
        cases hs'
        exact hk
    · rename_i hnone
      refine ⟨.refl m, fun s' hs' => ?_⟩
      rw [hnone] at hs'
      cases hs'
  have hall : ∀ (os : List SockId) (m : Netd), o ∈ os →
      ∀ s, (os.foldl f m).socks o = some s → s.session ≠ k := by
    intro os
    induction os with
    | nil => exact fun _ hm => (List.not_mem_nil hm).elim
    | cons a os ih =>
      intro m hm s hs
      rcases List.mem_cons.mp hm with rfl | hm
      · obtain ⟨s', hs', hface⟩ := foldl_fades (fun m o => (hround m o).1) os (f m o) o s hs
        exact fun hk => (hround m o).2 s' hs' ((congrArg SockFace.session hface).symm.trans hk)
      · exact ih (f m a) hm s hs
  by_cases hlt : o < n.made
  · exact hall _ n (List.mem_range.mpr hlt) s hs
  · obtain ⟨s', hs', -⟩ := foldl_fades (fun m o => (hround m o).1) (List.range n.made) n o s hs
    rw [h.made o (Nat.le_of_not_lt hlt)] at hs'
    cases hs'

/-- What is not a session's call neither makes nor frees a socket. -/
theorem step_fades (hl : l.session = none) : Fades n (n.step l) := by
  have hkeeps := (step_moves n l).keeps (I := fun m x => Fades n m ∧ x = none)
    (fun {n' x m y} ⟨hf, hx⟩ hm => by
      have hexec : ∀ {n' : Netd} {i op}, Fades n n' → Fades n (n'.exec i op) := fun hf =>
        hf.trans (exec_same_socks _ _ _).fades
      cases hm with
      | netif => exact ⟨hf, rfl⟩
      | exec => exact ⟨hexec hf, hx⟩
      | answer => exact ⟨hexec hf, rfl⟩
      | refuse => exact ⟨hexec hf, rfl⟩
      | dialFailed => exact ⟨hexec hf, rfl⟩
      | dial o s i ip port isn =>
        have h1 : Fades n ((n'.dialled i ip port).exec i (.connect isn)) := hexec hf
        refine ⟨h1.trans (SameSocks.fades ?_), rfl⟩
        exact SameSocks.modSock (((n'.dialled i ip port).exec i (.connect isn)).tcpSetCtx i
          (some o)) o (fun _ => rfl)
      | listen _ _ _ _ _ _ _ he =>
        rw [he] at hl
        cases hl
      | sockOpen _ _ he =>
        rw [hl] at he
        cases he
      | bindFailed => exact ⟨hf, rfl⟩
      | bind _ _ _ _ _ _ _ he =>
        rw [he] at hl
        cases hl
      | accept _ _ _ _ _ _ _ _ _ he =>
        rw [he] at hl
        cases hl
      | begin o s hc =>
        cases l with
        | sockClose | closeAll => cases hl
        | _ => cases hc
      | letgo => cases hx
      | free => cases hx) ⟨.refl n, rfl⟩
  exact hkeeps.1

end Netd

/-- The runs of netd in which no callback finds a freed socket. In others a connection has come
past a full accept queue and outlived its listener, and the source uses memory that is free. -/
def netdSound : LTS Netd Netd.Call :=
  netdSystem.restrict (fun _ => True) fun n l => (n.step l).stale = false

/-- A segment from a client to port 80. -/
def toServer (seq ack : Seq) (flags : Flags) : Netd.Packet :=
  ⟨0x0A000001, 4000, 80, ⟨seq, ack, flags, [], 65535, none, nil_fits, max_fits⟩⟩

end Zuzu.L5
