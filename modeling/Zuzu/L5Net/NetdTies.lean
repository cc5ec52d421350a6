import Zuzu.L5Net.NetdStep

/-!
# Sockets and their blocks

A socket refers to blocks in two ways: to its connection or its listening block by `pcb`, and to
the connections that wait to be accepted by its queue. `Held` says that these blocks are in
use, call back the socket and have callbacks at all, and that none stands in the queue twice.
It speaks of the way from a socket to its blocks only: whether a block's `ctx` still is
a socket is another matter.

**Results.** `Held.exec`: an entry point on any block keeps `Held` for every socket, whatever
becomes of the block.
-/
namespace Zuzu.L5
open Zuzu.Core
variable {s : Socket}

/-- The blocks that a socket refers to. -/
def Socket.Ties (s : Socket) (i : Nat) : Prop := i ∈ s.acceptQ ∨ s.pcb = some i

/-! ## States of a block -/

/-- Past the handshake. -/
def TcpState.grown (st : TcpState) : Bool := ¬st.halfOpen ∧ st ≠ .listening ∧ st ≠ .closed

theorem TcpState.grown_not_halfOpen {st : TcpState} (h : st.grown) : ¬st.halfOpen := by
  revert h
  cases st <;> decide

theorem TcpState.justOpen_grown {st : TcpState} (h : st.justOpen) : st.grown := by
  revert h
  cases st <;> decide

theorem Stays.grown {p p' : Pcb} (h : Stays p p') (hg : p.state.grown) : p'.state.grown := by
  obtain ⟨-, h1, h2, h3, h4⟩ := h
  revert hg h1 h2 h3 h4
  cases p.state <;> cases p'.state <;> simp [TcpState.grown, TcpState.halfOpen]

theorem Stays.parent {p p' : Pcb} (h : Stays p p') : p'.parent = p.parent :=
  congrArg Face.parent h.face

/-- What holds of every block in use: it has been opened, one that connects has no listener, and
one that waits for its listener has no callbacks yet. -/
structure Pcb.Sound (p : Pcb) : Prop where
  notClosed : p.state ≠ .closed
  synSent : p.state = .synSent → p.parent = 0
  waits : p.state = .synRcvd → p.parent ≠ 0 → p.cb = false

theorem Pcb.Sound.exec {env : Env} {c : Cx} {op : Op} (h : c.pcb.Sound)
    (hop : op.opening = false) (hact : (op.exec env c).pcb.active) :
    (op.exec env c).pcb.Sound := by
  have hs := Op.stays hop h.notClosed hact
  refine ⟨hs.notClosed, fun hst => ?_, fun hst hp => ?_⟩
  · rw [hs.parent]
    exact h.synSent (hs.synSent hst)
  · rw [hs.parent] at hp
    have hst' : c.pcb.state = .synRcvd :=
      (hs.synRcvd hst).resolve_right fun h' => hp (h.synSent h')
    -- a block that is still half open has not taken over the callbacks of its listener
    refine (Op.exec_cb hop (fun seg hseg ho => ?_) hact).trans (h.waits hst' hp)
    subst hseg
    have hopen := (dispatch_opens ho).2.1
    rw [show (tcpDispatch env c seg).pcb.state = .synRcvd from hst] at hopen
    cases hopen

namespace Netd

variable {n m : Netd} {i j : Nat} {o : SockId} {op : Op}

/-- All blocks in use are sound. -/
def Sane (n : Netd) : Prop := ∀ i, (n.pcb i).active → (n.pcb i).Sound

theorem Sane.exec (h : n.Sane) (i : Nat) (hop : op.opening = false) : (n.exec i op).Sane := by
  intro j hj
  by_cases hji : j = i
  · subst hji
    rw [exec_pcb_self] at hj ⊢
    exact (h j (Op.was_active (c := n.cx j) hop hj)).exec hop hj
  · rw [exec_pcb_ne n op hji] at hj ⊢
    exact h j hj

theorem opensBy_halfOpen (h : n.opensBy i op) : (n.pcb i).state.halfOpen := by
  cases op with
  | rx seg =>
    unfold opensBy Pcb.opens at h
    unfold TcpState.halfOpen
    rcases (of_decide_eq_true h).2.2.2.2 with h | ⟨h, -⟩ <;> rw [h] <;> rfl
  | _ => cases h

theorem opensBy_grown (h : n.opensBy i op) : (n.after i op).state.grown := by
  cases op with
  | rx seg => exact TcpState.justOpen_grown (dispatch_opens (c := n.cx i) h).2.1
  | _ => cases h

/-! ## One block -/

/-- Block `i` calls back socket `o`. -/
structure Mine (n : Netd) (o : SockId) (i : Nat) : Prop where
  active : (n.pcb i).active
  ctx : n.ctx i = some o
  cb : (n.pcb i).cb

theorem Mine.frame (h : Mine n o i) (hs : m.slots i = n.slots i) : Mine m o i where
  active := pcb_congr hs ▸ h.active
  ctx := (ctx_congr hs).trans h.ctx
  cb := pcb_congr hs ▸ h.cb

/-- A block with callbacks does not wait for a listener. -/
theorem Mine.alone (h : Mine n o i) (hn : n.Sane) (hst : (n.pcb i).state = .synRcvd) :
    (n.pcb i).parent = 0 := by
  by_contra hp
  have := (hn i h.active).waits hst hp
  rw [h.cb] at this
  cases this

theorem Mine.openCtx (h : Mine n o i) (hn : n.Sane) : n.openCtx i = n.ctx i := by
  unfold Netd.openCtx adopts
  refine if_neg fun ha => ?_
  obtain ⟨hst, hp⟩ := of_decide_eq_true ha
  exact hp (h.alone hn hst)

theorem Mine.exec (h : Mine n o i) (hn : n.Sane) (hop : op.opening = false)
    (hact : (n.after i op).active) : Mine (n.exec i op) o i where
  active := by rw [exec_pcb_self]; exact hact
  ctx := by
    rw [exec_ctx_self, h.openCtx hn, ite_self]
    exact h.ctx
  cb := by
    rw [exec_pcb_self]
    exact (Op.exec_cb (c := n.cx i) hop (fun _ _ _ => h.alone hn) hact).trans h.cb

/-! ## A socket and its blocks -/

/-- Block `i` waits in the queue of socket `o`. -/
structure Queued (n : Netd) (o : SockId) (s : Socket) (i : Nat) : Prop where
  mine : Mine n o i
  listener : s.listener
  other : s.pcb ≠ some i
  grown : (n.pcb i).state.grown

/-- Block `i` is the connection or the listening block of socket `o`. -/
structure Tied (n : Netd) (o : SockId) (s : Socket) (i : Nat) : Prop where
  mine : Mine n o i
  speaks : s.listener = false → (n.pcb i).state ≠ .listening

theorem Queued.frame {s' : Socket} (h : Queued n o s i) (hl : s'.listener = s.listener)
    (hp : s'.pcb ≠ some i) (hs : m.slots i = n.slots i) : Queued m o s' i where
  mine := h.mine.frame hs
  listener := hl.trans h.listener
  other := hp
  grown := pcb_congr hs ▸ h.grown

theorem Tied.frame {s' : Socket} (h : Tied n o s i) (hl : s'.listener = s.listener)
    (hs : m.slots i = n.slots i) : Tied m o s' i where
  mine := h.mine.frame hs
  speaks hn := pcb_congr hs ▸ h.speaks (hl.symm.trans hn)

/-- A queued connection that is not released stays queued. -/
theorem Queued.exec (h : Queued n o s i) (hn : n.Sane) (hop : op.opening = false)
    (hact : (n.after i op).active) : Queued (n.exec i op) o s i where
  mine := h.mine.exec hn hop hact
  listener := h.listener
  other := h.other
  grown := by
    rw [exec_pcb_self]
    exact Stays.grown
      (Op.stays (c := n.cx i) hop (hn i h.mine.active).notClosed hact) h.grown

theorem Tied.exec (h : Tied n o s i) (hn : n.Sane) (hop : op.opening = false)
    (hact : (n.after i op).active) : Tied (n.exec i op) o s i where
  mine := h.mine.exec hn hop hact
  speaks hl := by
    rw [exec_pcb_self]
    have hst := Op.stays (c := n.cx i) hop (hn i h.mine.active).notClosed hact
    exact fun hls => h.speaks hl (hst.listening.mp hls)

/-- What socket `o` refers to is its own. -/
structure HeldBy (n : Netd) (o : SockId) (s : Socket) : Prop where
  nodup : s.acceptQ.Nodup
  queue : ∀ i ∈ s.acceptQ, Queued n o s i
  pcb : ∀ i, s.pcb = some i → Tied n o s i

def Held (n : Netd) (o : SockId) : Prop := ∀ s, n.socks o = some s → HeldBy n o s

theorem HeldBy.mine (h : HeldBy n o s) (ht : s.Ties i) : Mine n o i := by
  rcases ht with hq | hp
  · exact (h.queue i hq).mine
  · exact (h.pcb i hp).mine

/-- The blocks of the socket are as they were. -/
theorem HeldBy.frame (h : HeldBy n o s)
    (hslot : ∀ i, s.Ties i → m.slots i = n.slots i) : HeldBy m o s where
  nodup := h.nodup
  queue i hi := (h.queue i hi).frame rfl (h.queue i hi).other (hslot i (.inl hi))
  pcb i hi := (h.pcb i hi).frame rfl (hslot i (.inr hi))

theorem Held.frame (h : n.Held o) (hs : m.socks o = n.socks o)
    (hslot : ∀ s i, n.socks o = some s → s.Ties i → m.slots i = n.slots i) : m.Held o := by
  intro s hm
  rw [hs] at hm
  exact (h s hm).frame fun i hi => hslot s i hm hi

/-- A connection that has just been opened goes into the queue. -/
theorem HeldBy.enqueue (h : HeldBy n o s) (ho : n.opensBy i op)
    (hact : (n.pcb i).active) (hcb : (n.after i op).cb) (hctx : n.openCtx i = some o)
    (hn : n.Sane) (hop : op.opening = false) : HeldBy (n.exec i op) o (s.enqueue i) := by
  have hhalf : ∀ {j}, Queued n o s j → j ≠ i := fun hq hj =>
    TcpState.grown_not_halfOpen hq.grown (hj ▸ opensBy_halfOpen ho)
  have hafter : (n.after i op).active := opensBy_active ho ▸ hact
  have hpcb : ∀ j, s.pcb = some j → Tied (n.exec i op) o s j := fun j hj => by
    by_cases hji : j = i
    · subst hji
      exact (h.pcb j hj).exec hn hop hafter
    · exact (h.pcb j hj).frame rfl (exec_slots_ne n op hji)
  unfold Socket.enqueue
  split
  · rename_i hroom
    have hnew : i ∉ s.acceptQ := fun hi => hhalf (h.queue i hi) rfl
    refine ⟨?_, fun j hj => ?_, fun j hj => ⟨(hpcb j hj).mine, (hpcb j hj).speaks⟩⟩
    · refine List.nodup_append.mpr ⟨h.nodup, List.nodup_singleton i, fun j hj k hk hjk => ?_⟩
      cases List.mem_singleton.mp hk
      exact hnew (hjk ▸ hj)
    · rcases List.mem_append.mp hj with hj | hj
      · have hq := h.queue j hj
        exact hq.frame rfl hq.other (exec_slots_ne n op (hhalf hq))
      · cases List.mem_singleton.mp hj
        refine ⟨⟨?_, ?_, ?_⟩, hroom.1, hroom.2.1, ?_⟩
        · rw [exec_pcb_self]
          exact hafter
        · rw [exec_ctx_self, if_pos ho]
          exact hctx
        · rw [exec_pcb_self]
          exact hcb
        · rw [exec_pcb_self]
          exact opensBy_grown ho
  · refine ⟨h.nodup, fun j hj => ?_, hpcb⟩
    have hq := h.queue j hj
    exact hq.frame rfl hq.other (exec_slots_ne n op (hhalf hq))

/-- A connection that is over is forgotten. -/
theorem HeldBy.forget (h : HeldBy n o s) :
    HeldBy (n.exec i op) o (s.forget i) := by
  unfold Socket.forget
  split
  · rename_i hl
    refine ⟨h.nodup.erase i, fun j hj => ?_, fun j hj => ?_⟩
    · obtain ⟨hji, hj⟩ := h.nodup.mem_erase_iff.mp hj
      exact (h.queue j hj).frame rfl (h.queue j hj).other (exec_slots_ne n op hji)
    · have hji : j ≠ i := fun hji => hl.2 (hji ▸ hj)
      exact (h.pcb j hj).frame rfl (exec_slots_ne n op hji)
  · rename_i hnot
    refine ⟨h.nodup, fun j hj => (h.queue j hj).frame rfl nofun (exec_slots_ne n op ?_), nofun⟩
    rintro rfl
    exact hnot ⟨(h.queue j hj).listener, (h.queue j hj).other⟩

/-- **What the sockets hold along an entry point.** -/
theorem Held.exec (h : n.Held o) (hn : n.Sane) (hop : op.opening = false)
    (hact : n.opensBy i op → (n.pcb i).active) : (n.exec i op).Held o := by
  intro s' hs'
  have hmove := exec_socks n i op
  generalize hsocks : (n.exec i op).socks = socks at hmove hs'
  cases hmove with
  | same hkeep =>
    have hs := h s' hs'
    have hafter : Mine n o i → (n.after i op).active := fun hm =>
      hkeep hm.active hm.cb (by rw [hm.ctx]; exact Option.some_ne_none o)
    refine ⟨hs.nodup, fun j hj => ?_, fun j hj => ?_⟩
    · have hq := hs.queue j hj
      by_cases hji : j = i
      · subst hji
        exact hq.exec hn hop (hafter hq.mine)
      · exact hq.frame rfl hq.other (exec_slots_ne n op hji)
    · have hp := hs.pcb j hj
      by_cases hji : j = i
      · subst hji
        exact hp.exec hn hop (hafter hp.mine)
      · exact hp.frame rfl (exec_slots_ne n op hji)
  | opened o₁ ho hcb hctx =>
    by_cases hoo : o = o₁
    · subst hoo
      rw [socks_modSock_self] at hs'
      obtain ⟨s, hs, rfl⟩ := Option.map_eq_some_iff.mp hs'
      exact (h s hs).enqueue ho (hact ho) hcb hctx hn hop
    · rw [socks_modSock_ne n _ hoo] at hs'
      -- the block calls back another socket
      refine (h s' hs').frame fun j hj => exec_slots_ne n op ?_
      rintro rfl
      have hm := (h s' hs').mine hj
      rw [hm.openCtx hn, hm.ctx] at hctx
      exact hoo (Option.some.inj hctx)
  | closed o₁ _ _ _ hctx =>
    by_cases hoo : o = o₁
    · subst hoo
      rw [socks_modSock_self] at hs'
      obtain ⟨s, hs, rfl⟩ := Option.map_eq_some_iff.mp hs'
      exact (h s hs).forget
    · rw [socks_modSock_ne n _ hoo] at hs'
      refine (h s' hs').frame fun j hj => exec_slots_ne n op ?_
      rintro rfl
      exact hoo (Option.some.inj (((h s' hs').mine hj).ctx.symm.trans hctx))

end Netd
end Zuzu.L5
