import Zuzu.L5Net.TcpWalk

/-!
# What the entry points of netd leave alone in a control block

The tables of netd (`L5Net/Netd`) look at a block from outside: whether it is in use,
its addresses, its listener, whether it has callbacks and whether it listens or is half open.
`Op.stays` and `Op.exec_cb` say what an entry point does to these by the acts it consists of.

**Results.** `Op.stays`, `Op.exec_cb`, `dispatch_opens` and `dispatch_unopened`: what becomes of
a connection, of its callbacks, and of a half-open block that waits for its listener.
-/
namespace Zuzu.L5
open Zuzu.Core Relation

variable {K : Kit} {c c' : Cx}
variable {env : Env} {p : Pcb}

/-! ## Addresses and states -/

/-- What is fixed when a block is taken into use. -/
structure Face where
  localIp : Nat
  localPort : Nat
  remoteIp : Nat
  remotePort : Nat
  parent : Nat
  backlog : Nat
  deriving DecidableEq

def Pcb.face (p : Pcb) : Face :=
  ⟨p.localIp, p.localPort, p.remoteIp, p.remotePort, p.parent, p.backlog⟩

/-- What holds of a block that was in use with `p` and still is with `p'`. -/
structure Stays (p p' : Pcb) : Prop where
  face : p'.face = p.face
  notClosed : p'.state ≠ .closed
  listening : p'.state = .listening ↔ p.state = .listening
  synSent : p'.state = .synSent → p.state = .synSent
  synRcvd : p'.state = .synRcvd → p.state = .synRcvd ∨ p.state = .synSent

theorem Stays.refl (h : p.state ≠ .closed) : Stays p p :=
  ⟨rfl, h, .rfl, id, .inl⟩

theorem SAct.face (h : SAct K c c') : c'.pcb.face = c.pcb.face := by
  cases h with
  | data bytes fin => cases fin <;> rfl
  | _ => rfl

/-- A new state that is none of the four special ones. -/
theorem Stays.to {p' q : Pcb} (h : Stays p q) (hface : p'.face = q.face)
    (hq : q.state ≠ .listening) (hst : p'.state ≠ .closed ∧ p'.state ≠ .listening ∧
      p'.state ≠ .synSent ∧ (p'.state = .synRcvd → q.state = .synSent)) : Stays p p' where
  face := hface.trans h.face
  notClosed := hst.1
  listening := ⟨fun h' => absurd h' hst.2.1, fun h' => absurd (h.listening.mpr h') hq⟩
  synSent h' := absurd h' hst.2.2.1
  synRcvd h' := .inr (h.synSent (hst.2.2.2 h'))

theorem Stays.same {p' q : Pcb} (h : Stays p q) (hface : p'.face = q.face)
    (hst : p'.state = q.state) : Stays p p' where
  face := hface.trans h.face
  notClosed := hst ▸ h.notClosed
  listening := by rw [hst]; exact h.listening
  synSent := by rw [hst]; exact h.synSent
  synRcvd := by rw [hst]; exact h.synRcvd

theorem Act.stays (hc : c.pcb.active → Stays p c.pcb) (h : Act K c c')
    (hact : c'.pcb.active) : Stays p c'.pcb := by
  have hs := hc (h.active hact)
  cases h with
  | send h => exact hs.same h.face h.kept.state
  | release | stillborn | abort => cases hact
  | connect _ hcl => exact absurd hcl hs.notClosed
  | accept _ _ _ hcl => exact absurd hcl hs.notClosed
  | acceptLost _ _ _ hcl => exact absurd hcl hs.notClosed
  | takeFin ht =>
    refine hs.to rfl (fun h => by rw [h] at ht; cases ht) ?_
    change c.pcb.state.afterFin ≠ _ ∧ c.pcb.state.afterFin ≠ _ ∧ c.pcb.state.afterFin ≠ _ ∧
      (c.pcb.state.afterFin = _ → _)
    revert ht
    cases c.pcb.state <;> decide
  | bury hst =>
    refine hs.to rfl (fun h => ?_) ⟨nofun, nofun, nofun, nofun⟩
    rw [h] at hst
    rcases hst with h | ⟨h, -⟩ <;> cases h
  | shut _ hst =>
    refine hs.to rfl (fun h => ?_) ?_
    · rw [h] at hst
      rcases hst with h | h <;> cases h
    · change c.pcb.state.afterClose ≠ _ ∧ c.pcb.state.afterClose ≠ _ ∧
        c.pcb.state.afterClose ≠ _ ∧ (c.pcb.state.afterClose = _ → _)
      cases c.pcb.state <;> decide
  | finWait2 hst =>
    exact hs.to rfl (fun h => by rw [h] at hst; cases hst) ⟨nofun, nofun, nofun, nofun⟩
  | cross seg hst =>
    exact hs.to rfl (fun h => by rw [h] at hst; cases hst) ⟨nofun, nofun, nofun, fun _ => hst⟩
  | openActive seg b hst =>
    exact hs.to rfl (fun h => by rw [h] at hst; cases hst) ⟨nofun, nofun, nofun, nofun⟩
  | openPassive b hst =>
    exact hs.to rfl (fun h => by rw [h] at hst; cases hst) ⟨nofun, nofun, nofun, nofun⟩
  | _ => exact hs.same rfl rfl

/-- The entry points that do not open a block. -/
def Op.opening : Op → Bool
  | .connect _ | .accept .. => true
  | _ => false

theorem Acts.stays (h : Acts K c c') (hc : c.pcb.state ≠ .closed) (hact : c'.pcb.active) :
    Stays c.pcb c'.pcb :=
  h.keeps (J := fun d => d.pcb.active → Stays c.pcb d.pcb) (fun hd ha => ha.stays hd)
    (fun _ => .refl hc) hact

/-- An entry point that opens no block is a sequence of acts, or it releases the block. A
segment to a half-open block may change the callbacks. -/
theorem Op.acts_or_over (env : Env) (c : Cx) {op : Op} (hop : op.opening = false) {P : Prop}
    (hP : P → c.pcb.state = .synRcvd → ∀ seg, op ≠ .rx seg) :
    CActs Kit.all P c (op.exec env c) ∨ (op.exec env c).pcb.active = false := by
  have hrx : ∀ seg, Kit.all.Hears env c seg := fun seg =>
    ⟨fun _ => ⟨fun _ => trivial, fun _ _ _ _ => trivial, fun _ _ _ => trivial⟩,
      fun _ => trivial, fun _ _ _ _ _ => trivial, fun _ _ => trivial, fun _ _ _ => trivial⟩
  cases op with
  | connect | accept => cases hop
  | rx seg => exact .inl (dispatch_acts env (fun hp hs => hP hp hs seg rfl) fun _ => hrx seg)
  | send data => exact .inl (send_acts env c data).acts
  | recv sz => exact .inl (recv_acts c sz)
  | close => exact .inl (close_acts fun _ => trivial)
  | rto => exact .inl (rtoCb_acts c)
  | persist => exact .inl (persistCb_acts c).acts
  | drop | timeWait | finWait2 => exact .inr rfl

/-- **What becomes of a connection** that an entry point leaves in use. -/
theorem Op.stays {op : Op} (hop : op.opening = false) (hc : c.pcb.state ≠ .closed)
    (hact : (op.exec env c).pcb.active) : Stays c.pcb (op.exec env c).pcb := by
  rcases Op.acts_or_over env c hop (P := False) nofun with h | h
  · exact h.acts.stays hc hact
  · rw [h] at hact
    cases hact

/-- No entry point takes a block into use. -/
theorem Op.was_active {op : Op} (hop : op.opening = false)
    (hact : (op.exec env c).pcb.active) : c.pcb.active := by
  rcases Op.acts_or_over env c hop (P := False) nofun with h | h
  · exact h.acts.keeps (J := fun d => d.pcb.active → c.pcb.active) (fun hd ha h' => hd (ha.active h'))
      id hact
  · rw [h] at hact
    cases hact

/-! ## Callbacks -/

theorem tcpOutput_same (c : Cx) (f : Flags) (len : Nat) :
    let p := (tcpOutput c f len).1.pcb
    p.face = c.pcb.face ∧ p.state = c.pcb.state ∧ p.cb = c.pcb.cb ∧ p.active = c.pcb.active := by
  rcases tcpOutput_cases c f len with ⟨_, h⟩ | ⟨_, h⟩ | ⟨_, h⟩ | ⟨_, _, _, h⟩ <;> rw [h] <;>
    exact ⟨rfl, rfl, rfl, rfl⟩

/-- The transmission after a segment changes no more than the handler did. -/
theorem dispatch_tail (d : Cx) :
    let d' := if d.pcb.active ∧ d.pcb.state.transmits then tcpXmit d else d
    d'.pcb.cb = d.pcb.cb ∧ d'.pcb.active = d.pcb.active ∧ d'.pcb.state = d.pcb.state := by
  split
  · have hk := (xmit_acts (K := Kit.all) d).kept
    exact ⟨(xmit_acts (K := Kit.all) d).cb, hk.active, hk.state⟩
  · exact ⟨rfl, rfl, rfl⟩

/-- A RST is ignored or releases the block. -/
theorem tcpReset_cases (c : Cx) (seg : Segment) :
    tcpReset c seg = c ∨ ∃ err, tcpReset c seg = tcpPcbRelease c err ∧
      (c.pcb.state ≠ .synSent → seg.seq = c.pcb.rcv.nxt) := by
  unfold tcpReset
  by_cases hs : c.pcb.state = .synSent
  · simp only [if_pos hs]
    split
    · exact .inr ⟨_, rfl, fun h => absurd hs h⟩
    · exact .inl rfl
  · simp only [if_neg hs]
    split
    · rename_i ha
      exact .inr ⟨_, rfl, fun _ => of_decide_eq_true ha⟩
    · exact .inl rfl

/-! ## The end of a handshake -/

theorem tcpHandshakeDone_some {ack : Seq}
    (h : c.pcb.rcv.buf ≠ none ∨ env.rcvRoom) :
    tcpHandshakeDone env c ack = some (c.establish ack (c.pcb.rcv.buf.getD env.heap)) := by
  unfold tcpHandshakeDone
  rw [if_neg]
  rintro ⟨hb, hr⟩
  exact h.elim (absurd hb) (absurd · hr)

/-- The states right after a handshake: the new connection may be closed at once. -/
def TcpState.justOpen (st : TcpState) : Bool := st = .established ∨ st = .finWait1

theorem notifyEstablished_open (env : Env) (h : c.pcb.state = .established) :
    (notifyEstablished env c).pcb.active = c.pcb.active ∧
      (notifyEstablished env c).pcb.state.justOpen ∧
      (notifyEstablished env c).pcb.cb = c.pcb.cb := by
  unfold notifyEstablished
  split
  · unfold tcpClose
    rw [h]
    have hx := xmit_acts (K := Kit.all) ((c.setState .finWait1).setSnd
      { c.pcb.snd with finPending := true })
    refine ⟨hx.kept.active, ?_, hx.cb⟩
    rw [hx.kept.state]
    rfl
  · rw [h]
    exact ⟨rfl, rfl, rfl⟩

theorem onSynRcvd_open {seg : Segment} (ha : seg.flags.ack)
    (hn : seg.ack = c.pcb.snd.nxt) (hr : c.pcb.rcv.buf ≠ none ∨ env.rcvRoom) :
    (onSynRcvd env c seg).pcb.active = c.pcb.active ∧
      (onSynRcvd env c seg).pcb.state.justOpen ∧
      (onSynRcvd env c seg).pcb.cb = if c.pcb.parent ≠ 0 then env.parentCb else c.pcb.cb := by
  unfold onSynRcvd
  rw [if_pos ⟨ha, hn⟩]
  dsimp only
  rw [tcpHandshakeDone_some (c := c.setSnd { c.pcb.snd with una := seg.ack }) hr]
  dsimp only
  generalize hd : (c.setSnd { c.pcb.snd with una := seg.ack }).establish seg.ack _ = d
  have hs : d.pcb.state = .established := by rw [← hd]; rfl
  have hact : d.pcb.active = c.pcb.active := by rw [← hd]; rfl
  have hcb : d.pcb.cb = c.pcb.cb := by rw [← hd]; rfl
  have hp : d.pcb.parent = c.pcb.parent := by rw [← hd]; rfl
  rw [← hp, ← hact, ← hcb]
  split
  · exact notifyEstablished_open env (c := d.setPcb { d.pcb with cb := env.parentCb }) hs
  · exact notifyEstablished_open env hs

theorem onSynRcvd_else {seg : Segment}
    (hn : ¬(seg.flags.ack ∧ seg.ack = c.pcb.snd.nxt ∧ (c.pcb.rcv.buf ≠ none ∨ env.rcvRoom)))
    (h : (onSynRcvd env c seg).pcb.active) :
    (onSynRcvd env c seg).pcb.state = c.pcb.state ∧ (onSynRcvd env c seg).pcb.cb = c.pcb.cb := by
  unfold onSynRcvd at h ⊢
  split
  · rename_i hs
    rw [if_pos hs] at h
    have hnone : tcpHandshakeDone env (c.setSnd { c.pcb.snd with una := seg.ack }) seg.ack = none := by
      unfold tcpHandshakeDone
      rw [if_pos]
      by_contra hc
      refine hn ⟨hs.1, hs.2, ?_⟩
      rw [not_and_or, not_not] at hc
      exact hc
    dsimp only at h
    rw [hnone] at h
    cases h
  · split
    · obtain ⟨-, h1, h2, -⟩ := tcpOutput_same (c.setSnd { c.pcb.snd with nxt := c.pcb.snd.una })
        { syn := true, ack := true } 0
      exact ⟨h1, h2⟩
    · exact ⟨rfl, rfl⟩

theorem onSynSent_open {seg : Segment} (hy : seg.flags.syn) (ha : seg.flags.ack)
    (hn : seg.ack = c.pcb.snd.nxt) (hr : c.pcb.rcv.buf ≠ none ∨ env.rcvRoom) :
    (onSynSent env c seg).pcb.active = c.pcb.active ∧ (onSynSent env c seg).pcb.state.justOpen := by
  unfold onSynSent
  rw [if_pos ⟨hy, ha, hn⟩]
  dsimp only
  rw [tcpHandshakeDone_some (c := (c.setRcv (c.pcb.rcv.synced seg.seq)).setSnd
    { c.pcb.snd with una := seg.ack }) hr]
  dsimp only
  generalize hd : Cx.setSnd _ (Snd.ccInit _) = d
  have hk := (ack_acts (K := Kit.all) d).kept
  obtain ⟨h1, h2, -⟩ := notifyEstablished_open env (hk.state.trans (by rw [← hd]; rfl))
  exact ⟨h1.trans (hk.active.trans (by rw [← hd]; rfl)), h2⟩

/-- **A handshake is completed**: the block is in use and has left the half-open states. One
that has a listener has the listener's callbacks. -/
theorem dispatch_opens {seg : Segment} (ho : c.pcb.opens env seg) :
    (tcpDispatch env c seg).pcb.active = c.pcb.active ∧
      (tcpDispatch env c seg).pcb.state.justOpen ∧
      (c.pcb.state = .synRcvd → (tcpDispatch env c seg).pcb.cb =
        if c.pcb.parent ≠ 0 then env.parentCb else c.pcb.cb) := by
  obtain ⟨hrst, ha, hn, hr, hst⟩ := of_decide_eq_true ho
  unfold tcpDispatch
  rw [if_neg hrst]
  generalize he : (c.setSnd (c.pcb.snd.seeWindow seg.window)).put (.heard seg.window) = e
  have hpcb : e.pcb = { c.pcb with snd := c.pcb.snd.seeWindow seg.window } := by rw [← he]; rfl
  have hn' : seg.ack = e.pcb.snd.nxt := by rw [hpcb]; exact hn
  have hr' : e.pcb.rcv.buf ≠ none ∨ env.rcvRoom := by rw [hpcb]; exact hr
  obtain ⟨hcb, hact, hstate⟩ := dispatch_tail (onState env e seg)
  rw [hcb, hact, hstate]
  rcases hst with hst | ⟨hst, hy⟩
  · have hon : onState env e seg = onSynRcvd env e seg := by
      unfold onState
      rw [show e.pcb.state = .synRcvd by rw [hpcb]; exact hst]
    obtain ⟨h1, h2, h3⟩ := onSynRcvd_open (c := e) ha hn' hr'
    rw [hon, h1, h3, hpcb]
    exact ⟨rfl, h2, fun _ => rfl⟩
  · have hon : onState env e seg = onSynSent env e seg := by
      unfold onState
      rw [show e.pcb.state = .synSent by rw [hpcb]; exact hst]
    obtain ⟨h1, h2⟩ := onSynSent_open (c := e) hy ha hn' hr'
    rw [hon, h1, hpcb]
    exact ⟨rfl, h2, fun h => absurd (hst.symm.trans h) nofun⟩

/-- **A segment that does not complete the handshake** leaves a block in SYN_RCVD as it is, or
releases it. -/
theorem dispatch_unopened {seg : Segment} (hs : c.pcb.state = .synRcvd)
    (ho : c.pcb.opens env seg = false) (h : (tcpDispatch env c seg).pcb.active) :
    (tcpDispatch env c seg).pcb.state = .synRcvd ∧
      (tcpDispatch env c seg).pcb.cb = c.pcb.cb := by
  unfold tcpDispatch at h ⊢
  split
  · rename_i hr
    rw [if_pos hr] at h
    rcases tcpReset_cases c seg with he | ⟨err, he, -⟩
    · rw [he]
      exact ⟨hs, rfl⟩
    · rw [he] at h
      cases h
  · rename_i hr
    rw [if_neg hr] at h
    generalize he : (c.setSnd (c.pcb.snd.seeWindow seg.window)).put (.heard seg.window) = e at h ⊢
    have hpcb : e.pcb = { c.pcb with snd := c.pcb.snd.seeWindow seg.window } := by rw [← he]; rfl
    have hon : onState env e seg = onSynRcvd env e seg := by
      unfold onState
      rw [show e.pcb.state = .synRcvd by rw [hpcb]; exact hs]
    obtain ⟨hcb, hact, hstate⟩ := dispatch_tail (onState env e seg)
    rw [hact, hon] at h
    rw [hcb, hstate, hon]
    have hn : ¬(seg.flags.ack ∧ seg.ack = e.pcb.snd.nxt ∧
        (e.pcb.rcv.buf ≠ none ∨ env.rcvRoom)) := by
      rw [hpcb]
      rintro ⟨ha, hn, hroom⟩
      have : c.pcb.opens env seg = true := by
        exact decide_eq_true ⟨hr, ha, hn, hroom, .inl hs⟩
      rw [ho] at this
      cases this
    obtain ⟨h1, h2⟩ := onSynRcvd_else hn h
    rw [h1, h2, hpcb]
    exact ⟨hs, rfl⟩

/-- **The callbacks of a connection** stay until it is released. Only a half-open block with
a listener takes over others, when its handshake is completed. -/
theorem Op.exec_cb {op : Op} (hop : op.opening = false)
    (hs : ∀ seg, op = .rx seg → c.pcb.opens env seg → c.pcb.state = .synRcvd → c.pcb.parent = 0)
    (h : (op.exec env c).pcb.active) : (op.exec env c).pcb.cb = c.pcb.cb := by
  by_cases hrx : c.pcb.state = .synRcvd ∧ ∃ seg, op = .rx seg
  · obtain ⟨hst, seg, rfl⟩ := hrx
    by_cases ho : c.pcb.opens env seg
    · obtain ⟨-, -, hcb⟩ := dispatch_opens ho
      exact (hcb hst).trans (if_neg (not_not.mpr (hs seg rfl ho hst)))
    · exact (dispatch_unopened hst (Bool.eq_false_iff.mpr ho) h).2
  · rcases Op.acts_or_over env c hop (P := True) fun _ hst seg e => hrx ⟨hst, seg, e⟩ with ha | ho
    · exact ha.cb trivial h
    · rw [ho] at h
      cases h

/-! ## Reading, writing and opening -/

theorem send_active (env : Env) (c : Cx) (data : List Byte) :
    ((Op.send data).exec env c).pcb.active = c.pcb.active :=
  (send_acts (K := Kit.all) env c data).kept.active

theorem recv_active (env : Env) (c : Cx) (sz : Nat) :
    ((Op.recv sz).exec env c).pcb.active = c.pcb.active := (recv_kept c sz).2

/-- A block that answers a SYN waits for its listener. -/
theorem accept_after (env : Env) (c : Cx) (l : Nat) (seg : Segment) (isn : Seq) :
    let p := ((Op.accept l seg isn).exec env c).pcb
    p.face = { c.pcb.face with parent := l + 1 } ∧ p.state = .synRcvd ∧ p.cb = c.pcb.cb ∧
      p.active = c.pcb.active := by
  exact tcpOutput_same (((c.setPcb (c.pcb.accepting l seg isn)).put (.opened isn)).put
    (.heard seg.window)) { syn := true, ack := true } 0

/-- A block that connects has sent a SYN. -/
theorem connect_after {isn : Seq} (h : ((Op.connect isn).exec env c).pcb.active) :
    let p := ((Op.connect isn).exec env c).pcb
    p.face = c.pcb.face ∧ p.state = .synSent ∧ p.cb = true := by
  obtain ⟨hface, hstate, -⟩ := tcpOutput_same ((c.setPcb (c.pcb.opening isn)).put (.opened isn))
    { syn := true } 0
  dsimp only [Op.exec, tcpConnect] at h ⊢
  split
  · exact ⟨hface, hstate, rfl⟩
  · rename_i hr
    rw [if_neg hr] at h
    cases h

end Zuzu.L5
