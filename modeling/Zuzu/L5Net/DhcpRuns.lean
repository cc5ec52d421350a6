import Zuzu.Core.History
import Zuzu.L5Net.Dhcp

/-!
# Runs of the DHCP client

What one handler can do to a node, as a relation with one constructor for each kind of
change (`Move`), and the results that follow from it for every run.
-/
namespace Zuzu.L5
open Zuzu.Core
variable {st : DhcpState} {s s' : Node} {d : Dhcp} {e : DhcpEvent}

/-! ## The messages of the client change little -/

namespace Dx
variable (c : Dx)

@[simp] theorem later_toNode : c.later.toNode = c.toNode := rfl
@[simp] theorem later_udp : c.later.udp = c.udp := rfl

@[simp] theorem udpSend_toNode (dst : Ipv4Addr) (m : DhcpMsg) :
    (c.udpSend dst m).toNode = { c.toNode with log := c.log ++ [.sent dst m c.udp.head] } := rfl

@[simp] theorem udpSend_udp (dst : Ipv4Addr) (m : DhcpMsg) :
    (c.udpSend dst m).udp = c.udp.tail := rfl

end Dx

theorem dhcpSendDiscover_toNode (c : Dx) : ∃ m ms,
    (dhcpSendDiscover c).toNode = { c.toNode with
      dhcp := { c.dhcp with
        state := if c.udp.head then .selecting else c.dhcp.state
        sentMs := ms }
      log := c.log ++ [.sent broadcastIp m c.udp.head] } := by
  unfold dhcpSendDiscover
  dsimp only
  split
  · exact ⟨_, _, rfl⟩
  · exact ⟨_, c.dhcp.sentMs, rfl⟩

theorem dhcpSendRequest_toNode (c : Dx) : ∃ m ms,
    (dhcpSendRequest c).toNode = { c.toNode with
      dhcp := { c.dhcp with
        state := if c.udp.head then .requesting else c.dhcp.state
        sentMs := ms }
      log := c.log ++ [.sent broadcastIp m c.udp.head] } := by
  unfold dhcpSendRequest
  dsimp only
  split
  · exact ⟨_, _, rfl⟩
  · exact ⟨_, c.dhcp.sentMs, rfl⟩

theorem dhcpSendRenew_toNode (c : Dx) (dst : Ipv4Addr) : ∃ m ms,
    (dhcpSendRenew c dst).toNode = { c.toNode with
      dhcp := { c.dhcp with sentMs := ms }
      log := c.log ++ [.sent dst m c.udp.head] } := by
  unfold dhcpSendRenew
  dsimp only
  split
  · exact ⟨_, _, rfl⟩
  · exact ⟨_, c.dhcp.sentMs, rfl⟩

/-- Where a restart leads to, when `ok` says whether its DISCOVER is sent. -/
def Dhcp.restarted (d : Dhcp) (ok : Bool) (xid startMs sentMs : BitVec 32) : Dhcp :=
  { d with state := if ok then .selecting else .init, xid, startMs, retries := 0, sentMs }

theorem dhcpRestart_toNode (c : Dx) : ∃ m xid startMs sentMs,
    (dhcpRestart c).toNode = { c.toNode with
      dhcp := c.dhcp.restarted c.udp.head xid startMs sentMs
      log := c.log ++ [.sent broadcastIp m c.udp.head] } := by
  obtain ⟨m, ms, h⟩ := dhcpSendDiscover_toNode (((c.setDhcp { c.dhcp with
    state := .init, xid := c.now }).later.setDhcp { (c.setDhcp { c.dhcp with
    state := .init, xid := c.now }).later.dhcp with
      startMs := (c.setDhcp { c.dhcp with state := .init, xid := c.now }).later.now
      retries := 0 }).later)
  exact ⟨m, _, _, ms, h⟩

/-! ## Moves -/

/-- The first exchange is under way. -/
def DhcpState.asking : DhcpState → Bool
  | .selecting | .requesting => true
  | _ => false

theorem DhcpState.asking_ite {st' : DhcpState} (b : Bool) (h : st.asking) (h' : st'.asking) :
    (if b then st else st').asking := by
  cases b
  · exact h'
  · exact h

/-- mirrors netd/app/dhcp.c:333-337 -/
def DhcpState.isBound : DhcpState → Bool
  | .bound | .renewing | .rebinding => true
  | _ => false

/-- A call of `UdpSend`. -/
def Note.isSent : Note → Bool
  | .sent .. => true
  | _ => false

/-- Two records of the client with the same lease. -/
def Dhcp.SameLease (d d' : Dhcp) : Prop :=
  d'.leaseSecs = d.leaseSecs ∧ d'.t1Secs = d.t1Secs ∧ d'.t2Secs = d.t2Secs ∧ d'.boundMs = d.boundMs

/-- The handler gives up what it has and starts over with a DISCOVER; `now` is its first reading
of the clock. mirrors netd/app/dhcp.c:315-316, 350-356 and 380-384, netd/link/arp.c:195-202 -/
def Node.restarts (s : Node) (now : BitVec 32) : DhcpEvent → Bool
  | .recv data =>
    (s.dhcp.state = .requesting ∨ s.dhcp.state.leased) ∧ s.dhcp.accepts data = some 6
  | .tick =>
    s.dhcp.state.asking ∧ dhcpTimeoutMs ≤ sinceMs now s.dhcp.sentMs ∧
        dhcpMaxRetries ≤ s.dhcp.retries ∨
      s.dhcp.state.leased ∧ s.dhcp.leaseSecs ≤ s.dhcp.held now
  | .arp data => s.acd.active ∧ (parseArp data).any fun p => p.conflicts s.netif.mac s.acd.ip
  | .arpTick => false

/-- What a handler can do to a node. Its first reading of the clock is `now`, and `udp` is the
fate of its messages. -/
inductive Move (now : BitVec 32) (udp : Stream' Bool) (s : Node) : DhcpEvent → Node → Prop
  | stay (e : DhcpEvent) : Move now udp s e s
  | ask {e : DhcpEvent} {d : Dhcp} {notes : List Note} (hs : s.dhcp.state.asking)
      (hd : d.state.asking) (hn : ∀ n ∈ notes, n.isSent) :
      Move now udp s e { s with dhcp := d, log := s.log ++ notes }
  | giveUp {e : DhcpEvent} {m : DhcpMsg} {xid startMs sentMs : BitVec 32}
      (hs : s.dhcp.state.asking) (hr : s.restarts now e) :
      Move now udp s e { s with
        dhcp := s.dhcp.restarted udp.head xid startMs sentMs
        log := s.log ++ [.sent broadcastIp m udp.head] }
  | refused {data : List Byte} {m : DhcpMsg} {xid startMs sentMs : BitVec 32}
      (hs : s.dhcp.state.leased) (ht : s.dhcp.accepts data = some 6) :
      Move now udp s (.recv data) { s with
        dhcp := s.dhcp.restarted udp.head xid startMs sentMs
        log := s.log ++ [.sent broadcastIp m udp.head] }
  | expired {m : DhcpMsg} {xid startMs sentMs : BitVec 32} (hs : s.dhcp.state.leased)
      (hr : s.restarts now .tick) :
      Move now udp s .tick { s with
        netif := ⟨0, 0, 0, 0, s.netif.mac⟩
        dhcp := s.dhcp.restarted udp.head xid startMs sentMs
        log := s.log ++ [.sent broadcastIp m udp.head] }
  | renew {d : Dhcp} {notes : List Note} (hs : s.dhcp.state.isBound) (hd : d.state.leased)
      (hl : s.dhcp.SameLease d) (hn : ∀ n ∈ notes, n.isSent) :
      Move now udp s .tick { s with dhcp := d, log := s.log ++ notes }
  | renewed {data : List Byte} {ms id : BitVec 32} (hs : s.dhcp.state.leased)
      (ht : s.dhcp.accepts data = some 5) :
      Move now udp s (.recv data) { s with
        dhcp := ({ s.dhcp with serverId := id }).enterBound (leaseOf data) ms
        netif := s.netif.configure data
        log := s.log ++ [.bound (yiaddr data) false] }
  | acked {data : List Byte} {ms id : BitVec 32} (hs : s.dhcp.state = .requesting)
      (ht : s.dhcp.accepts data = some 5) :
      Move now udp s (.recv data) { s with
        dhcp := { s.dhcp with
          serverId := id, ackBuf := data.take dhcpAckBufsz, state := .probing }
        acd := ⟨true, s.dhcp.offeredIp, 0, ms⟩
        log := s.log ++ [.acked] }
  | heard {data : List Byte} {p : ArpPacket} (hp : parseArp data = some p)
      (hc : ¬(s.acd.active ∧ p.conflicts s.netif.mac s.acd.ip)) :
      Move now udp s (.arp data) { s with log := s.log ++ [.heard p] }
  | conflict {data : List Byte} {p : ArpPacket} {m m' : DhcpMsg} {xid startMs sentMs : BitVec 32}
      (hp : parseArp data = some p) (ha : s.acd.active)
      (hc : p.conflicts s.netif.mac s.acd.ip) :
      Move now udp s (.arp data) { s with
        acd := { s.acd with active := false }
        dhcp := s.dhcp.restarted udp.tail.head xid startMs sentMs
        log := s.log ++ [.heard p, .sent broadcastIp m udp.head,
          .sent broadcastIp m' udp.tail.head] }
  | probe {ms : BitVec 32} (ha : s.acd.active) (hp : s.acd.probes < acdProbeNum) :
      Move now udp s .arpTick { s with
        acd := { s.acd with probes := s.acd.probes + 1, nextMs := ms }
        log := s.log ++ [.probe s.acd.ip] }
  | free {ms : BitVec 32} (ha : s.acd.active) (hp : acdProbeNum ≤ s.acd.probes) :
      Move now udp s .arpTick { s with
        acd := { s.acd with active := false }
        dhcp := s.dhcp.enterBound (leaseOf s.dhcp.ackBuf) ms
        netif := s.netif.configure s.dhcp.ackBuf
        log := s.log ++ [.bound (yiaddr s.dhcp.ackBuf) true] }

section Handlers
variable {c : Dx} {data : List Byte} (now : BitVec 32)

theorem onOffer_move (e : DhcpEvent) (hs : c.dhcp.state = .selecting) :
    Move now c.udp c.toNode e (onOffer c data).toNode := by
  have ha : c.dhcp.state.asking := by rw [hs]; rfl
  unfold onOffer
  split
  · have h : Move now c.udp c.toNode e { c.toNode with
        dhcp := { c.dhcp with offeredIp := yiaddr data }
        log := c.log ++ [] } := .ask ha ha (by simp)
    rwa [List.append_nil] at h
  · rename_i id _
    obtain ⟨m, ms, h⟩ := dhcpSendRequest_toNode ((c.setDhcp { c.dhcp with
      offeredIp := yiaddr data }).setDhcp { (c.setDhcp { c.dhcp with
        offeredIp := yiaddr data }).dhcp with serverId := id })
    rw [h]
    exact .ask ha (DhcpState.asking_ite c.udp.head rfl ha) (by simp [Note.isSent])

theorem onAck_move (ht : c.dhcp.accepts data = some 5)
    (hs : c.dhcp.state = .requesting ∨ c.dhcp.state.leased) :
    Move now c.udp c.toNode (.recv data) (onAck c data).toNode := by
  unfold onAck
  dsimp only
  split
  · rename_i hl
    exact .renewed hl ht
  · rename_i hl
    exact .acked (hs.resolve_right hl) ht

theorem dhcpRecv_move : Move now c.udp c.toNode (.recv data) (dhcpRecv c data).toNode := by
  unfold dhcpRecv
  split
  · exact .stay _
  · rename_i t ht
    dsimp only
    split
    · rename_i h
      exact onOffer_move now _ h.1
    · split
      · rename_i h
        exact onAck_move now (h.2 ▸ ht) h.1
      · split
        · rename_i h
          obtain ⟨m, x, a, b, hr⟩ := dhcpRestart_toNode c
          rw [hr]
          rcases h.1 with hs | hs
          · exact .giveUp (by rw [hs]; rfl) (by simp [Node.restarts, hs, h.2 ▸ ht])
          · exact .refused hs (h.2 ▸ ht)
        · exact .stay _

theorem tickAsking_move (hs : c.dhcp.state.asking) :
    Move now c.udp c.toNode .tick (tickAsking c now).toNode := by
  unfold tickAsking
  split
  · exact .stay _
  · rename_i hlate
    split
    · rename_i htries
      obtain ⟨m, x, a, b, hr⟩ := dhcpRestart_toNode c
      rw [hr]
      refine .giveUp hs (decide_eq_true (.inl ⟨hs, ?_, htries⟩))
      exact Int.not_lt.mp hlate
    · dsimp only
      split
      · obtain ⟨m, ms, h⟩ := dhcpSendDiscover_toNode
          (c.setDhcp { c.dhcp with retries := c.dhcp.retries + 1 })
        rw [h]
        exact .ask hs (DhcpState.asking_ite c.udp.head rfl hs) (by simp [Note.isSent])
      · obtain ⟨m, ms, h⟩ := dhcpSendRequest_toNode
          (c.setDhcp { c.dhcp with retries := c.dhcp.retries + 1 })
        rw [h]
        exact .ask hs (DhcpState.asking_ite c.udp.head rfl hs) (by simp [Note.isSent])

/-- `n` is `c` with its lease under renewal, after some messages. -/
def Dx.Renews (c : Dx) (n : Node) : Prop :=
  ∃ d notes, d.state.leased ∧ c.dhcp.SameLease d ∧ (∀ n ∈ notes, n.isSent) ∧
    n = { c.toNode with dhcp := d, log := c.log ++ notes }

theorem Dx.Renews.holds {n : Node} (h : c.Renews n) :
    n.dhcp.state.leased ∧ c.dhcp.SameLease n.dhcp := by
  obtain ⟨d, notes, hd, hl, -, rfl⟩ := h
  exact ⟨hd, hl⟩

theorem Dx.Renews.move {n : Node} (h : c.Renews n) (hs : c.dhcp.state.isBound) :
    Move now c.udp c.toNode .tick n := by
  obtain ⟨d, notes, hd, hl, hn, rfl⟩ := h
  exact .renew hs hd hl hn

theorem dhcpSendRenew_renews {c' : Dx} (dst : Ipv4Addr) (hs : c'.dhcp.state.leased)
    (hl : c.dhcp.SameLease c'.dhcp) (hn : c'.toNode = { c.toNode with dhcp := c'.dhcp }) :
    c.Renews (dhcpSendRenew c' dst).toNode := by
  obtain ⟨m, ms, h⟩ := dhcpSendRenew_toNode c' dst
  refine ⟨{ c'.dhcp with sentMs := ms }, _, hs, hl, ?_, by rw [h, hn]⟩
  simp [Note.isSent]

theorem tickBound_waits (h1 : ¬c.dhcp.t1Secs ≤ c.dhcp.held now)
    (h2 : ¬c.dhcp.t2Secs ≤ c.dhcp.held now) : tickBound c now = c := by
  unfold tickBound
  rw [if_neg h2, if_neg h1]
  exact ite_self c

theorem tickBound_renews (hf : c.dhcp.leaseSecs ≠ dhcpLeaseInfinite)
    (ht : c.dhcp.t1Secs ≤ c.dhcp.held now ∨ c.dhcp.t2Secs ≤ c.dhcp.held now) :
    c.Renews (tickBound c now).toNode := by
  unfold tickBound
  rw [if_neg hf]
  split
  · exact dhcpSendRenew_renews _ rfl ⟨rfl, rfl, rfl, rfl⟩ rfl
  · rename_i h2
    rw [if_pos (ht.resolve_right h2)]
    exact dhcpSendRenew_renews _ rfl ⟨rfl, rfl, rfl, rfl⟩ rfl

theorem tickBound_move (hs : c.dhcp.state = .bound) :
    Move now c.udp c.toNode .tick (tickBound c now).toNode := by
  by_cases hf : c.dhcp.leaseSecs = dhcpLeaseInfinite
  · rw [tickBound, if_pos hf]
    exact .stay _
  by_cases h : c.dhcp.t1Secs ≤ c.dhcp.held now ∨ c.dhcp.t2Secs ≤ c.dhcp.held now
  · exact (tickBound_renews now hf h).move now (by rw [hs]; rfl)
  · rw [not_or] at h
    rw [tickBound_waits now h.1 h.2]
    exact .stay _

/-- The first half of a renewal tick: the state may go on to REBINDING. -/
theorem tickRenew_renews (hs : c.dhcp.state.leased) : c.Renews (tickRenew c now).toNode := by
  unfold tickRenew
  dsimp only
  generalize hc : (if c.dhcp.state = .renewing ∧ c.dhcp.t2Secs ≤ c.dhcp.held now then
    c.setDhcp { c.dhcp with state := .rebinding } else c) = c'
  have h' : c'.dhcp.state.leased ∧ c.dhcp.SameLease c'.dhcp ∧
      c'.toNode = { c.toNode with dhcp := c'.dhcp } := by
    subst hc
    split
    · exact ⟨rfl, ⟨rfl, rfl, rfl, rfl⟩, rfl⟩
    · exact ⟨hs, ⟨rfl, rfl, rfl, rfl⟩, rfl⟩
  obtain ⟨hl, hsame, hn⟩ := h'
  split
  · exact dhcpSendRenew_renews _ hl hsame hn
  · refine ⟨c'.dhcp, [], hl, hsame, by simp, ?_⟩
    rw [List.append_nil]
    exact hn

theorem tickLeased_move (hs : c.dhcp.state.leased) :
    Move now c.udp c.toNode .tick (tickLeased c now).toNode := by
  unfold tickLeased
  split
  · rename_i hend
    obtain ⟨m, x, a, b, hr⟩ := dhcpRestart_toNode { c with netif := ⟨0, 0, 0, 0, c.netif.mac⟩ }
    rw [hr]
    exact .expired hs (decide_eq_true (.inr ⟨hs, hend⟩))
  · refine (tickRenew_renews now hs).move now ?_
    revert hs
    cases c.dhcp.state <;> decide

theorem dhcpTick_move : Move c.now c.udp c.toNode .tick (dhcpTick c).toNode := by
  have key : ∀ st, c.dhcp.state = st → Move c.now c.udp c.toNode .tick (dhcpTick c).toNode := by
    intro st hst
    have hl : c.later.dhcp.state = st := hst
    unfold dhcpTick
    dsimp only
    rw [hl]
    cases st with
    | init | probing => exact .stay _
    | selecting | requesting =>
      exact tickAsking_move (c := c.later) c.now (by rw [hl]; rfl)
    | bound => exact tickBound_move (c := c.later) c.now hl
    | renewing | rebinding => exact tickLeased_move (c := c.later) c.now (by rw [hl]; rfl)
  exact key _ rfl

theorem arpAcdFinish_active (ha : c.acd.active) (conflict : Bool) :
    arpAcdFinish c conflict = dhcpAcdDone (c.setAcd { c.acd with active := false }) conflict :=
  if_neg (not_not_intro ha)

theorem arpRx_move : Move now c.udp c.toNode (.arp data) (arpRx c data).toNode := by
  unfold arpRx
  split
  · exact .stay _
  · rename_i p hp
    dsimp only
    split
    · rename_i h
      rw [arpAcdFinish_active h.1]
      unfold dhcpAcdDone
      rw [if_pos rfl]
      generalize hc : (c.put (.heard p)).setAcd { (c.put (.heard p)).acd with active := false } = c'
      have hn : c'.toNode = { c.toNode with
          acd := { c.acd with active := false }, log := c.log ++ [.heard p] } := by
        rw [← hc]
        rfl
      have hu : c'.udp = c.udp := by
        rw [← hc]
        rfl
      obtain ⟨m', x, a, b, hr⟩ := dhcpRestart_toNode (dhcpSendDecline c')
      rw [hr]
      unfold dhcpSendDecline
      simp only [Dx.udpSend_toNode, Dx.later_toNode, Dx.udpSend_udp, Dx.later_udp, hn, hu,
        List.append_assoc, List.cons_append, List.nil_append]
      exact .conflict hp h.1 h.2
    · rename_i h
      exact .heard hp h

theorem arpTick_move : Move now c.udp c.toNode .arpTick (arpTick c).toNode := by
  unfold arpTick
  dsimp only
  split
  · rename_i h
    split
    · rename_i hp
      exact .probe h.1 hp
    · rename_i hp
      rw [arpAcdFinish_active h.1]
      unfold dhcpAcdDone
      rw [if_neg (by simp)]
      exact .free h.1 (Nat.le_of_not_lt hp)
  · exact .stay _

end Handlers

/-- Every step is a move. -/
theorem Node.step_move {l : DhcpEvent × NetEnv} (h : dhcpSystem.step s l s') :
    Move (BitVec.ofNat 32 l.2.clock.head) l.2.udp s l.1 s' := by
  obtain ⟨e, env⟩ := l
  cases Option.some.inj h
  cases e with
  | recv data => exact dhcpRecv_move _ (c := s.with env)
  | tick => exact dhcpTick_move (c := s.with env)
  | arp data => exact arpRx_move _ (c := s.with env)
  | arpTick => exact arpTick_move _ (c := s.with env)

/-- A run begins with a restart from a blank node. -/
theorem Node.start_eq (mac : List Byte) (env : NetEnv) : ∃ m xid startMs sentMs,
    Node.start mac env = { Node.blank mac with
      dhcp := (Node.blank mac).dhcp.restarted env.udp.head xid startMs sentMs
      log := [.sent broadcastIp m env.udp.head] } := by
  obtain ⟨m, x, a, b, h⟩ := dhcpRestart_toNode ((Node.blank mac).with env)
  exact ⟨m, x, a, b, h⟩

/-! ## The two machines agree -/

/-- The probing is on exactly while the client waits for its verdict. -/
def Node.InStep (s : Node) : Prop := s.acd.active = true ↔ s.dhcp.state = .probing

theorem Dhcp.restarted_state {ok : Bool} {xid startMs sentMs : BitVec 32} :
    (d.restarted ok xid startMs sentMs).state = .selecting ∨
      (d.restarted ok xid startMs sentMs).state = .init := by
  cases ok
  · exact .inr rfl
  · exact .inl rfl

theorem Dhcp.restarted_ne_probing {ok : Bool} {xid startMs sentMs : BitVec 32} :
    (d.restarted ok xid startMs sentMs).state ≠ .probing := by
  rcases Dhcp.restarted_state with h | h <;> rw [h] <;> decide

theorem DhcpState.ne_probing_of_asking (h : st.asking) : st ≠ .probing := by
  revert h
  cases st <;> decide

theorem DhcpState.ne_probing_of_isBound (h : st.isBound) : st ≠ .probing := by
  revert h
  cases st <;> decide

theorem DhcpState.isBound_of_leased (h : st.leased) : st.isBound := by
  revert h
  cases st <;> decide

section InStep
variable {s s' : Node} {a : Acd}

theorem Acd.silent {p : Prop} (h : a.active = false) (ha : a.active = true) : p :=
  absurd (h ▸ ha) Bool.false_ne_true

theorem Node.InStep.off {n : Netif} {l : List Note} (ha : a.active = false)
    (hd : d.state ≠ .probing) : Node.InStep ⟨d, a, n, l⟩ :=
  ⟨Acd.silent ha, fun h => absurd h hd⟩

theorem Node.InStep.of_asking (h : s.InStep) (hs : s.dhcp.state.asking) : s.acd.active = false :=
  Bool.eq_false_iff.mpr (mt h.mp (DhcpState.ne_probing_of_asking hs))

theorem Node.InStep.of_bound (h : s.InStep) (hs : s.dhcp.state.isBound) : s.acd.active = false :=
  Bool.eq_false_iff.mpr (mt h.mp (DhcpState.ne_probing_of_isBound hs))

theorem Node.InStep.of_leased (h : s.InStep) (hs : s.dhcp.state.leased) : s.acd.active = false :=
  h.of_bound (DhcpState.isBound_of_leased hs)

theorem Node.InStep.move {now : BitVec 32} {udp : Stream' Bool} (h : s.InStep)
    (hm : Move now udp s e s') : s'.InStep := by
  cases hm with
  | stay => exact h
  | ask hs hd =>
    exact .off (h.of_asking hs) (DhcpState.ne_probing_of_asking hd)
  | giveUp hs => exact .off (h.of_asking hs) Dhcp.restarted_ne_probing
  | refused hs | expired hs => exact .off (h.of_leased hs) Dhcp.restarted_ne_probing
  | renew hs hd =>
    exact .off (h.of_bound hs) (DhcpState.ne_probing_of_isBound (DhcpState.isBound_of_leased hd))
  | renewed hs => exact .off (h.of_leased hs) (fun h => DhcpState.noConfusion h)
  | acked => exact ⟨fun _ => rfl, fun _ => rfl⟩
  | heard | probe => exact h
  | conflict => exact .off rfl Dhcp.restarted_ne_probing
  | free => exact .off rfl (fun h => DhcpState.noConfusion h)

theorem Node.InStep.start (mac : List Byte) (env : NetEnv) : (Node.start mac env).InStep := by
  obtain ⟨m, x, a, b, h⟩ := Node.start_eq mac env
  rw [h]
  exact .off rfl Dhcp.restarted_ne_probing

end InStep

/-! ## Concrete exchanges -/

/-- A message of a server, with the options `opts` after the message type. -/
def serverMsg (type : Byte) (xid : BitVec 32) (ip : Ipv4Addr) (opts : List Byte) : List Byte :=
  [2, 1, 6, 0] ++ bytes32 xid ++ List.replicate 8 0 ++ bytes32 ip ++ List.replicate 216 0 ++
    [0x63, 0x82, 0x53, 0x63] ++ dhcpOpt 53 [type] ++ opts ++ [255]

/-- The clock stands at `ms`, and every message is sent. -/
def stillAt (ms : Nat) : NetEnv := ⟨Stream'.const ms, Stream'.const true⟩

/-- At uptime 0 a server offers one address and acknowledges another, and nobody answers the
probes. -/
def exchange (offered acked : Ipv4Addr) : List (DhcpEvent × NetEnv) :=
  [(.recv (serverMsg 2 0 offered (dhcpOpt 54 (bytes32 7))), stillAt 0),
    (.recv (serverMsg 5 0 acked []), stillAt 0),
    (.arpTick, stillAt 0), (.arpTick, stillAt 1000), (.arpTick, stillAt 2000),
    (.arpTick, stillAt 3000)]

/-- The steps of `ls` from a node that starts at uptime 0. -/
def exchanged (ls : List (DhcpEvent × NetEnv)) : Node :=
  ls.foldl Node.step (Node.start [1, 2, 3, 4, 5, 6] (stillAt 0))

theorem exchanged_reachable (ls : List (DhcpEvent × NetEnv)) :
    dhcpSystem.Reachable (exchanged ls) :=
  ⟨_, _, ⟨_, _, rfl⟩, LTS.run_of_foldl Node.step ls _⟩

theorem exchanged_restrict {ok : Node → DhcpEvent × NetEnv → Prop}
    [∀ s l, Decidable (ok s l)] (ls : List (DhcpEvent × NetEnv))
    (h : ls.foldlM (fun s l => if ok s l then some (s.step l) else none)
      (Node.start [1, 2, 3, 4, 5, 6] (stillAt 0)) = some (exchanged ls)) :
    (dhcpSystem.restrict (fun _ => True) ok).Reachable (exchanged ls) :=
  ⟨_, _, ⟨⟨_, _, rfl⟩, trivial⟩, LTS.restrict_run_of_foldlM h⟩

/-! ## Without a lease there is no address -/

/-- No NAK is taken while a lease runs out. -/
def NoNak (s : Node) : DhcpEvent × NetEnv → Prop
  | (.recv data, _) => s.dhcp.state.leased → s.dhcp.accepts data ≠ some 6
  | _ => True

instance (s : Node) (l : DhcpEvent × NetEnv) : Decidable (NoNak s l) := by
  unfold NoNak
  split <;> infer_instance

/-- The address is there only with a lease. -/
structure Node.Clean (s : Node) : Prop where
  inStep : s.InStep
  ip : s.dhcp.state.isBound = false → s.netif.ip = 0

theorem DhcpState.not_isBound_of_asking (h : st.asking) :
    st.isBound = false := by
  revert h
  cases st <;> decide

theorem Node.Clean.move {now : BitVec 32} {env : NetEnv} (h : s.Clean)
    (hok : NoNak s (e, env)) (hm : Move now env.udp s e s') : s'.Clean := by
  refine ⟨h.inStep.move hm, fun hb => ?_⟩
  cases hm with
  | stay => exact h.ip hb
  | ask hs | giveUp hs => exact h.ip (DhcpState.not_isBound_of_asking hs)
  | refused hs ht => exact absurd ht (hok hs)
  | expired => rfl
  | renew _ hd => exact absurd (DhcpState.isBound_of_leased hd) (Bool.eq_false_iff.mp hb)
  | renewed | free => exact Bool.noConfusion hb
  | acked hs => exact h.ip (by rw [hs]; rfl)
  | heard => exact h.ip hb
  | probe => exact h.ip hb
  | conflict _ ha => exact h.ip (by rw [h.inStep.mp ha]; rfl)

/-- In every run in which no NAK is taken while a lease runs out, the interface has an address
only while there is a lease. -/
theorem address_only_while_leased {s : Node}
    (h : (dhcpSystem.restrict (fun _ => True) NoNak).Reachable s)
    (hs : s.dhcp.state ≠ .bound ∧ s.dhcp.state ≠ .renewing ∧ s.dhcp.state ≠ .rebinding) :
    s.netif.ip = 0 := by
  have hi : LTS.Inductive (dhcpSystem.restrict (fun _ => True) NoNak) Node.Clean := by
    refine ⟨?_, fun hc hst => hc.move hst.2 (Node.step_move hst.1)⟩
    rintro s ⟨⟨mac, env, rfl⟩, -⟩
    refine ⟨.start mac env, fun _ => ?_⟩
    obtain ⟨m, x, a, b, hr⟩ := Node.start_eq mac env
    rw [hr]
    rfl
  apply (hi.reachable h).ip
  revert hs
  cases s.dhcp.state <;> decide

/-- The exchange, the lease of one hour and the first half of it, without a word of a server
after the ACK: the client has its address, gives it up after the hour and has none. -/
theorem address_only_while_leased_hour :
    (exchanged (exchange 9 9 ++ [(.tick, stillAt 1803000), (.tick, stillAt 3603000)])).netif.ip =
      0 :=
  address_only_while_leased (exchanged_restrict _ (by decide +kernel)) (by decide +kernel)

/-- A NAK while the lease is renewed sends the client back to SELECTING with its address. -/
theorem nak_keeps_address : ∃ s, dhcpSystem.Reachable s ∧ s.dhcp.state = .selecting ∧
    s.netif.ip ≠ 0 := by
  exact ⟨exchanged (exchange 9 9 ++ [(.tick, stillAt 1803000),
    (.recv (serverMsg 6 0 9 []), stillAt 1803001)]), exchanged_reachable _, by decide +kernel,
    by decide +kernel⟩

/-! ## Only a probed address is taken -/

/-- After the latest ACK in `before`, `ip` was probed as often as it takes and nobody objected. -/
def Probed (mac : List Byte) (before : List Note) (ip : Ipv4Addr) : Prop :=
  ∃ old new, before = old ++ .acked :: new ∧ .acked ∉ new ∧
    acdProbeNum ≤ new.count (.probe ip) ∧ ∀ p, .heard p ∈ new → p.conflicts mac ip = false

/-- A first binding is one of a probed address. -/
def BindsProbed (mac : List Byte) (before : List Note) (n : Note) : Prop :=
  ∀ ip, n = .bound ip true → Probed mac before ip

def Note.boundIp : Note → Option Ipv4Addr
  | .bound ip _ => some ip
  | _ => none

/-- The address that was taken last. -/
def lastBound (log : List Note) : Option Ipv4Addr := (log.filterMap Note.boundIp).getLast?

theorem lastBound_append {log notes : List Note} (h : ∀ n ∈ notes, n.boundIp = none) :
    lastBound (log ++ notes) = lastBound log := by
  have h0 : notes.filterMap Note.boundIp = [] := List.filterMap_eq_nil_iff.mpr h
  rw [lastBound, List.filterMap_append, h0, List.append_nil, lastBound]

theorem lastBound_bound (log : List Note) (ip : Ipv4Addr) (fresh : Bool) :
    lastBound (log ++ [.bound ip fresh]) = some ip := by
  simp [lastBound, Note.boundIp]

theorem Note.boundIp_of_isSent {n : Note} (h : n.isSent) : n.boundIp = none := by
  cases n <;> first | rfl | cases h

theorem BindsProbed.of_none {mac : List Byte} {before : List Note} {n : Note}
    (h : n.boundIp = none) : BindsProbed mac before n := by
  rintro ip rfl
  cases h

/-- Notes that bind nothing can be added to a history. -/
theorem each_append {mac : List Byte} {log : List Note} :
    ∀ {notes : List Note}, Each (BindsProbed mac) log → (∀ n ∈ notes, n.boundIp = none) →
      Each (BindsProbed mac) (log ++ notes)
  | [], h, _ => by rwa [List.append_nil]
  | n :: notes, h, hn => by
    rw [List.append_cons]
    exact each_append (h.concat (.of_none (hn n List.mem_cons_self)))
      (fun m hm => hn m (List.mem_cons_of_mem _ hm))

/-- An ACK that ends the first exchange is for the address that was offered. -/
def AckAsOffered (s : Node) : DhcpEvent × NetEnv → Prop
  | (.recv data, _) => s.dhcp.state = .requesting → s.dhcp.accepts data = some 5 →
    yiaddr data = s.dhcp.offeredIp
  | _ => True

instance (s : Node) (l : DhcpEvent × NetEnv) : Decidable (AckAsOffered s l) := by
  unfold AckAsOffered
  split <;> infer_instance

/-- The probing since the latest ACK, as far as it has come. -/
structure Node.OnProbe (s : Node) : Prop where
  stash : yiaddr s.dhcp.ackBuf = s.acd.ip
  trace : ∃ old new, s.log = old ++ .acked :: new ∧ .acked ∉ new ∧
    s.acd.probes ≤ new.count (.probe s.acd.ip) ∧
    ∀ p, .heard p ∈ new → p.conflicts s.netif.mac s.acd.ip = false

structure Node.Careful (s : Node) : Prop where
  inStep : s.InStep
  probing : s.acd.active → s.OnProbe
  history : Each (BindsProbed s.netif.mac) s.log
  ip : s.netif.ip = 0 ∨ lastBound s.log = some s.netif.ip

theorem raw32_take (data : List Byte) {off n : Nat} (h : off + 3 < n) :
    raw32 (data.take n) off = raw32 data off := by
  have hg : ∀ i, i < n → (data.take n).getD i 0 = data.getD i 0 := by
    intro i hi
    rw [List.getD_eq_getElem?_getD, List.getD_eq_getElem?_getD, List.getElem?_take_of_lt hi]
  simp only [raw32]
  rw [hg _ (by omega), hg _ (by omega), hg _ (by omega), hg off (by omega)]

theorem Node.Careful.ip_append {notes : List Note} (h : s.Careful)
    (hn : ∀ n ∈ notes, n.boundIp = none) :
    s.netif.ip = 0 ∨ lastBound (s.log ++ notes) = some s.netif.ip := by
  rw [lastBound_append hn]
  exact h.ip

/-- Changes of the client that leave the interface alone. -/
theorem Node.Careful.talk {a : Acd} {notes : List Note} (h : s.Careful)
    (hi : Node.InStep ⟨d, a, s.netif, s.log ++ notes⟩) (ha : a.active = false)
    (hn : ∀ n ∈ notes, n.boundIp = none) :
    Node.Careful ⟨d, a, s.netif, s.log ++ notes⟩ where
  inStep := hi
  probing := Acd.silent ha
  history := each_append h.history hn
  ip := h.ip_append hn

theorem Node.Careful.move {now : BitVec 32} {env : NetEnv}
    (h : s.Careful) (hok : AckAsOffered s (e, env)) (hm : Move now env.udp s e s') : s'.Careful := by
  have hi := h.inStep.move hm
  cases hm with
  | stay => exact h
  | ask hs _ hn =>
    exact h.talk hi (h.inStep.of_asking hs) (fun n hm => Note.boundIp_of_isSent (hn n hm))
  | giveUp hs => exact h.talk hi (h.inStep.of_asking hs) (by simp [Note.boundIp])
  | refused hs => exact h.talk hi (h.inStep.of_leased hs) (by simp [Note.boundIp])
  | renew hs _ _ hn =>
    exact h.talk hi (h.inStep.of_bound hs) (fun n hm => Note.boundIp_of_isSent (hn n hm))
  | expired hs =>
    exact ⟨hi, Acd.silent (h.inStep.of_leased hs), each_append h.history (by simp [Note.boundIp]),
      .inl rfl⟩
  | renewed hs =>
    exact ⟨hi, Acd.silent (h.inStep.of_leased hs),
      h.history.concat (fun ip hb => by simp at hb), .inr (lastBound_bound ..)⟩
  | @acked data ms id hs ht =>
    refine ⟨hi, fun _ => ⟨?_, s.log, [], rfl, by simp, by simp, by simp⟩,
      h.history.concat (.of_none rfl), h.ip_append (by simp [Note.boundIp])⟩
    exact (raw32_take data (by decide)).trans (hok hs ht)
  | @heard data p hp hc =>
    refine ⟨hi, fun ha => ?_, h.history.concat (.of_none rfl),
      h.ip_append (by simp [Note.boundIp])⟩
    obtain ⟨hstash, old, new, hlog, hnot, hcount, hquiet⟩ := h.probing ha
    refine ⟨hstash, old, new ++ [.heard p], by simp [hlog], by simp [hnot], ?_, ?_⟩
    · rw [List.count_append]
      exact Nat.le_add_right_of_le hcount
    · intro q hq
      rcases List.mem_append.mp hq with hq | hq
      · exact hquiet q hq
      · cases List.mem_singleton.mp hq
        exact Bool.eq_false_iff.mpr (fun hb => hc ⟨ha, hb⟩)
  | conflict => exact h.talk hi rfl (by simp [Note.boundIp])
  | @probe ms ha hp =>
    refine ⟨hi, fun _ => ?_, h.history.concat (.of_none rfl),
      h.ip_append (by simp [Note.boundIp])⟩
    obtain ⟨hstash, old, new, hlog, hnot, hcount, hquiet⟩ := h.probing ha
    refine ⟨hstash, old, new ++ [.probe s.acd.ip], by simp [hlog], by simp [hnot], ?_, ?_⟩
    · rw [List.count_append, List.count_singleton_self]
      exact Nat.succ_le_succ hcount
    · intro q hq
      exact hquiet q (by simpa using hq)
  | @free ms ha hp =>
    obtain ⟨hstash, old, new, hlog, hnot, hcount, hquiet⟩ := h.probing ha
    refine ⟨hi, fun hb => Bool.noConfusion hb, h.history.concat ?_, .inr (lastBound_bound ..)⟩
    intro ip hb
    cases hb
    refine ⟨old, new, hlog, hnot, ?_, ?_⟩
    · rw [hstash]
      exact hp.trans hcount
    · rw [hstash]
      exact hquiet

/-- In every run in which the ACK that ends the first exchange is for the offered address, a
first binding takes an address that was probed after the ACK without an objection, and the
address of the interface is the one that was taken last. -/
theorem first_binding_is_probed {s : Node}
    (h : (dhcpSystem.restrict (fun _ => True) AckAsOffered).Reachable s) :
    Each (BindsProbed s.netif.mac) s.log ∧
      (s.netif.ip = 0 ∨ lastBound s.log = some s.netif.ip) := by
  have hi : LTS.Inductive (dhcpSystem.restrict (fun _ => True) AckAsOffered) Node.Careful := by
    refine ⟨?_, fun hc hst => hc.move hst.2 (Node.step_move hst.1)⟩
    rintro s ⟨⟨mac, env, rfl⟩, -⟩
    have hin := Node.InStep.start mac env
    obtain ⟨m, x, a, b, hr⟩ := Node.start_eq mac env
    rw [hr] at hin ⊢
    exact ⟨hin, fun ha => Bool.noConfusion ha, Each.nil.concat (.of_none rfl), .inl rfl⟩
  exact ⟨(hi.reachable h).history, (hi.reachable h).ip⟩

theorem first_binding_is_probed_exchange :
    Each (BindsProbed (exchanged (exchange 9 9)).netif.mac) (exchanged (exchange 9 9)).log ∧
      lastBound (exchanged (exchange 9 9)).log = some 9 := by
  have h := first_binding_is_probed (exchanged_restrict (exchange 9 9) (by decide +kernel))
  exact ⟨h.1, by decide +kernel⟩

/-- The offered address is probed and the acknowledged one taken. -/
theorem acked_address_is_taken : ∃ s, dhcpSystem.Reachable s ∧ s.dhcp.state = .bound ∧
    s.netif.ip = 13 ∧ .bound 13 true ∈ s.log ∧ .probe 13 ∉ s.log := by
  exact ⟨exchanged (exchange 9 13), exchanged_reachable _, by decide +kernel, by decide +kernel,
    by decide +kernel, by decide +kernel⟩

end Zuzu.L5
