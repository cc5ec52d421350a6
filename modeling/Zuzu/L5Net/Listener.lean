import Zuzu.L5Net.NetdHeld

/-!
# What packets do to a listening block (`netd/transport/tcp_in.c`)

A listening block has the remote address and port 0 and expects the sequence number 0, as `TcpListen`
leaves them, and lives in the table of the connections. A RST is not told apart from one for
a connection, so the block stays only as long as none has the expected number.

**Results.** `listener_stays`: any sequence of other packets leaves a listening block as it was,
except for the window of the peer.
-/
namespace Zuzu.L5.Netd
open Zuzu.Core
variable {n : Netd} {i l : Nat} {k : Packet} {isn : Seq}

/-- Only the window of the peer has been recorded. -/
def Overheard (p q : Pcb) : Prop := ∃ wnd maxWnd, q = { p with snd := { p.snd with wnd, maxWnd } }

theorem Overheard.refl (p : Pcb) : Overheard p p := ⟨p.snd.wnd, p.snd.maxWnd, rfl⟩

theorem Overheard.trans {p q r : Pcb} (h : Overheard p q) (h' : Overheard q r) : Overheard p r := by
  obtain ⟨_, _, rfl⟩ := h
  obtain ⟨_, _, rfl⟩ := h'
  exact ⟨_, _, rfl⟩

/-- A packet that is not taken for the end of the connection. -/
def Harmless (p : Pcb) (k : Packet) : Prop := ¬(k.seg.flags.rst ∧ k.seg.seq = p.rcv.nxt)

theorem dispatch_overheard (env : Env) (c : Cx) (hl : c.pcb.state = .listening)
    (hk : Harmless c.pcb k) : Overheard c.pcb (Zuzu.L5.tcpDispatch env c k.seg).pcb := by
  unfold Zuzu.L5.tcpDispatch
  split
  · rename_i hr
    rcases tcpReset_cases c k.seg with he | ⟨err, -, hseq⟩
    · rw [he]
      exact .refl _
    · refine absurd ⟨hr, hseq ?_⟩ hk
      rw [hl]
      exact nofun
  · generalize hd : (c.setSnd (c.pcb.snd.seeWindow k.seg.window)).put (.heard k.seg.window) = d
    have hpcb : d.pcb = { c.pcb with snd := c.pcb.snd.seeWindow k.seg.window } := by
      rw [← hd]
      rfl
    have hon : onState env d k.seg = d := by simp [onState, hpcb, hl]
    dsimp only
    rw [hon, if_neg (by simp [hpcb, hl, TcpState.transmits]), hpcb]
    exact ⟨_, _, rfl⟩

/-- A new connection is another block. -/
theorem onListening_slots (ha : (n.pcb l).active) : (n.onListening i k isn).slots l = n.slots l := by
  unfold onListening
  split
  · rfl
  split
  · rfl
  split
  · rfl
  rename_i j hj
  have hne : l ≠ j := by
    rintro rfl
    rw [alloc_inactive hj] at ha
    cases ha
  rw [exec_slots_ne _ _ hne, slots_setSlot_ne _ _ hne]

theorem exec_overheard (hl : (n.pcb l).state = .listening) (hk : Harmless (n.pcb l) k) (i : Nat) :
    Overheard (n.pcb l) ((n.exec i (.rx k.seg)).pcb l) ∧ (n.exec i (.rx k.seg)).ctx l = n.ctx l := by
  by_cases hi : l = i
  · subst hi
    rw [exec_pcb_self, exec_ctx_self, if_neg (by simp [opensBy, Pcb.opens, hl])]
    exact ⟨dispatch_overheard _ _ hl hk, rfl⟩
  · rw [exec_pcb_ne n _ hi, exec_ctx_ne n _ hi]
    exact ⟨.refl _, rfl⟩

theorem tcpDispatch_overheard (isn : Seq) (ha : (n.pcb l).active) (hl : (n.pcb l).state = .listening)
    (hk : Harmless (n.pcb l) k) :
    Overheard (n.pcb l) ((n.tcpDispatch k isn).pcb l) ∧ (n.tcpDispatch k isn).ctx l = n.ctx l := by
  unfold tcpDispatch
  split
  · exact ⟨.refl _, rfl⟩
  · rename_i i _
    have hexec := exec_overheard hl hk i
    have hact : ((n.exec i (.rx k.seg)).pcb l).active := by
      obtain ⟨⟨_, _, he⟩, -⟩ := hexec
      rw [he]
      exact ha
    dsimp only
    split
    · rw [pcb_congr (onListening_slots hact), ctx_congr (onListening_slots hact)]
      exact hexec
    · exact hexec

/-- netd after a sequence of packets. -/
def rxAll (n : Netd) (ks : List (Packet × Seq)) : Netd :=
  ks.foldl (fun n x => n.step (.packet x.1 x.2)) n

theorem rxAll_overheard (ks : List (Packet × Seq)) (ha : (n.pcb l).active)
    (hl : (n.pcb l).state = .listening) (hk : ∀ x ∈ ks, Harmless (n.pcb l) x.1) :
    Overheard (n.pcb l) ((n.rxAll ks).pcb l) ∧ (n.rxAll ks).ctx l = n.ctx l := by
  induction ks generalizing n with
  | nil => exact ⟨.refl _, rfl⟩
  | cons x ks ih =>
    obtain ⟨hx, hks⟩ := List.forall_mem_cons.mp hk
    obtain ⟨hover, hctx⟩ := tcpDispatch_overheard x.2 ha hl hx
    have hrest : Overheard ((n.tcpDispatch x.1 x.2).pcb l) ((n.rxAll (x :: ks)).pcb l) ∧
        (n.rxAll (x :: ks)).ctx l = (n.tcpDispatch x.1 x.2).ctx l := by
      obtain ⟨_, _, he⟩ := id hover
      refine ih ?_ ?_ ?_ <;> rw [he]
      · exact ha
      · exact hl
      · exact hks
    exact ⟨hover.trans hrest.1, hrest.2.trans hctx⟩

/-- A listening block survives every sequence of packets without a RST of the number it expects, and
is found for no source but the address and port that it has for its peer. -/
theorem listener_stays (n : Netd) (l : Nat) (ha : (n.pcb l).active)
    (hl : (n.pcb l).state = .listening) (ks : List (Packet × Seq))
    (hk : ∀ x ∈ ks, Harmless (n.pcb l) x.1) :
    Overheard (n.pcb l) ((n.rxAll ks).pcb l) ∧ (n.rxAll ks).ctx l = n.ctx l ∧
    ∀ localIp localPort srcIp srcPort,
      ¬(srcIp = (n.pcb l).remoteIp ∧ srcPort = (n.pcb l).remotePort) →
      (n.rxAll ks).tcpPcbFind localIp localPort srcIp srcPort ≠ some l := by
  obtain ⟨hover, hctx⟩ := rxAll_overheard ks ha hl hk
  refine ⟨hover, hctx, fun localIp localPort srcIp srcPort hne hfind => hne ?_⟩
  have hp := List.find?_some hfind
  replace hp := of_decide_eq_true hp
  obtain ⟨_, _, he⟩ := hover
  rw [he] at hp
  exact ⟨hp.2.2.1.symm, hp.2.2.2.1.symm⟩

/-- A server on port 80. -/
def serving : Netd :=
  ((boot (Stream'.const Env.idle)).step (.sockOpen 0 (some .tcp) none)).step (.sockListen 0 1 80 5)

/-- A packet to the server with the sequence number 0. -/
def knock (flags : Flags) : Packet := ⟨0x0A000001, 4000, 80, ⟨0, 0, flags, [], 512, none, nil_fits, by decide⟩⟩

theorem listener_stays_syn : Overheard (serving.pcb 0)
    ((serving.rxAll [(knock { syn := true }, 7)]).pcb 0) :=
  (listener_stays serving 0 (by decide +kernel) (by decide +kernel) [(knock { syn := true }, 7)]
    (by simp [Harmless, knock])).1

/-- The server is gone after one forged packet, and a packet from 0.0.0.0 port 0 finds it. -/
theorem reset_kills_listener : (serving.pcb 0).state = .listening ∧
    ((serving.rxAll [(knock { syn := true, rst := true }, 7)]).pcb 0).active = false ∧
    serving.tcpPcbFind 0 80 0 0 = some 0 := by
  decide +kernel

end Zuzu.L5.Netd
