import Zuzu.Core.LTS
import Zuzu.L5Net.TcpOut

/-!
# TCP input and the life of a connection (`netd/transport/tcp_in.c`)

The handlers of received segments, one for each state, and the transition system of one
control block from the moment `TcpPcbAlloc` hands it out until it is released. Its labels are
the entry points of netd that reach the block: a received segment, a call of the
application, a timer that goes off. Each comes with an `Env`, which says what becomes of
the frames offered on the way.
-/
namespace Zuzu.L5
open Zuzu.Core

/-! ## Calls into the application

mirrors netd/transport/tcp_pcb.h:21-25 and netd/transport/socket.c:268-308 -/

variable (env : Env) (c : Cx) (seg : Segment)

def notifyData : Cx :=
  if c.pcb.cb then env.onData.foldl (fun c n => (tcpRecv c n).1) c else c

def notifyClose : Cx :=
  if c.pcb.cb then env.onClose.foldl (fun c n => (tcpRecv c n).1) c else c

def notifyWritable : Cx :=
  if c.pcb.cb then env.onWritable.foldl (fun c data => (tcpSend env c data).1) c else c

def notifyEstablished : Cx :=
  if c.pcb.cb ∧ env.onEstablished then (tcpClose c).1 else c

/-! ## Acknowledgements -/

/-- mirrors netd/transport/tcp_in.c:234-249 -/
def tcpOnDupAck : Cx :=
  let c := c.setSnd { c.pcb.snd with dupacks := (c.pcb.snd.dupacks + 1) % 2 ^ 32 }
  if c.pcb.snd.inRecovery then
    c.setSnd { c.pcb.snd with cwnd := (c.pcb.snd.cwnd + c.pcb.snd.mss) % 2 ^ 32 }
  else if c.pcb.snd.dupacks = 3 ∧ seqLeq c.pcb.snd.recover c.pcb.snd.una then
    let c := tcpRetransmitHead (c.setSnd { c.pcb.snd.halve with inRecovery := true })
    c.setSnd { c.pcb.snd with cwnd := (c.pcb.snd.ssthresh + 3 * c.pcb.snd.mss) % 2 ^ 32 }
  else c

/-- mirrors netd/transport/tcp_in.c:253-254 -/
def Snd.isDupAck (s : Snd) (seg : Segment) : Bool :=
  seg.flags.ack ∧ seg.ack = s.una ∧ seg.payload = [] ∧ ¬seg.flags.syn ∧ ¬seg.flags.fin ∧
    s.max ≠ s.una

/-- mirrors netd/transport/tcp_in.c:259 -/
def Snd.isNewAck (s : Snd) (seg : Segment) : Bool :=
  seg.flags.ack ∧ seqLt s.una seg.ack ∧ seqLeq seg.ack s.max

/-- mirrors netd/transport/tcp_in.c:277-280 -/
def Snd.leaveRecovery (s : Snd) : Snd :=
  { s with
    cwnd := min s.ssthresh (((s.max - s.una).toNat + s.mss) % 2 ^ 32)
    inRecovery := false
    dupacks := 0 }

/-- mirrors netd/transport/tcp_in.c:283-285 -/
def Snd.deflate (s : Snd) (acked : Nat) : Snd :=
  let cwnd := if s.cwnd > acked then s.cwnd - acked else s.mss
  { s with cwnd := if acked ≥ s.mss then (cwnd + s.mss) % 2 ^ 32 else cwnd }

/-- mirrors netd/transport/tcp_in.c:288-294 -/
def Snd.grow (s : Snd) (acked : Nat) : Snd :=
  let cwnd :=
    if s.cwnd < s.ssthresh then (s.cwnd + min acked s.mss) % 2 ^ 32
    else (s.cwnd + Max.max 1 (s.mss * s.mss / s.cwnd)) % 2 ^ 32
  { s with dupacks := 0, cwnd := if cwnd > s.size then s.size else cwnd }

/-- mirrors netd/transport/tcp_in.c:276-295 -/
def ackCwnd (acked : Nat) : Cx :=
  if c.pcb.snd.inRecovery then
    if seqLeq c.pcb.snd.recover c.pcb.snd.una then c.setSnd c.pcb.snd.leaveRecovery
    else
      let c := tcpRetransmitHead c
      c.setSnd (c.pcb.snd.deflate acked)
  else c.setSnd (c.pcb.snd.grow acked)

/-- mirrors netd/transport/tcp_in.c:251-306. The flag says whether the ACK was new. -/
def tcpProcessAck : Cx × Bool :=
  if c.pcb.snd.isDupAck seg then (tcpOnDupAck c, false)
  else if ¬c.pcb.snd.isNewAck seg then (c, false)
  else
    let acked := min (seg.ack - c.pcb.snd.una).toNat c.pcb.snd.buffered
    let c := (c.setSnd (c.pcb.snd.ackTo seg.ack)).setRetries 0
    let c := ackCwnd c acked
    let c := c.setRto (c.pcb.snd.max ≠ c.pcb.snd.una)
    if c.pcb.snd.blocked ∧ c.pcb.snd.size - c.pcb.snd.buffered ≥ c.pcb.snd.size / 4 then
      (notifyWritable env (c.setSnd { c.pcb.snd with blocked := false }), true)
    else (c, true)

/-! ## Received data -/

/-- mirrors netd/transport/tcp_in.c:100-104 -/
def tcpEnterFinWait2 : Cx :=
  c.setPcb { c.pcb with state := .finWait2, finWait2Timer := true }

/-- mirrors netd/transport/tcp_in.c:106-113 -/
def tcpEnterTimeWait : Cx :=
  let c := tcpBufsFree c
  c.setPcb { c.pcb with
    rtoTimer := false
    finWait2Timer := false
    state := .timeWait
    twTimer := true }

/-- mirrors netd/transport/tcp_in.c:128-147. The flag says whether the FIN was consumed. -/
def consumeFin : Cx × Bool :=
  if ¬c.pcb.rcv.finDue then (c, false)
  else
    let c := tcpAck (c.setRcv c.pcb.rcv.takeFin)
    match c.pcb.state with
    | .established => (notifyClose env (c.setState .closeWait), true)
    | .finWait1 => (c.setState .closing, true)
    | .finWait2 => (tcpEnterTimeWait c, true)
    | _ => (c, true)

/-- mirrors netd/transport/tcp_in.c:323-331: the segment is the next in order -/
def recvInOrder : Cx × Bool :=
  match c.pcb.rcv.deliverData seg.payload with
  | none => (c.put .fault, true)
  | some r =>
    let c := c.setRcv r.merge
    let ended := c.pcb.rcv.finSeen ∧ c.pcb.rcv.nxt = c.pcb.rcv.finSeq
    (notifyData env (if ended then c else tcpAck c), ¬ended)

/-- mirrors netd/transport/tcp_in.c:320-341. The flag says whether an ACK was offered. -/
def recvPayload : Cx × Bool :=
  if seg.payload = [] then (c, false)
  else if seg.seq = c.pcb.rcv.nxt then recvInOrder env c seg
  else if seqLt c.pcb.rcv.nxt seg.seq then
    (tcpAck (c.tryRcv (c.pcb.rcv.storeOoo seg.seq seg.payload)), true)
  else (tcpAck c, true)

/-- mirrors netd/transport/tcp_in.c:313-346 -/
def tcpRecvText : Cx :=
  let c := c.setRcv (c.pcb.rcv.seeFin seg)
  let r := recvPayload env c seg
  let q := consumeFin env r.1
  if seg.flags.fin ∧ ¬q.2 ∧ ¬r.2 then tcpAck q.1 else q.1

/-! ## Opening -/

/-- ESTABLISHED is entered with the receive ring `b`.
mirrors netd/transport/tcp_in.c:169-173 -/
def Cx.establish (ack : Seq) (b : Nat → Byte) : Cx :=
  (c.setPcb { c.pcb with
    rcv := { c.pcb.rcv with buf := some b }
    rtoTimer := false
    retries := 0
    state := .established }).put (.established ack c.pcb.snd.una c.pcb.snd.nxt c.pcb.snd.max)

/-- mirrors netd/transport/tcp_in.c:165-174 and netd/transport/tcp_pcb.c:10-22 -/
def tcpHandshakeDone (ack : Seq) : Option Cx :=
  if c.pcb.rcv.buf = none ∧ ¬env.rcvRoom then none
  else some (c.establish ack (c.pcb.rcv.buf.getD env.heap))

/-- mirrors netd/transport/tcp_in.c:176-180 -/
def tcpAbort : Cx :=
  tcpPcbRelease (tcpOutput c { rst := true, ack := true } 0).1 .noMem

/-- mirrors netd/transport/tcp_in.c:182-208 -/
def onSynSent : Cx :=
  if seg.flags.syn ∧ seg.flags.ack ∧ seg.ack = c.pcb.snd.nxt then
    let c := (c.setRcv (c.pcb.rcv.synced seg.seq)).setSnd { c.pcb.snd with una := seg.ack }
    match tcpHandshakeDone env c seg.ack with
    | none => tcpAbort c
    | some c => notifyEstablished env (tcpAck (c.setSnd (c.pcb.snd.consumeMss seg).ccInit))
  else if seg.flags.syn ∧ ¬seg.flags.ack then
    let c := c.setRcv (c.pcb.rcv.synced seg.seq)
    let c := c.setSnd
      (Snd.ccInit (Snd.consumeMss { c.pcb.snd with nxt := c.pcb.snd.una } seg))
    (tcpOutput c { syn := true, ack := true } 0).1.setState .synRcvd
  else c

/-- mirrors netd/transport/tcp_in.c:444-462 -/
def onSynRcvd : Cx :=
  if seg.flags.ack ∧ seg.ack = c.pcb.snd.nxt then
    let c := c.setSnd { c.pcb.snd with una := seg.ack }
    match tcpHandshakeDone env c seg.ack with
    | none => tcpAbort c
    | some c =>
      notifyEstablished env
        (if c.pcb.parent ≠ 0 then c.setPcb { c.pcb with cb := env.parentCb } else c)
  else if seg.flags.syn ∧ ¬seg.flags.ack ∧ seqAdd seg.seq 1 = c.pcb.rcv.nxt then
    (tcpOutput (c.setSnd { c.pcb.snd with nxt := c.pcb.snd.una }) { syn := true, ack := true } 0).1
  else c

/-- The segment completes the handshake: it acknowledges the SYN, answers it in SYN_SENT, and
there is memory for the receive ring. mirrors netd/transport/tcp_in.c:184-191 and 446-451 -/
def Pcb.opens (p : Pcb) (env : Env) (seg : Segment) : Bool :=
  ¬seg.flags.rst ∧ seg.flags.ack ∧ seg.ack = p.snd.nxt ∧ (p.rcv.buf ≠ none ∨ env.rcvRoom) ∧
    (p.state = .synRcvd ∨ p.state = .synSent ∧ seg.flags.syn)

/-- The block of an active open before its SYN is offered.
mirrors netd/transport/tcp.c:27-34 -/
def Pcb.opening (p : Pcb) (isn : Seq) : Pcb :=
  { p with
    snd := { p.snd with nxt := isn, una := isn, max := isn, mss := tcpMss }
    rcv := { p.rcv with nxt := 0, rsq := 0 }
    state := .synSent }

/-- mirrors netd/transport/tcp.c:27-46, the block and its port are there -/
def tcpConnect (isn : Seq) : Cx :=
  let c := (c.setPcb (c.pcb.opening isn)).put (.opened isn)
  let r := tcpOutput c { syn := true } 0
  let c := rtoStart r.1
  if r.2 then c.setPcb { c.pcb with cb := true } else tcpPcbRelease c .ok

/-- The block of a passive open before its SYN-ACK is offered, for a SYN that came to the
listener in slot `listener`. mirrors netd/transport/tcp_in.c:420-438 -/
def Pcb.accepting (p : Pcb) (listener : Nat) (seg : Segment) (isn : Seq) : Pcb :=
  let snd := { p.snd with wnd := seg.window, nxt := isn, una := isn, max := isn, mss := 536 }
  { p with
    parent := listener + 1
    rcv := p.rcv.synced seg.seq
    state := .synRcvd
    snd := (snd.consumeMss seg).ccInit }

/-- mirrors netd/transport/tcp_in.c:419-440 -/
def tcpAccept (listener : Nat) (seg : Segment) (isn : Seq) : Cx :=
  let c := c.setPcb (c.pcb.accepting listener seg isn)
  let c := (c.put (.opened isn)).put (.heard seg.window)
  rtoStart (tcpOutput c { syn := true, ack := true } 0).1

/-! ## The other states -/

/-- mirrors netd/transport/tcp_in.c:348-358 -/
def onEstablished : Cx :=
  let c := (tcpProcessAck env c seg).1
  if seg.flags.ack ∧ seqLt c.pcb.snd.max seg.ack then tcpAck c else tcpRecvText env c seg

/-- mirrors netd/transport/tcp_in.c:360-367 -/
def onFinWait1 : Cx :=
  let c := (tcpProcessAck env c seg).1
  tcpRecvText env (if c.pcb.snd.finAcked then tcpEnterFinWait2 c else c) seg

/-- mirrors netd/transport/tcp_in.c:369-373 -/
def onFinWait2 : Cx :=
  tcpRecvText env (tcpProcessAck env c seg).1 seg

/-- mirrors netd/transport/tcp_in.c:375-381 -/
def onClosing : Cx :=
  let r := tcpProcessAck env c seg
  if r.2 ∧ r.1.pcb.snd.finAcked then tcpEnterTimeWait r.1
  else if seg.flags.fin then tcpAck r.1
  else r.1

/-- mirrors netd/transport/tcp_in.c:383-389 -/
def onLastAck : Cx :=
  let r := tcpProcessAck env c seg
  if r.2 ∧ r.1.pcb.snd.finAcked then tcpPcbRelease r.1 .ok else r.1

/-- mirrors netd/transport/tcp_in.c:391-398 -/
def onCloseWait : Cx :=
  let c := (tcpProcessAck env c seg).1
  if seg.flags.fin then tcpAck c else c

/-- mirrors netd/transport/tcp_in.c:531-536 -/
def onTimeWait : Cx :=
  if seg.flags.fin then tcpEnterTimeWait (tcpAck c) else c

/-- mirrors netd/transport/tcp_in.c:503-539; a listening block hands the segment to a new one -/
def onState : Cx :=
  match c.pcb.state with
  | .synSent => onSynSent env c seg
  | .established => onEstablished env c seg
  | .finWait1 => onFinWait1 env c seg
  | .finWait2 => onFinWait2 env c seg
  | .lastAck => onLastAck env c seg
  | .closing => onClosing env c seg
  | .synRcvd => onSynRcvd env c seg
  | .closeWait => onCloseWait env c seg
  | .timeWait => onTimeWait c seg
  | .closed | .listening => c

/-- The states in which a received segment ends with a transmission.
mirrors netd/transport/tcp_in.c:542-546 -/
def TcpState.transmits : TcpState → Bool
  | .established | .closeWait | .finWait1 | .lastAck => true
  | _ => false

/-- mirrors netd/transport/tcp_in.c:484-497 -/
def tcpReset : Cx :=
  let accept : Bool :=
    if c.pcb.state = .synSent then seg.flags.ack ∧ seg.ack = c.pcb.snd.nxt
    else seg.seq = c.pcb.rcv.nxt
  if accept then
    tcpPcbRelease c (if c.pcb.state = .synSent then .connRefused else .connReset)
  else c

/-- mirrors netd/transport/tcp_in.c:482-553, once the block is found -/
def tcpDispatch : Cx :=
  if seg.flags.rst then tcpReset c seg
  else
    let c := (c.setSnd (c.pcb.snd.seeWindow seg.window)).put (.heard seg.window)
    let c := onState env c seg
    if c.pcb.active ∧ c.pcb.state.transmits then tcpXmit c else c

/-! ## The life of a connection -/

/-- What reaches a control block from outside. -/
inductive Op
  | connect (isn : Seq)
  | accept (listener : Nat) (seg : Segment) (isn : Seq)
  | rx (seg : Segment)
  | send (data : List Byte)
  | recv (sz : Nat)
  | close
  | drop        -- the listener of a half-open block is closed (tcp.c:68-73)
  | rto
  | persist
  | timeWait    -- tcp_in.c:86-91
  | finWait2    -- tcp_in.c:93-98

/-- A block is opened once, only an armed timer goes off, and lengths fit in 16 bits. -/
def Op.enabled (p : Pcb) : Op → Prop
  | .connect _ | .accept .. => p.state = .closed
  | .rx _ | .close => p.state ≠ .closed
  | .send data => p.state ≠ .closed ∧ data.length < 2 ^ 16
  | .recv sz => p.state ≠ .closed ∧ sz < 2 ^ 16
  | .drop => p.state = .synRcvd ∧ p.parent ≠ 0
  | .rto => p.rtoTimer
  | .persist => p.persistTimer
  | .timeWait => p.twTimer
  | .finWait2 => p.finWait2Timer

instance (p : Pcb) (op : Op) : Decidable (op.enabled p) := by
  cases op <;> unfold Op.enabled <;> infer_instance

/-- One entry point of netd. Timers are disarmed before their callback runs
(`netd/common/timer.c:48-50`). -/
def Op.exec : Op → Cx
  | .connect isn => tcpConnect c isn
  | .accept listener seg isn => tcpAccept c listener seg isn
  | .rx seg => tcpDispatch env c seg
  | .send data => (tcpSend env c data).1
  | .recv sz => (tcpRecv c sz).1
  | .close => (tcpClose c).1
  | .drop => tcpPcbRelease c .ok
  | .rto => tcpRtoCb c
  | .persist => tcpPersistCb c
  | .timeWait => tcpPcbRelease c .ok
  | .finWait2 => tcpPcbRelease c .timeout

/-- Every frame is sent, there is memory, and the application does nothing of its own. -/
def Env.idle : Env := ⟨Stream'.const .sent, true, true, fun _ => 0, false, [], [], [], true⟩

/-- A step of a connection. A released block is not a connection any more, and netd does not
outlive a fault. -/
def Conn.step (c : Conn) (l : Op × Env) : Option Conn :=
  if c.pcb.active ∧ Out.fault ∉ c.log ∧ l.1.enabled c.pcb then
    some (l.1.exec l.2 ⟨c.pcb, c.log, l.2.tx⟩).conn
  else none

/-- The connections of netd, from the moment their block is handed out. -/
def tcpSystem : LTS Conn (Op × Env) := LTS.ofFun (· = ⟨Pcb.fresh, []⟩) Conn.step

end Zuzu.L5
