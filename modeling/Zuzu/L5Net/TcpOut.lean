import Mathlib.Data.Stream.Defs
import Zuzu.L5Net.TcpPcb

/-!
# TCP output and the application's calls (`netd/transport/tcp_out.c`, `tcp.c`)

A function of netd works on one control block, sends segments and talks to the
application. `Cx` is the block while such a function runs, with what will become of each
frame it offers, and the log of the connection: segments, bytes taken from and given to
the application, and where the connection begins and ends.

A copy to or from a ring that is not there is a fault: it is logged, and netd does
nothing after it. The functions here go on with what is left only to stay total.
-/
namespace Zuzu.L5
open Zuzu.Core

/-- What becomes of a frame: there is no slot for it in the transmit ring (or no room in the
slot), the IP layer refuses it, or it is sent. -/
inductive Tx
  | full | refused | sent
  deriving DecidableEq, Repr

/-- A segment on the wire. The last three fields say what the block held when it left. -/
structure Sent where
  seq : Seq
  flags : Flags
  ack : Seq
  window : Nat
  data : List Byte
  una : Seq
  wnd : Nat
  max : Seq
  deriving DecidableEq, Repr

/-- The error code of `on_closed`. -/
inductive CloseErr
  | ok | timeout | noMem | connRefused | connReset
  deriving DecidableEq, Repr

/-- What the calls of the application return when they fail. -/
inductive TcpErr
  | notConn | noMem
  deriving DecidableEq, Repr

/-- What happens to a connection besides the changes of its block. -/
inductive Out
  | opened (isn : Seq)       -- an initial sequence number is drawn
  | sent (s : Sent)
  | heard (window : Nat)     -- a segment of the peer is taken
  | took (data : List Byte)  -- accepted by `TcpSend`
  | gave (data : List Byte)  -- returned by `TcpRecv`
  | established (ack una nxt max : Seq)  -- the ACK and the block as ESTABLISHED is entered
  | released (err : CloseErr) (state : TcpState) (una : Seq)
  | fault
  deriving DecidableEq, Repr

/-- A connection: its block and what has happened so far. -/
@[ext] structure Conn where
  pcb : Pcb
  log : List Out

/-- A control block while a function works on it. -/
structure Cx where
  pcb : Pcb
  log : List Out
  tx : Stream' Tx

/-- What comes from outside while an entry point of netd runs: what becomes of each frame,
whether there is memory and budget for a ring and what a new one holds, and what the
application does when it is called back (`netd/transport/socket.c`). -/
structure Env where
  tx : Stream' Tx
  sndRoom : Bool
  rcvRoom : Bool
  heap : Nat → Byte
  onEstablished : Bool           -- the new connection is closed at once
  onData : List Nat              -- sizes of the reads
  onClose : List Nat             -- sizes of the reads
  onWritable : List (List Byte)  -- the writes
  parentCb : Bool                -- the listener has callbacks

variable (c : Cx) (f : Flags) (len : Nat)

namespace Cx

def conn : Conn := ⟨c.pcb, c.log⟩

@[simps] def setPcb (p : Pcb) : Cx := { c with pcb := p }

@[simps] def setRcv (r : Rcv) : Cx := { c with pcb := { c.pcb with rcv := r } }

@[simps] def setSnd (s : Snd) : Cx := { c with pcb := { c.pcb with snd := s } }

@[simps] def setTx (tx : Stream' Tx) : Cx := { c with tx := tx }

@[simps] def put (o : Out) : Cx := { c with log := c.log ++ [o] }

@[simps] def setState (st : TcpState) : Cx := { c with pcb := { c.pcb with state := st } }

@[simps] def setRetries (n : Nat) : Cx := { c with pcb := { c.pcb with retries := n } }

@[simps] def setRto (b : Bool) : Cx := { c with pcb := { c.pcb with rtoTimer := b } }

@[simps] def setPersist (b : Bool) : Cx :=
  { c with pcb := { c.pcb with persistTimer := b } }

/-- The receiving side after a copy that may fault. -/
def tryRcv : Option Rcv → Cx
  | none => c.put .fault
  | some r => c.setRcv r

end Cx

/-- mirrors netd/transport/tcp_out.c:27-32 -/
def rtoStart : Cx := c.setRto true

/-- The segment that leaves with the given flags and data.
mirrors netd/transport/tcp_out.c:65-80 -/
def Pcb.segment (p : Pcb) (f : Flags) (data : List Byte) : Sent where
  seq := p.snd.nxt
  flags := f
  ack := if f.ack then p.rcv.nxt else 0
  window := p.rcv.window p.snd.mss
  data := data
  una := p.snd.una
  wnd := p.snd.wnd
  max := p.snd.max

/-- The numbers a segment takes up. mirrors netd/transport/tcp_out.c:95 -/
def Flags.span : Nat :=
  len + (if f.syn then 1 else 0) + (if f.fin then 1 else 0)

/-- A segment is sent.
mirrors netd/transport/tcp_out.c:65-99 -/
def Cx.emit (data : List Byte) : Cx :=
  { c with
    pcb := { c.pcb with
      rcv := c.pcb.rcv.advertise c.pcb.snd.mss
      snd := c.pcb.snd.advance (f.span data.length) }
    log := c.log ++ [.sent (c.pcb.segment f data)] }

/-- mirrors netd/transport/tcp_out.c:46-100. The flag says whether the segment was sent. -/
def tcpOutput : Cx × Bool :=
  let r := c.tx.head
  let c := c.setTx c.tx.tail
  if r = .full then (c, false)
  else
    match c.pcb.snd.copyOut len with
    | none => (c.put .fault, false)
    | some data =>
      -- the new edge of the window is kept even if the IP layer refuses the frame
      if r = .refused then (c.setRcv (c.pcb.rcv.advertise c.pcb.snd.mss), false)
      else (c.emit f data, true)

/-- `TcpOutput(pcb, TCP_ACK, 0)` -/
def tcpAck : Cx := (tcpOutput c { ack := true } 0).1

/-! ## The transmit loop -/

/-- mirrors netd/transport/tcp_out.c:135 and 157 -/
def Cx.markFin (fin : Bool) : Cx :=
  if fin then c.setSnd { c.pcb.snd with finSent := true } else c

/-- The FIN counts as sent before the data segment that carries it is offered.
mirrors netd/transport/tcp_out.c:132-139 -/
def xmitSegment (fin : Bool) : Cx × Bool :=
  tcpOutput (c.markFin fin) { ack := true, fin := fin } len

/-- mirrors netd/transport/tcp_out.c:105-149. Each round sends at least one byte of what is
unsent at first. The flags say whether a segment was sent and whether one failed. -/
def xmitLoop : Nat → Cx → Bool → Cx × Bool × Bool
  | 0, c, sent => (c, sent, false)
  | rounds + 1, c, sent =>
    match c.pcb.snd.plan with
    | none => (c, sent, false)
    | some (len, fin) =>
      let r := xmitSegment c len fin
      if r.2 then xmitLoop rounds r.1 true else (r.1, sent, true)

/-- mirrors netd/transport/tcp_out.c:150-160: the FIN alone, when all data is sent -/
def xmitFin (sent : Bool) : Cx × Bool :=
  if c.pcb.snd.finPending ∧ ¬c.pcb.snd.finAcked ∧ c.pcb.snd.nxt = c.pcb.snd.dataEnd then
    let r := tcpOutput c { ack := true, fin := true } 0
    if r.2 then (r.1.markFin true, true) else (r.1, sent)
  else (c, sent)

/-- mirrors netd/transport/tcp_out.c:161-176 -/
def xmitTimers (sent : Bool) : Cx :=
  let c := if sent then rtoStart c else c
  c.setPersist (c.pcb.snd.stuck ∧ c.pcb.snd.max = c.pcb.snd.una)

/-- mirrors netd/transport/tcp_out.c:102-179 -/
def tcpXmit : Cx :=
  let r := xmitLoop ((c.pcb.snd.dataEnd - c.pcb.snd.nxt).toNat + 1) c false
  if r.2.2 then r.1
  else
    let r := xmitFin r.1 r.2.1
    xmitTimers r.1 r.2

/-- A segment from another place than `snd_nxt`, which is put back afterwards.
mirrors netd/transport/tcp_out.c:193-196 and 206-216 -/
def outputAt (seq : Seq) (f : Flags) (len : Nat) : Cx :=
  let r := (tcpOutput (c.setSnd { c.pcb.snd with nxt := seq }) f len).1
  r.setSnd { r.pcb.snd with nxt := c.pcb.snd.nxt }

/-- mirrors netd/transport/tcp_out.c:204-218 -/
def tcpRetransmitHead : Cx :=
  outputAt c c.pcb.snd.una { ack := true, fin := c.pcb.snd.head.2 } c.pcb.snd.head.1

/-- mirrors netd/transport/tcp_out.c:181-202; the timer has just gone off -/
def tcpPersistCb : Cx :=
  let c := c.setPersist false
  if ¬c.pcb.snd.stuck then tcpXmit c
  else (outputAt c (c.pcb.snd.una - 1) { ack := true } 0).setPersist true

/-- mirrors netd/transport/tcp_pcb.c:52-56 -/
def tcpBufsFree : Cx :=
  c.setPcb { c.pcb with
    snd := { c.pcb.snd with buf := none }
    rcv := { c.pcb.rcv with buf := none } }

/-- mirrors netd/transport/tcp_pcb.c:93-102 and 58-68 -/
def tcpPcbRelease (err : CloseErr) : Cx :=
  let c' := tcpBufsFree (c.put (.released err c.pcb.state c.pcb.snd.una))
  c'.setPcb { c'.pcb with
    cb := false
    state := .closed
    rtoTimer := false
    twTimer := false
    persistTimer := false
    finWait2Timer := false
    active := false }

/-- A SYN of ours is out and not acknowledged. -/
def TcpState.halfOpen (st : TcpState) : Bool := st = .synSent ∨ st = .synRcvd

/-- mirrors netd/transport/tcp_out.c:226-228 -/
def TcpState.retryLimit (st : TcpState) : Nat :=
  if st.halfOpen then tcpSynRetries else tcpDataRetries

/-- mirrors netd/transport/tcp_out.c:243-258 -/
def rtoResend : Cx :=
  let c := c.setSnd { c.pcb.snd with nxt := c.pcb.snd.una }
  if c.pcb.state.halfOpen then
    rtoStart (tcpOutput c { syn := true, ack := c.pcb.state ≠ .synSent } 0).1
  else
    tcpXmit (c.setSnd { c.pcb.snd.halve with
      cwnd := c.pcb.snd.mss
      dupacks := 0
      inRecovery := false })

/-- mirrors netd/transport/tcp_out.c:220-259; the timer has just gone off -/
def tcpRtoCb : Cx :=
  let c := c.setRto false
  if c.pcb.snd.max = c.pcb.snd.una then c
  else
    let c := c.setRetries (c.pcb.retries + 1)
    if c.pcb.retries > c.pcb.state.retryLimit then tcpPcbRelease c .timeout else rtoResend c

/-! ## What the application calls -/

/-- mirrors netd/transport/tcp_out.c:261-285, netd/transport/tcp_pcb.c:10-22 and 35 -/
def tcpSend (env : Env) (c : Cx) (data : List Byte) : Cx × Except TcpErr Nat :=
  if c.pcb.state ≠ .established ∧ c.pcb.state ≠ .closeWait then (c, .error .notConn)
  else if c.pcb.snd.buf = none ∧ ¬env.sndRoom then (c, .error .noMem)
  else
    let c := c.setSnd { c.pcb.snd with buf := some (c.pcb.snd.buf.getD env.heap) }
    let free := c.pcb.snd.size - c.pcb.snd.buffered
    if free = 0 then (c.setSnd { c.pcb.snd with blocked := true }, .ok 0)
    else
      let n := min data.length free
      let c := if n < data.length then c.setSnd { c.pcb.snd with blocked := true } else c
      (tcpXmit ((c.setSnd (c.pcb.snd.enqueue (data.take n))).put (.took (data.take n))), .ok n)

/-- mirrors netd/transport/tcp_in.c:586-611 -/
def tcpRecv (sz : Nat) : Cx × Except TcpErr (List Byte) :=
  if c.pcb.state ≠ .established ∧ c.pcb.state ≠ .closeWait ∧ c.pcb.state ≠ .finWait1 ∧
      c.pcb.state ≠ .finWait2 then (c, .error .notConn)
  else
    let n := min sz c.pcb.rcv.avail
    if n = 0 then (c, .ok [])
    else
      match c.pcb.rcv.read n with
      | none => (c.put .fault, .ok [])
      | some (r, data) =>
        let c := (c.setRcv r).put (.gave data)
        let gain := (seqAdd r.rsq r.size - r.adv).toNat
        (if gain ≥ min (r.size / 2) c.pcb.snd.mss then tcpAck c else c, .ok data)

/-- mirrors netd/transport/tcp.c:63-93, for a block that does not listen. The flag is false
for `ERR_NOTCONN`. -/
def tcpClose : Cx × Bool :=
  let finish := fun st =>
    tcpXmit ((c.setState st).setSnd { c.pcb.snd with finPending := true })
  match c.pcb.state with
  | .synSent => (tcpPcbRelease c .ok, true)
  | .established | .synRcvd => (finish .finWait1, true)
  | .closeWait => (finish .lastAck, true)
  | _ => (c, false)

end Zuzu.L5
