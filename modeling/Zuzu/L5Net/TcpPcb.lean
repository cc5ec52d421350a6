import Zuzu.Core.Ring
import Zuzu.Core.Serial

/-!
# TCP control blocks (`user/services/netd/transport/`)

The data of one connection of the network service, and the functions that work
on one side of it only. `TcpPcb` is kept in two parts: `Rcv` has the fields of the
receiving side (`rcv_nxt`, `rcv_rsq`, `rcv_adv`, the out-of-order ranges, the ring and the
peer's FIN), `Snd` those of the sending side. A timer is the bit that says whether
it is armed: which armed timer fires next comes from outside, so deadlines, the
round-trip estimate and the back-off values that only feed deadlines are left
out. Paths are relative to `user/services/`.
-/
namespace Zuzu.L5
open Zuzu.Core

abbrev Seq := BitVec 32
abbrev Byte := BitVec 8

/-- mirrors netd/transport/tcp.h:23-25 -/
def seqLt (a b : Seq) : Bool := Serial.lt a b
def seqLeq (a b : Seq) : Bool := Serial.le a b
def seqMax (a b : Seq) : Seq := if seqLt a b then b else a

/-- `x + n` for a count of bytes -/
def seqAdd (x : Seq) (n : Nat) : Seq := x + BitVec.ofNat 32 n

/-- mirrors netd/transport/tcp.h:41-54 -/
def tcpMaxPcb : Nat := 128
def tcpMss : Nat := 1460
def tcpOooMax : Nat := 8
def tcpSndBuf : Nat := 1024 * 32
def tcpRcvBuf : Nat := 1024 * 32
def tcpSynRetries : Nat := 6
def tcpListenBacklog : Nat := 16
def tcpDataRetries : Nat := 12

/-- mirrors netd/transport/tcp.h:56-68 -/
inductive TcpState
  | closed | synSent | established | finWait1 | finWait2 | timeWait | closeWait | lastAck
  | closing | listening | synRcvd
  deriving DecidableEq, Repr

/-- The flag bits that netd reads or sets. -/
structure Flags where
  syn : Bool := false
  fin : Bool := false
  rst : Bool := false
  ack : Bool := false
  deriving DecidableEq, Repr

/-- A received segment.
mirrors netd/transport/tcp.h:136-148; `mss` is the option, if there is one -/
structure Segment where
  seq : Seq
  ack : Seq
  flags : Flags
  payload : List Byte
  window : Nat
  mss : Option Nat
  short : payload.length < 2 ^ 16
  narrow : window < 2 ^ 16

theorem nil_fits : ([] : List Byte).length < 2 ^ 16 := by decide
theorem max_fits : 65535 < 2 ^ 16 := by decide

/-- mirrors netd/transport/tcp.h:70-73 -/
structure Range where
  start : Seq
  stop : Seq
  deriving DecidableEq, Repr

/-- The cell of a ring that a sequence number falls into. -/
def cell (seq : Seq) (size : Nat) : Nat := (seq &&& BitVec.ofNat 32 (size - 1)).toNat

/-! ## The receiving side -/

/-- The receiving side of a control block. -/
structure Rcv where
  nxt : Seq
  rsq : Seq
  adv : Seq
  ranges : List Range
  buf : Option (Nat → Byte)
  size : Nat
  finSeq : Seq
  finSeen : Bool
  finRcvd : Bool

/-- mirrors netd/transport/tcp_in.c:23-29 -/
def fwdMerge : Seq → List Range → Seq × List Range
  | nxt, [] => (nxt, [])
  | nxt, x :: xs => if seqLeq x.start nxt then fwdMerge (seqMax nxt x.stop) xs else (nxt, x :: xs)

/-- mirrors netd/transport/tcp_in.c:61-68 -/
def insertRange (x : Range) : List Range → List Range
  | [] => [x]
  | y :: ys => if seqLt y.start x.start then y :: insertRange x ys else x :: y :: ys

/-- mirrors netd/transport/tcp_in.c:70-78, from the range `x` on -/
def fuseFrom (x : Range) : List Range → List Range
  | [] => [x]
  | y :: ys => if seqLeq y.start x.stop then fuseFrom ⟨x.start, seqMax x.stop y.stop⟩ ys
    else x :: fuseFrom y ys

def fuseRanges : List Range → List Range
  | [] => []
  | x :: xs => fuseFrom x xs

namespace Rcv

variable (r : Rcv)

/-- Bytes go into the ring. Without a ring the copy faults, unless there is nothing to copy. -/
def write (seq : Seq) (data : List Byte) : Option Rcv :=
  if data = [] then some r
  else r.buf.map fun b => { r with buf := some (Ring.put r.size b (cell seq r.size) data) }

/-- mirrors netd/transport/tcp_in.c:31-79 -/
def storeOoo (seq : Seq) (payload : List Byte) : Option Rcv :=
  let stop := seqAdd seq payload.length
  if seqLeq stop r.nxt then some r
  else
    let start := if seqLt seq r.nxt then r.nxt else seq
    if seqLt r.adv stop then some r
    else if r.ranges.length ≥ tcpOooMax then some r
    else
      let clip := (start - seq).toNat % 2 ^ 16
      (r.write start (payload.drop clip)).map fun r =>
        { r with ranges := fuseRanges (insertRange ⟨start, stop⟩ r.ranges) }

/-- mirrors netd/transport/tcp_in.c:116-126 -/
def deliverData (payload : List Byte) : Option Rcv :=
  let room := if seqLt r.nxt r.adv then (r.adv - r.nxt).toNat else 0
  let n := min payload.length room
  (r.write r.nxt (payload.take n)).map fun r => { r with nxt := seqAdd r.nxt n }

/-- `FwdMerge(pcb)` -/
def merge : Rcv :=
  { r with nxt := (fwdMerge r.nxt r.ranges).1, ranges := (fwdMerge r.nxt r.ranges).2 }

/-- mirrors netd/transport/tcp_in.c:315-318 -/
def seeFin (s : Segment) : Rcv :=
  if s.flags.fin ∧ ¬r.finSeen then
    { r with finSeq := seqAdd s.seq s.payload.length, finSeen := true } else r

/-- mirrors netd/transport/tcp_in.c:130-133, the FIN is next in order -/
def finDue : Bool := r.finSeen ∧ ¬r.finRcvd ∧ r.nxt = r.finSeq

/-- mirrors netd/transport/tcp_in.c:134-135 -/
def takeFin : Rcv := { r with finRcvd := true, nxt := seqAdd r.nxt 1 }

/-- mirrors netd/transport/tcp_in.c:593-595 -/
def avail : Nat :=
  let n := (r.nxt - r.rsq).toNat
  if r.finRcvd ∧ n ≠ 0 then n - 1 else n

/-- mirrors netd/transport/tcp_in.c:600-607 -/
def read (n : Nat) : Option (Rcv × List Byte) :=
  r.buf.map fun b => ({ r with rsq := seqAdd r.rsq n }, Ring.get r.size b (cell r.rsq r.size) n)

/-- The right edge of the window that the next segment announces.
mirrors netd/transport/tcp_out.c:71-73 -/
def edge (r : Rcv) (mss : Nat) : Seq :=
  let edge := seqAdd r.rsq r.size
  if seqLt r.adv edge ∧ (edge - r.adv).toNat < min (r.size / 2) mss then r.adv else edge

/-- mirrors netd/transport/tcp_out.c:74 -/
def window (mss : Nat) : Nat :=
  if seqLt r.nxt (r.edge mss) then (r.edge mss - r.nxt).toNat % 2 ^ 16 else 0

/-- mirrors netd/transport/tcp_out.c:75 -/
def advertise (mss : Nat) : Rcv := { r with adv := seqAdd r.nxt (r.window mss) }

/-- The sequence numbers of a peer whose SYN has number `seq`.
mirrors netd/transport/tcp_in.c:185-187, 198-200 and 426-428 -/
def synced (seq : Seq) : Rcv :=
  { r with nxt := seqAdd seq 1, rsq := seqAdd seq 1, adv := seqAdd (seqAdd seq 1) r.size }

end Rcv

/-! ## The sending side -/

/-- The sending side of a control block. -/
structure Snd where
  nxt : Seq
  una : Seq
  max : Seq
  wnd : Nat
  buf : Option (Nat → Byte)
  size : Nat
  buffered : Nat
  blocked : Bool
  finPending : Bool
  finSent : Bool
  mss : Nat
  cwnd : Nat
  ssthresh : Nat
  maxWnd : Nat
  dupacks : Nat
  recover : Seq
  inRecovery : Bool

namespace Snd
variable (s : Snd)

/-- One past the last byte that the application gave. -/
def dataEnd : Seq := seqAdd s.una s.buffered

/-- mirrors netd/transport/tcp_out.c:37-44 and 84-85 -/
def copyOut (len : Nat) : Option (List Byte) :=
  if len = 0 then some [] else s.buf.map fun b => Ring.get s.size b (cell s.nxt s.size) len

/-- mirrors netd/transport/tcp_out.c:95-97 -/
def advance (n : Nat) : Snd :=
  let nxt := seqAdd s.nxt n
  { s with nxt, max := if seqLt s.max nxt then nxt else s.max }

/-- mirrors netd/transport/tcp_in.c:308-311 -/
def finAcked : Bool := s.finSent ∧ seqLeq s.max s.una

/-- mirrors netd/transport/tcp.c:95-99 -/
def ccInit : Snd :=
  { s with cwnd := 10 * s.mss, ssthresh := 2 ^ 32 - 1, recover := s.nxt }

/-- mirrors netd/transport/tcp_in.c:149-159 -/
def consumeMss (seg : Segment) : Snd :=
  match seg.mss with
  | none => s
  | some m => { s with mss := min (Max.max m 536) tcpMss }

/-- mirrors netd/transport/tcp_in.c:499-501 -/
def seeWindow (window : Nat) : Snd :=
  { s with wnd := window, maxWnd := if window > s.maxWnd then window else s.maxWnd }

/-- mirrors netd/transport/tcp_out.c:105-136: the length of the next segment of the transmit
loop and whether the FIN goes with it, unless the loop ends here -/
def plan : Option (Nat × Bool) :=
  if seqLeq s.dataEnd s.nxt then none
  else
    let unsent := (s.dataEnd - s.nxt).toNat
    let edge := seqAdd s.una (min s.wnd s.cwnd)
    if seqLeq edge s.nxt then none
    else
      let sendable := (edge - s.nxt).toNat
      let seglen := min (min unsent sendable) s.mss
      let retrans := seqLt s.nxt s.max
      let full := seglen ≥ s.mss
      let drains := seglen = unsent
      let idle := s.max = s.una
      let fin := s.finPending ∧ drains
      let half := seglen ≥ s.maxWnd / 2
      if ¬retrans ∧ ¬(full ∨ half ∨ fin ∨ (drains ∧ idle)) then none
      else if seglen = 0 then none
      else some (seglen, s.finPending ∧ seqAdd s.nxt seglen = s.dataEnd)

/-- mirrors netd/transport/tcp_out.c:207-212: the segment at the head of the ring -/
def head : Nat × Bool :=
  let len := if seqLt s.una s.dataEnd then min s.mss (s.dataEnd - s.una).toNat else 0
  (len, s.finSent ∧ seqAdd s.una len = s.dataEnd)

/-- mirrors netd/transport/tcp_out.c:164-165 and 185-187 -/
def stuck : Bool :=
  seqLt s.nxt s.dataEnd ∧ seqLeq (seqAdd s.una s.wnd) s.nxt

/-- mirrors netd/transport/tcp_out.c:276-282 -/
def enqueue (data : List Byte) : Snd :=
  { s with
    buf := s.buf.map fun b => Ring.put s.size b (cell s.dataEnd s.size) data
    buffered := s.buffered + data.length }

/-- mirrors netd/transport/tcp_in.c:262-274: the bytes before `ack` are done with -/
def ackTo (ack : Seq) : Snd :=
  { s with
    una := ack
    nxt := if seqLt s.nxt ack then ack else s.nxt
    buffered := s.buffered - min (ack - s.una).toNat s.buffered }

/-- mirrors netd/transport/tcp_in.c:242-244 and netd/transport/tcp_out.c:251-256 -/
def halve : Snd :=
  { s with ssthresh := Max.max ((s.max - s.una).toNat / 2) (2 * s.mss), recover := s.max }

end Snd

/-! ## Control blocks -/

/-- mirrors netd/transport/tcp.h:83-134 -/
structure Pcb where
  localIp : Nat
  localPort : Nat
  remoteIp : Nat
  remotePort : Nat
  state : TcpState
  active : Bool
  cb : Bool                  -- whether there are callbacks
  rcv : Rcv
  snd : Snd
  backlog : Nat
  parent : Nat
  retries : Nat
  rtoTimer : Bool
  twTimer : Bool
  persistTimer : Bool
  finWait2Timer : Bool

/-- A block as `TcpPcbAlloc` hands it out.
mirrors netd/transport/tcp_pcb.c:37-50 -/
def Pcb.fresh : Pcb where
  localIp := 0
  localPort := 0
  remoteIp := 0
  remotePort := 0
  state := .closed
  active := true
  cb := false
  rcv := ⟨0, 0, 0, [], none, tcpRcvBuf, 0, false, false⟩
  snd := ⟨0, 0, 0, 0, none, tcpSndBuf, 0, false, false, false, 0, 0, 0, 0, 0, 0, false⟩
  backlog := 0
  parent := 0
  retries := 0
  rtoTimer := false
  twTimer := false
  persistTimer := false
  finWait2Timer := false

end Zuzu.L5
