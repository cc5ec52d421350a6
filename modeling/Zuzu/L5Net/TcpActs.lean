import Mathlib.Data.Stream.Init
import Zuzu.L5Net.TcpIn

/-!
# What the functions of the TCP modules do, act by act

Every function of netd that works on a control block is a sequence of small acts:
a segment leaves, an ACK is taken, bytes are stored, a state is left. `SAct` has
the acts of the sending side, `Act` all of them; each says under which circumstances netd does
it. An invariant of connections is then proved once for each act and not once for each
function.

A `Kit` restricts the acts to those that the inputs at hand allow: which ACKs are taken,
which segments are listened to, when the head of the ring is sent again, when a
connection is closed or accepted. `Op.acts`: every entry point of netd is a sequence of acts
of each kit that allows what its inputs ask for.
-/
namespace Zuzu.L5
open Zuzu.Core Relation

/-- The states in which the text of a segment is read. -/
def TcpState.texts : TcpState → Bool
  | .established | .finWait1 | .finWait2 => true
  | _ => false

/-- The states in which `TcpRecv` looks at the ring. -/
def TcpState.reads : TcpState → Bool
  | .established | .closeWait | .finWait1 | .finWait2 => true
  | _ => false

/-- The states in which `TcpSend` takes bytes. -/
def TcpState.writes : TcpState → Bool
  | .established | .closeWait => true
  | _ => false

/-- The bytes that the application was given. -/
def gaveAll (log : List Out) : List Byte :=
  log.flatMap fun
    | .gave data => data
    | _ => []

/-- How many bytes of the peer have arrived in order, read or not, before its FIN. -/
def Cx.recvCount (c : Cx) : Nat :=
  (gaveAll c.log).length + (c.pcb.rcv.nxt - c.pcb.rcv.rsq).toNat

/-- What inputs may ask for: `text` goes by the bytes that have arrived. -/
structure Kit where
  ack : Snd → Seq → Prop
  head : Snd → Prop
  text : Nat → Segment → Prop
  shut : Cx → Prop
  accept : Cx → Prop
  syn : Segment → Prop
  done : Snd → Prop

/-- Everything is allowed. -/
def Kit.all : Kit :=
  ⟨fun _ _ => True, fun _ => True, fun _ _ => True, fun _ => True, fun _ => True, fun _ => True,
    fun _ => True⟩

/-- A segment is sent from `seq`, and `snd_nxt` is put back. -/
def Cx.emitAt (c : Cx) (seq : Seq) (f : Flags) (data : List Byte) : Cx :=
  let r := (c.setSnd { c.pcb.snd with nxt := seq }).emit f data
  r.setSnd { r.pcb.snd with nxt := c.pcb.snd.nxt }

/-- The fields that no other field depends on. -/
structure Pace where
  cwnd : Nat
  ssthresh : Nat
  dupacks : Nat
  blocked : Bool

def Snd.setPace (s : Snd) (a : Pace) : Snd :=
  { s with cwnd := a.cwnd, ssthresh := a.ssthresh, dupacks := a.dupacks, blocked := a.blocked }

/-- The two timers of the sending side, the retries and whether there are callbacks. -/
structure Clocks where
  rto : Bool
  persist : Bool
  retries : Nat
  cb : Bool

def Cx.setClocks (c : Cx) (k : Clocks) : Cx :=
  c.setPcb { c.pcb with
    rtoTimer := k.rto
    persistTimer := k.persist
    retries := k.retries
    cb := k.cb }

/-- An ACK is taken. Recovery ends when it reaches `recover`. -/
def Snd.acked (s : Snd) (ack : Seq) : Snd :=
  { s.ackTo ack with inRecovery := s.inRecovery && !seqLeq s.recover ack }

/-- Acts of the sending side. -/
inductive SAct (K : Kit) (c : Cx) : Cx → Prop
  | tx : SAct K c (c.setTx c.tx.tail)
  | advertise : SAct K c (c.setRcv (c.pcb.rcv.advertise c.pcb.snd.mss))
  | bare (f : Flags) : f.syn = false → f.fin = false → SAct K c (c.emit f [])
  | data (bytes : List Byte) (fin : Bool) :
      c.pcb.snd.plan = some (bytes.length, fin) → c.pcb.snd.copyOut bytes.length = some bytes →
      SAct K c ((c.markFin fin).emit { ack := true, fin := fin } bytes)
  | finLost (len : Nat) :
      c.pcb.snd.plan = some (len, true) → c.tx.head ≠ .sent ∨ .fault ∈ c.log →
      SAct K c ((c.markFin true).setTx c.tx.tail)
  | fin :
      c.pcb.snd.finPending → ¬c.pcb.snd.finAcked → c.pcb.snd.nxt = c.pcb.snd.dataEnd →
      SAct K c ((c.emit { ack := true, fin := true } []).markFin true)
  | head (bytes : List Byte) :
      K.head c.pcb.snd →
      c.pcb.snd.max ≠ c.pcb.snd.una ∨
        (c.pcb.snd.inRecovery ∧ ¬seqLeq c.pcb.snd.recover c.pcb.snd.una) →
      Snd.copyOut { c.pcb.snd with nxt := c.pcb.snd.una } c.pcb.snd.head.1 = some bytes →
      SAct K c (c.emitAt c.pcb.snd.una { ack := true, fin := c.pcb.snd.head.2 } bytes)
  | probe : SAct K c (c.emitAt (c.pcb.snd.una - 1) { ack := true } [])
  | rewind : ¬c.pcb.state.halfOpen → SAct K c (c.setSnd { c.pcb.snd with nxt := c.pcb.snd.una })
  | recover (b : Bool) :
      ¬c.pcb.state.halfOpen → c.pcb.snd.max ≠ c.pcb.snd.una →
      SAct K c (c.setSnd { c.pcb.snd with recover := c.pcb.snd.max, inRecovery := b })
  | pace (a : Pace) : SAct K c (c.setSnd (c.pcb.snd.setPace a))
  | clocks (k : Clocks) : SAct K c (c.setClocks k)
  | alloc (b : Nat → Byte) :
      c.pcb.state.writes → c.pcb.snd.buf = none →
      SAct K c (c.setSnd { c.pcb.snd with buf := some b })
  | took (data : List Byte) :
      c.pcb.state.writes → c.pcb.snd.buf ≠ none →
      data.length ≤ c.pcb.snd.size - c.pcb.snd.buffered →
      SAct K c ((c.setSnd (c.pcb.snd.enqueue data)).put (.took data))
  | acked (ack : Seq) :
      ¬c.pcb.state.halfOpen → K.ack c.pcb.snd ack → seqLt c.pcb.snd.una ack →
      seqLeq ack c.pcb.snd.max → SAct K c (c.setSnd (c.pcb.snd.acked ack))
  | fault :
      c.pcb.snd.buf = none → c.pcb.snd.plan ≠ none ∨ c.pcb.snd.head.1 ≠ 0 →
      SAct K c (c.put .fault)

abbrev SActs (K : Kit) : Cx → Cx → Prop := ReflTransGen (SAct K)

/-- The state after the peer's FIN. -/
def TcpState.afterFin : TcpState → TcpState
  | .established => .closeWait
  | .finWait1 => .closing
  | _ => .timeWait

/-- The state after `TcpClose`. -/
def TcpState.afterClose : TcpState → TcpState
  | .closeWait => .lastAck
  | _ => .finWait1

/-- The block of a simultaneous open before its SYN-ACK is offered. -/
def Pcb.crossing (p : Pcb) (seg : Segment) : Pcb :=
  { p with
    rcv := p.rcv.synced seg.seq
    snd := { (p.snd.consumeMss seg).ccInit with recover := p.snd.una }
    state := .synRcvd }

/-- The SYN of an active open is answered and acknowledged. -/
def Cx.openActive (c : Cx) (seg : Segment) (b : Nat → Byte) : Cx :=
  let d := ((c.setRcv (c.pcb.rcv.synced seg.seq)).setSnd
    { c.pcb.snd with una := c.pcb.snd.nxt }).establish c.pcb.snd.nxt b
  d.setSnd (d.pcb.snd.consumeMss seg).ccInit

/-- The SYN-ACK of a passive or simultaneous open is acknowledged. -/
def Cx.openPassive (c : Cx) (b : Nat → Byte) : Cx :=
  (c.setSnd { c.pcb.snd with una := c.pcb.snd.nxt }).establish c.pcb.snd.nxt b

/-- Acts of both sides, and the changes of state. -/
inductive Act (K : Kit) (c : Cx) : Cx → Prop
  | send {c' : Cx} : SAct K c c' → Act K c c'
  | heard (w : Nat) : w < 2 ^ 16 → Act K c ((c.setSnd (c.pcb.snd.seeWindow w)).put (.heard w))
  | seeFin (seg : Segment) :
      c.pcb.state.texts → K.text c.recvCount seg → Act K c (c.setRcv (c.pcb.rcv.seeFin seg))
  | deliver (seg : Segment) (r : Rcv) :
      c.pcb.state.texts → K.text c.recvCount seg → seg.payload ≠ [] → seg.seq = c.pcb.rcv.nxt →
      c.pcb.rcv.deliverData seg.payload = some r → Act K c (c.setRcv r.merge)
  | store (seg : Segment) (r : Rcv) :
      c.pcb.state.texts → K.text c.recvCount seg → seg.payload ≠ [] →
      seqLt c.pcb.rcv.nxt seg.seq →
      c.pcb.rcv.storeOoo seg.seq seg.payload = some r → Act K c (c.setRcv r)
  | gave (n : Nat) (r : Rcv) (data : List Byte) :
      c.pcb.state.reads → n ≠ 0 → n ≤ c.pcb.rcv.avail → c.pcb.rcv.read n = some (r, data) →
      Act K c ((c.setRcv r).put (.gave data))
  | fault :
      c.pcb.rcv.buf = none → c.pcb.state.texts ∨ c.pcb.state.reads → Act K c (c.put .fault)
  | takeFin :
      c.pcb.state.texts → c.pcb.rcv.finDue →
      Act K c ((c.setRcv c.pcb.rcv.takeFin).setState c.pcb.state.afterFin)
  | bury :
      c.pcb.state = .timeWait ∨ c.pcb.state = .closing ∧ c.pcb.snd.finAcked →
      Act K c (tcpEnterTimeWait c)
  | shut :
      K.shut c → c.pcb.state.writes ∨ c.pcb.state = .synRcvd →
      Act K c ((c.setState c.pcb.state.afterClose).setSnd { c.pcb.snd with finPending := true })
  | finWait2 :
      c.pcb.state = .finWait1 → c.pcb.snd.finAcked → Act K c (tcpEnterFinWait2 c)
  | release (err : CloseErr) :
      (c.pcb.state = .lastAck → err = .ok → c.pcb.snd.finAcked ∨ c.pcb.twTimer) →
      Act K c (tcpPcbRelease c err)
  | connect (isn : Seq) :
      c.pcb.state = .closed → c.pcb.active → c.tx.head = .sent →
      Act K c (((c.setPcb (c.pcb.opening isn)).put (.opened isn)).emit { syn := true } [])
  | stillborn (isn : Seq) (p : Pcb) :
      c.pcb.state = .closed → c.tx.head ≠ .sent →
      Act K c (tcpPcbRelease ((c.setPcb p).put (.opened isn)) .ok)
  | accept (listener : Nat) (seg : Segment) (isn : Seq) :
      c.pcb.state = .closed → c.pcb.active → K.accept c → K.syn seg →
      Act K c ((((c.setPcb (c.pcb.accepting listener seg isn)).put (.opened isn)).put
        (.heard seg.window)).emit { syn := true, ack := true } [])
  | acceptLost (listener : Nat) (seg : Segment) (isn : Seq) :
      c.pcb.state = .closed → c.pcb.active → K.accept c → K.syn seg → c.tx.head ≠ .sent →
      Act K c (((c.setPcb (c.pcb.accepting listener seg isn)).put (.opened isn)).put
        (.heard seg.window))
  | cross (seg : Segment) :
      c.pcb.state = .synSent → K.syn seg → Act K c (c.setPcb (c.pcb.crossing seg))
  | syn (ack : Bool) :
      c.pcb.state.halfOpen →
      Act K c ((c.setSnd { c.pcb.snd with nxt := c.pcb.snd.una }).emit { syn := true, ack := ack } [])
  | synLost :
      c.pcb.state.halfOpen → c.tx.head ≠ .sent →
      Act K c (c.setSnd { c.pcb.snd with nxt := c.pcb.snd.una })
  | openActive (seg : Segment) (b : Nat → Byte) :
      c.pcb.state = .synSent → K.syn seg → K.done c.pcb.snd → Act K c (c.openActive seg b)
  | openPassive (b : Nat → Byte) :
      c.pcb.state = .synRcvd → K.done c.pcb.snd → Act K c (c.openPassive b)
  | abort (r : Rcv) :
      c.pcb.state.halfOpen →
      Act K c (tcpAbort ((c.setRcv r).setSnd { c.pcb.snd with una := c.pcb.snd.nxt }))

abbrev Acts (K : Kit) : Cx → Cx → Prop := ReflTransGen (Act K)

variable {K : Kit} {c c' : Cx}

/-- Every frame is sent. -/
def Cx.Reliable (c : Cx) : Prop := ∀ n, c.tx.get n = .sent

/-! ## What the sending side leaves alone -/

/-- What the acts of the sending side leave alone. -/
structure Kept (c c' : Cx) : Prop where
  state : c'.pcb.state = c.pcb.state
  active : c'.pcb.active = c.pcb.active
  parent : c'.pcb.parent = c.pcb.parent
  rcv : c'.pcb.rcv = { c.pcb.rcv with adv := c'.pcb.rcv.adv }
  gave : gaveAll c'.log = gaveAll c.log
  finPending : c'.pcb.snd.finPending = c.pcb.snd.finPending
  reliable : c.Reliable → c'.Reliable

theorem Kept.refl (c : Cx) : Kept c c := ⟨rfl, rfl, rfl, rfl, rfl, rfl, id⟩

theorem Kept.trans {d : Cx} (h : Kept c d) (h' : Kept d c') : Kept c c' where
  state := h'.state.trans h.state
  active := h'.active.trans h.active
  parent := h'.parent.trans h.parent
  rcv := by rw [h'.rcv, h.rcv]
  gave := h'.gave.trans h.gave
  finPending := h'.finPending.trans h.finPending
  reliable := h'.reliable ∘ h.reliable

theorem Cx.Reliable.tail (h : c.Reliable) : (c.setTx c.tx.tail).Reliable := fun n => h (n + 1)

theorem SAct.kept (h : SAct K c c') : Kept c c' := by
  cases h with
  | tx => exact ⟨rfl, rfl, rfl, rfl, rfl, rfl, Cx.Reliable.tail⟩
  | data bytes fin => cases fin <;>
      exact ⟨rfl, rfl, rfl, rfl, by simp [Cx.emit, Cx.markFin, gaveAll], rfl, id⟩
  | finLost => exact ⟨rfl, rfl, rfl, rfl, rfl, rfl, Cx.Reliable.tail⟩
  | fin => exact ⟨rfl, rfl, rfl, rfl, by simp [Cx.emit, Cx.markFin, gaveAll], rfl, id⟩
  | bare | head | probe =>
    exact ⟨rfl, rfl, rfl, rfl, by simp [Cx.emit, Cx.emitAt, gaveAll], rfl, id⟩
  | took | fault => exact ⟨rfl, rfl, rfl, rfl, by simp [gaveAll], rfl, id⟩
  | _ => exact ⟨rfl, rfl, rfl, rfl, rfl, rfl, id⟩

theorem SActs.kept (h : SActs K c c') : Kept c c' := by
  induction h with
  | refl => exact .refl c
  | tail _ hs ih => exact ih.trans hs.kept

theorem Kept.recvCount (h : Kept c c') : c'.recvCount = c.recvCount := by
  unfold Cx.recvCount
  rw [h.gave, h.rcv]

end Zuzu.L5
